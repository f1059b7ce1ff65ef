import SweptCache.Proofs.PlainRuns
import SweptCache.Proofs.Reachability
import SweptCache.Store.Execution

/-!
# What a submission is granted

A submission that is not refused is given either a registered entry of an equal
search that nobody asked to stop, or a new entry. A client that is given a new
entry and executes the search itself is certain of an outcome.
-/

namespace SweptCache.Store

variable {store : Store} {search : Search}

/-- A search is answered by the entry that is registered for its key, unless
that was asked to stop. -/
theorem WellFormed.reusable?_eq_some_iff (wellFormed : store.WellFormed) {entry : Entry} :
    store.reusable? search = some entry ↔
      store.usesCache search = true ∧ entry ∈ store.registeredEntries ∧ entry.key = search.key ∧
        entry.cancelRequested = false := by
  unfold reusable?
  constructor
  · intro found
    split at found
    next uses =>
      obtain ⟨registered, suitable⟩ := Option.filter_eq_some_iff.mp found
      obtain ⟨member, key⟩ := wellFormed.registered?_eq_some_iff.mp registered
      rw [Bool.and_eq_true, Bool.not_eq_true'] at suitable
      exact ⟨uses, member, key, by simpa using suitable.2⟩
    next => cases found
  · rintro ⟨uses, member, key, uncancelled⟩
    have coherent := wellFormed.coherent entry (WellFormed.mem_entries_of_registered member)
    have notCancelled : entry.status ≠ .cancelled := by
      intro cancelled
      rw [coherent.cancelRequested_of_cancelled cancelled] at uncancelled
      cases uncancelled
    rw [if_pos uses, wellFormed.registered?_eq_some_iff.mpr ⟨member, key⟩]
    simp [Option.filter_some, notCancelled, uncancelled]

/-- The entry that answers a search is there. -/
theorem WellFormed.find?_reusable (wellFormed : store.WellFormed) {entry : Entry}
    (reusable : store.reusable? search = some entry) : store.find? entry.id = some entry := by
  obtain ⟨_, registered, _⟩ := wellFormed.reusable?_eq_some_iff.mp reusable
  exact wellFormed.find?_eq_some_iff.mpr ⟨WellFormed.mem_entries_of_registered registered, rfl⟩

/-- Only submissions register entries. -/
theorem isSubmit_of_registers {event : StoreEvent} {added : Registration}
    (registers : store.registers event = some added) : ∃ search, event = .submit search := by
  rcases store.made_cases event with ⟨_, none⟩ | ⟨search, _, none | ⟨isSubmit, _⟩⟩
  · simp [none] at registers
  · simp [none] at registers
  · exact ⟨search, isSubmit⟩

/-- A submission registers an entry only if none was there to answer it. -/
theorem reusable?_of_registers {search : Search} {added : Registration}
    (registers : store.registers (.submit search) = some added) :
    store.usesCache search = true ∧ store.reusable? search = none ∧ added.key = search.key := by
  simp only [Store.registers] at registers
  rcases store.submit_cases search with ⟨shut, turnedAway⟩ | ⟨found, isOpen, reusable, answered⟩ |
    ⟨needed, missing, ⟨refusal, refused⟩ | created⟩
  · simp [turnedAway] at registers
  · simp [answered] at registers
  · simp [refused] at registers
  · simp only [created] at registers
    split at registers
    next uses =>
      rw [Option.some.injEq] at registers
      exact ⟨uses, missing, by rw [← registers]⟩
    next => cases registers

/-- A submission that is not refused is given an entry that answers it, or a new one. -/
theorem WellFormed.submit_granted (wellFormed : store.WellFormed) {submitted : Submitted}
    (granted : (store.submit search).1 = .ok submitted) :
    (∃ entry, submitted = .found entry.id ∧ store.reusable? search = some entry) ∨
    (submitted = .created store.nextId ∧ store.reusable? search = none ∧
      (store.after (.submit search)).find? store.nextId =
        some (.make store.nextId search store.clock)) := by
  rcases store.submit_cases search with ⟨shut, turnedAway⟩ | ⟨found, isOpen, reusable, answered⟩ |
    ⟨needed, missing, ⟨refusal, refused⟩ | created⟩
  · simp [turnedAway] at granted
  · simp only [answered, Except.ok.injEq] at granted
    exact .inl ⟨found, granted.symm, reusable⟩
  · simp [refused] at granted
  · simp only [created, nextId_admission, Except.ok.injEq] at granted
    refine .inr ⟨granted.symm, missing, ?_⟩
    refine (wellFormed.after (.submit search)).find?_eq_some_iff.mpr ⟨?_, rfl⟩
    rw [entries_after]
    refine List.mem_append_right _ ?_
    simp [made, created]

/-- Asking for an entry does not change what the clients of any entry are given. -/
theorem outcome?_touch (store : Store) (id other : EntryId) :
    (store.touch id).outcome? other = store.outcome? other := by
  rw [outcome?, touch, store.find?_update id other (Entry.touch store.clock) fun _ => rfl, outcome?]
  cases store.find? other with
  | none => rfl
  | some entry =>
    simp only [Option.map_some, Option.bind_some]
    split <;> rfl

/-- A cache that has been shut down grants nothing. -/
theorem isOpen_of_granted {submitted : Submitted}
    (granted : (store.submit search).1 = .ok submitted) : store.isShutDown = false := by
  rw [Bool.eq_false_iff]
  intro shut
  simp [submit, shut] at granted

/-- A client that gets a search is refused when the submission is, and for the same reason. -/
theorem get_of_refused {refusal : Refusal} (refused : (store.submit search).1 = .error refusal) :
    (store.get search).1 = .error refusal := by
  have becomes : store.submit search = (.error refusal, store.after (.submit search)) :=
    Prod.ext refused rfl
  simp only [get, becomes]

/-- A client that gets a search for which there is an entry is told what that entry has come to. -/
theorem WellFormed.get_of_reusable (wellFormed : store.WellFormed) {entry : Entry}
    (isOpen : store.isShutDown = false) (reusable : store.reusable? search = some entry) :
    (store.get search).1 = .ok entry.outcome? := by
  have answered : store.submit search = (.ok (.found entry.id), store.touch entry.id) := by
    simp only [submit, isOpen, Bool.false_eq_true, if_false, reusable]
  simp only [get, answered, outcome?_touch]
  rw [outcome?, wellFormed.find?_reusable reusable, Option.bind_some]

/-- A search that is executed without a break by the client that started it comes to its
plain outcome. -/
theorem outcome_workToEnd {id : EntryId} {entry : Entry} (found : store.find? id = some entry)
    (undisturbed : entry.IsUndisturbed search) :
    ∃ outcome, (store.workToEnd id).outcome? id = some outcome ∧
      contentOf outcome = search.plainOutcome := by
  have works : ∀ steps, ∀ store : Store, ∀ entry, store.find? id = some entry →
      entry.IsUndisturbed search →
        ∃ later, (store.workFor id steps).find? id = some later ∧ later.IsUndisturbed search := by
    intro steps
    induction steps with
    | zero => exact fun store entry found undisturbed => ⟨entry, found, undisturbed⟩
    | succ steps ih =>
      intro store entry found undisturbed
      have worked := store.find?_work id
      rw [found] at worked
      exact ih _ _ worked (undisturbed.advance _)
  obtain ⟨later, foundLater, undisturbedLater⟩ :=
    works (store.stepsLeft id) store entry found undisturbed
  have idle := (stepsLeft_eq_zero_iff _ _).mp (store.stepsLeft_workToEnd id) later foundLater
  obtain ⟨outcome, told, isPlain⟩ := undisturbedLater.outcome_of_idle idle
  refine ⟨outcome, ?_, isPlain⟩
  rw [workToEnd, outcome?, foundLater, Option.bind_some, told]

/-- A client that is given a new entry and executes the search itself is told the
plain outcome of the search. -/
theorem WellFormed.get_of_created (wellFormed : store.WellFormed) {id : EntryId}
    (granted : (store.submit search).1 = .ok (.created id)) :
    ∃ outcome, (store.get search).1 = .ok (some outcome) ∧
      contentOf outcome = search.plainOutcome := by
  rcases wellFormed.submit_granted granted with ⟨entry, isFound, _⟩ | ⟨isCreated, _, found⟩
  · cases isFound
  · injection isCreated with isNext
    subst isNext
    simp only [Store.after] at found
    cases submitted : store.submit search with
    | mk answer created =>
      rw [submitted] at granted found
      simp only at granted found
      have isPending : created.isPending store.nextId = true := by
        simp [Store.isPending, found, Entry.make, Entry.status, Slot.status]
      have started : (created.start store.nextId).find? store.nextId =
          some ((Entry.make store.nextId search store.clock).start created.clock) := by
        rw [start, find?_update _ _ _ _ (Entry.id_start _), found]
        simp [Entry.make]
      obtain ⟨outcome, told, isPlain⟩ :=
        outcome_workToEnd started (Entry.isUndisturbed_start ..)
      refine ⟨outcome, ?_, isPlain⟩
      simp only [get, submitted, granted, execute, isPending, if_true, told]

end SweptCache.Store
