import SweptCache.Proofs.Submissions
import SweptCache.Proofs.SweepBounds

/-!
# What becomes of a submission

A submission that is answered by a registered entry is given that entry and
costs nothing: it takes no reading of free memory and touches nothing else.
Every other submission is one of three. It is admitted on its first reading; it
is admitted on its third, after a sweep that took the second; or it is refused
then, and what the sweep did stays done. Admission itself puts one new entry in
the place of what was registered for its key, and leaves all other keys alone
(`IsAdmission`).
-/

namespace SweptCache.Store

variable {store : Store} {search : Search}

/-- Registering one key leaves the registrations of the others. -/
theorem find?_registerIn_of_ne {key other : SearchKey} (id : EntryId)
    (registrations : List Registration) (different : other ≠ key) :
    (registerIn key id registrations).find? (fun registration => registration.key = other) =
      registrations.find? (fun registration => registration.key = other) := by
  induction registrations with
  | nil => simp [registerIn, different.symm]
  | cons first rest ih =>
    unfold registerIn
    split
    next same =>
      have notNew : ¬key = other := fun equal => different equal.symm
      have notFirst : ¬first.key = other := fun equal => different (equal.symm.trans same)
      rw [List.find?_cons_of_neg (by simpa using notNew),
        List.find?_cons_of_neg (by simpa using notFirst)]
    next => rw [List.find?_cons, List.find?_cons, ih]

/-- A registered entry that answers a search. -/
structure Answers (store : Store) (search : Search) (entry : Entry) : Prop where
  uses : store.usesCache search = true
  registered : entry ∈ store.registeredEntries
  key : entry.key = search.key
  notCancelled : entry.status ≠ .cancelled
  notRequested : entry.cancelRequested = false

/-- A lookup comes to the entry that answers a search. -/
theorem WellFormed.answers_iff (wellFormed : store.WellFormed) {entry : Entry} :
    store.Answers search entry ↔ store.reusable? search = some entry := by
  rw [wellFormed.reusable?_eq_some_iff]
  constructor
  · intro answers
    exact ⟨answers.uses, answers.registered, answers.key, answers.notRequested⟩
  · rintro ⟨uses, registered, key, notRequested⟩
    have coherent := wellFormed.coherent entry (WellFormed.mem_entries_of_registered registered)
    refine ⟨uses, registered, key, ?_, notRequested⟩
    intro cancelled
    rw [coherent.cancelRequested_of_cancelled cancelled] at notRequested
    cases notRequested

/-- Whether a reading of free memory allows a new search. -/
def Allows (store : Store) (reading : UInt64) : Prop :=
  store.settings.minFreeMegabytesForSearch.toNat ≤ wholeMegabytes reading.toNat

instance (store : Store) (reading : UInt64) : Decidable (store.Allows reading) :=
  inferInstanceAs (Decidable (_ ≤ _))

/-- What the admission of a search makes of a cache. -/
structure IsAdmission (base : Store) (search : Search) (later : Store) : Prop where
  /-- One entry has been made, and has not been started. -/
  entries : later.entries = base.entries ++ [.make base.nextId search base.clock]
  /-- If the search uses the cache, that entry alone is registered for its key. -/
  alone : base.usesCache search = true →
    later.registeredEntries.filter (fun entry => entry.key = search.key) =
      [.make base.nextId search base.clock]
  /-- All other keys are as they were. -/
  others : ∀ key, key ≠ search.key → later.registered? key = base.registered? key
  /-- If the search does not use the cache, nothing is registered. -/
  apart : base.usesCache search = false → later.registrations = base.registrations
  /-- Nothing else has changed. -/
  rest : later = { base with entries := later.entries, registrations := later.registrations }

/-- An entry that was there before a search was added is there after it. -/
theorem find?_addSearch {id : EntryId} {entry : Entry} (found : store.find? id = some entry) :
    (store.addSearch search).find? id = some entry := by
  have entries : (store.addSearch search).entries =
      store.entries ++ [.make store.nextId search store.clock] := by
    unfold addSearch
    split <;> rfl
  unfold find? at found ⊢
  rw [entries, List.find?_append, found]
  rfl

/-- Adding a search is its admission. -/
theorem WellFormed.isAdmission_addSearch (wellFormed : store.WellFormed)
    (added : (store.addSearch search).WellFormed) :
    store.IsAdmission search (store.addSearch search) where
  entries := by
    unfold addSearch
    split <;> rfl
  alone := by
    intro uses
    have isNew : Entry.make store.nextId search store.clock ∈
        (store.addSearch search).registeredEntries := by
      rw [added.mem_registeredEntries_iff]
      simp only [addSearch, if_pos uses]
      refine ⟨List.mem_append_right _ (List.mem_singleton_self _), ?_⟩
      refine List.mem_map.mpr ⟨⟨search.key, store.nextId⟩, ?_, rfl⟩
      exact (mem_registerIn_iff wellFormed.keys _).mpr (.inl rfl)
    exact added.filter_key_registeredEntries isNew
  others := by
    intro key different
    have sameRegistration : (store.addSearch search).registration? key =
        store.registration? key := by
      unfold addSearch
      split
      · exact find?_registerIn_of_ne store.nextId store.registrations different
      · rfl
    rw [registered?, registered?, sameRegistration]
    cases isRegistered : store.registration? key with
    | none => rfl
    | some registration =>
      obtain ⟨entry, found, _⟩ :=
        wellFormed.find?_registration (List.mem_of_find?_eq_some isRegistered)
      rw [Option.bind_some, Option.bind_some, found, find?_addSearch found]
  apart := by
    intro apart
    simp [addSearch, apart, addEntry]
  rest := by
    unfold addSearch
    split <;> rfl

/-- A submission that nothing answers is admitted on its first reading if that is enough. -/
theorem WellFormed.admitted_at_once (wellFormed : store.WellFormed)
    (isOpen : store.isShutDown = false) (missing : store.reusable? search = none)
    (enough : store.Allows store.memory.next) :
    ∃ later, store.submit search = (.ok (.created store.nextId), later) ∧
      store.afterReading.IsAdmission search later := by
  have hasMemory : store.hasMemory = true := decide_eq_true enough
  have admitted : store.submit search =
      (.ok (.created store.nextId), store.afterReading.addSearch search) := by
    rw [submit, isOpen, missing, acquireMemory, hasMemory]
    rfl
  have added : (store.afterReading.addSearch search).WellFormed := by
    have after := wellFormed.after (.submit search)
    rwa [Store.after, admitted] at after
  exact ⟨_, admitted, wellFormed.afterReading.isAdmission_addSearch added⟩

/-- A submission that nothing answers sweeps the cache if its first reading is not enough, and is
admitted then if its last one is. -/
theorem WellFormed.admitted_after_sweep (wellFormed : store.WellFormed)
    (isOpen : store.isShutDown = false) (missing : store.reusable? search = none)
    (short : ¬store.Allows store.memory.next) {summary : SweepSummary} {swept : Store}
    (isSwept : store.afterReading.sweep = (.ok summary, swept))
    (enough : store.Allows swept.memory.next) :
    ∃ later, store.submit search = (.ok (.created store.nextId), later) ∧
      swept.afterReading.IsAdmission search later := by
  have hadNone : store.hasMemory = false := decide_eq_false short
  obtain ⟨_, settings, _, _⟩ := store.afterReading.sweep_frame
  have sameId := store.afterReading.nextId_sweep
  rw [isSwept] at settings sameId
  have hasMemory : swept.hasMemory = true := by
    refine decide_eq_true ?_
    rw [settings]
    exact enough
  have admitted : store.submit search =
      (.ok (.created store.nextId), swept.afterReading.addSearch search) := by
    rw [submit, isOpen, missing, acquireMemory, hadNone, isSwept]
    simp only [hasMemory, Bool.false_eq_true, if_false, if_true]
    rw [show swept.afterReading.nextId = store.nextId from sameId]
  have sweptWellFormed : swept.WellFormed := by
    have after := wellFormed.afterReading.after .sweep
    rwa [Store.after, isSwept] at after
  have added : (swept.afterReading.addSearch search).WellFormed := by
    have after := wellFormed.after (.submit search)
    rwa [Store.after, admitted] at after
  exact ⟨_, admitted, sweptWellFormed.afterReading.isAdmission_addSearch added⟩

/-- A submission that nothing answers is refused if neither reading is enough, and what its sweep
did stays done. -/
theorem refused_after_sweep (isOpen : store.isShutDown = false)
    (missing : store.reusable? search = none) (short : ¬store.Allows store.memory.next)
    {summary : SweepSummary} {swept : Store}
    (isSwept : store.afterReading.sweep = (.ok summary, swept))
    (stillShort : ¬store.Allows swept.memory.next) :
    store.submit search =
      (.error (.error (.insufficientMemory (wholeMegabytes swept.memory.next.toNat)
        store.settings.minFreeMegabytesForSearch.toNat)), swept.afterReading) := by
  have hadNone : store.hasMemory = false := decide_eq_false short
  obtain ⟨_, settings, _, _⟩ := store.afterReading.sweep_frame
  rw [isSwept] at settings
  have hasNone : swept.hasMemory = false := by
    refine decide_eq_false ?_
    rw [settings]
    exact stillShort
  rw [submit, isOpen, missing, acquireMemory, hadNone, isSwept]
  simp only [hasNone, Bool.false_eq_true, if_false]

/-- What a submission to a cache comes to that is not shut down and whose size fits in a word. An
entry that answers it is given out, and nothing changes but that it was asked for just now. If
there is none, the search is admitted on the first reading of free memory, without a sweep, if that
is enough. If it is not, the cache is swept as by an explicit sweep, which takes the second reading
and succeeds, and the third decides whether the search is admitted after it or refused. -/
theorem submission_outcomes (reachable : store.Reachable) (isOpen : store.isShutDown = false)
    (fits : (store.registeredEntries.map Entry.exactSize).sum < wordSize) (search : Search) :
    (∀ entry, store.Answers search entry →
      store.submit search = (.ok (.found entry.id), { store with
        entries := store.entries.map fun other =>
          if other.id = entry.id then { other with lastAccess := store.clock } else other })) ∧
    ((∀ entry, ¬store.Answers search entry) →
      (store.Allows store.memory.next →
        ∃ later, store.submit search = (.ok (.created store.nextId), later) ∧
          store.afterReading.IsAdmission search later) ∧
      (¬store.Allows store.memory.next →
        ∃ summary swept, store.afterReading.sweep = (.ok summary, swept) ∧
          swept.memory = store.memory.afterReading.afterReading ∧
          (store.Allows swept.memory.next →
            ∃ later, store.submit search = (.ok (.created store.nextId), later) ∧
              swept.afterReading.IsAdmission search later) ∧
          (¬store.Allows swept.memory.next →
            store.submit search =
              (.error (.error (.insufficientMemory (wholeMegabytes swept.memory.next.toNat)
                store.settings.minFreeMegabytesForSearch.toNat)), swept.afterReading)))) := by
  have wellFormed := reachable.wellFormed
  constructor
  · intro entry answers
    have reusable := wellFormed.answers_iff.mp answers
    have notShut : ¬store.isShutDown = true := by simp [isOpen]
    rw [submit, if_neg notShut, reusable]
    rfl
  · intro unanswered
    have missing : store.reusable? search = none := by
      cases reusable : store.reusable? search with
      | none => rfl
      | some entry => exact absurd (wellFormed.answers_iff.mpr reusable) (unanswered entry)
    constructor
    · intro enough
      exact wellFormed.admitted_at_once isOpen missing enough
    · intro short
      obtain ⟨summary, isSwept⟩ := wellFormed.afterReading.sweep_succeeds fits
      refine ⟨summary, _, isSwept, store.afterReading.memory_sweep, ?_, ?_⟩
      · intro enough
        exact wellFormed.admitted_after_sweep isOpen missing short isSwept enough
      · intro stillShort
        exact refused_after_sweep isOpen missing short isSwept stillShort

/-- A cache with a finished search, when too little memory is free for two readings. -/
def scarce : Store :=
  freshStore.afterAll [.submit (plainSearch "first"), .start 1, .advance 1, .advance 1, .advance 1,
    .advance 1, .advance 1, .memory ⟨1000000, [2000000, 200000000]⟩]

theorem submission_outcomes_of_scarce :
    (∀ entry ∈ scarce.registeredEntries, entry.key = (plainSearch "first").key →
      (scarce.submit (plainSearch "first")).1 = .ok (.found entry.id)) ∧
    ∃ summary swept later, scarce.afterReading.sweep = (.ok summary, swept) ∧
      scarce.submit (plainSearch "second") = (.ok (.created 2), later) ∧
        swept.afterReading.IsAdmission (plainSearch "second") later := by
  have reachable : scarce.Reachable :=
    ⟨.standard 2, .standard, .fixed 200000000, freshStore, _, create_freshStore, rfl⟩
  have fits : (scarce.registeredEntries.map Entry.exactSize).sum < wordSize := by decide
  constructor
  · intro entry registered key
    have undisturbed : ∀ entry ∈ scarce.registeredEntries,
        entry.status ≠ .cancelled ∧ entry.cancelRequested = false := by decide
    obtain ⟨notCancelled, notRequested⟩ := undisturbed entry registered
    obtain ⟨answered, _⟩ := submission_outcomes reachable rfl fits (plainSearch "first")
    rw [answered entry ⟨rfl, registered, key, notCancelled, notRequested⟩]
  · have others : ∀ entry ∈ scarce.registeredEntries, entry.key ≠ (plainSearch "second").key := by
      decide
    obtain ⟨_, unanswered⟩ := submission_outcomes reachable rfl fits (plainSearch "second")
    obtain ⟨_, swept⟩ := unanswered fun entry answers =>
      others entry answers.registered answers.key
    obtain ⟨summary, swept, isSwept, memory, admitted, _⟩ := swept (by decide)
    obtain ⟨later, isAdmitted, admission⟩ := admitted (by rw [memory]; decide)
    exact ⟨summary, swept, later, isSwept, isAdmitted, admission⟩

end SweptCache.Store
