import SweptCache.Proofs.Submissions
import SweptCache.Proofs.SweepRemovals

/-!
# How entries leave the cache

Two facts about one event of a cache. Unless the event is gentle, an entry that
leaves the cache in it is done or asked to stop (`WellFormed.stopped_of_leaves`).
And whatever the cache asks to stop leaves it in the same event
(`WellFormed.leaves_of_request`), so that a registered entry is asked to stop only
by its clients, or by its own search, which has the token.
-/

namespace SweptCache

/-- Whether an event takes searches out of the cache and lets them run on. -/
def StoreEvent.isGentle : StoreEvent → Bool
  | .remove _ => true
  | .clear cancelsRunning => !cancelsRunning
  | _ => false

namespace Store

/-- An entry leaves the cache in an event. -/
def Leaves (store : Store) (event : StoreEvent) (id : EntryId) : Prop :=
  id ∈ store.registeredIds ∧ id ∉ (store.after event).registeredIds

variable {store : Store}

/-- A submission that sweeps the cache brings every entry the events of the sweep. -/
theorem effects_submit_of_sweeps {search : Search} (sweeps : store.sweepsFor search = true)
    (entry : Entry) :
    store.effects (.submit search) entry = store.afterReading.sweepEffects entry := by
  have missing : store.reusable? search = none := by
    simp only [sweepsFor, needsAdmission, Bool.and_eq_true, Option.isNone_iff_eq_none] at sweeps
    exact sweeps.1.2
  simp [effects, missing, sweeps]

/-- A cancellation unless the search is done leaves it done or asked to stop. -/
theorem stopped_of_cancelUnlessDone {entry : Entry} (coherent : entry.Coherent) {now : Instant}
    {events : List EntryEvent} (events_eq : events = if !entry.searchDone then [.cancel] else []) :
    (entry.afterAll now events).searchDone = true ∨
      (entry.afterAll now events).cancelRequested = true := by
  subst events_eq
  cases done : entry.searchDone with
  | true => exact .inl done
  | false => exact coherent.cancel_stops

/-- A search that leaves the cache is done or asked to stop, unless it leaves gently. -/
theorem WellFormed.stopped_of_leaves (wellFormed : store.WellFormed) {event : StoreEvent}
    {id : EntryId} {entry : Entry} (found : store.find? id = some entry)
    (leaves : store.Leaves event id) (rough : event.isGentle = false) :
    (entry.afterAll store.clock (store.effects event entry)).searchDone = true ∨
      (entry.afterAll store.clock (store.effects event entry)).cancelRequested = true := by
  obtain ⟨registeredId, gone⟩ := leaves
  obtain ⟨member, rfl⟩ := wellFormed.find?_eq_some_iff.mp found
  have coherent := wellFormed.coherent entry member
  have registered := wellFormed.mem_registeredEntries_iff.mpr ⟨member, registeredId⟩
  have registration := wellFormed.mem_registrations_of_find? found registeredId
  have leaving : store.keeps event ⟨entry.key, entry.id⟩ = false ∨
      ∃ added, store.registers event = some added ∧ entry.key = added.key := by
    by_contra stays
    simp only [not_or, Bool.not_eq_false, not_exists, not_and] at stays
    exact gone ((wellFormed.mem_registeredIds_after_iff found event).mpr
      ⟨registration, stays.1, stays.2⟩)
  rcases leaving with removed | ⟨added, registers, sameKey⟩
  · cases event with
    | submit search =>
      simp only [keeps, Bool.not_eq_false', Bool.and_eq_true] at removed
      rw [effects_submit_of_sweeps removed.1]
      exact wellFormed.afterReading.stopped_by_sweep registered removed.2
    | sweep =>
      simp only [keeps, Bool.not_eq_false'] at removed
      exact wellFormed.stopped_by_sweep registered removed
    | removeIndex index =>
      have listed : entry.id ∈ (store.registrationsOf index).map (·.entry) := by
        refine List.mem_map.mpr ⟨_, List.mem_filter.mpr ⟨registration, ?_⟩, rfl⟩
        simpa [keeps] using removed
      exact stopped_of_cancelUnlessDone coherent (by simp [effects, listed])
    | shutDown => exact stopped_of_cancelUnlessDone coherent (by simp [effects, registeredId])
    | clear cancelsRunning =>
      cases cancelsRunning with
      | true => exact stopped_of_cancelUnlessDone coherent (by simp [effects, registeredId])
      | false => cases rough
    | remove => cases rough
    | start | advance | cancel | trip | touch | score | overview | addEntry | relist | memory
    | pass => cases removed
  · obtain ⟨search, rfl⟩ := isSubmit_of_registers registers
    obtain ⟨uses, missing, isKey⟩ := reusable?_of_registers registers
    have requested : entry.cancelRequested = true := by
      rw [← Bool.not_eq_false]
      intro uncancelled
      have reusable := wellFormed.reusable?_eq_some_iff.mpr
        ⟨uses, registered, sameKey.trans isKey, uncancelled⟩
      simp [missing] at reusable
    exact .inr (Entry.cancelRequested_afterAll _ _ _ requested)

/-- What is asked to stop because it is listed is listed. -/
theorem mem_of_cancel {ids : List EntryId} {entry : Entry}
    (cancels : .cancel ∈
      if ids.contains entry.id && !entry.searchDone then [EntryEvent.cancel] else []) :
    entry.id ∈ ids := by
  by_contra absent
  simp [absent] at cancels

/-- An entry that is cancelled by an event other than its client's leaves the cache in it. -/
theorem WellFormed.leaves_of_cancel (wellFormed : store.WellFormed) {event : StoreEvent}
    {id : EntryId} {entry : Entry} (found : store.find? id = some entry)
    (cancels : .cancel ∈ store.effects event entry) :
    event = .cancel id ∨ store.Leaves event id := by
  obtain ⟨member, rfl⟩ := wellFormed.find?_eq_some_iff.mp found
  have gone : store.keeps event ⟨entry.key, entry.id⟩ = false →
      entry.id ∉ (store.after event).registeredIds := by
    intro removed stays
    have kept := ((wellFormed.mem_registeredIds_after_iff found event).mp stays).2.1
    simp [removed] at kept
  cases event with
  | submit search =>
    simp only [effects] at cancels
    split at cancels
    next => simp at cancels
    next =>
      split at cancels
      next sweeps =>
        rw [cancel_mem_sweepEffects_iff] at cancels
        obtain ⟨registered, removed⟩ :=
          wellFormed.afterReading.isRemoved_of_isAborted member cancels
        refine .inr ⟨(wellFormed.mem_registeredEntries_iff.mp registered).2, gone ?_⟩
        simp only [keeps, Bool.not_eq_false', Bool.and_eq_true]
        exact ⟨sweeps, removed⟩
      next => cases cancels
  | sweep =>
    simp only [effects, cancel_mem_sweepEffects_iff] at cancels
    obtain ⟨registered, removed⟩ := wellFormed.isRemoved_of_isAborted member cancels
    refine .inr ⟨(wellFormed.mem_registeredEntries_iff.mp registered).2, gone ?_⟩
    simp only [keeps, Bool.not_eq_false']
    exact removed
  | cancel target =>
    simp only [effects] at cancels
    split at cancels
    next same => exact .inl (by rw [same])
    next => cases cancels
  | removeIndex index =>
    obtain ⟨registration, ofIndex, same⟩ := List.mem_map.mp (mem_of_cancel cancels)
    obtain ⟨registered, isIndex⟩ := List.mem_filter.mp ofIndex
    have registeredId : entry.id ∈ store.registeredIds :=
      List.mem_map.mpr ⟨registration, registered, same⟩
    refine .inr ⟨registeredId, gone ?_⟩
    obtain ⟨leads, leadsFound, sameKey⟩ := wellFormed.find?_registration registered
    rw [same, found, Option.some.injEq] at leadsFound
    simpa [keeps, leadsFound, sameKey] using isIndex
  | clear cancelsRunning =>
    cases cancelsRunning with
    | true => exact .inr ⟨mem_of_cancel (by simpa [effects] using cancels), gone rfl⟩
    | false => simp [effects] at cancels
  | shutDown => exact .inr ⟨mem_of_cancel cancels, gone rfl⟩
  | start | advance | trip | touch | score =>
    simp only [effects] at cancels
    split at cancels <;> simp at cancels
  | remove | overview | addEntry | relist | memory | pass => simp [effects] at cancels

/-- An entry that an event asks to stop is asked by its client or by its own search, or it leaves
the cache in that event. -/
theorem WellFormed.leaves_of_request (wellFormed : store.WellFormed) {event : StoreEvent}
    {id : EntryId} {entry : Entry} (found : store.find? id = some entry)
    {request : EntryEvent} (isRequest : request.isRequest = true)
    (asks : request ∈ store.effects event entry) :
    event = .cancel id ∨ event = .trip id ∨ store.Leaves event id := by
  cases request with
  | cancel => exact (wellFormed.leaves_of_cancel found asks).imp_right .inr
  | trip =>
    have isTrip := eq_source_of_mem_effects asks rfl
    rw [(wellFormed.find?_eq_some_iff.mp found).2] at isTrip
    exact .inr (.inl isTrip)
  | start | advance | touch | remember => cases isRequest

/-- An entry is asked to stop by its client or by its own search, or in an event in which it leaves
the cache. -/
theorem WellFormed.leaves_of_requested (wellFormed : store.WellFormed) {event : StoreEvent}
    {id : EntryId} {before after : Entry} (foundBefore : store.find? id = some before)
    (foundAfter : (store.after event).find? id = some after)
    (unasked : before.cancelRequested = false) (asked : after.cancelRequested = true) :
    event = .cancel id ∨ event = .trip id ∨ store.Leaves event id := by
  rw [wellFormed.find?_after foundBefore event, Option.some.injEq] at foundAfter
  subst foundAfter
  cases requests : (store.effects event before).any EntryEvent.isRequest with
  | true =>
    obtain ⟨request, asks, isRequest⟩ := List.any_eq_true.mp requests
    exact wellFormed.leaves_of_request foundBefore isRequest asks
  | false =>
    rw [Entry.cancelRequested_afterAll_of_no_request _ _ requests, unasked] at asked
    cases asked

end Store

end SweptCache
