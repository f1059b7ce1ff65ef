import SweptCache.Proofs.PlanPasses

/-!
# What a sweep removes

A plan speaks of positions; a sweep removes registered entries by their keys.
In a well-formed store the two are the same: every removal of the plan is a
registered entry at its position (`forall₂_sweepRemovals`), and a registered
entry leaves the cache exactly if the plan removes its position
(`any_sweepRemovals_iff`).
-/

namespace SweptCache.Store

/-- A registered entry as a sweep sees it. -/
def asCandidate (store : Store) (entry : Entry) : Candidate :=
  ⟨store.policy (entry.stats store.clock), entry.stats store.clock⟩

theorem candidates_eq_map (store : Store) :
    store.candidates = store.registeredEntries.map store.asCandidate := rfl

/-- What the plan of a sweep that takes place now removes. -/
def planRemovals (store : Store) : List Removal :=
  Plan.removals store.candidates store.settings.limits store.memory.next

/-- Whether a sweep takes an entry out of the cache now. -/
def isRemovedBySweep (store : Store) (entry : Entry) : Bool :=
  store.sweepRemovals.any fun removal => removal.1.key = entry.key

/-- The entries that a sweep evicts now. -/
def evictedBySweep (store : Store) : List Entry :=
  (store.sweepRemovals.filter fun removal => !isAbort removal.2).map (·.1)

variable {store : Store} {plan : Plan}

/-- A sweep carries out every removal of its plan on the registered entry at that position. -/
theorem forall₂_sweepRemovals (planned : store.plan = .ok plan) :
    List.Forall₂ (fun removed removal =>
        store.registeredEntries[removal.item.2]? = some removed.1 ∧
        removal.item.1 = store.asCandidate removed.1 ∧ removal.action = removed.2)
      store.sweepRemovals store.planRemovals := by
  have actions := Plan.actions_of_make planned
  simp only [sweepRemovals, planned, plannedRemovals, actions, List.filterMap_map]
  refine forall₂_filterMap fun removal member => ?_
  have located := (Plan.action_of_mem_removals member).1
  rw [List.mem_zipIdx_iff_getElem?, candidates_eq_map, List.getElem?_map,
    Option.map_eq_some_iff] at located
  obtain ⟨entry, found, same⟩ := located
  exact ⟨(entry, removal.action), by simp [Removal.decision, found], found, same.symm, rfl⟩

/-- A sweep that has no plan removes nothing. -/
theorem sweepRemovals_of_error {overflow : Overflow} (planned : store.plan = .error overflow) :
    store.sweepRemovals = [] := by
  simp [sweepRemovals, planned]

/-- A sweep removes registered entries, aborts only unfinished ones and evicts only
finished ones. -/
theorem action_of_mem_sweepRemovals {removed : Entry × SweepAction}
    (member : removed ∈ store.sweepRemovals) :
    removed.1 ∈ store.registeredEntries ∧
      (removed.1.searchDone = false ∧ removed.2 = .abort .tookTooLong ∨
        removed.1.isDone = true ∧ (∃ reason, removed.2 = .evict reason) ∨
        removed.1.isDone = false ∧ ∃ reason, removed.2 = .abort reason) := by
  cases planned : store.plan with
  | error overflow => simp [sweepRemovals_of_error planned] at member
  | ok plan =>
    obtain ⟨removal, removalMember, found, same, action⟩ :=
      exists_of_forall₂ (forall₂_sweepRemovals planned) member
    refine ⟨List.mem_of_getElem? found, ?_⟩
    have acted := (Plan.action_of_mem_removals removalMember).2
    rw [same, action] at acted
    rcases acted with ⟨runaway, aborted⟩ | finished | unfinished
    · refine .inl ⟨?_, aborted⟩
      rw [Limits.isRunaway, Bool.and_eq_true] at runaway
      simpa [asCandidate, Entry.stats] using runaway.1
    · exact .inr (.inl finished)
    · exact .inr (.inr unfinished)

/-- What a sweep evicts is finished. -/
theorem isDone_of_evicted {entry : Entry} {reason : EvictionReason}
    (member : (entry, .evict reason) ∈ store.sweepRemovals) : entry.isDone = true := by
  rcases (action_of_mem_sweepRemovals member).2 with ⟨_, aborts⟩ | ⟨done, _⟩ | ⟨_, _, aborts⟩
  · cases aborts
  · exact done
  · cases aborts

/-- What a sweep aborts is unfinished. -/
theorem WellFormed.isDone_of_aborted (wellFormed : store.WellFormed) {entry : Entry}
    {reason : AbortReason} (member : (entry, .abort reason) ∈ store.sweepRemovals) :
    entry.isDone = false := by
  obtain ⟨registered, acted⟩ := action_of_mem_sweepRemovals member
  rcases acted with ⟨searching, _⟩ | ⟨_, _, evicts⟩ | ⟨unfinished, _⟩
  · have coherent := wellFormed.coherent entry (WellFormed.mem_entries_of_registered registered)
    rw [Bool.eq_false_iff]
    intro done
    obtain ⟨verdict, settled⟩ := coherent.isSettled_of_isDone done
    simp [settled.searchDone] at searching
  · cases evicts
  · exact unfinished

/-- An entry leaves the cache in a sweep exactly if the plan removes its position. -/
theorem WellFormed.isRemovedBySweep_iff (wellFormed : store.WellFormed)
    (planned : store.plan = .ok plan) {entry : Entry} {position : Nat}
    (found : store.registeredEntries[position]? = some entry) :
    store.isRemovedBySweep entry = true ↔
      (store.asCandidate entry, position) ∈ store.planRemovals.map (·.item) := by
  have removals := forall₂_sweepRemovals planned
  simp only [isRemovedBySweep, List.any_eq_true, decide_eq_true_eq, List.mem_map]
  constructor
  · rintro ⟨removed, member, sameKey⟩
    obtain ⟨removal, removalMember, removedFound, same, _⟩ := exists_of_forall₂ removals member
    have samePosition : removal.item.2 = position := by
      have within : removal.item.2 < (store.registeredEntries.map (·.key)).length := by
        rw [List.length_map]
        exact (List.getElem?_eq_some_iff.mp removedFound).1
      refine (List.getElem?_inj within wellFormed.nodup_keys_registeredEntries).mp ?_
      simp [removedFound, found, sameKey]
    rw [samePosition, found, Option.some.injEq] at removedFound
    refine ⟨removal, removalMember, Prod.ext ?_ samePosition⟩
    rw [same, ← removedFound]
  · rintro ⟨removal, member, isItem⟩
    obtain ⟨removed, removedMember, removedFound, _⟩ := exists_of_forall₂ removals.flip member
    rw [isItem, found, Option.some.injEq] at removedFound
    exact ⟨removed, removedMember, by rw [← removedFound]⟩

/-- A registered entry that leaves the cache in a sweep is evicted or aborted. -/
theorem WellFormed.removal_of_isRemoved (wellFormed : store.WellFormed) {entry : Entry}
    (registered : entry ∈ store.registeredEntries) (removed : store.isRemovedBySweep entry = true) :
    ∃ action, (entry, action) ∈ store.sweepRemovals := by
  obtain ⟨⟨other, action⟩, member, sameKey⟩ := List.any_eq_true.mp removed
  have same : other = entry := wellFormed.registered_unique
    (action_of_mem_sweepRemovals member).1 registered (by simpa using sameKey)
  exact ⟨action, same ▸ member⟩

/-- What a sweep aborts is registered and leaves the cache. -/
theorem WellFormed.isRemoved_of_isAborted (wellFormed : store.WellFormed) {entry : Entry}
    (member : entry ∈ store.entries) (aborted : store.isAbortedBySweep entry = true) :
    entry ∈ store.registeredEntries ∧ store.isRemovedBySweep entry = true := by
  simp only [isAbortedBySweep, List.any_eq_true, Bool.and_eq_true, decide_eq_true_eq] at aborted
  obtain ⟨removed, removedMember, _, same⟩ := aborted
  have registered := (action_of_mem_sweepRemovals removedMember).1
  have isEntry : removed.1 = entry :=
    wellFormed.entry_unique (WellFormed.mem_entries_of_registered registered) member same
  subst isEntry
  exact ⟨registered, List.any_eq_true.mpr ⟨removed, removedMember, by simp⟩⟩

/-- A sweep aborts what it removes if that was decided of it, and only then. -/
theorem WellFormed.isAbortedBySweep_of_mem (wellFormed : store.WellFormed) {entry : Entry}
    {action : SweepAction} (member : (entry, action) ∈ store.sweepRemovals) :
    store.isAbortedBySweep entry = isAbort action := by
  cases action with
  | abort reason => exact List.any_eq_true.mpr ⟨_, member, by simp [isAbort]⟩
  | evict reason =>
    rw [isAbort, Bool.eq_false_iff]
    intro aborted
    obtain ⟨⟨other, action⟩, otherMember, acts⟩ := List.any_eq_true.mp aborted
    rw [Bool.and_eq_true, decide_eq_true_eq] at acts
    have same : other = entry := wellFormed.entry_unique
      (WellFormed.mem_entries_of_registered (action_of_mem_sweepRemovals otherMember).1)
      (WellFormed.mem_entries_of_registered (action_of_mem_sweepRemovals member).1) acts.2
    subst same
    cases action with
    | evict => cases acts.1
    | abort =>
      have done := isDone_of_evicted member
      simp [wellFormed.isDone_of_aborted otherMember] at done

/-- A sweep cancels what it aborts and nothing else. -/
theorem cancel_mem_sweepEffects_iff (store : Store) (entry : Entry) :
    .cancel ∈ store.sweepEffects entry ↔ store.isAbortedBySweep entry = true := by
  simp [sweepEffects]

/-- What a sweep does to a registered entry that stays is to remember its score. -/
theorem WellFormed.afterAll_sweepEffects (wellFormed : store.WellFormed) {entry : Entry}
    (registered : entry ∈ store.registeredEntries) (stays : store.isRemovedBySweep entry = false) :
    entry.afterAll store.clock (store.sweepEffects entry) = store.scored entry := by
  have member := WellFormed.mem_entries_of_registered registered
  have notAborted : store.isAbortedBySweep entry = false := by
    rw [Bool.eq_false_iff]
    intro aborted
    simp [(wellFormed.isRemoved_of_isAborted member aborted).2] at stays
  rw [afterAll_sweepEffects_eq, notAborted]
  rfl

/-- A search that leaves the cache in a sweep is done, or asked to stop. -/
theorem WellFormed.stopped_by_sweep (wellFormed : store.WellFormed) {entry : Entry}
    (registered : entry ∈ store.registeredEntries) (removed : store.isRemovedBySweep entry = true) :
    (entry.afterAll store.clock (store.sweepEffects entry)).searchDone = true ∨
      (entry.afterAll store.clock (store.sweepEffects entry)).cancelRequested = true := by
  have coherent := wellFormed.coherent entry (WellFormed.mem_entries_of_registered registered)
  obtain ⟨action, member⟩ := wellFormed.removal_of_isRemoved registered removed
  cases action with
  | abort reason =>
    have aborted : store.isAbortedBySweep entry = true := wellFormed.isAbortedBySweep_of_mem member
    rw [sweepEffects, if_pos aborted, Entry.afterAll_append]
    exact (coherent.afterAll _).cancel_stops
  | evict reason =>
    obtain ⟨verdict, settled⟩ := coherent.isSettled_of_isDone (isDone_of_evicted member)
    exact .inl (Entry.searchDone_afterAll _ _ _ settled.searchDone)

/-- The registered entries after a sweep are those it does not remove, with their scores. -/
theorem WellFormed.registeredEntries_sweep (wellFormed : store.WellFormed) :
    store.sweep.2.registeredEntries =
      (store.registeredEntries.filter fun entry => !store.isRemovedBySweep entry).map
        store.scored := by
  rw [registeredEntries, registrations_sweep, registeredEntries, List.filterMap_filter,
    List.filter_filterMap, List.map_filterMap]
  refine List.filterMap_congr fun registration member => ?_
  obtain ⟨entry, found, key⟩ := wellFormed.find?_registration member
  have registered : entry ∈ store.registeredEntries :=
    List.mem_filterMap.mpr ⟨registration, member, found⟩
  rw [find?_map store.entries_sweep (fun _ => Entry.id_afterAll ..), found, ← key]
  simp only [Option.map_some, Option.filter_some]
  rw [← isRemovedBySweep]
  cases stays : store.isRemovedBySweep entry with
  | true => rfl
  | false => simp [wellFormed.afterAll_sweepEffects registered stays]

end SweptCache.Store
