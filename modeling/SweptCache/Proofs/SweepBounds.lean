import SweptCache.Proofs.Reachability
import SweptCache.Proofs.SweepRemovals

/-!
# The bounds that a sweep enforces

Whatever a cache holds before a sweep, it keeps to its bounds afterwards. No
more unfinished searches are registered than may run at once, and none of them
has run too long or is a count that nobody asks for. A finished search stays
only where number and memory are as they should be. The bounds come from what
the two passes of the plan leave, carried over from positions to registered
entries.
-/

namespace SweptCache.Store

variable {store : Store} {plan : Plan}

/-- What a sweep leaves can be counted among the positions that its plan leaves. -/
theorem WellFormed.countP_kept (wellFormed : store.WellFormed) (planned : store.plan = .ok plan)
    (holds : Candidate → Bool) :
    (store.registeredEntries.countP fun entry =>
      holds (store.asCandidate entry) && !store.isRemovedBySweep entry) =
    store.candidates.zipIdx.countP fun item =>
      holds item.1 && decide (item ∉ store.planRemovals.map (·.item)) := by
  calc
    _ = store.registeredEntries.zipIdx.countP fun item =>
          holds (store.asCandidate item.1) && !store.isRemovedBySweep item.1 := by
        conv_lhs => rw [← List.zipIdx_map_fst 0 store.registeredEntries]
        rw [List.countP_map]
        rfl
    _ = store.registeredEntries.zipIdx.countP fun item =>
          holds (store.asCandidate item.1) && decide ((store.asCandidate item.1, item.2) ∉
            store.planRemovals.map (·.item)) := by
        refine List.countP_congr fun item member => ?_
        have found := List.mem_zipIdx_iff_getElem?.mp member
        have removed := wellFormed.isRemovedBySweep_iff planned found
        simp only [Bool.and_eq_true, Bool.not_eq_true', decide_eq_true_eq, ← removed,
          Bool.not_eq_true]
    _ = _ := by
        rw [candidates_eq_map, List.zipIdx_map, List.countP_map]
        rfl

/-- The bytes that a plan evicts are those of the entries that it evicts. -/
theorem evictedBytes_of_forall₂ {removed : List (Entry × SweepAction)} {removals : List Removal}
    (all : List.Forall₂ (fun removed removal =>
      removal.item.1.exactSize = removed.1.exactSize ∧ removal.action = removed.2)
        removed removals) :
    Removal.evictedBytes removals =
      ((removed.filter fun removed => !isAbort removed.2).map (·.1.exactSize)).sum := by
  induction all with
  | nil => rfl
  | @cons first removal rest others same _ ih =>
    obtain ⟨entry, action⟩ := first
    obtain ⟨item, removalAction⟩ := removal
    obtain ⟨size, rfl⟩ := same
    cases removalAction with
    | evict reason =>
      rw [Removal.evictedBytes_evict, ih, size]
      rfl
    | abort reason =>
      rw [Removal.evictedBytes_abort, ih]
      rfl

/-- The bytes that the plan of a sweep evicts are those of the entries that the sweep evicts. -/
theorem evictedBytes_planRemovals (planned : store.plan = .ok plan) :
    Removal.evictedBytes store.planRemovals = (store.evictedBySweep.map Entry.exactSize).sum := by
  have sizes : List.Forall₂ (fun removed removal =>
      removal.item.1.exactSize = removed.1.exactSize ∧ removal.action = removed.2)
      store.sweepRemovals store.planRemovals := by
    refine (forall₂_sweepRemovals planned).imp fun removed removal isRemoval => ?_
    rw [isRemoval.2.1]
    exact ⟨rfl, isRemoval.2.2⟩
  rw [evictedBytes_of_forall₂ sizes, evictedBySweep, List.map_map]
  rfl

/-- A sweep leaves as many registrations as there are registered entries that it leaves. -/
theorem WellFormed.size_sweep (wellFormed : store.WellFormed) :
    store.sweep.2.size =
      store.registeredEntries.countP fun entry => !store.isRemovedBySweep entry := by
  have swept : store.sweep.2.WellFormed := wellFormed.after .sweep
  rw [swept.size_eq, wellFormed.registeredEntries_sweep, List.length_map,
    List.countP_eq_length_filter]

/-- What a sweep leaves is no more than what the first pass of its plan leaves. -/
theorem WellFormed.size_sweep_le (wellFormed : store.WellFormed)
    (planned : store.plan = .ok plan) :
    store.sweep.2.size ≤ store.candidates.length -
      (Plan.firstRemovals store.candidates store.settings.limits store.memory.next).length := by
  have counted := wellFormed.countP_kept planned fun _ => true
  simp only [Bool.true_and] at counted
  rw [wellFormed.size_sweep, counted]
  exact Plan.countP_kept_le store.candidates store.settings.limits store.memory.next

/-- A sweep leaves no more unfinished searches registered than may run at once. -/
theorem WellFormed.countP_unfinished_sweep_le (wellFormed : store.WellFormed)
    (planned : store.plan = .ok plan) :
    (store.sweep.2.registeredEntries.countP fun entry => !entry.isDone) ≤
      store.settings.maxConcurrentSearches.toNat := by
  rw [wellFormed.registeredEntries_sweep, List.countP_map, List.countP_filter]
  have counted := wellFormed.countP_kept planned fun candidate => !candidate.stats.isDone
  calc
    _ = store.registeredEntries.countP fun entry =>
          !(store.asCandidate entry).stats.isDone && !store.isRemovedBySweep entry := by
        refine List.countP_congr fun entry _ => ?_
        simp only [Function.comp_apply, isDone_scored]
        rfl
    _ ≤ store.settings.maxConcurrentSearches.toNat := by
        rw [counted]
        exact Plan.countP_unfinished_le store.candidates store.settings.limits store.memory.next

/-- A search that is registered after a sweep was at a position that its plan left alone. -/
theorem WellFormed.position_of_kept (wellFormed : store.WellFormed)
    (planned : store.plan = .ok plan) {entry : Entry}
    (member : entry ∈ store.sweep.2.registeredEntries) :
    ∃ before position, entry = store.scored before ∧ before ∈ store.registeredEntries ∧
      (store.asCandidate before, position) ∈ store.candidates.zipIdx ∧
      (store.asCandidate before, position) ∉ store.planRemovals.map (·.item) := by
  rw [wellFormed.registeredEntries_sweep] at member
  obtain ⟨before, beforeMember, rfl⟩ := List.mem_map.mp member
  obtain ⟨registered, stays⟩ := List.mem_filter.mp beforeMember
  obtain ⟨position, found⟩ := List.mem_iff_getElem?.mp registered
  refine ⟨before, position, rfl, registered, ?_, ?_⟩
  · rw [List.mem_zipIdx_iff_getElem?, candidates_eq_map, List.getElem?_map, found]
    rfl
  · rw [← wellFormed.isRemovedBySweep_iff planned found]
    simpa using stays

/-- A search that is registered after a sweep is no runaway. If it is finished, the
cache keeps to its number of searches and enough memory is free; if it is
unfinished, it is no abandoned count. -/
theorem WellFormed.kept_by_sweep (wellFormed : store.WellFormed) (planned : store.plan = .ok plan)
    {entry : Entry} (member : entry ∈ store.sweep.2.registeredEntries) :
    store.settings.limits.isRunaway (entry.stats store.sweep.2.clock) = false ∧
      (entry.isDone = true →
        isExceeded store.settings.maxNumberOfSearches store.sweep.2.size = false ∧
        bytesOfMegabytes store.settings.targetFreeMegabytes ≤
          store.memory.next.toNat + (store.evictedBySweep.map Entry.exactSize).sum) ∧
      (entry.isDone = false →
        store.settings.limits.isAbandonedCount (entry.stats store.sweep.2.clock) = false) := by
  obtain ⟨before, position, rfl, _, item, kept⟩ := wellFormed.position_of_kept planned member
  obtain ⟨notRunaway, finished, unfinished⟩ := Plan.kept_of_notMem item kept
  rw [store.sweep_frame.1, stats_scored, isDone_scored]
  refine ⟨notRunaway, ?_, unfinished⟩
  intro done
  obtain ⟨within, _, enough⟩ := finished done
  refine ⟨isExceeded_of_le (wellFormed.size_sweep_le planned) within, ?_⟩
  rw [← evictedBytes_planRemovals planned]
  have deficit : (bytesOfMegabytes store.settings.targetFreeMegabytes : Int) -
      store.memory.next.toNat ≤ Removal.evictedBytes store.planRemovals := enough
  omega

/-- The sizes of what a sweep leaves are those of the entries that it does not remove. -/
theorem WellFormed.sizes_sweep (wellFormed : store.WellFormed) :
    store.sweep.2.registeredEntries.map Entry.exactSize =
      (store.registeredEntries.filter fun entry => !store.isRemovedBySweep entry).map
        Entry.exactSize := by
  rw [wellFormed.registeredEntries_sweep, List.map_map]
  exact List.map_congr_left fun entry _ => store.exactSize_scored entry

/-- What a sweep leaves fits in a word, once it has a plan. -/
theorem WellFormed.sum_sizes_sweep_lt (wellFormed : store.WellFormed)
    (planned : store.plan = .ok plan) :
    (store.sweep.2.registeredEntries.map Entry.exactSize).sum < wordSize := by
  have fewer : (store.sweep.2.registeredEntries.map Entry.exactSize).Sublist
      (store.registeredEntries.map Entry.exactSize) := by
    rw [wellFormed.sizes_sweep]
    exact List.filter_sublist.map _
  exact Nat.lt_of_le_of_lt (fewer.sum_le_sum fun _ _ => Nat.zero_le _)
    (store.plan_isOk_iff.mp ⟨plan, planned⟩)

/-- The estimated size of what a sweep leaves is known, once it has a plan. -/
theorem WellFormed.sizeBytes_sweep (wellFormed : store.WellFormed)
    (planned : store.plan = .ok plan) :
    store.sweep.2.sizeBytes = .ok (store.sweep.2.registeredEntries.map Entry.exactSize).sum :=
  (sizeBytes_eq_ok_iff ..).mpr ⟨rfl, wellFormed.sum_sizes_sweep_lt planned⟩

/-- An overview of what a sweep leaves, once it has a plan. -/
theorem WellFormed.overview_sweep (wellFormed : store.WellFormed)
    (planned : store.plan = .ok plan) :
    store.sweep.2.overview.1 = .ok (.ofSettings store.settings
      (store.sweep.2.registeredEntries.map Entry.exactSize).sum store.sweep.2.size
      store.sweep.2.memory.next) := by
  rw [overview, wellFormed.sizeBytes_sweep planned, store.sweep_frame.2.1]

/-- What a sweep that has a plan tells of what it did and left. -/
def sweepSummary (store : Store) (plan : Plan) : SweepSummary where
  evicted := plan.actions.countP fun decision => !isAbort decision.2
  aborted := plan.actions.countP fun decision => isAbort decision.2
  remaining := store.sweep.2.size
  running := store.sweep.2.registeredEntries.countP fun entry => !entry.isDone
  sizeBytes := (store.sweep.2.registeredEntries.map Entry.exactSize).sum

/-- A sweep that has a plan succeeds. -/
theorem WellFormed.summary_sweep (wellFormed : store.WellFormed)
    (planned : store.plan = .ok plan) : store.sweep.1 = .ok (store.sweepSummary plan) := by
  rw [sweep_fst_of_plan planned, summary, wellFormed.sizeBytes_sweep planned]
  rfl

/-- A sweep succeeds when the sizes of all registered entries fit in a word together. -/
theorem WellFormed.sweep_succeeds (wellFormed : store.WellFormed)
    (fits : (store.registeredEntries.map Entry.exactSize).sum < wordSize) :
    ∃ summary, store.sweep = (.ok summary, store.sweep.2) := by
  obtain ⟨plan, planned⟩ := store.plan_isOk_iff.mpr fits
  exact ⟨_, Prod.ext (wellFormed.summary_sweep planned) rfl⟩

/-- A sweep that succeeds had a plan, and tells what it did with it. -/
theorem WellFormed.exists_plan_of_sweep (wellFormed : store.WellFormed) {summary : SweepSummary}
    {swept : Store} (succeeded : store.sweep = (.ok summary, swept)) :
    ∃ plan, store.plan = .ok plan ∧ swept = store.sweep.2 ∧ summary = store.sweepSummary plan := by
  have answered : store.sweep.1 = .ok summary := by rw [succeeded]
  cases planned : store.plan with
  | ok plan =>
    rw [wellFormed.summary_sweep planned] at answered
    exact ⟨plan, rfl, by rw [succeeded], (Except.ok.inj answered).symm⟩
  | error overflow =>
    rw [sweep_fst_of_overflow planned] at answered
    cases answered

/-- A cache that keeps to the bounds of its settings, as a sweep of it has left it. -/
structure IsWithinBounds (store swept : Store) : Prop where
  /-- No more unfinished searches are registered than may run at once. -/
  unfinished : (swept.registeredEntries.countP fun entry => !entry.isDone) ≤
    store.settings.maxConcurrentSearches.toNat
  /-- None of them has been running too long. -/
  notRunaway : ∀ entry ∈ swept.registeredEntries, entry.isDone = false →
    ¬(entry.searchDone = false ∧
      .ofSeconds store.settings.maxSearchTimeSeconds < entry.waited swept.clock)
  /-- None of them is a count that has gone too long without being asked for. -/
  notAbandoned : ∀ entry ∈ swept.registeredEntries, entry.isDone = false →
    ¬(entry.key.isCount = true ∧
      .ofSeconds store.settings.abandonedCountSeconds < swept.clock.since entry.lastAccess)
  /-- A finished search stays only if there are not too many searches and enough memory
  is free, that of the evicted ones included. -/
  capacity : (∀ entry ∈ swept.registeredEntries, entry.isDone = false) ∨
    (∀ most, store.settings.maxNumberOfSearches = some most → swept.size ≤ most.toNat) ∧
      bytesOfMegabytes store.settings.targetFreeMegabytes ≤
        store.memory.next.toNat + (store.evictedBySweep.map Entry.exactSize).sum
  /-- The number of searches is bounded whatever was registered before. -/
  size : ∀ most, store.settings.maxNumberOfSearches = some most →
    swept.size ≤ max most.toNat store.settings.maxConcurrentSearches.toNat

/-- Every sweep that succeeds leaves the cache within its bounds. -/
theorem bounds_after_sweep (reachable : store.Reachable) {summary : SweepSummary} {swept : Store}
    (succeeded : store.sweep = (.ok summary, swept)) : store.IsWithinBounds swept := by
  have wellFormed := reachable.wellFormed
  have isSwept : swept = store.sweep.2 := by rw [succeeded]
  subst isSwept
  obtain ⟨plan, planned⟩ : ∃ plan, store.plan = .ok plan := by
    rcases store.sweep_cases with ⟨overflow, _, failed⟩ | ⟨plan, _, planned, _⟩
    · rw [failed] at succeeded
      cases succeeded
    · exact ⟨plan, planned⟩
  have unfinished := wellFormed.countP_unfinished_sweep_le planned
  have capacity : (∀ entry ∈ store.sweep.2.registeredEntries, entry.isDone = false) ∨
      (∀ most, store.settings.maxNumberOfSearches = some most →
        store.sweep.2.size ≤ most.toNat) ∧
      bytesOfMegabytes store.settings.targetFreeMegabytes ≤
        store.memory.next.toNat + (store.evictedBySweep.map Entry.exactSize).sum := by
    by_cases allRunning : ∀ entry ∈ store.sweep.2.registeredEntries, entry.isDone = false
    · exact .inl allRunning
    · simp only [not_forall, Bool.not_eq_false] at allRunning
      obtain ⟨entry, member, done⟩ := allRunning
      obtain ⟨within, enough⟩ := (wellFormed.kept_by_sweep planned member).2.1 done
      refine .inr ⟨?_, enough⟩
      intro most limit
      simpa [isExceeded, limit] using within
  refine ⟨unfinished, ?_, ?_, capacity, ?_⟩
  · rintro entry member _ ⟨searching, tooLong⟩
    have runaway : store.settings.limits.isRunaway (entry.stats store.sweep.2.clock) = true := by
      simp only [Limits.isRunaway, Entry.stats, searching, Bool.not_false, Bool.true_and,
        decide_eq_true_eq]
      exact tooLong
    simp [(wellFormed.kept_by_sweep planned member).1] at runaway
  · rintro entry member running ⟨isCount, tooLong⟩
    have abandoned :
        store.settings.limits.isAbandonedCount (entry.stats store.sweep.2.clock) = true := by
      simp only [Limits.isAbandonedCount, Entry.stats, isCount, Bool.true_and, decide_eq_true_eq]
      exact tooLong
    simp [(wellFormed.kept_by_sweep planned member).2.2 running] at abandoned
  · intro most limit
    rcases capacity with allRunning | ⟨within, _⟩
    · have everyOne : store.sweep.2.size =
          store.sweep.2.registeredEntries.countP fun entry => !entry.isDone := by
        have swept : store.sweep.2.WellFormed := wellFormed.after .sweep
        rw [swept.size_eq]
        refine (List.countP_eq_length.mpr ?_).symm
        intro entry member
        simp [allRunning entry member]
      exact (everyOne ▸ unfinished).trans (Nat.le_max_right ..)
    · exact (within most limit).trans (Nat.le_max_left ..)

/-- Settings under which one search may be kept and one may run. -/
def narrowSettings : Settings :=
  { Settings.standard 1 with maxNumberOfSearches := some 1, minFreeMegabytesForSearch := 0 }

/-- A cache with a finished search and two running ones, where one is allowed. -/
def crowded : Store :=
  (empty narrowSettings .standard (.fixed 200000000)).afterAll
    [.submit (plainSearch "first"), .start 1, .advance 1, .advance 1, .advance 1, .advance 1,
      .advance 1, .submit (plainSearch "second"), .start 2, .submit (plainSearch "third"),
      .start 3]

theorem bounds_after_sweep_of_crowded :
    crowded.size = 3 ∧ ∃ summary, crowded.sweep = (.ok summary, crowded.sweep.2) ∧
      crowded.IsWithinBounds crowded.sweep.2 := by
  have reachable : crowded.Reachable :=
    ⟨narrowSettings, .standard, .fixed 200000000, _, _, rfl, rfl⟩
  obtain ⟨summary, succeeded⟩ := reachable.wellFormed.sweep_succeeds (by decide)
  exact ⟨by decide, summary, succeeded, bounds_after_sweep reachable succeeded⟩

end SweptCache.Store
