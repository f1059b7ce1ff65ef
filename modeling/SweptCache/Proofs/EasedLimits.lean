import SweptCache.Proofs.ConcurrencyRule

/-!
# Eased limits remove no more

A candidate that one plan keeps changes the counters of all later decisions, so
it is not plain that a plan under eased limits keeps whatever the stricter one
keeps. It does, because both rules of a plan speak of the candidates alone. A
candidate that is pressed to go under the eased limits is pressed to go under the
strict ones as well (`Plan.IsPressed.of_eased`), so the least worthy ones up to
the first that is not are no more (`Plan.mem_evicted_of_eased`). And the same
searches compete for cores, of which there are no fewer.
-/

namespace SweptCache

/-- Whether a bound is no tighter than another; an absent bound is the loosest. -/
def IsNoTighter {α : Type} [LE α] (strict eased : Option α) : Prop :=
  ∀ bound, eased = some bound → ∃ tighter, strict = some tighter ∧ tighter ≤ bound

/-- What exceeds an eased limit exceeds the strict one. -/
theorem isExceeded_of_eased {strict eased : Option UInt64} (easing : IsNoTighter strict eased)
    {amount : Nat} (exceeded : isExceeded eased amount = true) :
    isExceeded strict amount = true := by
  cases eased with
  | none => cases exceeded
  | some most =>
    obtain ⟨tighter, rfl, below⟩ := easing most rfl
    rw [UInt64.le_iff_toNat_le] at below
    simp only [isExceeded, Option.any_some, decide_eq_true_eq] at exceeded ⊢
    omega

namespace Limits

/-- Limits that are eased, with so much memory free under the strict ones and under the eased
ones. The time that a search may take and the time for which a count may go without being asked
for are the same. -/
structure IsEased (strict eased : Limits) (strictFree easedFree : UInt64) : Prop where
  maxEntries : IsNoTighter strict.maxEntries eased.maxEntries
  maxSizeMegabytes : IsNoTighter strict.maxSizeMegabytes eased.maxSizeMegabytes
  maxAge : IsNoTighter strict.maxAge eased.maxAge
  maxSearchTime : strict.maxSearchTime = eased.maxSearchTime
  maxConcurrent : strict.maxConcurrent ≤ eased.maxConcurrent
  abandonedCountTimeout : strict.abandonedCountTimeout = eased.abandonedCountTimeout
  targetFreeMegabytes : eased.targetFreeMegabytes ≤ strict.targetFreeMegabytes
  freeBytes : strictFree ≤ easedFree

variable {strict eased : Limits} {strictFree easedFree : UInt64}

/-- What is too old under eased limits is too old under the strict ones. -/
theorem IsEased.isTooOld (easing : strict.IsEased eased strictFree easedFree) {stats : Stats}
    (tooOld : eased.isTooOld stats = true) : strict.isTooOld stats = true := by
  unfold Limits.isTooOld at tooOld ⊢
  cases bound : eased.maxAge with
  | none =>
    rw [bound] at tooOld
    cases tooOld
  | some most =>
    obtain ⟨tighter, isTighter, below⟩ := easing.maxAge most bound
    rw [bound, Option.any_some, decide_eq_true_eq] at tooOld
    rw [isTighter, Option.any_some, decide_eq_true_eq]
    exact Nat.lt_of_le_of_lt below tooOld

/-- Under eased limits no more memory has to be freed. -/
theorem IsEased.memoryDeficit_le (easing : strict.IsEased eased strictFree easedFree) :
    eased.memoryDeficit easedFree ≤ strict.memoryDeficit strictFree := by
  have target := UInt64.le_iff_toNat_le.mp easing.targetFreeMegabytes
  have free := UInt64.le_iff_toNat_le.mp easing.freeBytes
  have bytes : bytesOfMegabytes eased.targetFreeMegabytes ≤
      bytesOfMegabytes strict.targetFreeMegabytes := by
    simp only [bytesOfMegabytes, bytesPerMegabyte]
    omega
  simp only [memoryDeficit]
  omega

theorem isFinished_congr {limits other : Limits}
    (same : limits.maxSearchTime = other.maxSearchTime) :
    limits.isFinished = other.isFinished := by
  funext item
  rw [isFinished, isFinished, isRunaway_congr same]

theorem isRemovable_congr {limits other : Limits}
    (same : limits.maxSearchTime = other.maxSearchTime) :
    limits.isRemovable = other.isRemovable := by
  funext item
  rw [isRemovable, isRemovable, isFinished_congr same, isRunaway_congr same]

end Limits

namespace Plan

variable {candidates : List Candidate} {strict eased : Limits} {strictFree easedFree : UInt64}
  {strictPlan easedPlan : Plan} {item : Candidate × Nat}

/-- The same candidates are finished under eased limits. -/
theorem finished_of_eased (easing : strict.IsEased eased strictFree easedFree) :
    finished candidates eased = finished candidates strict := by
  rw [finished, finished, Limits.isFinished_congr easing.maxSearchTime]

/-- The same candidates compete for cores under eased limits. -/
theorem eligible_of_eased (easing : strict.IsEased eased strictFree easedFree) :
    eligible candidates eased = eligible candidates strict := by
  rw [eligible, eligible,
    Limits.isEligible_congr easing.maxSearchTime easing.abandonedCountTimeout]

/-- A candidate that is pressed to go under eased limits is pressed to go under the strict ones.
What is counted and added up for it is the same. -/
theorem IsPressed.of_eased (easing : strict.IsEased eased strictFree easedFree)
    (pressed : IsPressed candidates eased easedFree item) :
    IsPressed candidates strict strictFree item := by
  unfold IsPressed at pressed ⊢
  rw [← Limits.isFinished_congr easing.maxSearchTime,
    ← Limits.isRemovable_congr easing.maxSearchTime] at pressed
  rcases pressed with short | tooMany | tooLarge | tooOld
  · have deficit := easing.memoryDeficit_le
    exact .inl (by omega)
  · exact .inr (.inl (isExceeded_of_eased easing.maxEntries tooMany))
  · exact .inr (.inr (.inl (isExceeded_of_eased easing.maxSizeMegabytes tooLarge)))
  · exact .inr (.inr (.inr (easing.isTooOld tooOld)))

/-- What a first pass evicts under eased limits, it evicts under the strict ones. -/
theorem mem_evicted_of_eased (easing : strict.IsEased eased strictFree easedFree)
    (evicted : item ∈ Removal.evicted (firstRemovals candidates eased easedFree)) :
    item ∈ Removal.evicted (firstRemovals candidates strict strictFree) := by
  obtain ⟨fewer, easedEvicts, pressed, _⟩ := evicted_firstRemovals candidates eased easedFree
  obtain ⟨more, strictEvicts, _, unpressed⟩ := evicted_firstRemovals candidates strict strictFree
  rw [finished_of_eased easing] at easedEvicts pressed
  rw [easedEvicts] at evicted
  rw [strictEvicts]
  obtain ⟨index, within, isItem⟩ := List.mem_take_iff_getElem.mp evicted
  by_cases before : index < more
  · exact List.mem_take_iff_getElem.mpr ⟨index, by omega, isItem⟩
  · -- The first candidate that is not pressed to go under the strict limits would be one of
    -- those that are pressed to go under the eased ones.
    have beyond : more < (finished candidates strict).length := by omega
    have isEvicted : (finished candidates strict)[more] ∈ (finished candidates strict).take fewer :=
      List.mem_take_iff_getElem.mpr ⟨more, by omega, rfl⟩
    exact absurd ((pressed _ isEvicted).of_eased easing)
      (unpressed _ (List.getElem?_eq_getElem beyond))

/-- The same runaways are aborted under eased limits. -/
theorem tookTooLong_iff_of_eased (easing : strict.IsEased eased strictFree easedFree)
    (strictMade : make candidates strict strictFree = .ok strictPlan)
    (easedMade : make candidates eased easedFree = .ok easedPlan) (position : Nat) :
    easedPlan.actionFor? position = some (.abort .tookTooLong) ↔
      strictPlan.actionFor? position = some (.abort .tookTooLong) := by
  simp only [actionFor?_eq_tookTooLong_iff strictMade, actionFor?_eq_tookTooLong_iff easedMade,
    Limits.isRunaway_congr easing.maxSearchTime]

/-- The same abandoned counts are aborted under eased limits. -/
theorem abandonedCount_iff_of_eased (easing : strict.IsEased eased strictFree easedFree)
    (strictMade : make candidates strict strictFree = .ok strictPlan)
    (easedMade : make candidates eased easedFree = .ok easedPlan) (position : Nat) :
    easedPlan.actionFor? position = some (.abort .abandonedCount) ↔
      strictPlan.actionFor? position = some (.abort .abandonedCount) := by
  simp only [actionFor?_eq_abandonedCount_iff strictMade,
    actionFor?_eq_abandonedCount_iff easedMade, Limits.isRunning_congr easing.maxSearchTime,
    Limits.isAbandonedCount_congr easing.abandonedCountTimeout]

/-- A search for which no core is left under eased limits has none left under the strict ones. -/
theorem noCoresLeft_of_eased (easing : strict.IsEased eased strictFree easedFree)
    (strictMade : make candidates strict strictFree = .ok strictPlan)
    (easedMade : make candidates eased easedFree = .ok easedPlan) {position : Nat}
    (aborts : easedPlan.actionFor? position = some (.abort .noCoresLeft)) :
    strictPlan.actionFor? position = some (.abort .noCoresLeft) := by
  obtain ⟨candidate, beyond⟩ := (actionFor?_eq_noCoresLeft_iff easedMade).mp aborts
  rw [eligible_of_eased easing] at beyond
  have fewer := UInt64.le_iff_toNat_le.mp easing.maxConcurrent
  exact (actionFor?_eq_noCoresLeft_iff strictMade).mpr
    ⟨candidate, (List.drop_sublist_drop_left _ fewer).mem beyond⟩

/-- Eased limits remove no more. When number, size and age are limited less, more searches may run,
less memory has to be free and more is, there is a plan exactly if there is one under the strict
limits. It evicts no candidate that is kept under them, and aborts none that is not aborted under
them for the same reason. Runaways and abandoned counts are aborted just as under them. -/
theorem eased_limits_remove_no_more (easing : strict.IsEased eased strictFree easedFree)
    (succeeds : (∃ plan, make candidates strict strictFree = .ok plan) ∨
      ∃ plan, make candidates eased easedFree = .ok plan) :
    ∃ strictPlan easedPlan, make candidates strict strictFree = .ok strictPlan ∧
      make candidates eased easedFree = .ok easedPlan ∧
      (∀ position, (∃ reason, easedPlan.actionFor? position = some (.evict reason)) →
        ∃ reason, strictPlan.actionFor? position = some (.evict reason)) ∧
      (∀ position reason, easedPlan.actionFor? position = some (.abort reason) →
        strictPlan.actionFor? position = some (.abort reason)) ∧
      ∀ position,
        (easedPlan.actionFor? position = some (.abort .tookTooLong) ↔
          strictPlan.actionFor? position = some (.abort .tookTooLong)) ∧
        (easedPlan.actionFor? position = some (.abort .abandonedCount) ↔
          strictPlan.actionFor? position = some (.abort .abandonedCount)) := by
  obtain ⟨plan, limits, freeBytes, made⟩ :
      ∃ plan limits freeBytes, make candidates limits freeBytes = .ok plan := by
    rcases succeeds with ⟨plan, made⟩ | ⟨plan, made⟩
    · exact ⟨plan, _, _, made⟩
    · exact ⟨plan, _, _, made⟩
  obtain ⟨strictPlan, strictMade⟩ := exists_make_of_make made strict strictFree
  obtain ⟨easedPlan, easedMade⟩ := exists_make_of_make made eased easedFree
  have runaways := tookTooLong_iff_of_eased easing strictMade easedMade
  have abandoned := abandonedCount_iff_of_eased easing strictMade easedMade
  refine ⟨strictPlan, easedPlan, strictMade, easedMade, ?_, ?_,
    fun position => ⟨runaways position, abandoned position⟩⟩
  · intro position evicts
    obtain ⟨candidate, evicted⟩ := (exists_evict_iff easedMade).mp evicts
    exact (exists_evict_iff strictMade).mpr ⟨candidate, mem_evicted_of_eased easing evicted⟩
  · intro position reason aborts
    cases reason with
    | tookTooLong => exact (runaways position).mp aborts
    | abandonedCount => exact (abandoned position).mp aborts
    | noCoresLeft => exact noCoresLeft_of_eased easing strictMade easedMade aborts

/-- Three finished searches, a runaway and two other searches. -/
def bustle : List Candidate :=
  [⟨5, settledStats⟩, ⟨3, settledStats⟩, ⟨1, settledStats⟩, ⟨9, endlessStats⟩, ⟨4, searchingStats⟩,
    ⟨2, searchingStats⟩]

/-- Limits by which so many searches may stay, and one may run. -/
def bustleLimits (most : UInt64) : Limits :=
  { (Settings.standard 1).limits with maxEntries := some most }

theorem eased_limits_remove_no_more_in_bustle :
    (bustleLimits 2).IsEased (bustleLimits 4) 100000000 200000000 ∧
      ∃ strictPlan easedPlan, make bustle (bustleLimits 2) 100000000 = .ok strictPlan ∧
        make bustle (bustleLimits 4) 200000000 = .ok easedPlan ∧
        easedPlan.actions = [(2, .evict .tooManySearches), (1, .evict .tooManySearches),
          (3, .abort .tookTooLong), (5, .abort .noCoresLeft)] ∧
        (∃ reason, strictPlan.actionFor? 2 = some (.evict reason)) ∧
        (∃ reason, strictPlan.actionFor? 1 = some (.evict reason)) ∧
        strictPlan.actionFor? 3 = some (.abort .tookTooLong) ∧
        strictPlan.actionFor? 5 = some (.abort .noCoresLeft) := by
  have easing : (bustleLimits 2).IsEased (bustleLimits 4) 100000000 200000000 := by
    constructor
    · rintro bound ⟨⟩
      exact ⟨2, rfl, by decide⟩
    · intro bound isBound
      exact ⟨bound, isBound, UInt64.le_refl bound⟩
    · intro bound isBound
      exact ⟨bound, isBound, Nat.le_refl bound.nanoseconds⟩
    all_goals decide
  have easedMade : make bustle (bustleLimits 4) 200000000 = .ok
      ⟨[(2, .evict .tooManySearches), (1, .evict .tooManySearches), (3, .abort .tookTooLong),
        (5, .abort .noCoresLeft)], 1440⟩ := by
    have ranking : rank Candidate.worthiness bustle = [(⟨9, endlessStats⟩, 3),
        (⟨5, settledStats⟩, 0), (⟨4, searchingStats⟩, 4), (⟨3, settledStats⟩, 1),
        (⟨2, searchingStats⟩, 5), (⟨1, settledStats⟩, 2)] := by
      simp [rank, bustle, List.mergeSort, outranks]
    rw [make, ranking]
    rfl
  obtain ⟨strictPlan, easedPlan, strictMade, made, evicts, aborts, _⟩ :=
    eased_limits_remove_no_more easing (.inr ⟨_, easedMade⟩)
  obtain rfl := Except.ok.inj (easedMade.symm.trans made)
  exact ⟨easing, strictPlan, _, strictMade, made, rfl, evicts 2 ⟨_, rfl⟩, evicts 1 ⟨_, rfl⟩,
    aborts 3 _ rfl, aborts 5 _ rfl⟩

end Plan

end SweptCache
