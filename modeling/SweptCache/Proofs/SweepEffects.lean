import Mathlib.Algebra.Order.BigOperators.Group.List
import Mathlib.Algebra.Order.Ring.Nat
import SweptCache.Proofs.Registry
import SweptCache.Store.Sweeping

/-!
# What a sweep does

A sweep either has no plan, and then only scores are remembered, or it carries
its plan out in full: nothing on the way from the plan to the removals can fail
(`sweep_cases`), for a plan is only made when the sizes of all entries fit in a
word together.

`sweepEffects` are the events that a sweep brings to one entry, and
`sweepRemovals` are the entries that it takes out of the cache.
-/

namespace SweptCache

/-- A running total fits in a word exactly if the exact total does. -/
theorem totalSizeFrom_eq_ok_iff {start : Nat} (fits : start < wordSize) (hits : List UInt64)
    (total : Nat) :
    totalSizeFrom start hits = .ok total ↔
      total = start + (hits.map exactSize).sum ∧ total < wordSize := by
  induction hits generalizing start with
  | nil =>
    simp only [totalSizeFrom, Except.ok.injEq, List.map_nil, List.sum_nil, Nat.add_zero]
    omega
  | cons first rest ih =>
    rw [totalSizeFrom, sizeOfHits, List.map_cons, List.sum_cons]
    by_cases firstFits : exactSize first < wordSize
    · rw [if_pos firstFits]
      by_cases sumFits : start + exactSize first < wordSize
      · simp only [addAmounts, if_pos sumFits, ih sumFits]
        omega
      · simp only [addAmounts, if_neg sumFits]
        constructor
        · intro impossible
          cases impossible
        · omega
    · rw [if_neg firstFits]
      constructor
      · intro impossible
        cases impossible
      · omega

/-- A total fits in a word exactly if the exact total does. -/
theorem totalSize_eq_ok_iff (hits : List UInt64) (total : Nat) :
    totalSize hits = .ok total ↔ total = (hits.map exactSize).sum ∧ total < wordSize := by
  rw [totalSize, totalSizeFrom_eq_ok_iff (by decide), Nat.zero_add]

/-- When a total fits in a word, so does everything that it adds up. -/
theorem exactSize_lt_of_totalSize {hits : List UInt64} {total : Nat}
    (added : totalSize hits = .ok total) {amount : UInt64} (member : amount ∈ hits) :
    exactSize amount < wordSize := by
  obtain ⟨isSum, fits⟩ := (totalSize_eq_ok_iff hits total).mp added
  have below : exactSize amount ≤ (hits.map exactSize).sum :=
    List.le_sum_of_mem (List.mem_map_of_mem member)
  omega

/-- Snapshots of entries can be taken when the size of each fits in a word. -/
theorem Snapshot.captureAll_eq_ok (now : Instant) (isDetailed : Bool) {entries : List Entry}
    (fit : ∀ entry ∈ entries, SweptCache.exactSize entry.storedHits < wordSize) :
    ∃ snapshots, captureAll now isDetailed entries = .ok snapshots := by
  induction entries with
  | nil => exact ⟨[], rfl⟩
  | cons entry rest ih =>
    obtain ⟨snapshots, captured⟩ := ih fun other member => fit other (List.mem_cons_of_mem _ member)
    have entryFits := fit entry List.mem_cons_self
    have size : (entry.stats now).sizeBytes = .ok (SweptCache.exactSize entry.storedHits) := by
      rw [Stats.sizeBytes, sizeOfHits]
      exact if_pos entryFits
    simp only [captureAll, capture, size, captured]
    exact ⟨_, rfl⟩

/-- There is a plan exactly when the sizes of all candidates fit in a word together. -/
theorem Plan.make_isOk_iff (candidates : List Candidate) (limits : Limits) (freeBytes : UInt64) :
    (∃ plan, make candidates limits freeBytes = .ok plan) ↔
      (candidates.map Candidate.exactSize).sum < wordSize := by
  have sizes : candidates.map Candidate.exactSize =
      (candidates.map fun candidate => candidate.stats.storedHits).map exactSize := by
    rw [List.map_map]
    rfl
  rw [make, sizes]
  constructor
  · rintro ⟨plan, made⟩
    split at made
    next => cases made
    next total added =>
      obtain ⟨rfl, fits⟩ := (totalSize_eq_ok_iff _ total).mp added
      exact fits
  · intro fits
    rw [(totalSize_eq_ok_iff _ _).mpr ⟨rfl, fits⟩]
    exact ⟨_, rfl⟩

namespace Store

/-- The plan of a sweep that takes place now. -/
def plan (store : Store) : Except Overflow Plan :=
  Plan.make store.candidates store.settings.limits store.memory.next

/-- The entries that a sweep takes out of the cache now, with what it does to them. -/
def sweepRemovals (store : Store) : List (Entry × SweepAction) :=
  match store.plan with
  | .error _ => []
  | .ok plan => store.plannedRemovals plan

/-- Whether a sweep aborts an entry now. -/
def isAbortedBySweep (store : Store) (entry : Entry) : Bool :=
  store.sweepRemovals.any fun removal => isAbort removal.2 && removal.1.id = entry.id

/-- The events that a sweep brings to an entry. -/
def sweepEffects (store : Store) (entry : Entry) : List EntryEvent :=
  (if store.registeredIds.contains entry.id then
    [.remember (store.policy (entry.stats store.clock))] else []) ++
  (if store.isAbortedBySweep entry then [.cancel] else [])

/-- The entry with its score remembered, if it is registered. -/
def scored (store : Store) (entry : Entry) : Entry :=
  if store.registeredIds.contains entry.id then
    entry.rememberWorthiness (store.policy (entry.stats store.clock))
  else entry

@[simp] theorem id_scored (store : Store) (entry : Entry) : (store.scored entry).id = entry.id := by
  unfold scored
  split <;> rfl

@[simp] theorem key_scored (store : Store) (entry : Entry) :
    (store.scored entry).key = entry.key := by
  unfold scored
  split <;> rfl

@[simp] theorem storedHits_scored (store : Store) (entry : Entry) :
    (store.scored entry).storedHits = entry.storedHits := by
  unfold scored
  split <;> rfl

@[simp] theorem exactSize_scored (store : Store) (entry : Entry) :
    (store.scored entry).exactSize = entry.exactSize := by
  rw [Entry.exactSize, storedHits_scored, Entry.exactSize]

@[simp] theorem stats_scored (store : Store) (entry : Entry) (now : Instant) :
    (store.scored entry).stats now = entry.stats now := by
  unfold scored
  split <;> rfl

@[simp] theorem isDone_scored (store : Store) (entry : Entry) :
    (store.scored entry).isDone = entry.isDone := by
  unfold scored
  split <;> rfl

/-- A report changes nothing but what is known of reports. -/
theorem reportIfDue_cases (store : Store) (sizeBytes : Nat) (freeBytes : UInt64)
    (fit : ∀ entry ∈ store.registeredEntries,
      SweptCache.exactSize entry.storedHits < wordSize) :
    ∃ lastReport lastListing reports,
      store.reportIfDue sizeBytes freeBytes =
        (.ok (), { store with
          lastReport := lastReport, lastListing := lastListing, reports := reports }) := by
  unfold reportIfDue
  split
  next =>
    obtain ⟨snapshots, captured⟩ := Snapshot.captureAll_eq_ok store.clock true fit
    rw [captured]
    exact ⟨_, _, _, rfl⟩
  next => exact ⟨_, _, _, rfl⟩

/-- The registered entries fit in a word one by one when a sweep has a plan. -/
theorem exactSize_lt_of_plan {store : Store} {plan : Plan} (planned : store.plan = .ok plan)
    {entry : Entry} (member : entry ∈ store.registeredEntries) :
    SweptCache.exactSize entry.storedHits < wordSize := by
  unfold Store.plan Plan.make at planned
  split at planned
  next => cases planned
  next sizeBytes added =>
    refine exactSize_lt_of_totalSize added ?_
    simp only [candidates, List.map_map]
    exact List.mem_map.mpr ⟨entry, member, rfl⟩

/-- A sweep has a plan exactly when the sizes of all registered entries fit in a word together. -/
theorem plan_isOk_iff (store : Store) :
    (∃ plan, store.plan = .ok plan) ↔
      (store.registeredEntries.map Entry.exactSize).sum < wordSize := by
  have sizes : store.candidates.map Candidate.exactSize =
      store.registeredEntries.map Entry.exactSize := by
    rw [candidates, List.map_map]
    rfl
  rw [Store.plan, Plan.make_isOk_iff, sizes]

/-- The estimated size of a cache is that of its registered entries, which fit in a word
together. -/
theorem sizeBytes_eq_ok_iff (store : Store) (total : Nat) :
    store.sizeBytes = .ok total ↔
      total = (store.registeredEntries.map Entry.exactSize).sum ∧ total < wordSize := by
  rw [sizeBytes, totalSize_eq_ok_iff, List.map_map]
  rfl

/-- The store in which a sweep carries its plan out: scores have been
remembered, and there may have been a report. -/
structure IsReported (store reported : Store) : Prop where
  entries : reported.entries = store.entries.map store.scored
  registrations : reported.registrations = store.registrations
  clock : reported.clock = store.clock
  settings : reported.settings = store.settings
  policy : reported.policy = store.policy
  memory : reported.memory = store.memory.afterReading
  isShutDown : reported.isShutDown = store.isShutDown

/-- The entries that a plan removes are the same after scores were remembered. -/
theorem plannedRemovals_reported {store reported : Store} (isReported : store.IsReported reported)
    (plan : Plan) :
    reported.plannedRemovals plan =
      (store.plannedRemovals plan).map fun removal => (store.scored removal.1, removal.2) := by
  have scored := registeredEntries_map isReported.entries isReported.registrations store.id_scored
  simp only [plannedRemovals, scored, List.map_filterMap]
  congr 1
  funext decision
  simp only [List.getElem?_map, Option.map_map]
  rfl

/-- Scores are remembered of the registered entries. -/
theorem registeredEntries_scoreAll (store : Store) :
    store.scoreAll.registeredEntries = store.registeredEntries.map store.scored :=
  registeredEntries_map rfl rfl store.id_scored

/-- A sweep that has no plan fails, and does nothing but remember scores. -/
theorem sweep_of_overflow {store : Store} {overflow : Overflow}
    (unplanned : store.plan = .error overflow) :
    store.sweep = (.error overflow, store.scoreAll.afterReading) := by
  unfold Store.plan at unplanned
  simp only [sweep, unplanned]

/-- A sweep that has a plan hands out a report if one is due, and carries the plan out. -/
theorem sweep_of_plan {store : Store} {plan : Plan} (planned : store.plan = .ok plan) :
    ∃ reported,
      store.scoreAll.afterReading.reportIfDue plan.sizeBytes store.memory.next =
        (.ok (), reported) ∧
      store.IsReported reported ∧
      store.sweep = ((reported.carryOut plan).summary plan, reported.carryOut plan) := by
  have fit : ∀ entry ∈ store.scoreAll.afterReading.registeredEntries,
      SweptCache.exactSize entry.storedHits < wordSize := by
    intro entry member
    change entry ∈ store.scoreAll.registeredEntries at member
    rw [registeredEntries_scoreAll] at member
    obtain ⟨original, originalMember, rfl⟩ := List.mem_map.mp member
    rw [storedHits_scored]
    exact exactSize_lt_of_plan planned originalMember
  obtain ⟨lastReport, lastListing, reports, handedOut⟩ :=
    store.scoreAll.afterReading.reportIfDue_cases plan.sizeBytes store.memory.next fit
  refine ⟨{ store.scoreAll.afterReading with
    lastReport := lastReport, lastListing := lastListing, reports := reports }, handedOut,
    ⟨rfl, rfl, rfl, rfl, rfl, rfl, rfl⟩, ?_⟩
  unfold Store.plan at planned
  simp only [sweep, planned, handedOut]

/-- Once a sweep has a plan it carries it out. -/
theorem sweep_cases (store : Store) :
    (∃ overflow, store.plan = .error overflow ∧
      store.sweep = (.error overflow, store.scoreAll.afterReading)) ∨
    ∃ plan reported, store.plan = .ok plan ∧ store.IsReported reported ∧
      store.sweep = ((reported.carryOut plan).summary plan, reported.carryOut plan) := by
  cases planned : store.plan with
  | error overflow => exact .inl ⟨overflow, rfl, sweep_of_overflow planned⟩
  | ok plan =>
    obtain ⟨reported, _, isReported, swept⟩ := sweep_of_plan planned
    exact .inr ⟨plan, reported, rfl, isReported, swept⟩

/-- A sweep that has a plan reports on what it has done with it. -/
theorem sweep_fst_of_plan {store : Store} {plan : Plan} (planned : store.plan = .ok plan) :
    store.sweep.1 = store.sweep.2.summary plan := by
  obtain ⟨reported, _, _, swept⟩ := sweep_of_plan planned
  rw [swept]

/-- A sweep that has no plan fails. -/
theorem sweep_fst_of_overflow {store : Store} {overflow : Overflow}
    (failed : store.plan = .error overflow) :
    store.sweep.1 = .error overflow := by
  rw [sweep_of_overflow failed]

/-- A sweep remembers the score of an entry if it is registered, and cancels it if it is aborted. -/
theorem afterAll_sweepEffects_eq (store : Store) (entry : Entry) :
    entry.afterAll store.clock (store.sweepEffects entry) =
      if store.isAbortedBySweep entry then (store.scored entry).cancel store.clock
      else store.scored entry := by
  have remembered : entry.afterAll store.clock (if store.registeredIds.contains entry.id then
      [.remember (store.policy (entry.stats store.clock))] else []) = store.scored entry := by
    unfold scored
    split <;> rfl
  rw [sweepEffects, Entry.afterAll_append, remembered]
  split <;> rfl

/-- A sweep brings every entry its events and does nothing else to it. -/
theorem entries_sweep (store : Store) :
    store.sweep.2.entries =
      store.entries.map fun entry => entry.afterAll store.clock (store.sweepEffects entry) := by
  rcases store.sweep_cases with ⟨overflow, planned, swept⟩ |
    ⟨plan, reported, planned, isReported, swept⟩
  · have noneAborted : ∀ entry, store.isAbortedBySweep entry = false := by
      simp [isAbortedBySweep, sweepRemovals, planned]
    simp only [swept, scoreAll, updateAll, afterReading, sweepEffects, noneAborted]
    congr 1
    funext entry
    split <;> rfl
  · have aborted : ∀ entry, (((reported.plannedRemovals plan).filter fun removal =>
        isAbort removal.2).map (·.1.id)).contains (store.scored entry).id =
          store.isAbortedBySweep entry := by
      intro entry
      rw [Bool.eq_iff_iff]
      simp only [plannedRemovals_reported isReported, List.contains_iff_mem, List.mem_map,
        List.mem_filter, isAbortedBySweep, sweepRemovals, planned, List.any_eq_true,
        Bool.and_eq_true, decide_eq_true_eq, id_scored]
      constructor
      · rintro ⟨_, ⟨⟨removal, member, rfl⟩, isAborted⟩, same⟩
        exact ⟨removal, member, isAborted, by simpa using same⟩
      · rintro ⟨removal, member, isAborted, same⟩
        exact ⟨_, ⟨⟨removal, member, rfl⟩, isAborted⟩, by simpa using same⟩
    simp only [swept, carryOut, updateAll, isReported.entries, List.map_map, isReported.clock]
    congr 1
    funext entry
    simp only [Function.comp, aborted, afterAll_sweepEffects_eq]

/-- A sweep takes its removals out of the cache and leaves every other registration. -/
theorem registrations_sweep (store : Store) :
    store.sweep.2.registrations = store.registrations.filter fun registration =>
      !store.sweepRemovals.any fun removal => removal.1.key = registration.key := by
  rcases store.sweep_cases with ⟨overflow, planned, swept⟩ |
    ⟨plan, reported, planned, isReported, swept⟩
  · simp [swept, sweepRemovals, planned, afterReading, scoreAll, updateAll]
  · simp only [swept, carryOut, isReported.registrations, plannedRemovals_reported isReported,
      List.any_map, sweepRemovals, planned]
    congr 1
    funext registration
    simp [Function.comp_def]

/-- What a sweep has no part in. -/
theorem sweep_frame (store : Store) :
    store.sweep.2.clock = store.clock ∧ store.sweep.2.settings = store.settings ∧
      store.sweep.2.policy = store.policy ∧ store.sweep.2.isShutDown = store.isShutDown := by
  rcases store.sweep_cases with ⟨overflow, planned, swept⟩ |
    ⟨plan, reported, planned, isReported, swept⟩
  · rw [swept]
    exact ⟨rfl, rfl, rfl, rfl⟩
  · rw [swept]
    exact ⟨isReported.clock, isReported.settings, isReported.policy, isReported.isShutDown⟩

/-- A sweep takes one reading of free memory. -/
theorem memory_sweep (store : Store) : store.sweep.2.memory = store.memory.afterReading := by
  rcases store.sweep_cases with ⟨overflow, _, swept⟩ | ⟨plan, reported, _, isReported, swept⟩
  · rw [swept]
    rfl
  · rw [swept]
    exact isReported.memory

/-- A sweep makes no entries. -/
theorem nextId_sweep (store : Store) : store.sweep.2.nextId = store.nextId := by
  rw [nextId, nextId, entries_sweep, List.length_map]

end Store

end SweptCache
