import SweptCache.Proofs.SweepAccounts

/-!
# The size that a sweep leaves

The limit on the size of a cache is a number of megabytes, and a sweep compares
it with the whole megabytes of what the cache holds. So a cache whose finished
searches may stay keeps to its limit in whole megabytes, and goes beyond the
bytes of that limit, which are what is shown of it, by less than a megabyte.
-/

namespace SweptCache

/-- A size whose whole megabytes are within a limit is beyond the bytes of that limit by less than
a megabyte. -/
theorem lt_of_wholeMegabytes_le {size : Nat} {most : UInt64} (fits : size < wordSize)
    (within : wholeMegabytes size ≤ most.toNat) :
    size < bytesOfMegabytes most + bytesPerMegabyte := by
  unfold wholeMegabytes bytesPerMegabyte at within
  unfold bytesOfMegabytes bytesPerMegabyte
  omega

namespace Store

variable {store : Store} {plan : Plan}

/-- What a sweep leaves is no more than what the first pass of its plan leaves. -/
theorem WellFormed.sum_sizes_sweep_le (wellFormed : store.WellFormed)
    (planned : store.plan = .ok plan) :
    (store.sweep.2.registeredEntries.map Entry.exactSize).sum ≤
      (store.candidates.map Candidate.exactSize).sum - Removal.bytes
        (Plan.firstRemovals store.candidates store.settings.limits store.memory.next) := by
  -- What the second pass removes besides only makes the cache smaller.
  have balance := wellFormed.removed_add_left
  have removed := wellFormed.bytes_planRemovals planned
  rw [planRemovals, Plan.removals, Removal.bytes_append] at removed
  rw [← (Plan.sizeBytes_of_make planned).1, sizeBytes_of_plan planned]
  omega

/-- A finished search stays in a sweep only if the cache keeps to its limit in whole megabytes. -/
theorem WellFormed.size_within_of_kept (wellFormed : store.WellFormed)
    (planned : store.plan = .ok plan) {entry : Entry}
    (member : entry ∈ store.sweep.2.registeredEntries) (done : entry.isDone = true) :
    isExceeded store.settings.maxSizeMegabytes
      (wholeMegabytes (store.sweep.2.registeredEntries.map Entry.exactSize).sum) = false := by
  obtain ⟨before, position, rfl, _, item, kept⟩ := wellFormed.position_of_kept planned member
  rw [isDone_scored] at done
  obtain ⟨_, finished, _⟩ := Plan.kept_of_notMem item kept
  obtain ⟨_, within, _⟩ := finished done
  exact isExceeded_of_le (Nat.div_le_div_right (wellFormed.sum_sizes_sweep_le planned)) within

/-- A sweep that succeeds leaves no finished search, or a cache that keeps to its limit on size in
whole megabytes. The size is the one that the sweep and an overview tell; it may be beyond the
limit that the overview tells, but by less than a megabyte. -/
theorem size_limit_in_whole_megabytes (reachable : store.Reachable) {most : UInt64}
    (limited : store.settings.maxSizeMegabytes = some most) {summary : SweepSummary}
    {swept : Store} (succeeded : store.sweep = (.ok summary, swept)) :
    ∃ overview, swept.overview.1 = .ok overview ∧ overview.sizeBytes = summary.sizeBytes ∧
      overview.maxSizeBytes = some (bytesOfMegabytes most) ∧
      ((∀ entry ∈ swept.registeredEntries, entry.isDone = false) ∨
        wholeMegabytes summary.sizeBytes ≤ most.toNat ∧
          summary.sizeBytes < bytesOfMegabytes most + bytesPerMegabyte) := by
  have wellFormed := reachable.wellFormed
  obtain ⟨plan, planned, rfl, rfl⟩ := wellFormed.exists_plan_of_sweep succeeded
  refine ⟨_, wellFormed.overview_sweep planned, rfl, ?_, ?_⟩
  · rw [Overview.ofSettings, Settings.maxSizeBytes, limited, Option.map_some]
  · by_cases allRunning : ∀ entry ∈ store.sweep.2.registeredEntries, entry.isDone = false
    · exact .inl allRunning
    · simp only [not_forall, Bool.not_eq_false] at allRunning
      obtain ⟨entry, member, done⟩ := allRunning
      have within := wellFormed.size_within_of_kept planned member done
      rw [limited] at within
      have whole : wholeMegabytes (store.sweep.2.registeredEntries.map Entry.exactSize).sum ≤
          most.toNat := by simpa [isExceeded] using within
      exact .inr ⟨whole, lt_of_wholeMegabytes_le (wellFormed.sum_sizes_sweep_lt planned) whole⟩

/-- A sweep removes nothing from a cache of finished searches that are not too old, when number and
whole megabytes are within their limits and enough memory is free. -/
theorem WellFormed.sweep_keeps_all (wellFormed : store.WellFormed)
    (planned : store.plan = .ok plan)
    (few : isExceeded store.settings.maxNumberOfSearches store.size = false)
    (small : isExceeded store.settings.maxSizeMegabytes
      (wholeMegabytes (store.registeredEntries.map Entry.exactSize).sum) = false)
    (relieved : bytesOfMegabytes store.settings.targetFreeMegabytes ≤ store.memory.next.toNat)
    (spared : ∀ entry ∈ store.registeredEntries, entry.isDone = true ∧
      store.settings.limits.isTooOld (entry.stats store.clock) = false) :
    store.sweep.2.registeredEntries = store.registeredEntries.map store.scored := by
  have noRemovals : store.planRemovals = [] := by
    refine Plan.removals_eq_nil ?_ ?_ ?_ ?_
    · rw [candidates_eq_map, List.length_map, ← wellFormed.size_eq]
      exact few
    · rw [← (Plan.sizeBytes_of_make planned).1, sizeBytes_of_plan planned]
      exact small
    · exact Int.sub_nonpos_of_le (Int.ofNat_le.mpr relieved)
    · rw [candidates_eq_map, List.forall_mem_map]
      intro entry registered
      obtain ⟨done, recent⟩ := spared entry registered
      obtain ⟨verdict, settled⟩ := (wellFormed.coherent entry
        (WellFormed.mem_entries_of_registered registered)).isSettled_of_isDone done
      exact ⟨done, by simp [asCandidate, Entry.stats, Limits.isRunaway, settled.searchDone], recent⟩
  have keepsAll : store.sweepRemovals = [] := by
    have removals := forall₂_sweepRemovals planned
    rw [noRemovals] at removals
    exact List.forall₂_nil_right_iff.mp removals
  rw [wellFormed.registeredEntries_sweep, List.filter_eq_self.mpr]
  simp [isRemovedBySweep, keepsAll]

/-- Settings under which a cache may take up one megabyte. -/
def slimSettings : Settings := { Settings.standard 8 with maxSizeMegabytes := some 1 }

/-- A cache with a finished search of eight bytes more than a megabyte. -/
def bulging : Store :=
  (empty slimSettings .standard (.fixed 64000000000)).afterAll
    [.submit { plainSearch "first" with hits := 41667 }, .start 1, .advance 1, .advance 1,
      .advance 1, .advance 1, .advance 1]

theorem reachable_bulging : bulging.Reachable :=
  ⟨slimSettings, .standard, .fixed 64000000000, _, _, rfl, rfl⟩

theorem size_limit_in_whole_megabytes_in_bulging :
    bulging.settings.maxSizeMegabytes = some 1 ∧
      ∃ summary overview, bulging.sweep = (.ok summary, bulging.sweep.2) ∧
        bulging.sweep.2.overview.1 = .ok overview ∧ overview.sizeBytes = summary.sizeBytes ∧
        overview.maxSizeBytes = some (bytesOfMegabytes 1) ∧
        ((∀ entry ∈ bulging.sweep.2.registeredEntries, entry.isDone = false) ∨
          wholeMegabytes summary.sizeBytes ≤ (1 : UInt64).toNat ∧
            summary.sizeBytes < bytesOfMegabytes 1 + bytesPerMegabyte) := by
  obtain ⟨summary, succeeded⟩ := reachable_bulging.wellFormed.sweep_succeeds (by decide)
  obtain ⟨overview, limit⟩ := size_limit_in_whole_megabytes reachable_bulging rfl succeeded
  exact ⟨rfl, summary, overview, succeeded, limit⟩

/-- A finished search may stay when the cache takes up more bytes than the limit that is shown. -/
theorem size_beyond_shown_limit :
    bulging.Reachable ∧ bulging.settings.maxSizeMegabytes = some 1 ∧
      (∃ entry ∈ bulging.sweep.2.registeredEntries, entry.isDone = true) ∧
      ∃ summary overview, bulging.sweep = (.ok summary, bulging.sweep.2) ∧
        summary.sizeBytes = 1000008 ∧ bulging.sweep.2.overview.1 = .ok overview ∧
        overview.sizeBytes = 1000008 ∧ overview.maxSizeBytes = some 1000000 := by
  have wellFormed := reachable_bulging.wellFormed
  obtain ⟨plan, planned⟩ := bulging.plan_isOk_iff.mpr (by decide)
  have kept := wellFormed.sweep_keeps_all planned (by decide) (by decide) (by decide) (by decide)
  have size : (bulging.sweep.2.registeredEntries.map Entry.exactSize).sum = 1000008 := by
    rw [kept]
    decide
  have finished : ∃ entry ∈ bulging.sweep.2.registeredEntries, entry.isDone = true := by
    rw [kept]
    decide
  have shown : bulging.settings.maxSizeBytes = some 1000000 := by decide
  exact ⟨reachable_bulging, rfl, finished, _, _, Prod.ext (wellFormed.summary_sweep planned) rfl,
    size, wellFormed.overview_sweep planned, size, shown⟩

end Store

end SweptCache
