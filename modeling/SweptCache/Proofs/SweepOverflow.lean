import Mathlib.Logic.Function.Iterate
import SweptCache.Proofs.SweepBounds
import SweptCache.Store.Execution

/-!
# Sweeps that come to nothing

The estimated size of a cache may not fit in a word, for searches report as many
stored hits as they like. A sweep of such a cache has no plan, and fails before
it has removed anything: it has taken a reading of free memory and remembered
scores, and that is all that is left of it. The submission for which it took
place fails with it, and no entry is made.

There is no other way for a sweep to fail. Its report and its summary add up
sizes that are no more than those that its plan was made from.
-/

namespace SweptCache.Store

variable {store : Store} {search : Search} {overflow : Overflow}

/-- A cache as a sweep without a plan leaves it, when so many readings of free memory were taken:
scores have been remembered of the registered entries, and nothing else has changed. -/
structure IsUnswept (store later : Store) (readings : Nat) : Prop where
  /-- Nothing was registered or unregistered. -/
  registrations : later.registrations = store.registrations
  /-- No entry was made, and each is as it was but for its score. -/
  entries : later.entries = store.entries.map fun entry =>
    { entry with
      worthiness :=
        if store.registeredIds.contains entry.id then store.policy (entry.stats store.clock)
        else entry.worthiness }
  nextId : later.nextId = store.nextId
  memory : later.memory = MemoryReadings.afterReading^[readings] store.memory
  /-- No report was handed out. -/
  reports : later.reports = store.reports ∧ later.lastReport = store.lastReport ∧
    later.lastListing = store.lastListing
  clock : later.clock = store.clock
  settings : later.settings = store.settings
  policy : later.policy = store.policy
  isShutDown : later.isShutDown = store.isShutDown

/-- A cache in which scores were remembered is unswept. -/
theorem isUnswept_scoreAll (store : Store) (readings : Nat) :
    store.IsUnswept
      { store.scoreAll with memory := MemoryReadings.afterReading^[readings] store.memory }
      readings where
  registrations := rfl
  entries := List.map_congr_left fun entry _ => by split <;> rfl
  nextId := by simp [nextId, scoreAll, updateAll]
  memory := rfl
  reports := ⟨rfl, rfl, rfl⟩
  clock := rfl
  settings := rfl
  policy := rfl
  isShutDown := rfl

/-- A sweep fails for want of a plan only. -/
theorem WellFormed.sweep_eq_error_iff (wellFormed : store.WellFormed) :
    store.sweep.1 = .error overflow ↔ store.plan = .error overflow := by
  cases planned : store.plan with
  | error other =>
    rw [sweep_fst_of_overflow planned]
    simp
  | ok plan =>
    rw [wellFormed.summary_sweep planned]
    simp

/-- A sweep fails exactly if the sizes of all registered entries do not fit in a word together. -/
theorem WellFormed.sweep_fails_iff (wellFormed : store.WellFormed) :
    (∃ overflow, store.sweep.1 = .error overflow) ↔
      wordSize ≤ (store.registeredEntries.map Entry.exactSize).sum := by
  simp only [wellFormed.sweep_eq_error_iff]
  rw [← Nat.not_lt, ← plan_isOk_iff]
  cases store.plan <;> simp

/-- A submission whose sweep has no plan fails with it, and leaves the cache as the sweep does. -/
theorem submit_of_overflow (sweeps : store.sweepsFor search = true)
    (unplanned : store.afterReading.plan = .error overflow) :
    store.submit search =
      (.error (.overflow overflow), store.afterReading.scoreAll.afterReading) := by
  simp only [sweepsFor, needsAdmission, Bool.and_eq_true, Bool.not_eq_true',
    Option.isNone_iff_eq_none] at sweeps
  obtain ⟨⟨isOpen, missing⟩, short⟩ := sweeps
  rw [submit, isOpen, missing, acquireMemory, short, sweep_of_overflow unplanned]
  rfl

/-- A submission comes to nothing only if it has to sweep the cache and the sweep fails. -/
theorem sweep_fails_of_submit
    (failed : (store.submit search).1 = .error (.overflow overflow)) :
    store.sweepsFor search = true ∧ store.afterReading.sweep.1 = .error overflow := by
  unfold submit at failed
  split at failed
  next => cases failed
  next isOpen =>
    split at failed
    next => cases failed
    next missing =>
      -- Of the two ways in which admission fails, only the first is an overflow.
      unfold acquireMemory at failed
      split at failed
      next refusal refused acquired =>
        injection failed with isOverflow
        subst isOverflow
        split at acquired
        next => cases acquired
        next short =>
          split at acquired
          next other swept isSwept =>
            injection acquired with same
            cases same
            refine ⟨by simpa [sweepsFor, needsAdmission, missing, isOpen] using short, ?_⟩
            rw [isSwept]
          next =>
            split at acquired
            · cases acquired
            · cases acquired
      next => cases failed

/-- A cache that an overflow does no harm to. -/
structure SparedByOverflow (store : Store) : Prop where
  /-- A sweep fails exactly if the sizes of all registered entries do not fit in a word together. -/
  fails_iff : (∃ overflow, store.sweep.1 = .error overflow) ↔
    wordSize ≤ (store.registeredEntries.map Entry.exactSize).sum
  /-- A sweep that fails takes one reading of free memory and remembers scores. -/
  failed : ∀ overflow, store.sweep.1 = .error overflow → store.IsUnswept store.sweep.2 1
  /-- A sweep that has a plan does not fail, neither in its report nor in its summary. -/
  planned : ∀ plan, store.plan = .ok plan →
    (store.scoreAll.afterReading.reportIfDue plan.sizeBytes store.memory.next).1 = .ok () ∧
    ∃ summary, store.sweep.1 = .ok summary
  /-- A submission fails in this way exactly if it has to sweep the cache and the sweep fails. -/
  submission_fails_iff : ∀ search,
    (∃ overflow, (store.submit search).1 = .error (.overflow overflow)) ↔
      store.sweepsFor search = true ∧
        wordSize ≤ (store.registeredEntries.map Entry.exactSize).sum
  /-- A submission that fails takes one more reading. It makes no entry and registers none, and the
  call that it is a part of ends with it, before anything is executed. -/
  submission_failed : ∀ search overflow, (store.submit search).1 = .error (.overflow overflow) →
    store.IsUnswept (store.submit search).2 2 ∧
    store.get search = (.error (.overflow overflow), (store.submit search).2) ∧
    store.getAsync search = (.error (.overflow overflow), (store.submit search).2)

/-- An overflow does no harm to any cache. -/
theorem spared_by_overflow (reachable : store.Reachable) : store.SparedByOverflow := by
  have wellFormed := reachable.wellFormed
  have afterReading := wellFormed.afterReading
  constructor
  case fails_iff => exact wellFormed.sweep_fails_iff
  case failed =>
    intro overflow failed
    rw [sweep_of_overflow (wellFormed.sweep_eq_error_iff.mp failed)]
    exact store.isUnswept_scoreAll 1
  case planned =>
    intro plan planned
    obtain ⟨reported, handedOut, _, _⟩ := sweep_of_plan planned
    exact ⟨by rw [handedOut], _, wellFormed.summary_sweep planned⟩
  case submission_fails_iff =>
    intro search
    constructor
    · rintro ⟨overflow, failed⟩
      obtain ⟨sweeps, sweepFailed⟩ := sweep_fails_of_submit failed
      exact ⟨sweeps, afterReading.sweep_fails_iff.mp ⟨overflow, sweepFailed⟩⟩
    · rintro ⟨sweeps, tooLarge⟩
      obtain ⟨overflow, sweepFailed⟩ := afterReading.sweep_fails_iff.mpr tooLarge
      refine ⟨overflow, ?_⟩
      rw [submit_of_overflow sweeps (afterReading.sweep_eq_error_iff.mp sweepFailed)]
  case submission_failed =>
    intro search overflow failed
    obtain ⟨sweeps, sweepFailed⟩ := sweep_fails_of_submit failed
    have submitted := submit_of_overflow sweeps (afterReading.sweep_eq_error_iff.mp sweepFailed)
    rw [get, getAsync, submitted]
    exact ⟨store.isUnswept_scoreAll 2, rfl, rfl⟩

/-- A cache with a finished search of more hits than fit, when no memory is free. -/
def overfull : Store :=
  freshStore.afterAll
    [.submit { plainSearch "first" with hits := 1000000000000000000 }, .start 1, .advance 1,
      .advance 1, .advance 1, .advance 1, .advance 1, .memory (.fixed 0)]

theorem spared_by_overflow_in_overfull :
    overfull.size = 1 ∧ (∃ overflow, overfull.sweep.1 = .error overflow) ∧
      (∃ overflow, (overfull.submit (plainSearch "second")).1 = .error (.overflow overflow)) ∧
      overfull.SparedByOverflow := by
  have reachable : overfull.Reachable :=
    ⟨.standard 2, .standard, .fixed 200000000, freshStore, _, create_freshStore, rfl⟩
  have spared := spared_by_overflow reachable
  have tooLarge : wordSize ≤ (overfull.registeredEntries.map Entry.exactSize).sum := by decide
  exact ⟨by decide, spared.fails_iff.mpr tooLarge,
    (spared.submission_fails_iff _).mpr ⟨by decide, tooLarge⟩, spared⟩

end SweptCache.Store
