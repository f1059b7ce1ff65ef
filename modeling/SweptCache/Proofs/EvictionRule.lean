import Mathlib.Data.List.Nodup
import SweptCache.Proofs.PlanPasses

/-!
# The rule of evictions

The first pass of a plan keeps count of what it removes on the way. What it
evicts can be said without the pass: `Plan.IsPressed` judges a candidate by those
that are less worthy alone, and the pass evicts finished candidates, the least
worthy first, up to the first one that is not pressed. Until then it has removed
every finished candidate and every runaway that it came to, so its counters are
those sums (`IsUnbroken`). From then on it evicts nothing: the memory that has to
be freed does not grow, and number, size and age are not reviewed any more.
-/

namespace SweptCache

/-- Whether a candidate comes before another from the least worthy on. Of equally worthy
candidates the one at the later position is less worthy. -/
def isLessWorthy (first second : Candidate × Nat) : Bool :=
  decide (first.1.worthiness < second.1.worthiness) ||
    (decide (first.1.worthiness = second.1.worthiness) && decide (second.2 < first.2))

theorem isLessWorthy_irrefl (item : Candidate × Nat) : isLessWorthy item item = false := by
  simp [isLessWorthy]

theorem isLessWorthy_asymm (first second : Candidate × Nat)
    (less : isLessWorthy first second = true) : isLessWorthy second first = false := by
  simp only [isLessWorthy, Bool.or_eq_true, Bool.and_eq_true, decide_eq_true_eq,
    Bool.or_eq_false_iff, Bool.and_eq_false_iff, decide_eq_false_iff_not,
    Int64.lt_iff_toInt_lt, ← Int64.toInt_inj] at less ⊢
  omega

/-- The bytes that several candidates take up. -/
def totalBytes (items : List (Candidate × Nat)) : Nat :=
  (items.map fun item => item.1.exactSize).sum

/-- What a sweep evicts among what it removes. -/
def Removal.evicted (removals : List Removal) : List (Candidate × Nat) :=
  (removals.filter fun removal => !Store.isAbort removal.action).map (·.item)

@[simp] theorem Removal.evicted_evict (item : Candidate × Nat) (reason : EvictionReason)
    (rest : List Removal) : evicted (⟨item, .evict reason⟩ :: rest) = item :: evicted rest := rfl

@[simp] theorem Removal.evicted_abort (item : Candidate × Nat) (reason : AbortReason)
    (rest : List Removal) : evicted (⟨item, .abort reason⟩ :: rest) = evicted rest := rfl

theorem Removal.bytes_eq_totalBytes (removals : List Removal) :
    bytes removals = totalBytes (removals.map (·.item)) := by
  rw [totalBytes, List.map_map]
  rfl

theorem Removal.evictedBytes_eq_totalBytes (removals : List Removal) :
    evictedBytes removals = totalBytes (evicted removals) := by
  rw [totalBytes, evicted, List.map_map]
  rfl

/-- Candidates at their positions take up what the candidates take up. -/
theorem totalBytes_zipIdx (candidates : List Candidate) :
    totalBytes candidates.zipIdx = (candidates.map Candidate.exactSize).sum := by
  have unplaced : candidates.zipIdx.map (fun item => item.1.exactSize) =
      (candidates.zipIdx.map Prod.fst).map Candidate.exactSize := by
    rw [List.map_map]
    rfl
  rw [totalBytes, unplaced, List.zipIdx_map_fst]

namespace Limits

/-- Whether a candidate has finished, and is no runaway. -/
def isFinished (limits : Limits) (item : Candidate × Nat) : Bool :=
  item.1.stats.isDone && !limits.isRunaway item.1.stats

/-- Whether a candidate has finished, or is a runaway. -/
def isRemovable (limits : Limits) (item : Candidate × Nat) : Bool :=
  limits.isFinished item || limits.isRunaway item.1.stats

end Limits

@[simp] theorem totalBytes_cons (item : Candidate × Nat) (rest : List (Candidate × Nat)) :
    totalBytes (item :: rest) = item.1.exactSize + totalBytes rest := rfl

theorem totalBytes_append (items others : List (Candidate × Nat)) :
    totalBytes (items ++ others) = totalBytes items + totalBytes others := by
  rw [totalBytes, List.map_append, List.sum_append]
  rfl

theorem totalBytes_perm {items others : List (Candidate × Nat)} (perm : items.Perm others) :
    totalBytes items = totalBytes others :=
  (perm.map _).sum_eq

namespace FirstPass

/-- A candidate is pressed to go, if the candidates before it from the least worthy on are gone
where they are removable: memory is short, or too many searches are left, or too large ones, or it
is too old. -/
def IsPressed (limits : Limits) (start : FirstPass) (before : List (Candidate × Nat))
    (item : Candidate × Nat) : Prop :=
  0 < start.memoryDeficit - totalBytes (before.filter limits.isFinished) ∨
  isExceeded limits.maxEntries
    (start.searches - (before.filter limits.isRemovable).length) = true ∨
  isExceeded limits.maxSizeMegabytes (wholeMegabytes
    (start.sizeBytes - totalBytes (before.filter limits.isRemovable))) = true ∨
  limits.isTooOld item.1.stats = true

/-- A pass that has removed whatever was removable of the candidates before. -/
structure IsUnbroken (limits : Limits) (start : FirstPass) (before : List (Candidate × Nat))
    (pass : FirstPass) : Prop where
  isReviewing : pass.isReviewing = true
  searches : pass.searches = start.searches - (before.filter limits.isRemovable).length
  sizeBytes : pass.sizeBytes = start.sizeBytes - totalBytes (before.filter limits.isRemovable)
  memoryDeficit :
    pass.memoryDeficit = start.memoryDeficit - totalBytes (before.filter limits.isFinished)

variable {limits : Limits} {start pass : FirstPass} {before items : List (Candidate × Nat)}
  {item : Candidate × Nat}

/-- While a pass is unbroken, finished candidates are evicted if they are pressed to go, and only
then. -/
theorem IsUnbroken.action?_cases (unbroken : IsUnbroken limits start before pass)
    (isFinished : limits.isFinished item = true) :
    IsPressed limits start before item ∧
      (∃ reason, pass.action? limits item.1.stats = some (.evict reason)) ∨
    ¬ IsPressed limits start before item ∧ pass.action? limits item.1.stats = none := by
  simp only [Limits.isFinished, Bool.and_eq_true, Bool.not_eq_true'] at isFinished
  obtain ⟨isDone, notRunaway⟩ := isFinished
  rw [IsPressed, ← unbroken.searches, ← unbroken.sizeBytes, ← unbroken.memoryDeficit]
  simp only [action?, notRunaway, isDone, evictionReason?, reviewReason?, unbroken.isReviewing,
    if_true, Bool.false_eq_true, if_false]
  by_cases short : 0 < pass.memoryDeficit
  · simp [short]
  · by_cases tooMany : isExceeded limits.maxEntries pass.searches = true
    · simp [short, tooMany]
    · by_cases tooLarge : isExceeded limits.maxSizeMegabytes (wholeMegabytes pass.sizeBytes) = true
      · simp [short, tooMany, tooLarge]
      · by_cases tooOld : limits.isTooOld item.1.stats = true
        · simp [short, tooMany, tooLarge, tooOld]
        · simp [short, tooMany, tooLarge, tooOld]

/-- A pass that has ended its review with enough memory free evicts nothing any more. -/
theorem evicted_eq_nil (ended : pass.isReviewing = false) (relieved : pass.memoryDeficit ≤ 0) :
    Removal.evicted (removals limits pass items) = [] := by
  induction items generalizing pass with
  | nil => rfl
  | cons item rest ih =>
    have noReason : pass.evictionReason? limits item.1.stats = none := by
      simp [evictionReason?, Int.not_lt.mpr relieved, ended]
    rw [removals]
    cases acts : pass.action? limits item.1.stats with
    | none =>
      simp only [keep]
      split
      · exact ih rfl relieved
      · exact ih ended relieved
    | some action =>
      obtain ⟨_, rfl⟩ | ⟨notRunaway, done, reason, rfl⟩ := action?_eq_some acts
      · exact ih ended relieved
      · simp [action?, notRunaway, done, noReason] at acts

/-- A pass stays unbroken when it aborts a runaway, which frees no memory. -/
theorem IsUnbroken.abort (unbroken : IsUnbroken limits start before pass)
    (runaway : limits.isRunaway item.1.stats = true) (reason : AbortReason) :
    IsUnbroken limits start (before ++ [item]) (pass.remove (.abort reason) item.2 item.1) := by
  have notFinished : limits.isFinished item = false := by simp [Limits.isFinished, runaway]
  have removable : limits.isRemovable item = true := by simp [Limits.isRemovable, runaway]
  constructor
  · exact unbroken.isReviewing
  · simp [remove, unbroken.searches, removable, Nat.sub_sub]
  · simp [remove, unbroken.sizeBytes, removable, totalBytes, Nat.sub_sub]
  · simp [remove, unbroken.memoryDeficit, notFinished]

/-- A pass stays unbroken when it evicts a finished candidate. -/
theorem IsUnbroken.evict (unbroken : IsUnbroken limits start before pass)
    (isFinished : limits.isFinished item = true) (reason : EvictionReason) :
    IsUnbroken limits start (before ++ [item]) (pass.remove (.evict reason) item.2 item.1) := by
  have removable : limits.isRemovable item = true := by simp [Limits.isRemovable, isFinished]
  constructor
  · exact unbroken.isReviewing
  · simp [remove, unbroken.searches, removable, Nat.sub_sub]
  · simp [remove, unbroken.sizeBytes, removable, totalBytes, Nat.sub_sub]
  · simp [remove, unbroken.memoryDeficit, isFinished, totalBytes, Int.sub_sub]

/-- A pass stays unbroken when it comes to a candidate that is not removable. -/
theorem IsUnbroken.skip (unbroken : IsUnbroken limits start before pass)
    (notRemovable : limits.isRemovable item = false) :
    IsUnbroken limits start (before ++ [item]) pass := by
  have notFinished : limits.isFinished item = false := by
    simp only [Limits.isRemovable, Bool.or_eq_false_iff] at notRemovable
    exact notRemovable.1
  constructor
  · exact unbroken.isReviewing
  · simp [unbroken.searches, notRemovable]
  · simp [unbroken.sizeBytes, notRemovable]
  · simp [unbroken.memoryDeficit, notFinished]

/-- A candidate that is kept though it has finished ends all evictions. -/
theorem IsUnbroken.evicted_eq_nil (unbroken : IsUnbroken limits start before pass)
    (isFinished : limits.isFinished item = true)
    (unpressed : ¬ IsPressed limits start before item) :
    Removal.evicted (removals limits (pass.keep item.1.stats) items) = [] := by
  simp only [Limits.isFinished, Bool.and_eq_true] at isFinished
  have relieved : pass.memoryDeficit ≤ 0 := by
    rw [unbroken.memoryDeficit]
    exact Int.not_lt.mp fun short => unpressed (.inl short)
  rw [keep, if_pos isFinished.1]
  exact FirstPass.evicted_eq_nil rfl relieved

/-- Of the finished candidates among several, so many are pressed to go, and the next one is
not. -/
def IsPressedUpTo (limits : Limits) (start : FirstPass) (before items : List (Candidate × Nat))
    (count : Nat) : Prop :=
  ∀ front item back, items = front ++ item :: back → limits.isFinished item = true →
    ((front.filter limits.isFinished).length < count →
      IsPressed limits start (before ++ front) item) ∧
    ((front.filter limits.isFinished).length = count →
      ¬ IsPressed limits start (before ++ front) item)

/-- One more candidate is pressed to go if it has finished and is pressed itself. -/
theorem IsPressedUpTo.cons_finished {count : Nat}
    (upTo : IsPressedUpTo limits start (before ++ [item]) items count)
    (isFinished : limits.isFinished item = true) (pressed : IsPressed limits start before item) :
    IsPressedUpTo limits start before (item :: items) (count + 1) := by
  intro front other back split otherFinished
  cases front with
  | nil =>
    cases split
    simpa using pressed
  | cons first front =>
    cases split
    have further := upTo front other back rfl otherFinished
    rw [List.append_assoc, List.singleton_append] at further
    simpa [isFinished] using further

/-- A candidate that has not finished makes no difference. -/
theorem IsPressedUpTo.cons_unfinished {count : Nat}
    (upTo : IsPressedUpTo limits start (before ++ [item]) items count)
    (notFinished : limits.isFinished item = false) :
    IsPressedUpTo limits start before (item :: items) count := by
  intro front other back split otherFinished
  cases front with
  | nil =>
    cases split
    rw [notFinished] at otherFinished
    cases otherFinished
  | cons first front =>
    cases split
    have further := upTo front other back rfl otherFinished
    rw [List.append_assoc, List.singleton_append] at further
    simpa [notFinished] using further

/-- No candidate is pressed to go before a finished one that is not. -/
theorem isPressedUpTo_zero (isFinished : limits.isFinished item = true)
    (unpressed : ¬ IsPressed limits start before item) :
    IsPressedUpTo limits start before (item :: items) 0 := by
  intro front other back split otherFinished
  cases front with
  | nil =>
    cases split
    simpa using unpressed
  | cons first front =>
    cases split
    simp [isFinished]

/-- An unbroken pass evicts finished candidates in the order in which it comes to them, up to the
first one that is not pressed to go. -/
theorem IsUnbroken.evicted (unbroken : IsUnbroken limits start before pass)
    (items : List (Candidate × Nat)) :
    ∃ count, Removal.evicted (removals limits pass items) =
        (items.filter limits.isFinished).take count ∧
      IsPressedUpTo limits start before items count := by
  induction items generalizing pass before with
  | nil => exact ⟨0, rfl, fun front _ _ split => by simp at split⟩
  | cons first rest ih =>
    rw [removals]
    cases finished : limits.isFinished first with
    | true =>
      rcases unbroken.action?_cases finished with ⟨pressed, reason, acts⟩ | ⟨unpressed, acts⟩
      · obtain ⟨count, evicted, upTo⟩ := ih (unbroken.evict finished reason)
        refine ⟨count + 1, ?_, upTo.cons_finished finished pressed⟩
        simp [acts, evicted, finished]
      · refine ⟨0, ?_, isPressedUpTo_zero finished unpressed⟩
        simp [acts, unbroken.evicted_eq_nil finished unpressed]
    | false =>
      cases runaway : limits.isRunaway first.1.stats with
      | true =>
        obtain ⟨count, evicted, upTo⟩ := ih (unbroken.abort runaway .tookTooLong)
        refine ⟨count, ?_, upTo.cons_unfinished finished⟩
        simp [action?, runaway, evicted, finished]
      | false =>
        have notDone : first.1.stats.isDone = false := by
          simpa [Limits.isFinished, runaway] using finished
        have notRemovable : limits.isRemovable first = false := by
          simp [Limits.isRemovable, finished, runaway]
        obtain ⟨count, evicted, upTo⟩ := ih (unbroken.skip notRemovable)
        refine ⟨count, ?_, upTo.cons_unfinished finished⟩
        simp [action?, keep, runaway, notDone, evicted, finished]

/-- A pass starts out unbroken. -/
theorem isUnbroken_nil (reviewing : start.isReviewing = true) :
    IsUnbroken limits start [] start := by
  constructor <;> simp [totalBytes, reviewing]

end FirstPass

section Order

variable {α : Type} {before : α → α → Bool} {holds : α → Bool} {items front back : List α}
  {item : α}

/-- In front of an item of an ordered list there is exactly what comes before it. -/
theorem filter_before_eq_front
    (irrefl : ∀ first, before first first = false)
    (asymm : ∀ first second, before first second = true → before second first = false)
    (ordered : (front ++ item :: back).Pairwise fun first second => before first second = true) :
    (front ++ item :: back).filter (before · item) = front := by
  obtain ⟨_, ordered, apart⟩ := List.pairwise_append.mp ordered
  have behind := (List.pairwise_cons.mp ordered).1
  have all : ∀ other ∈ front, before other item = true :=
    fun other member => apart other member item List.mem_cons_self
  have none : ∀ other ∈ back, ¬ before other item = true := by
    intro other member isBefore
    rw [asymm _ _ (behind other member)] at isBefore
    cases isBefore
  simp [List.filter_eq_self.mpr all, irrefl, List.filter_eq_nil_iff.mpr none]

/-- Where an item stands among those of a list that have a property. -/
theorem exists_front_of_getElem?_filter {index : Nat}
    (found : (items.filter holds)[index]? = some item) :
    ∃ front back, items = front ++ item :: back ∧ holds item = true ∧
      (front.filter holds).length = index := by
  induction items generalizing index with
  | nil => simp at found
  | cons first items ih =>
    cases held : holds first with
    | false =>
      rw [List.filter_cons_of_neg (by simp [held])] at found
      obtain ⟨front, back, rfl, holdsItem, isIndex⟩ := ih found
      exact ⟨first :: front, back, rfl, holdsItem, by simpa [held] using isIndex⟩
    | true =>
      rw [List.filter_cons_of_pos held] at found
      cases index with
      | zero =>
        cases found
        exact ⟨[], items, rfl, held, rfl⟩
      | succ index =>
        obtain ⟨front, back, rfl, holdsItem, isIndex⟩ := ih found
        exact ⟨first :: front, back, rfl, holdsItem, by simpa [held] using isIndex⟩

end Order

namespace Plan

/-- The candidates that are less worthy than one of them. -/
def lessWorthy (candidates : List Candidate) (item : Candidate × Nat) : List (Candidate × Nat) :=
  candidates.zipIdx.filter (isLessWorthy · item)

/-- The finished candidates, from the least worthy on. -/
def finished (candidates : List Candidate) (limits : Limits) : List (Candidate × Nat) :=
  (ranked candidates).reverse.filter limits.isFinished

/-- A candidate is pressed to go: memory is short though all less worthy finished candidates are
gone, or too many searches are left when the less worthy runaways are gone as well, or too large
ones, or it is too old itself. -/
def IsPressed (candidates : List Candidate) (limits : Limits) (freeBytes : UInt64)
    (item : Candidate × Nat) : Prop :=
  0 < limits.memoryDeficit freeBytes -
    totalBytes ((lessWorthy candidates item).filter limits.isFinished) ∨
  isExceeded limits.maxEntries (candidates.length -
    ((lessWorthy candidates item).filter limits.isRemovable).length) = true ∨
  isExceeded limits.maxSizeMegabytes (wholeMegabytes (totalBytes candidates.zipIdx -
    totalBytes ((lessWorthy candidates item).filter limits.isRemovable))) = true ∨
  limits.isTooOld item.1.stats = true

variable {candidates : List Candidate} {limits : Limits} {freeBytes : UInt64} {plan : Plan}

/-- Candidates differ in their positions, so one of two is less worthy. -/
theorem pairwise_reverse_ranked (candidates : List Candidate) :
    (ranked candidates).reverse.Pairwise fun first second => isLessWorthy first second = true := by
  have apart : (ranked candidates).Pairwise fun first second => first.2 ≠ second.2 := by
    rw [← List.pairwise_map]
    exact ((rank_perm Candidate.worthiness candidates).map Prod.snd).nodup_iff.mpr
      (nodup_positions candidates)
  rw [List.pairwise_reverse]
  refine ((pairwise_rank Candidate.worthiness candidates).and apart).imp ?_
  rintro first second ⟨outranks, apart⟩
  rw [outranks_iff] at outranks
  simp only [isLessWorthy, Bool.or_eq_true, Bool.and_eq_true, decide_eq_true_eq,
    Int64.lt_iff_toInt_lt, ← Int64.toInt_inj]
  omega

/-- The less worthy candidates are those that the first pass comes to before. -/
theorem lessWorthy_perm {front back : List (Candidate × Nat)} {item : Candidate × Nat}
    (split : (ranked candidates).reverse = front ++ item :: back) :
    (lessWorthy candidates item).Perm front := by
  have ordered := pairwise_reverse_ranked candidates
  rw [split] at ordered
  have inFront := filter_before_eq_front isLessWorthy_irrefl isLessWorthy_asymm ordered
  have listed := (rank_perm Candidate.worthiness candidates).symm.trans
    (List.reverse_perm (ranked candidates)).symm
  have filtered := listed.filter (isLessWorthy · item)
  rwa [split, inFront] at filtered

/-- A candidate is pressed to go as the first pass finds it when it comes to it. -/
theorem isPressed_iff {front back : List (Candidate × Nat)} {item : Candidate × Nat}
    (split : (ranked candidates).reverse = front ++ item :: back) :
    IsPressed candidates limits freeBytes item ↔
      FirstPass.IsPressed limits (firstStart candidates limits freeBytes) front item := by
  have same := lessWorthy_perm split
  rw [IsPressed, FirstPass.IsPressed, totalBytes_perm (same.filter _),
    totalBytes_perm (same.filter _), (same.filter _).length_eq, totalBytes_zipIdx]
  rfl

theorem mem_finished_iff {item : Candidate × Nat} : item ∈ finished candidates limits ↔
    item ∈ candidates.zipIdx ∧ limits.isFinished item = true := by
  rw [finished, List.mem_filter, List.mem_reverse, mem_ranked_iff]

/-- The finished candidates are ordered from the least worthy on. -/
theorem pairwise_finished (candidates : List Candidate) (limits : Limits) :
    (finished candidates limits).Pairwise fun first second => isLessWorthy first second = true :=
  (pairwise_reverse_ranked candidates).filter _

/-- The first pass of a plan evicts the least worthy finished candidates, up to the first one that
is not pressed to go. -/
theorem evicted_firstRemovals (candidates : List Candidate) (limits : Limits)
    (freeBytes : UInt64) :
    ∃ count, Removal.evicted (firstRemovals candidates limits freeBytes) =
        (finished candidates limits).take count ∧
      (∀ item ∈ (finished candidates limits).take count,
        IsPressed candidates limits freeBytes item) ∧
      ∀ next, (finished candidates limits)[count]? = some next →
        ¬ IsPressed candidates limits freeBytes next := by
  have unbroken : FirstPass.IsUnbroken limits (firstStart candidates limits freeBytes) []
      (firstStart candidates limits freeBytes) := FirstPass.isUnbroken_nil rfl
  obtain ⟨count, evicted, upTo⟩ := unbroken.evicted (ranked candidates).reverse
  refine ⟨count, evicted, fun item member => ?_, fun next found => ?_⟩
  · obtain ⟨index, within, found⟩ := List.mem_take_iff_getElem.mp member
    obtain ⟨front, back, split, isFinished, rfl⟩ :=
      exists_front_of_getElem?_filter (List.getElem?_eq_some_iff.mpr ⟨_, found⟩)
    exact (isPressed_iff split).mpr ((upTo front item back split isFinished).1 (by omega))
  · obtain ⟨front, back, split, isFinished, isCount⟩ := exists_front_of_getElem?_filter found
    rw [isPressed_iff split]
    exact (upTo front next back split isFinished).2 isCount

/-- The candidates about which there is such a decision. -/
def decided (candidates : List Candidate) (decisions : List (Nat × SweepAction))
    (holds : SweepAction → Bool) : List (Candidate × Nat) :=
  candidates.zipIdx.filter fun item =>
    decisions.any fun decision => decide (decision.1 = item.2) && holds decision.2

/-- The candidates about which there is no decision. -/
def undecided (candidates : List Candidate) (decisions : List (Nat × SweepAction)) :
    List (Candidate × Nat) :=
  candidates.zipIdx.filter fun item => !decisions.any fun decision => decide (decision.1 = item.2)

/-- Decisions to remove candidates are about the candidates that they remove. -/
theorem decided_perm {removals : List Removal}
    (listed : ∀ removal ∈ removals, removal.item ∈ candidates.zipIdx)
    (nodup : (removals.map (·.item)).Nodup) (holds : SweepAction → Bool) :
    ((removals.filter fun removal => holds removal.action).map (·.item)).Perm
      (decided candidates (removals.map Removal.decision) holds) := by
  rw [decided, List.perm_ext_iff_of_nodup (nodup.sublist (List.filter_sublist.map _))
    ((nodup_positions candidates).of_map.filter _)]
  intro item
  simp only [List.mem_map, List.mem_filter, List.any_eq_true, Bool.and_eq_true, decide_eq_true_eq]
  constructor
  · rintro ⟨removal, ⟨member, held⟩, rfl⟩
    exact ⟨listed removal member, _, ⟨removal, member, rfl⟩, rfl, held⟩
  · rintro ⟨itemListed, _, ⟨removal, member, rfl⟩, same, held⟩
    exact ⟨removal, ⟨member, held⟩, eq_of_position (listed removal member) itemListed same⟩

/-- What is removed and what there is no decision about make up all candidates. -/
theorem undecided_perm {removals : List Removal}
    (listed : ∀ removal ∈ removals, removal.item ∈ candidates.zipIdx)
    (nodup : (removals.map (·.item)).Nodup) :
    (removals.map (·.item) ++ undecided candidates (removals.map Removal.decision)).Perm
      candidates.zipIdx := by
  have removed := decided_perm listed nodup fun _ => true
  simp only [List.filter_true, decided, Bool.and_true] at removed
  exact (removed.append_right _).trans (List.filter_append_perm _ _)

/-- What a plan does at a position, it does to a candidate that it removes. -/
theorem actionFor?_eq_some_iff (made : make candidates limits freeBytes = .ok plan)
    {position : Nat} {action : SweepAction} :
    plan.actionFor? position = some action ↔
      ∃ removal ∈ removals candidates limits freeBytes,
        removal.item.2 = position ∧ removal.action = action := by
  rw [actionFor?, actions_of_make made, Option.map_eq_some_iff]
  constructor
  · rintro ⟨decision, found, rfl⟩
    obtain ⟨removal, member, rfl⟩ := List.mem_map.mp (List.mem_of_find?_eq_some found)
    have isThere := List.find?_some found
    exact ⟨removal, member, of_decide_eq_true isThere, rfl⟩
  · rintro ⟨removal, member, rfl, rfl⟩
    have isDecision : removal.decision ∈
        (removals candidates limits freeBytes).map Removal.decision := List.mem_map_of_mem member
    obtain ⟨decision, found⟩ := Option.isSome_iff_exists.mp
      (List.find?_isSome (p := fun decision => decision.1 = removal.item.2).mpr
        ⟨_, isDecision, by simp [Removal.decision]⟩)
    obtain ⟨other, otherMember, rfl⟩ := List.mem_map.mp (List.mem_of_find?_eq_some found)
    have isThere := List.find?_some found
    have samePosition : other.item.2 = removal.item.2 := of_decide_eq_true isThere
    have same := List.inj_on_of_nodup_map nodup_positions_removals otherMember member samePosition
    exact ⟨_, found, by rw [same]; rfl⟩

end Plan

/-- A second pass aborts no search for having taken too long. -/
theorem SecondPass.reason_of_mem_removals {limits : Limits} {pass : SecondPass}
    {items : List (Candidate × Nat)} {removal : Removal}
    (member : removal ∈ SecondPass.removals limits pass items) :
    removal.action ≠ .abort .tookTooLong := by
  induction items generalizing pass with
  | nil => cases member
  | cons item rest ih =>
    rw [removals] at member
    split at member
    · obtain rfl | later := List.mem_cons.mp member
      · simp
      · exact ih later
    · split at member
      · exact ih member
      · obtain rfl | later := List.mem_cons.mp member
        · simp
        · exact ih later

namespace Plan

variable {candidates : List Candidate} {limits : Limits} {freeBytes : UInt64} {plan : Plan}

/-- A plan evicts what its first pass evicts. -/
theorem exists_evict_iff (made : make candidates limits freeBytes = .ok plan) {position : Nat} :
    (∃ reason, plan.actionFor? position = some (.evict reason)) ↔
      ∃ candidate, (candidate, position) ∈
        Removal.evicted (firstRemovals candidates limits freeBytes) := by
  simp only [actionFor?_eq_some_iff made, Removal.evicted, List.mem_map, List.mem_filter]
  constructor
  · rintro ⟨reason, removal, member, rfl, isEviction⟩
    rcases List.mem_append.mp member with first | second
    · exact ⟨removal.item.1, removal, ⟨first, by simp [isEviction, Store.isAbort]⟩, rfl⟩
    · obtain ⟨other, isAbort⟩ := SecondPass.action_of_mem_removals second
      rw [isEviction] at isAbort
      cases isAbort
  · rintro ⟨candidate, removal, ⟨first, noAbort⟩, isItem⟩
    rcases FirstPass.action_of_mem_removals first with ⟨_, isAbort⟩ | ⟨_, _, reason, isEviction⟩
    · simp [isAbort, Store.isAbort] at noAbort
    · exact ⟨reason, removal, List.mem_append_left _ first, by rw [isItem], isEviction⟩

/-- A plan aborts runaways, and no other search, for having taken too long. -/
theorem actionFor?_eq_tookTooLong_iff (made : make candidates limits freeBytes = .ok plan)
    {position : Nat} :
    plan.actionFor? position = some (.abort .tookTooLong) ↔
      ∃ candidate, candidates[position]? = some candidate ∧
        limits.isRunaway candidate.stats = true := by
  rw [actionFor?_eq_some_iff made]
  constructor
  · rintro ⟨removal, member, rfl, isAbort⟩
    rcases List.mem_append.mp member with first | second
    · have listed := List.mem_zipIdx_iff_getElem?.mp (item_mem_of_firstRemovals first)
      rcases FirstPass.action_of_mem_removals first with ⟨runaway, _⟩ | ⟨_, _, reason, isEviction⟩
      · exact ⟨removal.item.1, listed, runaway⟩
      · rw [isEviction] at isAbort
        cases isAbort
    · exact absurd isAbort (SecondPass.reason_of_mem_removals second)
  · rintro ⟨candidate, found, runaway⟩
    have listed : (candidate, position) ∈ candidates.zipIdx :=
      List.mem_zipIdx_iff_getElem?.mpr found
    have removed : (candidate, position) ∈
        (firstRemovals candidates limits freeBytes).map (·.item) := by
      by_contra kept
      have visited := List.mem_reverse.mpr (mem_ranked_iff.mpr listed)
      rw [(FirstPass.kept_of_notMem visited kept).1] at runaway
      cases runaway
    obtain ⟨removal, member, isItem⟩ := List.mem_map.mp removed
    rcases FirstPass.action_of_mem_removals member with ⟨_, isAbort⟩ | ⟨notRunaway, _⟩
    · exact ⟨removal, List.mem_append_left _ member, by rw [isItem], isAbort⟩
    · rw [isItem, runaway] at notRunaway
      cases notRunaway

/-- What is less worthy than one of the least worthy finished candidates is one of them. -/
theorem mem_take_of_isLessWorthy {count : Nat} {less item : Candidate × Nat}
    (member : less ∈ finished candidates limits)
    (isItem : item ∈ (finished candidates limits).take count)
    (isLess : isLessWorthy less item = true) : less ∈ (finished candidates limits).take count := by
  have ordered := pairwise_finished candidates limits
  rw [← List.take_append_drop count (finished candidates limits)] at member ordered
  rcases List.mem_append.mp member with taken | dropped
  · exact taken
  · have isMore := (List.pairwise_append.mp ordered).2.2 item isItem less dropped
    rw [isLessWorthy_asymm _ _ isLess] at isMore
    cases isMore

/-- What a plan does in its first pass, whatever it does in the second. It aborts the runaways for
having taken too long, and no others. It evicts finished candidates, the least worthy first, up to
the first one that is not pressed to go. So whatever is worthier than a finished candidate that it
does not evict is not evicted either. -/
theorem evicts_least_worthy (made : make candidates limits freeBytes = .ok plan) :
    (∀ position, plan.actionFor? position = some (.abort .tookTooLong) ↔
      ∃ candidate, candidates[position]? = some candidate ∧
        limits.isRunaway candidate.stats = true) ∧
    (((finished candidates limits).Pairwise fun first second =>
        isLessWorthy first second = true) ∧
      ∀ candidate position, (candidate, position) ∈ finished candidates limits ↔
        candidates[position]? = some candidate ∧ candidate.stats.isDone = true ∧
          limits.isRunaway candidate.stats = false) ∧
    (∃ count,
      (∀ position, (∃ reason, plan.actionFor? position = some (.evict reason)) ↔
        ∃ candidate, (candidate, position) ∈ (finished candidates limits).take count) ∧
      (∀ item ∈ (finished candidates limits).take count,
        IsPressed candidates limits freeBytes item) ∧
      ∀ next, (finished candidates limits)[count]? = some next →
        ¬ IsPressed candidates limits freeBytes next) ∧
    ∀ kept ∈ finished candidates limits, ∀ worthier ∈ finished candidates limits,
      isLessWorthy kept worthier = true →
        (∀ reason, plan.actionFor? kept.2 ≠ some (.evict reason)) →
          ∀ reason, plan.actionFor? worthier.2 ≠ some (.evict reason) := by
  obtain ⟨count, evicted, pressed, unpressed⟩ := evicted_firstRemovals candidates limits freeBytes
  have evicts : ∀ position, (∃ reason, plan.actionFor? position = some (.evict reason)) ↔
      ∃ candidate, (candidate, position) ∈ (finished candidates limits).take count := by
    intro position
    rw [exists_evict_iff made, evicted]
  refine ⟨fun position => actionFor?_eq_tookTooLong_iff made, ⟨pairwise_finished candidates limits,
    fun candidate position => ?_⟩, ⟨count, evicts, pressed, unpressed⟩, ?_⟩
  · rw [mem_finished_iff, List.mem_zipIdx_iff_getElem?]
    simp [Limits.isFinished]
  · intro kept keptMember worthier worthierMember isLess stays reason evictsWorthier
    obtain ⟨candidate, taken⟩ := (evicts worthier.2).mp ⟨reason, evictsWorthier⟩
    have isWorthier : (candidate, worthier.2) = worthier :=
      eq_of_position (mem_finished_iff.mp (List.mem_of_mem_take taken)).1
        (mem_finished_iff.mp worthierMember).1 rfl
    rw [isWorthier] at taken
    have keptTaken := mem_take_of_isLessWorthy keptMember taken isLess
    obtain ⟨keptReason, evictsKept⟩ := (evicts kept.2).mpr ⟨kept.1, keptTaken⟩
    exact stays keptReason evictsKept

/-- The figures of a finished search. -/
def settledStats : Stats where
  status := .done
  searchDone := true
  storedHits := 10
  sinceCreation := .ofSeconds 60
  sinceLastAccess := .ofSeconds 10
  waited := .ofSeconds 1
  unused := .ofSeconds 10
  isCount := false

/-- The figures of a search that has been running for seven minutes. -/
def endlessStats : Stats :=
  { settledStats with status := .running, searchDone := false, waited := .ofSeconds 420 }

/-- Three finished searches, with a runaway among them. -/
def crowd : List Candidate :=
  [⟨5, settledStats⟩, ⟨-1, endlessStats⟩, ⟨3, settledStats⟩, ⟨1, settledStats⟩]

/-- Limits by which two searches may stay. -/
def crowdLimits : Limits := { (Settings.standard 2).limits with maxEntries := some 2 }

theorem evicts_least_worthy_of_crowd :
    make crowd crowdLimits 200000000 =
      .ok ⟨[(1, .abort .tookTooLong), (3, .evict .tooManySearches)], 960⟩ ∧
    crowdLimits.isRunaway endlessStats = true ∧
    IsPressed crowd crowdLimits 200000000 (⟨1, settledStats⟩, 3) ∧
    isLessWorthy (⟨3, settledStats⟩, 2) (⟨5, settledStats⟩, 0) = true ∧
      ∀ reason, Plan.actionFor? ⟨[(1, .abort .tookTooLong), (3, .evict .tooManySearches)], 960⟩ 0 ≠
        some (.evict reason) := by
  have made : make crowd crowdLimits 200000000 =
      .ok ⟨[(1, .abort .tookTooLong), (3, .evict .tooManySearches)], 960⟩ := by
    have ranking : rank Candidate.worthiness crowd = [(⟨5, settledStats⟩, 0),
        (⟨3, settledStats⟩, 2), (⟨1, settledStats⟩, 3), (⟨-1, endlessStats⟩, 1)] := by
      simp [rank, crowd, List.mergeSort, outranks]
    rw [make, ranking]
    rfl
  obtain ⟨aborts, ⟨_, listed⟩, ⟨count, evicts, pressed, _⟩, keepsWorthier⟩ :=
    evicts_least_worthy made
  obtain ⟨candidate, found, runaway⟩ := (aborts 1).mp rfl
  obtain ⟨evicted, taken⟩ := (evicts 3).mp ⟨.tooManySearches, rfl⟩
  cases found
  have isEvicted := ((listed evicted 3).mp (List.mem_of_mem_take taken)).1
  cases isEvicted
  refine ⟨made, runaway, pressed _ taken, by decide, ?_⟩
  refine keepsWorthier (⟨3, settledStats⟩, 2) ((listed _ _).mpr ⟨rfl, rfl, by decide⟩)
    (⟨5, settledStats⟩, 0) ((listed _ _).mpr ⟨rfl, rfl, by decide⟩) (by decide) ?_
  simp [actionFor?]

end Plan

end SweptCache
