import SweptCache.Proofs.EvictionRule

/-!
# The rule of running searches

The second pass of a plan counts down the cores that are left. Which searches it
spares can be said without the count: of the `Plan.eligible` ones, which are
unfinished, no runaways and no abandoned counts, as many as may run at once, the
most worthy first. The first pass bears on this only through the runaways that
it removes (`Plan.leftRunning_eq`), whatever the limits on number, size, age and
memory make it evict. So the second pass is the same for all such limits.
-/

namespace SweptCache

/-- Whether an action is one of those that the second pass decides on. -/
def SweepAction.isOfSecondPass : SweepAction → Bool
  | .abort .abandonedCount | .abort .noCoresLeft => true
  | .abort .tookTooLong | .evict _ => false

namespace Limits

/-- Whether a candidate is unfinished and no runaway. -/
def isRunning (limits : Limits) (item : Candidate × Nat) : Bool :=
  !item.1.stats.isDone && !limits.isRunaway item.1.stats

/-- Whether a candidate may use a core: it is unfinished, no runaway and no abandoned count. -/
def isEligible (limits : Limits) (item : Candidate × Nat) : Bool :=
  limits.isRunning item && !limits.isAbandonedCount item.1.stats

/-- Limits that treat unfinished searches alike, whatever else they limit. -/
structure AgreeOnSearches (limits other : Limits) : Prop where
  maxSearchTime : limits.maxSearchTime = other.maxSearchTime
  maxConcurrent : limits.maxConcurrent = other.maxConcurrent
  abandonedCountTimeout : limits.abandonedCountTimeout = other.abandonedCountTimeout

variable {limits other : Limits}

/-- Which searches are runaways depends on the time that a search may take. -/
theorem isRunaway_congr (same : limits.maxSearchTime = other.maxSearchTime) (stats : Stats) :
    limits.isRunaway stats = other.isRunaway stats := by
  rw [isRunaway, isRunaway, same]

/-- Which counts are abandoned depends on how long they may go without being asked for. -/
theorem isAbandonedCount_congr
    (same : limits.abandonedCountTimeout = other.abandonedCountTimeout) (stats : Stats) :
    limits.isAbandonedCount stats = other.isAbandonedCount stats := by
  rw [isAbandonedCount, isAbandonedCount, same]

theorem isRunning_congr (same : limits.maxSearchTime = other.maxSearchTime) :
    limits.isRunning = other.isRunning := by
  funext item
  rw [isRunning, isRunning, isRunaway_congr same]

theorem isEligible_congr (sameTime : limits.maxSearchTime = other.maxSearchTime)
    (sameTimeout : limits.abandonedCountTimeout = other.abandonedCountTimeout) :
    limits.isEligible = other.isEligible := by
  funext item
  rw [isEligible, isEligible, isRunning_congr sameTime, isAbandonedCount_congr sameTimeout]

end Limits

/-- Of several removals, those with one action are known by their items. -/
theorem Removal.mem_iff_of_filter {removals : List Removal} {action : SweepAction}
    {items : List (Candidate × Nat)}
    (same : (removals.filter fun removal => decide (removal.action = action)) =
      items.map fun item => ⟨item, action⟩) {item : Candidate × Nat} :
    ⟨item, action⟩ ∈ removals ↔ item ∈ items := by
  constructor
  · intro removed
    have filtered : ⟨item, action⟩ ∈ removals.filter fun removal =>
        decide (removal.action = action) := List.mem_filter.mpr ⟨removed, decide_eq_true rfl⟩
    rw [same] at filtered
    obtain ⟨other, member, isItem⟩ := List.mem_map.mp filtered
    cases isItem
    exact member
  · intro member
    have filtered := List.mem_map_of_mem (f := fun item => (⟨item, action⟩ : Removal)) member
    rw [← same] at filtered
    exact List.mem_of_mem_filter filtered

namespace SecondPass

variable {limits other : Limits}

/-- A second pass aborts the abandoned counts that it comes to. -/
theorem removals_abandonedCount (limits : Limits) (pass : SecondPass)
    (items : List (Candidate × Nat)) :
    ((removals limits pass items).filter fun removal =>
        decide (removal.action = .abort .abandonedCount)) =
      (items.filter fun item => limits.isAbandonedCount item.1.stats).map
        fun item => ⟨item, .abort .abandonedCount⟩ := by
  induction items generalizing pass with
  | nil => rfl
  | cons item rest ih =>
    rw [removals]
    by_cases abandoned : limits.isAbandonedCount item.1.stats = true
    · simp [abandoned, ih]
    · by_cases more : 0 < pass.coresLeft
      · simp [abandoned, more, ih]
      · simp [abandoned, more, ih]

/-- A second pass lets the first of the other searches run, as many as there are cores, and aborts
the rest of them. -/
theorem removals_noCoresLeft (limits : Limits) (pass : SecondPass)
    (items : List (Candidate × Nat)) :
    ((removals limits pass items).filter fun removal =>
        decide (removal.action = .abort .noCoresLeft)) =
      ((items.filter fun item => !limits.isAbandonedCount item.1.stats).drop pass.coresLeft).map
        fun item => ⟨item, .abort .noCoresLeft⟩ := by
  induction items generalizing pass with
  | nil => simp [removals]
  | cons item rest ih =>
    rw [removals]
    by_cases abandoned : limits.isAbandonedCount item.1.stats = true
    · simp [abandoned, ih]
    · by_cases more : 0 < pass.coresLeft
      · obtain ⟨cores, isSucc⟩ := Nat.exists_eq_add_one.mpr more
        simp [abandoned, ih, isSucc]
      · have none : pass.coresLeft = 0 := by omega
        simp [abandoned, ih, none]

/-- What a second pass removes depends on the limits only by which counts are abandoned. -/
theorem removals_congr (same : limits.abandonedCountTimeout = other.abandonedCountTimeout)
    (pass : SecondPass) (items : List (Candidate × Nat)) :
    removals limits pass items = removals other pass items := by
  induction items generalizing pass with
  | nil => rfl
  | cons item rest ih =>
    rw [removals, removals, Limits.isAbandonedCount_congr same, ih, ih]

/-- A second pass decides on nothing but abandoned counts and cores. -/
theorem isOfSecondPass_of_mem {pass : SecondPass} {items : List (Candidate × Nat)}
    {removal : Removal} (member : removal ∈ removals limits pass items) :
    removal.action.isOfSecondPass = true := by
  obtain ⟨reason, aborts⟩ := action_of_mem_removals member
  have notRunaway := reason_of_mem_removals member
  rw [aborts] at notRunaway ⊢
  cases reason with
  | tookTooLong => exact absurd rfl notRunaway
  | abandonedCount => rfl
  | noCoresLeft => rfl

end SecondPass

/-- A first pass leaves what the second decides on to the second. -/
theorem FirstPass.isOfSecondPass_of_mem {limits : Limits} {pass : FirstPass}
    {items : List (Candidate × Nat)} {removal : Removal}
    (member : removal ∈ removals limits pass items) :
    removal.action.isOfSecondPass = false := by
  rcases action_of_mem_removals member with ⟨_, aborts⟩ | ⟨_, _, reason, evicts⟩
  · rw [aborts]
    rfl
  · rw [evicts]
    rfl

namespace Plan

/-- The candidates that may use a core, from the most worthy on. -/
def eligible (candidates : List Candidate) (limits : Limits) : List (Candidate × Nat) :=
  (ranked candidates).filter limits.isEligible

/-- Whether the candidate at one position is less worthy than the one at another. -/
def IsLessWorthyAt (candidates : List Candidate) (first second : Nat) : Prop :=
  ∃ less more, candidates[first]? = some less ∧ candidates[second]? = some more ∧
    isLessWorthy (less, first) (more, second) = true

/-- What a plan decides in its first pass. -/
def firstDecisions (plan : Plan) : List (Nat × SweepAction) :=
  plan.actions.filter fun decision => !decision.2.isOfSecondPass

/-- What a plan decides in its second pass. -/
def secondDecisions (plan : Plan) : List (Nat × SweepAction) :=
  plan.actions.filter fun decision => decision.2.isOfSecondPass

/-- The decisions of a plan are about different candidates and come in the order of the passes:
first from the least worthy on, then from the most worthy on. -/
structure IsInOrder (plan : Plan) (candidates : List Candidate) : Prop where
  distinct : (plan.actions.map (·.1)).Nodup
  inRange : ∀ decision ∈ plan.actions, decision.1 < candidates.length
  passes : plan.actions = plan.firstDecisions ++ plan.secondDecisions
  ascending : plan.firstDecisions.Pairwise fun former latter =>
    IsLessWorthyAt candidates former.1 latter.1
  descending : plan.secondDecisions.Pairwise fun former latter =>
    IsLessWorthyAt candidates latter.1 former.1

variable {candidates : List Candidate} {limits other : Limits} {freeBytes otherFree : UInt64}
  {plan : Plan}

/-- The candidates are ranked from the most worthy on. -/
theorem pairwise_ranked (candidates : List Candidate) :
    (ranked candidates).Pairwise fun first second => isLessWorthy second first = true :=
  List.pairwise_reverse.mp (pairwise_reverse_ranked candidates)

theorem mem_eligible_iff {item : Candidate × Nat} : item ∈ eligible candidates limits ↔
    item ∈ candidates.zipIdx ∧ limits.isEligible item = true := by
  rw [eligible, List.mem_filter, mem_ranked_iff]

/-- The first pass leaves those unfinished candidates that are no runaways, whatever it evicts. -/
theorem leftRunning_eq (candidates : List Candidate) (limits : Limits) (freeBytes : UInt64) :
    leftRunning candidates limits freeBytes = (ranked candidates).filter limits.isRunning := by
  refine List.filter_congr ?_
  intro item listed
  rw [Limits.isRunning]
  cases done : item.1.stats.isDone with
  | true => rfl
  | false =>
    by_cases removed : item ∈ (firstRemovals candidates limits freeBytes).map (·.item)
    · obtain ⟨removal, member, rfl⟩ := List.mem_map.mp removed
      rcases FirstPass.action_of_mem_removals member with ⟨runaway, _⟩ | ⟨_, finished, _⟩
      · simp [removed, runaway]
      · rw [done] at finished
        cases finished
    · have visited := List.mem_reverse.mpr listed
      simp [removed, (FirstPass.kept_of_notMem visited removed).1]

/-- The second pass aborts the abandoned counts among the searches that are left. -/
theorem mem_secondRemovals_abandonedCount_iff {item : Candidate × Nat} :
    ⟨item, .abort .abandonedCount⟩ ∈ secondRemovals candidates limits freeBytes ↔
      item ∈ candidates.zipIdx ∧ limits.isRunning item = true ∧
        limits.isAbandonedCount item.1.stats = true := by
  rw [secondRemovals, Removal.mem_iff_of_filter (SecondPass.removals_abandonedCount ..),
    List.mem_filter, leftRunning_eq, List.mem_filter, mem_ranked_iff, and_assoc]

/-- The second pass aborts the eligible searches for which no core is left. -/
theorem mem_secondRemovals_noCoresLeft_iff {item : Candidate × Nat} :
    ⟨item, .abort .noCoresLeft⟩ ∈ secondRemovals candidates limits freeBytes ↔
      item ∈ (eligible candidates limits).drop limits.maxConcurrent.toNat := by
  have isEligible : (fun item : Candidate × Nat =>
      !limits.isAbandonedCount item.1.stats && limits.isRunning item) = limits.isEligible := by
    funext item
    rw [Limits.isEligible, Bool.and_comm]
  rw [secondRemovals, Removal.mem_iff_of_filter (SecondPass.removals_noCoresLeft ..),
    leftRunning_eq, List.filter_filter, isEligible, ← eligible]

/-- A plan aborts unfinished counts that nobody asks for, if they are no runaways, and no other
candidates for that reason. -/
theorem actionFor?_eq_abandonedCount_iff (made : make candidates limits freeBytes = .ok plan)
    {position : Nat} :
    plan.actionFor? position = some (.abort .abandonedCount) ↔
      ∃ candidate, candidates[position]? = some candidate ∧
        limits.isRunning (candidate, position) = true ∧
        limits.isAbandonedCount candidate.stats = true := by
  rw [actionFor?_eq_some_iff made]
  constructor
  · rintro ⟨⟨⟨candidate, _⟩, _⟩, member, rfl, rfl⟩
    rcases List.mem_append.mp member with first | second
    · cases FirstPass.isOfSecondPass_of_mem first
    · obtain ⟨listed, stays⟩ := mem_secondRemovals_abandonedCount_iff.mp second
      exact ⟨candidate, List.mem_zipIdx_iff_getElem?.mp listed, stays⟩
  · rintro ⟨candidate, found, stays⟩
    have second : ⟨(candidate, position), .abort .abandonedCount⟩ ∈
        secondRemovals candidates limits freeBytes :=
      mem_secondRemovals_abandonedCount_iff.mpr ⟨List.mem_zipIdx_iff_getElem?.mpr found, stays⟩
    exact ⟨_, List.mem_append_right _ second, rfl, rfl⟩

/-- A plan aborts the eligible searches for which no core is left, and no other candidates for that
reason. -/
theorem actionFor?_eq_noCoresLeft_iff (made : make candidates limits freeBytes = .ok plan)
    {position : Nat} :
    plan.actionFor? position = some (.abort .noCoresLeft) ↔
      ∃ candidate,
        (candidate, position) ∈ (eligible candidates limits).drop limits.maxConcurrent.toNat := by
  rw [actionFor?_eq_some_iff made]
  constructor
  · rintro ⟨⟨⟨candidate, _⟩, _⟩, member, rfl, rfl⟩
    rcases List.mem_append.mp member with first | second
    · cases FirstPass.isOfSecondPass_of_mem first
    · exact ⟨candidate, mem_secondRemovals_noCoresLeft_iff.mp second⟩
  · rintro ⟨candidate, beyond⟩
    have second : ⟨(candidate, position), .abort .noCoresLeft⟩ ∈
        secondRemovals candidates limits freeBytes :=
      mem_secondRemovals_noCoresLeft_iff.mpr beyond
    exact ⟨_, List.mem_append_right _ second, rfl, rfl⟩

/-- The candidates that may use a core are ordered from the most worthy on. -/
theorem pairwise_eligible (candidates : List Candidate) (limits : Limits) :
    (eligible candidates limits).Pairwise fun first second => isLessWorthy second first = true :=
  (pairwise_ranked candidates).filter _

theorem nodup_eligible (candidates : List Candidate) (limits : Limits) :
    (eligible candidates limits).Nodup := by
  refine (pairwise_eligible candidates limits).imp ?_
  rintro first second isLess rfl
  rw [isLessWorthy_irrefl] at isLess
  cases isLess

/-- The only thing that a plan does to an eligible candidate is to abort it when no core is left. -/
theorem action_of_eligible (made : make candidates limits freeBytes = .ok plan)
    {item : Candidate × Nat} (isEligible : limits.isEligible item = true)
    (listed : item ∈ candidates.zipIdx) {action : SweepAction}
    (acts : plan.actionFor? item.2 = some action) : action = .abort .noCoresLeft := by
  simp only [Limits.isEligible, Limits.isRunning, Bool.and_eq_true, Bool.not_eq_true'] at isEligible
  obtain ⟨⟨unfinished, notRunaway⟩, notAbandoned⟩ := isEligible
  obtain ⟨removal, member, samePosition, rfl⟩ := (actionFor?_eq_some_iff made).mp acts
  have sameItem := eq_of_position (action_of_mem_removals member).1 listed samePosition
  rcases List.mem_append.mp member with first | second
  · rcases FirstPass.action_of_mem_removals first with ⟨runaway, _⟩ | ⟨_, finished, _⟩
    · rw [sameItem, notRunaway] at runaway
      cases runaway
    · rw [sameItem, unfinished] at finished
      cases finished
  · obtain ⟨removed, action⟩ := removal
    cases action with
    | evict reason => cases SecondPass.isOfSecondPass_of_mem second
    | abort reason =>
      cases reason with
      | tookTooLong => cases SecondPass.isOfSecondPass_of_mem second
      | abandonedCount =>
        obtain rfl : removed = item := sameItem
        have abandoned := (mem_secondRemovals_abandonedCount_iff.mp second).2.2
        rw [notAbandoned] at abandoned
        cases abandoned
      | noCoresLeft => rfl

/-- Of the candidates that may use a core, a plan leaves alone as many as may run at once, the most
worthy ones, and aborts the others. -/
theorem actionFor?_of_eligible (made : make candidates limits freeBytes = .ok plan) {index : Nat}
    {item : Candidate × Nat} (found : (eligible candidates limits)[index]? = some item) :
    plan.actionFor? item.2 =
      if index < limits.maxConcurrent.toNat then none else some (.abort .noCoresLeft) := by
  obtain ⟨within, isItem⟩ := List.getElem?_eq_some_iff.mp found
  obtain ⟨listed, isEligible⟩ := mem_eligible_iff.mp (List.mem_of_getElem? found)
  split
  next before =>
    rw [Option.eq_none_iff_forall_ne_some]
    intro action acts
    obtain rfl := action_of_eligible made isEligible listed acts
    obtain ⟨candidate, beyond⟩ := (actionFor?_eq_noCoresLeft_iff made).mp acts
    obtain ⟨offset, inDrop, isOther⟩ := List.mem_drop_iff_getElem.mp beyond
    have otherListed := (mem_eligible_iff.mp (List.mem_of_mem_drop beyond)).1
    have same := eq_of_position otherListed listed rfl
    have sameIndex := (nodup_eligible candidates limits).getElem_inj_iff.mp
      ((isOther.trans same).trans isItem.symm)
    omega
  next beyond =>
    rw [actionFor?_eq_noCoresLeft_iff made]
    refine ⟨item.1, List.mem_drop_iff_getElem.mpr ⟨index - limits.maxConcurrent.toNat, ?_, ?_⟩⟩
    · omega
    · simp only [Nat.add_sub_cancel' (Nat.not_lt.mp beyond), isItem]

/-- What the second pass of a plan removes is the same whatever the limits on number, size, age and
memory. -/
theorem secondRemovals_congr (agree : limits.AgreeOnSearches other) :
    secondRemovals candidates limits freeBytes = secondRemovals candidates other otherFree := by
  rw [secondRemovals, secondRemovals, leftRunning_eq, leftRunning_eq,
    Limits.isRunning_congr agree.maxSearchTime, agree.maxConcurrent,
    SecondPass.removals_congr agree.abandonedCountTimeout]

theorem firstDecisions_of_make (made : make candidates limits freeBytes = .ok plan) :
    plan.firstDecisions = (firstRemovals candidates limits freeBytes).map Removal.decision := by
  rw [firstDecisions, actions_of_make made, removals, List.map_append, List.filter_append,
    List.filter_eq_self.mpr, List.filter_eq_nil_iff.mpr, List.append_nil]
  · rw [List.forall_mem_map]
    intro removal member
    simp [Removal.decision, SecondPass.isOfSecondPass_of_mem member]
  · rw [List.forall_mem_map]
    intro removal member
    simp [Removal.decision, FirstPass.isOfSecondPass_of_mem member]

theorem secondDecisions_of_make (made : make candidates limits freeBytes = .ok plan) :
    plan.secondDecisions = (secondRemovals candidates limits freeBytes).map Removal.decision := by
  rw [secondDecisions, actions_of_make made, removals, List.map_append, List.filter_append,
    List.filter_eq_nil_iff.mpr, List.filter_eq_self.mpr, List.nil_append]
  · rw [List.forall_mem_map]
    intro removal member
    exact SecondPass.isOfSecondPass_of_mem member
  · rw [List.forall_mem_map]
    intro removal member
    simp [Removal.decision, FirstPass.isOfSecondPass_of_mem member]

/-- Decisions are ordered by worthiness as the removals are of which they are made. -/
theorem pairwise_decisions {removals : List Removal}
    (listed : ∀ removal ∈ removals, removal.item ∈ candidates.zipIdx)
    (ordered : (removals.map (·.item)).Pairwise fun first second =>
      isLessWorthy first second = true) :
    (removals.map Removal.decision).Pairwise fun former latter =>
      IsLessWorthyAt candidates former.1 latter.1 := by
  rw [List.pairwise_map] at ordered ⊢
  refine ordered.imp_of_mem ?_
  intro first second firstMember secondMember isLess
  exact ⟨_, _, List.mem_zipIdx_iff_getElem?.mp (listed _ firstMember),
    List.mem_zipIdx_iff_getElem?.mp (listed _ secondMember), isLess⟩

/-- Every plan is in order. -/
theorem isInOrder_of_make (made : make candidates limits freeBytes = .ok plan) :
    plan.IsInOrder candidates where
  distinct := by
    rw [actions_of_make made, List.map_map]
    exact nodup_positions_removals
  inRange := by
    rw [actions_of_make made, List.forall_mem_map]
    intro removal member
    exact List.snd_lt_of_mem_zipIdx (action_of_mem_removals member).1
  passes := by
    rw [firstDecisions_of_make made, secondDecisions_of_make made, ← List.map_append, ← removals,
      actions_of_make made]
  ascending := by
    rw [firstDecisions_of_make made]
    refine pairwise_decisions (fun _ => item_mem_of_firstRemovals) ?_
    exact (pairwise_reverse_ranked candidates).sublist (FirstPass.removals_sublist limits _ _)
  descending := by
    rw [secondDecisions_of_make made, ← List.pairwise_reverse, ← List.map_reverse]
    refine pairwise_decisions (fun removal member => ?_) ?_
    · have left := item_mem_of_secondRemovals (List.mem_reverse.mp member)
      exact mem_ranked_iff.mp (List.mem_of_mem_filter left)
    · rw [List.map_reverse, List.pairwise_reverse]
      exact (pairwise_ranked candidates).sublist
        ((SecondPass.removals_sublist limits _ _).trans List.filter_sublist)

/-- A plan is made for candidates whatever the limits, or for none. -/
theorem exists_make_of_make (made : make candidates limits freeBytes = .ok plan) (other : Limits)
    (otherFree : UInt64) : ∃ otherPlan, make candidates other otherFree = .ok otherPlan :=
  (make_isOk_iff candidates other otherFree).mpr
    ((make_isOk_iff candidates limits freeBytes).mp ⟨plan, made⟩)

/-- Limits that treat unfinished searches alike make plans that abort the same ones, each for the
same reason. -/
theorem actionFor?_eq_abort_congr {otherPlan : Plan} (agree : limits.AgreeOnSearches other)
    (made : make candidates limits freeBytes = .ok plan)
    (otherMade : make candidates other otherFree = .ok otherPlan) {position : Nat}
    {reason : AbortReason} :
    plan.actionFor? position = some (.abort reason) ↔
      otherPlan.actionFor? position = some (.abort reason) := by
  cases reason with
  | tookTooLong =>
    simp only [actionFor?_eq_tookTooLong_iff made, actionFor?_eq_tookTooLong_iff otherMade,
      Limits.isRunaway_congr agree.maxSearchTime]
  | abandonedCount =>
    simp only [actionFor?_eq_abandonedCount_iff made, actionFor?_eq_abandonedCount_iff otherMade,
      Limits.isRunning_congr agree.maxSearchTime,
      Limits.isAbandonedCount_congr agree.abandonedCountTimeout]
  | noCoresLeft =>
    simp only [actionFor?_eq_noCoresLeft_iff made, actionFor?_eq_noCoresLeft_iff otherMade,
      eligible, agree.maxConcurrent,
      Limits.isEligible_congr agree.maxSearchTime agree.abandonedCountTimeout]

/-- What a plan does in its second pass. It aborts the abandoned counts among the unfinished
candidates that are no runaways. Of those that are neither, which alone use up cores, it leaves as
many alone as may run at once, the most worthy ones, and aborts the others. None of this depends on
the limits on number, size, age and memory, or on how much memory is free. The decisions come in
the order of the two passes, and there is one for a candidate at most. -/
theorem spares_most_worthy_searches (made : make candidates limits freeBytes = .ok plan) :
    (∀ candidate position, candidates[position]? = some candidate →
      candidate.stats.isDone = false → limits.isRunaway candidate.stats = false →
        limits.isAbandonedCount candidate.stats = true →
          plan.actionFor? position = some (.abort .abandonedCount)) ∧
    (((eligible candidates limits).Pairwise fun first second =>
        isLessWorthy second first = true) ∧
      ∀ candidate position, (candidate, position) ∈ eligible candidates limits ↔
        candidates[position]? = some candidate ∧ candidate.stats.isDone = false ∧
          limits.isRunaway candidate.stats = false ∧
          limits.isAbandonedCount candidate.stats = false) ∧
    (∀ index candidate position, (eligible candidates limits)[index]? = some (candidate, position) →
      plan.actionFor? position =
        if index < limits.maxConcurrent.toNat then none else some (.abort .noCoresLeft)) ∧
    (∀ other otherFree, limits.AgreeOnSearches other →
      ∃ otherPlan, make candidates other otherFree = .ok otherPlan ∧
        otherPlan.secondDecisions = plan.secondDecisions ∧
        ∀ position reason, plan.actionFor? position = some (.abort reason) ↔
          otherPlan.actionFor? position = some (.abort reason)) ∧
    plan.IsInOrder candidates := by
  refine ⟨?_, ⟨pairwise_eligible candidates limits, ?_⟩, ?_, ?_, isInOrder_of_make made⟩
  · intro candidate position found unfinished notRunaway abandoned
    rw [actionFor?_eq_abandonedCount_iff made]
    exact ⟨candidate, found, by simp [Limits.isRunning, unfinished, notRunaway], abandoned⟩
  · intro candidate position
    rw [mem_eligible_iff, List.mem_zipIdx_iff_getElem?]
    simp [Limits.isEligible, Limits.isRunning, and_assoc]
  · intro index candidate position found
    exact actionFor?_of_eligible made found
  · intro other otherFree agree
    obtain ⟨otherPlan, otherMade⟩ := exists_make_of_make made other otherFree
    refine ⟨otherPlan, otherMade, ?_, fun position reason => ?_⟩
    · rw [secondDecisions_of_make otherMade, secondDecisions_of_make made,
        secondRemovals_congr agree]
    · exact actionFor?_eq_abort_congr agree made otherMade

/-- The figures of a search that has been running for a second. -/
def searchingStats : Stats :=
  { settledStats with status := .running, searchDone := false, waited := .ofSeconds 1 }

/-- The figures of a count that nobody has asked for in a minute. -/
def unaskedStats : Stats :=
  { searchingStats with sinceLastAccess := .ofSeconds 60, isCount := true }

/-- A runaway, an abandoned count and three other searches, two of them equally worthy. -/
def rush : List Candidate :=
  [⟨9, endlessStats⟩, ⟨8, unaskedStats⟩, ⟨4, searchingStats⟩, ⟨7, searchingStats⟩,
    ⟨4, searchingStats⟩]

/-- Limits by which two searches may run, and none is too many. -/
def rushLimits : Limits := { (Settings.standard 2).limits with maxEntries := none }

theorem ranked_rush : ranked rush = [(⟨9, endlessStats⟩, 0), (⟨8, unaskedStats⟩, 1),
    (⟨7, searchingStats⟩, 3), (⟨4, searchingStats⟩, 2), (⟨4, searchingStats⟩, 4)] := by
  simp [ranked, rank, rush, List.mergeSort, outranks]

theorem spares_most_worthy_searches_in_rush :
    ∃ plan, make rush rushLimits 200000000 = .ok plan ∧
      plan.actionFor? 1 = some (.abort .abandonedCount) ∧
      (eligible rush rushLimits).map (·.2) = [3, 2, 4] ∧
      plan.actionFor? 3 = none ∧ plan.actionFor? 2 = none ∧
      plan.actionFor? 4 = some (.abort .noCoresLeft) ∧
      (∃ otherPlan, make rush { rushLimits with maxEntries := some 0 } 0 = .ok otherPlan ∧
        otherPlan.secondDecisions = plan.secondDecisions) ∧
      plan.IsInOrder rush := by
  have made : make rush rushLimits 200000000 = .ok ⟨[(0, .abort .tookTooLong),
      (1, .abort .abandonedCount), (4, .abort .noCoresLeft)], 1200⟩ := by
    rw [make, ← ranked, ranked_rush]
    rfl
  have isEligible : eligible rush rushLimits =
      [(⟨7, searchingStats⟩, 3), (⟨4, searchingStats⟩, 2), (⟨4, searchingStats⟩, 4)] := by
    rw [eligible, ranked_rush]
    rfl
  obtain ⟨abandoned, _, spares, same, inOrder⟩ := spares_most_worthy_searches made
  obtain ⟨otherPlan, otherMade, sameDecisions, _⟩ :=
    same { rushLimits with maxEntries := some 0 } 0 ⟨rfl, rfl, rfl⟩
  refine ⟨_, made, abandoned _ 1 rfl rfl rfl rfl, by rw [isEligible]; rfl, ?_, ?_, ?_,
    ⟨otherPlan, otherMade, sameDecisions⟩, inOrder⟩
  · exact spares 0 ⟨7, searchingStats⟩ 3 (by rw [isEligible]; rfl)
  · exact spares 1 ⟨4, searchingStats⟩ 2 (by rw [isEligible]; rfl)
  · exact spares 2 ⟨4, searchingStats⟩ 4 (by rw [isEligible]; rfl)

end Plan

end SweptCache
