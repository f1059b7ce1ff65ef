import Mathlib.Data.List.Basic
import SweptCache.Proofs.SweepEffects

/-!
# The two passes of a plan

Both passes of a plan go through a list of candidates and remove some of them.
What a pass removes is spelled out here as a list of `Removal`s, by recursion on
the candidates that are left to it, and everything else that is known of a pass
is stated of that list: which candidates are in it, what it does to the counters
of the pass, and what follows for a candidate that is not in it.
-/

namespace SweptCache

/-- A candidate, at its position, that a pass removes, and what is done to it. -/
structure Removal where
  item : Candidate × Nat
  action : SweepAction
  deriving DecidableEq, Repr

namespace Removal

/-- The decision that a plan records of a removal. -/
def decision (removal : Removal) : Nat × SweepAction := (removal.item.2, removal.action)

/-- The bytes of the finished candidates among several removals. -/
def evictedBytes (removals : List Removal) : Nat :=
  ((removals.filter fun removal => !Store.isAbort removal.action).map
    fun removal => removal.item.1.exactSize).sum

/-- The bytes of all candidates among several removals. -/
def bytes (removals : List Removal) : Nat :=
  (removals.map fun removal => removal.item.1.exactSize).sum

@[simp] theorem bytes_nil : bytes [] = 0 := rfl

@[simp] theorem bytes_cons (removal : Removal) (rest : List Removal) :
    bytes (removal :: rest) = removal.item.1.exactSize + bytes rest := rfl

theorem bytes_append (first second : List Removal) :
    bytes (first ++ second) = bytes first + bytes second := by
  rw [bytes, List.map_append, List.sum_append, bytes, bytes]

@[simp] theorem evictedBytes_nil : evictedBytes [] = 0 := rfl

@[simp] theorem evictedBytes_evict (item : Candidate × Nat) (reason : EvictionReason)
    (rest : List Removal) :
    evictedBytes (⟨item, .evict reason⟩ :: rest) = item.1.exactSize + evictedBytes rest := by
  simp [evictedBytes, Store.isAbort]

@[simp] theorem evictedBytes_abort (item : Candidate × Nat) (reason : AbortReason)
    (rest : List Removal) : evictedBytes (⟨item, .abort reason⟩ :: rest) = evictedBytes rest := by
  simp [evictedBytes, Store.isAbort]

end Removal

/-- A limit that an amount keeps to, a smaller one keeps to. -/
theorem isExceeded_of_le {limit : Option UInt64} {amount less : Nat} (below : less ≤ amount)
    (within : isExceeded limit amount = false) : isExceeded limit less = false := by
  cases limit with
  | none => rfl
  | some most =>
    simp only [isExceeded, Option.any_some, decide_eq_false_iff_not] at within ⊢
    omega

section Avoiding

variable {α : Type} [BEq α] [LawfulBEq α]

/-- One item more that is in the list and is avoided adds nothing. -/
theorem countP_notMem_cons_le (first : α) (rest avoided : List α) :
    (first :: rest).countP (fun item => item ∉ first :: avoided) ≤
      rest.countP (fun item => item ∉ avoided) := by
  rw [List.countP_cons_of_neg (by simp)]
  exact List.countP_mono_left fun item _ avoids => by simp_all

/-- What avoids a part of a list makes up the rest of it at most. -/
theorem countP_notMem_add_length_le {part whole : List α} (sublist : part.Sublist whole) :
    whole.countP (fun item => item ∉ part) + part.length ≤ whole.length := by
  induction sublist with
  | slnil => simp
  | @cons part whole item _ ih =>
    rw [List.countP_cons, List.length_cons]
    split <;> omega
  | @cons_cons part whole item _ ih =>
    have fewer := countP_notMem_cons_le item whole part
    rw [List.length_cons, List.length_cons]
    omega

end Avoiding

namespace FirstPass

/-- What a first pass removes of the candidates that are left to it. -/
def removals (limits : Limits) : FirstPass → List (Candidate × Nat) → List Removal
  | _, [] => []
  | pass, item :: rest =>
    match pass.action? limits item.1.stats with
    | some action => ⟨item, action⟩ :: removals limits (pass.remove action item.2 item.1) rest
    | none => removals limits (pass.keep item.1.stats) rest

/-- The pass after all candidates that are left to it. -/
abbrev visitAll (limits : Limits) (pass : FirstPass) (items : List (Candidate × Nat)) : FirstPass :=
  items.foldl (visit limits) pass

variable {limits : Limits} {pass : FirstPass} {stats : Stats}

/-- The first pass aborts runaways and evicts finished candidates. -/
theorem action?_eq_some {action : SweepAction} (acts : pass.action? limits stats = some action) :
    limits.isRunaway stats = true ∧ action = .abort .tookTooLong ∨
    limits.isRunaway stats = false ∧ stats.isDone = true ∧ ∃ reason, action = .evict reason := by
  unfold action? at acts
  split at acts
  next runaway => exact .inl ⟨runaway, (Option.some.inj acts).symm⟩
  next notRunaway =>
    split at acts
    next done =>
      obtain ⟨reason, _, isEviction⟩ := Option.map_eq_some_iff.mp acts
      exact .inr ⟨by simpa using notRunaway, done, reason, isEviction.symm⟩
    next => cases acts

/-- A finished candidate is kept only once memory is free, and during the review
only if the cache keeps to its limits. -/
theorem action?_eq_none (keeps : pass.action? limits stats = none) :
    limits.isRunaway stats = false ∧
      (stats.isDone = true → pass.memoryDeficit ≤ 0 ∧
        (pass.isReviewing = true → pass.reviewReason? limits stats = none)) := by
  unfold action? at keeps
  split at keeps
  next => cases keeps
  next notRunaway =>
    refine ⟨by simpa using notRunaway, ?_⟩
    intro done
    rw [if_pos done, Option.map_eq_none_iff, evictionReason?] at keeps
    split at keeps
    next => cases keeps
    next enough =>
      refine ⟨by omega, ?_⟩
      intro reviewing
      rwa [if_pos reviewing] at keeps

/-- What a pass leaves keeps to the limits on number and size. -/
structure IsWithin (pass : FirstPass) (limits : Limits) : Prop where
  searches : isExceeded limits.maxEntries pass.searches = false
  sizeBytes : isExceeded limits.maxSizeMegabytes (wholeMegabytes pass.sizeBytes) = false

/-- A candidate that passes the review leaves number and size within their limits. -/
theorem isWithin_of_reviewReason? (passes : pass.reviewReason? limits stats = none) :
    pass.IsWithin limits := by
  unfold reviewReason? at passes
  split at passes
  next => cases passes
  next notTooMany =>
    split at passes
    next => cases passes
    next notTooLarge => exact ⟨by simpa using notTooMany, by simpa using notTooLarge⟩

/-- A removal leaves number and size within their limits. -/
theorem IsWithin.remove (within : pass.IsWithin limits) (action : SweepAction) (position : Nat)
    (candidate : Candidate) : (pass.remove action position candidate).IsWithin limits where
  searches := isExceeded_of_le (Nat.sub_le _ 1) within.searches
  sizeBytes := isExceeded_of_le (Nat.div_le_div_right (Nat.sub_le _ _)) within.sizeBytes

/-- A candidate that is neither a runaway nor too old is kept where there is no pressure. -/
theorem action?_eq_none_of_isWithin (relieved : pass.memoryDeficit ≤ 0)
    (within : pass.IsWithin limits) (notRunaway : limits.isRunaway stats = false)
    (recent : limits.isTooOld stats = false) : pass.action? limits stats = none := by
  have noReason : pass.reviewReason? limits stats = none := by
    simp [reviewReason?, within.searches, within.sizeBytes, recent]
  have noEviction : pass.evictionReason? limits stats = none := by
    rw [evictionReason?, if_neg (Int.not_lt.mpr relieved), noReason, ite_self]
  simp [action?, notRunaway, noEviction]

/-- The decisions of a first pass are those of its removals. -/
theorem decisions_visitAll (limits : Limits) (pass : FirstPass) (items : List (Candidate × Nat)) :
    (pass.visitAll limits items).decisions =
      pass.decisions ++ (removals limits pass items).map Removal.decision := by
  induction items generalizing pass with
  | nil => simp [removals]
  | cons item rest ih =>
    simp only [visitAll, List.foldl_cons] at ih ⊢
    rw [ih, visit, removals]
    cases pass.action? limits item.1.stats with
    | some action => simp [remove, Removal.decision]
    | none =>
      simp only [keep]
      split <;> rfl

/-- A first pass removes candidates in the order in which it comes to them. -/
theorem removals_sublist (limits : Limits) (pass : FirstPass) (items : List (Candidate × Nat)) :
    ((removals limits pass items).map (·.item)).Sublist items := by
  induction items generalizing pass with
  | nil => exact .slnil
  | cons item rest ih =>
    rw [removals]
    cases pass.action? limits item.1.stats with
    | some action => exact (ih _).cons_cons item
    | none => exact (ih _).cons item

/-- A first pass removes nothing where there is no pressure, no runaway and nothing too old. -/
theorem removals_eq_nil (relieved : pass.memoryDeficit ≤ 0) (within : pass.IsWithin limits)
    {items : List (Candidate × Nat)}
    (spared : ∀ item ∈ items, limits.isRunaway item.1.stats = false ∧
      limits.isTooOld item.1.stats = false) : removals limits pass items = [] := by
  induction items generalizing pass with
  | nil => rfl
  | cons item rest ih =>
    obtain ⟨notRunaway, recent⟩ := spared item List.mem_cons_self
    rw [removals, action?_eq_none_of_isWithin relieved within notRunaway recent]
    have others := fun other member => spared other (List.mem_cons_of_mem item member)
    simp only [keep]
    split
    · exact ih relieved ⟨within.searches, within.sizeBytes⟩ others
    · exact ih relieved within others

/-- What a first pass does to what it removes. -/
theorem action_of_mem_removals {items : List (Candidate × Nat)} {removal : Removal}
    (member : removal ∈ removals limits pass items) :
    limits.isRunaway removal.item.1.stats = true ∧ removal.action = .abort .tookTooLong ∨
    limits.isRunaway removal.item.1.stats = false ∧ removal.item.1.stats.isDone = true ∧
      ∃ reason, removal.action = .evict reason := by
  induction items generalizing pass with
  | nil => cases member
  | cons item rest ih =>
    rw [removals] at member
    cases acts : pass.action? limits item.1.stats with
    | some action =>
      simp only [acts, List.mem_cons] at member
      obtain rfl | later := member
      · exact action?_eq_some acts
      · exact ih later
    | none =>
      simp only [acts] at member
      exact ih member

/-- Every removal leaves one search fewer. -/
theorem searches_visitAll (limits : Limits) (pass : FirstPass) (items : List (Candidate × Nat)) :
    (pass.visitAll limits items).searches =
      pass.searches - (removals limits pass items).length := by
  induction items generalizing pass with
  | nil => rfl
  | cons item rest ih =>
    simp only [visitAll, List.foldl_cons] at ih ⊢
    rw [ih, visit, removals]
    cases pass.action? limits item.1.stats with
    | some action =>
      simp only [remove, List.length_cons]
      omega
    | none =>
      simp only [keep]
      split <;> rfl

/-- Every removal takes its bytes from the size of what is left. -/
theorem sizeBytes_visitAll (limits : Limits) (pass : FirstPass) (items : List (Candidate × Nat)) :
    (pass.visitAll limits items).sizeBytes =
      pass.sizeBytes - Removal.bytes (removals limits pass items) := by
  induction items generalizing pass with
  | nil => rfl
  | cons item rest ih =>
    simp only [visitAll, List.foldl_cons] at ih ⊢
    rw [ih, visit, removals]
    cases pass.action? limits item.1.stats with
    | some action => simp only [remove, Removal.bytes_cons, Nat.sub_sub]
    | none =>
      simp only [keep]
      split <;> rfl

/-- Evictions, and they alone, free memory. -/
theorem memoryDeficit_visitAll (limits : Limits) (pass : FirstPass)
    (items : List (Candidate × Nat)) :
    (pass.visitAll limits items).memoryDeficit =
      pass.memoryDeficit - Removal.evictedBytes (removals limits pass items) := by
  induction items generalizing pass with
  | nil => simp [removals]
  | cons item rest ih =>
    simp only [visitAll, List.foldl_cons] at ih ⊢
    rw [ih, visit, removals]
    cases pass.action? limits item.1.stats with
    | some action =>
      cases action with
      | evict reason =>
        simp only [remove, Removal.evictedBytes_evict]
        omega
      | abort reason => simp only [remove, Removal.evictedBytes_abort]
    | none =>
      simp only [keep]
      split <;> rfl

/-- The memory that has to be freed becomes no more. -/
theorem memoryDeficit_visitAll_le (limits : Limits) (pass : FirstPass)
    (items : List (Candidate × Nat)) :
    (pass.visitAll limits items).memoryDeficit ≤ pass.memoryDeficit := by
  rw [memoryDeficit_visitAll]
  omega

/-- A review that has ended stays ended. -/
theorem isReviewing_visitAll (limits : Limits) {pass : FirstPass} (items : List (Candidate × Nat))
    (ended : pass.isReviewing = false) : (pass.visitAll limits items).isReviewing = false := by
  induction items generalizing pass with
  | nil => exact ended
  | cons item rest ih =>
    refine ih ?_
    rw [visit]
    cases pass.action? limits item.1.stats with
    | some action => exact ended
    | none =>
      simp only [keep]
      split
      · rfl
      · exact ended

/-- The review ends only when number and size are within their limits. -/
theorem isWithin_visitAll {pass : FirstPass} {items : List (Candidate × Nat)}
    (initially : pass.isReviewing = false → pass.IsWithin limits)
    (ended : (pass.visitAll limits items).isReviewing = false) :
    (pass.visitAll limits items).IsWithin limits := by
  induction items generalizing pass with
  | nil => exact initially ended
  | cons item rest ih =>
    refine ih ?_ ended
    rw [visit]
    cases acts : pass.action? limits item.1.stats with
    | some action => exact fun alreadyEnded => (initially alreadyEnded).remove ..
    | none =>
      simp only [keep]
      split
      next done =>
        intro _
        have within : pass.IsWithin limits := by
          cases reviewing : pass.isReviewing with
          | false => exact initially reviewing
          | true => exact isWithin_of_reviewReason? (((action?_eq_none acts).2 done).2 reviewing)
        exact ⟨within.searches, within.sizeBytes⟩
      next => exact initially

/-- A candidate that a first pass leaves is no runaway, and if it is finished
the review has ended and enough memory is free. -/
theorem kept_of_notMem {items : List (Candidate × Nat)} {item : Candidate × Nat}
    (member : item ∈ items) (kept : item ∉ (removals limits pass items).map (·.item)) :
    limits.isRunaway item.1.stats = false ∧
      (item.1.stats.isDone = true →
        (pass.visitAll limits items).isReviewing = false ∧
          (pass.visitAll limits items).memoryDeficit ≤ 0) := by
  induction items generalizing pass with
  | nil => cases member
  | cons first rest ih =>
    simp only [visitAll, List.foldl_cons]
    rw [removals] at kept
    rw [visit]
    cases acts : pass.action? limits first.1.stats with
    | some action =>
      simp only [acts, List.map_cons, List.mem_cons, not_or] at kept
      obtain isFirst | later := List.mem_cons.mp member
      · exact absurd isFirst kept.1
      · exact ih later kept.2
    | none =>
      simp only [acts] at kept
      obtain rfl | later := List.mem_cons.mp member
      · obtain ⟨notRunaway, finished⟩ := action?_eq_none acts
        refine ⟨notRunaway, ?_⟩
        intro done
        have deficit := memoryDeficit_visitAll_le limits (pass.keep item.1.stats) rest
        simp only [keep, if_pos done] at deficit ⊢
        refine ⟨isReviewing_visitAll limits rest rfl, ?_⟩
        have before := (finished done).1
        simp only [visitAll] at deficit
        omega
      · exact ih later kept

end FirstPass

namespace SecondPass

/-- What a second pass removes of the candidates that are left to it. -/
def removals (limits : Limits) : SecondPass → List (Candidate × Nat) → List Removal
  | _, [] => []
  | pass, item :: rest =>
    if limits.isAbandonedCount item.1.stats then
      ⟨item, .abort .abandonedCount⟩ :: removals limits pass rest
    else if 0 < pass.coresLeft then
      removals limits { pass with coresLeft := pass.coresLeft - 1 } rest
    else ⟨item, .abort .noCoresLeft⟩ :: removals limits pass rest

/-- The pass after all candidates that are left to it. -/
abbrev visitAll (limits : Limits) (pass : SecondPass) (items : List (Candidate × Nat)) :
    SecondPass :=
  items.foldl (visit limits) pass

variable {limits : Limits} {pass : SecondPass}

/-- What a second pass removes depends on the cores left, not on earlier decisions. -/
theorem removals_decisions (limits : Limits) (cores : Nat) (first second : List (Nat × SweepAction))
    (items : List (Candidate × Nat)) :
    removals limits ⟨cores, first⟩ items = removals limits ⟨cores, second⟩ items := by
  induction items generalizing cores with
  | nil => rfl
  | cons item rest ih =>
    simp only [removals]
    rw [ih cores, ih (cores - 1)]

/-- The decisions of a second pass are those of its removals. -/
theorem decisions_visitAll (limits : Limits) (pass : SecondPass) (items : List (Candidate × Nat)) :
    (pass.visitAll limits items).decisions =
      pass.decisions ++ (removals limits pass items).map Removal.decision := by
  induction items generalizing pass with
  | nil => simp [removals]
  | cons item rest ih =>
    simp only [visitAll, List.foldl_cons] at ih ⊢
    rw [ih, visit, removals]
    split
    · rw [removals_decisions limits pass.coresLeft _ pass.decisions]
      simp [Removal.decision]
    · split
      · rfl
      · rw [removals_decisions limits pass.coresLeft _ pass.decisions]
        simp [Removal.decision]

/-- A second pass removes candidates in the order in which it comes to them. -/
theorem removals_sublist (limits : Limits) (pass : SecondPass) (items : List (Candidate × Nat)) :
    ((removals limits pass items).map (·.item)).Sublist items := by
  induction items generalizing pass with
  | nil => exact .slnil
  | cons item rest ih =>
    rw [removals]
    split
    · exact (ih pass).cons_cons item
    · split
      · exact (ih _).cons item
      · exact (ih pass).cons_cons item

/-- A second pass aborts what it removes. -/
theorem action_of_mem_removals {items : List (Candidate × Nat)} {removal : Removal}
    (member : removal ∈ removals limits pass items) : ∃ reason, removal.action = .abort reason := by
  induction items generalizing pass with
  | nil => cases member
  | cons item rest ih =>
    rw [removals] at member
    split at member
    · obtain rfl | later := List.mem_cons.mp member
      · exact ⟨_, rfl⟩
      · exact ih later
    · split at member
      · exact ih member
      · obtain rfl | later := List.mem_cons.mp member
        · exact ⟨_, rfl⟩
        · exact ih later

/-- A candidate that a second pass leaves is no abandoned count. -/
theorem kept_of_notMem {items : List (Candidate × Nat)} {item : Candidate × Nat}
    (member : item ∈ items) (kept : item ∉ (removals limits pass items).map (·.item)) :
    limits.isAbandonedCount item.1.stats = false := by
  induction items generalizing pass with
  | nil => cases member
  | cons first rest ih =>
    rw [removals] at kept
    split at kept
    next =>
      rw [List.map_cons, List.mem_cons, not_or] at kept
      obtain isFirst | later := List.mem_cons.mp member
      · exact absurd isFirst kept.1
      · exact ih later kept.2
    next notAbandoned =>
      obtain rfl | later := List.mem_cons.mp member
      · simpa using notAbandoned
      · split at kept
        · exact ih later kept
        · rw [List.map_cons, List.mem_cons, not_or] at kept
          exact ih later kept.2

/-- A second pass leaves no more candidates than there are cores. -/
theorem countP_kept_le (limits : Limits) (pass : SecondPass) (items : List (Candidate × Nat)) :
    items.countP (fun item => item ∉ (removals limits pass items).map (·.item)) ≤
      pass.coresLeft := by
  induction items generalizing pass with
  | nil => simp
  | cons item rest ih =>
    rw [removals]
    split
    · exact (countP_notMem_cons_le item rest _).trans (ih pass)
    · split
      next more =>
        have others := ih { pass with coresLeft := pass.coresLeft - 1 }
        rw [List.countP_cons]
        simp only at others
        split <;> omega
      · exact (countP_notMem_cons_le item rest _).trans (ih pass)

end SecondPass

namespace Plan

/-- The candidates from most to least worthy. -/
abbrev ranked (candidates : List Candidate) : List (Candidate × Nat) :=
  rank Candidate.worthiness candidates

/-- The first pass of a plan before it has looked at anything. -/
def firstStart (candidates : List Candidate) (limits : Limits) (freeBytes : UInt64) : FirstPass :=
  .start limits freeBytes candidates.length (candidates.map Candidate.exactSize).sum

/-- What the first pass of a plan removes. -/
def firstRemovals (candidates : List Candidate) (limits : Limits) (freeBytes : UInt64) :
    List Removal :=
  (firstStart candidates limits freeBytes).removals limits (ranked candidates).reverse

/-- The unfinished candidates that the first pass of a plan leaves. -/
def leftRunning (candidates : List Candidate) (limits : Limits) (freeBytes : UInt64) :
    List (Candidate × Nat) :=
  (ranked candidates).filter fun item => !item.1.stats.isDone &&
    decide (item ∉ (firstRemovals candidates limits freeBytes).map (·.item))

/-- What the second pass of a plan removes. -/
def secondRemovals (candidates : List Candidate) (limits : Limits) (freeBytes : UInt64) :
    List Removal :=
  SecondPass.removals limits ⟨limits.maxConcurrent.toNat, []⟩
    (leftRunning candidates limits freeBytes)

/-- What a plan removes. -/
def removals (candidates : List Candidate) (limits : Limits) (freeBytes : UInt64) : List Removal :=
  firstRemovals candidates limits freeBytes ++ secondRemovals candidates limits freeBytes

variable {candidates : List Candidate} {limits : Limits} {freeBytes : UInt64}

/-- Ranking keeps every candidate at its position. -/
theorem mem_ranked_iff {item : Candidate × Nat} :
    item ∈ ranked candidates ↔ item ∈ candidates.zipIdx :=
  (rank_perm Candidate.worthiness candidates).mem_iff

/-- There is one candidate at each position. -/
theorem eq_of_position {first second : Candidate × Nat} (firstMember : first ∈ candidates.zipIdx)
    (secondMember : second ∈ candidates.zipIdx) (same : first.2 = second.2) : first = second := by
  rw [List.mem_zipIdx_iff_getElem?] at firstMember secondMember
  rw [same, secondMember, Option.some.injEq] at firstMember
  exact Prod.ext firstMember.symm same

/-- No two candidates are at one position. -/
theorem nodup_positions (candidates : List Candidate) :
    (candidates.zipIdx.map Prod.snd).Nodup := by
  rw [List.zipIdx_map_snd]
  exact List.nodup_range'

theorem nodup_ranked (candidates : List Candidate) : (ranked candidates).Nodup :=
  (rank_perm Candidate.worthiness candidates).nodup_iff.mpr (nodup_positions candidates).of_map

/-- The first pass removes candidates at their positions. -/
theorem item_mem_of_firstRemovals {removal : Removal}
    (member : removal ∈ firstRemovals candidates limits freeBytes) :
    removal.item ∈ candidates.zipIdx := by
  have listed := (FirstPass.removals_sublist limits _ _).mem
    (List.mem_map_of_mem (f := (·.item)) member)
  rwa [List.mem_reverse, mem_ranked_iff] at listed

/-- The second pass removes unfinished candidates that the first pass left. -/
theorem item_mem_of_secondRemovals {removal : Removal}
    (member : removal ∈ secondRemovals candidates limits freeBytes) :
    removal.item ∈ leftRunning candidates limits freeBytes :=
  (SecondPass.removals_sublist limits _ _).mem (List.mem_map_of_mem (f := (·.item)) member)

/-- A plan records what its passes remove. -/
theorem actions_of_make {plan : Plan} (made : make candidates limits freeBytes = .ok plan) :
    plan.actions = (removals candidates limits freeBytes).map Removal.decision := by
  unfold make at made
  split at made
  next => cases made
  next sizeBytes added =>
    have size : sizeBytes = (candidates.map Candidate.exactSize).sum := by
      rw [((totalSize_eq_ok_iff _ _).mp added).1, List.map_map]
      rfl
    have start : FirstPass.start limits freeBytes (ranked candidates).length sizeBytes =
        firstStart candidates limits freeBytes := by
      rw [firstStart, size, (rank_perm Candidate.worthiness candidates).length_eq,
        List.length_zipIdx]
    have decisions : (firstPass limits freeBytes sizeBytes (ranked candidates)).decisions =
        (firstRemovals candidates limits freeBytes).map Removal.decision := by
      rw [firstPass, start]
      exact FirstPass.decisions_visitAll limits _ _
    have left : (ranked candidates).filter
        (isLeftRunning (firstPass limits freeBytes sizeBytes (ranked candidates))) =
          leftRunning candidates limits freeBytes := by
      refine List.filter_congr fun item member => ?_
      rw [isLeftRunning, decisions]
      congr 1
      rw [Bool.eq_iff_iff]
      simp only [Bool.not_eq_true', List.any_eq_false, decide_eq_true_eq, List.mem_map,
        not_exists, not_and]
      constructor
      · intro noDecision removal removed same
        exact noDecision _ ⟨removal, removed, rfl⟩ (by rw [← same]; rfl)
      · rintro notRemoved _ ⟨removal, removed, rfl⟩ same
        exact notRemoved removal removed
          (eq_of_position (item_mem_of_firstRemovals removed) (mem_ranked_iff.mp member) same)
    injection made with isPlan
    rw [← isPlan, removals, List.map_append, ← decisions]
    simp only [secondPass, left]
    rw [SecondPass.decisions_visitAll]
    rfl

/-- A plan leaves a candidate alone if neither pass removes it. -/
theorem actionFor?_eq_none_iff {plan : Plan} (made : make candidates limits freeBytes = .ok plan)
    {item : Candidate × Nat} (member : item ∈ candidates.zipIdx) :
    plan.actionFor? item.2 = none ↔
      item ∉ (removals candidates limits freeBytes).map (·.item) := by
  have located : ∀ removal ∈ removals candidates limits freeBytes,
      removal.item ∈ candidates.zipIdx := by
    intro removal removed
    rcases List.mem_append.mp removed with first | second
    · exact item_mem_of_firstRemovals first
    · exact mem_ranked_iff.mp (List.mem_of_mem_filter (item_mem_of_secondRemovals second))
  simp only [actionFor?, Option.map_eq_none_iff, List.find?_eq_none, actions_of_make made,
    List.mem_map, decide_eq_true_eq]
  constructor
  · rintro noDecision ⟨removal, removed, rfl⟩
    exact noDecision _ ⟨removal, removed, rfl⟩ rfl
  · rintro notRemoved _ ⟨removal, removed, rfl⟩ same
    exact notRemoved ⟨removal, removed, eq_of_position (located removal removed) member same⟩

/-- A plan aborts runaways and other unfinished candidates, and evicts finished ones. -/
theorem action_of_mem_removals {removal : Removal}
    (member : removal ∈ removals candidates limits freeBytes) :
    removal.item ∈ candidates.zipIdx ∧
      (limits.isRunaway removal.item.1.stats = true ∧ removal.action = .abort .tookTooLong ∨
        removal.item.1.stats.isDone = true ∧ (∃ reason, removal.action = .evict reason) ∨
        removal.item.1.stats.isDone = false ∧ ∃ reason, removal.action = .abort reason) := by
  rcases List.mem_append.mp member with first | second
  · refine ⟨item_mem_of_firstRemovals first, ?_⟩
    rcases FirstPass.action_of_mem_removals first with runaway | ⟨_, finished⟩
    · exact .inl runaway
    · exact .inr (.inl finished)
  · have left := List.mem_filter.mp (item_mem_of_secondRemovals second)
    refine ⟨mem_ranked_iff.mp left.1, .inr (.inr ⟨?_, SecondPass.action_of_mem_removals second⟩)⟩
    exact (by simpa using left.2 : removal.item.1.stats.isDone = false ∧ _).1

/-- A plan adds up the exact sizes of all candidates, which fit in a word together. -/
theorem sizeBytes_of_make {plan : Plan} (made : make candidates limits freeBytes = .ok plan) :
    plan.sizeBytes = (candidates.map Candidate.exactSize).sum ∧ plan.sizeBytes < wordSize := by
  unfold make at made
  split at made
  next => cases made
  next sizeBytes added =>
    injection made with isPlan
    obtain ⟨isSum, fits⟩ := (totalSize_eq_ok_iff _ _).mp added
    rw [← isPlan]
    refine ⟨?_, fits⟩
    rw [isSum, List.map_map]
    rfl

/-- No candidate is removed twice. -/
theorem nodup_items_removals :
    ((removals candidates limits freeBytes).map (·.item)).Nodup := by
  have distinct := nodup_ranked candidates
  have first : ((firstRemovals candidates limits freeBytes).map (·.item)).Nodup :=
    (List.nodup_reverse.mpr distinct).sublist (FirstPass.removals_sublist limits _ _)
  have second : ((secondRemovals candidates limits freeBytes).map (·.item)).Nodup :=
    (distinct.filter _).sublist (SecondPass.removals_sublist limits _ _)
  rw [removals, List.map_append, List.nodup_append]
  refine ⟨first, second, ?_⟩
  rintro item removedFirst _ removedSecond rfl
  obtain ⟨removal, member, rfl⟩ := List.mem_map.mp removedSecond
  have left := (List.mem_filter.mp (item_mem_of_secondRemovals member)).2
  simp [removedFirst] at left

/-- No position is removed twice. -/
theorem nodup_positions_removals :
    ((removals candidates limits freeBytes).map (·.item.2)).Nodup := by
  have ofItems : (removals candidates limits freeBytes).map (·.item.2) =
      ((removals candidates limits freeBytes).map (·.item)).map Prod.snd := by
    rw [List.map_map]
    rfl
  rw [ofItems]
  refine nodup_items_removals.map_on ?_
  intro first firstMember second secondMember same
  obtain ⟨removal, member, rfl⟩ := List.mem_map.mp firstMember
  obtain ⟨other, otherMember, rfl⟩ := List.mem_map.mp secondMember
  exact eq_of_position (action_of_mem_removals member).1 (action_of_mem_removals otherMember).1 same

/-- What a plan evicts, its first pass evicts. -/
theorem evictedBytes_removals :
    Removal.evictedBytes (removals candidates limits freeBytes) =
      Removal.evictedBytes (firstRemovals candidates limits freeBytes) := by
  have onlyAborts : (secondRemovals candidates limits freeBytes).filter
      (fun removal => !Store.isAbort removal.action) = [] := by
    rw [List.filter_eq_nil_iff]
    intro removal removed
    obtain ⟨reason, aborts⟩ := SecondPass.action_of_mem_removals removed
    simp [aborts, Store.isAbort]
  rw [removals, Removal.evictedBytes, List.filter_append, onlyAborts, List.append_nil]
  rfl

/-- A plan removes nothing where all candidates are finished and not too old, number and size are
within their limits, and enough memory is free. -/
theorem removals_eq_nil (few : isExceeded limits.maxEntries candidates.length = false)
    (small : isExceeded limits.maxSizeMegabytes
      (wholeMegabytes (candidates.map Candidate.exactSize).sum) = false)
    (relieved : limits.memoryDeficit freeBytes ≤ 0)
    (spared : ∀ candidate ∈ candidates, candidate.stats.isDone = true ∧
      limits.isRunaway candidate.stats = false ∧ limits.isTooOld candidate.stats = false) :
    removals candidates limits freeBytes = [] := by
  have known : ∀ item ∈ ranked candidates, item.1 ∈ candidates := fun item member =>
    List.mem_of_getElem? (List.mem_zipIdx_iff_getElem?.mp (mem_ranked_iff.mp member))
  have first : firstRemovals candidates limits freeBytes = [] := by
    refine FirstPass.removals_eq_nil relieved ⟨few, small⟩ fun item member => ?_
    exact (spared item.1 (known item (List.mem_reverse.mp member))).2
  have noneRunning : leftRunning candidates limits freeBytes = [] := by
    rw [leftRunning, List.filter_eq_nil_iff]
    intro item member
    simp [(spared item.1 (known item member)).1]
  rw [removals, first, secondRemovals, noneRunning]
  rfl

/-- A candidate that a plan leaves is no runaway. If it is finished, what the first pass
leaves keeps to the limits on number and size, and enough memory is free once the plan
has been carried out; if it is unfinished, it is no abandoned count. -/
theorem kept_of_notMem {item : Candidate × Nat} (member : item ∈ candidates.zipIdx)
    (kept : item ∉ (removals candidates limits freeBytes).map (·.item)) :
    limits.isRunaway item.1.stats = false ∧
      (item.1.stats.isDone = true →
        isExceeded limits.maxEntries
          (candidates.length - (firstRemovals candidates limits freeBytes).length) = false ∧
        isExceeded limits.maxSizeMegabytes
          (wholeMegabytes ((candidates.map Candidate.exactSize).sum -
            Removal.bytes (firstRemovals candidates limits freeBytes))) = false ∧
        limits.memoryDeficit freeBytes ≤
          Removal.evictedBytes (removals candidates limits freeBytes)) ∧
      (item.1.stats.isDone = false → limits.isAbandonedCount item.1.stats = false) := by
  rw [removals, List.map_append, List.mem_append, not_or] at kept
  have visited : item ∈ (ranked candidates).reverse :=
    List.mem_reverse.mpr (mem_ranked_iff.mpr member)
  obtain ⟨notRunaway, finished⟩ := FirstPass.kept_of_notMem visited kept.1
  refine ⟨notRunaway, ?_, ?_⟩
  · intro done
    obtain ⟨ended, enough⟩ := finished done
    have within := FirstPass.isWithin_visitAll (by intro ended; cases ended) ended
    refine ⟨?_, ?_, ?_⟩
    · have searches := within.searches
      rwa [FirstPass.searches_visitAll] at searches
    · have sizeBytes := within.sizeBytes
      rwa [FirstPass.sizeBytes_visitAll] at sizeBytes
    · rw [FirstPass.memoryDeficit_visitAll, ← firstRemovals] at enough
      have start : (firstStart candidates limits freeBytes).memoryDeficit =
          limits.memoryDeficit freeBytes := rfl
      rw [evictedBytes_removals]
      omega
  · intro unfinished
    refine SecondPass.kept_of_notMem (List.mem_filter.mpr ⟨mem_ranked_iff.mpr member, ?_⟩) kept.2
    simpa [unfinished] using kept.1

/-- A plan leaves no more unfinished candidates than may run at once. -/
theorem countP_unfinished_le (candidates : List Candidate) (limits : Limits) (freeBytes : UInt64) :
    candidates.zipIdx.countP (fun item => !item.1.stats.isDone &&
      decide (item ∉ (removals candidates limits freeBytes).map (·.item))) ≤
        limits.maxConcurrent.toNat := by
  rw [← (rank_perm Candidate.worthiness candidates).countP_eq]
  calc
    (ranked candidates).countP (fun item => !item.1.stats.isDone &&
        decide (item ∉ (removals candidates limits freeBytes).map (·.item)))
      ≤ (leftRunning candidates limits freeBytes).countP
          (fun item => item ∉ (secondRemovals candidates limits freeBytes).map (·.item)) := by
        rw [leftRunning, List.countP_filter]
        refine List.countP_mono_left fun item _ kept => ?_
        simp only [removals, List.map_append, List.mem_append, not_or, Bool.decide_and,
          Bool.and_eq_true] at kept ⊢
        exact ⟨kept.2.2, kept.1, kept.2.1⟩
    _ ≤ limits.maxConcurrent.toNat := SecondPass.countP_kept_le limits _ _

/-- What a plan leaves is no more than what its first pass leaves. -/
theorem countP_kept_le (candidates : List Candidate) (limits : Limits) (freeBytes : UInt64) :
    candidates.zipIdx.countP (fun item =>
      item ∉ (removals candidates limits freeBytes).map (·.item)) ≤
        candidates.length - (firstRemovals candidates limits freeBytes).length := by
  have first := countP_notMem_add_length_le (FirstPass.removals_sublist limits
    (firstStart candidates limits freeBytes) (ranked candidates).reverse)
  have fewer : (ranked candidates).reverse.countP (fun item =>
      item ∉ (removals candidates limits freeBytes).map (·.item)) ≤
        (ranked candidates).reverse.countP (fun item =>
          item ∉ (firstRemovals candidates limits freeBytes).map (·.item)) :=
    List.countP_mono_left fun item _ kept => by
      simp only [removals, List.map_append, List.mem_append, not_or, decide_eq_true_eq] at kept ⊢
      exact kept.1
  have permutation := rank_perm Candidate.worthiness candidates
  rw [List.length_reverse, permutation.length_eq, List.length_zipIdx, List.length_map] at first
  rw [← permutation.countP_eq, ← List.countP_reverse]
  exact fewer.trans (Nat.le_sub_of_add_le first)

end Plan

end SweptCache
