import Mathlib.Data.List.FinRange
import SweptCache.Proofs.Reachability
import SweptCache.Proofs.SweepRemovals

/-!
# Sweeps do not depend on the order of entries

A cache lists its entries in no particular order, and a sweep looks at them in
the order of their scores. As long as no two scores are the same, the ranking is
the same for every order (`ranked_moved`), so both passes come to the same
candidates one after the other, in whichever places these are listed, and make
the same decisions (`removals_moved`). The total of sizes fits in a word or not,
in any order. What a sweep removes and what it leaves are therefore the same.
-/

namespace SweptCache

/-- The sum of sizes, if it fits in a word. -/
theorem toOption_totalSize (hits : List UInt64) :
    (totalSize hits).toOption =
      if (hits.map exactSize).sum < wordSize then some (hits.map exactSize).sum else none := by
  by_cases fits : (hits.map exactSize).sum < wordSize
  · rw [if_pos fits, (totalSize_eq_ok_iff hits _).mpr ⟨rfl, fits⟩]
    rfl
  · rw [if_neg fits]
    cases added : totalSize hits with
    | error overflow => rfl
    | ok total =>
      obtain ⟨rfl, total_lt⟩ := (totalSize_eq_ok_iff hits total).mp added
      exact absurd total_lt fits

/-- Sizes add up to the same in any order. -/
theorem toOption_totalSize_perm {hits others : List UInt64} (perm : hits.Perm others) :
    (totalSize hits).toOption = (totalSize others).toOption := by
  rw [toOption_totalSize, toOption_totalSize, (perm.map exactSize).sum_eq]

/-- A candidate in the place that is given for its position. -/
def moveItem (place : Nat → Nat) (item : Candidate × Nat) : Candidate × Nat :=
  (item.1, place item.2)

/-- A removal of a candidate that has moved to another place. -/
def Removal.moved (place : Nat → Nat) (removal : Removal) : Removal :=
  ⟨moveItem place removal.item, removal.action⟩

/-- A plan for candidates that have moved to other places. -/
def Plan.moved (place : Nat → Nat) (plan : Plan) : Plan :=
  { plan with actions := plan.actions.map fun decision => (place decision.1, decision.2) }

variable {limits : Limits} {place : Nat → Nat}

/-- A first pass removes the same candidates from wherever they are. -/
theorem FirstPass.removals_moved (pass : FirstPass) (decisions : List (Nat × SweepAction))
    (items : List (Candidate × Nat)) :
    removals limits { pass with decisions := decisions } (items.map (moveItem place)) =
      (removals limits pass items).map (Removal.moved place) := by
  -- Decisions name places, so the two passes differ in them from the first removal on.
  induction items generalizing pass decisions with
  | nil => rfl
  | cons item rest ih =>
    have sameAction : ({ pass with decisions := decisions } : FirstPass).action? limits
        (moveItem place item).1.stats = pass.action? limits item.1.stats := rfl
    rw [List.map_cons, removals, removals, sameAction]
    cases pass.action? limits item.1.stats with
    | some action =>
      rw [List.map_cons]
      exact congrArg _ (ih (pass.remove action item.2 item.1) _)
    | none =>
      have kept : ({ pass with decisions := decisions } : FirstPass).keep item.1.stats =
          { pass.keep item.1.stats with decisions := decisions } := by
        simp only [keep]
        split <;> rfl
      simp only [moveItem, kept]
      exact ih (pass.keep item.1.stats) decisions

/-- A second pass removes the same candidates from wherever they are. -/
theorem SecondPass.removals_moved (pass : SecondPass) (items : List (Candidate × Nat)) :
    removals limits pass (items.map (moveItem place)) =
      (removals limits pass items).map (Removal.moved place) := by
  induction items generalizing pass with
  | nil => rfl
  | cons item rest ih =>
    have sameStats : (moveItem place item).1.stats = item.1.stats := rfl
    rw [List.map_cons, removals, removals, sameStats]
    split
    · rw [List.map_cons, ih]
      rfl
    · split
      · exact ih _
      · rw [List.map_cons, ih]
        rfl

namespace Plan

variable {others candidates : List Candidate} {freeBytes : UInt64}

/-- Whether the first candidates are the second ones when each has moved to its place. -/
def IsMove (place : Nat → Nat) (others candidates : List Candidate) : Prop :=
  (others.zipIdx.map (moveItem place)).Perm candidates.zipIdx

/-- Candidates that have moved are still there. -/
theorem IsMove.perm (move : IsMove place others candidates) : others.Perm candidates := by
  have sameCandidates := move.map Prod.fst
  have unmoved : Prod.fst ∘ moveItem place = Prod.fst := rfl
  rwa [List.map_map, unmoved, List.zipIdx_map_fst, List.zipIdx_map_fst] at sameCandidates

/-- No two candidates have moved to one place. -/
theorem IsMove.injective (move : IsMove place others candidates) {first second : Candidate × Nat}
    (firstMember : first ∈ others.zipIdx) (secondMember : second ∈ others.zipIdx)
    (same : moveItem place first = moveItem place second) : first = second := by
  have nodup : (others.zipIdx.map (moveItem place)).Nodup :=
    move.nodup_iff.mpr (nodup_positions candidates).of_map
  exact List.inj_on_of_nodup_map nodup firstMember secondMember same

/-- Candidates with different scores are ranked in one way only. -/
theorem ranked_moved (move : IsMove place others candidates)
    (distinct : (candidates.map Candidate.worthiness).Nodup) :
    (ranked others).map (moveItem place) = ranked candidates := by
  have descending : ∀ list, (ranked list).Pairwise fun first second =>
      second.1.worthiness.toInt ≤ first.1.worthiness.toInt := by
    intro list
    refine (pairwise_rank Candidate.worthiness list).imp ?_
    intro first second outranked
    rw [outranks_iff] at outranked
    omega
  have samePlaces : ((ranked others).map (moveItem place)).Perm (ranked candidates) :=
    calc ((ranked others).map (moveItem place)).Perm (others.zipIdx.map (moveItem place)) :=
          (rank_perm _ others).map _
      _ |>.Perm candidates.zipIdx := move
      _ |>.Perm (ranked candidates) := (rank_perm _ candidates).symm
  refine samePlaces.eq_of_pairwise ?_ ((descending others).map _ fun _ _ => id)
    (descending candidates)
  intro first second firstMember secondMember notAfter notBefore
  have distinctItems : (candidates.zipIdx.map (Candidate.worthiness ∘ Prod.fst)).Nodup := by
    rw [← List.map_map, List.zipIdx_map_fst]
    exact distinct
  have sameScore : first.1.worthiness = second.1.worthiness := Int64.toInt_inj.mp (by omega)
  exact List.inj_on_of_nodup_map distinctItems
    (mem_ranked_iff.mp (samePlaces.mem_iff.mp firstMember)) (mem_ranked_iff.mp secondMember)
    sameScore

/-- The first pass of a plan starts in the same way for every order. -/
theorem IsMove.firstStart_eq (move : IsMove place others candidates) :
    firstStart others limits freeBytes = firstStart candidates limits freeBytes := by
  rw [firstStart, firstStart, move.perm.length_eq, (move.perm.map Candidate.exactSize).sum_eq]

/-- The first pass of a plan removes the same candidates from wherever they are. -/
theorem firstRemovals_moved (move : IsMove place others candidates)
    (distinct : (candidates.map Candidate.worthiness).Nodup) :
    (firstRemovals others limits freeBytes).map (Removal.moved place) =
      firstRemovals candidates limits freeBytes := by
  rw [firstRemovals, firstRemovals, move.firstStart_eq, ← ranked_moved move distinct,
    ← List.map_reverse]
  exact (FirstPass.removals_moved (firstStart candidates limits freeBytes) [] _).symm

/-- The first pass of a plan leaves the same candidates running, wherever they are. -/
theorem leftRunning_moved (move : IsMove place others candidates)
    (distinct : (candidates.map Candidate.worthiness).Nodup) :
    (leftRunning others limits freeBytes).map (moveItem place) =
      leftRunning candidates limits freeBytes := by
  have removed : (firstRemovals candidates limits freeBytes).map (·.item) =
      ((firstRemovals others limits freeBytes).map (·.item)).map (moveItem place) := by
    rw [← firstRemovals_moved move distinct, List.map_map, List.map_map]
    rfl
  rw [leftRunning, leftRunning, ← ranked_moved move distinct, List.filter_map]
  congr 1
  refine List.filter_congr ?_
  intro item member
  have listed := mem_ranked_iff.mp member
  have sameMembers :
      moveItem place item ∈ (firstRemovals candidates limits freeBytes).map (·.item) ↔
        item ∈ (firstRemovals others limits freeBytes).map (·.item) := by
    rw [removed, List.mem_map]
    constructor
    · rintro ⟨other, otherMember, same⟩
      obtain ⟨removal, isRemoval, rfl⟩ := List.mem_map.mp otherMember
      have sameItem := move.injective (item_mem_of_firstRemovals isRemoval) listed same
      exact sameItem ▸ otherMember
    · intro isRemoved
      exact ⟨item, isRemoved, rfl⟩
  simp only [Function.comp_apply, sameMembers]
  rfl

/-- A plan removes the same candidates in the same order from wherever they are. -/
theorem removals_moved (move : IsMove place others candidates)
    (distinct : (candidates.map Candidate.worthiness).Nodup) :
    (removals others limits freeBytes).map (Removal.moved place) =
      removals candidates limits freeBytes := by
  rw [removals, removals, List.map_append, firstRemovals_moved move distinct, secondRemovals,
    secondRemovals, ← SecondPass.removals_moved, leftRunning_moved move distinct]

/-- The plan of a sweep, if there is one, is made of what its passes remove. -/
theorem toOption_make (candidates : List Candidate) (limits : Limits) (freeBytes : UInt64) :
    (make candidates limits freeBytes).toOption =
      if (candidates.map Candidate.exactSize).sum < wordSize then
        some ⟨(removals candidates limits freeBytes).map Removal.decision,
          (candidates.map Candidate.exactSize).sum⟩
      else none := by
  have sameSizes : (candidates.map fun candidate => candidate.stats.storedHits).map exactSize =
      candidates.map Candidate.exactSize := List.map_map
  have sizeBytes : (make candidates limits freeBytes).toOption.map Plan.sizeBytes =
      (totalSize (candidates.map fun candidate => candidate.stats.storedHits)).toOption := by
    unfold make
    split
    next isError => rw [isError]; rfl
    next isOk => rw [isOk]; rfl
  rw [toOption_totalSize, sameSizes] at sizeBytes
  cases made : make candidates limits freeBytes with
  | error overflow =>
    rw [made] at sizeBytes
    split at sizeBytes
    next => cases sizeBytes
    next tooLarge => rw [if_neg tooLarge]; rfl
  | ok plan =>
    obtain ⟨actions, planned⟩ := plan
    rw [made] at sizeBytes
    split at sizeBytes
    next fits =>
      have isActions := actions_of_make made
      have isTotal := Option.some.inj sizeBytes
      simp only at isActions isTotal
      rw [if_pos fits, isActions, isTotal]
      rfl
    next => cases sizeBytes

/-- A plan for candidates that have moved does the same to the same candidates. -/
theorem IsMove.make_eq (move : IsMove place others candidates)
    (distinct : (candidates.map Candidate.worthiness).Nodup) :
    (make others limits freeBytes).toOption.map (Plan.moved place) =
      (make candidates limits freeBytes).toOption := by
  rw [toOption_make, toOption_make, (move.perm.map Candidate.exactSize).sum_eq,
    ← removals_moved move distinct]
  split
  · simp only [Option.map_some, Plan.moved, List.map_map]
    rfl
  · rfl

/-- Candidates listed in another order: at each position the one at the position that the order
names for it. -/
def reordered (candidates : List Candidate) (order : Equiv.Perm (Fin candidates.length)) :
    List Candidate :=
  List.ofFn fun position => candidates[order position]

/-- The position that an order names for another one. -/
def placeIn {length : Nat} (order : Equiv.Perm (Fin length)) (position : Nat) : Nat :=
  if within : position < length then order ⟨position, within⟩ else position

/-- Listing candidates in another order moves them. -/
theorem isMove_reordered (candidates : List Candidate)
    (order : Equiv.Perm (Fin candidates.length)) :
    IsMove (placeIn order) (reordered candidates order) candidates := by
  have numbered : candidates.zipIdx =
      List.ofFn fun position : Fin candidates.length => (candidates[position], position.val) := by
    apply List.ext_getElem <;> simp
  have moved : (reordered candidates order).zipIdx.map (moveItem (placeIn order)) =
      List.ofFn ((fun position : Fin candidates.length =>
        (candidates[position], position.val)) ∘ order) := by
    apply List.ext_getElem
    · simp [reordered]
    · intro position within _
      have below : position < candidates.length := by simpa [reordered] using within
      simp [reordered, moveItem, placeIn, below]
  rw [IsMove, moved, numbered]
  exact order.ofFn_comp_perm _

end Plan

namespace Store

variable {store : Store} {registrations : List Registration} {plan : Plan}

/-- A list without repetitions can be listed in another order by moving its items. -/
theorem exists_move {α : Type} [DecidableEq α] {list other : List α} (nodup : list.Nodup)
    (perm : other.Perm list) :
    ∃ place : Nat → Nat, (∀ position, list[place position]? = other[position]?) ∧
      (other.zipIdx.map fun item => (item.1, place item.2)).Perm list.zipIdx := by
  refine ⟨fun position =>
    if within : position < other.length then list.idxOf other[position] else position, ?_, ?_⟩
  · intro position
    by_cases within : position < other.length
    · have member : other[position] ∈ list := perm.mem_iff.mp (List.getElem_mem within)
      simp only [dif_pos within, List.getElem?_idxOf member, List.getElem?_eq_getElem within]
    · have beyond : list[position]? = none :=
        List.getElem?_eq_none (by rw [← perm.length_eq]; omega)
      simp only [dif_neg within, beyond, List.getElem?_eq_none (Nat.le_of_not_lt within)]
  · have moved : (other.zipIdx.map fun item => (item.1,
        if within : item.2 < other.length then list.idxOf other[item.2] else item.2)) =
          other.map fun item => (item, list.idxOf item) := by
      apply List.ext_getElem
      · simp
      · intro position within _
        have below : position < other.length := by simpa using within
        simp [below]
    have numbered : list.zipIdx = list.map fun item => (item, list.idxOf item) := by
      apply List.ext_getElem
      · simp
      · intro position within _
        simp [nodup.idxOf_getElem]
    rw [moved, numbered]
    exact perm.map _

/-- The entries of a cache are listed in the order of its registrations. -/
theorem registeredEntries_relisted (perm : registrations.Perm store.registrations) :
    (store.relisted registrations).registeredEntries.Perm store.registeredEntries :=
  perm.filterMap _

/-- The candidates of a sweep are moved by listing the entries in another order. -/
theorem WellFormed.exists_isMove (wellFormed : store.WellFormed)
    (perm : registrations.Perm store.registrations) :
    ∃ place : Nat → Nat,
      (∀ position, store.registeredEntries[place position]? =
        (store.relisted registrations).registeredEntries[position]?) ∧
      Plan.IsMove place (store.relisted registrations).candidates store.candidates := by
  have nodup : store.registeredEntries.Nodup :=
    .of_map _ wellFormed.nodup_keys_registeredEntries
  obtain ⟨place, located, moved⟩ := exists_move nodup (registeredEntries_relisted perm)
  refine ⟨place, located, ?_⟩
  rw [Plan.IsMove, candidates_eq_map, candidates_eq_map, List.zipIdx_map, List.zipIdx_map,
    List.map_map]
  have sameItems := moved.map (Prod.map store.asCandidate id)
  rw [List.map_map] at sameItems
  exact sameItems

/-- Entries with different scores are swept by one plan, whatever their order, or there is none. -/
theorem WellFormed.plan_relisted_cases (wellFormed : store.WellFormed)
    (distinct : (store.candidates.map Candidate.worthiness).Nodup)
    (perm : registrations.Perm store.registrations) :
    (∃ overflow other, store.plan = .error overflow ∧
      (store.relisted registrations).plan = .error other) ∨
    ∃ place plan, store.plan = .ok (plan.moved place) ∧
      (store.relisted registrations).plan = .ok plan ∧
      ∀ position, store.registeredEntries[place position]? =
        (store.relisted registrations).registeredEntries[position]? := by
  obtain ⟨place, located, move⟩ := wellFormed.exists_isMove perm
  have samePlan : (store.relisted registrations).plan.toOption.map (Plan.moved place) =
      store.plan.toOption := move.make_eq distinct
  cases alone : store.plan with
  | error overflow =>
    cases moved : (store.relisted registrations).plan with
    | error other => exact .inl ⟨overflow, other, rfl, rfl⟩
    | ok plan =>
      rw [alone, moved] at samePlan
      cases samePlan
  | ok plan =>
    cases moved : (store.relisted registrations).plan with
    | error other =>
      rw [alone, moved] at samePlan
      cases samePlan
    | ok other =>
      rw [alone, moved] at samePlan
      exact .inr ⟨place, other, congrArg Except.ok (Option.some.inj samePlan).symm, rfl, located⟩

/-- A sweep removes the same entries for the same reasons, whatever their order. -/
theorem WellFormed.sweepRemovals_relisted (wellFormed : store.WellFormed)
    (distinct : (store.candidates.map Candidate.worthiness).Nodup)
    (perm : registrations.Perm store.registrations) :
    (store.relisted registrations).sweepRemovals = store.sweepRemovals := by
  rcases wellFormed.plan_relisted_cases distinct perm with
    ⟨overflow, other, failed, failedToo⟩ | ⟨place, plan, planned, plannedToo, located⟩
  · rw [sweepRemovals, sweepRemovals, failed, failedToo]
  · simp only [sweepRemovals, planned, plannedToo, plannedRemovals, Plan.moved,
      List.filterMap_map]
    refine List.filterMap_congr ?_
    intro decision _
    rw [Function.comp_apply, located]

/-- A sweep does the same to all entries, whatever the order of the registered ones. -/
theorem WellFormed.entries_sweep_relisted (wellFormed : store.WellFormed)
    (distinct : (store.candidates.map Candidate.worthiness).Nodup)
    (perm : registrations.Perm store.registrations) :
    (store.relisted registrations).sweep.2.entries = store.sweep.2.entries := by
  have sameIds : ∀ id, (store.relisted registrations).registeredIds.contains id =
      store.registeredIds.contains id := by
    intro id
    rw [Bool.eq_iff_iff, List.contains_iff_mem, List.contains_iff_mem]
    exact (perm.map (·.entry)).mem_iff
  have sameEffects : ∀ entry, (store.relisted registrations).sweepEffects entry =
      store.sweepEffects entry := by
    intro entry
    rw [sweepEffects, sweepEffects, sameIds, isAbortedBySweep, isAbortedBySweep,
      wellFormed.sweepRemovals_relisted distinct perm]
    rfl
  rw [entries_sweep, entries_sweep]
  refine List.map_congr_left ?_
  intro entry _
  rw [sameEffects]
  rfl

/-- A sweep leaves the same registrations, whatever their order. -/
theorem WellFormed.registrations_sweep_relisted (wellFormed : store.WellFormed)
    (distinct : (store.candidates.map Candidate.worthiness).Nodup)
    (perm : registrations.Perm store.registrations) :
    (store.relisted registrations).sweep.2.registrations.Perm store.sweep.2.registrations := by
  rw [registrations_sweep, registrations_sweep, wellFormed.sweepRemovals_relisted distinct perm]
  exact perm.filter _

/-- A summary counts what was done and what is left, in whichever order. -/
theorem toOption_summary_congr {first second : Store} {plan other : Plan}
    (entries : first.entries = second.entries)
    (registrations : first.registrations.Perm second.registrations)
    (actions : plan.actions.map Prod.snd = other.actions.map Prod.snd) :
    (first.summary plan).toOption = (second.summary other).toOption := by
  have sameFind : first.find? = second.find? := by
    funext id
    rw [find?, find?, entries]
  have registered : first.registeredEntries.Perm second.registeredEntries := by
    rw [registeredEntries, registeredEntries, sameFind]
    exact registrations.filterMap _
  have counted : ∀ counts : SweepAction → Bool, plan.actions.countP (fun item => counts item.2) =
      other.actions.countP (fun item => counts item.2) := by
    intro counts
    have same := congrArg (List.countP counts) actions
    rwa [List.countP_map, List.countP_map] at same
  have sameSize : first.sizeBytes.toOption = second.sizeBytes.toOption :=
    toOption_totalSize_perm (registered.map _)
  have toOption_summary : ∀ (store : Store) (plan : Plan), (store.summary plan).toOption =
      store.sizeBytes.toOption.map fun sizeBytes =>
        ⟨plan.actions.countP fun decision => !isAbort decision.2,
          plan.actions.countP fun decision => isAbort decision.2, store.size,
          store.registeredEntries.countP fun entry => !entry.isDone, sizeBytes⟩ := by
    intro store plan
    rw [summary]
    cases store.sizeBytes <;> rfl
  rw [toOption_summary, toOption_summary, sameSize, counted isAbort,
    counted fun action => !isAbort action, size, size, registrations.length_eq,
    registered.countP_eq]

/-- A sweep has the same summary, whatever the order of the entries. -/
theorem WellFormed.summary_sweep_relisted (wellFormed : store.WellFormed)
    (distinct : (store.candidates.map Candidate.worthiness).Nodup)
    (perm : registrations.Perm store.registrations) :
    (store.relisted registrations).sweep.1.toOption = store.sweep.1.toOption := by
  rcases wellFormed.plan_relisted_cases distinct perm with
    ⟨overflow, other, failed, failedToo⟩ | ⟨place, plan, planned, plannedToo, _⟩
  · rw [sweep_fst_of_overflow failed, sweep_fst_of_overflow failedToo]
    rfl
  · rw [sweep_fst_of_plan planned, sweep_fst_of_plan plannedToo]
    apply toOption_summary_congr
    · exact wellFormed.entries_sweep_relisted distinct perm
    · exact wellFormed.registrations_sweep_relisted distinct perm
    · rw [Plan.moved, List.map_map]
      rfl

/-- Sweeps do not depend on the order in which a cache lists its entries. As long as no two
candidates have the same score, the plan for them in another order fails if the plan for them
fails, and otherwise does the same to the same candidates, one after the other, and counts the same
bytes. So as long as no two registered entries have the same score, a sweep has the same summary,
does the same to all entries and leaves the same of them registered for every order of the
registrations. -/
theorem sweep_ignores_order :
    (∀ (candidates : List Candidate) (limits : Limits) (freeBytes : UInt64)
      (order : Equiv.Perm (Fin candidates.length)),
      (candidates.map Candidate.worthiness).Nodup →
        (Plan.make (Plan.reordered candidates order) limits freeBytes).toOption.map
          (Plan.moved (Plan.placeIn order)) = (Plan.make candidates limits freeBytes).toOption) ∧
    (∀ store : Store, store.Reachable →
      (store.registeredEntries.map fun entry =>
        store.policy (entry.stats store.clock)).Nodup →
      ∀ registrations : List Registration, registrations.Perm store.registrations →
        (store.relisted registrations).sweep.1.toOption = store.sweep.1.toOption ∧
        (store.relisted registrations).sweep.2.entries = store.sweep.2.entries ∧
        (store.relisted registrations).sweep.2.registrations.Perm
          store.sweep.2.registrations) := by
  constructor
  · intro candidates limits freeBytes order distinct
    exact (Plan.isMove_reordered candidates order).make_eq distinct
  · intro store reachable distinct registrations perm
    have wellFormed := reachable.wellFormed
    have distinctScores : (store.candidates.map Candidate.worthiness).Nodup := by
      rw [candidates_eq_map, List.map_map]
      exact distinct
    exact ⟨wellFormed.summary_sweep_relisted distinctScores perm,
      wellFormed.entries_sweep_relisted distinctScores perm,
      wellFormed.registrations_sweep_relisted distinctScores perm⟩

/-- A cache with a finished search and one that has begun five seconds later, of which one may
be kept. -/
def lopsided : Store :=
  (empty { Settings.standard 1 with maxNumberOfSearches := some 1 } .standard
    (.fixed 200000000)).afterAll
    [.submit (plainSearch "first"), .start 1, .advance 1, .advance 1, .advance 1, .advance 1,
      .advance 1, .pass (.ofSeconds 5), .submit (plainSearch "second"), .start 2]

/-- The entries of that cache the other way round. -/
def lopsidedReversal : Equiv.Perm (Fin lopsided.candidates.length) := Fin.revPerm

theorem sweep_ignores_order_of_lopsided :
    lopsided.registeredIds = [1, 2] ∧
      (lopsided.candidates.map Candidate.worthiness).Nodup ∧
      (Plan.make (Plan.reordered lopsided.candidates lopsidedReversal) lopsided.settings.limits
        200000000).toOption.map (Plan.moved (Plan.placeIn lopsidedReversal)) =
          lopsided.plan.toOption ∧
      (lopsided.relisted lopsided.registrations.reverse).sweep.2.entries =
        lopsided.sweep.2.entries := by
  have reachable : lopsided.Reachable :=
    ⟨{ Settings.standard 1 with maxNumberOfSearches := some 1 }, .standard, .fixed 200000000, _, _,
      rfl, rfl⟩
  have distinct : (lopsided.candidates.map Candidate.worthiness).Nodup := by decide
  obtain ⟨samePlans, sameSweeps⟩ := sweep_ignores_order
  refine ⟨rfl, distinct, samePlans _ _ _ _ distinct, ?_⟩
  exact (sameSweeps lopsided reachable distinct _ (List.reverse_perm _)).2.1

end Store

end SweptCache
