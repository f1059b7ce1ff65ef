import SweptCache.Proofs.ConcurrencyRule
import SweptCache.Proofs.SweepAccounts
import SweptCache.Proofs.SweepOrder

/-!
# A second sweep removes nothing

A sweep removes everything that it should. When what its plan leaves alone is
planned for again at once, with the memory that was freed counted as free, there
is nothing to remove. The candidates that are left have other positions, but they
are ranked as before (`Plan.ranked_leftAlone`). None of them is a runaway, and the
least worthy finished one is the first that was not pressed to go: with fewer
searches and fewer bytes around it, it is not pressed to go now, so the first pass
evicts nothing. The unfinished ones are no abandoned counts and no more than may
run at once, so the second pass aborts nothing.
-/

namespace SweptCache

namespace FirstPass

variable {limits : Limits} {pass : FirstPass} {items : List (Candidate × Nat)}

/-- Candidates that are not removable before another one make no difference to it. -/
theorem isPressed_of_not_removable {before : List (Candidate × Nat)} {item : Candidate × Nat}
    (stay : ∀ other ∈ before, limits.isRemovable other = false)
    (pressed : IsPressed limits pass before item) : IsPressed limits pass [] item := by
  have noneRemovable : before.filter limits.isRemovable = [] := by
    rw [List.filter_eq_nil_iff]
    intro other member
    rw [stay other member]
    exact Bool.false_ne_true
  have noneFinished : before.filter limits.isFinished = [] := by
    rw [List.filter_eq_nil_iff]
    intro other member finished
    have stays := stay other member
    rw [Limits.isRemovable, finished] at stays
    cases stays
  rwa [IsPressed, noneRemovable, noneFinished] at pressed

/-- A first pass removes nothing if there is no runaway and the first finished candidate that it
comes to is not pressed to go. -/
theorem removals_eq_nil_of_unpressed (reviewing : pass.isReviewing = true)
    (notRunaway : ∀ item ∈ items, limits.isRunaway item.1.stats = false)
    (unpressed : ∀ first, (items.filter limits.isFinished)[0]? = some first →
      ¬ IsPressed limits pass [] first) : removals limits pass items = [] := by
  have noneEvicted : Removal.evicted (removals limits pass items) = [] := by
    obtain ⟨count, evicted, upTo⟩ := (isUnbroken_nil reviewing).evicted items
    rw [evicted]
    cases found : (items.filter limits.isFinished)[0]? with
    | none =>
      have noneFinished := Nat.le_zero.mp (List.getElem?_eq_none_iff.mp found)
      rw [List.eq_nil_of_length_eq_zero noneFinished, List.take_nil]
    | some first =>
      obtain ⟨front, back, split, isFinished, noneBefore⟩ := exists_front_of_getElem?_filter found
      by_cases positive : 0 < count
      · have pressed := (upTo front first back split isFinished).1 (by omega)
        refine absurd (isPressed_of_not_removable (fun other member => ?_) pressed)
          (unpressed first found)
        have listed : other ∈ items := by
          rw [split]
          exact List.mem_append_left _ member
        have notFinished := List.filter_eq_nil_iff.mp (List.eq_nil_of_length_eq_zero noneBefore)
          other member
        simpa [Limits.isRemovable, notRunaway other listed] using notFinished
      · rw [Nat.eq_zero_of_not_pos positive, List.take_zero]
  rw [List.eq_nil_iff_forall_not_mem]
  intro removal removed
  rcases action_of_mem_removals removed with ⟨runaway, _⟩ | ⟨_, _, reason, evicts⟩
  · have listed := (removals_sublist limits pass items).mem
      (List.mem_map_of_mem (f := (·.item)) removed)
    rw [notRunaway _ listed] at runaway
    cases runaway
  · have isEvicted : removal.item ∈ Removal.evicted (removals limits pass items) :=
      List.mem_map_of_mem (List.mem_filter.mpr ⟨removed, by rw [evicts]; rfl⟩)
    rw [noneEvicted] at isEvicted
    cases isEvicted

end FirstPass

/-- A second pass removes nothing if there is no abandoned count and there are cores for all. -/
theorem SecondPass.removals_eq_nil {limits : Limits} {pass : SecondPass}
    {items : List (Candidate × Nat)}
    (notAbandoned : ∀ item ∈ items, limits.isAbandonedCount item.1.stats = false)
    (fits : items.length ≤ pass.coresLeft) : removals limits pass items = [] := by
  induction items generalizing pass with
  | nil => rfl
  | cons item rest ih =>
    rw [List.length_cons] at fits
    have more : 0 < pass.coresLeft := by omega
    rw [removals, notAbandoned item List.mem_cons_self, if_neg Bool.false_ne_true, if_pos more]
    refine ih (fun other member => notAbandoned other (List.mem_cons_of_mem item member)) ?_
    exact Nat.le_sub_one_of_lt fits

namespace Plan

/-- The candidates that a plan leaves alone, at the positions that they have. -/
def spared (plan : Plan) (candidates : List Candidate) : List (Candidate × Nat) :=
  candidates.zipIdx.filter fun item => (plan.actionFor? item.2).isNone

/-- The candidates that a plan evicts, at the positions that they have. -/
def evicted (plan : Plan) (candidates : List Candidate) : List (Candidate × Nat) :=
  decided candidates plan.actions fun action => !Store.isAbort action

/-- The position that an item among several had. -/
def placeAmong (items : List (Candidate × Nat)) (position : Nat) : Nat :=
  (items[position]?.map Prod.snd).getD position

variable {candidates : List Candidate} {limits : Limits} {freeBytes later : UInt64} {plan : Plan}

/-- Items that are numbered anew can be moved back to where they were. -/
theorem zipIdx_moved (items : List (Candidate × Nat)) :
    (items.map Prod.fst).zipIdx.map (moveItem (placeAmong items)) = items := by
  apply List.ext_getElem
  · simp
  · intro position within _
    have below : position < items.length := by simpa using within
    simp [moveItem, placeAmong, below]

/-- Candidates that are picked out keep their order. -/
theorem placeAmong_lt {holds : Candidate × Nat → Bool} {first second : Nat}
    (before : first < second) (within : second < (candidates.zipIdx.filter holds).length) :
    placeAmong (candidates.zipIdx.filter holds) first <
      placeAmong (candidates.zipIdx.filter holds) second := by
  have ascending : (candidates.zipIdx.filter holds).Pairwise fun former latter =>
      former.2 < latter.2 := by
    refine List.Pairwise.filter _ ?_
    rw [← List.pairwise_map, List.zipIdx_map_snd]
    exact List.pairwise_lt_range'
  have places := List.pairwise_iff_getElem.mp ascending first second (by omega) within before
  simpa [placeAmong, within, Nat.lt_trans before within] using places

/-- Candidates that have moved to places in the same order are worthy in the same order. -/
theorem isLessWorthy_moved {place : Nat → Nat} {first second : Candidate × Nat}
    (keeps : second.2 < first.2 → place second.2 < place first.2)
    (isLess : isLessWorthy first second = true) :
    isLessWorthy (moveItem place first) (moveItem place second) = true := by
  simp only [isLessWorthy, Bool.or_eq_true, Bool.and_eq_true, decide_eq_true_eq] at isLess ⊢
  rcases isLess with lower | ⟨same, behind⟩
  · exact .inl lower
  · exact .inr ⟨same, keeps behind⟩

/-- Candidates that are picked out are ranked as they were among all. -/
theorem ranked_filter (candidates : List Candidate) (holds : Candidate × Nat → Bool) :
    (ranked ((candidates.zipIdx.filter holds).map Prod.fst)).map
        (moveItem (placeAmong (candidates.zipIdx.filter holds))) =
      (ranked candidates).filter holds := by
  have sameItems : ((ranked ((candidates.zipIdx.filter holds).map Prod.fst)).map
      (moveItem (placeAmong (candidates.zipIdx.filter holds)))).Perm
        ((ranked candidates).filter holds) := by
    have moved := (rank_perm Candidate.worthiness
      ((candidates.zipIdx.filter holds).map Prod.fst)).map
        (moveItem (placeAmong (candidates.zipIdx.filter holds)))
    rw [zipIdx_moved] at moved
    exact moved.trans ((rank_perm Candidate.worthiness candidates).filter holds).symm
  refine sameItems.eq_of_pairwise ?_ ?_ ((pairwise_ranked candidates).filter holds)
  · intro first second _ _ isLess isMore
    rw [isLessWorthy_asymm _ _ isLess] at isMore
    cases isMore
  · rw [List.pairwise_map]
    refine (pairwise_ranked _).imp_of_mem ?_
    intro first second _ secondMember isLess
    refine isLessWorthy_moved (fun behind => placeAmong_lt behind ?_) isLess
    simpa using List.snd_lt_of_mem_zipIdx (mem_ranked_iff.mp secondMember)

/-- The only thing that a plan does to a finished candidate is to evict it. -/
theorem action_of_finished (made : make candidates limits freeBytes = .ok plan)
    {item : Candidate × Nat} (isFinished : limits.isFinished item = true)
    (listed : item ∈ candidates.zipIdx) {action : SweepAction}
    (acts : plan.actionFor? item.2 = some action) : ∃ reason, action = .evict reason := by
  simp only [Limits.isFinished, Bool.and_eq_true, Bool.not_eq_true'] at isFinished
  obtain ⟨removal, member, samePosition, rfl⟩ := (actionFor?_eq_some_iff made).mp acts
  obtain ⟨removedListed, acted⟩ := action_of_mem_removals member
  rw [eq_of_position removedListed listed samePosition] at acted
  rcases acted with ⟨runaway, _⟩ | ⟨_, evicts⟩ | ⟨unfinished, _⟩
  · rw [isFinished.2] at runaway
    cases runaway
  · exact evicts
  · rw [isFinished.1] at unfinished
    cases unfinished

/-- The bytes that the passes of a plan evict are those of the candidates that it evicts. -/
theorem evictedBytes_eq (made : make candidates limits freeBytes = .ok plan) :
    Removal.evictedBytes (removals candidates limits freeBytes) =
      totalBytes (plan.evicted candidates) := by
  have isEvicted : (Removal.evicted (removals candidates limits freeBytes)).Perm
      (plan.evicted candidates) := by
    rw [evicted, actions_of_make made]
    exact decided_perm (fun removal member => (action_of_mem_removals member).1)
      nodup_items_removals fun action => !Store.isAbort action
  rw [Removal.evictedBytes_eq_totalBytes, totalBytes_perm isEvicted]

/-- What a plan removes and what it leaves alone make up all candidates. -/
theorem spared_perm (made : make candidates limits freeBytes = .ok plan) :
    ((removals candidates limits freeBytes).map (·.item) ++ plan.spared candidates).Perm
      candidates.zipIdx := by
  have isSpared : plan.spared candidates = undecided candidates plan.actions := by
    refine List.filter_congr fun item _ => ?_
    rw [actionFor?, Option.isNone_map, Bool.eq_iff_iff]
    simp
  rw [isSpared, actions_of_make made]
  exact undecided_perm (fun removal member => (action_of_mem_removals member).1)
    nodup_items_removals

/-- What a plan leaves alone is no more than what its first pass leaves. -/
theorem length_leftAlone_le (made : make candidates limits freeBytes = .ok plan) :
    (plan.leftAlone candidates).length ≤
      candidates.length - (firstRemovals candidates limits freeBytes).length := by
  have whole := (spared_perm made).length_eq
  rw [List.length_append, List.length_map, removals, List.length_append,
    List.length_zipIdx] at whole
  rw [leftAlone, List.length_map, ← spared]
  omega

/-- What a plan leaves alone takes up no more bytes than what its first pass leaves. -/
theorem size_leftAlone_le (made : make candidates limits freeBytes = .ok plan) :
    ((plan.leftAlone candidates).map Candidate.exactSize).sum ≤
      (candidates.map Candidate.exactSize).sum -
        Removal.bytes (firstRemovals candidates limits freeBytes) := by
  have whole := totalBytes_perm (spared_perm made)
  rw [totalBytes_append, ← Removal.bytes_eq_totalBytes, removals, Removal.bytes_append,
    totalBytes_zipIdx] at whole
  have left : ((plan.leftAlone candidates).map Candidate.exactSize).sum =
      totalBytes (plan.spared candidates) := by
    rw [leftAlone, List.map_map]
    rfl
  omega

/-- A plan leaves a finished candidate alone if its first pass does not evict it. -/
theorem isNone_actionFor?_iff (made : make candidates limits freeBytes = .ok plan)
    {item : Candidate × Nat} (member : item ∈ finished candidates limits) :
    (plan.actionFor? item.2).isNone = true ↔
      item ∉ Removal.evicted (firstRemovals candidates limits freeBytes) := by
  obtain ⟨listed, isFinished⟩ := mem_finished_iff.mp member
  rw [Option.isNone_iff_eq_none]
  constructor
  · intro stays isEvicted
    obtain ⟨reason, evicts⟩ := (exists_evict_iff made).mpr ⟨item.1, isEvicted⟩
    rw [stays] at evicts
    cases evicts
  · intro kept
    rw [Option.eq_none_iff_forall_ne_some]
    intro action acts
    obtain ⟨reason, rfl⟩ := action_of_finished made isFinished listed acts
    obtain ⟨candidate, isEvicted⟩ := (exists_evict_iff made).mp ⟨reason, acts⟩
    obtain ⟨removal, evicts, isItem⟩ := List.mem_map.mp isEvicted
    have otherListed := item_mem_of_firstRemovals (List.mem_of_mem_filter evicts)
    rw [isItem] at otherListed
    rw [eq_of_position otherListed listed rfl] at isEvicted
    exact kept isEvicted

/-- The first of the finished candidates that a plan leaves alone was not pressed to go. -/
theorem unpressed_of_first_spared (made : make candidates limits freeBytes = .ok plan)
    {first : Candidate × Nat}
    (found : ((finished candidates limits).filter fun item =>
      (plan.actionFor? item.2).isNone)[0]? = some first) :
    ¬ IsPressed candidates limits freeBytes first := by
  obtain ⟨count, evicted, _, unpressed⟩ := evicted_firstRemovals candidates limits freeBytes
  have nodup : (finished candidates limits).Nodup :=
    (List.nodup_reverse.mpr (nodup_ranked candidates)).filter _
  have gone : ∀ item ∈ (finished candidates limits).take count,
      ¬ (plan.actionFor? item.2).isNone = true := by
    intro item taken
    rw [isNone_actionFor?_iff made (List.mem_of_mem_take taken), evicted]
    exact not_not_intro taken
  have stay : ∀ item ∈ (finished candidates limits).drop count,
      (plan.actionFor? item.2).isNone = true := by
    intro item dropped
    rw [isNone_actionFor?_iff made (List.mem_of_mem_drop dropped), evicted]
    exact fun taken => List.disjoint_take_drop nodup (Nat.le_refl count) taken dropped
  rw [← List.take_append_drop count (finished candidates limits), List.filter_append,
    List.filter_eq_nil_iff.mpr gone, List.filter_eq_self.mpr stay, List.nil_append,
    List.getElem?_drop, Nat.add_zero] at found
  exact unpressed first found

/-- Enough memory is free for a second plan: as much as the limits ask for, or what was free
before and what was evicted since. -/
def IsRelieved (plan : Plan) (candidates : List Candidate) (limits : Limits)
    (freeBytes later : UInt64) : Prop :=
  bytesOfMegabytes limits.targetFreeMegabytes ≤ later.toNat ∨
    freeBytes.toNat + totalBytes (plan.evicted candidates) ≤ later.toNat

/-- Nothing has to be freed for what stays, once the plan has been carried out. -/
theorem IsRelieved.memoryDeficit_le (relieved : plan.IsRelieved candidates limits freeBytes later)
    (enough : limits.memoryDeficit freeBytes ≤ totalBytes (plan.evicted candidates)) :
    limits.memoryDeficit later ≤ 0 := by
  rw [Limits.memoryDeficit] at enough ⊢
  rcases relieved with target | freed
  · omega
  · omega

/-- What a plan leaves alone is ranked as it was. -/
theorem ranked_leftAlone (plan : Plan) (candidates : List Candidate) :
    (ranked (plan.leftAlone candidates)).map (moveItem (placeAmong (plan.spared candidates))) =
      (ranked candidates).filter fun item => (plan.actionFor? item.2).isNone :=
  ranked_filter candidates _

/-- What a plan leaves alone, neither of its passes removes. -/
theorem kept_of_mem_filter (made : make candidates limits freeBytes = .ok plan)
    {item : Candidate × Nat}
    (member : item ∈ (ranked candidates).filter fun item => (plan.actionFor? item.2).isNone) :
    item ∈ candidates.zipIdx ∧ item ∉ (removals candidates limits freeBytes).map (·.item) := by
  obtain ⟨visited, stays⟩ := List.mem_filter.mp member
  have listed := mem_ranked_iff.mp visited
  exact ⟨listed, (actionFor?_eq_none_iff made listed).mp (Option.isNone_iff_eq_none.mp stays)⟩

/-- The first of the finished candidates that a plan leaves alone is not pressed to go afterwards
either: no more searches and bytes are left around it than when the first pass ended. -/
theorem unpressed_leftAlone (made : make candidates limits freeBytes = .ok plan)
    (relieved : plan.IsRelieved candidates limits freeBytes later) {first : Candidate × Nat}
    (found : ((finished candidates limits).filter fun item =>
      (plan.actionFor? item.2).isNone)[0]? = some first) :
    ¬FirstPass.IsPressed limits (firstStart (plan.leftAlone candidates) limits later) [] first := by
  obtain ⟨member, stays⟩ := List.mem_filter.mp (List.mem_of_getElem? found)
  obtain ⟨listed, isFinished⟩ := mem_finished_iff.mp member
  rw [Limits.isFinished, Bool.and_eq_true] at isFinished
  have kept := (actionFor?_eq_none_iff made listed).mp (Option.isNone_iff_eq_none.mp stays)
  obtain ⟨few, small, enough⟩ := (kept_of_notMem listed kept).2.1 isFinished.1
  rw [evictedBytes_eq made] at enough
  rintro (short | tooMany | tooLarge | tooOld)
  · have noDeficit := relieved.memoryDeficit_le enough
    simp only [List.filter_nil, firstStart, FirstPass.start, totalBytes, List.map_nil,
      List.sum_nil] at short
    omega
  · have fewer := isExceeded_of_le (length_leftAlone_le made) few
    rw [List.filter_nil, List.length_nil, Nat.sub_zero] at tooMany
    exact absurd tooMany (Bool.eq_false_iff.mp fewer)
  · have smaller := isExceeded_of_le (Nat.div_le_div_right (size_leftAlone_le made)) small
    rw [List.filter_nil] at tooLarge
    exact absurd tooLarge (Bool.eq_false_iff.mp smaller)
  · exact unpressed_of_first_spared made found (.inr (.inr (.inr tooOld)))

/-- The first pass of a second plan removes nothing. -/
theorem firstRemovals_leftAlone (made : make candidates limits freeBytes = .ok plan)
    (relieved : plan.IsRelieved candidates limits freeBytes later) :
    firstRemovals (plan.leftAlone candidates) limits later = [] := by
  have moved : FirstPass.removals limits (firstStart (plan.leftAlone candidates) limits later)
      ((ranked (plan.leftAlone candidates)).reverse.map
        (moveItem (placeAmong (plan.spared candidates)))) =
      (firstRemovals (plan.leftAlone candidates) limits later).map
        (Removal.moved (placeAmong (plan.spared candidates))) :=
    FirstPass.removals_moved (firstStart (plan.leftAlone candidates) limits later) [] _
  rw [List.map_reverse, ranked_leftAlone, ← List.filter_reverse] at moved
  refine List.map_eq_nil_iff.mp (moved.symm.trans ?_)
  refine FirstPass.removals_eq_nil_of_unpressed rfl ?_ ?_
  · intro item member
    obtain ⟨listed, kept⟩ := kept_of_mem_filter made
      (List.mem_reverse.mp (List.filter_reverse ▸ member))
    exact (kept_of_notMem listed kept).1
  · intro first found
    refine unpressed_leftAlone made relieved ?_
    rw [List.filter_filter] at found
    rw [finished, List.filter_filter, ← found]
    simp only [Bool.and_comm]

/-- The second pass of a second plan removes nothing. -/
theorem secondRemovals_leftAlone (made : make candidates limits freeBytes = .ok plan) :
    secondRemovals (plan.leftAlone candidates) limits later = [] := by
  have unmoved : limits.isRunning ∘ moveItem (placeAmong (plan.spared candidates)) =
      limits.isRunning := rfl
  have moved : SecondPass.removals limits ⟨limits.maxConcurrent.toNat, []⟩
      (((ranked candidates).filter fun item => (plan.actionFor? item.2).isNone).filter
        limits.isRunning) =
      (secondRemovals (plan.leftAlone candidates) limits later).map
        (Removal.moved (placeAmong (plan.spared candidates))) := by
    rw [← ranked_leftAlone, List.filter_map, unmoved, ← leftRunning_eq _ _ later]
    exact SecondPass.removals_moved ⟨limits.maxConcurrent.toNat, []⟩ _
  refine List.map_eq_nil_iff.mp (moved.symm.trans ?_)
  refine SecondPass.removals_eq_nil ?_ ?_
  · intro item member
    obtain ⟨left, isRunning⟩ := List.mem_filter.mp member
    obtain ⟨listed, kept⟩ := kept_of_mem_filter made left
    simp only [Limits.isRunning, Bool.and_eq_true, Bool.not_eq_true'] at isRunning
    exact (kept_of_notMem listed kept).2.2 isRunning.1
  · rw [List.filter_filter, ← List.countP_eq_length_filter,
      (rank_perm Candidate.worthiness candidates).countP_eq]
    refine Nat.le_trans (List.countP_mono_left ?_)
      (countP_unfinished_le candidates limits freeBytes)
    intro item listed runs
    simp only [Limits.isRunning, Bool.and_eq_true, Option.isNone_iff_eq_none,
      actionFor?_eq_none_iff made listed] at runs
    simpa using ⟨by simpa using runs.1.1, by simpa using runs.2⟩

/-- The sizes of what a plan leaves alone fit in a word together, so there is a plan for it. -/
theorem exists_make_leftAlone (made : make candidates limits freeBytes = .ok plan)
    (later : UInt64) : ∃ second, make (plan.leftAlone candidates) limits later = .ok second := by
  have fits := (make_isOk_iff candidates limits freeBytes).mp ⟨plan, made⟩
  have smaller := size_leftAlone_le made
  exact (make_isOk_iff ..).mpr (by omega)

/-- A second plan removes nothing of what the first one leaves alone. -/
theorem exists_make_without_actions (made : make candidates limits freeBytes = .ok plan)
    (relieved : plan.IsRelieved candidates limits freeBytes later) :
    ∃ second, make (plan.leftAlone candidates) limits later = .ok second ∧
      second.actions = [] := by
  obtain ⟨second, secondMade⟩ := exists_make_leftAlone made later
  refine ⟨second, secondMade, ?_⟩
  rw [actions_of_make secondMade, removals, firstRemovals_leftAlone made relieved,
    secondRemovals_leftAlone made]
  rfl

/-- What is left alone among items is left alone among what they are mapped to. -/
theorem leftAlone_map {α β : Type} (plan : Plan) (mapped : α → β) (items : List α) :
    plan.leftAlone (items.map mapped) = (plan.leftAlone items).map mapped := by
  rw [leftAlone, leftAlone, List.zipIdx_map, List.filter_map, List.map_map, List.map_map]
  rfl

end Plan

namespace Store

variable {store : Store} {plan : Plan}

/-- A sweep leaves the candidates that its plan leaves alone. -/
theorem WellFormed.candidates_sweep (wellFormed : store.WellFormed)
    (planned : store.plan = .ok plan) :
    store.sweep.2.candidates = plan.leftAlone store.candidates := by
  obtain ⟨clock, _, policy, _⟩ := store.sweep_frame
  rw [candidates_eq_map, candidates_eq_map, wellFormed.registeredEntries_leftAlone planned,
    Plan.leftAlone_map, List.map_map]
  refine List.map_congr_left fun entry _ => ?_
  rw [Function.comp_apply, asCandidate, clock, policy]
  rfl

/-- A sweep whose plan does nothing leaves all registrations. -/
theorem registrations_sweep_of_nil (planned : store.plan = .ok plan) (idle : plan.actions = []) :
    store.sweep.2.registrations = store.registrations := by
  have nothing : store.sweepRemovals = [] := by
    simp only [sweepRemovals, planned, plannedRemovals, idle, List.filterMap_nil]
  rw [registrations_sweep, nothing]
  exact List.filter_eq_self.mpr fun _ _ => rfl

/-- One sweep removes all that it should. A second plan, for the candidates that the first one
leaves alone in their order, does nothing to them if as much memory is free as the limits ask for,
or as much as before and what the first plan evicted. So a second sweep of a cache at once, when
its reading of free memory is such a one, removes and cancels nothing. -/
theorem second_sweep_removes_nothing :
    (∀ (candidates : List Candidate) (limits : Limits) (freeBytes later : UInt64) (plan : Plan),
      Plan.make candidates limits freeBytes = .ok plan →
        plan.IsRelieved candidates limits freeBytes later →
        ∃ second, Plan.make (plan.leftAlone candidates) limits later = .ok second ∧
          second.actions = []) ∧
    (∀ store : Store, store.Reachable → ∀ plan, store.plan = .ok plan →
      plan.IsRelieved store.candidates store.settings.limits store.memory.next
          store.sweep.2.memory.next →
        ∃ summary, store.sweep.2.sweep = (.ok summary, store.sweep.2.sweep.2) ∧
          summary.evicted = 0 ∧ summary.aborted = 0 ∧
          store.sweep.2.sweep.2.registrations = store.sweep.2.registrations) := by
  constructor
  · intro candidates limits freeBytes later plan made relieved
    exact Plan.exists_make_without_actions made relieved
  · intro store reachable plan planned relieved
    have wellFormed := reachable.wellFormed
    have swept : store.sweep.2.WellFormed := wellFormed.after .sweep
    obtain ⟨second, secondMade, idle⟩ := Plan.exists_make_without_actions planned relieved
    have secondPlanned : store.sweep.2.plan = .ok second := by
      rw [Store.plan, wellFormed.candidates_sweep planned, store.sweep_frame.2.1, secondMade]
    have summed := swept.summary_sweep secondPlanned
    refine ⟨store.sweep.2.sweepSummary second, Prod.ext summed rfl, ?_, ?_,
      registrations_sweep_of_nil secondPlanned idle⟩
    · simp only [sweepSummary, idle, List.countP_nil]
    · simp only [sweepSummary, idle, List.countP_nil]

/-- Three finished searches and two others. -/
def surplus : List Candidate :=
  [⟨5, Plan.settledStats⟩, ⟨3, Plan.settledStats⟩, ⟨1, Plan.settledStats⟩,
    ⟨4, Plan.searchingStats⟩, ⟨2, Plan.searchingStats⟩]

/-- Limits by which three searches may stay, one may run and a hundred megabytes are to be free. -/
def surplusLimits : Limits :=
  { (Settings.standard 1).limits with maxEntries := some 3, targetFreeMegabytes := 100 }

theorem second_sweep_removes_nothing_of_surplus :
    (∃ plan, Plan.make surplus surplusLimits 99999700 = .ok plan ∧
      plan.actions = [(2, .evict .lowMemory), (1, .evict .lowMemory), (4, .abort .noCoresLeft)] ∧
      ∃ second, Plan.make (plan.leftAlone surplus) surplusLimits 100000180 = .ok second ∧
        second.actions = []) ∧
    crowded.size = 3 ∧
      ∃ summary, crowded.sweep.2.sweep = (.ok summary, crowded.sweep.2.sweep.2) ∧
        summary.evicted = 0 ∧ summary.aborted = 0 ∧
        crowded.sweep.2.sweep.2.registrations = crowded.sweep.2.registrations := by
  obtain ⟨ofPlans, ofSweeps⟩ := second_sweep_removes_nothing
  constructor
  · have ranking : rank Candidate.worthiness surplus = [(⟨5, Plan.settledStats⟩, 0),
        (⟨4, Plan.searchingStats⟩, 3), (⟨3, Plan.settledStats⟩, 1), (⟨2, Plan.searchingStats⟩, 4),
        (⟨1, Plan.settledStats⟩, 2)] := by
      simp [rank, surplus, List.mergeSort, outranks]
    have made : Plan.make surplus surplusLimits 99999700 = .ok ⟨[(2, .evict .lowMemory),
        (1, .evict .lowMemory), (4, .abort .noCoresLeft)], 1200⟩ := by
      rw [Plan.make, ranking]
      rfl
    exact ⟨_, made, rfl, ofPlans _ _ _ 100000180 _ made (.inr (by decide))⟩
  · have reachable : crowded.Reachable :=
      ⟨narrowSettings, .standard, .fixed 200000000, _, _, rfl, rfl⟩
    obtain ⟨plan, planned⟩ := crowded.plan_isOk_iff.mpr (by decide)
    exact ⟨by decide, ofSweeps crowded reachable plan planned (.inl (by decide))⟩

end Store

end SweptCache
