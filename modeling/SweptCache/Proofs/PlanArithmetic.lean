import SweptCache.Proofs.EvictionRule
import SweptCache.Sweep.CheckedPlan

/-!
# The arithmetic of a plan is exact

The only operations of a plan that can fail are those that add the sizes of its
candidates up. Where they do not fit in a word together, the plan fails at the
first candidate with which the sum leaves the word (`totalSizeFrom_of_reached`). Where
they do, the first pass has room for every candidate that it still comes to
(`FirstPass.HasRoom`): their bytes are part of the size that is left, and the
memory that has to be freed is so far from both ends of its range that no eviction
leaves it. So the plan is the same with every operation checked, and what the pass
knows of the cache is at any time exactly what its decisions leave.
-/

namespace SweptCache

/-- Amounts whose sum is beyond a bound reach it at one of them. -/
theorem exists_reached {bound start : Nat} {amounts : List Nat} (below : start < bound)
    (beyond : bound ≤ start + amounts.sum) :
    ∃ front amount back, amounts = front ++ amount :: back ∧ start + front.sum < bound ∧
      bound ≤ start + front.sum + amount := by
  induction amounts generalizing start with
  | nil =>
    rw [List.sum_nil] at beyond
    omega
  | cons first rest ih =>
    rw [List.sum_cons, ← Nat.add_assoc] at beyond
    by_cases reached : bound ≤ start + first
    · exact ⟨[], first, rest, rfl, below, reached⟩
    · obtain ⟨front, amount, back, rfl, before, isReached⟩ := ih (by omega) beyond
      refine ⟨first :: front, amount, back, rfl, ?_, ?_⟩
      · rwa [List.sum_cons, ← Nat.add_assoc]
      · rwa [List.sum_cons, ← Nat.add_assoc]

/-- The operation that fails where the sum of sizes leaves a word with one of them. -/
def overflowAt (size : Nat) : Overflow :=
  if wordSize ≤ size then .multiplication else .addition

/-- Adding sizes up fails where the exact sum leaves the word. -/
theorem totalSizeFrom_of_reached {start : Nat} {hits : UInt64} {front back : List UInt64}
    (before : start + (front.map exactSize).sum < wordSize)
    (reached : wordSize ≤ start + (front.map exactSize).sum + exactSize hits) :
    totalSizeFrom start (front ++ hits :: back) = .error (overflowAt (exactSize hits)) := by
  induction front generalizing start with
  | nil =>
    rw [List.map_nil, List.sum_nil, Nat.add_zero] at reached
    rw [List.nil_append, totalSizeFrom, sizeOfHits, overflowAt]
    by_cases tooLarge : wordSize ≤ exactSize hits
    · rw [if_neg (Nat.not_lt.mpr tooLarge), if_pos tooLarge]
    · rw [if_pos (Nat.not_le.mp tooLarge), if_neg tooLarge]
      simp only [addAmounts, if_neg (Nat.not_lt.mpr reached)]
  | cons first front ih =>
    rw [List.map_cons, List.sum_cons, ← Nat.add_assoc] at before reached
    have firstFits : exactSize first < wordSize := by omega
    have sumFits : start + exactSize first < wordSize := by omega
    rw [List.cons_append, totalSizeFrom, sizeOfHits, if_pos firstFits]
    simp only [addAmounts, if_pos sumFits]
    exact ih before reached

namespace Plan

/-- There is no plan, for such a reason, exactly if the sum of sizes leaves the word at such a
candidate. -/
theorem make_eq_error_iff (candidates : List Candidate) (limits : Limits) (freeBytes : UInt64)
    (overflow : Overflow) :
    make candidates limits freeBytes = .error overflow ↔
      ∃ front candidate back, candidates = front ++ candidate :: back ∧
        (front.map Candidate.exactSize).sum < wordSize ∧
        wordSize ≤ (front.map Candidate.exactSize).sum + candidate.exactSize ∧
        overflow = overflowAt candidate.exactSize := by
  have fails : ∀ front candidate back, (front.map Candidate.exactSize).sum < wordSize →
      wordSize ≤ (front.map Candidate.exactSize).sum + candidate.exactSize →
        make (front ++ candidate :: back) limits freeBytes =
          .error (overflowAt candidate.exactSize) := by
    intro front candidate back before reached
    have sizes : front.map Candidate.exactSize =
        (front.map fun candidate => candidate.stats.storedHits).map exactSize := by
      rw [List.map_map]
      rfl
    rw [sizes] at before reached
    rw [make, List.map_append, List.map_cons, totalSize]
    rw [totalSizeFrom_of_reached (by rwa [Nat.zero_add]) (by rwa [Nat.zero_add])]
    rfl
  constructor
  · intro failed
    have beyond : wordSize ≤ 0 + (candidates.map Candidate.exactSize).sum := by
      rw [Nat.zero_add, ← Nat.not_lt, ← make_isOk_iff candidates limits freeBytes, failed]
      rintro ⟨plan, impossible⟩
      cases impossible
    obtain ⟨sizes, size, others, split, before, reached⟩ := exists_reached (by decide) beyond
    rw [Nat.zero_add] at before reached
    obtain ⟨front, rest, rfl, rfl, isRest⟩ := List.map_eq_append_iff.mp split
    obtain ⟨candidate, back, rfl, rfl, rfl⟩ := List.map_eq_cons_iff.mp isRest
    rw [fails front candidate back before reached] at failed
    exact ⟨front, candidate, back, rfl, before, reached, (Except.error.inj failed).symm⟩
  · rintro ⟨front, candidate, back, rfl, before, reached, rfl⟩
    exact fails front candidate back before reached

/-- There is no plan exactly if the sizes of all candidates do not fit in a word together. -/
theorem make_fails_iff (candidates : List Candidate) (limits : Limits) (freeBytes : UInt64) :
    (∃ overflow, make candidates limits freeBytes = .error overflow) ↔
      wordSize ≤ (candidates.map Candidate.exactSize).sum := by
  rw [← Nat.not_lt, ← make_isOk_iff candidates limits freeBytes]
  cases make candidates limits freeBytes <;> simp

end Plan

section Room

variable {limits : Limits} {pass : FirstPass} {item : Candidate × Nat}
  {rest : List (Candidate × Nat)}

/-- The counters of a first pass have room for the candidates that it still comes to. -/
structure FirstPass.HasRoom (pass : FirstPass) (items : List (Candidate × Nat)) : Prop where
  searches : items.length ≤ pass.searches
  sizeBytes : totalBytes items ≤ pass.sizeBytes
  isWord : pass.sizeBytes < wordSize
  above : (totalBytes items : Int) - wideLimit ≤ pass.memoryDeficit
  below : pass.memoryDeficit < wideLimit

namespace FirstPass

/-- A pass that has room for candidates has room for fewer. -/
theorem HasRoom.tail (room : pass.HasRoom (item :: rest)) : pass.HasRoom rest := by
  obtain ⟨searches, sizeBytes, isWord, above, below⟩ := room
  rw [totalBytes_cons] at sizeBytes above
  rw [List.length_cons] at searches
  exact ⟨by omega, by omega, isWord, by omega, below⟩

/-- A removal frees no more memory than the candidate takes up. -/
theorem memoryDeficit_remove (pass : FirstPass) (action : SweepAction) (item : Candidate × Nat) :
    pass.memoryDeficit - item.1.exactSize ≤
        (pass.remove action item.2 item.1).memoryDeficit ∧
      (pass.remove action item.2 item.1).memoryDeficit ≤ pass.memoryDeficit := by
  cases action with
  | evict reason => exact ⟨Int.le_refl _, Int.sub_le_self _ (Int.natCast_nonneg _)⟩
  | abort reason => exact ⟨Int.sub_le_self _ (Int.natCast_nonneg _), Int.le_refl _⟩

/-- The room that a candidate takes up is there for it. -/
theorem HasRoom.remove (room : pass.HasRoom (item :: rest)) (action : SweepAction) :
    (pass.remove action item.2 item.1).HasRoom rest := by
  obtain ⟨searches, sizeBytes, isWord, above, below⟩ := room
  obtain ⟨least, most⟩ := pass.memoryDeficit_remove action item
  rw [totalBytes_cons] at sizeBytes above
  constructor
  · exact Nat.le_sub_one_of_lt searches
  · exact Nat.le_sub_of_add_le (by omega)
  · exact Nat.lt_of_le_of_lt (Nat.sub_le ..) isWord
  · omega
  · omega

/-- A pass keeps the room for the candidates that it still comes to. -/
theorem HasRoom.visit (room : pass.HasRoom (item :: rest)) :
    (pass.visit limits item).HasRoom rest := by
  rw [FirstPass.visit]
  cases pass.action? limits item.1.stats with
  | some action => exact room.remove action
  | none =>
    obtain ⟨searches, sizeBytes, isWord, above, below⟩ := room.tail
    simp only [keep]
    split
    · exact ⟨searches, sizeBytes, isWord, above, below⟩
    · exact room.tail

/-- No operation fails in removing a candidate for which there is room. -/
theorem HasRoom.removeChecked (room : pass.HasRoom (item :: rest)) (action : SweepAction) :
    pass.removeChecked action item.2 item.1 = .ok (pass.remove action item.2 item.1) := by
  have roomAfter := room.remove action
  obtain ⟨searches, sizeBytes, isWord, _, _⟩ := room
  rw [totalBytes_cons] at sizeBytes
  rw [List.length_cons] at searches
  have size : sizeOfHits item.1.stats.storedHits = .ok item.1.exactSize :=
    if_pos (show item.1.exactSize < wordSize by omega)
  have less : takeAmount pass.sizeBytes item.1.exactSize =
      .ok (pass.sizeBytes - item.1.exactSize) := if_pos (by omega)
  have fewer : takeAmount pass.searches 1 = .ok (pass.searches - 1) := if_pos (by omega)
  rw [FirstPass.removeChecked, size]
  cases action with
  | evict reason =>
    have freed : wideNumber (pass.memoryDeficit - item.1.exactSize) =
        .ok (pass.memoryDeficit - item.1.exactSize) := by
      refine if_pos ⟨?_, roomAfter.below⟩
      have above := roomAfter.above
      simp only [FirstPass.remove] at above
      omega
    simp only [Except.mapError, Except.bind, bind, pure, less, fewer, freed]
    rfl
  | abort reason =>
    simp only [Except.mapError, Except.bind, bind, pure, less, fewer]
    rfl

/-- No operation fails in a pass that has room for all candidates. -/
theorem HasRoom.foldlM_visitChecked {items : List (Candidate × Nat)} (room : pass.HasRoom items) :
    items.foldlM (visitChecked limits) pass = .ok (pass.visitAll limits items) := by
  induction items generalizing pass with
  | nil => rfl
  | cons item rest ih =>
    have visited : pass.visitChecked limits item = .ok (pass.visit limits item) := by
      rw [visitChecked, FirstPass.visit]
      cases pass.action? limits item.1.stats with
      | some action => exact room.removeChecked action
      | none => rfl
    rw [List.foldlM_cons, visited]
    exact ih room.visit

/-- A pass has room for what it still comes to, wherever it is. -/
theorem HasRoom.visitAll {visited : List (Candidate × Nat)}
    (room : pass.HasRoom (visited ++ rest)) : (pass.visitAll limits visited).HasRoom rest := by
  induction visited generalizing pass with
  | nil => exact room
  | cons item visited ih => exact ih room.visit

end FirstPass

/-- No operation fails in a second pass. -/
theorem SecondPass.foldlM_visitChecked (limits : Limits) (pass : SecondPass)
    (items : List (Candidate × Nat)) :
    items.foldlM (visitChecked limits) pass = .ok (pass.visitAll limits items) := by
  have visited : visitChecked limits = fun pass item => pure (pass.visit limits item) := by
    funext pass item
    rw [visitChecked, visit]
    split
    · rfl
    · split
      next more =>
        have fewer : takeAmount pass.coresLeft 1 = .ok (pass.coresLeft - 1) := if_pos more
        rw [fewer]
        rfl
      next => rfl
  rw [visited, List.foldlM_pure]
  rfl

end Room

/-- The memory that has to be freed is the difference of two words. -/
theorem Limits.memoryDeficit_bounds (limits : Limits) (freeBytes : UInt64) :
    -(wordSize : Int) < limits.memoryDeficit freeBytes ∧
      limits.memoryDeficit freeBytes < wordSize := by
  have free : freeBytes.toNat < wordSize := freeBytes.toNat_lt
  have target : bytesOfMegabytes limits.targetFreeMegabytes ≤ wordSize - 1 :=
    Nat.min_le_right _ _
  have positive : 0 < wordSize := by decide
  rw [Limits.memoryDeficit]
  omega

/-- Numbers of 128 bits have room for many words. -/
theorem wordSize_lt_wideLimit : 2 * wordSize < wideLimit := by decide

/-- What a first pass knows of the cache, when so many candidates are still to come, is what its
decisions leave of it. -/
structure FirstPass.IsExact (pass : FirstPass) (candidates : List Candidate) (limits : Limits)
    (freeBytes : UInt64) (rest : List (Candidate × Nat)) : Prop where
  sizeBytes : pass.sizeBytes = totalBytes (Plan.undecided candidates pass.decisions)
  searches : pass.searches = (Plan.undecided candidates pass.decisions).length
  memoryDeficit : pass.memoryDeficit =
    (min (limits.targetFreeMegabytes.toNat * bytesPerMegabyte) (wordSize - 1) : Nat) -
      freeBytes.toNat -
      totalBytes (Plan.decided candidates pass.decisions fun action => !Store.isAbort action)
  isWord : pass.sizeBytes < wordSize
  isWide : -(wideLimit : Int) ≤ pass.memoryDeficit ∧ pass.memoryDeficit < wideLimit
  /-- There is as much as any of the candidates that are still to come takes away. -/
  covers : ∀ item ∈ rest, item.1.exactSize ≤ pass.sizeBytes ∧ 0 < pass.searches

namespace Plan

variable {candidates : List Candidate} {limits : Limits} {freeBytes : UInt64}
  {visited rest : List (Candidate × Nat)}

/-- At first there is room for all candidates. -/
theorem hasRoom_firstStart (fits : (candidates.map Candidate.exactSize).sum < wordSize) :
    (firstStart candidates limits freeBytes).HasRoom (ranked candidates).reverse := by
  have listed : (ranked candidates).reverse.Perm candidates.zipIdx :=
    (List.reverse_perm _).trans (rank_perm _ _)
  have size := totalBytes_perm listed
  have length := listed.length_eq
  obtain ⟨above, below⟩ := limits.memoryDeficit_bounds freeBytes
  have wide := wordSize_lt_wideLimit
  rw [totalBytes_zipIdx] at size
  rw [List.length_zipIdx] at length
  constructor
  · exact Nat.le_of_eq length
  · exact Nat.le_of_eq size
  · exact fits
  · rw [size]
    simp only [firstStart, FirstPass.start]
    omega
  · simp only [firstStart, FirstPass.start]
    omega

/-- What a first pass removes of some of the candidates are different ones of them. -/
theorem distinct_removals (split : (ranked candidates).reverse = visited ++ rest)
    (limits : Limits) (pass : FirstPass) :
    ((FirstPass.removals limits pass visited).map (·.item)).Nodup ∧
      ∀ removal ∈ FirstPass.removals limits pass visited, removal.item ∈ candidates.zipIdx := by
  have removed : ((FirstPass.removals limits pass visited).map (·.item)).Sublist
      (ranked candidates).reverse :=
    (FirstPass.removals_sublist limits pass visited).trans
      (split ▸ List.sublist_append_left visited rest)
  refine ⟨(List.nodup_reverse.mpr (nodup_ranked candidates)).sublist removed, ?_⟩
  intro removal member
  exact mem_ranked_iff.mp (List.mem_reverse.mp (removed.mem (List.mem_map_of_mem member)))

/-- What the first pass knows is exact when it has come to some of the candidates. -/
theorem isExact_visitAll (fits : (candidates.map Candidate.exactSize).sum < wordSize)
    (split : (ranked candidates).reverse = visited ++ rest) :
    ((firstStart candidates limits freeBytes).visitAll limits visited).IsExact candidates limits
      freeBytes rest := by
  have room : ((firstStart candidates limits freeBytes).visitAll limits visited).HasRoom rest :=
    FirstPass.HasRoom.visitAll (split ▸ hasRoom_firstStart fits)
  have decisions : ((firstStart candidates limits freeBytes).visitAll limits visited).decisions =
      (FirstPass.removals limits (firstStart candidates limits freeBytes) visited).map
        Removal.decision := FirstPass.decisions_visitAll limits _ visited
  obtain ⟨nodup, listed⟩ :=
    distinct_removals split limits (firstStart candidates limits freeBytes)
  have left := undecided_perm listed nodup
  have evicted := decided_perm listed nodup fun action => !Store.isAbort action
  constructor
  · have whole := totalBytes_perm left
    rw [totalBytes_append, ← Removal.bytes_eq_totalBytes, totalBytes_zipIdx] at whole
    rw [decisions, FirstPass.sizeBytes_visitAll]
    simp only [firstStart, FirstPass.start] at whole ⊢
    omega
  · have whole := left.length_eq
    rw [List.length_append, List.length_map, List.length_zipIdx] at whole
    rw [decisions, FirstPass.searches_visitAll]
    simp only [firstStart, FirstPass.start] at whole ⊢
    omega
  · rw [decisions, ← totalBytes_perm evicted, FirstPass.memoryDeficit_visitAll,
      Removal.evictedBytes_eq_totalBytes]
    rfl
  · exact room.isWord
  · refine ⟨?_, room.below⟩
    have above := room.above
    omega
  · intro item member
    have size : item.1.exactSize ≤ totalBytes rest :=
      List.le_sum_of_mem (List.mem_map_of_mem (f := fun item => item.1.exactSize) member)
    have some := List.length_pos_of_mem member
    exact ⟨size.trans room.sizeBytes, some.trans_le room.searches⟩

/-- The memory that has to be freed is a number of 128 bits. -/
theorem wideNumber_memoryDeficit (limits : Limits) (freeBytes : UInt64) :
    wideNumber (limits.memoryDeficit freeBytes) = .ok (limits.memoryDeficit freeBytes) := by
  obtain ⟨above, below⟩ := limits.memoryDeficit_bounds freeBytes
  have wide := wordSize_lt_wideLimit
  exact if_pos ⟨by omega, by omega⟩

/-- With every operation checked, there is the same plan, or none for the same reason. -/
theorem makeChecked_eq (candidates : List Candidate) (limits : Limits) (freeBytes : UInt64) :
    makeChecked candidates limits freeBytes =
      (make candidates limits freeBytes).mapError .overflow := by
  rw [makeChecked, make, wideNumber_memoryDeficit]
  cases added : totalSize (candidates.map fun candidate => candidate.stats.storedHits) with
  | error overflow => rfl
  | ok sizeBytes =>
    obtain ⟨isSum, fits⟩ := (totalSize_eq_ok_iff _ _).mp added
    rw [List.map_map] at isSum
    have length : (ranked candidates).length = candidates.length := by
      rw [(rank_perm Candidate.worthiness candidates).length_eq, List.length_zipIdx]
    have room : (firstStart candidates limits freeBytes).HasRoom (ranked candidates).reverse :=
      hasRoom_firstStart (isSum ▸ fits)
    have first : (ranked candidates).reverse.foldlM (FirstPass.visitChecked limits)
        ⟨candidates.length, sizeBytes, limits.memoryDeficit freeBytes, true, []⟩ =
          .ok (firstPass limits freeBytes sizeBytes (ranked candidates)) := by
      rw [firstPass, length, isSum]
      exact room.foldlM_visitChecked
    simp only [Except.mapError, bind, Except.bind]
    rw [first]
    simp only [SecondPass.foldlM_visitChecked]
    rfl

/-- With every operation checked, planning fails where adding the sizes up does. -/
theorem makeChecked_eq_error_iff (candidates : List Candidate) (limits : Limits)
    (freeBytes : UInt64) (misfit : Misfit) :
    makeChecked candidates limits freeBytes = .error misfit ↔
      ∃ overflow, make candidates limits freeBytes = .error overflow ∧
        misfit = .overflow overflow := by
  rw [makeChecked_eq]
  cases make candidates limits freeBytes with
  | error overflow => simp [Except.mapError, eq_comm]
  | ok plan => simp [Except.mapError]

/-- The arithmetic of a plan is exact, whatever numbers of hits are stored. With every operation
checked there is the same plan, or none for the same reason. There is none exactly if the sizes of
all candidates do not fit in a word together: it fails at the first candidate with which their sum
leaves the word, in multiplying if that one is too large by itself, and in adding otherwise. If
there is a plan, the first pass knows at any time exactly what its decisions have left of the size
and the number of all candidates and of the memory that has to be freed. -/
theorem plan_arithmetic_is_exact (candidates : List Candidate) (limits : Limits)
    (freeBytes : UInt64) :
    makeChecked candidates limits freeBytes =
      (make candidates limits freeBytes).mapError .overflow ∧
    ((∃ misfit, makeChecked candidates limits freeBytes = .error misfit) ↔
      wordSize ≤ (candidates.map Candidate.exactSize).sum) ∧
    (∀ misfit, makeChecked candidates limits freeBytes = .error misfit ↔
      ∃ front candidate back, candidates = front ++ candidate :: back ∧
        (front.map Candidate.exactSize).sum < wordSize ∧
        wordSize ≤ (front.map Candidate.exactSize).sum + candidate.exactSize ∧
        misfit = .overflow (overflowAt candidate.exactSize)) ∧
    ∀ plan, make candidates limits freeBytes = .ok plan →
      ∀ visited rest, (ranked candidates).reverse = visited ++ rest →
        (visited.foldl (FirstPass.visit limits)
          (.start limits freeBytes candidates.length plan.sizeBytes)).IsExact candidates limits
            freeBytes rest := by
  refine ⟨makeChecked_eq candidates limits freeBytes, ?_, ?_, ?_⟩
  · rw [← make_fails_iff candidates limits freeBytes]
    simp only [makeChecked_eq_error_iff]
    constructor
    · rintro ⟨_, overflow, failed, _⟩
      exact ⟨overflow, failed⟩
    · rintro ⟨overflow, failed⟩
      exact ⟨_, overflow, failed, rfl⟩
  · intro misfit
    simp only [makeChecked_eq_error_iff, make_eq_error_iff]
    constructor
    · rintro ⟨_, ⟨front, candidate, back, split, before, reached, rfl⟩, rfl⟩
      exact ⟨front, candidate, back, split, before, reached, rfl⟩
    · rintro ⟨front, candidate, back, split, before, reached, rfl⟩
      exact ⟨_, ⟨front, candidate, back, split, before, reached, rfl⟩, rfl⟩
  · intro plan made visited rest split
    obtain ⟨isSum, fits⟩ := sizeBytes_of_make made
    rw [isSum] at fits ⊢
    exact isExact_visitAll fits split

/-- The figures of a finished search with as many hits as a word can count the bytes of. -/
def hoardedStats : Stats := { settledStats with storedHits := 768614336404564650 }

/-- The figures of a finished search without hits. -/
def barrenStats : Stats := { settledStats with storedHits := 0 }

/-- Two finished searches whose sizes just fit in a word together. -/
def hoard : List Candidate := [⟨1, hoardedStats⟩, ⟨5, barrenStats⟩]

/-- Limits by which as much memory has to be free as a word can count. -/
def hoardLimits : Limits :=
  { (Settings.standard 1).limits with targetFreeMegabytes := 18446744073709551615 }

theorem plan_arithmetic_is_exact_in_hoard :
    make hoard hoardLimits 0 =
      .ok ⟨[(0, .evict .lowMemory), (1, .evict .lowMemory)], 18446744073709551600⟩ ∧
    makeChecked hoard hoardLimits 0 = (make hoard hoardLimits 0).mapError .overflow ∧
    makeChecked (hoard ++ [⟨3, settledStats⟩]) hoardLimits 0 = .error (.overflow .addition) ∧
    (ranked hoard).reverse = [(⟨1, hoardedStats⟩, 0)] ++ [(⟨5, barrenStats⟩, 1)] ∧
    FirstPass.IsExact ⟨1, 0, 15, true, [(0, .evict .lowMemory)]⟩ hoard hoardLimits 0
      [(⟨5, barrenStats⟩, 1)] := by
  have ranking : rank Candidate.worthiness hoard =
      [(⟨5, barrenStats⟩, 1), (⟨1, hoardedStats⟩, 0)] := by
    simp [rank, hoard, List.mergeSort, outranks]
  have order : (ranked hoard).reverse = [(⟨1, hoardedStats⟩, 0)] ++ [(⟨5, barrenStats⟩, 1)] := by
    rw [ranked, ranking]
    rfl
  have made : make hoard hoardLimits 0 =
      .ok ⟨[(0, .evict .lowMemory), (1, .evict .lowMemory)], 18446744073709551600⟩ := by
    rw [make, ranking]
    rfl
  have passed : [((⟨1, hoardedStats⟩ : Candidate), 0)].foldl (FirstPass.visit hoardLimits)
      (.start hoardLimits 0 hoard.length 18446744073709551600) =
        ⟨1, 0, 15, true, [(0, .evict .lowMemory)]⟩ := by decide
  obtain ⟨checked, _, _, accounts⟩ := plan_arithmetic_is_exact hoard hoardLimits 0
  obtain ⟨_, _, fails, _⟩ := plan_arithmetic_is_exact (hoard ++ [⟨3, settledStats⟩]) hoardLimits 0
  refine ⟨made, checked, (fails _).mpr ?_, order, passed ▸ accounts _ made _ _ order⟩
  exact ⟨hoard, ⟨3, settledStats⟩, [], rfl, by decide, by decide, rfl⟩

end Plan

end SweptCache
