import SweptCache.Entry.Stats

/-!
# Ranking entries by worthiness

A `Policy` scores an entry from its figures; the higher the score, the longer
the entry is kept. `rank` lists items with their positions from most to least
worthy, and of equally worthy ones the earlier first; it loses none of them
(`rank_perm`) and puts each behind all that outrank it (`pairwise_rank`).

The standard policy favours small, recently accessed, finished entries. Its
penalties are cut off at the largest score, and what they are taken from is cut
off at the least one.
-/

namespace SweptCache

/-- How worthy an entry is of being kept. -/
abbrev Score := Int64

/-- A way to score entries from their figures. -/
abbrev Policy := Stats → Score

namespace Score

/-- The largest score. -/
def greatest : Int := Int64.maxValue.toInt

/-- The least score. -/
def least : Int := Int64.minValue.toInt

/-- A penalty of so many points, cut off at the largest score. -/
def penalty (points : Nat) : Score := Int64.ofInt (min (points : Int) greatest)

/-- A score less another one, cut off at both ends of the range. -/
def less (score reduction : Score) : Score :=
  Int64.ofInt (max least (min greatest (score.toInt - reduction.toInt)))

/-- Whether a score is positive, negative or neither. -/
def sign (score : Score) : Int := score.toInt.sign

end Score

namespace Policy

/-- The points by which a finished entry starts above a running one. -/
def finishedBonus : Score := 1000000000

/-- The stored hits that cost one point. -/
def hitsPerPoint : Nat := 100

/-- The milliseconds of running that cost one point. -/
def runningMillisecondsPerPoint : Nat := 2

/-- A finished entry starts from the bonus and loses a point for every
millisecond without access and for every so many hits. An unfinished one starts
from nothing and loses points for its running time as well. -/
def standard : Policy := fun stats =>
  let size := Score.penalty (stats.storedHits.toNat / hitsPerPoint)
  let idle := Score.penalty stats.sinceLastAccess.milliseconds
  if stats.isDone then (finishedBonus.less idle).less size
  else
    let running := Score.penalty (stats.waited.milliseconds / runningMillisecondsPerPoint)
    ((Score.less 0 idle).less running).less size

/-- The more stored hits the worthier, read as a signed word. -/
def mostHits : Policy := fun stats => stats.storedHits.toInt64

/-- The fewer stored hits the worthier, read as a signed word and negated within the word. -/
def fewestHits : Policy := fun stats => -stats.storedHits.toInt64

end Policy

/-- Whether an item at a position comes before another: the worthier one does,
and of two equally worthy ones the one at the earlier position. -/
def outranks (score : Score) (position : Nat) (otherScore : Score) (otherPosition : Nat) : Bool :=
  decide (otherScore < score) || (decide (score = otherScore) && decide (position ≤ otherPosition))

/-- The order of items as an order of numbers. -/
theorem outranks_iff (score : Score) (position : Nat) (otherScore : Score) (otherPosition : Nat) :
    outranks score position otherScore otherPosition = true ↔
      otherScore.toInt < score.toInt ∨
        score.toInt = otherScore.toInt ∧ position ≤ otherPosition := by
  simp [outranks, Int64.lt_iff_toInt_lt, Int64.toInt_inj]

/-- Items with their positions, from most to least worthy. -/
def rank {α : Type} (score : α → Score) (items : List α) : List (α × Nat) :=
  items.zipIdx.mergeSort fun first second =>
    outranks (score first.1) first.2 (score second.1) second.2

/-- Ranking loses no item and adds none. -/
theorem rank_perm {α : Type} (score : α → Score) (items : List α) :
    (rank score items).Perm items.zipIdx := List.mergeSort_perm _ _

/-- Of two ranked items the one in front outranks the other. -/
theorem pairwise_rank {α : Type} (score : α → Score) (items : List α) :
    (rank score items).Pairwise fun first second =>
      outranks (score first.1) first.2 (score second.1) second.2 = true := by
  apply List.pairwise_mergeSort
  · intro first second third before after
    rw [outranks_iff] at before after ⊢
    omega
  · intro first second
    rw [Bool.or_eq_true, outranks_iff, outranks_iff]
    omega

end SweptCache
