import SweptCache.Proofs.ConcurrencyRule

/-!
# The standard scores

The standard policy takes points away from a score one penalty after the other,
and each time cuts the score off at the least one. As every penalty only lowers
the score, this comes to one cut at the end (`Policy.toInt_standard`). So a score
can be told in numbers without bounds (`Policy.exactScore`), and it does not rise
when the hits or the times of an entry grow (`Policy.HasGrown.standard_le`).

The bonus of a finished search makes up for so many points of penalties and no
more. A finished search ranks above all unfinished ones as long as its penalties
stay below the bonus, and then a sweep looks at it after all of them
(`Policy.outranks_all_iff`). A search that has gone without access for twelve
days has used the bonus up, and so has one with a hundred thousand million hits.
-/

namespace SweptCache

namespace Duration

/-- A longer time has at least as many milliseconds. -/
theorem milliseconds_mono {shorter longer : Duration} (grows : shorter ≤ longer) :
    shorter.milliseconds ≤ longer.milliseconds := Nat.div_le_div_right grows

/-- The milliseconds of a word of seconds fit in two words. -/
theorem milliseconds_lt {duration : Duration} (inWord : duration.seconds < wordSize) :
    duration.milliseconds < 2 ^ 128 := by
  simp only [seconds, milliseconds, nanosecondsPerSecond, nanosecondsPerMillisecond,
    wordSize] at inWord ⊢
  omega

end Duration

namespace Score

theorem greatest_eq : greatest = 9223372036854775807 := rfl

theorem least_eq : least = -9223372036854775808 := rfl

/-- Scores lie between the least one and the greatest one. -/
theorem toInt_bounds (score : Score) : least ≤ score.toInt ∧ score.toInt ≤ greatest :=
  ⟨score.minValue_le_toInt, score.toInt_le⟩

/-- A penalty is worth its points, up to the greatest score. -/
theorem toInt_penalty (points : Nat) : (penalty points).toInt = min (points : Int) greatest := by
  rw [penalty, Int64.toInt_ofInt_of_le]
  all_goals
    rw [greatest_eq]
    omega

/-- A difference of scores is cut off at both ends. -/
theorem toInt_less (score reduction : Score) :
    (score.less reduction).toInt = max least (min greatest (score.toInt - reduction.toInt)) := by
  rw [less, Int64.toInt_ofInt_of_le]
  all_goals
    rw [greatest_eq, least_eq]
    omega

/-- The points of a penalty, cut off at the greatest score. -/
def points (amount : Nat) : Int := min (amount : Int) greatest

theorem points_nonneg (amount : Nat) : 0 ≤ points amount :=
  le_min (Int.natCast_nonneg amount) (by decide)

theorem points_mono {fewer more : Nat} (grows : fewer ≤ more) : points fewer ≤ points more :=
  min_le_min_right greatest (Int.ofNat_le.mpr grows)

/-- A penalty lowers a score, so that it is cut off at the least one only. -/
theorem toInt_less_penalty (score : Score) (amount : Nat) :
    (score.less (penalty amount)).toInt = max least (score.toInt - points amount) := by
  have atMost := score.toInt_bounds.2
  have nonneg := points_nonneg amount
  rw [toInt_less, toInt_penalty, ← points, min_eq_right (by omega)]

/-- A score that is cut off and lowered is lowered first and then cut off. -/
theorem cut_sub {score lost : Int} (nonneg : 0 ≤ lost) :
    max least (max least score - lost) = max least (score - lost) := by
  omega

end Score

namespace Policy

/-- The points that an entry starts from. -/
def start (stats : Stats) : Int := if stats.isDone then finishedBonus.toInt else 0

/-- The points that an entry loses for the time without access. -/
def idlePoints (stats : Stats) : Int := Score.points stats.sinceLastAccess.milliseconds

/-- The points that an unfinished entry loses for the time it has been running. -/
def runningPoints (stats : Stats) : Int :=
  if stats.isDone then 0
  else Score.points (stats.waited.milliseconds / runningMillisecondsPerPoint)

/-- The points that an entry loses for its hits. -/
def sizePoints (stats : Stats) : Int := Score.points (stats.storedHits.toNat / hitsPerPoint)

/-- All the points that an entry loses. -/
def lostPoints (stats : Stats) : Int := idlePoints stats + runningPoints stats + sizePoints stats

variable {stats finished unfinished : Stats}

/-- No entry gains points by what it loses. -/
theorem lostPoints_nonneg (stats : Stats) : 0 ≤ lostPoints stats := by
  have idle : 0 ≤ idlePoints stats := Score.points_nonneg _
  have size : 0 ≤ sizePoints stats := Score.points_nonneg _
  have running : 0 ≤ runningPoints stats := by
    rw [runningPoints]
    split
    · exact Int.le_refl 0
    · exact Score.points_nonneg _
  rw [lostPoints]
  omega

/-- The standard score is what an entry starts from less what it loses, cut off once. -/
theorem toInt_standard (stats : Stats) :
    (standard stats).toInt = max Score.least (start stats - lostPoints stats) := by
  have size : 0 ≤ sizePoints stats := Score.points_nonneg _
  cases done : stats.isDone with
  | true =>
    simp only [standard, done, if_true, Score.toInt_less_penalty, start, lostPoints,
      runningPoints]
    rw [← idlePoints, ← sizePoints, Score.cut_sub size]
    congr 1
    omega
  | false =>
    have running : 0 ≤ Score.points (stats.waited.milliseconds / runningMillisecondsPerPoint) :=
      Score.points_nonneg _
    simp only [standard, done, Bool.false_eq_true, if_false, Score.toInt_less_penalty, start,
      lostPoints, runningPoints]
    rw [← idlePoints, ← sizePoints, Score.cut_sub running, Score.cut_sub size]
    congr 1
    simp only [Int64.toInt_zero]
    omega

/-- The score of an entry in numbers without bounds. Only the penalties for times are cut off. -/
def exactScore (stats : Stats) : Int :=
  let idle : Int := min stats.sinceLastAccess.milliseconds (2 ^ 63 - 1)
  let size : Int := stats.storedHits.toNat / 100
  if stats.isDone then 10 ^ 9 - idle - size
  else
    let running : Int := min (stats.waited.milliseconds / 2) (2 ^ 63 - 1)
    0 - idle - running - size

/-- A word of hits costs fewer points than the greatest score. -/
theorem sizePoints_eq (stats : Stats) :
    sizePoints stats = (stats.storedHits.toNat : Int) / 100 := by
  have inWord := stats.storedHits.toNat_lt
  rw [sizePoints, Score.points, Score.greatest_eq, hitsPerPoint]
  omega

/-- What an entry starts from less what it loses is its score in numbers without bounds. -/
theorem start_sub_lostPoints (stats : Stats) :
    start stats - lostPoints stats = exactScore stats := by
  have bonus : finishedBonus.toInt = 10 ^ 9 := rfl
  rw [start, lostPoints, sizePoints_eq, idlePoints, runningPoints, exactScore]
  cases stats.isDone with
  | true =>
    simp only [if_true, Score.points, Score.greatest_eq, bonus]
    omega
  | false =>
    simp only [Bool.false_eq_true, if_false, Score.points, Score.greatest_eq,
      runningMillisecondsPerPoint]
    omega

/-- No score is above the bonus. -/
theorem exactScore_le (stats : Stats) : exactScore stats ≤ 10 ^ 9 := by
  have lost := lostPoints_nonneg stats
  have bonus : finishedBonus.toInt = 10 ^ 9 := rfl
  rw [← start_sub_lostPoints, start]
  split <;> omega

/-- Figures that have grown, for an entry that is finished as it was, or unfinished as it was. The
running time of a finished one does not matter. -/
structure HasGrown (stats grown : Stats) : Prop where
  sameKind : grown.isDone = stats.isDone
  storedHits : stats.storedHits ≤ grown.storedHits
  sinceLastAccess : stats.sinceLastAccess ≤ grown.sinceLastAccess
  waited : stats.isDone = false → stats.waited ≤ grown.waited

/-- An entry loses no fewer points when its figures have grown. -/
theorem HasGrown.lostPoints_le {grown : Stats} (hasGrown : HasGrown stats grown) :
    lostPoints stats ≤ lostPoints grown := by
  have idle : idlePoints stats ≤ idlePoints grown :=
    Score.points_mono (Duration.milliseconds_mono hasGrown.sinceLastAccess)
  have size : sizePoints stats ≤ sizePoints grown :=
    Score.points_mono (Nat.div_le_div_right (UInt64.le_iff_toNat_le.mp hasGrown.storedHits))
  have running : runningPoints stats ≤ runningPoints grown := by
    rw [runningPoints, runningPoints, hasGrown.sameKind]
    split
    next => exact Int.le_refl 0
    next unfinished =>
      have longer := Duration.milliseconds_mono (hasGrown.waited (by simpa using unfinished))
      exact Score.points_mono (Nat.div_le_div_right longer)
  rw [lostPoints, lostPoints]
  omega

/-- No score rises when the figures of its entry grow. -/
theorem HasGrown.standard_le {grown : Stats} (hasGrown : HasGrown stats grown) :
    standard grown ≤ standard stats := by
  have lost := hasGrown.lostPoints_le
  have sameStart : start grown = start stats := by rw [start, start, hasGrown.sameKind]
  rw [Int64.le_iff_toInt_le, toInt_standard, toInt_standard, sameStart]
  omega

/-- The score that the standard policy gives is the one in numbers without bounds, cut off once at
the least score. It is never above the bonus, and the milliseconds from which it is computed fit in
two words. It does not rise when the hits of an entry grow, or the time without access, or the
running time of an unfinished one. -/
theorem standard_score_is_exact (stats : Stats) :
    (standard stats).toInt = max (-2 ^ 63) (exactScore stats) ∧
    exactScore stats ≤ 10 ^ 9 ∧
    (∀ duration : Duration, duration.seconds < wordSize → duration.milliseconds < 2 ^ 128) ∧
    ∀ grown, HasGrown stats grown → standard grown ≤ standard stats := by
  refine ⟨?_, exactScore_le stats, fun _ => Duration.milliseconds_lt,
    fun _ hasGrown => hasGrown.standard_le⟩
  rw [toInt_standard, start_sub_lostPoints, Score.least_eq]
  omega

/-- The figures of a search that has just been started. -/
def newStats : Stats where
  status := .running
  searchDone := false
  storedHits := 0
  sinceCreation := .zero
  sinceLastAccess := .zero
  waited := .zero
  unused := .zero
  isCount := false

/-- The figures of a search that has been running for a word of seconds, with a word of hits. -/
def hugeStats : Stats :=
  { newStats with
    storedHits := 18446744073709551615
    sinceCreation := .ofSeconds 18446744073709551615
    sinceLastAccess := .ofSeconds 18446744073709551615
    waited := .ofSeconds 18446744073709551615 }

theorem standard_score_is_exact_of_huge :
    HasGrown newStats hugeStats ∧ standard hugeStats ≤ standard newStats ∧
      (standard hugeStats).toInt = -2 ^ 63 ∧ exactScore hugeStats < -2 ^ 64 ∧
      hugeStats.waited.seconds < wordSize ∧ hugeStats.waited.milliseconds < 2 ^ 128 := by
  have hasGrown : HasGrown newStats hugeStats := ⟨rfl, by decide, by decide, fun _ => by decide⟩
  have inWord : hugeStats.waited.seconds < wordSize := by decide
  have below : exactScore hugeStats < -2 ^ 64 := by decide
  obtain ⟨isExact, _, fits, _⟩ := standard_score_is_exact hugeStats
  refine ⟨hasGrown, (standard_score_is_exact newStats).2.2.2 hugeStats hasGrown, ?_, below, inWord,
    fits _ inWord⟩
  rw [isExact]
  omega

/-- A finished search has a higher score than an unfinished one if it has lost fewer points than
the bonus and the other's losses together, and has not lost all there are. -/
theorem standard_lt_iff (done : finished.isDone = true) (running : unfinished.isDone = false) :
    standard unfinished < standard finished ↔
      lostPoints finished < finishedBonus.toInt + lostPoints unfinished ∧
        lostPoints finished < finishedBonus.toInt - Score.least := by
  rw [Int64.lt_iff_toInt_lt, toInt_standard, toInt_standard, start, start, if_pos done, running,
    if_neg (by simp)]
  omega

/-- Whether the time without access and the hits of an entry cost fewer points than the bonus. -/
def IsWithinBonus (stats : Stats) : Prop :=
  ((stats.sinceLastAccess.milliseconds + stats.storedHits.toNat / hitsPerPoint : Nat) : Int) <
    finishedBonus.toInt

instance (stats : Stats) : Decidable (IsWithinBonus stats) :=
  inferInstanceAs (Decidable (_ < finishedBonus.toInt))

/-- A finished search is within the bonus if it has lost fewer points than that. -/
theorem isWithinBonus_iff (done : stats.isDone = true) :
    IsWithinBonus stats ↔ lostPoints stats < finishedBonus.toInt := by
  have bonus : finishedBonus.toInt = 1000000000 := rfl
  rw [IsWithinBonus, lostPoints, idlePoints, runningPoints, if_pos done, sizePoints, Score.points,
    Score.points, Score.greatest_eq, bonus]
  generalize stats.storedHits.toNat / hitsPerPoint = size
  omega

/-- A finished search within the bonus ranks above all unfinished ones, and no other does. -/
theorem outranks_all_iff (done : finished.isDone = true) :
    (∀ unfinished : Stats, unfinished.isDone = false →
      standard unfinished < standard finished) ↔ IsWithinBonus finished := by
  rw [isWithinBonus_iff done]
  constructor
  · intro outranks
    have outranksNew := (standard_lt_iff done rfl).mp (outranks newStats rfl)
    have losesNothing : lostPoints newStats = 0 := by decide
    omega
  · intro within unfinished running
    have lost := lostPoints_nonneg unfinished
    refine (standard_lt_iff done running).mpr ⟨by omega, ?_⟩
    rw [Score.least_eq]
    omega

/-- If every finished candidate has a higher score than every unfinished one, the first pass of a
sweep looks at all unfinished ones before it looks at a finished one. -/
theorem pairwise_of_outranks {candidates : List Candidate}
    (scored : ∀ candidate ∈ candidates, candidate.worthiness = standard candidate.stats)
    (above : ∀ first ∈ candidates, ∀ second ∈ candidates, first.stats.isDone = true →
      second.stats.isDone = false → standard second.stats < standard first.stats) :
    (Plan.ranked candidates).reverse.Pairwise fun earlier later =>
      earlier.1.stats.isDone = true → later.1.stats.isDone = true := by
  have isCandidate : ∀ item ∈ Plan.ranked candidates, item.1 ∈ candidates := fun item member =>
    List.fst_mem_of_mem_zipIdx (Plan.mem_ranked_iff.mp member)
  rw [List.pairwise_reverse]
  refine (pairwise_rank Candidate.worthiness candidates).imp_of_mem ?_
  intro worthier other worthierMember otherMember outranks done
  by_contra running
  have worthierIs := isCandidate worthier worthierMember
  have otherIs := isCandidate other otherMember
  have isAbove := above other.1 otherIs worthier.1 worthierIs done (by simpa using running)
  rw [Int64.lt_iff_toInt_lt, ← scored worthier.1 worthierIs, ← scored other.1 otherIs] at isAbove
  rw [outranks_iff] at outranks
  omega

/-- The points of the bonus decide how finished and unfinished searches rank by the standard policy.
A finished one ranks above an unfinished one exactly if it has lost fewer points than the bonus and
the other's losses together, and has not come to the least score; and above all of them exactly if
its time without access and its hits cost less than the bonus. If that holds of all finished
candidates of a sweep, its first pass looks at no unfinished one after a finished one. -/
theorem finished_outrank_unfinished_within_bonus (done : finished.isDone = true)
    {candidates : List Candidate}
    (scored : ∀ candidate ∈ candidates, candidate.worthiness = standard candidate.stats) :
    (∀ unfinished : Stats, unfinished.isDone = false →
      (standard unfinished < standard finished ↔
        lostPoints finished < finishedBonus.toInt + lostPoints unfinished ∧
          lostPoints finished < finishedBonus.toInt - Score.least)) ∧
    ((∀ unfinished : Stats, unfinished.isDone = false →
      standard unfinished < standard finished) ↔ IsWithinBonus finished) ∧
    ((∀ candidate ∈ candidates, candidate.stats.isDone = true → IsWithinBonus candidate.stats) →
      (Plan.ranked candidates).reverse.Pairwise fun earlier later =>
        earlier.1.stats.isDone = true → later.1.stats.isDone = true) := by
  refine ⟨fun _ running => standard_lt_iff done running, outranks_all_iff done, fun within => ?_⟩
  refine pairwise_of_outranks scored fun first firstIs second _ firstDone secondRunning => ?_
  exact (outranks_all_iff firstDone).mpr (within first firstIs firstDone) second.stats secondRunning

/-- The figures of a finished search that nobody has asked for in twenty-three days. -/
def dormantStats : Stats where
  status := .done
  searchDone := true
  storedHits := 0
  sinceCreation := .ofSeconds 2000001
  sinceLastAccess := .ofSeconds 2000000
  waited := .ofSeconds 1
  unused := .ofSeconds 2000000
  isCount := false

/-- The figures of a search that has been running for five minutes and a second. -/
def overdueStats : Stats :=
  { newStats with
    sinceCreation := .ofSeconds 301, sinceLastAccess := .ofSeconds 301, waited := .ofSeconds 301 }

/-- The figures of a finished search that somebody has asked for a minute ago. -/
def recentStats : Stats := { dormantStats with sinceLastAccess := .ofSeconds 60 }

theorem finished_outrank_unfinished_within_bonus_of_recent :
    IsWithinBonus recentStats ∧ standard overdueStats < standard recentStats ∧
      (Plan.ranked [⟨standard recentStats, recentStats⟩,
          ⟨standard overdueStats, overdueStats⟩]).reverse.Pairwise fun earlier later =>
        earlier.1.stats.isDone = true → later.1.stats.isDone = true := by
  have within : IsWithinBonus recentStats := by decide
  have scored : ∀ candidate ∈ ([⟨standard recentStats, recentStats⟩,
      ⟨standard overdueStats, overdueStats⟩] : List Candidate),
        candidate.worthiness = standard candidate.stats := by simp
  have done : recentStats.isDone = true := rfl
  obtain ⟨_, outranks, visits⟩ := finished_outrank_unfinished_within_bonus done scored
  refine ⟨within, outranks.mpr within overdueStats rfl, visits ?_⟩
  simp [within, show overdueStats.isDone = false from rfl]

/-- Limits by which finished searches are evicted after an hour. -/
def hourlyLimits : Limits :=
  { (Settings.standard 8).limits with maxAge := some (.ofSeconds 3600), targetFreeMegabytes := 0 }

/-- A finished search that nobody has asked for in a long time ranks below an unfinished one, and a
sweep looks at it first. -/
theorem dormant_result_ranks_below_search :
    dormantStats.isDone = true ∧ overdueStats.isDone = false ∧
      standard dormantStats = -1000000000 ∧ standard overdueStats = -451500 ∧
      ¬ standard overdueStats < standard dormantStats ∧
      (Plan.ranked [⟨standard dormantStats, dormantStats⟩,
          ⟨standard overdueStats, overdueStats⟩]).reverse =
        [(⟨standard dormantStats, dormantStats⟩, 0), (⟨standard overdueStats, overdueStats⟩, 1)] ∧
      Plan.make [⟨standard dormantStats, dormantStats⟩, ⟨standard overdueStats, overdueStats⟩]
          hourlyLimits 64000000000 =
        .ok ⟨[(0, .evict .tooOld), (1, .abort .tookTooLong)], 0⟩ := by
  have dormant : standard dormantStats = -1000000000 := by decide
  have overdue : standard overdueStats = -451500 := by decide
  have ranking : rank Candidate.worthiness
      [⟨-1000000000, dormantStats⟩, ⟨-451500, overdueStats⟩] =
        [(⟨-451500, overdueStats⟩, 1), (⟨-1000000000, dormantStats⟩, 0)] := by
    simp [rank, List.mergeSort, outranks]
  rw [dormant, overdue, Plan.make, Plan.ranked, ranking]
  exact ⟨rfl, rfl, rfl, rfl, by decide, rfl, rfl⟩

end Policy

end SweptCache
