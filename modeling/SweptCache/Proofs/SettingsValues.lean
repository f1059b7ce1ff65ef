import SweptCache.Proofs.SkippedTexts
import SweptCache.Settings.Reader

/-!
# Reading the values of options

The value of an option is read exactly if it is written as one: a capacity as
its decimal digits or as `null`, any other amount as its decimal digits. A value
that is written in another way, well-formed as it may be, is not read.
-/

namespace SweptCache

open SweptCache.Json

/-- The text of an assigned value. -/
def Assignment.written (assignment : Assignment) : List Char := assignment.valueToJson.write

namespace Json

/-- The text of an assigned value is one of a value. -/
theorem isText_written (assignment : Assignment) : IsText .value assignment.written := by
  have number : ∀ amount : UInt64, IsText .value (digits amount.toNat) :=
    fun amount => .number (isWrittenAs_digits amount.toNat)
  cases assignment with
  | capacity option value =>
    cases value with
    | none => exact .nullWord
    | some amount => exact number amount
  | amount option amount => exact number amount

section Values

variable {before value text rest remainder : List Char}

/-- The digits of an amount start like a number. -/
theorem exists_start_digits (value : Nat) :
    ∃ first rest, digits value = first :: rest ∧ startsNumber first = true :=
  (isWrittenAs_digits value).exists_start

/-- A value is read as an amount if it is written as one, and only then. -/
theorem scanAmount_eq_ok_iff (isBefore : IsBlanks before) (isValue : IsText .value value)
    (ends : Ends rest) {amount : UInt64} :
    scanAmount (before ++ (value ++ rest)) = .ok (amount, remainder) ↔
      value = digits amount.toNat ∧ remainder = rest := by
  simp only [scanAmount, dropBlanks_append isBefore, isValue.dropBlanks_eq]
  obtain ⟨first, following, rfl, _⟩ := isValue.exists_start
  by_cases starts : startsNumber first = true
  · obtain ⟨literal, written⟩ := isValue.exists_literal starts
    have isAmount : ∀ amount, literal.amount? = some amount ↔
        first :: following = digits amount.toNat := fun _ => written.amount?_eq_some_iff
    have scanned := scanNumber_append .truncated written ends
    rw [if_pos (by simpa using starts), scanNumberInRange, scanned]
    cases known : literal.amount? with
    | none =>
      have noAmount : first :: following ≠ digits amount.toNat := by
        intro isDigits
        rw [(isAmount amount).mpr isDigits] at known
        cases known
      simp only [noAmount, false_and, iff_false]
      split
      · simp
      next inRange =>
        split at inRange
        · cases inRange
        · cases inRange
          simp [known]
    | some found =>
      have isDigits := (isAmount found).mp known
      simp only [reduceCtorEq, false_and, if_false, known, Except.ok.injEq, Prod.mk.injEq]
      constructor
      · rintro ⟨rfl, rfl⟩
        exact ⟨isDigits, rfl⟩
      · rintro ⟨sameDigits, rfl⟩
        rw [(isAmount amount).mpr sameDigits, Option.some.injEq] at known
        exact ⟨known.symm, rfl⟩
  · rw [if_neg (by simpa using starts)]
    refine ⟨fun equal => (by cases equal), ?_⟩
    rintro ⟨isDigits, _⟩
    obtain ⟨digit, others, areDigits, startsDigits⟩ := exists_start_digits amount.toNat
    rw [areDigits] at isDigits
    cases isDigits
    exact absurd startsDigits starts

/-- What is read as an amount is written as one, behind blanks. -/
theorem exists_of_scanAmount {amount : UInt64} (found : scanAmount text = .ok (amount, rest)) :
    ∃ before, IsBlanks before ∧ text = before ++ (digits amount.toNat ++ rest) := by
  obtain ⟨before, isBefore, isText⟩ := exists_dropBlanks text
  simp only [scanAmount] at found
  split at found
  next =>
    split at found
    next => cases found
    next scanned =>
      split at found
      next isAmount =>
        cases found
        unfold scanNumberInRange at scanned
        split at scanned
        next => cases scanned
        next inner =>
          split at scanned
          next => cases scanned
          next =>
            cases scanned
            obtain ⟨written, isWritten, isNumber⟩ := isWrittenAs_of_scanNumber inner
            rw [isWritten.amount?_eq_some_iff] at isAmount
            exact ⟨before, isBefore, by rw [isText, isNumber, isAmount]⟩
      next => cases found
  next => cases found

/-- A value that starts like `null` is that word. -/
theorem eq_null_of_isText {following : List Char} (isValue : IsText .value ('n' :: following)) :
    following = ['u', 'l', 'l'] := by
  cases isValue with
  | nullWord => rfl
  | number written =>
    obtain ⟨first, rest, equal, starts⟩ := written.exists_start
    cases equal
    exact absurd starts Bool.false_ne_true

/-- No amount is written as `null`. -/
theorem digits_ne_null (value : Nat) : digits value ≠ ['n', 'u', 'l', 'l'] := by
  obtain ⟨first, rest, isDigits, starts⟩ := exists_start_digits value
  rw [isDigits]
  intro equal
  cases equal
  exact absurd starts Bool.false_ne_true

/-- A value is read as a capacity if it is written as one, and only then. -/
theorem scanCapacity_eq_ok_iff (isBefore : IsBlanks before) (isValue : IsText .value value)
    (ends : Ends rest) (option : CapacityOption) {capacity : Option UInt64} :
    scanCapacity (before ++ (value ++ rest)) = .ok (capacity, remainder) ↔
      value = (Assignment.capacity option capacity).written ∧ remainder = rest := by
  have dropped : dropBlanks (before ++ (value ++ rest)) = value ++ rest := by
    rw [dropBlanks_append isBefore, isValue.dropBlanks_eq]
  by_cases isNull : value = ['n', 'u', 'l', 'l']
  · have scanned : scanCapacity (before ++ (value ++ rest)) = .ok (none, rest) := by
      rw [scanCapacity, dropped, isNull]
      rfl
    rw [scanned, Except.ok.injEq, Prod.mk.injEq, eq_comm (a := rest)]
    refine and_congr_left fun _ => ?_
    cases capacity with
    | none => exact iff_of_true rfl isNull
    | some amount =>
      refine iff_of_false (by simp) ?_
      rw [isNull]
      exact (digits_ne_null amount.toNat).symm
  · have scanned : scanCapacity (before ++ (value ++ rest)) =
        (scanAmount (before ++ (value ++ rest))).map fun found => (some found.1, found.2) := by
      rw [scanCapacity, dropped]
      split
      next following startsNull =>
        obtain ⟨first, others, rfl, _⟩ := isValue.exists_start
        cases startsNull
        exact absurd (by rw [eq_null_of_isText isValue]) isNull
      next => cases scanAmount (before ++ (value ++ rest)) <;> rfl
    rw [scanned]
    cases capacity with
    | none =>
      refine iff_of_false ?_ fun equal => isNull equal.1
      cases scanAmount (before ++ (value ++ rest)) <;> simp [Except.map]
    | some amount =>
      refine Iff.trans ?_ (scanAmount_eq_ok_iff isBefore isValue ends)
      cases scanAmount (before ++ (value ++ rest)) <;> simp [Except.map, Prod.ext_iff]

/-- What is read as a capacity is written as one, behind blanks. -/
theorem exists_of_scanCapacity (option : CapacityOption) {capacity : Option UInt64}
    (found : scanCapacity text = .ok (capacity, rest)) :
    ∃ before, IsBlanks before ∧
      text = before ++ ((Assignment.capacity option capacity).written ++ rest) := by
  obtain ⟨before, isBefore, isText⟩ := exists_dropBlanks text
  unfold scanCapacity at found
  split at found
  next dropped =>
    split at found
    next => cases found
    next expected =>
      cases found
      exact ⟨before, isBefore, by rw [isText, dropped, eq_append_of_expectWord expected]; rfl⟩
  next =>
    split at found
    next => cases found
    next scanned =>
      cases found
      exact exists_of_scanAmount scanned

end Values

end Json

namespace Assignment

variable {option : SettingsOption} {assignment : Assignment}
  {before value text rest remainder : List Char}

theorem option_eq_capacity_iff {option : CapacityOption} :
    assignment.option = .capacity option ↔ ∃ value, assignment = .capacity option value := by
  cases assignment <;> simp [Assignment.option, eq_comm]

theorem option_eq_amount_iff {option : AmountOption} :
    assignment.option = .amount option ↔ ∃ value, assignment = .amount option value := by
  cases assignment <;> simp [Assignment.option, eq_comm]

theorem scan_capacity_eq_ok_iff {option : CapacityOption} :
    scan (.capacity option) text = .ok (assignment, rest) ↔
      ∃ value, assignment = .capacity option value ∧ scanCapacity text = .ok (value, rest) := by
  rw [scan]
  split
  next failed => simp [failed]
  next found => simp [found, eq_comm]

theorem scan_amount_eq_ok_iff {option : AmountOption} :
    scan (.amount option) text = .ok (assignment, rest) ↔
      ∃ value, assignment = .amount option value ∧ scanAmount text = .ok (value, rest) := by
  rw [scan]
  split
  next failed => simp [failed]
  next found => simp [found, eq_comm]

/-- Blanks in front of the value of an option do not matter. -/
theorem scan_dropBlanks (option : SettingsOption) (text : List Char) :
    scan option (dropBlanks text) = scan option text := by
  cases option with
  | capacity option => simp only [scan, scanCapacity, scanAmount, dropBlanks_dropBlanks]
  | amount option => simp only [scan, scanAmount, dropBlanks_dropBlanks]

/-- A value is read for an option if it is written as one of its values, and only then. -/
theorem scan_eq_ok_iff (isBefore : IsBlanks before) (isValue : IsText .value value)
    (ends : Ends rest) :
    scan option (before ++ (value ++ rest)) = .ok (assignment, remainder) ↔
      assignment.option = option ∧ value = assignment.written ∧ remainder = rest := by
  cases option with
  | capacity option =>
    rw [scan_capacity_eq_ok_iff, option_eq_capacity_iff]
    constructor
    · rintro ⟨capacity, rfl, found⟩
      exact ⟨⟨capacity, rfl⟩, (scanCapacity_eq_ok_iff isBefore isValue ends option).mp found⟩
    · rintro ⟨⟨capacity, rfl⟩, isWritten⟩
      exact ⟨capacity, rfl, (scanCapacity_eq_ok_iff isBefore isValue ends option).mpr isWritten⟩
  | amount option =>
    rw [scan_amount_eq_ok_iff, option_eq_amount_iff]
    constructor
    · rintro ⟨amount, rfl, found⟩
      exact ⟨⟨amount, rfl⟩, (scanAmount_eq_ok_iff isBefore isValue ends).mp found⟩
    · rintro ⟨⟨amount, rfl⟩, isWritten⟩
      exact ⟨amount, rfl, (scanAmount_eq_ok_iff isBefore isValue ends).mpr isWritten⟩

/-- What is read for an option is written as one of its values, behind blanks. -/
theorem exists_of_scan (found : scan option text = .ok (assignment, rest)) :
    ∃ before, IsBlanks before ∧ text = before ++ (assignment.written ++ rest) := by
  cases option with
  | capacity option =>
    obtain ⟨value, rfl, scanned⟩ := scan_capacity_eq_ok_iff.mp found
    exact exists_of_scanCapacity option scanned
  | amount option =>
    obtain ⟨value, rfl, scanned⟩ := scan_amount_eq_ok_iff.mp found
    exact exists_of_scanAmount scanned

end Assignment

end SweptCache
