import Mathlib.Data.List.Induction
import SweptCache.Json
import SweptCache.Proofs.JsonGrammar

/-!
# Reading numbers

`scanNumber` reads the numbers of the grammar and nothing else. In front of a
text by which no number goes on it takes exactly the number that stands there,
so that a number has one reading.

An amount has one spelling, which is its decimal digits, and a literal is an
amount exactly if that is how it is written.
-/

namespace SweptCache.Json

section Scanning

variable {atEnd : Fault} {text rest digits written : List Char}

/-- A text that starts with no digit. -/
def StopsDigits (text : List Char) : Prop := ∀ character ∈ text.head?, character.isDigit = false

theorem Ends.stopsDigits (ends : Ends text) : StopsDigits text :=
  fun character member => (ends character member).1

theorem spanDigits_append (areDigits : ∀ character ∈ digits, character.isDigit = true)
    (stops : StopsDigits rest) : spanDigits (digits ++ rest) = (digits, rest) := by
  have none : rest.takeWhile Char.isDigit = [] ∧ rest.dropWhile Char.isDigit = rest := by
    cases rest with
    | nil => exact ⟨rfl, rfl⟩
    | cons first rest =>
      have isOther : first.isDigit = false := stops first rfl
      simp [isOther]
  rw [spanDigits, List.takeWhile_append_of_pos areDigits, List.dropWhile_append_of_pos areDigits,
    none.1, none.2, List.append_nil]

theorem scanDigits_append (isDigits : IsDigits digits) (stops : StopsDigits rest) :
    scanDigits atEnd (digits ++ rest) = .ok (digits, rest) := by
  obtain ⟨present, areDigits⟩ := isDigits
  obtain ⟨first, others, rfl⟩ := List.exists_cons_of_ne_nil present
  rw [List.cons_append, scanDigits, if_pos (areDigits first List.mem_cons_self),
    spanDigits_append (fun character member => areDigits character (.tail _ member)) stops]

theorem isDigits_of_scanDigits (found : scanDigits atEnd text = .ok (digits, rest)) :
    IsDigits digits ∧ text = digits ++ rest := by
  cases text with
  | nil => cases found
  | cons first text =>
    simp only [scanDigits] at found
    split at found
    next isDigit =>
      cases found
      refine ⟨⟨List.cons_ne_nil _ _, ?_⟩, ?_⟩
      · rw [List.forall_mem_cons]
        exact ⟨isDigit, fun _ member => List.mem_takeWhile_imp member⟩
      · rw [List.cons_append, spanDigits, List.takeWhile_append_dropWhile]
    next => cases found

theorem scanWhole_append (isWhole : IsWhole digits) (stops : StopsDigits rest) :
    scanWhole atEnd (digits ++ rest) = .ok (digits, rest) := by
  obtain ⟨isDigits, noLeadingZero⟩ := isWhole
  rw [scanWhole, scanDigits_append isDigits stops]
  refine if_neg ?_
  rintro ⟨leadingZero, several⟩
  rw [noLeadingZero leadingZero] at several
  exact several rfl

theorem isWhole_of_scanWhole (found : scanWhole atEnd text = .ok (digits, rest)) :
    IsWhole digits ∧ text = digits ++ rest := by
  unfold scanWhole at found
  split at found
  next => cases found
  next scanned =>
    split at found
    next => cases found
    next alone =>
      cases found
      obtain ⟨isDigits, isPrefix⟩ := isDigits_of_scanDigits scanned
      refine ⟨⟨isDigits, ?_⟩, isPrefix⟩
      intro leadingZero
      have single : digits.length = 1 := by
        by_contra several
        exact alone ⟨leadingZero, several⟩
      obtain ⟨only, rfl⟩ := List.length_eq_one_iff.mp single
      rw [List.head?_cons, Option.some.injEq] at leadingZero
      rw [leadingZero]

theorem scanFraction_append {fraction : Option (List Char)}
    (isFraction : IsFraction fraction written) (stops : StopsDigits rest)
    (point : ∀ character ∈ rest.head?, character ≠ '.') :
    scanFraction atEnd (written ++ rest) = .ok (fraction, rest) := by
  cases isFraction with
  | absent =>
    rw [List.nil_append, scanFraction.eq_2]
    rintro following rfl
    exact point '.' rfl rfl
  | digits isDigits =>
    rw [List.cons_append, scanFraction, scanDigits_append isDigits stops]

theorem isFraction_of_scanFraction {fraction : Option (List Char)}
    (found : scanFraction atEnd text = .ok (fraction, rest)) :
    ∃ written, IsFraction fraction written ∧ text = written ++ rest := by
  unfold scanFraction at found
  split at found
  · split at found
    · cases found
    next scanned =>
      cases found
      obtain ⟨isDigits, rfl⟩ := isDigits_of_scanDigits scanned
      exact ⟨_, .digits isDigits, rfl⟩
  · cases found
    exact ⟨[], .absent, rfl⟩

/-- A sign is no digit. -/
theorem scanSign_of_isDigits (isDigits : IsDigits digits) (rest : List Char) :
    scanSign (digits ++ rest) = (false, digits ++ rest) := by
  obtain ⟨present, areDigits⟩ := isDigits
  obtain ⟨first, others, rfl⟩ := List.exists_cons_of_ne_nil present
  have isDigit := areDigits first List.mem_cons_self
  rw [List.cons_append, scanSign.eq_3]
  · rintro following equal
    injection equal with isMinus
    rw [isMinus] at isDigit
    exact absurd isDigit (by decide)
  · rintro following equal
    injection equal with isPlus
    rw [isPlus] at isDigit
    exact absurd isDigit (by decide)

theorem scanExponent_append {exponent : Option (Bool × List Char)}
    (isExponent : IsExponent exponent written) (ends : Ends rest) :
    scanExponent atEnd (written ++ rest) = .ok (exponent, rest) := by
  cases isExponent with
  | absent =>
    cases rest with
    | nil => rfl
    | cons first rest =>
      obtain ⟨_, _, small, large⟩ := ends first rfl
      rw [List.nil_append, scanExponent, if_neg (by simp [small, large])]
  | plain isMark isDigits =>
    rw [List.cons_append, scanExponent, if_pos isMark, scanSign_of_isDigits isDigits,
      scanDigits_append isDigits ends.stopsDigits]
  | plus isMark isDigits =>
    rw [List.cons_append, List.cons_append, scanExponent, if_pos isMark, scanSign,
      scanDigits_append isDigits ends.stopsDigits]
  | minus isMark isDigits =>
    rw [List.cons_append, List.cons_append, scanExponent, if_pos isMark, scanSign,
      scanDigits_append isDigits ends.stopsDigits]

/-- A sign in front of an exponent's digits, or none. -/
theorem scanSign_cases (text : List Char) :
    text = '-' :: (scanSign text).2 ∧ (scanSign text).1 = true ∨
    text = '+' :: (scanSign text).2 ∧ (scanSign text).1 = false ∨
    text = (scanSign text).2 ∧ (scanSign text).1 = false := by
  unfold scanSign
  split
  · exact .inl ⟨rfl, rfl⟩
  · exact .inr (.inl ⟨rfl, rfl⟩)
  · exact .inr (.inr ⟨rfl, rfl⟩)

theorem isExponent_of_scanExponent {exponent : Option (Bool × List Char)}
    (found : scanExponent atEnd text = .ok (exponent, rest)) :
    ∃ written, IsExponent exponent written ∧ text = written ++ rest := by
  unfold scanExponent at found
  split at found
  · cases found
    exact ⟨[], .absent, rfl⟩
  next mark following =>
    split at found
    next isMark =>
      split at found
      · cases found
      next digits remainder scanned =>
        cases found
        obtain ⟨isDigits, isPrefix⟩ := isDigits_of_scanDigits scanned
        rcases scanSign_cases following with ⟨signed, sign⟩ | ⟨signed, sign⟩ | ⟨signed, sign⟩
        · rw [sign]
          exact ⟨_, .minus isMark isDigits, by rw [signed, isPrefix]; rfl⟩
        · rw [sign]
          exact ⟨_, .plus isMark isDigits, by rw [signed, isPrefix]; rfl⟩
        · rw [sign]
          exact ⟨_, .plain isMark isDigits, by rw [signed, isPrefix]; rfl⟩
    next =>
      cases found
      exact ⟨[], .absent, rfl⟩

/-- No digit and no point follows where an exponent may. -/
theorem IsExponent.stops {exponent : Option (Bool × List Char)}
    (isExponent : IsExponent exponent written) (ends : Ends rest) :
    StopsDigits (written ++ rest) ∧ ∀ character ∈ (written ++ rest).head?, character ≠ '.' := by
  have isMark : ∀ mark, IsExponentMark mark → mark.isDigit = false ∧ mark ≠ '.' := by
    rintro mark (rfl | rfl) <;> decide
  cases isExponent with
  | absent => exact ⟨ends.stopsDigits, fun character member => (ends character member).2.1⟩
  | plain mark | plus mark | minus mark =>
    constructor
    · rintro character ⟨⟩
      exact (isMark _ mark).1
    · rintro character ⟨⟩
      exact (isMark _ mark).2

/-- No digit follows where a fraction may. -/
theorem IsFraction.stopsDigits {fraction : Option (List Char)}
    (isFraction : IsFraction fraction written) (stops : StopsDigits rest) :
    StopsDigits (written ++ rest) := by
  cases isFraction with
  | absent => exact stops
  | digits =>
    rintro character ⟨⟩
    rfl

/-- A minus is no digit. -/
theorem scanMinus_of_isWhole (isWhole : IsWhole digits) (rest : List Char) :
    scanMinus (digits ++ rest) = (false, digits ++ rest) := by
  obtain ⟨⟨present, areDigits⟩, _⟩ := isWhole
  obtain ⟨first, others, rfl⟩ := List.exists_cons_of_ne_nil present
  have isDigit := areDigits first List.mem_cons_self
  rw [List.cons_append, scanMinus.eq_2]
  rintro following equal
  injection equal with isMinus
  rw [isMinus] at isDigit
  exact absurd isDigit (by decide)

/-- In front of a text by which it does not go on, a number is read as it is written. -/
theorem scanNumber_append (atEnd : Fault) {literal : NumberLiteral}
    (isWritten : literal.IsWrittenAs written) (ends : Ends rest) :
    scanNumber atEnd (written ++ rest) = .ok (literal, rest) := by
  cases isWritten with
  | positive isWhole isFraction isExponent =>
    obtain ⟨stops, point⟩ := isExponent.stops ends
    rw [List.append_assoc, List.append_assoc, scanNumber, scanMinus_of_isWhole isWhole,
      scanWhole_append isWhole (isFraction.stopsDigits stops)]
    simp only [scanFraction_append isFraction stops point, scanExponent_append isExponent ends]
  | negative isWhole isFraction isExponent =>
    obtain ⟨stops, point⟩ := isExponent.stops ends
    rw [List.append_assoc, List.append_assoc, List.cons_append, scanNumber, scanMinus,
      scanWhole_append isWhole (isFraction.stopsDigits stops)]
    simp only [scanFraction_append isFraction stops point, scanExponent_append isExponent ends]

/-- What is read as a number is one. -/
theorem isWrittenAs_of_scanNumber {literal : NumberLiteral}
    (found : scanNumber atEnd text = .ok (literal, rest)) :
    ∃ written, literal.IsWrittenAs written ∧ text = written ++ rest := by
  unfold scanNumber at found
  split at found
  next => cases found
  next whole afterWhole wholeScanned =>
    split at found
    next => cases found
    next fraction afterFraction fractionScanned =>
      split at found
      next => cases found
      next exponent remainder exponentScanned =>
        cases found
        obtain ⟨isWhole, minusEq⟩ := isWhole_of_scanWhole wholeScanned
        obtain ⟨fractionText, isFraction, rfl⟩ := isFraction_of_scanFraction fractionScanned
        obtain ⟨exponentText, isExponent, rfl⟩ := isExponent_of_scanExponent exponentScanned
        unfold scanMinus at minusEq ⊢
        split at minusEq
        · exact ⟨_, .negative isWhole isFraction isExponent, by simp_all⟩
        · exact ⟨_, .positive isWhole isFraction isExponent, by simp_all⟩

end Scanning

section Amounts

theorem digit_cases {value : Nat} (small : value < 10) :
    (digit value).isDigit = true ∧ digitValue (digit value) = value ∧
      (digit value = '0' → value = 0) := by
  revert value
  decide

theorem digitValue_cases {character : Char} (isDigit : character.isDigit = true) :
    digitValue character < 10 ∧ digit (digitValue character) = character := by
  simp only [Char.isDigit, Bool.and_eq_true, decide_eq_true_eq, ge_iff_le, UInt32.le_iff_toNat_le]
    at isDigit
  obtain ⟨atLeast, atMost⟩ := isDigit
  have lower : 48 ≤ character.toNat := atLeast
  have upper : character.toNat ≤ 57 := atMost
  refine ⟨by unfold digitValue; omega, ?_⟩
  rw [digit, digitValue, Nat.add_sub_cancel' lower, Char.ofNat_toNat]

/-- A character behind a text that is there does not change how it starts. -/
theorem head?_append_singleton {text : List Char} (present : text ≠ []) (last : Char) :
    (text ++ [last]).head? = text.head? := by
  obtain ⟨first, rest, rfl⟩ := List.exists_cons_of_ne_nil present
  rfl

theorem valueOfDigits_append_singleton (digits : List Char) (last : Char) :
    valueOfDigits (digits ++ [last]) = valueOfDigits digits * 10 + digitValue last := by
  rw [valueOfDigits, List.foldl_append]
  rfl

/-- The decimal digits of a number stand for it. -/
theorem valueOfDigits_digits (value : Nat) : valueOfDigits (digits value) = value := by
  fun_induction digits value with
  | case1 value small => simp [valueOfDigits, (digit_cases small).2.1]
  | case2 value large ih =>
    rw [valueOfDigits_append_singleton, ih, (digit_cases (Nat.mod_lt value (by decide))).2.1]
    omega

/-- The decimal digits of a number are a spelling of it. -/
theorem isWhole_digits (value : Nat) : IsWhole (digits value) := by
  fun_induction digits value with
  | case1 value small =>
    refine ⟨⟨List.cons_ne_nil _ _, ?_⟩, ?_⟩
    · simp [(digit_cases small).1]
    · intro leadingZero
      rw [List.head?_cons, Option.some.injEq] at leadingZero
      rw [leadingZero]
  | case2 value large ih =>
    obtain ⟨⟨present, areDigits⟩, noLeadingZero⟩ := ih
    have isDigit := (digit_cases (Nat.mod_lt value (by decide : 0 < 10))).1
    refine ⟨⟨by simp, ?_⟩, ?_⟩
    · simpa [or_imp, forall_and, isDigit] using areDigits
    · intro leadingZero
      rw [head?_append_singleton present] at leadingZero
      have isZero := valueOfDigits_digits (value / 10)
      rw [noLeadingZero leadingZero] at isZero
      have zero : 0 = value / 10 := isZero
      omega

/-- A number has no other spelling without a leading zero than its decimal digits. -/
theorem digits_valueOfDigits {text : List Char} (isWhole : IsWhole text) :
    digits (valueOfDigits text) = text := by
  obtain ⟨⟨present, areDigits⟩, noLeadingZero⟩ := isWhole
  induction text using List.reverseRecOn with
  | nil => exact absurd rfl present
  | append_singleton text last ih =>
    have isLast := digitValue_cases (areDigits last (by simp))
    rw [valueOfDigits_append_singleton]
    by_cases alone : text = []
    · subst alone
      rw [digits, if_pos (by simpa [valueOfDigits] using isLast.1)]
      simp [valueOfDigits, isLast.2]
    · have noZero : text.head? ≠ some '0' := by
        intro leadingZero
        have isZero := noLeadingZero (by rw [head?_append_singleton alone, leadingZero])
        exact alone (by simpa using congrArg List.dropLast isZero)
      have shorter := ih (fun leadingZero => absurd leadingZero noZero) alone
        (fun character member => areDigits character (List.mem_append_left _ member))
      have positive : 0 < valueOfDigits text := by
        by_contra isZero
        rw [Nat.eq_zero_of_not_pos isZero] at shorter
        rw [← shorter, digits, if_pos (by decide)] at noZero
        exact noZero rfl
      rw [digits, if_neg (by omega), show (valueOfDigits text * 10 + digitValue last) / 10 =
        valueOfDigits text by omega, show (valueOfDigits text * 10 + digitValue last) % 10 =
        digitValue last by omega, shorter, isLast.2]

/-- The decimal digits of a number are its only spelling without a leading zero. -/
theorem isWhole_and_valueOfDigits_eq_iff {text : List Char} {value : Nat} :
    IsWhole text ∧ valueOfDigits text = value ↔ text = digits value := by
  constructor
  · rintro ⟨isWhole, rfl⟩
    exact (digits_valueOfDigits isWhole).symm
  · rintro rfl
    exact ⟨isWhole_digits value, valueOfDigits_digits value⟩

/-- The decimal digits of an amount are a number. -/
theorem isWrittenAs_digits (value : Nat) :
    NumberLiteral.IsWrittenAs ⟨false, digits value, none, none⟩ (digits value) := by
  simpa using NumberLiteral.IsWrittenAs.positive (isWhole_digits value) .absent .absent

/-- A literal is an amount if it is written as one, and only then. -/
theorem NumberLiteral.IsWrittenAs.amount?_eq_some_iff {literal : NumberLiteral}
    {text : List Char} (written : literal.IsWrittenAs text) {amount : UInt64} :
    literal.amount? = some amount ↔ text = digits amount.toNat := by
  constructor
  · intro isAmount
    unfold amount? at isAmount
    split at isAmount
    next whole =>
      split at isAmount
      next fits =>
        cases written with
        | positive isWhole isFraction isExponent =>
          cases isFraction
          cases isExponent
          rw [Option.some.injEq] at isAmount
          rw [← isAmount, UInt64.toNat_ofNat_of_lt' fits, digits_valueOfDigits isWhole]
          simp
      next => cases isAmount
    next => cases isAmount
  · rintro rfl
    have same : literal = ⟨false, digits amount.toNat, none, none⟩ := by
      have asWritten := scanNumber_append .malformed written ends_nil
      rw [scanNumber_append _ (isWrittenAs_digits amount.toNat) ends_nil] at asWritten
      cases asWritten
      rfl
    have fits : amount.toNat < wordSize := amount.toNat_lt
    rw [same, amount?, valueOfDigits_digits, if_pos fits, UInt64.ofNat_toNat]

end Amounts

end SweptCache.Json
