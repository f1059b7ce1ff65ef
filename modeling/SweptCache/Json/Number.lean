import SweptCache.Json.Scan
import SweptCache.Bytes

/-!
# Number literals

A `NumberLiteral` is a number as it is written: a sign, whole digits, and
perhaps digits behind a point and an exponent. `scanNumber` reads one. Only a
literal that is nothing but whole digits is an amount, and only if it fits in a
word.

A literal whose magnitude is beyond the range of double precision is malformed
rather than merely unsuitable. The magnitude is judged from a significand of
one word and a power of ten: digits behind those that fit in the word are
counted before the point and dropped behind it, and both factors are rounded to
double precision before their product is.
-/

namespace SweptCache.Json

/-- The digits and exponent of a number as they are written. -/
structure NumberLiteral where
  isNegative : Bool
  /-- The digits before the point. -/
  whole : List Char
  /-- The digits behind the point, if there is one. -/
  fraction : Option (List Char)
  /-- Whether the exponent is negative, and its digits, if there is one. -/
  exponent : Option (Bool × List Char)
  deriving DecidableEq, Repr

/-- The digits at the start of a text, and the text behind them. -/
def spanDigits (text : List Char) : List Char × List Char :=
  (text.takeWhile Char.isDigit, text.dropWhile Char.isDigit)

theorem spanDigits_length_le (text : List Char) : (spanDigits text).2.length ≤ text.length :=
  (List.dropWhile_sublist Char.isDigit).length_le

/-- At least one digit, and the text behind the digits. -/
def scanDigits (atEnd : Fault) (text : List Char) : Scanned (List Char) :=
  match text with
  | [] => .error atEnd
  | first :: rest =>
    if first.isDigit then .ok (first :: (spanDigits rest).1, (spanDigits rest).2)
    else .error .malformed

theorem scanDigits_length_lt {atEnd : Fault} {text rest digits : List Char}
    (found : scanDigits atEnd text = .ok (digits, rest)) : rest.length < text.length := by
  cases text with
  | nil => cases found
  | cons first text =>
    simp only [scanDigits] at found
    split at found
    · cases found
      have noLonger := spanDigits_length_le text
      simp only [List.length_cons]
      omega
    · cases found

/-- The digits before the point: a zero alone, or digits that do not start with one. -/
def scanWhole (atEnd : Fault) (text : List Char) : Scanned (List Char) :=
  match scanDigits atEnd text with
  | .error fault => .error fault
  | .ok (digits, rest) =>
    if digits.head? = some '0' ∧ digits.length ≠ 1 then .error .malformed else .ok (digits, rest)

theorem scanWhole_length_lt {atEnd : Fault} {text rest digits : List Char}
    (found : scanWhole atEnd text = .ok (digits, rest)) : rest.length < text.length := by
  unfold scanWhole at found
  split at found
  · cases found
  · next scanned =>
    split at found
    · cases found
    · cases found
      exact scanDigits_length_lt scanned

/-- The digits behind the point, if there is one. -/
def scanFraction (atEnd : Fault) (text : List Char) : Scanned (Option (List Char)) :=
  match text with
  | '.' :: rest =>
    match scanDigits atEnd rest with
    | .error fault => .error fault
    | .ok (digits, rest) => .ok (some digits, rest)
  | _ => .ok (none, text)

theorem scanFraction_length_le {atEnd : Fault} {text rest : List Char}
    {fraction : Option (List Char)} (found : scanFraction atEnd text = .ok (fraction, rest)) :
    rest.length ≤ text.length := by
  unfold scanFraction at found
  split at found
  · split at found
    · cases found
    · next scanned =>
      cases found
      have shorter := scanDigits_length_lt scanned
      simp only [List.length_cons]
      omega
  · cases found
    exact Nat.le_refl _

/-- The sign in front of an exponent's digits: whether it is a minus, and the text behind it. -/
def scanSign : List Char → Bool × List Char
  | '-' :: rest => (true, rest)
  | '+' :: rest => (false, rest)
  | text => (false, text)

theorem scanSign_length_le (text : List Char) : (scanSign text).2.length ≤ text.length := by
  unfold scanSign
  split <;> simp

/-- The exponent, if there is one. -/
def scanExponent (atEnd : Fault) (text : List Char) : Scanned (Option (Bool × List Char)) :=
  match text with
  | [] => .ok (none, text)
  | mark :: rest =>
    if mark = 'e' ∨ mark = 'E' then
      match scanDigits atEnd (scanSign rest).2 with
      | .error fault => .error fault
      | .ok (digits, remainder) => .ok (some ((scanSign rest).1, digits), remainder)
    else .ok (none, text)

theorem scanExponent_length_le {atEnd : Fault} {text rest : List Char}
    {exponent : Option (Bool × List Char)}
    (found : scanExponent atEnd text = .ok (exponent, rest)) : rest.length ≤ text.length := by
  unfold scanExponent at found
  split at found
  · cases found
    exact Nat.le_refl _
  · next mark text =>
    split at found
    · split at found
      · cases found
      · next scanned =>
        cases found
        have shorter := scanDigits_length_lt scanned
        have noLonger := scanSign_length_le text
        simp only [List.length_cons]
        omega
    · cases found
      exact Nat.le_refl _

/-- The sign in front of a number: whether there is a minus, and the text behind it. -/
def scanMinus : List Char → Bool × List Char
  | '-' :: rest => (true, rest)
  | text => (false, text)

theorem scanMinus_length_le (text : List Char) : (scanMinus text).2.length ≤ text.length := by
  unfold scanMinus
  split <;> simp

/-- A number, with the fault that a text ending inside of it has. -/
def scanNumber (atEnd : Fault) (text : List Char) : Scanned NumberLiteral :=
  match scanWhole atEnd (scanMinus text).2 with
  | .error fault => .error fault
  | .ok (whole, afterWhole) =>
    match scanFraction atEnd afterWhole with
    | .error fault => .error fault
    | .ok (fraction, afterFraction) =>
      match scanExponent atEnd afterFraction with
      | .error fault => .error fault
      | .ok (exponent, rest) =>
        .ok (⟨(scanMinus text).1, whole, fraction, exponent⟩, rest)

theorem scanNumber_length_lt {atEnd : Fault} {text rest : List Char} {literal : NumberLiteral}
    (found : scanNumber atEnd text = .ok (literal, rest)) : rest.length < text.length := by
  unfold scanNumber at found
  split at found
  · cases found
  · next wholeScanned =>
    split at found
    · cases found
    · next fractionScanned =>
      split at found
      · cases found
      · next exponentScanned =>
        cases found
        have first := scanMinus_length_le text
        have second := scanWhole_length_lt wholeScanned
        have third := scanFraction_length_le fractionScanned
        have fourth := scanExponent_length_le exponentScanned
        omega

/-- The value of a decimal digit. -/
def digitValue (character : Char) : Nat := character.toNat - 48

/-- The number that decimal digits stand for. -/
def valueOfDigits (digits : List Char) : Nat :=
  digits.foldl (fun value character => value * 10 + digitValue character) 0

namespace NumberLiteral

/-- The amount for which a literal stands, if it is one. -/
def amount? (literal : NumberLiteral) : Option UInt64 :=
  match literal with
  | ⟨false, whole, none, none⟩ =>
    if valueOfDigits whole < wordSize then some (UInt64.ofNat (valueOfDigits whole)) else none
  | _ => none

/-- A significand of one word, and the power of ten by which it is scaled. -/
structure Magnitude where
  significand : Nat
  exponent : Int
  deriving DecidableEq, Repr

/-- The magnitude of digits before the point. Once a digit does not fit in the
word, it and all behind it only scale the significand. -/
def wholeMagnitude (significand : Nat) : List Char → Magnitude
  | [] => ⟨significand, 0⟩
  | digit :: rest =>
    if significand * 10 + digitValue digit < wordSize then
      wholeMagnitude (significand * 10 + digitValue digit) rest
    else ⟨significand, (digit :: rest).length⟩

/-- A magnitude continued over the digits behind the point, up to the first
that does not fit in the word. -/
def fractionMagnitude (magnitude : Magnitude) : List Char → Magnitude
  | [] => magnitude
  | digit :: rest =>
    if magnitude.significand * 10 + digitValue digit < wordSize then
      fractionMagnitude
        ⟨magnitude.significand * 10 + digitValue digit, magnitude.exponent - 1⟩ rest
    else magnitude

/-- The magnitude of a literal. -/
def magnitude (literal : NumberLiteral) : Magnitude :=
  let unscaled := fractionMagnitude (wholeMagnitude 0 literal.whole) (literal.fraction.getD [])
  match literal.exponent with
  | none => unscaled
  | some (true, digits) => ⟨unscaled.significand, unscaled.exponent - valueOfDigits digits⟩
  | some (false, digits) => ⟨unscaled.significand, unscaled.exponent + valueOfDigits digits⟩

/-- A number rounded to the 53 bits of double precision, a tie to the even neighbour. -/
def roundToDouble (value : Nat) : Nat :=
  let unit := 1 <<< (value.log2 + 1 - 53)
  let quotient := value / unit
  let remainder := value % unit
  if unit < 2 * remainder ∨ (unit = 2 * remainder ∧ quotient % 2 = 1) then (quotient + 1) * unit
  else quotient * unit

/-- The least number that rounds to more than any double: half a unit above the largest. -/
def doubleBound : Nat := 1 <<< 1024 - 1 <<< 970

/-- The largest power of ten that a double holds. -/
def largestPowerOfTen : Nat := 308

/-- Whether a magnitude is beyond the range of double precision. -/
def Magnitude.isOutOfRange (magnitude : Magnitude) : Bool :=
  match magnitude.exponent with
  | .negSucc _ => false
  | .ofNat exponent =>
    magnitude.significand ≠ 0 &&
      (largestPowerOfTen < exponent ||
        doubleBound ≤ roundToDouble magnitude.significand * roundToDouble (Nat.pow 10 exponent))

end NumberLiteral

/-- Whether a value that starts with this character is a number. -/
def startsNumber (character : Char) : Bool := character = '-' || character.isDigit

/-- A number that is looked at as a value: one beyond the range of double precision is malformed. -/
def scanNumberInRange (text : List Char) : Scanned NumberLiteral :=
  match scanNumber .truncated text with
  | .error fault => .error fault
  | .ok (literal, rest) =>
    if literal.amount? = none ∧ literal.magnitude.isOutOfRange then .error .malformed
    else .ok (literal, rest)

end SweptCache.Json
