import Mathlib.Data.List.DropRight
import Mathlib.Data.List.TakeWhile
import SweptCache.Json.Skip

/-!
# The grammar of JSON texts

What a text has to look like to be JSON, said without reading it. A text is put
together from pieces: `IsText` derives values, lists and objects of any depth,
`NumberLiteral.IsWrittenAs` the spellings of a number, `IsQuotable` what may
stand between quotes, and `Spells` what such a text stands for where every
16-bit unit in it is part of a character.

A scanner that reads a piece stops at its end if the text behind it does not go
on with a number (`Ends`).
-/

namespace SweptCache.Json

/-- A text of blanks, perhaps of none. -/
def IsBlanks (text : List Char) : Prop := ∀ character ∈ text, isBlank character = true

/-- A text that starts with nothing by which a number could go on. -/
def Ends (text : List Char) : Prop :=
  ∀ character ∈ text.head?,
    character.isDigit = false ∧ character ≠ '.' ∧ character ≠ 'e' ∧ character ≠ 'E'

/-- Decimal digits, of which there is at least one. -/
def IsDigits (text : List Char) : Prop := text ≠ [] ∧ ∀ character ∈ text, character.isDigit = true

/-- The digits before a point: a zero alone, or digits that do not start with one. -/
def IsWhole (text : List Char) : Prop := IsDigits text ∧ (text.head? = some '0' → text = ['0'])

/-- The spelling of the digits behind a point, if there are any. -/
inductive IsFraction : Option (List Char) → List Char → Prop
  | absent : IsFraction none []
  | digits {digits : List Char} : IsDigits digits → IsFraction (some digits) ('.' :: digits)

/-- The letter that opens an exponent. -/
abbrev IsExponentMark (mark : Char) : Prop := mark = 'e' ∨ mark = 'E'

/-- The spellings of an exponent, if there is one. -/
inductive IsExponent : Option (Bool × List Char) → List Char → Prop
  | absent : IsExponent none []
  | plain {mark : Char} {digits : List Char} : IsExponentMark mark → IsDigits digits →
      IsExponent (some (false, digits)) (mark :: digits)
  | plus {mark : Char} {digits : List Char} : IsExponentMark mark → IsDigits digits →
      IsExponent (some (false, digits)) (mark :: '+' :: digits)
  | minus {mark : Char} {digits : List Char} : IsExponentMark mark → IsDigits digits →
      IsExponent (some (true, digits)) (mark :: '-' :: digits)

/-- The spellings of a number. -/
inductive NumberLiteral.IsWrittenAs : NumberLiteral → List Char → Prop
  | positive {whole fractionText exponentText : List Char} {fraction : Option (List Char)}
      {exponent : Option (Bool × List Char)} : IsWhole whole → IsFraction fraction fractionText →
      IsExponent exponent exponentText →
      IsWrittenAs ⟨false, whole, fraction, exponent⟩ (whole ++ fractionText ++ exponentText)
  | negative {whole fractionText exponentText : List Char} {fraction : Option (List Char)}
      {exponent : Option (Bool × List Char)} : IsWhole whole → IsFraction fraction fractionText →
      IsExponent exponent exponentText →
      IsWrittenAs ⟨true, whole, fraction, exponent⟩ ('-' :: whole ++ fractionText ++ exponentText)

/-- A character that stands for itself between quotes. -/
def IsPlain (character : Char) : Prop :=
  character ≠ '"' ∧ character ≠ '\\' ∧ 32 ≤ character.toNat

/-- Four hexadecimal digits and the 16-bit unit for which they stand. -/
inductive SpellsUnit : List Char → Nat → Prop
  | digits {first second third fourth : Char} {a b c d : Nat} : hexValue? first = some a →
      hexValue? second = some b → hexValue? third = some c → hexValue? fourth = some d →
      SpellsUnit [first, second, third, fourth] (((a * 16 + b) * 16 + c) * 16 + d)

/-- What may stand between quotes. -/
inductive IsQuotable : List Char → Prop
  | nil : IsQuotable []
  | plain {character : Char} {body : List Char} : IsPlain character → IsQuotable body →
      IsQuotable (character :: body)
  | letter {letter character : Char} {body : List Char} : escapeLetter? letter = some character →
      IsQuotable body → IsQuotable ('\\' :: letter :: body)
  | unit {digits body : List Char} {unit : Nat} : SpellsUnit digits unit → IsQuotable body →
      IsQuotable ('\\' :: 'u' :: (digits ++ body))

/-- What stands between quotes, and the text for which it stands. Units from the
surrogate range come in pairs here, each of which is one character. -/
inductive Spells : List Char → List Char → Prop
  | nil : Spells [] []
  | plain {character : Char} {body content : List Char} : IsPlain character → Spells body content →
      Spells (character :: body) (character :: content)
  | letter {letter character : Char} {body content : List Char} :
      escapeLetter? letter = some character → Spells body content →
      Spells ('\\' :: letter :: body) (character :: content)
  | unit {digits body content : List Char} {unit : Nat} : SpellsUnit digits unit →
      isLeadingSurrogate unit = false → isTrailingSurrogate unit = false → Spells body content →
      Spells ('\\' :: 'u' :: (digits ++ body)) (Char.ofNat unit :: content)
  | pair {digits moreDigits body content : List Char} {leading trailing : Nat} :
      SpellsUnit digits leading → isLeadingSurrogate leading = true →
      SpellsUnit moreDigits trailing → isTrailingSurrogate trailing = true → Spells body content →
      Spells ('\\' :: 'u' :: (digits ++ '\\' :: 'u' :: (moreDigits ++ body)))
        (pairedCharacter leading trailing :: content)

/-- What spells a text may stand between quotes. -/
theorem Spells.isQuotable {body content : List Char} (spells : Spells body content) :
    IsQuotable body := by
  induction spells with
  | nil => exact .nil
  | plain isPlain _ ih => exact .plain isPlain ih
  | letter stands _ ih => exact .letter stands ih
  | unit digits _ _ _ ih => exact .unit digits ih
  | pair digits _ moreDigits _ _ ih => exact .unit digits (.unit moreDigits ih)

/-- The name of a member of an object, with its colon, of which the part between
the quotes has a given property. -/
inductive IsNameOf (isBody : List Char → Prop) : List Char → Prop
  | quoted {before body after : List Char} : IsBlanks before → isBody body → IsBlanks after →
      IsNameOf isBody (before ++ '"' :: (body ++ '"' :: (after ++ [':'])))

/-- The name of a member of an object, with its colon. -/
abbrev IsName : List Char → Prop := IsNameOf IsQuotable

/-- The parts from which JSON texts are put together. -/
inductive Part where
  /-- A value. -/
  | value
  /-- A value between blanks, which is what a whole document is. -/
  | padded
  /-- The items of a list, separated by commas. -/
  | items
  /-- The members of an object, separated by commas. -/
  | members

/-- The texts of JSON. -/
inductive IsText : Part → List Char → Prop
  | nullWord : IsText .value ['n', 'u', 'l', 'l']
  | trueWord : IsText .value ['t', 'r', 'u', 'e']
  | falseWord : IsText .value ['f', 'a', 'l', 's', 'e']
  | number {literal : NumberLiteral} {text : List Char} : literal.IsWrittenAs text →
      IsText .value text
  | quoted {body : List Char} : IsQuotable body → IsText .value ('"' :: (body ++ ['"']))
  | emptyList {blanks : List Char} : IsBlanks blanks → IsText .value ('[' :: (blanks ++ [']']))
  | list {items : List Char} : IsText .items items → IsText .value ('[' :: (items ++ [']']))
  | emptyObject {blanks : List Char} : IsBlanks blanks →
      IsText .value ('\x7b' :: (blanks ++ ['\x7d']))
  | object {members : List Char} : IsText .members members →
      IsText .value ('\x7b' :: (members ++ ['\x7d']))
  | padded {before value after : List Char} : IsBlanks before → IsText .value value →
      IsBlanks after → IsText .padded (before ++ (value ++ after))
  | lastItem {item : List Char} : IsText .padded item → IsText .items item
  | item {item rest : List Char} : IsText .padded item → IsText .items rest →
      IsText .items (item ++ ',' :: rest)
  | lastMember {name item : List Char} : IsName name → IsText .padded item →
      IsText .members (name ++ item)
  | member {name item rest : List Char} : IsName name → IsText .padded item →
      IsText .members rest → IsText .members (name ++ (item ++ ',' :: rest))

section Blanks

variable {blanks text : List Char}

@[simp] theorem isBlanks_nil : IsBlanks [] := fun _ member => nomatch member

/-- Dropping blanks drops those at the start of a text. -/
theorem exists_dropBlanks (text : List Char) :
    ∃ blanks, IsBlanks blanks ∧ text = blanks ++ dropBlanks text := by
  refine ⟨text.takeWhile isBlank, ?_, ?_⟩
  · intro character member
    exact List.mem_takeWhile_imp member
  · exact List.takeWhile_append_dropWhile.symm

/-- Blanks at the start of a text are dropped. -/
theorem dropBlanks_append (isBlanks : IsBlanks blanks) (text : List Char) :
    dropBlanks (blanks ++ text) = dropBlanks text :=
  List.dropWhile_append_of_pos isBlanks

/-- No blanks are left to be dropped. -/
@[simp] theorem dropBlanks_dropBlanks (text : List Char) :
    dropBlanks (dropBlanks text) = dropBlanks text :=
  List.dropWhile_idempotent isBlank text

/-- A text that does not start with a blank stays as it is. -/
theorem dropBlanks_cons {character : Char} (notBlank : isBlank character = false)
    (text : List Char) : dropBlanks (character :: text) = character :: text := by
  rw [dropBlanks, List.dropWhile_cons_of_neg (by simp [notBlank])]

/-- Blanks are dropped up to a character that is none. -/
theorem dropBlanks_append_cons {character : Char} (isBlanks : IsBlanks blanks)
    (notBlank : isBlank character = false) (text : List Char) :
    dropBlanks (blanks ++ character :: text) = character :: text := by
  rw [dropBlanks_append isBlanks, dropBlanks_cons notBlank]

/-- Nothing is left of blanks. -/
theorem dropBlanks_eq_nil_iff : dropBlanks text = [] ↔ IsBlanks text := by
  rw [dropBlanks, List.dropWhile_eq_nil_iff]
  rfl

end Blanks

section Ends

@[simp] theorem ends_nil : Ends [] := by simp [Ends]

theorem ends_cons {character : Char} {rest : List Char} (digit : character.isDigit = false)
    (point : character ≠ '.') (small : character ≠ 'e') (large : character ≠ 'E') :
    Ends (character :: rest) := by
  simp [Ends, digit, point, small, large]

/-- No number goes on with a blank. -/
theorem ends_of_isBlank {character : Char} {rest : List Char} (blank : isBlank character = true) :
    Ends (character :: rest) := by
  simp only [isBlank, Bool.or_eq_true, decide_eq_true_eq] at blank
  obtain ((rfl | rfl) | rfl) | rfl := blank <;>
    exact ends_cons rfl (by decide) (by decide) (by decide)

/-- Blanks in front do not make a number go on. -/
theorem Ends.append {text blanks : List Char} (ends : Ends text) (isBlanks : IsBlanks blanks) :
    Ends (blanks ++ text) := by
  cases blanks with
  | nil => exact ends
  | cons first rest => exact ends_of_isBlank (isBlanks first List.mem_cons_self)

end Ends

section Words

variable {word text rest : List Char}

theorem expectWord_append (word rest : List Char) : expectWord word (word ++ rest) = .ok rest := by
  induction word with
  | nil => rfl
  | cons wanted word ih => rw [List.cons_append, expectWord, if_pos rfl, ih]

theorem eq_append_of_expectWord (found : expectWord word text = .ok rest) :
    text = word ++ rest := by
  induction word generalizing text with
  | nil =>
    cases found
    rfl
  | cons wanted word ih =>
    cases text with
    | nil => cases found
    | cons character text =>
      rw [expectWord] at found
      split at found
      next isWanted => rw [isWanted, ih found, List.cons_append]
      next => cases found

end Words

/-- A character with which a value starts. -/
def startsValue (character : Char) : Bool :=
  startsNumber character || character ∈ ['n', 't', 'f', '"', '[', '\x7b']

/-- No value starts with a blank. -/
theorem not_isBlank_of_startsValue {character : Char} (starts : startsValue character = true) :
    isBlank character = false := by
  by_contra blank
  simp only [isBlank, Bool.not_eq_false, Bool.or_eq_true, decide_eq_true_eq] at blank
  obtain ((rfl | rfl) | rfl) | rfl := blank <;> exact absurd starts (by decide)

/-- A number starts with a digit or a minus. -/
theorem NumberLiteral.IsWrittenAs.exists_start {literal : NumberLiteral} {text : List Char}
    (written : literal.IsWrittenAs text) :
    ∃ first rest, text = first :: rest ∧ startsNumber first = true := by
  cases written with
  | positive isWhole _ _ =>
    obtain ⟨⟨present, digits⟩, _⟩ := isWhole
    obtain ⟨first, rest, rfl⟩ := List.exists_cons_of_ne_nil present
    exact ⟨first, _, rfl, by simp [startsNumber, digits first List.mem_cons_self]⟩
  | negative _ _ _ => exact ⟨'-', _, rfl, rfl⟩

/-- A value starts with a character with which values start. -/
theorem IsText.exists_start {text : List Char} (isValue : IsText .value text) :
    ∃ first rest, text = first :: rest ∧ startsValue first = true := by
  cases isValue with
  | number written =>
    obtain ⟨first, rest, rfl, starts⟩ := written.exists_start
    exact ⟨first, rest, rfl, by simp [startsValue, starts]⟩
  | nullWord | trueWord | falseWord | quoted | emptyList | list | emptyObject | object =>
    exact ⟨_, _, rfl, by decide⟩

/-- A value that starts like a number is one. -/
theorem IsText.exists_literal {first : Char} {rest : List Char}
    (isValue : IsText .value (first :: rest)) (starts : startsNumber first = true) :
    ∃ literal : NumberLiteral, literal.IsWrittenAs (first :: rest) := by
  cases isValue with
  | number written => exact ⟨_, written⟩
  | nullWord | trueWord | falseWord | quoted | emptyList | list | emptyObject | object =>
    exact absurd starts Bool.false_ne_true

/-- A value is left as it is when blanks are dropped. -/
theorem IsText.dropBlanks_eq {text : List Char} (isValue : IsText .value text)
    (rest : List Char) : dropBlanks (text ++ rest) = text ++ rest := by
  obtain ⟨first, following, rfl, starts⟩ := isValue.exists_start
  exact dropBlanks_cons (not_isBlank_of_startsValue starts) _

end SweptCache.Json
