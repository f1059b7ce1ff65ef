import SweptCache.Json
import SweptCache.Proofs.JsonGrammar

/-!
# Reading quoted texts

Behind an opening quote `scanQuoted` reads what spells a text, up to the closing
quote, and gives that text. `skipQuoted` goes the same way and accepts what may
stand between quotes, whether or not its 16-bit units pair up. Both are followed
character by character: what stands in front of the rest of the text is a piece
that the grammar puts in front of a body. What is written between quotes spells
the text that is quoted.
-/

namespace SweptCache.Json

variable {text rest body content digits : List Char} {character letter : Char} {unit : Nat}

theorem scanUnit_append (spells : SpellsUnit digits unit) (rest : List Char) :
    scanUnit (digits ++ rest) = .ok (unit, rest) := by
  cases spells with
  | digits first second third fourth =>
    simp only [List.cons_append, List.nil_append, scanUnit, first, second, third, fourth]

theorem spellsUnit_of_scanUnit (found : scanUnit text = .ok (unit, rest)) :
    ∃ digits, SpellsUnit digits unit ∧ text = digits ++ rest := by
  unfold scanUnit at found
  split at found
  · split at found
    next first second third fourth =>
      cases found
      exact ⟨_, .digits first second third fourth, rfl⟩
    next => cases found
  · cases found

/-- The letter of a 16-bit unit stands for no character. -/
theorem ne_of_escapeLetter? (stands : escapeLetter? letter = some character) : letter ≠ 'u' := by
  rintro rfl
  cases stands

theorem scanEscape_letter (stands : escapeLetter? letter = some character) (rest : List Char) :
    scanEscape (letter :: rest) = .ok (.character character, rest) := by
  rw [scanEscape, if_neg (ne_of_escapeLetter? stands), stands]

theorem scanEscape_unit (spells : SpellsUnit digits unit) (rest : List Char) :
    scanEscape ('u' :: (digits ++ rest)) = .ok (.unit unit, rest) := by
  rw [scanEscape, if_pos rfl, scanUnit_append spells]

/-- What stands in front of the rest of a text once an escape has been read. -/
theorem scanEscape_cases {escaped : Escaped} (found : scanEscape text = .ok (escaped, rest)) :
    (∃ letter character, escapeLetter? letter = some character ∧ text = letter :: rest ∧
      escaped = .character character) ∨
    ∃ digits unit, SpellsUnit digits unit ∧ text = 'u' :: (digits ++ rest) ∧
      escaped = .unit unit := by
  cases text with
  | nil => cases found
  | cons letter text =>
    simp only [scanEscape] at found
    split at found
    next isUnit =>
      split at found
      next => cases found
      next scanned =>
        cases found
        obtain ⟨digits, spells, rfl⟩ := spellsUnit_of_scanUnit scanned
        exact .inr ⟨digits, _, spells, by rw [isUnit], rfl⟩
    next =>
      split at found
      next stands =>
        cases found
        exact .inl ⟨letter, _, stands, rfl, rfl⟩
      next => cases found

section Reading

theorem scanCharacter_plain (isPlain : IsPlain character) (rest : List Char) :
    scanCharacter (character :: rest) = .ok (some character, rest) := by
  obtain ⟨noQuote, noBackslash, noControl⟩ := isPlain
  rw [scanCharacter, if_neg noQuote, if_neg noBackslash, if_neg (Nat.not_lt.mpr noControl)]

theorem scanCharacter_letter (stands : escapeLetter? letter = some character) (rest : List Char) :
    scanCharacter ('\\' :: letter :: rest) = .ok (some character, rest) := by
  rw [scanCharacter, if_neg (by decide), if_pos rfl, scanEscape_letter stands]
  rfl

theorem scanCharacter_unit (spells : SpellsUnit digits unit)
    (notLeading : isLeadingSurrogate unit = false) (notTrailing : isTrailingSurrogate unit = false)
    (rest : List Char) :
    scanCharacter ('\\' :: 'u' :: (digits ++ rest)) = .ok (some (Char.ofNat unit), rest) := by
  rw [scanCharacter, if_neg (by decide), if_pos rfl, scanEscape_unit spells]
  simp [resolveEscape, notLeading, notTrailing]

theorem scanTrailingUnit_append {trailing : Nat} (spells : SpellsUnit digits trailing)
    (isTrailing : isTrailingSurrogate trailing = true) (rest : List Char) :
    scanTrailingUnit ('\\' :: 'u' :: (digits ++ rest)) = .ok (trailing, rest) := by
  have opened : expectWord ['\\', 'u'] ('\\' :: 'u' :: (digits ++ rest)) = .ok (digits ++ rest) :=
    expectWord_append ['\\', 'u'] (digits ++ rest)
  rw [scanTrailingUnit, opened]
  simp only [scanUnit_append spells, isTrailing, if_true]

theorem spellsUnit_of_scanTrailingUnit (found : scanTrailingUnit text = .ok (unit, rest)) :
    ∃ digits, SpellsUnit digits unit ∧ isTrailingSurrogate unit = true ∧
      text = '\\' :: 'u' :: (digits ++ rest) := by
  unfold scanTrailingUnit at found
  split at found
  next => cases found
  next opened =>
    split at found
    next => cases found
    next scanned =>
      split at found
      next isTrailing =>
        cases found
        obtain ⟨digits, spells, rfl⟩ := spellsUnit_of_scanUnit scanned
        exact ⟨digits, spells, isTrailing, eq_append_of_expectWord opened⟩
      next => cases found

/-- A unit that leads a surrogate pair does not close one. -/
theorem not_isTrailingSurrogate (isLeading : isLeadingSurrogate unit = true) :
    isTrailingSurrogate unit = false := by
  simp only [isLeadingSurrogate, isTrailingSurrogate, Bool.and_eq_true, decide_eq_true_eq,
    Bool.and_eq_false_iff, decide_eq_false_iff_not] at isLeading ⊢
  omega

theorem scanCharacter_pair {moreDigits : List Char} {leading trailing : Nat}
    (spells : SpellsUnit digits leading) (isLeading : isLeadingSurrogate leading = true)
    (spellsMore : SpellsUnit moreDigits trailing)
    (isTrailing : isTrailingSurrogate trailing = true) (rest : List Char) :
    scanCharacter ('\\' :: 'u' :: (digits ++ '\\' :: 'u' :: (moreDigits ++ rest))) =
      .ok (some (pairedCharacter leading trailing), rest) := by
  rw [scanCharacter, if_neg (by decide), if_pos rfl, scanEscape_unit spells]
  simp [resolveEscape, not_isTrailingSurrogate isLeading, isLeading,
    scanTrailingUnit_append spellsMore isTrailing]

/-- A 16-bit unit is a character, or it leads a surrogate pair that is one. -/
theorem resolveEscape_unit_cases (found : resolveEscape (.unit unit) text = .ok (character, rest)) :
    isLeadingSurrogate unit = false ∧ isTrailingSurrogate unit = false ∧
      character = Char.ofNat unit ∧ text = rest ∨
    isLeadingSurrogate unit = true ∧ ∃ digits trailing, SpellsUnit digits trailing ∧
      isTrailingSurrogate trailing = true ∧ character = pairedCharacter unit trailing ∧
      text = '\\' :: 'u' :: (digits ++ rest) := by
  simp only [resolveEscape] at found
  split at found
  next => cases found
  next notTrailing =>
    split at found
    next isLeading =>
      split at found
      next => cases found
      next trailing _ scanned =>
        obtain ⟨rfl, rfl⟩ := Prod.mk.inj (Except.ok.inj found)
        obtain ⟨digits, spells, isTrailing, isText⟩ := spellsUnit_of_scanTrailingUnit scanned
        exact .inr ⟨isLeading, digits, trailing, spells, isTrailing, rfl, isText⟩
    next notLeading =>
      obtain ⟨rfl, rfl⟩ := Prod.mk.inj (Except.ok.inj found)
      exact .inl ⟨by simpa using notLeading, by simpa using notTrailing, rfl, rfl⟩

/-- What stands behind a backslash once an escape has been read and resolved. -/
theorem piece_of_escape {escaped : Escaped} {remainder : List Char}
    (scanned : scanEscape text = .ok (escaped, remainder))
    (resolved : resolveEscape escaped remainder = .ok (character, rest)) :
    ∃ piece, text = piece ++ rest ∧ ∀ body content, Spells body content →
      Spells ('\\' :: (piece ++ body)) (character :: content) := by
  rcases scanEscape_cases scanned with ⟨letter, stood, stands, rfl, rfl⟩ |
    ⟨digits, unit, spells, rfl, rfl⟩
  · cases resolved
    exact ⟨[letter], rfl, fun _ _ others => .letter stands others⟩
  · rcases resolveEscape_unit_cases resolved with ⟨notLeading, notTrailing, isCharacter, rfl⟩ |
      ⟨isLeading, moreDigits, trailing, spellsMore, isTrailing, isCharacter, rfl⟩
    · rw [isCharacter]
      exact ⟨'u' :: digits, rfl, fun _ _ others => .unit spells notLeading notTrailing others⟩
    · rw [isCharacter]
      refine ⟨'u' :: (digits ++ '\\' :: 'u' :: moreDigits), by simp, ?_⟩
      intro body content others
      simpa using Spells.pair spells isLeading spellsMore isTrailing others

/-- What stands in front of the rest of a text once a character of a quoted text has been read. -/
theorem piece_of_scanCharacter (found : scanCharacter text = .ok (some character, rest)) :
    ∃ piece, text = piece ++ rest ∧
      ∀ body content, Spells body content → Spells (piece ++ body) (character :: content) := by
  cases text with
  | nil => cases found
  | cons first text =>
    simp only [scanCharacter] at found
    split at found
    next => cases found
    next noQuote =>
      split at found
      next isBackslash =>
        subst isBackslash
        split at found
        next => cases found
        next scanned =>
          split at found
          next => cases found
          next resolved =>
            obtain ⟨isCharacter, rfl⟩ := Prod.mk.inj (Except.ok.inj found)
            obtain ⟨piece, rfl, spells⟩ := piece_of_escape scanned resolved
            rw [← Option.some.inj isCharacter]
            exact ⟨'\\' :: piece, rfl, spells⟩
      next noBackslash =>
        split at found
        next => cases found
        next noControl =>
          cases found
          exact ⟨[character], rfl, fun _ _ others =>
            .plain ⟨noQuote, noBackslash, Nat.not_lt.mp noControl⟩ others⟩

/-- Only at a quote is there no character. -/
theorem eq_quote_of_scanCharacter (found : scanCharacter text = .ok (none, rest)) :
    text = '"' :: rest := by
  cases text with
  | nil => cases found
  | cons first text =>
    simp only [scanCharacter] at found
    split at found
    next isQuote =>
      cases found
      rw [isQuote]
    next =>
      split at found
      next =>
        split at found
        next => cases found
        next =>
          split at found
          next => cases found
          next => cases found
      next =>
        split at found
        next => cases found
        next => cases found

/-- A quoted text is read on behind its first character. -/
theorem scanQuoted_of_character (scanned : scanCharacter text = .ok (some character, rest)) :
    scanQuoted text = match scanQuoted rest with
      | .error fault => .error fault
      | .ok (characters, remainder) => .ok (character :: characters, remainder) := by
  rw [scanQuoted]
  split
  next failed =>
    rw [scanned] at failed
    cases failed
  next closed =>
    rw [scanned] at closed
    cases closed
  next found =>
    rw [scanned] at found
    cases found
    rfl

/-- What spells a text is read as that text. -/
theorem scanQuoted_append (spells : Spells body content) (rest : List Char) :
    scanQuoted (body ++ '"' :: rest) = .ok (content, rest) := by
  induction spells with
  | nil =>
    rw [List.nil_append, scanQuoted]
    rfl
  | plain isPlain _ ih =>
    rw [List.cons_append, scanQuoted_of_character (scanCharacter_plain isPlain _), ih]
  | letter stands _ ih =>
    rw [List.cons_append, List.cons_append, scanQuoted_of_character (scanCharacter_letter stands _),
      ih]
  | unit spells notLeading notTrailing _ ih =>
    rw [List.cons_append, List.cons_append, List.append_assoc,
      scanQuoted_of_character (scanCharacter_unit spells notLeading notTrailing _), ih]
  | pair spells isLeading spellsMore isTrailing _ ih =>
    simp only [List.cons_append, List.append_assoc]
    rw [scanQuoted_of_character (scanCharacter_pair spells isLeading spellsMore isTrailing _), ih]

/-- What is read as a text spells it. -/
theorem spells_of_scanQuoted (found : scanQuoted text = .ok (content, rest)) :
    ∃ body, Spells body content ∧ text = body ++ '"' :: rest := by
  fun_induction scanQuoted text generalizing content rest with
  | case1 => cases found
  | case2 text remainder scanned =>
    cases found
    exact ⟨[], .nil, eq_quote_of_scanCharacter scanned⟩
  | case3 => cases found
  | case4 text character remainder scanned characters final scannedRest ih =>
    cases found
    obtain ⟨body, spells, isBody⟩ := ih scannedRest
    obtain ⟨piece, rfl, extend⟩ := piece_of_scanCharacter scanned
    exact ⟨piece ++ body, extend body characters spells, by rw [isBody, List.append_assoc]⟩

end Reading

section Skipping

theorem skipCharacter_plain (isPlain : IsPlain character) (rest : List Char) :
    skipCharacter (character :: rest) = .ok (false, rest) := by
  obtain ⟨noQuote, noBackslash, noControl⟩ := isPlain
  rw [skipCharacter, if_neg noQuote, if_neg noBackslash, if_neg (Nat.not_lt.mpr noControl)]

theorem skipCharacter_escape {escaped : Escaped} {remainder : List Char}
    (scanned : scanEscape text = .ok (escaped, remainder)) :
    skipCharacter ('\\' :: text) = .ok (false, remainder) := by
  rw [skipCharacter, if_neg (by decide), if_pos rfl, scanned]

/-- A quoted text is skipped on behind its first character. -/
theorem skipQuoted_of_character (skipped : skipCharacter text = .ok (false, rest)) :
    skipQuoted text = skipQuoted rest := by
  rw [skipQuoted]
  split <;> simp_all

/-- What may stand between quotes is skipped up to the closing one. -/
theorem skipQuoted_append (isQuotable : IsQuotable body) (rest : List Char) :
    skipQuoted (body ++ '"' :: rest) = .ok rest := by
  induction isQuotable with
  | nil =>
    rw [List.nil_append, skipQuoted]
    rfl
  | plain isPlain _ ih =>
    rw [List.cons_append, skipQuoted_of_character (skipCharacter_plain isPlain _), ih]
  | letter stands _ ih =>
    rw [List.cons_append, List.cons_append,
      skipQuoted_of_character (skipCharacter_escape (scanEscape_letter stands _)), ih]
  | unit spells _ ih =>
    rw [List.cons_append, List.cons_append, List.append_assoc,
      skipQuoted_of_character (skipCharacter_escape (scanEscape_unit spells _)), ih]

/-- What stands in front of the rest of a text once a character of a quoted text, or the closing
quote, has been skipped. -/
theorem piece_of_skipCharacter {isClosing : Bool}
    (found : skipCharacter text = .ok (isClosing, rest)) :
    isClosing = true ∧ text = '"' :: rest ∨
    isClosing = false ∧ ∃ piece, text = piece ++ rest ∧
      ∀ body, IsQuotable body → IsQuotable (piece ++ body) := by
  cases text with
  | nil => cases found
  | cons first text =>
    simp only [skipCharacter] at found
    split at found
    next isQuote =>
      cases found
      exact .inl ⟨rfl, by rw [isQuote]⟩
    next noQuote =>
      split at found
      next isBackslash =>
        subst isBackslash
        split at found
        next => cases found
        next scanned =>
          cases found
          rcases scanEscape_cases scanned with ⟨letter, stood, stands, rfl, _⟩ |
            ⟨digits, unit, spells, rfl, _⟩
          · exact .inr ⟨rfl, ['\\', letter], rfl, fun _ others => .letter stands others⟩
          · exact .inr ⟨rfl, '\\' :: 'u' :: digits, rfl, fun _ others => .unit spells others⟩
      next noBackslash =>
        split at found
        next => cases found
        next noControl =>
          cases found
          exact .inr ⟨rfl, [first], rfl, fun _ others =>
            .plain ⟨noQuote, noBackslash, Nat.not_lt.mp noControl⟩ others⟩

/-- What is skipped up to a quote may stand between quotes. -/
theorem isQuotable_of_skipQuoted (found : skipQuoted text = .ok rest) :
    ∃ body, IsQuotable body ∧ text = body ++ '"' :: rest := by
  fun_induction skipQuoted text with
  | case1 => cases found
  | case2 text remainder skipped =>
    cases found
    rcases piece_of_skipCharacter skipped with ⟨_, isQuote⟩ | ⟨isOpen, _⟩
    · exact ⟨[], .nil, isQuote⟩
    · cases isOpen
  | case3 text remainder skipped ih =>
    obtain ⟨body, isQuotable, isBody⟩ := ih found
    rcases piece_of_skipCharacter skipped with ⟨isClosing, _⟩ | ⟨_, piece, rfl, extend⟩
    · cases isClosing
    · exact ⟨piece ++ body, extend body isQuotable, by rw [isBody, List.append_assoc]⟩

end Skipping

section Writing

theorem hexValue?_hexDigit {value : Nat} (small : value < 16) :
    hexValue? (hexDigit value) = some value := by
  revert value
  decide

/-- Control characters are spelled as 16-bit units. -/
theorem spellsUnit_control (isControl : character.toNat < 32) :
    SpellsUnit ['0', '0', hexDigit (character.toNat / 16), hexDigit (character.toNat % 16)]
      character.toNat := by
  have spells := SpellsUnit.digits (hexValue?_hexDigit (show 0 < 16 by decide))
    (hexValue?_hexDigit (show 0 < 16 by decide))
    (hexValue?_hexDigit (show character.toNat / 16 < 16 by omega))
    (hexValue?_hexDigit (show character.toNat % 16 < 16 by omega))
  rwa [show ((0 * 16 + 0) * 16 + character.toNat / 16) * 16 + character.toNat % 16 =
    character.toNat by omega] at spells

/-- A character is escaped by a letter or as a 16-bit unit, unless it stands for itself. -/
theorem escape_cases (character : Char) :
    (∃ letter, escapeLetter? letter = some character ∧ escape character = ['\\', letter]) ∨
    (character.toNat < 32 ∧ escape character = ['\\', 'u', '0', '0',
      hexDigit (character.toNat / 16), hexDigit (character.toNat % 16)]) ∨
    IsPlain character ∧ escape character = [character] := by
  by_cases isLetter : character ∈ ['"', '\\', '\n', '\r', '\t', '\x08', '\x0c']
  · left
    simp only [List.mem_cons, List.not_mem_nil, or_false] at isLetter
    obtain rfl | rfl | rfl | rfl | rfl | rfl | rfl := isLetter <;> exact ⟨_, by rfl, rfl⟩
  · right
    simp only [List.mem_cons, List.not_mem_nil, or_false, not_or] at isLetter
    obtain ⟨quote, backslash, newline, carriageReturn, tab, backspace, formFeed⟩ := isLetter
    rw [escape, if_neg quote, if_neg backslash, if_neg newline, if_neg carriageReturn, if_neg tab,
      if_neg backspace, if_neg formFeed]
    by_cases isControl : character.toNat < 32
    · exact .inl ⟨isControl, if_pos isControl⟩
    · exact .inr ⟨⟨quote, backslash, Nat.le_of_not_lt isControl⟩, if_neg isControl⟩

/-- What is written between quotes spells the text that is quoted. -/
theorem spells_escape (text : List Char) : Spells (text.flatMap escape) text := by
  induction text with
  | nil => exact .nil
  | cons character text ih =>
    rw [List.flatMap_cons]
    obtain ⟨letter, stands, isEscaped⟩ | ⟨isControl, isEscaped⟩ | ⟨isPlain, isEscaped⟩ :=
      escape_cases character
    · rw [isEscaped]
      exact .letter stands ih
    · have spells := Spells.unit (spellsUnit_control isControl)
        (by simp [isLeadingSurrogate]; omega) (by simp [isTrailingSurrogate]; omega) ih
      rw [isEscaped]
      rwa [Char.ofNat_toNat] at spells
    · rw [isEscaped]
      exact .plain isPlain ih

/-- A quoted name with its colon is the name of a member. -/
theorem isNameOf_quote (name : String) : IsNameOf (Spells · name.toList) (quote name ++ [':']) := by
  have isName : IsNameOf (Spells · name.toList) _ :=
    .quoted isBlanks_nil (spells_escape name.toList) isBlanks_nil
  simpa [quote] using isName

end Writing

end SweptCache.Json
