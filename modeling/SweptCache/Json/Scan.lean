/-!
# Scanning JSON text

A scanner takes the text still to be read and gives back what it found with
the rest of the text, or the first `Fault` met from left to right. The scanners
here are those for blanks, fixed words and quoted texts; every one of them that
succeeds leaves less text than it was given.

A quoted text is read character by character. An escape stands either for a
character or for one 16-bit unit, and units from the surrogate range stand for
a character only in pairs. Where the content of a quoted text does not matter
it is skipped, and then such units need not be paired.
-/

namespace SweptCache.Json

/-- Why a text is refused. -/
inductive Fault where
  /-- The text breaks the grammar, or a number in it is out of range. -/
  | malformed
  /-- The text ends where more of it is needed. -/
  | truncated
  /-- The text is in order so far, but what it says is not what is wanted. -/
  | mistyped
  deriving DecidableEq, Repr

/-- What a scanner found, with the rest of the text. -/
abbrev Scanned (α : Type) := Except Fault (α × List Char)

/-- Space, line feed, carriage return and tab separate tokens. -/
def isBlank (character : Char) : Bool :=
  character = ' ' || character = '\n' || character = '\r' || character = '\t'

/-- The text from its first character that is no blank. -/
def dropBlanks (text : List Char) : List Char := text.dropWhile isBlank

theorem dropBlanks_length_le (text : List Char) : (dropBlanks text).length ≤ text.length :=
  (List.dropWhile_sublist isBlank).length_le

/-- The text after a fixed word. -/
def expectWord : List Char → List Char → Except Fault (List Char)
  | [], text => .ok text
  | _ :: _, [] => .error .truncated
  | wanted :: word, character :: text =>
    if character = wanted then expectWord word text else .error .malformed

theorem expectWord_length_le {word text rest : List Char}
    (found : expectWord word text = .ok rest) : rest.length ≤ text.length := by
  induction word generalizing text with
  | nil => simp_all [expectWord]
  | cons wanted word ih =>
    cases text with
    | nil => simp [expectWord] at found
    | cons character text =>
      simp only [expectWord] at found
      split at found
      · have shorter := ih found
        simp only [List.length_cons]
        omega
      · simp at found

/-- The value of a hexadecimal digit of either case. -/
def hexValue? (character : Char) : Option Nat :=
  if '0' ≤ character ∧ character ≤ '9' then some (character.toNat - 48)
  else if 'a' ≤ character ∧ character ≤ 'f' then some (character.toNat - 87)
  else if 'A' ≤ character ∧ character ≤ 'F' then some (character.toNat - 55)
  else none

/-- The bytes that a text takes up in UTF-8. -/
def utf8Size (text : List Char) : Nat :=
  text.foldl (fun size character => size + character.utf8Size) 0

/-- The fault of four hexadecimal digits that are not there: the text ends
early when fewer than four bytes of it are left. -/
def hexFault (text : List Char) : Fault :=
  if utf8Size (text.take 4) < 4 then .truncated else .malformed

/-- One 16-bit unit, written with four hexadecimal digits. -/
def scanUnit (text : List Char) : Scanned Nat :=
  match text with
  | first :: second :: third :: fourth :: rest =>
    match hexValue? first, hexValue? second, hexValue? third, hexValue? fourth with
    | some a, some b, some c, some d => .ok (((a * 16 + b) * 16 + c) * 16 + d, rest)
    | _, _, _, _ => .error (hexFault text)
  | _ => .error (hexFault text)

theorem scanUnit_length_lt {text rest : List Char} {unit : Nat}
    (found : scanUnit text = .ok (unit, rest)) : rest.length < text.length := by
  unfold scanUnit at found
  split at found
  · split at found
    · cases found
      simp only [List.length_cons]
      omega
    · cases found
  · cases found

/-- What an escape stands for. -/
inductive Escaped where
  | character (value : Char)
  | unit (value : Nat)
  deriving DecidableEq, Repr

/-- What a single letter stands for after a backslash. -/
def escapeLetter? (letter : Char) : Option Char :=
  if letter = '"' then some '"'
  else if letter = '\\' then some '\\'
  else if letter = '/' then some '/'
  else if letter = 'b' then some '\x08'
  else if letter = 'f' then some '\x0c'
  else if letter = 'n' then some '\n'
  else if letter = 'r' then some '\r'
  else if letter = 't' then some '\t'
  else none

/-- An escape, read from behind its backslash. -/
def scanEscape : List Char → Scanned Escaped
  | [] => .error .truncated
  | letter :: rest =>
    if letter = 'u' then
      match scanUnit rest with
      | .error fault => .error fault
      | .ok (unit, rest) => .ok (.unit unit, rest)
    else
      match escapeLetter? letter with
      | some character => .ok (.character character, rest)
      | none => .error .malformed

theorem scanEscape_length_lt {text rest : List Char} {escaped : Escaped}
    (found : scanEscape text = .ok (escaped, rest)) : rest.length < text.length := by
  cases text with
  | nil => cases found
  | cons letter text =>
    simp only [scanEscape] at found
    split at found
    · split at found
      · cases found
      · next scanned =>
        cases found
        have shorter := scanUnit_length_lt scanned
        simp only [List.length_cons]
        omega
    · split at found
      · cases found
        simp
      · cases found

/-- Units that open a surrogate pair. -/
def isLeadingSurrogate (unit : Nat) : Bool := 0xD800 ≤ unit && unit ≤ 0xDBFF

/-- Units that close a surrogate pair. -/
def isTrailingSurrogate (unit : Nat) : Bool := 0xDC00 ≤ unit && unit ≤ 0xDFFF

/-- The character for which a surrogate pair stands. -/
def pairedCharacter (leading trailing : Nat) : Char :=
  Char.ofNat (0x10000 + (leading - 0xD800) * 0x400 + (trailing - 0xDC00))

/-- The trailing unit of a surrogate pair, with its escape. -/
def scanTrailingUnit (text : List Char) : Scanned Nat :=
  match expectWord ['\\', 'u'] text with
  | .error fault => .error fault
  | .ok rest =>
    match scanUnit rest with
    | .error fault => .error fault
    | .ok (unit, rest) =>
      if isTrailingSurrogate unit then .ok (unit, rest) else .error .malformed

theorem scanTrailingUnit_length_lt {text rest : List Char} {unit : Nat}
    (found : scanTrailingUnit text = .ok (unit, rest)) : rest.length < text.length := by
  unfold scanTrailingUnit at found
  split at found
  · cases found
  · next opened =>
    split at found
    · cases found
    · next scanned =>
      split at found
      · cases found
        have shorter := scanUnit_length_lt scanned
        have noLonger := expectWord_length_le opened
        omega
      · cases found

/-- The character for which an escape stands, taking the second half of a
surrogate pair from the text after it. -/
def resolveEscape (escaped : Escaped) (text : List Char) : Scanned Char :=
  match escaped with
  | .character character => .ok (character, text)
  | .unit unit =>
    if isTrailingSurrogate unit then .error .malformed
    else if isLeadingSurrogate unit then
      match scanTrailingUnit text with
      | .error fault => .error fault
      | .ok (trailing, rest) => .ok (pairedCharacter unit trailing, rest)
    else .ok (Char.ofNat unit, text)

theorem resolveEscape_length_le {escaped : Escaped} {text rest : List Char} {character : Char}
    (found : resolveEscape escaped text = .ok (character, rest)) :
    rest.length ≤ text.length := by
  unfold resolveEscape at found
  split at found
  · cases found
    exact Nat.le_refl _
  · split at found
    · cases found
    · split at found
      · split at found
        · cases found
        · next scanned =>
          obtain ⟨_, rfl⟩ := Prod.mk.inj (Except.ok.inj found)
          exact Nat.le_of_lt (scanTrailingUnit_length_lt scanned)
      · obtain ⟨_, rfl⟩ := Prod.mk.inj (Except.ok.inj found)
        exact Nat.le_refl _

/-- One character of a quoted text, or none at the closing quote. -/
def scanCharacter : List Char → Scanned (Option Char)
  | [] => .error .truncated
  | character :: rest =>
    if character = '"' then .ok (none, rest)
    else if character = '\\' then
      match scanEscape rest with
      | .error fault => .error fault
      | .ok (escaped, rest) =>
        match resolveEscape escaped rest with
        | .error fault => .error fault
        | .ok (character, rest) => .ok (some character, rest)
    else if character.toNat < 32 then .error .malformed
    else .ok (some character, rest)

theorem scanCharacter_length_lt {text rest : List Char} {character : Option Char}
    (found : scanCharacter text = .ok (character, rest)) : rest.length < text.length := by
  cases text with
  | nil => cases found
  | cons first text =>
    simp only [scanCharacter] at found
    split at found
    · cases found
      simp
    · split at found
      · split at found
        · cases found
        · next scanned =>
          split at found
          · cases found
          · next resolved =>
            cases found
            have shorter := scanEscape_length_lt scanned
            have noLonger := resolveEscape_length_le resolved
            simp only [List.length_cons]
            omega
      · split at found
        · cases found
        · cases found
          simp

/-- The content of a quoted text, read from behind its opening quote. -/
def scanQuoted (text : List Char) : Scanned (List Char) :=
  match _scanned : scanCharacter text with
  | .error fault => .error fault
  | .ok (none, rest) => .ok ([], rest)
  | .ok (some character, rest) =>
    match scanQuoted rest with
    | .error fault => .error fault
    | .ok (characters, rest) => .ok (character :: characters, rest)
termination_by text.length
decreasing_by exact scanCharacter_length_lt _scanned

theorem scanQuoted_length_lt {text rest content : List Char}
    (found : scanQuoted text = .ok (content, rest)) : rest.length < text.length := by
  fun_induction scanQuoted text generalizing content rest with
  | case1 => cases found
  | case2 text rest scanned =>
    cases found
    exact scanCharacter_length_lt scanned
  | case3 => cases found
  | case4 text character rest scanned characters remainder scannedRest ih =>
    cases found
    have shorter := scanCharacter_length_lt scanned
    have shorterStill := ih scannedRest
    omega

/-- The rest of a text behind one character of a quoted text, and whether that
was the closing quote. The escape of a 16-bit unit is not looked into. -/
def skipCharacter : List Char → Scanned Bool
  | [] => .error .truncated
  | character :: rest =>
    if character = '"' then .ok (true, rest)
    else if character = '\\' then
      match scanEscape rest with
      | .error fault => .error fault
      | .ok (_, rest) => .ok (false, rest)
    else if character.toNat < 32 then .error .malformed
    else .ok (false, rest)

theorem skipCharacter_length_lt {text rest : List Char} {isClosing : Bool}
    (found : skipCharacter text = .ok (isClosing, rest)) : rest.length < text.length := by
  cases text with
  | nil => cases found
  | cons first text =>
    simp only [skipCharacter] at found
    split at found
    · cases found
      simp
    · split at found
      · split at found
        · cases found
        · next scanned =>
          cases found
          have shorter := scanEscape_length_lt scanned
          simp only [List.length_cons]
          omega
      · split at found
        · cases found
        · cases found
          simp

/-- The text behind a quoted text, read from behind its opening quote. -/
def skipQuoted (text : List Char) : Except Fault (List Char) :=
  match _scanned : skipCharacter text with
  | .error fault => .error fault
  | .ok (true, rest) => .ok rest
  | .ok (false, rest) => skipQuoted rest
termination_by text.length
decreasing_by exact skipCharacter_length_lt _scanned

theorem skipQuoted_length_lt {text rest : List Char}
    (found : skipQuoted text = .ok rest) : rest.length < text.length := by
  fun_induction skipQuoted text with
  | case1 => cases found
  | case2 text rest scanned =>
    cases found
    exact skipCharacter_length_lt scanned
  | case3 text rest scanned ih =>
    have shorter := skipCharacter_length_lt scanned
    have shorterStill := ih found
    omega

end SweptCache.Json
