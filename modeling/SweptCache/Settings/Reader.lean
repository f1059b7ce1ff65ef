import SweptCache.Json.Skip
import SweptCache.Settings

/-!
# Reading settings

Settings are read from an object whose members set options by name, or from a
list whose items set them in order. Options that are not set keep their
defaults, members with other names are skipped whatever their value is, and no
option may be set twice. A capacity may be `null`, and every other value has to
be a whole number that fits in a word.

The text is read from left to right and the first fault wins. A value of the
wrong kind is only read as far as it takes to see its kind: a word, a number or
a quoted text to its end, a list or an object not at all.

Little of this is said by the configuration. It declares the options with their
names, types and defaults, in this order (`SettingsOption`, `Settings.standard`),
leaves the reading to a reader that is derived from the declaration, and checks
what was read for flaws (`Settings.validate`). The scanners and `Assignment.read`
stand for the derived reader. They follow what is documented of such readers:
members by name or by place, a default for what is absent, no member twice,
unknown members skipped, and a value taken only if it has the declared type. What
the configuration does itself begins with `Settings.ofText`.
-/

namespace SweptCache

open SweptCache.Json

namespace Json

/-- The fault of a value that is no number where only a number will do. -/
def unsuitableFault (text : List Char) : Fault :=
  match text with
  | [] => .truncated
  | first :: rest =>
    if first = '[' ∨ first = '\x7b' then .mistyped
    else if first = '"' then
      match scanQuoted rest with
      | .error fault => fault
      | .ok _ => .mistyped
    else if startsNumber first then
      match scanNumberInRange text with
      | .error fault => fault
      | .ok _ => .mistyped
    else if first = 'n' ∨ first = 't' ∨ first = 'f' then
      match skipScalar text with
      | .error fault => fault
      | .ok _ => .mistyped
    else .malformed

/-- A whole number that fits in a word. -/
def scanAmount (text : List Char) : Scanned UInt64 :=
  let text := dropBlanks text
  if text.head?.any startsNumber then
    match scanNumberInRange text with
    | .error fault => .error fault
    | .ok (literal, rest) =>
      match literal.amount? with
      | some amount => .ok (amount, rest)
      | none => .error .mistyped
  else .error (unsuitableFault text)

theorem scanAmount_length_lt {text rest : List Char} {amount : UInt64}
    (found : scanAmount text = .ok (amount, rest)) : rest.length < text.length := by
  have noLonger := dropBlanks_length_le text
  simp only [scanAmount] at found
  split at found
  · split at found
    · cases found
    · next scanned =>
      split at found
      · cases found
        unfold scanNumberInRange at scanned
        split at scanned
        · cases scanned
        · next inner =>
          split at scanned
          · cases scanned
          · cases scanned
            have shorter := scanNumber_length_lt inner
            omega
      · cases found
  · cases found

/-- A whole number that fits in a word, or `null`. -/
def scanCapacity (text : List Char) : Scanned (Option UInt64) :=
  match dropBlanks text with
  | 'n' :: rest =>
    match expectWord ['u', 'l', 'l'] rest with
    | .error fault => .error fault
    | .ok rest => .ok (none, rest)
  | _ =>
    match scanAmount text with
    | .error fault => .error fault
    | .ok (amount, rest) => .ok (some amount, rest)

theorem scanCapacity_length_lt {text rest : List Char} {capacity : Option UInt64}
    (found : scanCapacity text = .ok (capacity, rest)) : rest.length < text.length := by
  have noLonger := dropBlanks_length_le text
  unfold scanCapacity at found
  split at found
  · next blanks =>
    rw [blanks] at noLonger
    simp only [List.length_cons] at noLonger
    split at found
    · cases found
    · next expected =>
      cases found
      have shorter := expectWord_length_le expected
      omega
  · split at found
    · cases found
    · next scanned =>
      cases found
      exact scanAmount_length_lt scanned

end Json

namespace Assignment

/-- The value of an option. -/
def scan (option : SettingsOption) (text : List Char) : Scanned Assignment :=
  match option with
  | .capacity option =>
    match scanCapacity text with
    | .error fault => .error fault
    | .ok (value, rest) => .ok (.capacity option value, rest)
  | .amount option =>
    match scanAmount text with
    | .error fault => .error fault
    | .ok (value, rest) => .ok (.amount option value, rest)

theorem scan_length_lt {option : SettingsOption} {text rest : List Char} {assignment : Assignment}
    (found : scan option text = .ok (assignment, rest)) : rest.length < text.length := by
  unfold scan at found
  split at found
  · split at found
    · cases found
    · next scanned =>
      cases found
      exact scanCapacity_length_lt scanned
  · split at found
    · cases found
    · next scanned =>
      cases found
      exact scanAmount_length_lt scanned

/-- The value that follows the name of a member, if the name is that of an option. -/
def scanMember (made : List Assignment) (name text : List Char) : Scanned (List Assignment) :=
  match SettingsOption.ofName? name with
  | none =>
    match expectColon text with
    | .error fault => .error fault
    | .ok rest =>
      match skipValue rest with
      | .error fault => .error fault
      | .ok rest => .ok (made, rest)
  | some option =>
    if made.any (fun assignment => assignment.option = option) then .error .mistyped
    else
      match expectColon text with
      | .error fault => .error fault
      | .ok rest =>
        match scan option rest with
        | .error fault => .error fault
        | .ok (assignment, rest) => .ok (made ++ [assignment], rest)

theorem scanMember_length_lt {made assignments : List Assignment} {name text rest : List Char}
    (found : scanMember made name text = .ok (assignments, rest)) :
    rest.length < text.length := by
  unfold scanMember at found
  split at found
  · split at found
    · cases found
    · next colon =>
      split at found
      · cases found
      · next skipped =>
        cases found
        have first := expectColon_length_lt colon
        have second := skipValue_length_lt skipped
        omega
  · split at found
    · cases found
    · split at found
      · cases found
      · next colon =>
        split at found
        · cases found
        · next scanned =>
          cases found
          have first := expectColon_length_lt colon
          have second := scan_length_lt scanned
          omega

/-- One member of an object, added to the assignments that the members before it made. -/
def scanNamedMember (made : List Assignment) (text : List Char) : Scanned (List Assignment) :=
  match dropBlanks text with
  | [] => .error .truncated
  | first :: rest =>
    if first = '"' then
      match scanQuoted rest with
      | .error fault => .error fault
      | .ok (name, rest) => scanMember made name rest
    else .error .malformed

theorem scanNamedMember_length_lt {made assignments : List Assignment} {text rest : List Char}
    (found : scanNamedMember made text = .ok (assignments, rest)) :
    rest.length < text.length := by
  have noLonger := dropBlanks_length_le text
  unfold scanNamedMember at found
  split at found
  · cases found
  · next blanks =>
    rw [blanks] at noLonger
    simp only [List.length_cons] at noLonger
    split at found
    · split at found
      · cases found
      · next quoted =>
        have first := scanQuoted_length_lt quoted
        have second := scanMember_length_lt found
        omega
    · cases found

/-- The members of an object up to its end, of which there has to be one. -/
def scanMembers (made : List Assignment) (text : List Char) : Scanned (List Assignment) :=
  match _scanned : scanNamedMember made text with
  | .error fault => .error fault
  | .ok (made, afterMember) =>
    match _blanks : dropBlanks afterMember with
    | [] => .error .truncated
    | separator :: rest =>
      if separator = '\x7d' then .ok (made, rest)
      else if separator = ',' then scanMembers made rest
      else .error .malformed
termination_by text.length
decreasing_by
  have shorter := scanNamedMember_length_lt _scanned
  have noLonger := dropBlanks_length_le afterMember
  rw [_blanks] at noLonger
  simp only [List.length_cons] at noLonger
  omega

/-- An object, read from behind its opening brace. -/
def scanObject (text : List Char) : Scanned (List Assignment) :=
  match dropBlanks text with
  | '\x7d' :: rest => .ok ([], rest)
  | text => scanMembers [] text

/-- The items of a list up to its end, of which there have to be as many as options at most. -/
def scanItems (made : List Assignment) :
    List SettingsOption → List Char → Scanned (List Assignment)
  | [], _ => .error .malformed
  | option :: options, text =>
    match scan option text with
    | .error fault => .error fault
    | .ok (assignment, rest) =>
      match dropBlanks rest with
      | [] => .error .truncated
      | separator :: rest =>
        if separator = ']' then .ok (made ++ [assignment], rest)
        else if separator = ',' then scanItems (made ++ [assignment]) options rest
        else .error .malformed

/-- A list, read from behind its opening bracket. -/
def scanList (text : List Char) : Scanned (List Assignment) :=
  match dropBlanks text with
  | ']' :: rest => .ok ([], rest)
  | text => scanItems [] SettingsOption.all text

/-- An object or a list. -/
def scanDocument (text : List Char) : Scanned (List Assignment) :=
  match dropBlanks text with
  | [] => .error .truncated
  | first :: rest =>
    if first = '\x7b' then scanObject rest
    else if first = '[' then scanList rest
    else .error (unsuitableFault (first :: rest))

/-- The assignments that a text makes, which holds nothing else but blanks. -/
def read (text : List Char) : Except Fault (List Assignment) :=
  match scanDocument text with
  | .error fault => .error fault
  | .ok (made, rest) => if dropBlanks rest = [] then .ok made else .error .malformed

end Assignment

/-- What a file turns out to be when it is read. -/
inductive FileContent where
  | missing
  | directory
  | bytes (content : ByteArray)

/-- Why a file gives no text. -/
inductive FileFault where
  | missing
  | directory
  | notText
  deriving DecidableEq, Repr

/-- The text that explains why a file gives no text. -/
def FileFault.message : FileFault → String
  | .missing => "No such file or directory (os error 2)"
  | .directory => "Is a directory (os error 21)"
  | .notText => "stream did not contain valid UTF-8"

/-- The text of a file. -/
def FileContent.text : FileContent → Except FileFault String
  | .missing => .error .missing
  | .directory => .error .directory
  | .bytes content =>
    match String.fromUTF8? content with
    | some text => .ok text
    | none => .error .notText

/-- Why no settings could be read. -/
inductive SettingsError where
  | file (fault : FileFault)
  | parse (fault : Fault)
  | invalid (flaw : SettingsFlaw)
  deriving DecidableEq, Repr

/-- The words for a fault in a text. -/
def Json.Fault.message : Fault → String
  | .malformed => "malformed text"
  | .truncated => "unexpected end of text"
  | .mistyped => "unsuitable value"

/-- The text that explains why no settings could be read. -/
def SettingsError.message : SettingsError → String
  | .file fault => "IO error: " ++ fault.message
  | .parse fault => "Parse error: " ++ fault.message
  | .invalid flaw => "Invalid configuration: " ++ flaw.message

namespace Settings

/-- The settings that a text describes, on a machine with so many processor cores. -/
def ofText (cores : UInt64) (text : String) : Except SettingsError Settings :=
  match Assignment.read text.toList with
  | .error fault => .error (.parse fault)
  | .ok assignments =>
    match ((standard cores).assignAll assignments).validate with
    | .error flaw => .error (.invalid flaw)
    | .ok settings => .ok settings

/-- The settings that a file describes, on a machine with so many processor cores. -/
def ofFile (cores : UInt64) (file : FileContent) : Except SettingsError Settings :=
  match file.text with
  | .error fault => .error (.file fault)
  | .ok text => ofText cores text

/-- Whether reading the written form of the settings gives them back. -/
def isReadBack (cores : UInt64) (settings : Settings) : Bool :=
  match ofText cores settings.render with
  | .error _ => false
  | .ok readBack => readBack = settings

/-- Whether a text sets an option. -/
def textSets (option : SettingsOption) (text : String) : Bool :=
  match Assignment.read text.toList with
  | .error _ => false
  | .ok assignments => assignments.any fun assignment => assignment.option = option

end Settings

end SweptCache
