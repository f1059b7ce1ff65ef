/-!
# JSON documents

The documents in which the cache shows its settings and its state. Numbers are
integers, and the members of an object keep their order. `Json.write` is the
compact written form, without blanks.

Nothing here is the cache's own. The cache leaves the written form and the
syntax of documents to a JSON library, and this module and those below it
follow what such a library documents: which characters of a text are escaped and
how (`Json.write`), which texts are documents, how escapes and numbers are read,
and in which of three ways a text can be at fault (`Json.Fault`).
-/

namespace SweptCache

/-- A JSON value whose numbers are integers. -/
inductive Json where
  | null
  | bool (value : Bool)
  | number (value : Int)
  | string (value : String)
  | list (items : List Json)
  | object (members : List (String × Json))

namespace Json

/-- A natural number as a document. -/
def ofNat (value : Nat) : Json := .number value

/-- A value that may be absent, `null` when it is. -/
def ofOption {α : Type} (toJson : α → Json) : Option α → Json
  | none => .null
  | some value => toJson value

/-- One decimal digit. -/
def digit (value : Nat) : Char := Char.ofNat (48 + value)

/-- The decimal digits of a natural number, without leading zeros. -/
def digits (value : Nat) : List Char :=
  if value < 10 then [digit value] else digits (value / 10) ++ [digit (value % 10)]
termination_by value
decreasing_by omega

/-- One hexadecimal digit in lower case. -/
def hexDigit (value : Nat) : Char :=
  if value < 10 then Char.ofNat (48 + value) else Char.ofNat (87 + value)

/-- A character as it stands inside a quoted text: quotes, backslashes and
control characters are escaped, all else stands for itself. -/
def escape (character : Char) : List Char :=
  if character = '"' then ['\\', '"']
  else if character = '\\' then ['\\', '\\']
  else if character = '\n' then ['\\', 'n']
  else if character = '\r' then ['\\', 'r']
  else if character = '\t' then ['\\', 't']
  else if character = '\x08' then ['\\', 'b']
  else if character = '\x0c' then ['\\', 'f']
  else if character.toNat < 32 then
    ['\\', 'u', '0', '0', hexDigit (character.toNat / 16), hexDigit (character.toNat % 16)]
  else [character]

/-- A text between quotes. -/
def quote (text : String) : List Char := '"' :: text.toList.flatMap escape ++ ['"']

mutual

/-- The written form of a value. -/
def write : Json → List Char
  | .null => ['n', 'u', 'l', 'l']
  | .bool true => ['t', 'r', 'u', 'e']
  | .bool false => ['f', 'a', 'l', 's', 'e']
  | .number (.ofNat value) => digits value
  | .number (.negSucc value) => '-' :: digits (value + 1)
  | .string value => quote value
  | .list items => '[' :: writeItems items ++ [']']
  | .object members => '\x7b' :: writeMembers members ++ ['\x7d']

/-- The items of a list, separated by commas. -/
def writeItems : List Json → List Char
  | [] => []
  | [item] => write item
  | item :: rest => write item ++ ',' :: writeItems rest

/-- The members of an object, separated by commas. -/
def writeMembers : List (String × Json) → List Char
  | [] => []
  | [(name, value)] => quote name ++ ':' :: write value
  | (name, value) :: rest => quote name ++ ':' :: write value ++ ',' :: writeMembers rest

end

/-- The written form of a value as a text. -/
def render (document : Json) : String := String.ofList document.write

end Json

end SweptCache
