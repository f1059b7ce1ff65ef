/-!
# Estimated sizes

A stored hit is taken to occupy a fixed number of bytes. Sizes are exact
natural numbers, and a size or a total that does not fit in a 64-bit word is
an `Overflow`, which names the operation that left the word. Capacity options
count megabytes of a million bytes, rounded down when bytes are read as
megabytes and cut off at the largest word when megabytes are read as bytes.
-/

namespace SweptCache

/-- The first number that no 64-bit word holds. -/
def wordSize : Nat := 1 <<< 64

/-- Bytes taken up by one stored hit: three numbers and the object around them. -/
def bytesPerHit : Nat := 24

/-- Bytes in one megabyte. -/
def bytesPerMegabyte : Nat := 1000000

/-- The operation whose exact result does not fit in a word. -/
inductive Overflow where
  | multiplication
  | addition
  deriving DecidableEq, Repr

/-- The text with which an overflow is reported. -/
def Overflow.message : Overflow → String
  | .multiplication => "attempt to multiply with overflow"
  | .addition => "attempt to add with overflow"

/-- The bytes taken up by a number of stored hits, whether or not they fit in a word. -/
def exactSize (hits : UInt64) : Nat := hits.toNat * bytesPerHit

/-- The bytes taken up by a number of stored hits. -/
def sizeOfHits (hits : UInt64) : Except Overflow Nat :=
  if exactSize hits < wordSize then .ok (exactSize hits) else .error .multiplication

/-- The sum of two amounts. -/
def addAmounts (first second : Nat) : Except Overflow Nat :=
  if first + second < wordSize then .ok (first + second) else .error .addition

/-- A running total continued over the sizes of further numbers of stored hits. -/
def totalSizeFrom (total : Nat) : List UInt64 → Except Overflow Nat
  | [] => .ok total
  | hits :: rest =>
    match sizeOfHits hits with
    | .error overflow => .error overflow
    | .ok size =>
      match addAmounts total size with
      | .error overflow => .error overflow
      | .ok total => totalSizeFrom total rest

/-- The total size of several numbers of stored hits, added up in the order given. -/
def totalSize (hits : List UInt64) : Except Overflow Nat := totalSizeFrom 0 hits

/-- The bytes in a number of megabytes, at most the largest word. -/
def bytesOfMegabytes (megabytes : UInt64) : Nat :=
  min (megabytes.toNat * bytesPerMegabyte) (wordSize - 1)

/-- The whole megabytes in a number of bytes. -/
def wholeMegabytes (bytes : Nat) : Nat := bytes / bytesPerMegabyte

end SweptCache
