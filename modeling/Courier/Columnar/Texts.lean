import Courier.Columnar.Words
import Courier.Text
/-!
# Columns of texts

Texts are laid out as a column of lengths and then their UTF-8 forms, one behind the other. A
column of lengths is a column of bytes, in which 255 stands for a length of at least that, and a
column of the long ones as 8-byte words.
-/

namespace Courier.Columnar

/-- The length that stands for itself and for every greater one. -/
def longLength : Nat := 255

def total (lengths : List Nat) : Nat :=
  lengths.foldr (· + ·) 0

def packLengths (lengths : List Nat) : Bytes :=
  packSmalls (lengths.map (min longLength)) ++ packWords 8 (lengths.filter (longLength ≤ ·))

/-- The lengths with every one that stands for a long one replaced by the next of those. -/
def fillLong : (shorts longs : List Nat) → List Nat
  | [], _ => []
  | short :: shorts, longs =>
    if short = longLength then longs.headD longLength :: fillLong shorts longs.tail
    else short :: fillLong shorts longs

/-- No sum of lengths gets this far. -/
def lengthLimit : Nat := (UInt64.size / 2 - 1) / 4096

def readLengths (count : Nat) : Reader (List Nat) := do
  let shorts ← readSmalls count
  let longs ← readWords 8 (shorts.count longLength)
  let lengths := fillLong shorts longs
  if UInt64.size ≤ total lengths then
    throw .lengthOverflow
  if lengthLimit ≤ total lengths then
    throw .hugeLength
  return lengths

def readLength : Reader Nat := do
  return total (← readLengths 1)

def packTexts (texts : List String) : Bytes :=
  packLengths (texts.map fun s => (Text.bytes s).length) ++ texts.flatMap Text.bytes

def splitTexts : (lengths : List Nat) → Bytes → Except Fault (List String)
  | [], _ => .ok []
  | n :: lengths, bytes =>
    match Text.ofBytes? (bytes.take n) with
    | none => .error .invalidText
    | some s => (splitTexts lengths (bytes.drop n)).map (s :: ·)

def readTexts (count : Nat) : Reader (List String) := do
  let lengths ← readLengths count
  let bytes ← readBytes (total lengths)
  StateT.lift (splitTexts lengths bytes)

def packText (s : String) : Bytes :=
  packTexts [s]

def readText : Reader String := do
  return (← readTexts 1).headD ""

end Courier.Columnar
