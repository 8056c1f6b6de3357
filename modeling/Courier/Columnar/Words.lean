import Courier.Columnar.Small
/-!
# Columns of words

A column of words of a given width starts with a packing byte and holds them in the narrowest of
the widths 8, 4, 2 and 1 that takes the maximum. If that is narrower still, the words are written
less their minimum, which then follows the packing byte at full width. Words of width 1 form a
column of bytes.
-/

namespace Courier.Columnar

def narrowest (full n : Nat) : Nat :=
  if n < UInt8.size then 1
  else if n < UInt16.size then min 2 full
  else if n < UInt32.size then min 4 full
  else full

/-- The packing byte of a width: twice the number of halvings from the full width. -/
def widthCode (full width : Nat) : Nat :=
  2 * Nat.log2 (full / width)

def packAtWidth (width : Nat) (values : List Nat) : Bytes :=
  if width = 1 then packSmalls values else values.flatMap (Bytes.littleEndian width)

def offsetsNarrow (full : Nat) (values : List Nat) : Bool :=
  5 < values.length &&
    narrowest full (greatest values - least values) < narrowest full (greatest values)

def packWords (full : Nat) (values : List Nat) : Bytes :=
  if values.isEmpty then []
  else if offsetsNarrow full values then
    let width := narrowest full (greatest values - least values)
    UInt8.ofNat (widthCode full width - 1) :: Bytes.littleEndian full (least values) ++
      packAtWidth width (values.map (· - least values))
  else
    let width := narrowest full (greatest values)
    UInt8.ofNat (widthCode full width) :: packAtWidth width values

def splitWords (width : Nat) : (count : Nat) → Bytes → List Nat
  | 0, _ => []
  | count + 1, bytes =>
    Bytes.ofLittleEndian (bytes.take width) :: splitWords width count (bytes.drop width)

def readAtWidth (width count : Nat) : Reader (List Nat) :=
  if width = 1 then readSmalls count
  else do
    let bytes ← readBytes (count * width)
    return splitWords width count bytes

def readWords (full count : Nat) : Reader (List Nat) :=
  if count = 0 then pure []
  else do
    let code := (← readByte).toNat
    if widthCode full 1 < code then
      throw .invalidPacking
    if code % 2 = 0 then
      readAtWidth (full >>> (code / 2)) count
    else
      let minimum := Bytes.ofLittleEndian (← readBytes full)
      let offsets ← readAtWidth (full >>> ((code + 1) / 2)) count
      return offsets.map fun v => (v + minimum) % (1 <<< (8 * full))

end Courier.Columnar
