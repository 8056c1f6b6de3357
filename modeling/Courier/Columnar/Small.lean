import Courier.Columnar.Column
/-!
# Columns of bytes

A column of more than two bytes starts with a packing byte. Values below 16, 6, 4, 3 or 2 share a
byte by twos, threes, fours, fives or eights; if that packs tighter, the values are written less
their minimum, which then follows the packing byte. `readSmalls` undoes `packSmalls` and accepts
every packing, also one that is not the tightest.
-/

namespace Courier.Columnar

/-- A way to let values share a byte. -/
structure Packing where
  code : Nat
  base : Nat
  perByte : Nat

def packings : List Packing :=
  [⟨10, 2, 8⟩, ⟨8, 3, 5⟩, ⟨6, 4, 4⟩, ⟨4, 6, 3⟩, ⟨2, 16, 2⟩]

def packingFor? (maximum : Nat) : Option Packing :=
  packings.find? (maximum < ·.base)

def packingCode (maximum : Nat) : Nat :=
  ((packingFor? maximum).map (·.code)).getD 0

def packingOf? (code : Nat) : Option Packing :=
  packings.find? (·.code = code)

def packAs (code : Nat) (values : List Nat) : Bytes :=
  match packingOf? code with
  | some p => packDigits p.base p.perByte values
  | none => values.map UInt8.ofNat

/-- Whether a column is written less its minimum. -/
def offsetsPack (values : List Nat) : Bool :=
  5 < values.length && packingCode (greatest values) < packingCode (greatest values - least values)

def packSmalls (values : List Nat) : Bytes :=
  if values.length ≤ 2 then values.map UInt8.ofNat
  else if offsetsPack values then
    let code := packingCode (greatest values - least values)
    UInt8.ofNat (code - 1) :: UInt8.ofNat (least values) ::
      packAs code (values.map (· - least values))
  else
    let code := packingCode (greatest values)
    UInt8.ofNat code :: packAs code values

def readPacked (code count : Nat) : Reader (List Nat) :=
  match packingOf? code with
  | some p => do
    let packed ← readBytes ((count + p.perByte - 1) / p.perByte)
    return unpackDigits p.base p.perByte count packed
  | none => do
    let raw ← readBytes count
    return raw.map UInt8.toNat

def readSmalls (count : Nat) : Reader (List Nat) :=
  if count ≤ 2 then do
    let raw ← readBytes count
    return raw.map UInt8.toNat
  else do
    let code := (← readByte).toNat
    if 10 < code then
      throw .invalidPacking
    if code % 2 = 0 then
      readPacked code count
    else
      let minimum := (← readByte).toNat
      let offsets ← readPacked (code + 1) count
      return offsets.map fun v => (v + minimum) % 256

end Courier.Columnar
