import Courier.Intake
/-!
# Variable-length integers

An unsigned number in groups of seven bits, the lowest group first, one to a byte; the high bit is
set on every byte but the last. `Varint.encode` writes the shortest form; `Varint.intake` also
reads longer ones, up to a number of bytes, and refuses a group with a bit past the width of the
field.
-/

namespace Courier.Varint

def longest64 : Nat := 10

def longest32 : Nat := 5

/-- The shortest form of a number. -/
def encode (n : Nat) : Bytes :=
  if n < 128 then [UInt8.ofNat n] else UInt8.ofNat (128 + n % 128) :: encode (n / 128)

def encodedLength (n : Nat) : Nat :=
  if n < 128 then 1 else encodedLength (n / 128) + 1

def bitLength (n : Nat) : Nat :=
  if n = 0 then 0 else Nat.log2 n + 1

/-- What has been read of a number: how many groups, and the word that they make up. -/
structure Progress where
  groups : Nat := 0
  value : UInt64 := 0

def group (b : UInt8) : UInt64 :=
  (b &&& 0x7F).toUInt64

namespace Progress

def shift (p : Progress) : Nat :=
  7 * p.groups

/-- Puts the group of a byte in front of those that have been read, unless it has a bit past the
width. -/
def add? (maxBits : Nat) (p : Progress) (b : UInt8) : Option Progress :=
  if maxBits < p.shift + bitLength (group b).toNat then none
  else some { groups := p.groups + 1, value := p.value ||| group b <<< UInt64.ofNat p.shift }

end Progress

def intakeFrom (maxBits : Nat) (p : Progress) : (left : Nat) → Intake UInt64
  | 0 => .fail (.invalidVarint .header)
  | left + 1 =>
    .read .header 1 fun bytes =>
      let b := bytes.headD 0
      match p.add? maxBits b with
      | none => .fail (.invalidVarint .header)
      | some p => if b &&& 0x80 = 0 then .done p.value else intakeFrom maxBits p left

def intake (maxLength maxBits : Nat) : Intake Nat := do
  return (← intakeFrom maxBits {} maxLength).toNat

/-- Reads a number in the longest form of a 32-bit one, which is refused if it is not one. -/
def sizeIntake : Intake UInt32 := do
  let size ← intake longest32 32
  if size < UInt32.size then return UInt32.ofNat size else .fail (.invalidVarint .header)

end Courier.Varint
