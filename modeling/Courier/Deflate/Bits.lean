import Courier.Bytes
/-!
# Bit streams

A compressed stream is read bit by bit, the lowest bit of each byte first. A `BitSource` is what
is left of one: the bits left of the byte under way, and the bytes behind it. `packBits` makes
bytes of bits, the last one filled up with zeros.
-/

namespace Courier.Deflate

/-- What is left of a bit stream. -/
structure BitSource where
  held : List Bool
  bytes : Bytes

/-- The bits of a byte, the lowest first. -/
def byteBits (b : UInt8) : List Bool :=
  [b &&& 1 ≠ 0, b &&& 2 ≠ 0, b &&& 4 ≠ 0, b &&& 8 ≠ 0,
    b &&& 16 ≠ 0, b &&& 32 ≠ 0, b &&& 64 ≠ 0, b &&& 128 ≠ 0]

def ofBits : List Bool → Nat
  | [] => 0
  | b :: rest => b.toNat + 2 * ofBits rest

def lowBits : (width : Nat) → Nat → List Bool
  | 0, _ => []
  | width + 1, n => (n % 2 = 1) :: lowBits width (n / 2)

namespace BitSource

def ofBytes (bytes : Bytes) : BitSource :=
  ⟨[], bytes⟩

def view (s : BitSource) : List Bool :=
  s.held ++ s.bytes.flatMap byteBits

def next? (s : BitSource) : Option (Bool × BitSource) :=
  match s.held with
  | b :: held => some (b, ⟨held, s.bytes⟩)
  | [] =>
    match s.bytes with
    | [] => none
    | byte :: bytes =>
      match byteBits byte with
      | b :: held => some (b, ⟨held, bytes⟩)
      | [] => none

def number? : (width : Nat) → BitSource → Option (Nat × BitSource)
  | 0, s => some (0, s)
  | width + 1, s =>
    match s.next? with
    | none => none
    | some (b, s) =>
      match number? width s with
      | none => none
      | some (n, s) => some (b.toNat + 2 * n, s)

def cutAfter (n : Nat) (s : BitSource) : BitSource :=
  ⟨s.held, s.bytes.take n⟩

end BitSource

def packBitsOnto (gathered : Bytes) : List Bool → Bytes
  | b₀ :: b₁ :: b₂ :: b₃ :: b₄ :: b₅ :: b₆ :: b₇ :: rest =>
    packBitsOnto (UInt8.ofNat (ofBits [b₀, b₁, b₂, b₃, b₄, b₅, b₆, b₇]) :: gathered) rest
  | [] => gathered.reverse
  | bits => (UInt8.ofNat (ofBits bits) :: gathered).reverse

/-- Bits packed into bytes, the last byte filled up with zeros. -/
def packBits (bits : List Bool) : Bytes :=
  packBitsOnto [] bits

end Courier.Deflate
