import Courier.Deflate.Code
/-!
# Tokens and their symbols

Compressed data is a sequence of tokens: a byte that stands for itself, or a copy of bytes that
came before. A copy's length and distance are each written as a symbol and some extra bits;
`Range` tables give the least value of each symbol.
-/

namespace Courier.Deflate

/-- One step of a decompression. -/
inductive Token where
  | literal (b : UInt8)
  | copy (length distance : Nat)

def Token.length : Token → Nat
  | literal _ => 1
  | copy length _ => length

/-- The numbers from `least` on, told apart by so many extra bits. -/
structure Range where
  least : Nat
  extraBits : Nat
  deriving Repr, DecidableEq

def lengthRanges : List Range := [
  ⟨3, 0⟩, ⟨4, 0⟩, ⟨5, 0⟩, ⟨6, 0⟩, ⟨7, 0⟩, ⟨8, 0⟩, ⟨9, 0⟩, ⟨10, 0⟩,
  ⟨11, 1⟩, ⟨13, 1⟩, ⟨15, 1⟩, ⟨17, 1⟩, ⟨19, 2⟩, ⟨23, 2⟩, ⟨27, 2⟩, ⟨31, 2⟩,
  ⟨35, 3⟩, ⟨43, 3⟩, ⟨51, 3⟩, ⟨59, 3⟩, ⟨67, 4⟩, ⟨83, 4⟩, ⟨99, 4⟩, ⟨115, 4⟩,
  ⟨131, 5⟩, ⟨163, 5⟩, ⟨195, 5⟩, ⟨227, 5⟩, ⟨258, 0⟩]

def distanceRanges : List Range := [
  ⟨1, 0⟩, ⟨2, 0⟩, ⟨3, 0⟩, ⟨4, 0⟩, ⟨5, 1⟩, ⟨7, 1⟩, ⟨9, 2⟩, ⟨13, 2⟩,
  ⟨17, 3⟩, ⟨25, 3⟩, ⟨33, 4⟩, ⟨49, 4⟩, ⟨65, 5⟩, ⟨97, 5⟩, ⟨129, 6⟩, ⟨193, 6⟩,
  ⟨257, 7⟩, ⟨385, 7⟩, ⟨513, 8⟩, ⟨769, 8⟩, ⟨1025, 9⟩, ⟨1537, 9⟩, ⟨2049, 10⟩, ⟨3073, 10⟩,
  ⟨4097, 11⟩, ⟨6145, 11⟩, ⟨8193, 12⟩, ⟨12289, 12⟩, ⟨16385, 13⟩, ⟨24577, 13⟩]

def farthestCopy : Nat := 32768

def endOfBlock : Nat := 256

def firstLengthSymbol : Nat := 257

/-- The last range whose least number is not above the given one, with its place. -/
def rangeOf (ranges : List Range) (n : Nat) : Range × Nat :=
  (ranges.zipIdx.filter fun r => r.1.least ≤ n).getLastD (⟨0, 0⟩, 0)

def fixedLiteralLengths : List Nat :=
  List.replicate 144 8 ++ List.replicate 112 9 ++ List.replicate 24 7 ++ List.replicate 8 8

def fixedDistanceLengths : List Nat :=
  List.replicate 32 5

def fixedLiteralWord (symbol : Nat) : List Bool :=
  if symbol < 144 then wordBits 8 (0x30 + symbol)
  else if symbol < 256 then wordBits 9 (0x190 + (symbol - 144))
  else if symbol < 280 then wordBits 7 (symbol - 256)
  else wordBits 8 (0xC0 + (symbol - 280))

def Token.bits (literalWord distanceWord : Nat → List Bool) : Token → List Bool
  | literal b => literalWord b.toNat
  | copy length distance =>
    let (lengthRange, lengthPlace) := rangeOf lengthRanges length
    let (distanceRange, distancePlace) := rangeOf distanceRanges distance
    literalWord (firstLengthSymbol + lengthPlace) ++
      lowBits lengthRange.extraBits (length - lengthRange.least) ++
      distanceWord distancePlace ++ lowBits distanceRange.extraBits (distance - distanceRange.least)

end Courier.Deflate
