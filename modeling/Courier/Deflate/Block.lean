import Courier.Deflate.LengthSymbol
import Courier.Deflate.Stretch
import Courier.Deflate.WordLengths
/-!
# Writing blocks

A stretch of tokens is written as one block. A short one is written in the fixed code, a longer
one in a code of its own; if that takes up no less space than its bytes, they are stored as they
are.
-/

namespace Courier.Deflate

def wordTable (lengths : List Nat) : Array (List Bool) :=
  (words lengths).foldl (fun table w => table.setIfInBounds w.1 w.2)
    (Array.replicate lengths.length [])

def wordIn (table : Array (List Bool)) (symbol : Nat) : List Bool :=
  table[symbol]?.getD []

def Token.symbols : Token → Nat × Option Nat
  | literal b => (b.toNat, none)
  | copy length distance =>
    (firstLengthSymbol + (rangeOf lengthRanges length).2, some (rangeOf distanceRanges distance).2)

def literalSymbols : Nat := 286

def distanceSymbols : Nat := 30

def countSymbols (size : Nat) (symbols : List Nat) : List Nat :=
  (symbols.foldl (fun counts symbol => counts.modify symbol (· + 1))
    (Array.replicate size 0)).toList

/-- Lengths without the zeros at the end, except for the first one. -/
def trimmed : List Nat → List Nat
  | [] => []
  | length :: rest => length :: (rest.reverse.dropWhile (· = 0)).reverse

def contentBits (literalWord distanceWord : Nat → List Bool) (tokens : List Token) : List Bool :=
  tokens.flatMap (Token.bits literalWord distanceWord) ++ literalWord endOfBlock

def fixedBlock (tokens : List Token) : List Bool :=
  [true, false] ++ contentBits fixedLiteralWord (wordBits 5) tokens

/-- The code for lengths in front of a block: how many lengths there are, the code for lengths,
and the lengths. -/
def codeBits (literals distances : List Nat) : List Bool :=
  let packed := packLengths (literals ++ distances)
  let lengths := wordLengths 7 (countSymbols 19 (packed.map LengthSymbol.number))
  let ordered := lengthCodeOrder.map fun symbol => lengths.getD symbol 0
  let count := max 4 (trimmed ordered).length
  let table := wordTable lengths
  lowBits 5 (literals.length - 257) ++ lowBits 5 (distances.length - 1) ++ lowBits 4 (count - 4) ++
    (ordered.take count).flatMap (lowBits 3) ++
    packed.flatMap fun symbol => wordIn table symbol.number ++ symbol.extraBits

def ownBlock (tokens : List Token) : List Bool :=
  let symbols := tokens.map Token.symbols
  let literals :=
    trimmed (wordLengths longestWord
      (countSymbols literalSymbols (endOfBlock :: symbols.map (·.1))))
  let distances :=
    trimmed (wordLengths longestWord (countSymbols distanceSymbols (symbols.filterMap (·.2))))
  [false, true] ++ codeBits literals distances ++
    contentBits (wordIn (wordTable literals)) (wordIn (wordTable distances)) tokens

/-- Bytes as a stored block, but for the bit that says whether it is the last one; `written`
counts the bits before. -/
def storedBits (written : Nat) (content : Bytes) : List Bool :=
  [false, false] ++ List.replicate ((8 - (written + 2) % 8) % 8) false ++
    (Bytes.littleEndian 2 content.length ++ Bytes.littleEndian 2 (0xFFFF - content.length) ++
      content).flatMap byteBits

def ownCodeFrom : Nat := 48

def neverStored : Nat := 32

def Stretch.bits (data : Array UInt8) (written : Nat) (last : Bool) (s : Stretch) : List Bool :=
  let written := written + 1
  let block := if s.length < ownCodeFrom then fixedBlock s.tokens else ownBlock s.tokens
  let bytes := (written + block.length) / 8 - written / 8
  if neverStored < s.length && s.inWindow && s.length ≤ bytes + 1 then
    last :: storedBits written (data.extract s.start (s.start + s.length)).toList
  else last :: block

def blocksBits (data : Array UInt8) : (written : Nat) → List Stretch → List (List Bool)
  | _, [] => []
  | written, s :: rest =>
    let bits := s.bits data written rest.isEmpty
    bits :: blocksBits data (written + bits.length) rest

end Courier.Deflate
