import Courier.Deflate.Allowance
import Courier.Deflate.LengthSymbol
/-!
# Decompression

`inflate` undoes a compression, block by block: stored bytes, tokens in the fixed code, or tokens
in a code of the block's own. It stops at the end of the run in which the output passes a limit. A
distance may reach before the first byte of the output, where the window holds zeros.
-/

namespace Courier.Deflate

def decodeSymbol (tree : Tree) (s : BitSource) : Except Fault (Nat × BitSource) :=
  match tree.decode s with
  | .symbol value s => .ok (value, s)
  | .unassigned => .error .corrupt
  | .ended => .error .ended

def readNumber (width : Nat) (s : BitSource) : Except Fault (Nat × BitSource) :=
  match s.number? width with
  | some r => .ok r
  | none => .error .ended

def readRange (range : Range) (s : BitSource) : Except Fault (Nat × BitSource) :=
  match readNumber range.extraBits s with
  | .ok (extra, s) => .ok (range.least + extra, s)
  | .error e => .error e

inductive Step where
  | token (t : Token) (rest : BitSource)
  | blockEnd (rest : BitSource)

def readCopy (distances : Tree) (symbol : Nat) (s : BitSource) : Except Fault Step := do
  match lengthRanges[symbol - firstLengthSymbol]? with
  | none => throw .corrupt
  | some lengthRange =>
    let (length, s) ← readRange lengthRange s
    let (place, s) ← decodeSymbol distances s
    match distanceRanges[place]? with
    | none => throw .corrupt
    | some distanceRange =>
      let (distance, s) ← readRange distanceRange s
      return .token (.copy length distance) s

def readStep (literals distances : Tree) (s : BitSource) : Except Fault Step :=
  match decodeSymbol literals s with
  | .error e => .error e
  | .ok (symbol, s) =>
    if symbol < endOfBlock then .ok (.token (.literal (UInt8.ofNat symbol)) s)
    else if symbol = endOfBlock then .ok (.blockEnd s)
    else readCopy distances symbol s

def inflateTokens (a : Allowance) (literals distances : Tree) :
    (fuel : Nat) → BitSource → Array UInt8 → Except Stop (BitSource × Array UInt8)
  | 0, _, _ => .error .corrupt
  | fuel + 1, s, output =>
    match readStep literals distances s with
    | .error fault => .error (a.stop output.size fault)
    | .ok (.blockEnd s) => .ok (s, output)
    | .ok (.token t s) =>
      match a.emit t s output with
      | none => .error (a.passed (output.size + t.length))
      | some (s, output) => inflateTokens a literals distances fuel s output

def copyStored (a : Allowance) :
    (length : Nat) → BitSource → Array UInt8 → Except Stop (BitSource × Array UInt8)
  | 0, s, output => .ok (s, output)
  | length + 1, s, output =>
    match s.bytes with
    | [] => .error (a.stop output.size .ended)
    | b :: bytes =>
      match a.emit (.literal b) (.ofBytes bytes) output with
      | none => .error (a.passed (output.size + 1))
      | some (s, output) => copyStored a length s output

/-- Reads the length of a stored block from the next whole byte on; its complement follows it. -/
def readStoredLength (s : BitSource) : Except Fault (Nat × BitSource) :=
  match s.bytes with
  | l₀ :: l₁ :: n₀ :: n₁ :: bytes =>
    let length := Bytes.ofLittleEndian [l₀, l₁]
    if Bytes.ofLittleEndian [n₀, n₁] ≠ 0xFFFF - length then .error .corrupt
    else .ok (length, .ofBytes bytes)
  | _ => .error .ended

def readTriples : (count : Nat) → BitSource → Except Fault (List Nat × BitSource)
  | 0, s => .ok ([], s)
  | count + 1, s => do
    let (n, s) ← readNumber 3 s
    let (rest, s) ← readTriples count s
    return (n :: rest, s)

/-- Reads code lengths behind those gathered in reverse, until there are `total`; `fuel` bounds
the number of steps. -/
def readLengths (tree : Tree) (total : Nat) :
    (fuel : Nat) → (gathered : List Nat) → BitSource → Except Fault (List Nat × BitSource)
  | 0, _, _ => .error .corrupt
  | fuel + 1, gathered, s =>
    if gathered.length = total then .ok (gathered.reverse, s)
    else if total < gathered.length then .error .corrupt
    else
      match decodeSymbol tree s with
      | .error e => .error e
      | .ok (symbol, s) =>
        if symbol < 16 then readLengths tree total fuel (symbol :: gathered) s
        else
          let (value?, range) : Option Nat × Range :=
            if symbol = 16 then (gathered.head?, ⟨3, 2⟩)
            else if symbol = 17 then (some 0, ⟨3, 3⟩)
            else (some 0, ⟨11, 7⟩)
          match value? with
          | none => .error .corrupt
          | some value =>
            match readRange range s with
            | .error e => .error e
            | .ok (count, s) =>
              readLengths tree total fuel (List.replicate count value ++ gathered) s

def readTrees (s : BitSource) : Except Fault (Tree × Tree × BitSource) := do
  let (literalCount, s) ← readNumber 5 s
  let (distanceCount, s) ← readNumber 5 s
  let (orderCount, s) ← readNumber 4 s
  let literalCount := literalCount + 257
  let distanceCount := distanceCount + 1
  if 286 < literalCount || 30 < distanceCount then
    throw .corrupt
  let (triples, s) ← readTriples (orderCount + 4) s
  let lengthOf (symbol : Nat) : Nat := ((lengthCodeOrder.zip triples).lookup symbol).getD 0
  let codeLengths := (List.range 19).map lengthOf
  if !isComplete codeLengths then
    throw .corrupt
  let total := literalCount + distanceCount
  let (lengths, s) ← readLengths (Tree.ofLengths codeLengths) total (total + 1) [] s
  let literals := lengths.take literalCount
  let distances := lengths.drop literalCount
  if !(isUsable literals && isUsable distances) then
    throw .corrupt
  return (.ofLengths literals, .ofLengths distances, s)

def fixedLiterals : Tree := .ofLengths fixedLiteralLengths

def fixedDistances : Tree := .ofLengths fixedDistanceLengths

inductive Content where
  | stored (length : Nat)
  | coded (literals distances : Tree)

def readHead (s : BitSource) : Except Fault (Bool × Content × BitSource) := do
  let (last, s) ← readNumber 1 s
  let (kind, s) ← readNumber 2 s
  if kind = 0 then
    let (length, s) ← readStoredLength s
    return (last = 1, .stored length, s)
  else if kind = 1 then
    return (last = 1, .coded fixedLiterals fixedDistances, s)
  else if kind = 2 then
    let (literals, distances, s) ← readTrees s
    return (last = 1, .coded literals distances, s)
  else throw .corrupt

def inflateContent (a : Allowance) (bound : Nat) (s : BitSource) (output : Array UInt8) :
    Content → Except Stop (BitSource × Array UInt8)
  | .stored length => copyStored a length s output
  | .coded literals distances => inflateTokens a literals distances bound s output

def inflateBlocks (a : Allowance) (bound : Nat) :
    (fuel : Nat) → BitSource → Array UInt8 → Except Stop (BitSource × Array UInt8)
  | 0, _, _ => .error .corrupt
  | fuel + 1, s, output =>
    match readHead s with
    | .error fault => .error (a.stop output.size fault)
    | .ok (last, content, s) =>
      match inflateContent a bound s output content with
      | .error e => .error e
      | .ok (s, output) => if last then .ok (s, output) else inflateBlocks a bound fuel s output

/-- Decompresses the data behind the first `start` bytes of the input, up to a limit: the output,
and what follows the data. Every block and every token takes up a bit, which bounds their number.
-/
def inflate (limit start : Nat) (data : Bytes) : Except Stop (Bytes × Bytes) :=
  let a : Allowance := ⟨limit, start + data.length⟩
  let bound := 8 * data.length + 1
  match inflateBlocks a bound bound (.ofBytes data) #[] with
  | .error e => .error e
  | .ok (s, output) =>
    if limit < output.size then .error (a.passed output.size) else .ok (output.toList, s.bytes)

end Courier.Deflate
