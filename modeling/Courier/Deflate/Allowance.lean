import Courier.Deflate.Token
/-!
# How far a decompression goes

An `Allowance` says how much output is wanted. Data is decompressed in runs. A run ends where the
window is full, where a segment of the input is used up, or with the data, and none begins once
the output is longer than the limit. So a decompression that passes the limit still finds what is
wrong with the data up to the end of the run, and nothing behind it: `Allowance.emit` lets the
output grow to the end of the window, and cuts the input off behind the segment.
-/

namespace Courier.Deflate

def windowSize : Nat := farthestCopy

def segmentSize : Nat := 32768

inductive Stop where
  | incomplete
  | corrupt
  /-- More output than wanted; so much of it is handed over. -/
  | overLimit (size : Nat)
  deriving DecidableEq, Repr

inductive Fault where
  | ended
  | corrupt
  deriving DecidableEq, Repr

def copyBack (output : Array UInt8) (distance : Nat) : (length : Nat) → Array UInt8
  | 0 => output
  | length + 1 =>
    let b := if distance ≤ output.size then output[output.size - distance]?.getD 0 else 0
    copyBack (output.push b) distance length

def Token.apply (output : Array UInt8) : Token → Array UInt8
  | literal b => output.push b
  | copy length distance => copyBack output distance length

/-- How much output is wanted, and how long the input is of which the compressed data is the end. -/
structure Allowance where
  limit : Nat
  inputSize : Nat

namespace Allowance

def reach (a : Allowance) : Nat :=
  (a.limit / windowSize + 1) * windowSize

def leftOfSegment (a : Allowance) (s : BitSource) : Nat :=
  (segmentSize - (a.inputSize - s.bytes.length) % segmentSize) % segmentSize

/-- Adds a token to the output, if the window has room for it. With the byte that passes the
limit, the input is cut off behind the segment under way. -/
def emit (a : Allowance) (t : Token) (s : BitSource) (output : Array UInt8) :
    Option (BitSource × Array UInt8) :=
  if a.reach < output.size + t.length then none
  else
    let output := t.apply output
    if a.limit < output.size ∧ output.size ≤ a.limit + t.length then
      some (s.cutAfter (a.leftOfSegment s), output)
    else some (s, output)

def passed (a : Allowance) (outputSize : Nat) : Stop :=
  .overLimit (min (a.limit + 1) outputSize)

/-- Why a decompression stops at a fault: behind the limit, the stream only ends because it was
cut off. -/
def stop (a : Allowance) (outputSize : Nat) : Fault → Stop
  | .corrupt => .corrupt
  | .ended => if a.limit < outputSize then a.passed outputSize else .incomplete

end Allowance

end Courier.Deflate
