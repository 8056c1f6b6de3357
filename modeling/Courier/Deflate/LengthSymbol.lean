import Courier.Deflate.Token
/-!
# Word lengths as symbols

A block with a code of its own gives the lengths of its words in a code for lengths. Runs of equal
lengths are written short: a length, or some more of the length before, or some zeros.
`packLengths` writes lengths this way.
-/

namespace Courier.Deflate

/-- The order in which a block gives the lengths of the code for lengths. -/
def lengthCodeOrder : List Nat := [16, 17, 18, 0, 8, 7, 9, 6, 10, 5, 11, 4, 12, 3, 13, 2, 14, 1, 15]

/-- One symbol of the code for lengths, with what its extra bits say. -/
inductive LengthSymbol where
  | length (value : Nat)
  | again (count : Nat)
  | zeros (count : Nat)
  | manyZeros (count : Nat)

namespace LengthSymbol

def number : LengthSymbol → Nat
  | length value => value
  | again _ => 16
  | zeros _ => 17
  | manyZeros _ => 18

def extraBits : LengthSymbol → List Bool
  | length _ => []
  | again count => lowBits 2 (count - 3)
  | zeros count => lowBits 3 (count - 3)
  | manyZeros count => lowBits 7 (count - 11)

end LengthSymbol

def packZeros (count : Nat) : List LengthSymbol :=
  if _h : 138 ≤ count then .manyZeros 138 :: packZeros (count - 138)
  else if 11 ≤ count then [.manyZeros count]
  else if 3 ≤ count then [.zeros count]
  else List.replicate count (.length 0)
  termination_by count
  decreasing_by omega

def packAgain (value count : Nat) : List LengthSymbol :=
  if _h : 6 ≤ count then .again 6 :: packAgain value (count - 6)
  else if 3 ≤ count then [.again count]
  else List.replicate count (.length value)
  termination_by count
  decreasing_by omega

def packRun : List Nat → List LengthSymbol
  | [] => []
  | 0 :: rest => packZeros (rest.length + 1)
  | value :: rest => .length value :: packAgain value rest.length

def packLengths (lengths : List Nat) : List LengthSymbol :=
  (lengths.splitBy (· == ·)).flatMap packRun

end Courier.Deflate
