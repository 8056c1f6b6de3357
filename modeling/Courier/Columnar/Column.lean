import Courier.Bytes
/-!
# Columns of a packed value

A packed value is laid out in columns: all values of one place in the type stand together. This
module holds what the columns share: how reading one can fail (`Fault`), a reader that takes its
column off the front of the input (`Reader`), and small digits that share a byte (`packDigits`,
`unpackDigits`).
-/

namespace Courier.Columnar

inductive Fault where
  | endOfInput
  | expectedEnd
  | invalidPacking
  | invalidText
  | lengthOverflow
  | hugeLength
  deriving DecidableEq, Repr

def Fault.message : Fault → String
  | endOfInput => "EOF"
  | expectedEnd => "Expected EOF"
  | invalidPacking => "invalid packing"
  | invalidText => "invalid utf8"
  | lengthOverflow => "length overflow"
  | hugeLength => "huge length"

/-- Takes a part off the front of the input. -/
abbrev Reader := StateT Bytes (Except Fault)

def readBytes (n : Nat) : Reader Bytes := fun input =>
  match Bytes.takeExactly n input with
  | some (front, rest) => .ok (front, rest)
  | none => .error .endOfInput

def readByte : Reader UInt8 := fun input =>
  match input with
  | b :: rest => .ok (b, rest)
  | [] => .error .endOfInput

def Reader.complete {α : Type} (reader : Reader α) (input : Bytes) : Except Fault α :=
  match reader input with
  | .error e => .error e
  | .ok (value, []) => .ok value
  | .ok (_, _ :: _) => .error .expectedEnd

/-- The list in groups of `size + 1`, the last one possibly shorter. -/
def groups {α : Type} (size : Nat) : List α → List (List α)
  | [] => []
  | x :: rest => (x :: rest.take size) :: groups size (rest.drop size)
  termination_by xs => xs.length
  decreasing_by
    simp only [List.length_drop, List.length_cons]
    omega

def ofDigits (base : Nat) (digits : List Nat) : Nat :=
  digits.foldr (fun d n => d + base * n) 0

def lowDigits (base : Nat) : (count : Nat) → Nat → List Nat
  | 0, _ => []
  | count + 1, n => n % base :: lowDigits base count (n / base)

/-- Digits, `perByte` of them to a byte. -/
def packDigits (base perByte : Nat) (digits : List Nat) : Bytes :=
  (groups (perByte - 1) digits).map fun g => UInt8.ofNat (ofDigits base g)

def unpackDigits (base perByte count : Nat) (packed : Bytes) : List Nat :=
  (packed.flatMap fun b => lowDigits base perByte b.toNat).take count

def greatest (values : List Nat) : Nat :=
  values.foldl max 0

def least : List Nat → Nat
  | [] => 0
  | v :: rest => rest.foldl min v

end Courier.Columnar
