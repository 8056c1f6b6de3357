/-!
# Binary64 numbers by their bits

A `Binary64` is the 64 bits of an IEEE 754 double, so that equality of values is equality of bits
and the payload of a NaN is kept. Sums and products go through `Float`; a NaN among the operands
stays in the result, made quiet, the left operand first, and an invalid operation gives the
default NaN.
-/

namespace Courier

/-- A double-precision number, by its bits. -/
structure Binary64 where
  bits : UInt64
  deriving DecidableEq, Repr, Inhabited

namespace Binary64

def biasedExponent (x : Binary64) : Nat :=
  (x.bits >>> 52).toNat % 2048

def fraction (x : Binary64) : Nat :=
  (x.bits &&& 0x000FFFFFFFFFFFFF).toNat

def isNegative (x : Binary64) : Bool :=
  x.bits >>> 63 = 1

def isNaN (x : Binary64) : Bool :=
  x.biasedExponent = 2047 ∧ x.fraction ≠ 0

def negate (x : Binary64) : Binary64 :=
  ⟨x.bits ^^^ 0x8000000000000000⟩

def zero : Binary64 := ⟨0⟩

def negativeZero : Binary64 := ⟨0x8000000000000000⟩

def one : Binary64 := ⟨0x3FF0000000000000⟩

def quiet (x : Binary64) : Binary64 :=
  ⟨x.bits ||| 0x0008000000000000⟩

def defaultNaN : Binary64 := ⟨0xFFF8000000000000⟩

def toFloat (x : Binary64) : Float :=
  Float.ofBits x.bits

/-- The bits of a machine number; every NaN becomes the default one. -/
def ofFloat (x : Float) : Binary64 :=
  if x.isNaN then defaultNaN else ⟨x.toBits⟩

/-- An operation on machine numbers, with NaN operands kept. -/
def lift (operation : Float → Float → Float) (x y : Binary64) : Binary64 :=
  if x.isNaN then x.quiet
  else if y.isNaN then y.quiet
  else ofFloat (operation x.toFloat y.toFloat)

def add : Binary64 → Binary64 → Binary64 := lift (· + ·)

def mul : Binary64 → Binary64 → Binary64 := lift (· * ·)

end Binary64

end Courier
