import Courier.Json
import Courier.Json.Fault
/-!
# Numbers in JSON texts

Reading a number. Digits are gathered into a significand below `2 ^ 64`; a number that is nothing
but such a significand is an integer (a negative one if it fits 63 bits), any other is a double:
the significand, rounded, and then multiplied or divided by a rounded power of ten. Digits that no
longer fit are dropped, those before the point being counted.
-/

namespace Courier.Json

def isDigit (b : UInt8) : Bool :=
  0x30 ≤ b && b ≤ 0x39

/-- Gathers digits while the significand stays below `2 ^ 64`, and counts them. -/
def gatherDigits (significand count : Nat) : Bytes → Nat × Nat × Bytes
  | [] => (significand, count, [])
  | b :: rest =>
    let next := 10 * significand + (b.toNat - 0x30)
    if isDigit b ∧ next < UInt64.size then gatherDigits next (count + 1) rest
    else (significand, count, b :: rest)

def powerOfTen (n : Nat) : Float :=
  Float.ofScientific 1 false n

/-- Scales by `10 ^ exponent` in steps of at most `10 ^ 308`, of which `steps` are allowed; `none`
if the result is out of range. -/
def scale (f : Float) (exponent : Int) : (steps : Nat) → Option Float
  | 0 => some f
  | steps + 1 =>
    if exponent.natAbs ≤ 308 then
      if 0 ≤ exponent then
        let product := f * powerOfTen exponent.natAbs
        if product.isInf then none else some product
      else some (f / powerOfTen exponent.natAbs)
    else if f == 0 then some f
    else if 0 ≤ exponent then none
    else scale (f / powerOfTen 308) (exponent + 308) steps

def ofParts (positive : Bool) (significand : Nat) (exponent : Int) (rest : Bytes) :
    Except Rejection (Json × Bytes) :=
  match scale (UInt64.ofNat significand).toFloat exponent 8 with
  | none => reject .numberOutOfRange rest
  | some f =>
    let x : Binary64 := ⟨f.toBits⟩
    .ok (.float (if positive then x else x.negate), rest)

def gatherExponent (exponent : Nat) : Bytes → Option Nat × Bytes
  | [] => (some exponent, [])
  | b :: rest =>
    if isDigit b then
      let next := 10 * exponent + (b.toNat - 0x30)
      if next < UInt32.size / 2 then gatherExponent next rest else (none, rest)
    else (some exponent, b :: rest)

def readExponent (positive : Bool) (significand : Nat) (start : Int) (text : Bytes) :
    Except Rejection (Json × Bytes) :=
  let (negated, digits) := match text with
    | 0x2B :: rest => (false, rest)
    | 0x2D :: rest => (true, rest)
    | _ => (false, text)
  match digits with
  | [] => reject .endInValue []
  | b :: rest =>
    if isDigit b then
      match gatherExponent (b.toNat - 0x30) rest with
      | (some exponent, rest) =>
        ofParts positive significand (if negated then start - exponent else start + exponent) rest
      | (none, rest) =>
        if significand ≠ 0 ∧ !negated then reject .numberOutOfRange rest
        else .ok (.float (if positive then .zero else .negativeZero), rest.dropWhile isDigit)
    else reject .invalidNumber rest

def readScaled (positive : Bool) (significand : Nat) (exponent : Int) (text : Bytes) :
    Except Rejection (Json × Bytes) :=
  match text with
  | 0x65 :: rest | 0x45 :: rest => readExponent positive significand exponent rest
  | _ => ofParts positive significand exponent text

def readFraction (positive : Bool) (significand : Nat) (before : Int) (text : Bytes) :
    Except Rejection (Json × Bytes) :=
  let (significand, count, rest) := gatherDigits significand 0 text
  match rest with
  | [] =>
    if count = 0 then rejectNext .endInValue []
    else readScaled positive significand (before - count) []
  | b :: _ =>
    if isDigit b then readScaled positive significand (before - count) (rest.dropWhile isDigit)
    else if count = 0 then rejectNext .invalidNumber rest
    else readScaled positive significand (before - count) rest

/-- Reads what follows a significand that takes no more digits, `dropped` of which follow. -/
def readLong (positive : Bool) (significand : Nat) (text : Bytes) :
    Except Rejection (Json × Bytes) :=
  let dropped := (text.takeWhile isDigit).length
  match text.drop dropped with
  | 0x2E :: rest => readFraction positive significand dropped rest
  | rest => readScaled positive significand dropped rest

def readTail (positive : Bool) (significand : Nat) (text : Bytes) :
    Except Rejection (Json × Bytes) :=
  match text with
  | 0x2E :: rest => readFraction positive significand 0 rest
  | 0x65 :: rest | 0x45 :: rest => readExponent positive significand 0 rest
  | _ =>
    if positive then .ok (.integer significand, text)
    else if significand ≠ 0 ∧ significand ≤ UInt64.size / 2 then .ok (.integer (-significand), text)
    else
      let x : Binary64 := ⟨(UInt64.ofNat significand).toFloat.toBits⟩
      .ok (.float x.negate, text)

def readNumber (positive : Bool) (text : Bytes) : Except Rejection (Json × Bytes) :=
  match text with
  | [] => reject .endInValue []
  | 0x30 :: rest =>
    match rest with
    | b :: _ => if isDigit b then rejectNext .invalidNumber rest else readTail positive 0 rest
    | [] => readTail positive 0 []
  | b :: rest =>
    if isDigit b then
      let (significand, _, rest) := gatherDigits (b.toNat - 0x30) 0 rest
      match rest with
      | c :: _ =>
        if isDigit c then readLong positive significand rest
        else readTail positive significand rest
      | [] => readTail positive significand []
    else reject .invalidNumber rest

end Courier.Json
