import Courier.Binary64
/-!
# Shortest decimals

The shortest decimal that reads back as a given double. A double is `m · 2 ^ q`; the reals that
round to it form an interval around it, whose ends belong to it when `m` is even. `shortest` tries
the decimal grids from coarse to fine and takes the first that has a point in the interval, the
nearer of two, and of two equally near the even one. All arithmetic is on natural numbers.
-/

namespace Courier.Binary64

structure Decimal where
  digits : Nat
  exponent : Int
  deriving DecidableEq, Repr

def significand (x : Binary64) : Nat :=
  if x.biasedExponent = 0 then x.fraction else x.fraction + (1 <<< 52)

def binaryExponent (x : Binary64) : Int :=
  if x.biasedExponent = 0 then -1074 else (x.biasedExponent : Int) - 1075

/-- The interval of the reals that round to a double, in quarters of its last place, and the
place's exponent. -/
structure Interval where
  low : Nat
  value : Nat
  high : Nat
  exponent : Int
  closed : Bool

/-- The reals that round to the double; below a power of two the lower neighbour is only half as
far away. -/
def interval (x : Binary64) : Interval :=
  let m := x.significand
  let gapBelow := if x.fraction = 0 ∧ 1 < x.biasedExponent then 1 else 2
  ⟨4 * m - gapBelow, 4 * m, 4 * m + 2, x.binaryExponent - 2, m % 2 = 0⟩

/-- The point of the grid of multiples of `10 ^ k` that lies in the interval and nearest to the
value. -/
def Interval.gridPoint? (i : Interval) (k : Int) : Option Nat :=
  let scale := Nat.pow 10 (-k).toNat <<< i.exponent.toNat
  let unit := Nat.pow 10 k.toNat <<< (-i.exponent).toNat
  let inside (d : Nat) : Bool :=
    if i.closed then i.low * scale ≤ d * unit ∧ d * unit ≤ i.high * scale
    else i.low * scale < d * unit ∧ d * unit < i.high * scale
  let below := i.value * scale / unit
  let above := below + 1
  let gapBelow := i.value * scale - below * unit
  let gapAbove := above * unit - i.value * scale
  match inside below, inside above with
  | false, false => none
  | true, false => some below
  | false, true => some above
  | true, true =>
    if gapBelow < gapAbove then some below
    else if gapAbove < gapBelow then some above
    else if below % 2 = 0 then some below else some above

def Interval.firstGridPoint (i : Interval) (k : Int) : (count : Nat) → Decimal
  | 0 => ⟨0, 0⟩
  | count + 1 =>
    match i.gridPoint? k with
    | some d => ⟨d, k⟩
    | none => i.firstGridPoint (k - 1) count

/-- The shortest decimal that reads back as the finite, non-zero double, sign aside. -/
def shortest (x : Binary64) : Decimal :=
  let bitLength := Nat.log2 x.significand + 1
  let start := ((bitLength : Int) + x.binaryExponent) * 30103 / 100000 + 1
  x.interval.firstGridPoint start 20

structure Layout where
  leastPlain : Int
  greatestPlain : Int
  wholeEnd : String
  negativeMark : String
  positiveMark : String

def Decimal.render (d : Decimal) (layout : Layout) : String :=
  let digits := Nat.toDigits 10 d.digits
  let count := digits.length
  let leading : Int := d.exponent + (count : Int) - 1
  if layout.leastPlain ≤ leading ∧ leading ≤ layout.greatestPlain then
    if leading < 0 then
      "0." ++ String.ofList (List.replicate (-leading - 1).toNat '0' ++ digits)
    else if (count : Int) ≤ leading + 1 then
      String.ofList (digits ++ List.replicate (leading + 1 - count).toNat '0') ++ layout.wholeEnd
    else
      let whole := (leading + 1).toNat
      String.ofList (digits.take whole ++ '.' :: digits.drop whole)
  else
    let mantissa := match digits with
      | [] => []
      | [c] => [c]
      | c :: rest => c :: '.' :: rest
    String.ofList mantissa ++
      (if leading < 0 then layout.negativeMark else layout.positiveMark) ++ toString leading.natAbs

def render (x : Binary64) (layout : Layout) : String :=
  let sign := if x.isNegative then "-" else ""
  if x.significand = 0 then sign ++ "0" ++ layout.wholeEnd
  else sign ++ x.shortest.render layout

end Courier.Binary64
