import Courier.Deflate.Bits
/-!
# Canonical prefix codes

A code is given by the length of each symbol's code word; zero means that the symbol does not
occur. Code words of one length are consecutive numbers in symbol order, shorter ones come first.
`Tree.ofLengths` arranges the words in a binary tree, and `Tree.decode` walks it.
-/

namespace Courier.Deflate

def longestWord : Nat := 15

def usedSymbols (lengths : List Nat) : List (Nat × Nat) :=
  (lengths.zipIdx.filter fun e => e.1 ≠ 0).mergeSort fun a b => a.1 ≤ b.1

def wordBits (width n : Nat) : List Bool :=
  (lowBits width n).reverse

/-- Gives out words from `start` on, which counts words of the greatest length. -/
def assignWords (start : Nat) : List (Nat × Nat) → List (Nat × List Bool)
  | [] => []
  | (length, symbol) :: rest =>
    let share := 1 <<< (longestWord - length)
    (symbol, wordBits length (start / share)) :: assignWords (start + share) rest

def words (lengths : List Nat) : List (Nat × List Bool) :=
  assignWords 0 (usedSymbols lengths)

/-- The share of all words that a code takes up, in words of the greatest length. -/
def coverage (lengths : List Nat) : Nat :=
  ((lengths.filter (· ≠ 0)).map fun length => 1 <<< (longestWord - length)).foldr (· + ·) 0

def isComplete (lengths : List Nat) : Bool :=
  coverage lengths = 1 <<< longestWord

def isUsable (lengths : List Nat) : Bool :=
  isComplete lengths || [[], [1]].contains (lengths.filter (· ≠ 0))

inductive Tree where
  | unassigned
  | leaf (symbol : Nat)
  | fork (zero one : Tree)

namespace Tree

def insert (symbol : Nat) : (word : List Bool) → Tree → Tree
  | [], _ => leaf symbol
  | false :: word, fork zero one => fork (insert symbol word zero) one
  | true :: word, fork zero one => fork zero (insert symbol word one)
  | false :: word, _ => fork (insert symbol word unassigned) unassigned
  | true :: word, _ => fork unassigned (insert symbol word unassigned)

/-- The tree of a code. It forks at least once, so that even a code without words takes a bit to
be found out. -/
def ofLengths (lengths : List Nat) : Tree :=
  (words lengths).foldl (fun tree w => tree.insert w.1 w.2) (fork unassigned unassigned)

inductive Decoded where
  | symbol (value : Nat) (rest : BitSource)
  | unassigned
  | ended

def decode : Tree → BitSource → Decoded
  | leaf value, s => .symbol value s
  | unassigned, _ => .unassigned
  | fork zero one, s =>
    match s.next? with
    | none => .ended
    | some (false, s) => zero.decode s
    | some (true, s) => one.decode s

end Tree

end Courier.Deflate
