import Courier.Deflate.Search
/-!
# Data as stretches of tokens

`stretches` turns data into tokens and cuts them into stretches, each of which becomes one block.
A copy may wait: it gives way to a longer copy at the next place, with a literal before it. A
stretch ends when its tokens have filled the space set aside for them, or when it is long and they
take up hardly less space than the bytes that they stand for.
-/

namespace Courier.Deflate

/-- A stretch of the data that becomes one block. -/
structure Stretch where
  tokens : List Token
  start : Nat
  length : Nat
  inWindow : Bool

/-- The state of a pass through the data. -/
structure Scan where
  place : Nat := 0
  behind : Nat := 0
  /-- A copy that waits, with the literal that takes its place if a longer one is found. -/
  waiting : Option (Copy × UInt8) := none
  start : Nat := 0
  length : Nat := 0
  tokens : List Token := []
  count : Nat := 0
  weight : Nat := 0
  closed : List Stretch := []

def tokenSpace : Nat := 65536

def longEnough : Nat := 128

def longStretch : Nat := 31744

namespace Copy

def token (c : Copy) : Token :=
  .copy c.length c.distance

end Copy

namespace Scan

def add (s : Scan) (t : Token) : Scan :=
  { s with
    length := s.length + t.length
    tokens := t :: s.tokens
    count := s.count + 1
    weight := s.weight + match t with
      | .literal _ => 1
      | .copy _ _ => 3 }

def space (s : Scan) : Nat :=
  1 + s.weight + s.count / 8

/-- Whether the stretch under way ends. -/
def isFull (s : Scan) : Bool :=
  tokenSpace - 8 < s.space || (longStretch < s.length && s.length ≤ s.space * 115 / 128)

def close (s : Scan) : Scan :=
  { s with
    start := s.start + s.length
    length := 0
    tokens := []
    count := 0
    weight := 0
    closed := ⟨s.tokens.reverse, s.start, s.length, s.place - s.start ≤ s.behind⟩ :: s.closed }

def move (s : Scan) (reach bytes : Nat) : Scan :=
  { s with place := s.place + bytes, behind := min (reach + bytes) farthestCopy }

def decide (effort : Effort) (s : Scan) (reach : Nat) (b : UInt8) (found : Option Copy) : Scan :=
  match s.waiting, found with
  | none, none => (s.add (.literal b)).move reach 1
  | none, some copy =>
    if effort.waits && copy.length < longEnough then
      { s with waiting := some (copy, b) }.move reach 1
    else (s.add copy.token).move reach copy.length
  | some (copy, _), none => ({ s with waiting := none }.add copy.token).move reach (copy.length - 1)
  | some (_, literal), some copy =>
    let s := s.add (.literal literal)
    if copy.length < longEnough then { s with waiting := some (copy, b) }.move reach 1
    else ({ s with waiting := none }.add copy.token).move reach copy.length

def step (c : Chained) (effort : Effort) (s : Scan) (b : UInt8) : Scan :=
  let ahead := min longestCopy (c.data.size - s.place)
  let reach := min (farthestCopy - ahead) s.behind
  let beaten := match s.waiting with
    | some (copy, _) => copy.length
    | none => shortestCopy - 1
  let s := s.decide effort reach b (c.copyAt? effort s.place reach beaten)
  if s.isFull then s.close else s

def run (c : Chained) (effort : Effort) : (fuel : Nat) → Scan → Scan
  | 0, s => s
  | fuel + 1, s =>
    match c.data[s.place]? with
    | none => s
    | some b => run c effort fuel (s.step c effort b)

end Scan

def stretches (effort : Effort) (data : Array UInt8) : List Stretch :=
  (Scan.run (.ofArray data) effort data.size {}).close.closed.reverse

end Courier.Deflate
