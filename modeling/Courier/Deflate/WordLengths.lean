import Courier.Deflate.Code
/-!
# Word lengths from counts

`wordLengths` gives frequent symbols short words: it merges the two lightest nodes until one tree
is left, cuts words off that are too long, makes room for them by lengthening shorter ones, and
hands the lengths out, the longest to the rarest symbols.
-/

namespace Courier.Deflate

structure Node where
  weight : Nat
  depths : List Nat

def Node.merge (a b : Node) : Node :=
  ⟨a.weight + b.weight, (a.depths ++ b.depths).map (· + 1)⟩

/-- Takes the lightest node off the front of two ascending lists; of nodes of one weight, the leaf
comes first. -/
def takeLightest : (leaves forks : List Node) → Option (Node × List Node × List Node)
  | [], [] => none
  | leaf :: leaves, [] => some (leaf, leaves, [])
  | [], fork :: forks => some (fork, [], forks)
  | leaf :: leaves, fork :: forks =>
    if fork.weight < leaf.weight then some (fork, leaf :: leaves, forks)
    else some (leaf, leaves, fork :: forks)

def mergedDepths : (fuel : Nat) → (leaves forks : List Node) → List Nat
  | 0, _, _ => []
  | fuel + 1, leaves, forks =>
    match takeLightest leaves forks with
    | none => []
    | some (a, leaves, forks) =>
      match takeLightest leaves forks with
      | none => a.depths
      | some (b, leaves, forks) => mergedDepths fuel leaves (forks ++ [a.merge b])

/-- How many words there are of each length, from `limit` down to one; words that are too long
count as longest ones. -/
def tally (limit : Nat) (depths : List Nat) : List Nat :=
  (List.range limit).map fun i => (depths.filter fun depth => min limit depth = limit - i).length

namespace Tally

def share : (unit : Nat) → List Nat → Nat
  | _, [] => 0
  | unit, count :: rest => count * unit + share (2 * unit) rest

/-- Lengthens one of the longest words that are shorter by one bit, so that two words hang where
one did. -/
def lengthenOne : (longer : Nat) → List Nat → List Nat
  | longer, [] => [longer]
  | longer, 0 :: rest => longer :: lengthenOne 0 rest
  | longer, (count + 1) :: rest => (longer + 2) :: count :: rest

def makeRoom : List Nat → List Nat
  | [] => []
  | longest :: rest => lengthenOne (longest - 1) rest

/-- The tally with room made until no word is given out twice. -/
def fit (limit : Nat) (counts : List Nat) : List Nat :=
  Nat.repeat makeRoom (share 1 counts - (1 <<< limit)) counts

def lengths (limit : Nat) (counts : List Nat) : List Nat :=
  (counts.zip (List.range limit)).flatMap fun e => List.replicate e.1 (limit - e.2)

end Tally

def wordLengths (limit : Nat) (counts : List Nat) : List Nat :=
  let used := (counts.zipIdx.filter fun e => e.1 ≠ 0).mergeSort fun a b => a.1 ≤ b.1
  let leaves := used.map fun e => (⟨e.1, [0]⟩ : Node)
  let lengths :=
    if used.length ≤ 1 then [1]
    else Tally.lengths limit (Tally.fit limit (tally limit (mergedDepths used.length leaves [])))
  (used.zip lengths).foldl (fun out e => out.set e.1.2 e.2) (List.replicate counts.length 0)

end Courier.Deflate
