import Courier.Deflate.Token
/-!
# The search for copies

Every place of the data has a slot, which depends on its three bytes, and a link to the last
earlier place of the same slot. The search for a copy follows the links, as far as the effort
allows, and keeps the longest stretch that agrees with the bytes at the place. A link is only a
proposal: what counts are the bytes that do agree.
-/

namespace Courier.Deflate

def longestCopy : Nat := 258

def shortestCopy : Nat := 3

def slotCount : Nat := 32768

def linkRange : Nat := 65536

/-- How much work goes into the search. -/
structure Effort where
  rounds : Nat
  lateRounds : Nat
  waits : Bool

def linksOfLevel : List Nat := [0, 1, 6, 32, 16, 32, 128, 256, 512, 768, 1500]

def Effort.ofLevel (level : Nat) : Effort :=
  let links := linksOfLevel.getD (min level 10) 0
  ⟨(links + 2) / 3, (links / 4 + 2) / 3, 3 < level⟩

/-- Data with a link for every place that has three bytes. Links are kept modulo `linkRange`; zero
is no link. -/
structure Chained where
  data : Array UInt8
  links : Array Nat

structure Copy where
  length : Nat
  distance : Nat

def slotAt (data : Array UInt8) (place : Nat) : Nat :=
  let byte (i : Nat) : Nat := ((data[place + i]?).getD 0).toNat
  ((byte 0 <<< 10) ^^^ (byte 1 <<< 5) ^^^ byte 2) % slotCount

def agreement (data : Array UInt8) (earlier place : Nat) : (most : Nat) → Nat
  | 0 => 0
  | most + 1 =>
    match data[earlier]?, data[place]? with
    | some a, some b => if a = b then agreement data (earlier + 1) (place + 1) most + 1 else 0
    | _, _ => 0

namespace Chained

def link (data : Array UInt8) : (count place : Nat) → (lasts links : Array Nat) → Array Nat
  | 0, _, _, links => links
  | count + 1, place, lasts, links =>
    let slot := slotAt data place
    let last := lasts[slot]?.getD 0
    link data count (place + 1) (lasts.setIfInBounds slot (place % linkRange)) (links.push last)

def ofArray (data : Array UInt8) : Chained :=
  ⟨data, link data (data.size - 2) 0 (Array.replicate slotCount 0) #[]⟩

inductive Followed where
  | ended
  | missed (earlier : Nat)
  | candidate (earlier : Nat)

/-- Follows links from an earlier place, at most `count`, to a candidate: a place at most `reach`
back where the last byte of the length to be beaten, and the byte behind it, agree. -/
def follow (c : Chained) (place reach length : Nat) : (count earlier : Nat) → Followed
  | 0, earlier => .missed earlier
  | count + 1, earlier =>
    let link := c.links[earlier]?.getD 0
    let distance := (place % linkRange + linkRange - link) % linkRange
    if link = 0 ∨ distance = 0 ∨ reach < distance then .ended
    else if agreement c.data (place - distance + length - 1) (place + length - 1) 2 = 2 then
      .candidate (place - distance)
    else follow c place reach length count (place - distance)

def search (c : Chained) (place reach most : Nat) :
    (rounds earlier length : Nat) → (best : Option Copy) → Option Copy
  | 0, _, _, best => best
  | rounds + 1, earlier, length, best =>
    match c.follow place reach length 3 earlier with
    | .ended => best
    | .missed earlier => search c place reach most rounds earlier length best
    | .candidate earlier =>
      let found := agreement c.data earlier place most
      if found ≤ length then search c place reach most rounds earlier length best
      else if found = most then some ⟨found, place - earlier⟩
      else search c place reach most rounds earlier found (some ⟨found, place - earlier⟩)

/-- Whether a copy is worth its bits: a shortest one from far away is not, nor is one from the
start of a window. -/
def isWorthwhile (place : Nat) (copy : Copy) : Bool :=
  !(copy.length = shortestCopy && 8192 ≤ copy.distance) && copy.distance ≠ place % farthestCopy

def copyAt? (c : Chained) (effort : Effort) (place reach length : Nat) : Option Copy :=
  let most := min longestCopy (c.data.size - place)
  let rounds := if length < 32 then effort.rounds else effort.lateRounds
  if most ≤ length then none
  else (c.search place reach most rounds place length none).filter (isWorthwhile place)

end Chained

end Courier.Deflate
