import Courier.Deflate.Stretch
import Courier.Proofs.Inflate
/-!
# A pass through the data

The search offers a copy only where the bytes agree (`Chained.offers_of_copyAt`), and so every
token of a pass stands for the bytes at its place (`Stands`).  The stretches that the pass closes
lie side by side from the beginning of the data to the end (`tiles_stretches`).
-/

namespace Courier.Deflate

/-! ## Tokens and the bytes they stand for -/

/-- Tokens that have symbols. -/
def Token.IsWritable : Token → Prop
  | literal _ => True
  | copy length distance =>
    (shortestCopy ≤ length ∧ length ≤ longestCopy) ∧ 1 ≤ distance ∧ distance ≤ farthestCopy

/-- Behind the bytes in front of `start`, the tokens stand for those up to `stop`. -/
inductive Stands (data : Array UInt8) : Nat → List Token → Nat → Prop
  | nil {start : Nat} (hstart : start ≤ data.size) : Stands data start [] start
  | cons {start stop : Nat} {t : Token} {tokens : List Token} (hwritable : t.IsWritable)
      (happly : t.apply (data.extract 0 start) = data.extract 0 (start + t.length))
      (hrest : Stands data (start + t.length) tokens stop) : Stands data start (t :: tokens) stop

variable {data : Array UInt8} {start place stop : Nat} {tokens : List Token}

theorem Stands.le (h : Stands data start tokens stop) : start ≤ stop ∧ stop ≤ data.size := by
  induction h with
  | nil hstart => exact ⟨le_refl _, hstart⟩
  | cons _ _ _ ih => exact ⟨(Nat.le_add_right _ _).trans ih.1, ih.2⟩

theorem Stands.append {tokens' : List Token} (h : Stands data start tokens place)
    (h' : Stands data place tokens' stop) : Stands data start (tokens ++ tokens') stop := by
  induction h with
  | nil => exact h'
  | cons hwritable happly _ ih => exact .cons hwritable happly (ih h')

theorem Stands.writable (h : Stands data start tokens stop) : ∀ t ∈ tokens, t.IsWritable := by
  induction h with
  | nil => exact nofun
  | cons hwritable _ _ ih =>
    intro t ht
    rcases List.mem_cons.1 ht with rfl | ht
    · exact hwritable
    · exact ih t ht

theorem Stands.foldl_apply (h : Stands data start tokens stop) :
    tokens.foldl (fun output t => t.apply output) (data.extract 0 start) = data.extract 0 stop := by
  induction h with
  | nil => rfl
  | cons _ happly _ ih => rw [List.foldl_cons, happly, ih]

theorem push_extract {b : UInt8} (hb : data[place]? = some b) :
    (data.extract 0 place).push b = data.extract 0 (place + 1) := by
  obtain ⟨hplace, rfl⟩ := Array.getElem?_eq_some_iff.1 hb
  rw [Array.push_extract_getElem hplace, Nat.zero_min]

theorem stands_literal {b : UInt8} (hb : data[place]? = some b) :
    Stands data place [.literal b] (place + 1) := by
  have hplace := (Array.getElem?_eq_some_iff.1 hb).1
  exact .cons trivial (push_extract hb) (.nil hplace)

/-- Bytes from further back that agree with those at the place. -/
structure Agrees (data : Array UInt8) (place : Nat) (c : Copy) : Prop where
  length : shortestCopy ≤ c.length ∧ c.length ≤ longestCopy
  distance : 1 ≤ c.distance ∧ c.distance ≤ farthestCopy
  inside : c.distance ≤ place ∧ place + c.length ≤ data.size
  same : ∀ i < c.length, data[place - c.distance + i]? = data[place + i]?

theorem copyBack_extract {distance length : Nat} (hdistance : 1 ≤ distance ∧ distance ≤ place)
    (hinside : place + length ≤ data.size)
    (hsame : ∀ i < length, data[place - distance + i]? = data[place + i]?) :
    copyBack (data.extract 0 place) distance length = data.extract 0 (place + length) := by
  induction length generalizing place with
  | zero => rfl
  | succ length ih =>
    have hsize : (data.extract 0 place).size = place := by
      rw [Array.size_extract]
      omega
    have hplace : place < data.size := by omega
    have hfirst := hsame 0 (Nat.succ_pos length)
    rw [Nat.add_zero, Nat.add_zero, Array.getElem?_eq_getElem hplace] at hfirst
    have hbyte : (data.extract 0 place)[place - distance]? = some data[place] := by
      rw [Array.getElem?_extract, if_pos (by omega), Nat.zero_add, hfirst]
    have hnext : ∀ i < length, data[place + 1 - distance + i]? = data[place + 1 + i]? := by
      intro i hi
      rw [show place + 1 - distance + i = place - distance + (i + 1) by omega,
        show place + 1 + i = place + (i + 1) by omega]
      exact hsame (i + 1) (Nat.succ_lt_succ hi)
    have hrest : copyBack (data.extract 0 (place + 1)) distance length =
        data.extract 0 (place + 1 + length) :=
      ih ⟨hdistance.1, Nat.le_succ_of_le hdistance.2⟩ (by omega) hnext
    rw [copyBack, hsize, if_pos hdistance.2, hbyte, Option.getD_some,
      push_extract (Array.getElem?_eq_getElem hplace), hrest, Nat.add_assoc, Nat.add_comm 1]

theorem Agrees.stands {c : Copy} (h : Agrees data place c) :
    Stands data place [c.token] (place + c.length) :=
  .cons ⟨h.length, h.distance⟩ (copyBack_extract ⟨h.distance.1, h.inside.1⟩ h.inside.2 h.same)
    (.nil h.inside.2)

/-! ## What the search offers -/

theorem agreement_le (data : Array UInt8) (earlier place most : Nat) :
    agreement data earlier place most ≤ most := by
  induction most generalizing earlier place with
  | zero => exact le_refl 0
  | succ most ih =>
    rw [agreement]
    split
    · split
      · exact Nat.succ_le_succ (ih _ _)
      · exact Nat.zero_le _
    · exact Nat.zero_le _

theorem same_of_lt_agreement {earlier most i : Nat} (hi : i < agreement data earlier place most) :
    data[earlier + i]? = data[place + i]? := by
  induction most generalizing earlier place i with
  | zero => exact absurd hi (Nat.not_lt_zero i)
  | succ most ih =>
    rw [agreement] at hi
    split at hi
    case h_2 => exact absurd hi (Nat.not_lt_zero i)
    case h_1 a b ha hb =>
      split at hi
      case isFalse => exact absurd hi (Nat.not_lt_zero i)
      case isTrue hsame =>
        cases i with
        | zero => rw [Nat.add_zero, Nat.add_zero, ha, hb, hsame]
        | succ i =>
          have hrest := ih (Nat.lt_of_succ_lt_succ hi)
          rw [Nat.add_assoc, Nat.add_assoc, Nat.add_comm 1] at hrest
          exact hrest

namespace Chained

variable {c : Chained} {reach most : Nat}

theorem follow_eq_candidate {length count earlier found : Nat} (hreach : reach ≤ place)
    (h : c.follow place reach length count earlier = .candidate found) :
    found < place ∧ place - found ≤ reach := by
  induction count generalizing earlier with
  | zero => cases h
  | succ count ih =>
    rw [follow] at h
    split at h
    · cases h
    next hgoes =>
      split at h
      · cases h
        omega
      · exact ih h

/-- A copy that agrees, longer than the one that is to be beaten. -/
structure Offers (c : Chained) (place reach most beaten : Nat) (copy : Copy) : Prop where
  length : beaten < copy.length ∧ copy.length ≤ most
  distance : 1 ≤ copy.distance ∧ copy.distance ≤ reach
  same : ∀ i < copy.length, c.data[place - copy.distance + i]? = c.data[place + i]?

theorem offers_of_search {rounds earlier beaten length : Nat} {best : Option Copy} {copy : Copy}
    (hreach : reach ≤ place) (hlength : beaten ≤ length)
    (hbest : ∀ b, best = some b → c.Offers place reach most beaten b)
    (hcopy : c.search place reach most rounds earlier length best = some copy) :
    c.Offers place reach most beaten copy := by
  induction rounds generalizing earlier length best with
  | zero => exact hbest copy hcopy
  | succ rounds ih =>
    rw [search] at hcopy
    cases hfollow : c.follow place reach length 3 earlier with
    | ended =>
      rw [hfollow] at hcopy
      exact hbest copy hcopy
    | missed earlier' =>
      rw [hfollow] at hcopy
      exact ih hlength hbest hcopy
    | candidate earlier' =>
      obtain ⟨hearlier, hdistance⟩ := follow_eq_candidate hreach hfollow
      simp only [hfollow] at hcopy
      split at hcopy
      · exact ih hlength hbest hcopy
      next hlonger =>
        have hoffer : c.Offers place reach most beaten
            ⟨agreement c.data earlier' place most, place - earlier'⟩ := by
          refine ⟨⟨hlength.trans_lt (Nat.lt_of_not_le hlonger), agreement_le ..⟩,
            ⟨Nat.sub_pos_of_lt hearlier, hdistance⟩, ?_⟩
          intro i hi
          dsimp only
          rw [Nat.sub_sub_self hearlier.le]
          exact same_of_lt_agreement hi
        split at hcopy
        · cases hcopy
          exact hoffer
        · refine ih (by omega) ?_ hcopy
          rintro b hb
          cases hb
          exact hoffer

/-- A copy is offered only where the bytes agree. -/
theorem agrees_of_copyAt {effort : Effort} {beaten : Nat} {copy : Copy} (hreach : reach ≤ place)
    (hfar : reach ≤ farthestCopy) (hbeaten : shortestCopy ≤ beaten + 1)
    (hcopy : c.copyAt? effort place reach beaten = some copy) : Agrees c.data place copy := by
  unfold copyAt? at hcopy
  dsimp only at hcopy
  split at hcopy
  · cases hcopy
  next hroom =>
    have hsearch := (Option.filter_eq_some_iff.1 hcopy).1
    obtain ⟨⟨hlonger, hmost⟩, ⟨hback, hdistance⟩, hsame⟩ :=
      offers_of_search hreach (le_refl beaten) (fun b hb => by cases hb) hsearch
    exact ⟨⟨by omega, by omega⟩, ⟨hback, by omega⟩, ⟨by omega, by omega⟩, hsame⟩

end Chained

/-! ## The pass -/

/-- Stretches that lie side by side, each with the tokens for its bytes. -/
inductive Tiles (data : Array UInt8) : Nat → List Stretch → Nat → Prop
  | nil (start : Nat) : Tiles data start [] start
  | cons {start stop : Nat} {s : Stretch} {rest : List Stretch} (hstart : s.start = start)
      (hstands : Stands data start s.tokens (start + s.length))
      (hwindow : s.inWindow = true → s.length ≤ farthestCopy)
      (hrest : Tiles data (start + s.length) rest stop) : Tiles data start (s :: rest) stop

theorem Tiles.append {stretches stretches' : List Stretch} (h : Tiles data start stretches place)
    (h' : Tiles data place stretches' stop) : Tiles data start (stretches ++ stretches') stop := by
  induction h with
  | nil => exact h'
  | cons hstart hstands hwindow _ ih => exact .cons hstart hstands hwindow (ih h')

namespace Scan

/-- The stretches and the tokens of a pass stand for the bytes that it has passed. -/
structure Covers (data : Array UInt8) (s : Scan) : Prop where
  closed : Tiles data 0 s.closed.reverse s.start
  tokens : Stands data s.start s.tokens.reverse (s.start + s.length)
  /-- A copy that waits starts one byte before the place, at a byte that no token stands for yet. -/
  waiting : ∀ copy b, s.waiting = some (copy, b) → s.place = s.start + s.length + 1 ∧
    Agrees data (s.start + s.length) copy ∧ data[s.start + s.length]? = some b
  place : s.waiting = none → s.place = s.start + s.length
  behind : s.behind ≤ s.place ∧ s.behind ≤ farthestCopy

variable {s : Scan} {effort : Effort} {reach : Nat} {b : UInt8} {found : Option Copy}

theorem stands_add {t : Token} (htokens : Stands data s.start s.tokens.reverse (s.start + s.length))
    (ht : Stands data (s.start + s.length) [t] (s.start + s.length + t.length)) :
    Stands data s.start (s.add t).tokens.reverse (s.start + (s.add t).length) := by
  change Stands data s.start (t :: s.tokens).reverse (s.start + (s.length + t.length))
  rw [List.reverse_cons, ← Nat.add_assoc]
  exact htokens.append ht

/-- A token that is added, and a move behind it. -/
theorem covers_move_add {t : Token} {bytes : Nat} (hclosed : Tiles data 0 s.closed.reverse s.start)
    (htokens : Stands data s.start s.tokens.reverse (s.start + s.length))
    (ht : Stands data (s.start + s.length) [t] (s.start + s.length + t.length))
    (hwaiting : s.waiting = none) (hplace : s.place + bytes = s.start + s.length + t.length)
    (hreach : reach ≤ s.place) : ((s.add t).move reach bytes).Covers data where
  closed := hclosed
  tokens := stands_add htokens ht
  waiting copy b h := by
    change s.waiting = some (copy, b) at h
    rw [hwaiting] at h
    cases h
  place _ := by
    change s.place + bytes = s.start + (s.length + t.length)
    omega
  behind := by
    change min (reach + bytes) farthestCopy ≤ s.place + bytes ∧ _
    exact ⟨(Nat.min_le_left _ _).trans (Nat.add_le_add_right hreach bytes), Nat.min_le_right _ _⟩

/-- A copy that waits from now on. -/
theorem covers_move_waiting {copy : Copy} (hclosed : Tiles data 0 s.closed.reverse s.start)
    (htokens : Stands data s.start s.tokens.reverse (s.start + s.length))
    (hplace : s.place = s.start + s.length) (hcopy : Agrees data s.place copy)
    (hb : data[s.place]? = some b) (hreach : reach ≤ s.place) :
    ({ s with waiting := some (copy, b) }.move reach 1).Covers data where
  closed := hclosed
  tokens := htokens
  waiting copy' b' h := by
    change some (copy, b) = some (copy', b') at h
    cases h
    rw [hplace] at hcopy hb
    exact ⟨congrArg (· + 1) hplace, hcopy, hb⟩
  place h := by cases h
  behind := by
    change min (reach + 1) farthestCopy ≤ s.place + 1 ∧ _
    exact ⟨(Nat.min_le_left _ _).trans (Nat.add_le_add_right hreach 1), Nat.min_le_right _ _⟩

theorem Covers.decide (h : s.Covers data) (hb : data[s.place]? = some b) (hreach : reach ≤ s.place)
    (hfound : ∀ copy, found = some copy → Agrees data s.place copy) :
    (s.decide effort reach b found).Covers data := by
  obtain ⟨hclosed, htokens, hwaiting, hplace, -⟩ := h
  unfold Scan.decide
  cases hw : s.waiting with
  | none =>
    have hhere := hplace hw
    cases hf : found with
    | none =>
      have hliteral := stands_literal hb
      rw [hhere] at hliteral
      exact covers_move_add hclosed htokens hliteral hw (congrArg (· + 1) hhere) hreach
    | some copy =>
      have hcopy := hfound copy hf
      dsimp only
      split
      · exact covers_move_waiting hclosed htokens hhere hcopy hb hreach
      · have hstands := hcopy.stands
        rw [hhere] at hstands
        exact covers_move_add hclosed htokens hstands hw (congrArg (· + copy.length) hhere) hreach
  | some w =>
    obtain ⟨kept, literal⟩ := w
    obtain ⟨hhere, hkept, hliteral⟩ := hwaiting kept literal hw
    cases hf : found with
    | none =>
      have hshortest : 3 ≤ kept.length := hkept.length.1
      have hbehind : s.place + (kept.length - 1) = s.start + s.length + kept.length := by omega
      exact covers_move_add (s := { s with waiting := none }) hclosed htokens hkept.stands rfl
        hbehind hreach
    | some copy =>
      have hcopy := hfound copy hf
      have htokens' := stands_add htokens (stands_literal hliteral)
      dsimp only
      split
      · exact covers_move_waiting (s := s.add (.literal literal)) hclosed htokens' hhere hcopy hb
          hreach
      · have hstands := hcopy.stands
        have hbehind := congrArg (· + copy.length) hhere
        rw [hhere] at hstands
        exact covers_move_add (s := { s.add (.literal literal) with waiting := none }) hclosed
          htokens' hstands rfl hbehind hreach

theorem Covers.close (h : s.Covers data) : s.close.Covers data where
  closed := by
    change Tiles data 0 (Stretch.mk _ _ _ _ :: s.closed).reverse (s.start + s.length)
    rw [List.reverse_cons]
    refine h.closed.append (.cons rfl h.tokens ?_ (.nil _))
    intro hwindow
    have hpassed : s.place - s.start ≤ s.behind := of_decide_eq_true hwindow
    have hbehind := h.behind.2
    have hlength : s.length ≤ s.place - s.start := by
      cases hw : s.waiting with
      | none =>
        rw [h.place hw]
        omega
      | some w =>
        rw [(h.waiting w.1 w.2 hw).1]
        omega
    exact (hlength.trans hpassed).trans hbehind
  tokens := .nil h.tokens.le.2
  waiting := h.waiting
  place := h.place
  behind := h.behind

variable {c : Chained}

/-- With a step, the place moves on. -/
theorem Covers.place_lt_decide (h : s.Covers data)
    (hfound : ∀ copy, found = some copy → Agrees data s.place copy) :
    s.place < (s.decide effort reach b found).place := by
  unfold Scan.decide
  cases hw : s.waiting with
  | none =>
    cases hf : found with
    | none => exact Nat.lt_succ_self s.place
    | some copy =>
      have hshortest : 3 ≤ copy.length := (hfound copy hf).length.1
      dsimp only
      split
      · exact Nat.lt_succ_self s.place
      · change s.place < s.place + copy.length
        omega
  | some w =>
    have hshortest : 3 ≤ w.1.length := (h.waiting w.1 w.2 hw).2.1.length.1
    cases hf : found with
    | none =>
      change s.place < s.place + (w.1.length - 1)
      omega
    | some copy =>
      have hshortest' : 3 ≤ copy.length := (hfound copy hf).length.1
      dsimp only
      split
      · exact Nat.lt_succ_self s.place
      · change s.place < s.place + copy.length
        omega

theorem Covers.agrees_of_copyAt (h : s.Covers c.data) (hreach : reach ≤ s.behind) {beaten : Nat}
    (hbeaten : shortestCopy ≤ beaten + 1) (effort : Effort) :
    ∀ copy, c.copyAt? effort s.place reach beaten = some copy → Agrees c.data s.place copy :=
  fun _ => Chained.agrees_of_copyAt (hreach.trans h.behind.1) (hreach.trans h.behind.2) hbeaten

theorem Covers.closeIfFull {s' : Scan} (h : s'.Covers data) (hmoved : place < s'.place) :
    (if s'.isFull then s'.close else s').Covers data ∧
      place < (if s'.isFull then s'.close else s').place := by
  split
  · exact ⟨h.close, hmoved⟩
  · exact ⟨h, hmoved⟩

theorem Covers.step (h : s.Covers c.data) (effort : Effort) (hb : c.data[s.place]? = some b) :
    (s.step c effort b).Covers c.data ∧ s.place < (s.step c effort b).place := by
  have hreach : min (farthestCopy - min longestCopy (c.data.size - s.place)) s.behind ≤ s.behind :=
    Nat.min_le_right _ _
  unfold Scan.step
  refine (h.decide hb (hreach.trans h.behind.1) ?found).closeIfFull (h.place_lt_decide ?found)
  apply h.agrees_of_copyAt hreach
  -- What is to be beaten is a copy that waits, or one that is too short to be written.
  split
  next kept _ hw => exact Nat.le_succ_of_le (h.waiting kept _ hw).2.1.length.1
  · exact le_refl 3

theorem Covers.run (h : s.Covers c.data) {fuel : Nat} (hfuel : c.data.size ≤ s.place + fuel) :
    (run c effort fuel s).Covers c.data ∧ c.data.size ≤ (run c effort fuel s).place := by
  induction fuel generalizing s with
  | zero => exact ⟨h, hfuel⟩
  | succ fuel ih =>
    rw [Scan.run]
    split
    next hnone => exact ⟨h, Array.getElem?_eq_none_iff.1 hnone⟩
    next b hb =>
      obtain ⟨hcovers, hmoved⟩ := h.step effort hb
      exact ih hcovers (by omega)

/-- At the end of the data no copy waits, and so the tokens stand for all bytes. -/
theorem Covers.end_eq (h : s.Covers data) (hplace : data.size ≤ s.place) :
    s.start + s.length = data.size := by
  have hinside := h.tokens.le.2
  cases hw : s.waiting with
  | none =>
    rw [h.place hw] at hplace
    exact le_antisymm hinside hplace
  | some w =>
    obtain ⟨hbehind, hkept, -⟩ := h.waiting w.1 w.2 hw
    have hshortest : 3 ≤ w.1.length := hkept.length.1
    have hroom := hkept.inside.2
    omega

theorem covers_new (data : Array UInt8) : Covers data {} where
  closed := .nil 0
  tokens := .nil (Nat.zero_le _)
  waiting := nofun
  place _ := rfl
  behind := ⟨le_refl 0, Nat.zero_le _⟩

end Scan

/-- The stretches lie side by side from the beginning of the data to the end. -/
theorem tiles_stretches (effort : Effort) (data : Array UInt8) :
    Tiles data 0 (stretches effort data) data.size := by
  let c := Chained.ofArray data
  obtain ⟨hcovers, hplace⟩ : (Scan.run c effort data.size {}).Covers data ∧
      data.size ≤ (Scan.run c effort data.size {}).place :=
    (Scan.covers_new c.data).run (Nat.le_add_left _ _)
  have hend := hcovers.end_eq hplace
  have hclosed := hcovers.close.closed
  change Tiles data 0 _ (_ + _) at hclosed
  rw [hend] at hclosed
  exact hclosed

end Courier.Deflate
