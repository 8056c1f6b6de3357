import Courier.Deflate.Inflate
import Courier.Proofs.Basics
/-!
# Readers of the bit stream

What a reader makes of a stream does not depend on the bytes behind those that it takes up: where
it succeeds, it does so in the same way with more bytes behind, and what it finds corrupt stays
so.  Only a reader that came to the end of the stream goes on when there are more bytes, and then
it takes up some of them.  A sequence of such readers is one as well (`IsReader.bind`).
-/

namespace Courier.Deflate

namespace BitSource

def followedBy (s : BitSource) (more : Bytes) : BitSource :=
  ⟨s.held, s.bytes ++ more⟩

def size (s : BitSource) : Nat :=
  s.held.length + 8 * s.bytes.length

@[simp] theorem followedBy_nil (s : BitSource) : s.followedBy [] = s := by
  rw [followedBy, List.append_nil]

theorem size_ofBytes (bytes : Bytes) : (ofBytes bytes).size = 8 * bytes.length :=
  Nat.zero_add _

end BitSource

/-- What comes with the rest of a stream. -/
class Leaves (β : Type) where
  left : β → BitSource
  followedBy : β → Bytes → β

instance : Leaves BitSource where
  left s := s
  followedBy := BitSource.followedBy

instance {α β : Type} [Leaves β] : Leaves (α × β) where
  left p := Leaves.left p.2
  followedBy p more := (p.1, Leaves.followedBy p.2 more)

instance : Leaves Step where
  left
    | .token _ s => s
    | .blockEnd s => s
  followedBy
    | .token t s, more => .token t (s.followedBy more)
    | .blockEnd s, more => .blockEnd (s.followedBy more)

section

variable {α γ β δ : Type} [Leaves γ] [Leaves β] [Leaves δ]

/-- A reader takes bits off the front of a stream and looks at no others. -/
structure IsReader (read : γ → Except Fault β) : Prop where
  ok : ∀ ⦃c b⦄, read c = .ok b →
    ∀ more, read (Leaves.followedBy c more) = .ok (Leaves.followedBy b more)
  corrupt : ∀ ⦃c⦄, read c = .error .corrupt →
    ∀ more, read (Leaves.followedBy c more) = .error .corrupt
  /-- A reader that can go on behind the end of the stream takes up some of what follows. -/
  ended : ∀ ⦃c⦄, read c = .error .ended →
    ∀ more b, read (Leaves.followedBy c more) = .ok b → (Leaves.left b).size < 8 * more.length
  size_le : ∀ ⦃c b⦄, read c = .ok b → (Leaves.left b).size ≤ (Leaves.left c).size

namespace IsReader

theorem cases_of_followedBy {read : γ → Except Fault β} (hread : IsReader read) {c : γ}
    {more : Bytes} {b : β} (h : read (Leaves.followedBy c more) = .ok b) :
    (∃ b', read c = .ok b' ∧ b = Leaves.followedBy b' more) ∨
      read c = .error .ended ∧ (Leaves.left b).size < 8 * more.length := by
  cases hc : read c with
  | ok b' =>
    rw [hread.ok hc more] at h
    exact .inl ⟨b', rfl, (Except.ok.inj h).symm⟩
  | error fault =>
    cases fault with
    | ended => exact .inr ⟨rfl, hread.ended hc more b h⟩
    | corrupt =>
      rw [hread.corrupt hc more] at h
      cases h

theorem pure {g : γ → β}
    (hmore : ∀ c more, g (Leaves.followedBy c more) = Leaves.followedBy (g c) more)
    (hleft : ∀ c, Leaves.left (g c) = Leaves.left c) : IsReader fun c => .ok (g c) where
  ok := by
    rintro c _ ⟨⟩ more
    rw [hmore]
  corrupt := by
    rintro c ⟨⟩
  ended := by
    rintro c ⟨⟩
  size_le := by
    rintro c _ ⟨⟩
    rw [hleft]

theorem done (a : α) : IsReader fun c : γ => (.ok (a, c) : Except Fault (α × γ)) :=
  pure (fun _ _ => rfl) fun _ => rfl

theorem corrupted : IsReader fun _ : γ => (.error .corrupt : Except Fault β) where
  ok := by
    rintro c b ⟨⟩
  corrupt _ _ _ := rfl
  ended := by
    rintro c ⟨⟩
  size_le := by
    rintro c b ⟨⟩

theorem bind {read : γ → Except Fault β} {f : β → Except Fault δ} (hread : IsReader read)
    (hf : IsReader f) : IsReader fun c => read c >>= f where
  ok := by
    intro c d h more
    obtain ⟨b, hfirst, hsecond⟩ := bind_eq_ok_iff.1 h
    exact bind_eq_ok_iff.2 ⟨_, hread.ok hfirst more, hf.ok hsecond more⟩
  corrupt := by
    intro c h more
    rcases bind_eq_error_iff.1 h with hfirst | ⟨b, hfirst, hsecond⟩
    · exact bind_eq_error_iff.2 (.inl (hread.corrupt hfirst more))
    · exact bind_eq_error_iff.2 (.inr ⟨_, hread.ok hfirst more, hf.corrupt hsecond more⟩)
  ended := by
    intro c h more d hmore
    obtain ⟨b, hfirst', hsecond'⟩ := bind_eq_ok_iff.1 hmore
    rcases bind_eq_error_iff.1 h with hfirst | ⟨b', hfirst, hsecond⟩
    · exact (hf.size_le hsecond').trans_lt (hread.ended hfirst more b hfirst')
    · rw [hread.ok hfirst more] at hfirst'
      cases hfirst'
      exact hf.ended hsecond more d hsecond'
  size_le := by
    intro c d h
    obtain ⟨b, hfirst, hsecond⟩ := bind_eq_ok_iff.1 h
    exact (hf.size_le hsecond).trans (hread.size_le hfirst)

theorem uncurry {f : α × γ → Except Fault β} (hf : ∀ a, IsReader fun c => f (a, c)) :
    IsReader f where
  ok p _ h more := (hf p.1).ok h more
  corrupt p h more := (hf p.1).corrupt h more
  ended p h more := (hf p.1).ended h more
  size_le p _ h := (hf p.1).size_le h

theorem andThen {read : γ → Except Fault (α × β)} {f : α × β → Except Fault δ}
    (hread : IsReader read) (hf : ∀ a, IsReader fun b => f (a, b)) :
    IsReader fun c => read c >>= f :=
  hread.bind (uncurry hf)

end IsReader

end

/-! ## Bits -/

theorem BitSource.next?_cases (s : BitSource) :
    s.next? = none ∧ s = ⟨[], []⟩ ∨
      ∃ b s', s.next? = some (b, s') ∧ s'.size + 1 = s.size ∧
        ∀ more, (s.followedBy more).next? = some (b, s'.followedBy more) := by
  obtain ⟨held, bytes⟩ := s
  cases held with
  | cons b held =>
    refine .inr ⟨b, ⟨held, bytes⟩, rfl, ?_, fun more => rfl⟩
    simp only [size, List.length_cons]
    omega
  | nil =>
    cases bytes with
    | nil => exact .inl ⟨rfl, rfl⟩
    | cons byte bytes =>
      refine .inr ⟨_, _, rfl, ?_, fun more => rfl⟩
      simp only [size, List.length_cons, List.length_nil]
      omega

def readBit (s : BitSource) : Except Fault (Bool × BitSource) :=
  match s.next? with
  | some r => .ok r
  | none => .error .ended

theorem readBit_cases (s : BitSource) :
    readBit s = .error .ended ∧ s = ⟨[], []⟩ ∨
      ∃ b s', readBit s = .ok (b, s') ∧ s'.size + 1 = s.size ∧
        ∀ more, readBit (s.followedBy more) = .ok (b, s'.followedBy more) := by
  unfold readBit
  rcases s.next?_cases with ⟨hnone, hs⟩ | ⟨b, s', hsome, hsize, hmore⟩
  · exact .inl ⟨by rw [hnone], hs⟩
  · exact .inr ⟨b, s', by rw [hsome], hsize, fun more => by rw [hmore]⟩

theorem size_of_readBit {s s' : BitSource} {b : Bool} (h : readBit s = .ok (b, s')) :
    s'.size + 1 = s.size := by
  rcases readBit_cases s with ⟨hended, -⟩ | ⟨b', s₁, hok, hsize, -⟩
  · rw [hended] at h
    cases h
  · rw [hok] at h
    cases h
    exact hsize

theorem readBit_isReader : IsReader readBit where
  ok := by
    intro s p h more
    rcases readBit_cases s with ⟨hended, -⟩ | ⟨b, s', hok, -, hmore⟩
    · rw [hended] at h
      cases h
    · rw [hok] at h
      cases h
      exact hmore more
  corrupt := by
    intro s h
    rcases readBit_cases s with ⟨hended, -⟩ | ⟨b, s', hok, -, -⟩
    · rw [hended] at h
      cases h
    · rw [hok] at h
      cases h
  ended := by
    rintro s h more ⟨b, s'⟩ hmore
    rcases readBit_cases s with ⟨-, rfl⟩ | ⟨b', s₁, hok, -, -⟩
    · have hsize := size_of_readBit hmore
      have hall : (BitSource.followedBy ⟨[], []⟩ more).size = 8 * more.length :=
        BitSource.size_ofBytes more
      change s'.size + 1 = (BitSource.followedBy ⟨[], []⟩ more).size at hsize
      change s'.size < 8 * more.length
      omega
    · rw [hok] at h
      cases h
  size_le := by
    rintro s ⟨b, s'⟩ h
    exact Nat.le_of_succ_le (size_of_readBit h).le

/-! ## Numbers and symbols -/

theorem readNumber_succ (width : Nat) :
    readNumber (width + 1) = fun s => readBit s >>= fun p =>
      readNumber width p.2 >>= fun q => .ok (p.1.toNat + 2 * q.1, q.2) := by
  funext s
  unfold readNumber readBit
  rw [BitSource.number?]
  cases s.next? with
  | none => rfl
  | some p =>
    simp only [bind, Except.bind]
    cases p.2.number? width <;> rfl

theorem readNumber_isReader (width : Nat) : IsReader (readNumber width) := by
  induction width with
  | zero => exact .pure (fun _ _ => rfl) fun _ => rfl
  | succ width ih =>
    rw [readNumber_succ]
    refine readBit_isReader.andThen fun b => ?_
    dsimp only
    refine ih.andThen fun n => ?_
    exact .pure (fun _ _ => rfl) fun _ => rfl

theorem size_lt_of_readNumber {width n : Nat} {s s' : BitSource}
    (h : readNumber (width + 1) s = .ok (n, s')) : s'.size < s.size := by
  rw [readNumber_succ] at h
  obtain ⟨⟨b, s₁⟩, hbit, h⟩ := bind_eq_ok_iff.1 h
  obtain ⟨⟨n', s₂⟩, hnumber, h⟩ := bind_eq_ok_iff.1 h
  have hsize := size_of_readBit hbit
  have hle : s₂.size ≤ s₁.size := (readNumber_isReader width).size_le hnumber
  cases h
  exact hle.trans_lt (by omega)

theorem decodeSymbol_fork (zero one : Tree) :
    decodeSymbol (.fork zero one) = fun s => readBit s >>= fun p =>
      decodeSymbol (if p.1 then one else zero) p.2 := by
  funext s
  unfold decodeSymbol readBit
  rw [Tree.decode]
  cases s.next? with
  | none => rfl
  | some p =>
    obtain ⟨b, s'⟩ := p
    cases b <;> rfl

theorem decodeSymbol_isReader (tree : Tree) : IsReader (decodeSymbol tree) := by
  induction tree with
  | unassigned => exact .corrupted
  | leaf symbol => exact .pure (fun _ _ => rfl) fun _ => rfl
  | fork zero one ihzero ihone =>
    rw [decodeSymbol_fork]
    refine readBit_isReader.andThen fun b => ?_
    cases b with
    | false => exact ihzero
    | true => exact ihone

theorem readRange_isReader (range : Range) : IsReader (readRange range) := by
  have heq : readRange range = fun s => readNumber range.extraBits s >>= fun p =>
      .ok (range.least + p.1, p.2) := by
    funext s
    unfold readRange
    cases readNumber range.extraBits s <;> rfl
  rw [heq]
  refine (readNumber_isReader _).andThen fun n => ?_
  exact .pure (fun _ _ => rfl) fun _ => rfl

/-! ## Steps -/

theorem readCopy_isReader (distances : Tree) (symbol : Nat) :
    IsReader (readCopy distances symbol) := by
  unfold readCopy
  cases lengthRanges[symbol - firstLengthSymbol]? with
  | none => exact .corrupted
  | some lengthRange =>
    refine (readRange_isReader lengthRange).andThen fun length => ?_
    refine (decodeSymbol_isReader distances).andThen fun place => ?_
    dsimp only
    cases distanceRanges[place]? with
    | none => exact .corrupted
    | some distanceRange =>
      refine (readRange_isReader distanceRange).andThen fun distance => ?_
      exact .pure (fun _ _ => rfl) fun _ => rfl

theorem readStep_eq (literals distances : Tree) :
    readStep literals distances = fun s => decodeSymbol literals s >>= fun p =>
      if p.1 < endOfBlock then .ok (.token (.literal (UInt8.ofNat p.1)) p.2)
      else if p.1 = endOfBlock then .ok (.blockEnd p.2)
      else readCopy distances p.1 p.2 := by
  funext s
  unfold readStep
  cases decodeSymbol literals s <;> rfl

theorem readStep_isReader (literals distances : Tree) : IsReader (readStep literals distances) := by
  rw [readStep_eq]
  refine (decodeSymbol_isReader literals).andThen fun symbol => ?_
  dsimp only
  by_cases hliteral : symbol < endOfBlock
  · simp only [if_pos hliteral]
    exact .pure (fun _ _ => rfl) fun _ => rfl
  by_cases hend : symbol = endOfBlock
  · simp only [if_neg hliteral, if_pos hend]
    exact .pure (fun _ _ => rfl) fun _ => rfl
  · simp only [if_neg hliteral, if_neg hend]
    exact readCopy_isReader distances symbol

/-! ## Heads of blocks -/

/-- Whole bytes; what is left of the byte under way is skipped. -/
def readWhole (count : Nat) (s : BitSource) : Except Fault (Bytes × BitSource) :=
  match Bytes.takeExactly count s.bytes with
  | some (front, rest) => .ok (front, .ofBytes rest)
  | none => .error .ended

theorem readWhole_of_le {count : Nat} {s : BitSource} (hcount : count ≤ s.bytes.length) :
    readWhole count s = .ok (s.bytes.take count, .ofBytes (s.bytes.drop count)) := by
  rw [readWhole, Bytes.takeExactly_of_le hcount]

theorem readWhole_of_lt {count : Nat} {s : BitSource} (hcount : s.bytes.length < count) :
    readWhole count s = .error .ended := by
  rw [readWhole, Bytes.takeExactly_eq_none hcount]

theorem readWhole_isReader (count : Nat) : IsReader (readWhole count) where
  ok := by
    intro s p h more
    by_cases hcount : count ≤ s.bytes.length
    · rw [readWhole_of_le hcount] at h
      cases h
      have hmore : count ≤ (s.followedBy more).bytes.length :=
        hcount.trans (by simp [BitSource.followedBy])
      change readWhole count (s.followedBy more) = _
      rw [readWhole_of_le hmore]
      simp only [BitSource.followedBy, List.take_append_of_le_length hcount,
        List.drop_append_of_le_length hcount]
      rfl
    · rw [readWhole_of_lt (not_le.1 hcount)] at h
      cases h
  corrupt := by
    intro s h more
    by_cases hcount : count ≤ s.bytes.length
    · rw [readWhole_of_le hcount] at h
      cases h
    · rw [readWhole_of_lt (not_le.1 hcount)] at h
      cases h
  ended := by
    intro s h more p hmore
    by_cases hcount : count ≤ s.bytes.length
    · rw [readWhole_of_le hcount] at h
      cases h
    change readWhole count (s.followedBy more) = _ at hmore
    by_cases hcount' : count ≤ (s.followedBy more).bytes.length
    · rw [readWhole_of_le hcount'] at hmore
      cases hmore
      change (BitSource.ofBytes ((s.followedBy more).bytes.drop count)).size < _
      rw [BitSource.size_ofBytes, List.length_drop]
      simp only [BitSource.followedBy, List.length_append] at hcount' ⊢
      omega
    · rw [readWhole_of_lt (not_le.1 hcount')] at hmore
      cases hmore
  size_le := by
    intro s p h
    by_cases hcount : count ≤ s.bytes.length
    · rw [readWhole_of_le hcount] at h
      cases h
      change (BitSource.ofBytes (s.bytes.drop count)).size ≤ s.size
      rw [BitSource.size_ofBytes, List.length_drop, BitSource.size]
      omega
    · rw [readWhole_of_lt (not_le.1 hcount)] at h
      cases h

theorem readStoredLength_eq :
    readStoredLength = fun s => readWhole 4 s >>= fun p =>
      if Bytes.ofLittleEndian (p.1.drop 2) ≠ 0xFFFF - Bytes.ofLittleEndian (p.1.take 2) then
        .error .corrupt
      else .ok (Bytes.ofLittleEndian (p.1.take 2), p.2) := by
  funext s
  obtain ⟨held, bytes⟩ := s
  match bytes with
  | [] => rfl
  | [_] => rfl
  | [_, _] => rfl
  | [_, _, _] => rfl
  | l₀ :: l₁ :: n₀ :: n₁ :: bytes =>
    rw [readWhole_of_le (by simp)]
    rfl

theorem readStoredLength_isReader : IsReader readStoredLength := by
  rw [readStoredLength_eq]
  refine (readWhole_isReader 4).andThen fun front => ?_
  by_cases hcomplement :
      Bytes.ofLittleEndian (front.drop 2) = 0xFFFF - Bytes.ofLittleEndian (front.take 2)
  · simp only [hcomplement, ne_eq, not_true, if_false]
    exact .done _
  · simp only [hcomplement, ne_eq, not_false_eq_true, if_true]
    exact .corrupted

theorem readTriples_isReader (count : Nat) : IsReader (readTriples count) := by
  induction count with
  | zero => exact .pure (fun _ _ => rfl) fun _ => rfl
  | succ count ih =>
    refine (readNumber_isReader 3).andThen fun n => ?_
    refine ih.andThen fun ns => ?_
    exact .pure (fun _ _ => rfl) fun _ => rfl

/-- The length that a symbol stands for several times, and the range of their number. -/
def repeated (gathered : List Nat) (symbol : Nat) : Option Nat × Range :=
  if symbol = 16 then (gathered.head?, ⟨3, 2⟩)
  else if symbol = 17 then (some 0, ⟨3, 3⟩)
  else (some 0, ⟨11, 7⟩)

theorem readLengths_succ (tree : Tree) (total fuel : Nat) (gathered : List Nat) :
    readLengths tree total (fuel + 1) gathered = fun s =>
      if gathered.length = total then .ok (gathered.reverse, s)
      else if total < gathered.length then .error .corrupt
      else decodeSymbol tree s >>= fun p =>
        if p.1 < 16 then readLengths tree total fuel (p.1 :: gathered) p.2
        else
          match (repeated gathered p.1).1 with
          | none => .error .corrupt
          | some value => readRange (repeated gathered p.1).2 p.2 >>= fun q =>
              readLengths tree total fuel (List.replicate q.1 value ++ gathered) q.2 := by
  funext s
  rw [readLengths]
  cases decodeSymbol tree s with
  | error fault => rfl
  | ok p =>
    obtain ⟨symbol, s'⟩ := p
    simp only [bind, Except.bind, repeated]
    generalize (if symbol = 16 then (gathered.head?, (⟨3, 2⟩ : Range))
      else if symbol = 17 then (some 0, ⟨3, 3⟩) else (some 0, ⟨11, 7⟩)) = value
    obtain ⟨value?, range⟩ := value
    cases value? with
    | none => rfl
    | some value =>
      dsimp only
      cases readRange range s' <;> rfl

theorem readLengths_isReader (tree : Tree) (total fuel : Nat) (gathered : List Nat) :
    IsReader (readLengths tree total fuel gathered) := by
  induction fuel generalizing gathered with
  | zero => exact .corrupted
  | succ fuel ih =>
    rw [readLengths_succ]
    by_cases hdone : gathered.length = total
    · simp only [if_pos hdone]
      exact .done _
    by_cases hroom : total < gathered.length
    · simp only [if_neg hdone, if_pos hroom]
      exact .corrupted
    simp only [if_neg hdone, if_neg hroom]
    refine (decodeSymbol_isReader tree).andThen fun symbol => ?_
    by_cases hlength : symbol < 16
    · simp only [if_pos hlength]
      exact ih _
    simp only [if_neg hlength]
    cases (repeated gathered symbol).1 with
    | none => exact .corrupted
    | some value =>
      exact (readRange_isReader _).andThen fun count =>
        ih (List.replicate count value ++ gathered)

theorem readTrees_isReader : IsReader readTrees := by
  refine (readNumber_isReader 5).andThen fun literalCount => ?_
  refine (readNumber_isReader 5).andThen fun distanceCount => ?_
  refine (readNumber_isReader 4).andThen fun orderCount => ?_
  by_cases hcounts : (286 < literalCount + 257 || 30 < distanceCount + 1) = true
  · simp only [if_pos hcounts]
    exact .corrupted
  simp only [if_neg hcounts]
  refine (readTriples_isReader _).andThen fun triples => ?_
  dsimp only
  by_cases hcomplete : (!isComplete ((List.range 19).map fun symbol =>
      ((lengthCodeOrder.zip triples).lookup symbol).getD 0)) = true
  · simp only [if_pos hcomplete]
    exact .corrupted
  simp only [if_neg hcomplete]
  refine (readLengths_isReader _ _ _ _).andThen fun lengths => ?_
  by_cases husable : (!(isUsable (lengths.take (literalCount + 257)) &&
      isUsable (lengths.drop (literalCount + 257)))) = true
  · simp only [if_pos husable]
    exact .corrupted
  · simp only [if_neg husable]
    exact .pure (fun _ _ => rfl) fun _ => rfl

theorem readHead_isReader : IsReader readHead := by
  refine (readNumber_isReader 1).andThen fun last => ?_
  refine (readNumber_isReader 2).andThen fun kind => ?_
  by_cases hstored : kind = 0
  · simp only [if_pos hstored]
    refine readStoredLength_isReader.andThen fun length => ?_
    exact .pure (fun _ _ => rfl) fun _ => rfl
  by_cases hfixed : kind = 1
  · simp only [if_neg hstored, if_pos hfixed]
    exact .pure (fun _ _ => rfl) fun _ => rfl
  by_cases hown : kind = 2
  · simp only [if_neg hstored, if_neg hfixed, if_pos hown]
    refine readTrees_isReader.andThen fun literals => .uncurry fun distances => ?_
    exact .pure (fun _ _ => rfl) fun _ => rfl
  · simp only [if_neg hstored, if_neg hfixed, if_neg hown]
    exact .corrupted

end Courier.Deflate
