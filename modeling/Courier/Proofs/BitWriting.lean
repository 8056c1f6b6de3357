import Courier.Proofs.BitReaders
/-!
# Bits read back as they were written

The bits that are packed into bytes are the bits that the stream of those bytes shows, up to the
zeros that fill the last byte (`BitSource.shows_packBits`).  `Takes` says that a reader takes some
bits off the front of a stream and what it makes of them; what a sequence of readers takes is what
its readers take, one after another (`Takes.andThen`).
-/

namespace Courier.Deflate

/-! ## Bytes -/

@[simp] theorem length_lowBits (width n : Nat) : (lowBits width n).length = width := by
  induction width generalizing n with
  | zero => rfl
  | succ width ih => rw [lowBits, List.length_cons, ih]

@[simp] theorem length_wordBits (width n : Nat) : (wordBits width n).length = width := by
  rw [wordBits, List.length_reverse, length_lowBits]

@[simp] theorem length_byteBits (b : UInt8) : (byteBits b).length = 8 := rfl

theorem byteBits_ofBits (b₀ b₁ b₂ b₃ b₄ b₅ b₆ b₇ : Bool) :
    byteBits (UInt8.ofNat (ofBits [b₀, b₁, b₂, b₃, b₄, b₅, b₆, b₇])) =
      [b₀, b₁, b₂, b₃, b₄, b₅, b₆, b₇] := by
  revert b₀ b₁ b₂ b₃ b₄ b₅ b₆ b₇
  decide

theorem ofBits_append_zeros (bits : List Bool) (n : Nat) :
    ofBits (bits ++ List.replicate n false) = ofBits bits := by
  induction bits with
  | nil =>
    induction n with
    | zero => rfl
    | succ n ih =>
      rw [List.nil_append] at ih ⊢
      rw [List.replicate_succ, ofBits.eq_2, ih]
      rfl
  | cons b bits ih => rw [List.cons_append, ofBits, ih, ofBits]

/-- A byte of fewer than eight bits is filled up with zeros. -/
theorem byteBits_ofBits_of_le {bits : List Bool} (hbits : bits.length ≤ 8) :
    byteBits (UInt8.ofNat (ofBits bits)) = bits ++ List.replicate (8 - bits.length) false := by
  rw [← ofBits_append_zeros bits (8 - bits.length)]
  have hlength : (bits ++ List.replicate (8 - bits.length) false).length = 8 := by
    rw [List.length_append, List.length_replicate]
    omega
  generalize bits ++ List.replicate (8 - bits.length) false = all at hlength
  match all with
  | [b₀, b₁, b₂, b₃, b₄, b₅, b₆, b₇] => exact byteBits_ofBits b₀ b₁ b₂ b₃ b₄ b₅ b₆ b₇

theorem ofBits_byteBits (b : UInt8) : ofBits (byteBits b) = b.toNat := by
  have hall : ∀ n < 256, ofBits (byteBits (UInt8.ofNat n)) = n := by decide +kernel
  rw [← hall b.toNat b.toNat_lt, UInt8.ofNat_toNat]

theorem byteBits_injective : Function.Injective byteBits := by
  intro a b h
  apply UInt8.toNat_inj.1
  rw [← ofBits_byteBits a, ← ofBits_byteBits b, h]

theorem length_flatMap_byteBits (bytes : Bytes) :
    (bytes.flatMap byteBits).length = 8 * bytes.length := by
  induction bytes with
  | nil => rfl
  | cons b bytes ih =>
    rw [List.flatMap_cons, List.length_append, ih, length_byteBits, List.length_cons]
    omega

/-- Whole bytes in front of a bit string are whole bytes in front of a byte string. -/
theorem exists_append_of_flatMap_byteBits {front bytes : Bytes} {rest : List Bool}
    (h : bytes.flatMap byteBits = front.flatMap byteBits ++ rest) :
    ∃ behind, bytes = front ++ behind ∧ behind.flatMap byteBits = rest := by
  induction front generalizing bytes with
  | nil => exact ⟨bytes, rfl, h⟩
  | cons b front ih =>
    cases bytes with
    | nil =>
      have hlength := congrArg List.length h
      simp only [List.flatMap_nil, List.flatMap_cons, List.length_append, length_byteBits,
        List.length_nil] at hlength
      omega
    | cons b' bytes =>
      rw [List.flatMap_cons, List.flatMap_cons, List.append_assoc] at h
      obtain ⟨hbyte, hrest⟩ := List.append_inj h rfl
      obtain ⟨behind, hbytes, hbehind⟩ := ih hrest
      have hsame : b' = b := byteBits_injective hbyte
      exact ⟨behind, by rw [hsame, hbytes, List.cons_append], hbehind⟩

/-- How many zeros fill the last byte of so many bits. -/
def filling (length : Nat) : Nat :=
  (8 - length % 8) % 8

theorem length_lt_of_forall_ne {bits : List Bool}
    (hbits : ∀ b₀ b₁ b₂ b₃ b₄ b₅ b₆ b₇ rest,
      bits = b₀ :: b₁ :: b₂ :: b₃ :: b₄ :: b₅ :: b₆ :: b₇ :: rest → False) : bits.length < 8 := by
  match bits with
  | b₀ :: b₁ :: b₂ :: b₃ :: b₄ :: b₅ :: b₆ :: b₇ :: rest =>
    exact (hbits b₀ b₁ b₂ b₃ b₄ b₅ b₆ b₇ rest rfl).elim
  | [] | [_] | [_, _] | [_, _, _] | [_, _, _, _] | [_, _, _, _, _] | [_, _, _, _, _, _]
  | [_, _, _, _, _, _, _] => simp

theorem flatMap_byteBits_packBitsOnto (gathered : Bytes) (bits : List Bool) :
    (packBitsOnto gathered bits).flatMap byteBits =
      gathered.reverse.flatMap byteBits ++ bits ++ List.replicate (filling bits.length) false := by
  induction gathered, bits using packBitsOnto.induct with
  | case1 gathered b₀ b₁ b₂ b₃ b₄ b₅ b₆ b₇ rest ih =>
    have hfilling :
        filling (rest.length + 1 + 1 + 1 + 1 + 1 + 1 + 1 + 1) = filling rest.length := by
      unfold filling
      omega
    rw [packBitsOnto, ih]
    simp only [List.reverse_cons, List.flatMap_append, List.flatMap_cons, List.flatMap_nil,
      byteBits_ofBits, List.append_nil, List.append_assoc, List.length_cons, hfilling]
    rfl
  | case2 gathered => simp [packBitsOnto, filling]
  | case3 gathered bits hlong hnonempty =>
    have hfew := length_lt_of_forall_ne hlong
    have hsome : 0 < bits.length := List.length_pos_iff.2 hnonempty
    have hfilling : filling bits.length = 8 - bits.length := by
      unfold filling
      omega
    rw [packBitsOnto, List.reverse_cons, List.flatMap_append, List.flatMap_cons, List.flatMap_nil,
      List.append_nil, byteBits_ofBits_of_le hfew.le, hfilling, List.append_assoc]
    · exact hlong
    · exact hnonempty

/-! ## Streams -/

namespace BitSource

/-- The bits that are left of the stream, fewer than a byte of them taken apart. -/
structure Shows (s : BitSource) (bits : List Bool) : Prop where
  held : s.held.length < 8
  view : s.view = bits

theorem shows_packBits (bits : List Bool) :
    (ofBytes (packBits bits)).Shows (bits ++ List.replicate (filling bits.length) false) where
  held := Nat.zero_lt_succ _
  view := by
    change [] ++ (packBitsOnto [] bits).flatMap byteBits = _
    rw [flatMap_byteBits_packBitsOnto]
    rfl

theorem Shows.length {s : BitSource} {bits : List Bool} (h : s.Shows bits) :
    bits.length = s.held.length + 8 * s.bytes.length := by
  rw [← h.view, BitSource.view, List.length_append, length_flatMap_byteBits]

theorem Shows.readBit {s : BitSource} {b : Bool} {rest : List Bool} (h : s.Shows (b :: rest)) :
    ∃ s', readBit s = .ok (b, s') ∧ s'.Shows rest := by
  obtain ⟨held, bytes⟩ := s
  obtain ⟨hheld, hview⟩ := h
  cases held with
  | cons b' held =>
    obtain ⟨rfl, hrest⟩ := List.cons.inj hview
    exact ⟨⟨held, bytes⟩, rfl, Nat.lt_of_succ_lt hheld, hrest⟩
  | nil =>
    cases bytes with
    | nil => cases hview
    | cons byte bytes =>
      obtain ⟨rfl, hrest⟩ := List.cons.inj hview
      exact ⟨_, rfl, Nat.lt_succ_self 7, hrest⟩

/-- Bits in front of whole bytes are those that are held, if they are fewer than a byte. -/
theorem Shows.split {s : BitSource} {front : List Bool} {bytes : Bytes} {rest : List Bool}
    (h : s.Shows (front ++ (bytes.flatMap byteBits ++ rest))) (hfront : front.length < 8)
    (hrest : 8 ∣ rest.length) :
    ∃ behind, s = ⟨front, bytes ++ behind⟩ ∧ behind.flatMap byteBits = rest := by
  obtain ⟨held, all⟩ := s
  have hlength := h.length
  obtain ⟨hheld, hview⟩ := h
  have hsame : held.length = front.length := by
    rw [List.length_append, List.length_append, length_flatMap_byteBits] at hlength
    dsimp only at hheld hlength
    omega
  obtain ⟨rfl, hbytes⟩ := List.append_inj hview hsame
  obtain ⟨behind, rfl, hbehind⟩ := exists_append_of_flatMap_byteBits hbytes
  exact ⟨behind, rfl, hbehind⟩

theorem Shows.bytes_eq_nil {s : BitSource} {bits : List Bool} (h : s.Shows bits)
    (hbits : bits.length < 8) : s.bytes = [] := by
  have hlength := h.length
  apply List.length_eq_zero_iff.1
  omega

end BitSource

/-! ## Readers -/

/-- The reader takes these bits off the front of every stream that begins with them, and gives
what `made` makes of the rest. -/
def Takes {β : Type} (read : BitSource → Except Fault β) (bits : List Bool)
    (made : BitSource → β) : Prop :=
  ∀ ⦃s : BitSource⦄ ⦃rest : List Bool⦄, s.Shows (bits ++ rest) →
    ∃ s', read s = .ok (made s') ∧ s'.Shows rest

namespace Takes

variable {β δ : Type}

theorem nothing (made : BitSource → β) : Takes (fun s => .ok (made s)) [] made :=
  fun s _ h => ⟨s, rfl, h⟩

theorem andThen {read : BitSource → Except Fault β} {f : β → Except Fault δ}
    {bits bits' : List Bool} {made : BitSource → β} {made' : BitSource → δ}
    (hread : Takes read bits made) (hf : Takes (fun s => f (made s)) bits' made') :
    Takes (fun s => read s >>= f) (bits ++ bits') made' := by
  intro s rest h
  rw [List.append_assoc] at h
  obtain ⟨s₁, hfirst, h₁⟩ := hread h
  obtain ⟨s₂, hsecond, h₂⟩ := hf h₁
  exact ⟨s₂, bind_eq_ok_iff.2 ⟨_, hfirst, hsecond⟩, h₂⟩

theorem map {read : BitSource → Except Fault β} {f : β → Except Fault δ} {bits : List Bool}
    {made : BitSource → β} {made' : BitSource → δ} (hread : Takes read bits made)
    (hf : ∀ s, f (made s) = .ok (made' s)) : Takes (fun s => read s >>= f) bits made' := by
  intro s rest h
  obtain ⟨s₁, hfirst, h₁⟩ := hread h
  exact ⟨s₁, bind_eq_ok_iff.2 ⟨_, hfirst, hf s₁⟩, h₁⟩

end Takes

theorem takes_readBit (b : Bool) : Takes readBit [b] (Prod.mk b) :=
  fun _ _ h => h.readBit

theorem takes_readNumber {width n : Nat} (hn : n < 2 ^ width) :
    Takes (readNumber width) (lowBits width n) (Prod.mk n) := by
  induction width generalizing n with
  | zero =>
    obtain rfl : n = 0 := Nat.lt_one_iff.1 hn
    exact .nothing _
  | succ width ih =>
    have hhalf : n / 2 < 2 ^ width := by
      rw [Nat.pow_succ] at hn
      omega
    have hjoin : (decide (n % 2 = 1)).toNat + 2 * (n / 2) = n := by
      rcases Nat.mod_two_eq_zero_or_one n with hbit | hbit
      · rw [hbit]
        change 0 + 2 * (n / 2) = n
        omega
      · rw [hbit]
        change 1 + 2 * (n / 2) = n
        omega
    rw [readNumber_succ]
    refine (takes_readBit (n % 2 = 1)).andThen ?_
    dsimp only
    refine (ih hhalf).map fun s => ?_
    rw [hjoin]

end Courier.Deflate
