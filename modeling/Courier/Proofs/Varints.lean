import Courier.Varint
import Courier.Proofs.Layout
/-!
# The language of variable-length integers

A form of a number is a run of bytes with the high bit, closed by one without, whose groups of seven
bits add up to the number.  Reading goes on as long as the bytes are an open front of such a run,
and stops at the byte that closes it or that cannot be part of one (`Varint.intake_follows`).
-/

namespace Courier.Varint

/-- The number that the seven-bit groups of the bytes add up to, the lowest group first. -/
def ofGroups : Bytes → Nat
  | [] => 0
  | b :: rest => b.toNat % 128 + 128 * ofGroups rest

/-- Bytes behind which a form may go on. -/
def IsOpen (maxLength maxBits : Nat) (bytes : Bytes) : Prop :=
  bytes.length < maxLength ∧ (∀ b ∈ bytes, 128 ≤ b.toNat) ∧ ofGroups bytes < 2 ^ maxBits

/-- Numbers below `2 ^ maxBits` in at most `maxLength` bytes. -/
def layout (maxLength maxBits : Nat) : Layout Nat where
  Form bytes n :=
    ∃ front b, bytes = front ++ [b] ∧ IsOpen maxLength maxBits front ∧ b.toNat < 128 ∧
      ofGroups bytes = n ∧ n < 2 ^ maxBits
  Refused bytes e :=
    e = .invalidVarint .header ∧
      ∃ front b, bytes = front ++ [b] ∧ IsOpen maxLength maxBits front ∧
        (2 ^ maxBits ≤ ofGroups bytes ∨ 128 ≤ b.toNat ∧ bytes.length = maxLength)
  Unfinished bytes s := IsOpen maxLength maxBits bytes ∧ s = .header

theorem ofGroups_append (front back : Bytes) :
    ofGroups (front ++ back) = ofGroups front + 128 ^ front.length * ofGroups back := by
  induction front with
  | nil => simp [ofGroups]
  | cons b front ih =>
    simp only [List.cons_append, ofGroups, ih, List.length_cons, Nat.pow_succ]
    ring

theorem ofGroups_append_singleton (front : Bytes) (b : UInt8) :
    ofGroups (front ++ [b]) = ofGroups front + 128 ^ front.length * (b.toNat % 128) := by
  simp [ofGroups_append, ofGroups]

theorem ofGroups_lt (bytes : Bytes) : ofGroups bytes < 128 ^ bytes.length := by
  induction bytes with
  | nil => simp [ofGroups]
  | cons b bytes ih =>
    simp only [ofGroups, List.length_cons, Nat.pow_succ]
    omega

theorem pow_128 (k : Nat) : 128 ^ k = 2 ^ (7 * k) := by
  rw [Nat.pow_mul]

theorem bitLength_group_le_iff {maxBits index value group : Nat} (hindex : 7 * index ≤ maxBits)
    (hvalue : value < 128 ^ index) :
    7 * index + bitLength group ≤ maxBits ↔ value + 128 ^ index * group < 2 ^ maxBits := by
  rw [pow_128] at hvalue ⊢
  unfold bitLength
  by_cases hgroup : group = 0
  · have hpow : 2 ^ (7 * index) ≤ 2 ^ maxBits := Nat.pow_le_pow_right (by omega) hindex
    simp only [hgroup, if_true, Nat.mul_zero, Nat.add_zero]
    exact ⟨fun _ => hvalue.trans_le hpow, fun _ => hindex⟩
  · rw [if_neg hgroup]
    constructor
    · intro hbits
      have hlt : group + 1 ≤ 2 ^ (group.log2 + 1) := Nat.lt_log2_self
      calc value + 2 ^ (7 * index) * group
          < 2 ^ (7 * index) * (group + 1) := by rw [Nat.mul_add]; omega
        _ ≤ 2 ^ (7 * index) * 2 ^ (group.log2 + 1) := Nat.mul_le_mul_left _ hlt
        _ = 2 ^ (7 * index + (group.log2 + 1)) := (Nat.pow_add ..).symm
        _ ≤ 2 ^ maxBits := Nat.pow_le_pow_right (by omega) hbits
    · intro hlt
      have hlog : 2 ^ group.log2 ≤ group := Nat.log2_self_le hgroup
      have hpow : 2 ^ (7 * index + group.log2) < 2 ^ maxBits := by
        calc 2 ^ (7 * index + group.log2)
            = 2 ^ (7 * index) * 2 ^ group.log2 := Nat.pow_add ..
          _ ≤ 2 ^ (7 * index) * group := Nat.mul_le_mul_left _ hlog
          _ ≤ value + 2 ^ (7 * index) * group := Nat.le_add_left ..
          _ < 2 ^ maxBits := hlt
      have := (Nat.pow_lt_pow_iff_right (by omega)).1 hpow
      omega

/-! ## Words -/

structure IsField (maxLength maxBits : Nat) : Prop where
  nonempty : 0 < maxLength
  room : maxBits ≤ 7 * maxLength
  width : 7 * maxLength ≤ maxBits + 7
  word : maxBits ≤ 64

theorem isField64 : IsField longest64 64 := ⟨by decide, by decide, by decide, by decide⟩

theorem isField32 : IsField longest32 32 := ⟨by decide, by decide, by decide, by decide⟩

theorem toNat_group (b : UInt8) : (group b).toNat = b.toNat % 128 := by
  rw [group, UInt8.toNat_toUInt64, UInt8.toNat_and]
  exact Nat.and_two_pow_sub_one_eq_mod b.toNat 7

theorem and_0x80_eq_zero_iff {b : UInt8} : b &&& 0x80 = 0 ↔ b.toNat < 128 := by
  revert b
  decide +kernel

theorem toNat_shiftLeft {word : UInt64} {places : Nat} (hplaces : places < 64)
    (hfits : word.toNat * 2 ^ places < 2 ^ 64) :
    (word <<< UInt64.ofNat places).toNat = word.toNat * 2 ^ places := by
  have hmod : places % 2 ^ 64 % 64 = places := by omega
  rw [UInt64.toNat_shiftLeft, UInt64.toNat_ofNat', hmod, Nat.shiftLeft_eq, Nat.mod_eq_of_lt hfits]

theorem toNat_or_shiftLeft {value word : UInt64} {places : Nat} (hplaces : places < 64)
    (hvalue : value.toNat < 2 ^ places) (hfits : word.toNat * 2 ^ places < 2 ^ 64) :
    (value ||| word <<< UInt64.ofNat places).toNat = value.toNat + 2 ^ places * word.toNat := by
  rw [UInt64.toNat_or, toNat_shiftLeft hplaces hfits, Nat.or_comm, Nat.mul_comm word.toNat,
    ← Nat.two_pow_add_eq_or_of_lt hvalue, Nat.add_comm]

/-! ## Reading -/

variable {maxLength maxBits : Nat}

def after (seen : Bytes) : Progress :=
  { groups := seen.length, value := UInt64.ofNat (ofGroups seen) }

def intakeBehind (maxBits : Nat) (seen : Bytes) (left : Nat) : Intake Nat := do
  return (← intakeFrom maxBits (after seen) left).toNat

theorem intake_eq_intakeBehind (maxLength maxBits : Nat) :
    intake maxLength maxBits = intakeBehind maxBits [] maxLength := rfl

theorem shift_after (seen : Bytes) : (after seen).shift = 7 * seen.length := rfl

theorem IsOpen.shift_le (hfield : IsField maxLength maxBits) {seen : Bytes}
    (hseen : IsOpen maxLength maxBits seen) : (after seen).shift ≤ maxBits := by
  have hlength : seen.length + 1 ≤ maxLength := hseen.1
  have hwidth := hfield.width
  rw [shift_after]
  omega

theorem IsOpen.shift_lt (hfield : IsField maxLength maxBits) {seen : Bytes}
    (hseen : IsOpen maxLength maxBits seen) : (after seen).shift < 64 := by
  have hle := hseen.shift_le hfield
  have hword := hfield.word
  rw [shift_after] at hle ⊢
  omega

theorem toNat_value_after (hword : maxBits ≤ 64) {seen : Bytes}
    (hseen : ofGroups seen < 2 ^ maxBits) :
    (after seen).value.toNat = ofGroups seen :=
  UInt64.toNat_ofNat_of_lt' (hseen.trans_le (Nat.pow_le_pow_right (by omega) hword))

theorem ofGroups_append_group (seen : Bytes) (b : UInt8) :
    ofGroups (seen ++ [b]) = ofGroups seen + 2 ^ (after seen).shift * (group b).toNat := by
  rw [ofGroups_append_singleton, pow_128, toNat_group, shift_after]

theorem shift_add_bitLength_le_iff (hfield : IsField maxLength maxBits) {seen : Bytes}
    (hseen : IsOpen maxLength maxBits seen) (b : UInt8) :
    (after seen).shift + bitLength (group b).toNat ≤ maxBits ↔
      ofGroups (seen ++ [b]) < 2 ^ maxBits := by
  rw [ofGroups_append_singleton, toNat_group]
  exact bitLength_group_le_iff (hseen.shift_le hfield) (ofGroups_lt seen)

theorem group_mul_lt (hfield : IsField maxLength maxBits) {seen : Bytes} {b : UInt8}
    (hnarrow : ofGroups (seen ++ [b]) < 2 ^ maxBits) :
    (group b).toNat * 2 ^ (after seen).shift < 2 ^ 64 := by
  have hpow : 2 ^ maxBits ≤ 2 ^ 64 := Nat.pow_le_pow_right (by omega) hfield.word
  have hsum := ofGroups_append_group seen b
  rw [Nat.mul_comm]
  omega

/-- A group that stays within the width is put in front of those that are there. -/
theorem add?_after (hfield : IsField maxLength maxBits) {seen : Bytes}
    (hseen : IsOpen maxLength maxBits seen) (b : UInt8) :
    (after seen).add? maxBits b =
      if 2 ^ maxBits ≤ ofGroups (seen ++ [b]) then none else some (after (seen ++ [b])) := by
  have hbits := shift_add_bitLength_le_iff hfield hseen b
  rw [Progress.add?]
  by_cases hwide : 2 ^ maxBits ≤ ofGroups (seen ++ [b])
  · rw [if_pos hwide, if_pos (by omega)]
  · have hnarrow := Nat.lt_of_not_le hwide
    have hvalue := toNat_value_after hfield.word hseen.2.2
    -- What is in the word is below the place of the group, so that joining their bits adds them up.
    have hlow : (after seen).value.toNat < 2 ^ (after seen).shift := by
      rw [hvalue, shift_after, ← pow_128]
      exact ofGroups_lt seen
    have hnext : (after seen).value ||| group b <<< UInt64.ofNat (after seen).shift =
        (after (seen ++ [b])).value := by
      rw [← UInt64.toNat_inj, toNat_or_shiftLeft (hseen.shift_lt hfield) hlow
        (group_mul_lt hfield hnarrow), hvalue, ← ofGroups_append_group,
        toNat_value_after hfield.word hnarrow]
    have hgroups : (after seen).groups + 1 = (after (seen ++ [b])).groups := by
      simp [after]
    rw [if_neg hwide, if_neg (by omega), hnext, hgroups]

theorem runBytes_intakeBehind_cons (hfield : IsField maxLength maxBits) {seen : Bytes}
    (hseen : IsOpen maxLength maxBits seen) (b : UInt8) (left : Nat) (rest : Bytes) :
    (intakeBehind maxBits seen (left + 1)).runBytes (b :: rest) =
      if 2 ^ maxBits ≤ ofGroups (seen ++ [b]) then (.error (.invalidVarint .header), rest)
      else if b.toNat < 128 then (.ok (ofGroups (seen ++ [b])), rest)
      else (intakeBehind maxBits (seen ++ [b]) left).runBytes rest := by
  have hone : 1 ≤ (b :: rest).length := by simp
  rw [intakeBehind, intakeFrom, Intake.bind_eq, Intake.bind, Intake.runBytes_read_of_le hone]
  simp only [List.take_succ_cons, List.take_zero, List.drop_succ_cons, List.drop_zero,
    List.headD_cons, add?_after hfield hseen, and_0x80_eq_zero_iff]
  by_cases hwide : 2 ^ maxBits ≤ ofGroups (seen ++ [b])
  · rw [if_pos hwide, if_pos hwide]
    rfl
  · rw [if_neg hwide, if_neg hwide]
    by_cases hlast : b.toNat < 128
    · simp only [if_pos hlast]
      rw [← toNat_value_after hfield.word (Nat.lt_of_not_le hwide)]
      rfl
    · simp only [if_neg hlast]
      rfl

theorem IsOpen.of_append {front back : Bytes} (h : IsOpen maxLength maxBits (front ++ back)) :
    IsOpen maxLength maxBits front := by
  obtain ⟨hlength, hcontinued, hvalue⟩ := h
  refine ⟨?_, fun b hb => hcontinued b (List.mem_append_left _ hb), ?_⟩
  · rw [List.length_append] at hlength
    omega
  · rw [ofGroups_append] at hvalue
    omega

/-- Reading passes through an open front. -/
theorem runBytes_intakeBehind_open (hfield : IsField maxLength maxBits) (seen : Bytes)
    {more : Bytes} (hopen : IsOpen maxLength maxBits (seen ++ more)) (left : Nat) (rest : Bytes) :
    (intakeBehind maxBits seen (left + more.length)).runBytes (more ++ rest) =
      (intakeBehind maxBits (seen ++ more) left).runBytes rest := by
  induction more generalizing seen with
  | nil => simp
  | cons b more ih =>
    have hopen' : IsOpen maxLength maxBits ((seen ++ [b]) ++ more) := by simpa using hopen
    have hb : ¬ b.toNat < 128 := Nat.not_lt.2 (hopen.2.1 b (by simp))
    have hnarrow : ¬ 2 ^ maxBits ≤ ofGroups (seen ++ [b]) := Nat.not_le.2 hopen'.of_append.2.2
    rw [List.length_cons, ← Nat.add_assoc, List.cons_append,
      runBytes_intakeBehind_cons hfield hopen.of_append, if_neg hnarrow, if_neg hb,
      ih (seen ++ [b]) hopen']
    simp

theorem runBytes_intake_open_cons (hfield : IsField maxLength maxBits) {front : Bytes}
    (hfront : IsOpen maxLength maxBits front) (b : UInt8) (rest : Bytes) :
    (intake maxLength maxBits).runBytes (front ++ [b] ++ rest) =
      if 2 ^ maxBits ≤ ofGroups (front ++ [b]) then (.error (.invalidVarint .header), rest)
      else if b.toNat < 128 then (.ok (ofGroups (front ++ [b])), rest)
      else (intakeBehind maxBits (front ++ [b]) (maxLength - front.length - 1)).runBytes rest := by
  have hleft : maxLength = maxLength - front.length - 1 + 1 + front.length := by
    have := hfront.1
    omega
  have hpass := runBytes_intakeBehind_open hfield [] hfront
    (maxLength - front.length - 1 + 1) (b :: rest)
  rw [← hleft] at hpass
  rw [List.append_assoc, List.singleton_append, ← runBytes_intakeBehind_cons hfield hfront]
  exact hpass

theorem layout_covers_append {seen : Bytes} (hseen : IsOpen maxLength maxBits seen)
    (bytes : Bytes) : (layout maxLength maxBits).Covers (seen ++ bytes) := by
  induction bytes generalizing seen with
  | nil => exact Or.inr (Or.inr ⟨.header, by simpa using hseen, rfl⟩)
  | cons b bytes ih =>
    have hsplit : seen ++ b :: bytes = (seen ++ [b]) ++ bytes := by simp
    rw [hsplit]
    by_cases hwide : 2 ^ maxBits ≤ ofGroups (seen ++ [b])
    · exact Or.inr (Or.inl ⟨_, bytes, _, rfl, rfl, seen, b, rfl, hseen, Or.inl hwide⟩)
    by_cases hlast : b.toNat < 128
    · exact Or.inl ⟨_, bytes, _, rfl, seen, b, rfl, hseen, hlast, rfl, Nat.lt_of_not_le hwide⟩
    by_cases hlength : (seen ++ [b]).length = maxLength
    · exact Or.inr (Or.inl ⟨_, bytes, _, rfl, rfl, seen, b, rfl, hseen,
        Or.inr ⟨Nat.le_of_not_lt hlast, hlength⟩⟩)
    refine ih ⟨?_, ?_, Nat.lt_of_not_le hwide⟩
    · have := hseen.1
      simp only [List.length_append, List.length_singleton] at hlength ⊢
      omega
    · intro c hc
      rcases List.mem_append.1 hc with hc | hc
      · exact hseen.2.1 c hc
      · rw [List.mem_singleton.1 hc]
        exact Nat.le_of_not_lt hlast

theorem isOpen_nil (hlength : 0 < maxLength) : IsOpen maxLength maxBits [] :=
  ⟨hlength, by simp, Nat.two_pow_pos maxBits⟩

theorem intake_follows (hfield : IsField maxLength maxBits) :
    (intake maxLength maxBits).Follows (layout maxLength maxBits) where
  form := by
    rintro _ v ⟨front, b, rfl, hfront, hb, rfl, hv⟩ rest
    rw [runBytes_intake_open_cons hfield hfront, if_neg (Nat.not_le.2 hv), if_pos hb]
  refused := by
    rintro _ _ ⟨rfl, front, b, rfl, hfront, hwide | ⟨hb, hfull⟩⟩ rest
    · rw [runBytes_intake_open_cons hfield hfront, if_pos hwide]
    · rw [runBytes_intake_open_cons hfield hfront]
      have hleft : maxLength - front.length - 1 = 0 := by
        rw [List.length_append, List.length_singleton] at hfull
        omega
      rw [if_neg (Nat.not_lt.2 hb), hleft]
      split <;> rfl
  unfinished := by
    rintro bytes _ ⟨hopen, rfl⟩
    refine ⟨1, 0, ?_⟩
    have hleft : maxLength = maxLength - bytes.length - 1 + 1 + bytes.length := by
      have := hopen.1
      omega
    have hpass := runBytes_intakeBehind_open hfield [] hopen
      (maxLength - bytes.length - 1 + 1) []
    rw [← hleft, List.append_nil] at hpass
    rw [intake_eq_intakeBehind]
    exact hpass
  covers := layout_covers_append (isOpen_nil hfield.nonempty)

theorem sizeIntake_bind_follows {β : Type} {f : UInt32 → Intake β} {next : Nat → Layout β}
    (hf : ∀ size : UInt32, (f size).Follows (next size.toNat)) :
    (sizeIntake.bind f).Follows ((layout longest32 32).bind next) := by
  rw [sizeIntake, Intake.bind_eq, Intake.bind_assoc]
  refine (intake_follows isField32).bind_of_form ?_
  rintro _ size ⟨_, _, -, -, -, -, hsize⟩
  have hfits : size < UInt32.size := hsize
  have hnext := hf (UInt32.ofNat size)
  rw [UInt32.toNat_ofNat_of_lt' hfits] at hnext
  rw [if_pos hfits]
  exact hnext

/-! ## Writing -/

/-- The shortest form: continued bytes and a last one, as many as the number has groups. -/
theorem encode_eq_append (n : Nat) :
    ∃ front b, encode n = front ++ [b] ∧ (∀ c ∈ front, 128 ≤ c.toNat) ∧ b.toNat < 128 := by
  induction n using encode.induct with
  | case1 n hn =>
    refine ⟨[], UInt8.ofNat n, ?_, by simp, ?_⟩
    · rw [encode, if_pos hn, List.nil_append]
    · rw [UInt8.toNat_ofNat']
      omega
  | case2 n hn ih =>
    obtain ⟨front, b, hencode, hfront, hb⟩ := ih
    refine ⟨UInt8.ofNat (128 + n % 128) :: front, b, ?_, ?_, hb⟩
    · rw [encode, if_neg hn, hencode, List.cons_append]
    · intro c hc
      rcases List.mem_cons.1 hc with rfl | hc
      · rw [UInt8.toNat_ofNat']
        omega
      · exact hfront c hc

theorem ofGroups_encode (n : Nat) : ofGroups (encode n) = n := by
  induction n using encode.induct with
  | case1 n hn =>
    rw [encode, if_pos hn]
    simp only [ofGroups, UInt8.toNat_ofNat']
    omega
  | case2 n hn ih =>
    rw [encode, if_neg hn]
    simp only [ofGroups, UInt8.toNat_ofNat', ih]
    omega

theorem length_encode_le {n k : Nat} (hn : n < 128 ^ (k + 1)) : (encode n).length ≤ k + 1 := by
  induction k generalizing n with
  | zero =>
    rw [encode, if_pos (by omega)]
    simp
  | succ k ih =>
    rw [encode]
    split
    · simp
    · have hrest := ih (n := n / 128) (by rw [Nat.div_lt_iff_lt_mul (by omega)]; exact hn)
      simpa using hrest

theorem length_encode_le_maxLength (hfield : IsField maxLength maxBits) {n : Nat}
    (hn : n < 2 ^ maxBits) : (encode n).length ≤ maxLength := by
  obtain ⟨k, rfl⟩ := Nat.exists_eq_add_one.2 hfield.nonempty
  refine length_encode_le ?_
  rw [pow_128]
  exact hn.trans_le (Nat.pow_le_pow_right (by omega) hfield.room)

theorem encode_form (hfield : IsField maxLength maxBits) {n : Nat} (hn : n < 2 ^ maxBits) :
    (layout maxLength maxBits).Form (encode n) n := by
  obtain ⟨front, b, hencode, hfront, hb⟩ := encode_eq_append n
  have hlength := length_encode_le_maxLength hfield hn
  have hvalue := ofGroups_encode n
  refine ⟨front, b, hencode, ⟨?_, hfront, ?_⟩, hb, hvalue, hn⟩
  · rw [hencode, List.length_append, List.length_singleton] at hlength
    exact hlength
  · rw [hencode, ofGroups_append_singleton] at hvalue
    omega

theorem encode_form_uint64 (n : UInt64) : (layout longest64 64).Form (encode n.toNat) n.toNat :=
  encode_form isField64 n.toNat_lt

theorem encode_form_uint32 (n : UInt32) : (layout longest32 32).Form (encode n.toNat) n.toNat :=
  encode_form isField32 n.toNat_lt

end Courier.Varint
