import Courier.Proofs.Reencoding
/-!
# Which bytes are variable-length integers

A number is read off bytes with the high bit and a last one without, as many as the field allows,
whose groups add up to it within the width of the field.  It is refused at the first byte that has
a bit past the width, or at the last byte that there may be (`Varint.intake_language`).  The word
that holds the groups loses none of their bits on the way (`Varint.LosesNothing`).
-/

namespace Courier.Varint

variable {maxLength maxBits : Nat} {bytes seen rest : Bytes} {b : UInt8} {n : Nat}

/-! ## Bits past the width -/

/-- The group of the byte, with so many groups behind it, has a bit past the width. -/
def Exceeds (maxBits index : Nat) (b : UInt8) : Prop :=
  ∃ i < 7, b.toNat.testBit i = true ∧ maxBits ≤ 7 * index + i

structure IsContinued (maxBits : Nat) (bytes : Bytes) : Prop where
  high : ∀ b ∈ bytes, 128 ≤ b.toNat
  within : ∀ front b behind, bytes = front ++ b :: behind → ¬ Exceeds maxBits front.length b

theorem bitLength_le_iff {k : Nat} : bitLength n ≤ k ↔ ∀ i, k ≤ i → n.testBit i = false := by
  have hlt : bitLength n ≤ k ↔ n < 2 ^ k := by
    unfold bitLength
    split
    case isTrue hzero => simp [hzero]
    case isFalse hzero => rw [Nat.succ_le_iff, Nat.log2_lt hzero]
  rw [hlt]
  constructor
  · intro hn i hi
    exact Nat.testBit_lt_two_pow (hn.trans_le (Nat.pow_le_pow_right (by omega) hi))
  · exact Nat.lt_pow_two_of_testBit n

theorem testBit_group (b : UInt8) (i : Nat) :
    (group b).toNat.testBit i = (decide (i < 7) && b.toNat.testBit i) := by
  rw [toNat_group]
  exact Nat.testBit_mod_two_pow b.toNat 7 i

theorem exceeds_iff (hfield : IsField maxLength maxBits) (hseen : IsOpen maxLength maxBits seen) :
    Exceeds maxBits seen.length b ↔ 2 ^ maxBits ≤ ofGroups (seen ++ [b]) := by
  have hindex : 7 * seen.length ≤ maxBits := hseen.shift_le hfield
  have hbits := shift_add_bitLength_le_iff hfield hseen b
  rw [shift_after] at hbits
  have hplaces : bitLength (group b).toNat ≤ maxBits - 7 * seen.length ↔
      ¬ Exceeds maxBits seen.length b := by
    rw [bitLength_le_iff]
    simp only [testBit_group, Exceeds, not_exists, not_and, Bool.and_eq_false_imp,
      decide_eq_true_eq]
    constructor
    · intro hclear i hi hset hpast
      have hbit := hclear i (by omega) hi
      simp [hset] at hbit
    · intro hwithin i hpast hi
      have hbit := hwithin i hi
      by_contra hset
      exact hbit (by simpa using hset) (by omega)
  rw [← not_iff_not, ← hplaces, Nat.not_le, ← hbits]
  omega

theorem isContinued_append_singleton_iff :
    IsContinued maxBits (seen ++ [b]) ↔
      IsContinued maxBits seen ∧ 128 ≤ b.toNat ∧ ¬ Exceeds maxBits seen.length b := by
  constructor
  · rintro ⟨hhigh, hwithin⟩
    refine ⟨⟨fun c hc => hhigh c (List.mem_append_left _ hc), ?_⟩, hhigh b (by simp),
      hwithin seen b [] rfl⟩
    rintro front c behind rfl
    exact hwithin front c (behind ++ [b]) (by simp)
  · rintro ⟨⟨hhigh, hwithin⟩, hb, hlast⟩
    refine ⟨?_, ?_⟩
    · intro c hc
      rcases List.mem_append.1 hc with hc | hc
      · exact hhigh c hc
      · rwa [List.mem_singleton.1 hc]
    · intro front c behind hsplit
      rcases List.eq_nil_or_concat behind with rfl | ⟨behind, c', rfl⟩
      · obtain ⟨rfl, hc⟩ := List.append_inj' hsplit rfl
        rwa [← List.head_eq_of_cons_eq hc]
      · rw [List.concat_eq_append, ← List.cons_append, ← List.append_assoc] at hsplit
        exact hwithin front c behind (List.append_inj' hsplit rfl).1

theorem isOpen_iff (hfield : IsField maxLength maxBits) :
    IsOpen maxLength maxBits bytes ↔ bytes.length < maxLength ∧ IsContinued maxBits bytes := by
  -- A group is at the place that those in front of it leave, so the induction is on the last byte.
  induction bytes using List.reverseRecOn with
  | nil =>
    refine ⟨fun hopen => ⟨hopen.1, by simp, by simp⟩, fun h => isOpen_nil h.1⟩
  | append_singleton bytes b ih =>
    rw [isContinued_append_singleton_iff]
    constructor
    · intro hopen
      have hfront := hopen.of_append
      refine ⟨hopen.1, (ih.1 hfront).2, hopen.2.1 b (by simp), ?_⟩
      rw [exceeds_iff hfield hfront]
      exact Nat.not_le.2 hopen.2.2
    · rintro ⟨hlength, hbefore, hb, hwithin⟩
      have hhigh := (isContinued_append_singleton_iff.2 ⟨hbefore, hb, hwithin⟩).high
      have hshorter : bytes.length < maxLength := by
        rw [List.length_append] at hlength
        omega
      have hfront := ih.2 ⟨hshorter, hbefore⟩
      rw [exceeds_iff hfield hfront, Nat.not_le] at hwithin
      exact ⟨hlength, hhigh, hwithin⟩

/-! ## What is read -/

def StartsWithForm (maxLength maxBits : Nat) (bytes : Bytes) (n : Nat) (rest : Bytes) : Prop :=
  ∃ front b, bytes = front ++ [b] ++ rest ∧ front.length < maxLength ∧
    (∀ c ∈ front, 128 ≤ c.toNat) ∧ b.toNat < 128 ∧ ofGroups (front ++ [b]) = n ∧ n < 2 ^ maxBits

/-- At the byte before the rest it is clear for the first time that no form starts here: its group
has a bit past the width, or it is the last that there may be and has the high bit like all before
it. -/
def StartsRefused (maxLength maxBits : Nat) (bytes rest : Bytes) : Prop :=
  ∃ front b, bytes = front ++ [b] ++ rest ∧ front.length < maxLength ∧ IsContinued maxBits front ∧
    (Exceeds maxBits front.length b ∨ 128 ≤ b.toNat ∧ front.length + 1 = maxLength)

theorem runBytes_intake_eq_ok_iff (hfield : IsField maxLength maxBits) :
    (intake maxLength maxBits).runBytes bytes = (.ok n, rest) ↔
      StartsWithForm maxLength maxBits bytes n rest := by
  rw [(intake_follows hfield).runBytes_eq_ok_iff]
  constructor
  · rintro ⟨_, rfl, front, b, rfl, hfront, hb, hn, hlt⟩
    exact ⟨front, b, rfl, hfront.1, hfront.2.1, hb, hn, hlt⟩
  · rintro ⟨front, b, rfl, hlength, hhigh, hb, rfl, hlt⟩
    have hfront : ofGroups front < 2 ^ maxBits := by
      rw [ofGroups_append_singleton] at hlt
      omega
    exact ⟨_, rfl, front, b, rfl, ⟨hlength, hhigh, hfront⟩, hb, rfl, hlt⟩

theorem refused_iff (hfield : IsField maxLength maxBits) :
    (∃ front, bytes = front ++ rest ∧
        (layout maxLength maxBits).Refused front (.invalidVarint .header)) ↔
      StartsRefused maxLength maxBits bytes rest := by
  constructor
  · rintro ⟨_, rfl, -, front, b, rfl, hfront, hcause⟩
    rw [← exceeds_iff hfield hfront, List.length_append, List.length_singleton] at hcause
    exact ⟨front, b, rfl, hfront.1, ((isOpen_iff hfield).1 hfront).2, hcause⟩
  · rintro ⟨front, b, rfl, hlength, hcontinued, hcause⟩
    have hfront := (isOpen_iff hfield).2 ⟨hlength, hcontinued⟩
    refine ⟨front ++ [b], rfl, rfl, front, b, rfl, hfront, ?_⟩
    rwa [← exceeds_iff hfield hfront, List.length_append, List.length_singleton]

def ended : WireError :=
  .transport .header ⟨.unexpectedEof, some "failed to fill whole buffer"⟩

theorem runBytes_of_unfinished (hfield : IsField maxLength maxBits) {s : Segment}
    (hs : (layout maxLength maxBits).Unfinished bytes s) :
    (intake maxLength maxBits).runBytes bytes = (.error ended, []) := by
  obtain ⟨size, received, hrun⟩ := (intake_follows hfield).unfinished hs
  obtain ⟨-, rfl⟩ := hs
  exact hrun

theorem runBytes_intake_eq_invalid_iff (hfield : IsField maxLength maxBits) :
    (intake maxLength maxBits).runBytes bytes = (.error (.invalidVarint .header), rest) ↔
      StartsRefused maxLength maxBits bytes rest := by
  rw [(intake_follows hfield).runBytes_eq_error_iff, ← refused_iff hfield]
  refine or_iff_left ?_
  rintro ⟨-, ⟨s, hs⟩, hrun⟩
  rw [runBytes_of_unfinished hfield hs] at hrun
  cases hrun

theorem runBytes_intake_eq_ended_iff (hfield : IsField maxLength maxBits) :
    (intake maxLength maxBits).runBytes bytes = (.error ended, rest) ↔
      rest = [] ∧ bytes.length < maxLength ∧ IsContinued maxBits bytes := by
  rw [(intake_follows hfield).runBytes_eq_error_iff, ← isOpen_iff hfield]
  constructor
  · rintro (⟨_, -, he, -⟩ | ⟨rfl, ⟨s, hopen, -⟩, -⟩)
    · cases he
    · exact ⟨rfl, hopen⟩
  · rintro ⟨rfl, hopen⟩
    have hs : (layout maxLength maxBits).Unfinished bytes .header := ⟨hopen, rfl⟩
    exact .inr ⟨rfl, ⟨_, hs⟩, congrArg Prod.fst (runBytes_of_unfinished hfield hs)⟩

theorem runBytes_intake_cases (hfield : IsField maxLength maxBits) (bytes : Bytes) :
    (∃ n rest, (intake maxLength maxBits).runBytes bytes = (.ok n, rest)) ∨
      (∃ rest, (intake maxLength maxBits).runBytes bytes =
        (.error (.invalidVarint .header), rest)) ∨
      (intake maxLength maxBits).runBytes bytes = (.error ended, []) := by
  have hreads := intake_follows hfield
  rcases hreads.covers bytes with ⟨front, rest, n, rfl, hfront⟩ | ⟨front, rest, e, rfl, hfront⟩ |
    ⟨s, hs⟩
  · exact .inl ⟨n, rest, hreads.form hfront rest⟩
  · obtain rfl := hfront.1
    exact .inr (.inl ⟨rest, hreads.refused hfront rest⟩)
  · exact .inr (.inr (runBytes_of_unfinished hfield hs))

/-! ## The word and the size -/

/-- Behind the bytes the reader has their groups in its word; and where it puts another one in
front of them, it shifts that by less than the width of the word and without losing a bit, to
where none of theirs is. -/
structure LosesNothing (maxLength maxBits : Nat) (seen : Bytes) : Prop where
  reached : ∀ rest, (intake maxLength maxBits).runBytes (seen ++ rest) =
    (intakeBehind maxBits seen (maxLength - seen.length)).runBytes rest
  value : (after seen).value.toNat = ofGroups seen
  shift : (after seen).shift < 64
  whole : ∀ b next, (after seen).add? maxBits b = some next →
    (group b <<< UInt64.ofNat (after seen).shift).toNat =
        (group b).toNat * 2 ^ (after seen).shift ∧
      next = after (seen ++ [b]) ∧ next.value.toNat = ofGroups (seen ++ [b])

theorem losesNothing (hfield : IsField maxLength maxBits) (hseen : IsOpen maxLength maxBits seen) :
    LosesNothing maxLength maxBits seen where
  reached rest := by
    have hleft : maxLength = maxLength - seen.length + seen.length := by
      have hlength := hseen.1
      omega
    have hpass := runBytes_intakeBehind_open hfield [] hseen (maxLength - seen.length) rest
    rwa [← hleft] at hpass
  value := toNat_value_after hfield.word hseen.2.2
  shift := hseen.shift_lt hfield
  whole b next hnext := by
    rw [add?_after hfield hseen] at hnext
    split at hnext
    case isTrue hwide => cases hnext
    case isFalse hwide =>
      cases hnext
      have hnarrow := Nat.lt_of_not_le hwide
      exact ⟨toNat_shiftLeft (hseen.shift_lt hfield) (group_mul_lt hfield hnarrow), rfl,
        toNat_value_after hfield.word hnarrow⟩

theorem runBytes_sizeIntake (bytes : Bytes) :
    (∀ n rest, (intake longest32 32).runBytes bytes = (.ok n, rest) →
      sizeIntake.runBytes bytes = (.ok (UInt32.ofNat n), rest) ∧ (UInt32.ofNat n).toNat = n) ∧
    ∀ e rest, (intake longest32 32).runBytes bytes = (.error e, rest) →
      sizeIntake.runBytes bytes = (.error e, rest) := by
  constructor
  · intro n rest hrun
    obtain ⟨_, _, -, -, -, -, -, hn⟩ := (runBytes_intake_eq_ok_iff isField32).1 hrun
    have hfits : n < UInt32.size := hn
    rw [sizeIntake, Intake.bind_eq, Intake.runBytes_bind_ok hrun, if_pos hfits]
    exact ⟨rfl, UInt32.toNat_ofNat_of_lt' hfits⟩
  · intro e rest hrun
    exact Intake.runBytes_bind_error hrun _

/-! ## What is written -/

theorem length_encode (n : Nat) : (encode n).length = encodedLength n := by
  induction n using encode.induct with
  | case1 n hn => rw [encode, encodedLength, if_pos hn, if_pos hn, List.length_singleton]
  | case2 n hn ih => rw [encode, encodedLength, if_neg hn, if_neg hn, List.length_cons, ih]

theorem shortest_read_iff (hfield : IsField maxLength maxBits) (hn : n < 2 ^ maxBits) :
    Shortest (fun bytes =>
      ∃ rest, (intake maxLength maxBits).runBytes bytes = (.ok n, rest)) bytes ↔
      bytes = encode n := by
  have hreads := intake_follows hfield
  have hwritten : ∃ rest, (intake maxLength maxBits).runBytes (encode n) = (.ok n, rest) :=
    ⟨[], by simpa using hreads.form (encode_form hfield hn) []⟩
  constructor
  · rintro ⟨⟨rest, hrun⟩, hshortest⟩
    obtain ⟨front, rfl, hfront⟩ := hreads.runBytes_eq_ok_iff.1 hrun
    have hlength := hshortest (encode n) hwritten
    have hle := length_encode_le_of_form hfront
    rw [List.length_append] at hlength
    have hrest : rest = [] := List.length_eq_zero_iff.1 (by omega)
    rw [hrest, List.append_nil]
    exact eq_encode_of_form hfront (by omega)
  · rintro rfl
    refine ⟨hwritten, ?_⟩
    rintro _ ⟨rest, hrun⟩
    obtain ⟨front, rfl, hfront⟩ := hreads.runBytes_eq_ok_iff.1 hrun
    have hle := length_encode_le_of_form hfront
    rw [List.length_append]
    omega

/-! ## The language -/

/-- Numbers of 64 bits in at most ten bytes and numbers of 32 bits in at most five: each is read
back from what is written for it, which is as long as is foretold and shorter than all else that
it is read from.  A number is read just where a form of it starts, padded or not; it is refused at
the first byte that shows that none does, and a byte string that ends before that has ended too
early.  The word loses no bit on the way, and a number that has been read fits the size.  -/
theorem intake_language
    (hfield : (maxLength, maxBits) = (10, 64) ∨ (maxLength, maxBits) = (5, 32)) :
    (∀ n < 2 ^ maxBits,
      (∀ rest, (intake maxLength maxBits).runBytes (encode n ++ rest) = (.ok n, rest)) ∧
      (encode n).length = encodedLength n ∧
      ∀ bytes, Shortest
        (fun bytes => ∃ rest, (intake maxLength maxBits).runBytes bytes = (.ok n, rest)) bytes ↔
          bytes = encode n) ∧
    (∀ bytes rest,
      (∀ n, (intake maxLength maxBits).runBytes bytes = (.ok n, rest) ↔
        StartsWithForm maxLength maxBits bytes n rest) ∧
      ((intake maxLength maxBits).runBytes bytes = (.error (.invalidVarint .header), rest) ↔
        StartsRefused maxLength maxBits bytes rest) ∧
      ((intake maxLength maxBits).runBytes bytes = (.error ended, rest) ↔
        rest = [] ∧ bytes.length < maxLength ∧ IsContinued maxBits bytes)) ∧
    (∀ bytes,
      (∃ n rest, (intake maxLength maxBits).runBytes bytes = (.ok n, rest)) ∨
      (∃ rest, (intake maxLength maxBits).runBytes bytes =
        (.error (.invalidVarint .header), rest)) ∨
      (intake maxLength maxBits).runBytes bytes = (.error ended, [])) ∧
    (∀ seen, seen.length < maxLength → IsContinued maxBits seen →
      LosesNothing maxLength maxBits seen) ∧
    ∀ bytes,
      (∀ n rest, (intake longest32 32).runBytes bytes = (.ok n, rest) →
        sizeIntake.runBytes bytes = (.ok (UInt32.ofNat n), rest) ∧ (UInt32.ofNat n).toNat = n) ∧
      ∀ e rest, (intake longest32 32).runBytes bytes = (.error e, rest) →
        sizeIntake.runBytes bytes = (.error e, rest) := by
  have hwords : IsField maxLength maxBits := by
    rcases hfield with hpair | hpair
    · cases hpair
      exact isField64
    · cases hpair
      exact isField32
  refine ⟨?_, ?_, runBytes_intake_cases hwords, ?_, runBytes_sizeIntake⟩
  · intro n hn
    exact ⟨(intake_follows hwords).form (encode_form hwords hn), length_encode n,
      fun bytes => shortest_read_iff hwords hn⟩
  · intro bytes rest
    exact ⟨fun n => runBytes_intake_eq_ok_iff hwords, runBytes_intake_eq_invalid_iff hwords,
      runBytes_intake_eq_ended_iff hwords⟩
  · intro seen hlength hcontinued
    exact losesNothing hwords ((isOpen_iff hwords).2 ⟨hlength, hcontinued⟩)

theorem intake_language_padded :
    (intake 10 64).runBytes [0x87, 0x80, 0x00, 0x55] = (.ok 7, [0x55]) ∧
    StartsWithForm 10 64 [0x87, 0x80, 0x00, 0x55] 7 [0x55] ∧
    (intake 5 32).runBytes [0xFF, 0xFF, 0xFF, 0xFF, 0x1F, 0x55] =
      (.error (.invalidVarint .header), [0x55]) ∧
    StartsRefused 5 32 [0xFF, 0xFF, 0xFF, 0xFF, 0x1F, 0x55] [0x55] ∧
    LosesNothing 5 32 [0xFF, 0xFF, 0xFF, 0xFF] := by
  have hread : (intake 10 64).runBytes [0x87, 0x80, 0x00, 0x55] = (.ok 7, [0x55]) := by rfl
  have hrefused : (intake 5 32).runBytes [0xFF, 0xFF, 0xFF, 0xFF, 0x1F, 0x55] =
      (.error (.invalidVarint .header), [0x55]) := by rfl
  have hcontinued : IsContinued 32 [0xFF, 0xFF, 0xFF, 0xFF] :=
    ((isOpen_iff isField32).1 ⟨by decide, by simp, by decide⟩).2
  have hid := intake_language (.inl rfl : (10, 64) = (10, 64) ∨ (10, 64) = (5, 32))
  have hsize := intake_language (.inr rfl : (5, 32) = (10, 64) ∨ (5, 32) = (5, 32))
  exact ⟨hread, ((hid.2.1 _ _).1 7).1 hread, hrefused, (hsize.2.1 _ _).2.1.1 hrefused,
    hsize.2.2.2.1 _ (by decide) hcontinued⟩

end Courier.Varint
