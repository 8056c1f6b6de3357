import Mathlib
import Courier.Crc32
/-!
# A checksum is a remainder

Bits are read as the coefficients of a polynomial over the field of two elements, the first bit
for the highest power.  The checksum of a byte string is then the remainder of the string, moved
up 32 places, under division by the generator (`Crc32.checksum_eq_remainder`); the register starts
with ones and is turned over at the end.
-/

namespace Courier.Crc32

open Polynomial

/-! ## Bits as polynomials -/

/-- The lowest bit, which is the first, stands for the highest power. -/
noncomputable def ofBits {w : Nat} (v : BitVec w) : (ZMod 2)[X] :=
  ∑ i ∈ Finset.range w, if v.getLsbD i then X ^ (w - 1 - i) else 0

noncomputable def ofBytes (bytes : Bytes) : (ZMod 2)[X] :=
  bytes.foldl (fun p b => X ^ 8 * p + ofBits b.toBitVec) 0

noncomputable def generator : (ZMod 2)[X] :=
  X ^ 32 + X ^ 26 + X ^ 23 + X ^ 22 + X ^ 16 + X ^ 12 + X ^ 11 + X ^ 10 + X ^ 8 + X ^ 7 + X ^ 5 +
    X ^ 4 + X ^ 2 + X + 1

theorem degree_generator : generator.degree = 32 := by
  unfold generator
  compute_degree!

theorem monic_generator : generator.Monic := by
  unfold generator
  monicity!

theorem add_self (p : (ZMod 2)[X]) : p + p = 0 :=
  CharTwo.add_self_eq_zero p

variable {w : Nat}

theorem ofBits_xor (v v' : BitVec w) : ofBits (v ^^^ v') = ofBits v + ofBits v' := by
  rw [ofBits, ofBits, ofBits, ← Finset.sum_add_distrib]
  refine Finset.sum_congr rfl fun i _ => ?_
  rw [BitVec.getLsbD_xor]
  cases v.getLsbD i <;> cases v'.getLsbD i <;> simp [add_self]

theorem degree_ofBits_lt (v : BitVec w) : (ofBits v).degree < w := by
  refine (degree_sum_le _ _).trans_lt ((Finset.sup_lt_iff (WithBot.bot_lt_coe w)).2 fun i hi => ?_)
  rw [Finset.mem_range] at hi
  split
  · rw [degree_X_pow]
    exact Nat.cast_lt.2 (by omega)
  · rw [degree_zero]
    exact WithBot.bot_lt_coe w

theorem X_pow_mul_ofBits (v : BitVec w) {k : Nat} (hk : k ≤ w) :
    X ^ k * ofBits v = ofBits (v >>> k) +
      ∑ i ∈ Finset.range k, if v.getLsbD i then X ^ (k + (w - 1 - i)) else 0 := by
  obtain ⟨n, rfl⟩ := Nat.exists_eq_add_of_le hk
  have hshift : ofBits (v >>> k) = ∑ i ∈ Finset.range n,
      if v.getLsbD (k + i) then (X : (ZMod 2)[X]) ^ (k + n - 1 - i) else 0 := by
    rw [ofBits]
    simp only [BitVec.getLsbD_ushiftRight]
    refine (Finset.sum_subset (Finset.range_mono (Nat.le_add_left n k)) fun i _ hi => ?_).symm
    rw [Finset.mem_range] at hi
    rw [BitVec.getLsbD_of_ge _ _ (by omega)]
    rfl
  rw [hshift, ofBits, Finset.sum_range_add, mul_add, Finset.mul_sum, Finset.mul_sum, add_comm]
  congr 1
  · refine Finset.sum_congr rfl fun i hi => ?_
    rw [Finset.mem_range] at hi
    rw [mul_ite, mul_zero, ← pow_add, show k + (k + n - 1 - (k + i)) = k + n - 1 - i by omega]
  · refine Finset.sum_congr rfl fun i _ => ?_
    rw [mul_ite, mul_zero, ← pow_add]

theorem ofBits_setWidth (b : BitVec 8) : ofBits (b.setWidth 32) = X ^ 24 * ofBits b := by
  have hsum : ofBits (b.setWidth 32) =
      ∑ i ∈ Finset.range 8, if b.getLsbD i then (X : (ZMod 2)[X]) ^ (31 - i) else 0 := by
    rw [ofBits]
    refine (Finset.sum_subset (Finset.range_mono (by decide)) fun i _ hi => ?_).symm.trans
      (Finset.sum_congr rfl fun i hi => ?_)
    · rw [Finset.mem_range] at hi
      rw [BitVec.getLsbD_setWidth, BitVec.getLsbD_of_ge _ _ (by omega), Bool.and_false]
      rfl
    · rw [Finset.mem_range] at hi
      rw [BitVec.getLsbD_setWidth, decide_eq_true (by omega), Bool.true_and]
  rw [hsum, ofBits, Finset.mul_sum]
  refine Finset.sum_congr rfl fun i hi => ?_
  rw [Finset.mem_range] at hi
  rw [mul_ite, mul_zero, ← pow_add, show 24 + (8 - 1 - i) = 31 - i by omega]

/-! ## Steps of the register -/

theorem ofBits_divisor : ofBits (0xEDB88320 : UInt32).toBitVec + X ^ 32 = generator := by
  have hbits : ofBits (0xEDB88320 : UInt32).toBitVec =
      X ^ 26 + X ^ 23 + X ^ 22 + X ^ 16 + X ^ 12 + X ^ 11 + X ^ 10 + X ^ 8 + X ^ 7 + X ^ 5 +
        X ^ 4 + X ^ 2 + X + 1 := by
    simp [ofBits, Finset.sum_range_succ]
  rw [hbits, generator]
  ring

theorem and_one_eq_one_iff (r : UInt32) : r &&& 1 = 1 ↔ r.toBitVec.getLsbD 0 = true := by
  rw [← UInt32.toBitVec_inj, UInt32.toBitVec_and]
  have hone : r.toBitVec &&& (1 : UInt32).toBitVec =
      BitVec.setWidth 32 (BitVec.ofBool (r.toBitVec.getLsbD 0)) :=
    BitVec.and_one_eq_setWidth_ofBool_getLsbD
  rw [hone]
  cases r.toBitVec.getLsbD 0 <;> decide

theorem ofBits_step (r : UInt32) :
    ofBits (step r).toBitVec =
      X * ofBits r.toBitVec + if r.toBitVec.getLsbD 0 then generator else 0 := by
  have hshift := X_pow_mul_ofBits r.toBitVec (show 1 ≤ 32 by decide)
  have hdown : (r >>> 1).toBitVec = r.toBitVec >>> 1 := UInt32.toBitVec_shiftRight ..
  rw [Finset.sum_range_one, pow_one] at hshift
  rw [step, hshift]
  by_cases hlow : r.toBitVec.getLsbD 0 = true
  · rw [if_pos ((and_one_eq_one_iff r).2 hlow), if_pos hlow, if_pos hlow, UInt32.toBitVec_xor,
      hdown, ofBits_xor, ← ofBits_divisor]
    linear_combination -add_self (X ^ 32)
  · rw [if_neg fun h => hlow ((and_one_eq_one_iff r).1 h), if_neg hlow, if_neg hlow, hdown,
      add_zero, add_zero]

/-- The class of a register among the remainders. -/
noncomputable def residue (r : UInt32) : AdjoinRoot generator :=
  AdjoinRoot.mk generator (ofBits r.toBitVec)

theorem residue_xor (r r' : UInt32) : residue (r ^^^ r') = residue r + residue r' := by
  rw [residue, UInt32.toBitVec_xor, ofBits_xor, map_add]
  rfl

theorem residue_step (r : UInt32) :
    residue (step r) = AdjoinRoot.root generator * residue r := by
  have hgenerator :
      AdjoinRoot.mk generator (if r.toBitVec.getLsbD 0 then generator else 0) = 0 := by
    split
    · exact AdjoinRoot.mk_self
    · exact map_zero _
  rw [residue, ofBits_step, map_add, hgenerator, add_zero, map_mul, AdjoinRoot.mk_X]
  rfl

theorem residue_remainder (n : Nat) :
    residue (remainder n) = AdjoinRoot.root generator ^ 8 * residue (UInt32.ofNat n) := by
  simp only [remainder, residue_step]
  ring

theorem getLsbD_mask (i : Nat) : (0xFF#32).getLsbD i = decide (i < 8) := by
  rw [BitVec.getLsbD_ofNat, show (0xFF : Nat) = 2 ^ 8 - 1 from rfl, Nat.testBit_two_pow_sub_one]
  by_cases hi : i < 8
  · simp [hi, show i < 32 by omega]
  · simp [hi]

/-- Of eight steps at once only the bits of the low byte take part in the division. -/
theorem residue_shift_byte (r : UInt32) :
    residue (r >>> 8) + AdjoinRoot.root generator ^ 8 * residue (r &&& 0xFF) =
      AdjoinRoot.root generator ^ 8 * residue r := by
  have hall := X_pow_mul_ofBits r.toBitVec (show 8 ≤ 32 by decide)
  have hlow := X_pow_mul_ofBits (r.toBitVec &&& 0xFF#32) (show 8 ≤ 32 by decide)
  have hnone : ofBits ((r.toBitVec &&& 0xFF#32) >>> 8) = 0 := by
    refine Finset.sum_eq_zero fun i _ => ?_
    rw [BitVec.getLsbD_ushiftRight, BitVec.getLsbD_and, getLsbD_mask,
      decide_eq_false (by omega), Bool.and_false]
    rfl
  have hsame : ∀ i ∈ Finset.range 8, (if (r.toBitVec &&& 0xFF#32).getLsbD i then
      (X : (ZMod 2)[X]) ^ (8 + (32 - 1 - i)) else 0) =
      if r.toBitVec.getLsbD i then X ^ (8 + (32 - 1 - i)) else 0 := by
    intro i hi
    rw [BitVec.getLsbD_and, getLsbD_mask, decide_eq_true (Finset.mem_range.1 hi), Bool.and_true]
  rw [hnone, zero_add, Finset.sum_congr rfl hsame] at hlow
  rw [← hlow] at hall
  have hmk := congrArg (AdjoinRoot.mk generator) hall
  rw [map_add, map_mul, map_mul, map_pow, AdjoinRoot.mk_X] at hmk
  exact hmk.symm

theorem update_eq (register : UInt32) (b : UInt8) :
    update register b =
      remainder ((register ^^^ b.toUInt32) &&& 0xFF).toNat ^^^ (register >>> 8) := by
  have hlow : ((register ^^^ b.toUInt32) &&& 0xFF).toNat < 256 := by
    rw [UInt32.toNat_and]
    exact Nat.and_lt_two_pow _ (n := 8) (by decide)
  simp only [update, table, List.getElem?_toArray, List.getElem?_map, List.getElem?_range hlow,
    Option.map_some, Option.getD_some]

theorem residue_update (register : UInt32) (b : UInt8) :
    residue (update register b) = AdjoinRoot.root generator ^ 8 * residue register +
      AdjoinRoot.root generator ^ 32 * AdjoinRoot.mk generator (ofBits b.toBitVec) := by
  have hbyte : residue b.toUInt32 =
      AdjoinRoot.root generator ^ 24 * AdjoinRoot.mk generator (ofBits b.toBitVec) := by
    have hwide : b.toUInt32.toBitVec = b.toBitVec.setWidth 32 := rfl
    rw [residue, hwide, ofBits_setWidth, map_mul, map_pow, AdjoinRoot.mk_X]
  have hdown : register >>> 8 = (register ^^^ b.toUInt32) >>> 8 := by
    apply UInt32.toBitVec_inj.1
    apply BitVec.eq_of_getLsbD_eq
    intro i _
    simp [BitVec.getLsbD_setWidth]
  rw [update_eq, residue_xor, residue_remainder, UInt32.ofNat_toNat, hdown, add_comm,
    residue_shift_byte, residue_xor, hbyte]
  ring

theorem residue_foldl (register : UInt32) (bytes : Bytes) :
    residue (bytes.foldl update register) =
      AdjoinRoot.root generator ^ (8 * bytes.length) * residue register +
        AdjoinRoot.root generator ^ 32 * AdjoinRoot.mk generator (ofBytes bytes) := by
  induction bytes using List.reverseRecOn with
  | nil => simp [ofBytes]
  | append_singleton bytes b ih =>
    have hbytes : ofBytes (bytes ++ [b]) = X ^ 8 * ofBytes bytes + ofBits b.toBitVec := by
      rw [ofBytes, List.foldl_append]
      rfl
    rw [List.foldl_append, List.foldl_cons, List.foldl_nil, residue_update, ih, hbytes, map_add,
      map_mul, map_pow, AdjoinRoot.mk_X, List.length_append, List.length_singleton]
    ring

/-- The register, which starts with ones, holds a remainder throughout, and is turned over at the
end. -/
theorem checksum_eq_remainder (bytes : Bytes) :
    ofBits (checksum bytes).toBitVec =
      (X ^ 32 * ofBytes bytes +
          X ^ (8 * bytes.length) * ∑ i ∈ Finset.range 32, X ^ i) %ₘ generator +
        ∑ i ∈ Finset.range 32, X ^ i := by
  have hones : ofBits (0xFFFFFFFF : UInt32).toBitVec = ∑ i ∈ Finset.range 32, X ^ i := by
    rw [← Finset.sum_range_reflect]
    refine Finset.sum_congr rfl fun i hi => if_pos ?_
    rw [Finset.mem_range] at hi
    exact (BitVec.getLsbD_allOnes (v := 32)).trans (decide_eq_true hi)
  have hresidue := residue_foldl 0xFFFFFFFF bytes
  rw [residue, residue, hones, ← AdjoinRoot.mk_X, ← map_pow, ← map_pow, ← map_mul, ← map_mul,
    ← map_add, AdjoinRoot.mk_eq_mk, add_comm] at hresidue
  have hdegree : (ofBits (bytes.foldl update 0xFFFFFFFF).toBitVec).degree < generator.degree := by
    rw [degree_generator]
    exact degree_ofBits_lt _
  rw [checksum, UInt32.toBitVec_xor, ofBits_xor, hones,
    ← modByMonic_eq_of_dvd_sub monic_generator hresidue,
    (modByMonic_eq_self_iff monic_generator).2 hdegree]

example : checksum [0x31, 0x32, 0x33, 0x34, 0x35, 0x36, 0x37, 0x38, 0x39] = 0xCBF43926 := by
  decide +kernel

end Courier.Crc32
