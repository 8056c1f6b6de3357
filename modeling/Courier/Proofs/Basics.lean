import Courier.Header
import Mathlib
/-!
# Results and words

Small facts that many proofs share: a result of two steps is a result of each, and both readers of
fixed-width words undo their writer as far as the width goes.
-/

namespace Courier

theorem bind_eq_ok_iff {ε α β : Type} {x : Except ε α} {f : α → Except ε β} {b : β} :
    x >>= f = .ok b ↔ ∃ a, x = .ok a ∧ f a = .ok b := by
  cases x <;> simp [bind, Except.bind]

theorem bind_eq_error_iff {ε α β : Type} {x : Except ε α} {f : α → Except ε β} {e : ε} :
    x >>= f = .error e ↔ x = .error e ∨ ∃ a, x = .ok a ∧ f a = .error e := by
  cases x <;> simp [bind, Except.bind]

theorem map_eq_ok_iff {ε α β : Type} {x : Except ε α} {f : α → β} {b : β} :
    x.map f = .ok b ↔ ∃ a, x = .ok a ∧ b = f a := by
  cases x <;> simp [Except.map, eq_comm]

theorem mapError_eq_error_iff {ε ε' α : Type} {x : Except ε α} {f : ε → ε'} {e' : ε'} :
    x.mapError f = .error e' ↔ ∃ e, x = .error e ∧ e' = f e := by
  cases x <;> simp [Except.mapError, eq_comm]

namespace Bytes

@[simp] theorem ofBigEndian_append_singleton (front : Bytes) (b : UInt8) :
    ofBigEndian (front ++ [b]) = 256 * ofBigEndian front + b.toNat := by
  simp [ofBigEndian]

theorem ofBigEndian_bigEndian (width n : Nat) :
    ofBigEndian (bigEndian width n) = n % 256 ^ width := by
  induction width generalizing n with
  | zero => simp [bigEndian, ofBigEndian, Nat.mod_one]
  | succ width ih =>
    rw [bigEndian, ofBigEndian_append_singleton, ih, Nat.pow_succ', Nat.mod_mul,
      UInt8.toNat_ofNat', Nat.add_comm]

theorem ofLittleEndian_littleEndian (width n : Nat) :
    ofLittleEndian (littleEndian width n) = n % 256 ^ width := by
  induction width generalizing n with
  | zero => simp [littleEndian, ofLittleEndian, Nat.mod_one]
  | succ width ih =>
    rw [littleEndian, ofLittleEndian, ih, Nat.pow_succ', Nat.mod_mul, UInt8.toNat_ofNat']

theorem ofBigEndian_bigEndian_uint64 (n : UInt64) :
    UInt64.ofNat (ofBigEndian (bigEndian 8 n.toNat)) = n := by
  have hn : n.toNat % 256 ^ 8 = n.toNat := Nat.mod_eq_of_lt n.toNat_lt
  rw [ofBigEndian_bigEndian, hn, UInt64.ofNat_toNat]

theorem ofBigEndian_bigEndian_uint32 (n : UInt32) :
    UInt32.ofNat (ofBigEndian (bigEndian 4 n.toNat)) = n := by
  have hn : n.toNat % 256 ^ 4 = n.toNat := Nat.mod_eq_of_lt n.toNat_lt
  rw [ofBigEndian_bigEndian, hn, UInt32.ofNat_toNat]

/-! ## Taking a number of bytes -/

theorem takeExactly_append {n : Nat} {front : Bytes} (hfront : front.length = n) (rest : Bytes) :
    takeExactly n (front ++ rest) = some (front, rest) := by
  subst hfront
  simp [takeExactly]

theorem takeExactly_eq_none {n : Nat} {bytes : Bytes} (hshort : bytes.length < n) :
    takeExactly n bytes = none := by
  have hlength : (bytes.take n).length ≠ n := by
    rw [List.length_take]
    omega
  rw [takeExactly, if_neg hlength]

theorem takeExactly_of_le {n : Nat} {bytes : Bytes} (henough : n ≤ bytes.length) :
    takeExactly n bytes = some (bytes.take n, bytes.drop n) := by
  have hlength : (bytes.take n).length = n := List.length_take_of_le henough
  rw [takeExactly, if_pos hlength]

end Bytes

end Courier
