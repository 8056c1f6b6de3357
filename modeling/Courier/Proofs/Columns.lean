import Courier.Columnar.Words
import Courier.Proofs.Basics
/-!
# Columns give their values back

A reader takes a packed form off the front of the input whatever follows it (`Reader.Reads`), and
readers that do so can be put one behind another.  Digits that share a byte, bytes and words are
written in the tightest form that their maximum and minimum allow, and each form is read back as the
values that were written (`readSmalls_reads`, `readWords_reads`).
-/

namespace Courier.Columnar

/-! ## Readers -/

/-- The reader takes the packed form off the front of any input and gives the value. -/
def Reader.Reads {α : Type} (reader : Reader α) (packed : Bytes) (value : α) : Prop :=
  ∀ rest, reader (packed ++ rest) = .ok (value, rest)

namespace Reader

variable {α β : Type} {reader : Reader α} {packed packed' : Bytes} {value : α} {value' : β}

theorem Reads.bind {f : α → Reader β} (hreader : reader.Reads packed value)
    (hf : (f value).Reads packed' value') : (reader >>= f).Reads (packed ++ packed') value' := by
  intro rest
  change (reader (packed ++ packed' ++ rest) >>= fun p => f p.1 p.2) = _
  rw [List.append_assoc, hreader]
  exact hf rest

theorem Reads.map (hreader : reader.Reads packed value) (g : α → β) :
    (reader >>= fun a => pure (g a)).Reads packed (g value) := by
  intro rest
  change (reader (packed ++ rest) >>= fun p => .ok (g p.1, p.2)) = _
  rw [hreader]
  rfl

theorem reads_pure (value : α) : (pure value : Reader α).Reads [] value :=
  fun _ => rfl

theorem Reads.complete (hreader : reader.Reads packed value) :
    reader.complete packed = .ok value := by
  have hread := hreader []
  rw [List.append_nil] at hread
  rw [Reader.complete, hread]

end Reader

theorem readBytes_reads (bytes : Bytes) : (readBytes bytes.length).Reads bytes bytes := by
  intro rest
  rw [readBytes, Bytes.takeExactly_append rfl]

theorem readByte_bind_reads {α : Type} {f : UInt8 → Reader α} {b : UInt8} {packed : Bytes}
    {value : α} (hf : (f b).Reads packed value) : (readByte >>= f).Reads (b :: packed) value :=
  fun rest => hf rest

theorem toNat_ofNat_of_lt {n : Nat} (hn : n < 256) : (UInt8.ofNat n).toNat = n :=
  UInt8.toNat_ofNat_of_lt' hn

theorem map_eq_self {α : Type} {f : α → α} {values : List α} (hf : ∀ v ∈ values, f v = v) :
    values.map f = values := by
  conv_rhs => rw [← List.map_id values]
  exact List.map_congr_left hf

/-! ## Digits that share a byte -/

section Digits

variable {base perByte : Nat} {digits : List Nat}

theorem ofDigits_lt (hdigits : ∀ d ∈ digits, d < base) :
    ofDigits base digits < base ^ digits.length := by
  induction digits with
  | nil => simp [ofDigits]
  | cons d digits ih =>
    have hd : d < base := hdigits d List.mem_cons_self
    have hrest := ih fun e he => hdigits e (List.mem_cons_of_mem _ he)
    calc ofDigits base (d :: digits)
        = d + base * ofDigits base digits := rfl
      _ < base + base * ofDigits base digits := by omega
      _ = base * (ofDigits base digits + 1) := by ring
      _ ≤ base * base ^ digits.length := Nat.mul_le_mul_left _ hrest
      _ = base ^ (d :: digits).length := by rw [List.length_cons, Nat.pow_succ']

theorem lowDigits_zero (base count : Nat) : lowDigits base count 0 = List.replicate count 0 := by
  induction count with
  | zero => rfl
  | succ count ih => simp [lowDigits, ih, List.replicate_succ]

theorem lowDigits_ofDigits (hdigits : ∀ d ∈ digits, d < base) {count : Nat}
    (hcount : digits.length ≤ count) :
    lowDigits base count (ofDigits base digits) =
      digits ++ List.replicate (count - digits.length) 0 := by
  induction digits generalizing count with
  | nil => exact lowDigits_zero base count
  | cons d digits ih =>
    obtain ⟨count, rfl⟩ : ∃ k, count = k + 1 := ⟨count - 1, by simp at hcount; omega⟩
    have hd : d < base := hdigits d List.mem_cons_self
    have hvalue : ofDigits base (d :: digits) = d + base * ofDigits base digits := rfl
    have hlow : (d + base * ofDigits base digits) % base = d := by
      rw [Nat.add_mul_mod_self_left, Nat.mod_eq_of_lt hd]
    have hhigh : (d + base * ofDigits base digits) / base = ofDigits base digits := by
      rw [Nat.add_mul_div_left _ _ (by omega), Nat.div_eq_of_lt hd, Nat.zero_add]
    rw [lowDigits, hvalue, hlow, hhigh,
      ih (fun e he => hdigits e (List.mem_cons_of_mem _ he)) (by simpa using hcount)]
    simp

theorem groups_cons (size x : Nat) (xs : List Nat) :
    groups size (x :: xs) = (x :: xs.take size) :: groups size (xs.drop size) := by
  rw [groups]

theorem length_packDigits (hperByte : 0 < perByte) (digits : List Nat) :
    (packDigits base perByte digits).length = (digits.length + perByte - 1) / perByte := by
  obtain ⟨size, rfl⟩ : ∃ k, perByte = k + 1 := ⟨perByte - 1, by omega⟩
  rw [packDigits, List.length_map, Nat.add_sub_cancel]
  -- Digits are taken in groups of `perByte`, and only the last group may be smaller.
  induction digits using groups.induct size with
  | case1 =>
    rw [groups, List.length_nil, List.length_nil, Nat.zero_add, Nat.add_sub_cancel,
      Nat.div_eq_of_lt (Nat.lt_succ_self size)]
  | case2 x xs ih =>
    rw [groups_cons, List.length_cons, ih, List.length_drop, List.length_cons,
      show xs.length + 1 + (size + 1) - 1 = xs.length + (size + 1) by omega,
      Nat.add_div_right _ (Nat.succ_pos size), Nat.succ_eq_add_one]
    by_cases hlong : size ≤ xs.length
    · rw [show xs.length - size + (size + 1) - 1 = xs.length by omega]
    · rw [Nat.div_eq_of_lt (show xs.length - size + (size + 1) - 1 < size + 1 by omega),
        Nat.div_eq_of_lt (show xs.length < size + 1 by omega)]

/-- Only the last byte may hold digits that were not written, and they are zeros. -/
theorem flatMap_lowDigits_packDigits (hperByte : 0 < perByte) (hbyte : base ^ perByte ≤ 256)
    (hdigits : ∀ d ∈ digits, d < base) :
    ∃ zeros, (packDigits base perByte digits).flatMap
        (fun b => lowDigits base perByte b.toNat) = digits ++ List.replicate zeros 0 := by
  obtain ⟨size, rfl⟩ : ∃ k, perByte = k + 1 := ⟨perByte - 1, by omega⟩
  rw [packDigits, Nat.add_sub_cancel]
  induction digits using groups.induct size with
  | case1 => exact ⟨0, by simp [groups]⟩
  | case2 x xs ih =>
    have hgroup : ∀ d ∈ x :: xs.take size, d < base := fun d hd =>
      hdigits d (List.mem_cons.2 ((List.mem_cons.1 hd).imp_right List.mem_of_mem_take))
    have hlength : (x :: xs.take size).length ≤ size + 1 := by simp
    have hbase : 0 < base := Nat.zero_lt_of_lt (hdigits x List.mem_cons_self)
    have hlt : ofDigits base (x :: xs.take size) < 256 :=
      calc ofDigits base (x :: xs.take size)
          < base ^ (x :: xs.take size).length := ofDigits_lt hgroup
        _ ≤ base ^ (size + 1) := Nat.pow_le_pow_right hbase hlength
        _ ≤ 256 := hbyte
    obtain ⟨zeros, hzeros⟩ := ih fun d hd =>
      hdigits d (List.mem_cons_of_mem _ (List.mem_of_mem_drop hd))
    rw [groups_cons, List.map_cons, List.flatMap_cons, hzeros, toNat_ofNat_of_lt hlt,
      lowDigits_ofDigits hgroup hlength]
    by_cases hlong : size ≤ xs.length
    · refine ⟨zeros, ?_⟩
      rw [List.length_cons, List.length_take_of_le hlong, Nat.sub_self, List.replicate_zero,
        List.append_nil, ← List.append_assoc, List.cons_append, List.take_append_drop]
    · have hall : xs.drop size = [] := List.drop_of_length_le (by omega)
      have hwhole : xs.take size = xs := List.take_of_length_le (by omega)
      refine ⟨size + 1 - (x :: xs).length + zeros, ?_⟩
      rw [hall, hwhole, List.nil_append, List.append_assoc, List.replicate_append_replicate]

theorem unpackDigits_packDigits (hperByte : 0 < perByte) (hbyte : base ^ perByte ≤ 256)
    (hdigits : ∀ d ∈ digits, d < base) :
    unpackDigits base perByte digits.length (packDigits base perByte digits) = digits := by
  obtain ⟨zeros, hzeros⟩ := flatMap_lowDigits_packDigits hperByte hbyte hdigits
  rw [unpackDigits, hzeros, List.take_left]

end Digits

/-! ## Maximum and minimum -/

theorem le_foldl_max (values : List Nat) (start : Nat) :
    start ≤ values.foldl max start ∧ ∀ v ∈ values, v ≤ values.foldl max start := by
  induction values generalizing start with
  | nil => simp
  | cons w values ih =>
    obtain ⟨hstart, hvalues⟩ := ih (max start w)
    rw [List.foldl_cons]
    refine ⟨by omega, fun v hv => ?_⟩
    rcases List.mem_cons.1 hv with rfl | hv
    · omega
    · exact hvalues v hv

theorem foldl_min_le (values : List Nat) (start : Nat) :
    values.foldl min start ≤ start ∧ ∀ v ∈ values, values.foldl min start ≤ v := by
  induction values generalizing start with
  | nil => simp
  | cons w values ih =>
    obtain ⟨hstart, hvalues⟩ := ih (min start w)
    rw [List.foldl_cons]
    refine ⟨by omega, fun v hv => ?_⟩
    rcases List.mem_cons.1 hv with rfl | hv
    · omega
    · exact hvalues v hv

theorem le_greatest {values : List Nat} {v : Nat} (hv : v ∈ values) : v ≤ greatest values :=
  (le_foldl_max values 0).2 v hv

theorem foldl_max_lt {values : List Nat} {start bound : Nat} (hstart : start < bound)
    (hvalues : ∀ v ∈ values, v < bound) : values.foldl max start < bound := by
  induction values generalizing start with
  | nil => exact hstart
  | cons w values ih =>
    exact ih (Nat.max_lt.2 ⟨hstart, hvalues w List.mem_cons_self⟩) fun v hv =>
      hvalues v (List.mem_cons_of_mem _ hv)

theorem greatest_lt {values : List Nat} {bound : Nat} (hbound : 0 < bound)
    (hvalues : ∀ v ∈ values, v < bound) : greatest values < bound :=
  foldl_max_lt hbound hvalues

theorem least_le {values : List Nat} {v : Nat} (hv : v ∈ values) : least values ≤ v := by
  cases values with
  | nil => cases hv
  | cons w rest =>
    rcases List.mem_cons.1 hv with rfl | hv
    · exact (foldl_min_le rest v).1
    · exact (foldl_min_le rest w).2 v hv

theorem least_le_greatest (values : List Nat) : least values ≤ greatest values := by
  cases values with
  | nil => exact Nat.le_refl 0
  | cons w rest =>
    exact (least_le List.mem_cons_self).trans (le_greatest List.mem_cons_self)

theorem sub_least_le (values : List Nat) :
    ∀ v ∈ values.map (· - least values), v ≤ greatest values - least values := by
  intro v hv
  obtain ⟨w, hw, rfl⟩ := List.mem_map.1 hv
  exact Nat.sub_le_sub_right (le_greatest hw) _

theorem map_add_least (values : List Nat) {bound : Nat} (hvalues : ∀ v ∈ values, v < bound) :
    (values.map (· - least values)).map (fun v => (v + least values) % bound) = values := by
  rw [List.map_map]
  refine map_eq_self fun v hv => ?_
  have hleast := least_le hv
  have hlt := hvalues v hv
  rw [Function.comp_apply, Nat.sub_add_cancel hleast, Nat.mod_eq_of_lt hlt]

/-! ## Columns of bytes -/

/-- A packing is found again by its code; its bytes hold what they are to hold. -/
structure Packing.IsSound (p : Packing) : Prop where
  perByte : 0 < p.perByte
  perByte_le : p.perByte ≤ 8
  byte : p.base ^ p.perByte ≤ 256
  code : packingOf? p.code = some p
  even : p.code % 2 = 0
  most : p.code ≤ 10

theorem isSound_of_mem_packings : ∀ p ∈ packings, p.IsSound := by
  intro p hp
  simp only [packings, List.mem_cons, List.not_mem_nil, or_false] at hp
  rcases hp with rfl | rfl | rfl | rfl | rfl <;> constructor <;> first | rfl | decide

theorem packingOf?_packingCode (maximum : Nat) :
    packingOf? (packingCode maximum) = packingFor? maximum := by
  unfold packingCode
  cases hp : packingFor? maximum with
  | none => rfl
  | some p => exact (isSound_of_mem_packings p (List.mem_of_find?_eq_some hp)).code

theorem packingCode_even (maximum : Nat) : packingCode maximum % 2 = 0 := by
  unfold packingCode
  cases hp : packingFor? maximum with
  | none => rfl
  | some p => exact (isSound_of_mem_packings p (List.mem_of_find?_eq_some hp)).even

theorem packingCode_le (maximum : Nat) : packingCode maximum ≤ 10 := by
  unfold packingCode
  cases hp : packingFor? maximum with
  | none => exact Nat.zero_le 10
  | some p => exact (isSound_of_mem_packings p (List.mem_of_find?_eq_some hp)).most

theorem map_toNat_map_ofNat {values : List Nat} (hvalues : ∀ v ∈ values, v < 256) :
    (values.map UInt8.ofNat).map UInt8.toNat = values := by
  rw [List.map_map]
  exact map_eq_self fun v hv => toNat_ofNat_of_lt (hvalues v hv)

theorem readRaw_reads {values : List Nat} (hvalues : ∀ v ∈ values, v < 256) :
    (do return (← readBytes values.length).map UInt8.toNat : Reader (List Nat)).Reads
      (values.map UInt8.ofNat) values := by
  have hread := (readBytes_reads (values.map UInt8.ofNat)).map (List.map UInt8.toNat)
  rwa [List.length_map, map_toNat_map_ofNat hvalues] at hread

/-- A column packed for values up to a maximum is read under the code of that packing. -/
theorem readPacked_reads {values : List Nat} {maximum : Nat} (hvalues : ∀ v ∈ values, v ≤ maximum)
    (hmaximum : maximum < 256) :
    (readPacked (packingCode maximum) values.length).Reads (packAs (packingCode maximum) values)
      values := by
  unfold readPacked packAs
  rw [packingOf?_packingCode]
  cases hp : packingFor? maximum with
  | none => exact readRaw_reads fun v hv => (hvalues v hv).trans_lt hmaximum
  | some p =>
    have hsound := isSound_of_mem_packings p (List.mem_of_find?_eq_some hp)
    have hbase : maximum < p.base := by simpa using List.find?_some hp
    have hread := (readBytes_reads (packDigits p.base p.perByte values)).map
      (unpackDigits p.base p.perByte values.length)
    rwa [length_packDigits hsound.perByte, unpackDigits_packDigits hsound.perByte hsound.byte
      fun v hv => (hvalues v hv).trans_lt hbase] at hread

theorem readSmalls_reads {values : List Nat} (hvalues : ∀ v ∈ values, v < 256) :
    (readSmalls values.length).Reads (packSmalls values) values := by
  unfold readSmalls packSmalls
  by_cases hshort : values.length ≤ 2
  · rw [if_pos hshort, if_pos hshort]
    exact readRaw_reads hvalues
  rw [if_neg hshort, if_neg hshort]
  have hgreatest : greatest values < 256 := greatest_lt (by decide) hvalues
  split
  -- An odd code says that the minimum comes next and that the values are less by it.
  case isTrue hoffset =>
    have hleast : least values < 256 := (least_le_greatest values).trans_lt hgreatest
    set code := packingCode (greatest values - least values) with hcode
    have hodd : (code - 1) % 2 ≠ 0 ∧ code - 1 + 1 = code ∧ ¬ 10 < code - 1 := by
      have heven := packingCode_even (greatest values - least values)
      have hle := packingCode_le (greatest values - least values)
      have hless : packingCode (greatest values) < code := by
        simp only [offsetsPack, Bool.and_eq_true, decide_eq_true_eq] at hoffset
        exact hoffset.2
      omega
    have hbyte : (UInt8.ofNat (code - 1)).toNat = code - 1 := toNat_ofNat_of_lt (by omega)
    have hread := readPacked_reads (sub_least_le values) (by omega)
    rw [List.length_map, ← hcode] at hread
    apply readByte_bind_reads
    simp only [hbyte, if_neg hodd.1, if_neg hodd.2.2, hodd.2.1]
    apply readByte_bind_reads
    have hsum := hread.map (List.map fun v => (v + least values) % 256)
    rw [map_add_least values hvalues] at hsum
    rwa [toNat_ofNat_of_lt hleast]
  case isFalse =>
    set code := packingCode (greatest values) with hcode
    have hle : code ≤ 10 := packingCode_le _
    have heven : code % 2 = 0 := packingCode_even _
    have hbyte : (UInt8.ofNat code).toNat = code := toNat_ofNat_of_lt (by omega)
    apply readByte_bind_reads
    simp only [hbyte, if_pos heven, if_neg (not_lt.2 hle)]
    exact readPacked_reads (fun v hv => le_greatest hv) hgreatest

theorem length_le_packAs (maximum : Nat) (values : List Nat) :
    values.length ≤ 8 * (packAs (packingCode maximum) values).length := by
  unfold packAs
  rw [packingOf?_packingCode]
  cases hp : packingFor? maximum with
  | none =>
    simp only [List.length_map]
    omega
  | some p =>
    have hsound := isSound_of_mem_packings p (List.mem_of_find?_eq_some hp)
    have hpositive := hsound.perByte
    simp only [length_packDigits hpositive]
    calc values.length
        ≤ p.perByte * ((values.length + p.perByte - 1) / p.perByte) := by
          have hsplit := Nat.div_add_mod (values.length + p.perByte - 1) p.perByte
          have hmod := Nat.mod_lt (values.length + p.perByte - 1) hpositive
          omega
      _ ≤ 8 * ((values.length + p.perByte - 1) / p.perByte) :=
          Nat.mul_le_mul_right _ hsound.perByte_le

theorem length_le_packSmalls (values : List Nat) :
    values.length ≤ 8 * (packSmalls values).length := by
  unfold packSmalls
  split
  · rw [List.length_map]
    omega
  split
  · have hoffsets := length_le_packAs (greatest values - least values)
      (values.map (· - least values))
    rw [List.length_map] at hoffsets
    simp only [List.length_cons]
    omega
  · have hvalues := length_le_packAs (greatest values) values
    simp only [List.length_cons]
    omega

/-! ## Columns of words -/

/-- A width that the packing byte of a column of 8-byte words tells. -/
structure IsWidth (width : Nat) : Prop where
  shifted : 8 >>> (widthCode 8 width / 2) = width
  even : widthCode 8 width % 2 = 0
  most : widthCode 8 width ≤ widthCode 8 1
  narrow : width < 8 → 0 < widthCode 8 width

theorem mem_narrowest (n : Nat) : narrowest 8 n ∈ [1, 2, 4, 8] := by
  unfold narrowest
  split
  · decide
  · split
    · decide
    · split <;> decide

theorem isWidth_narrowest (n : Nat) : IsWidth (narrowest 8 n) := by
  have hwidth := mem_narrowest n
  simp only [List.mem_cons, List.not_mem_nil, or_false] at hwidth
  rcases hwidth with h | h | h | h <;> rw [h] <;> constructor <;> decide

theorem narrowest_pos (n : Nat) : 0 < narrowest 8 n :=
  have hwidths : ∀ width ∈ [1, 2, 4, 8], 0 < width := by decide
  hwidths _ (mem_narrowest n)

theorem narrowest_le (n : Nat) : narrowest 8 n ≤ 8 :=
  have hwidths : ∀ width ∈ [1, 2, 4, 8], width ≤ 8 := by decide
  hwidths _ (mem_narrowest n)

theorem lt_of_narrowest {n : Nat} (hn : n < UInt64.size) : n < 256 ^ narrowest 8 n := by
  unfold narrowest
  split
  case isTrue h => exact h
  split
  case isTrue h => exact h
  split
  case isTrue h => exact h
  exact hn

theorem splitWords_flatMap {width : Nat} {values : List Nat}
    (hvalues : ∀ v ∈ values, v < 256 ^ width) :
    splitWords width values.length (values.flatMap (Bytes.littleEndian width)) = values := by
  induction values with
  | nil => rfl
  | cons v values ih =>
    have hlength := Bytes.length_littleEndian width v
    rw [List.length_cons, splitWords, List.flatMap_cons, List.take_left' hlength,
      List.drop_left' hlength, ih fun w hw => hvalues w (List.mem_cons_of_mem _ hw),
      Bytes.ofLittleEndian_littleEndian, Nat.mod_eq_of_lt (hvalues v List.mem_cons_self)]

theorem readAtWidth_reads {width : Nat} {values : List Nat}
    (hvalues : ∀ v ∈ values, v < 256 ^ width) :
    (readAtWidth width values.length).Reads (packAtWidth width values) values := by
  unfold readAtWidth packAtWidth
  split
  case isTrue hone =>
    subst hone
    exact readSmalls_reads hvalues
  case isFalse =>
    have hread := (readBytes_reads (values.flatMap (Bytes.littleEndian width))).map
      (splitWords width values.length)
    rwa [splitWords_flatMap hvalues,
      Bytes.length_flatMap_of_forall (Bytes.length_littleEndian width) values,
      Nat.mul_comm] at hread

theorem readWords_reads {values : List Nat} (hvalues : ∀ v ∈ values, v < UInt64.size) :
    (readWords 8 values.length).Reads (packWords 8 values) values := by
  unfold readWords packWords
  cases hempty : values with
  | nil => exact Reader.reads_pure []
  | cons w rest =>
  rw [← hempty, if_neg (by simp [hempty]), if_neg (by simp [hempty])]
  have hgreatest : greatest values < UInt64.size := greatest_lt (by decide) hvalues
  have hleast : least values < UInt64.size := (least_le_greatest values).trans_lt hgreatest
  have hcode1 : widthCode 8 1 = 6 := by decide
  split
  case isTrue hoffset =>
    set width := narrowest 8 (greatest values - least values) with hwidth
    have hsound : IsWidth width := isWidth_narrowest _
    have hnarrow : width < 8 := by
      simp only [offsetsNarrow, Bool.and_eq_true, decide_eq_true_eq] at hoffset
      exact hoffset.2.trans_le (narrowest_le _)
    have hcode := hsound.narrow hnarrow
    have heven := hsound.even
    have hmost := hsound.most
    have hodd : (widthCode 8 width - 1) % 2 ≠ 0 ∧
        widthCode 8 width - 1 + 1 = widthCode 8 width ∧
          ¬ widthCode 8 1 < widthCode 8 width - 1 := by
      omega
    have hbyte : (UInt8.ofNat (widthCode 8 width - 1)).toNat = widthCode 8 width - 1 :=
      toNat_ofNat_of_lt (by omega)
    have hfits : greatest values - least values < 256 ^ width := lt_of_narrowest (by omega)
    have hread := readAtWidth_reads fun v hv => (sub_least_le values v hv).trans_lt hfits
    rw [List.length_map] at hread
    apply readByte_bind_reads
    simp only [hbyte, if_neg hodd.1, if_neg hodd.2.2, hodd.2.1, hsound.shifted]
    have hsum := hread.map (List.map fun v => (v + least values) % UInt64.size)
    rw [map_add_least values hvalues] at hsum
    have hminimum := readBytes_reads (Bytes.littleEndian 8 (least values))
    rw [Bytes.length_littleEndian] at hminimum
    refine hminimum.bind ?_
    rwa [Bytes.ofLittleEndian_littleEndian,
      Nat.mod_eq_of_lt (show least values < 256 ^ 8 from hleast)]
  case isFalse =>
    set width := narrowest 8 (greatest values) with hwidth
    have hsound : IsWidth width := isWidth_narrowest _
    have hmost := hsound.most
    have hbyte : (UInt8.ofNat (widthCode 8 width)).toNat = widthCode 8 width :=
      toNat_ofNat_of_lt (by omega)
    apply readByte_bind_reads
    simp only [hbyte, if_pos hsound.even, if_neg (not_lt.2 hmost), hsound.shifted]
    exact readAtWidth_reads fun v hv => (le_greatest hv).trans_lt (lt_of_narrowest hgreatest)

theorem length_le_packAtWidth {width : Nat} (hwidth : 0 < width) (values : List Nat) :
    values.length ≤ 8 * (packAtWidth width values).length := by
  unfold packAtWidth
  split
  · exact length_le_packSmalls values
  · rw [Bytes.length_flatMap_of_forall (Bytes.length_littleEndian width) values]
    calc values.length
        ≤ width * values.length := Nat.le_mul_of_pos_left _ hwidth
      _ ≤ 8 * (width * values.length) := Nat.le_mul_of_pos_left _ (by decide)

theorem length_le_packWords (values : List Nat) :
    values.length ≤ 8 * (packWords 8 values).length := by
  unfold packWords
  split
  case isTrue hempty =>
    rw [List.isEmpty_iff.1 hempty]
    exact Nat.zero_le _
  split
  · have hoffsets := length_le_packAtWidth (narrowest_pos (greatest values - least values))
      (values.map (· - least values))
    rw [List.length_map] at hoffsets
    simp only [List.length_cons, List.length_append]
    omega
  · have hvalues := length_le_packAtWidth (narrowest_pos (greatest values)) values
    simp only [List.length_cons]
    omega

end Courier.Columnar
