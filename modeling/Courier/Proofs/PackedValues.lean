import Courier.Calculator.Operation
import Courier.Metadata
import Courier.Proofs.Columns
import Courier.Proofs.SortedMaps
/-!
# Packed values give themselves back

Texts are packed as a column of lengths and the texts behind it, metadata as three texts and two
columns of texts, and the numbers of a call as a column of words.  Each reader takes off exactly
what was packed, as long as no sum of lengths reaches the reader's limit.
-/

namespace Courier.Columnar

/-! ## Lengths -/

variable {lengths : List Nat}

theorem total_cons (n : Nat) (lengths : List Nat) : total (n :: lengths) = n + total lengths :=
  rfl

theorem le_total {n : Nat} (hn : n ∈ lengths) : n ≤ total lengths := by
  induction lengths with
  | nil => cases hn
  | cons m lengths ih =>
    rw [total_cons]
    rcases List.mem_cons.1 hn with rfl | hn
    · omega
    · have := ih hn
      omega

/-- As many lengths are left out of the bytes as there are words for. -/
theorem count_longLength (lengths : List Nat) :
    (lengths.map (min longLength)).count longLength =
      (lengths.filter (longLength ≤ ·)).length := by
  induction lengths with
  | nil => rfl
  | cons n lengths ih =>
    rw [List.map_cons, List.count_cons, ih]
    by_cases hlong : longLength ≤ n
    · rw [List.filter_cons_of_pos (by simpa using hlong), List.length_cons, Nat.min_eq_left hlong]
      simp
    · have hshort : min longLength n ≠ longLength := by omega
      rw [List.filter_cons_of_neg (by simpa using hlong)]
      simp [hshort]

theorem fillLong_map (lengths : List Nat) :
    fillLong (lengths.map (min longLength)) (lengths.filter (longLength ≤ ·)) = lengths := by
  induction lengths with
  | nil => rfl
  | cons n lengths ih =>
    rw [List.map_cons]
    by_cases hlong : longLength ≤ n
    · rw [List.filter_cons_of_pos (by simpa using hlong), fillLong,
        if_pos (Nat.min_eq_left hlong), List.headD_cons, List.tail_cons, ih]
    · rw [List.filter_cons_of_neg (by simpa using hlong), fillLong, if_neg (by omega), ih,
        Nat.min_eq_right (by omega)]

theorem readLengths_reads (htotal : total lengths < lengthLimit) :
    (readLengths lengths.length).Reads (packLengths lengths) lengths := by
  have hlimit : lengthLimit < UInt64.size := by decide
  have hshorts : ∀ v ∈ lengths.map (min longLength), v < 256 := by
    intro v hv
    obtain ⟨n, -, rfl⟩ := List.mem_map.1 hv
    have hlong : longLength < 256 := by decide
    omega
  have hlongs : ∀ v ∈ lengths.filter (longLength ≤ ·), v < UInt64.size := by
    intro v hv
    have hv := le_total (List.mem_of_mem_filter hv)
    omega
  have hbytes := readSmalls_reads hshorts
  have hwords := readWords_reads hlongs
  rw [List.length_map] at hbytes
  apply hbytes.bind
  rw [← List.append_nil (packWords 8 _)]
  rw [count_longLength]
  apply hwords.bind
  rw [fillLong_map]
  intro rest
  have hsize : ¬ UInt64.size ≤ total lengths := by omega
  simp only [if_neg hsize, if_neg (not_le.2 htotal)]
  rfl

theorem readLength_reads {n : Nat} (hn : n < lengthLimit) :
    readLength.Reads (packLengths [n]) n :=
  (readLengths_reads (show total [n] < lengthLimit from hn)).map total

theorem length_le_packLengths (lengths : List Nat) :
    lengths.length ≤ 8 * (packLengths lengths).length := by
  have hbytes := length_le_packSmalls (lengths.map (min longLength))
  rw [List.length_map] at hbytes
  rw [packLengths, List.length_append]
  omega

/-! ## Texts -/

theorem total_textLengths (texts : List String) :
    total (texts.map fun s => (Text.bytes s).length) = (texts.flatMap Text.bytes).length := by
  induction texts with
  | nil => rfl
  | cons s texts ih => rw [List.map_cons, total_cons, ih, List.flatMap_cons, List.length_append]

theorem splitTexts_flatMap (texts : List String) :
    splitTexts (texts.map fun s => (Text.bytes s).length) (texts.flatMap Text.bytes) =
      .ok texts := by
  induction texts with
  | nil => rfl
  | cons s texts ih =>
    rw [List.map_cons, List.flatMap_cons, splitTexts, List.take_left, List.drop_left,
      Text.ofBytes?_bytes, ih]
    rfl

theorem length_flatMap_le_packTexts (texts : List String) :
    (texts.flatMap Text.bytes).length ≤ (packTexts texts).length := by
  rw [packTexts, List.length_append]
  omega

theorem length_le_packTexts (texts : List String) :
    texts.length ≤ 8 * (packTexts texts).length := by
  have hlengths := length_le_packLengths (texts.map fun s => (Text.bytes s).length)
  rw [List.length_map] at hlengths
  rw [packTexts, List.length_append]
  omega

theorem readTexts_reads {texts : List String}
    (hsize : (texts.flatMap Text.bytes).length < lengthLimit) :
    (readTexts texts.length).Reads (packTexts texts) texts := by
  have hlengths := readLengths_reads
    (show total (texts.map fun s => (Text.bytes s).length) < lengthLimit by
      rw [total_textLengths]
      exact hsize)
  have hbytes := readBytes_reads (texts.flatMap Text.bytes)
  rw [List.length_map] at hlengths
  rw [← total_textLengths] at hbytes
  apply hlengths.bind
  rw [← List.append_nil (texts.flatMap Text.bytes)]
  apply hbytes.bind
  intro rest
  rw [splitTexts_flatMap]
  rfl

theorem readText_reads {s : String} (hsize : (Text.bytes s).length < lengthLimit) :
    readText.Reads (packText s) s := by
  have hone : ([s].flatMap Text.bytes).length < lengthLimit := by
    rwa [List.flatMap_cons, List.flatMap_nil, List.append_nil]
  exact (readTexts_reads hone).map fun texts => texts.headD ""

/-! ## How long they are -/

theorem length_packWords_singleton (n : Nat) : (packWords 8 [n]).length = 1 + narrowest 8 n := by
  have hnone : offsetsNarrow 8 [n] = false := by simp [offsetsNarrow]
  have hgreatest : greatest [n] = n := Nat.zero_max n
  have hwidth : (packAtWidth (narrowest 8 n) [n]).length = narrowest 8 n := by
    unfold packAtWidth
    split
    case isTrue hone =>
      rw [hone]
      rfl
    case isFalse =>
      rw [List.flatMap_cons, List.flatMap_nil, List.append_nil, Bytes.length_littleEndian]
  unfold packWords
  rw [hnone, hgreatest, if_neg (by simp), if_neg Bool.false_ne_true, List.length_cons, hwidth]
  omega

theorem length_packText (s : String) :
    (packText s).length = (Text.bytes s).length + 1 +
      if longLength ≤ (Text.bytes s).length then 1 + narrowest 8 (Text.bytes s).length else 0 := by
  have hbytes (n : Nat) : (packSmalls [min longLength n]).length = 1 := by
    rw [packSmalls, if_pos (by simp)]
    rfl
  rw [packText, packTexts, packLengths]
  simp only [List.map_cons, List.map_nil, List.flatMap_cons, List.flatMap_nil, List.append_nil,
    List.length_append, hbytes]
  by_cases hlong : longLength ≤ (Text.bytes s).length
  · rw [List.filter_cons_of_pos (by simpa using hlong), List.filter_nil,
      length_packWords_singleton, if_pos hlong]
    omega
  · rw [List.filter_cons_of_neg (by simpa using hlong), List.filter_nil, if_neg hlong]
    have hnone : (packWords 8 []).length = 0 := rfl
    omega

theorem length_lt_packText (s : String) : (Text.bytes s).length < (packText s).length := by
  rw [length_packText]
  omega

theorem length_packText_le {s : String} (hs : (Text.bytes s).length < UInt32.size) :
    (packText s).length ≤ (Text.bytes s).length + 6 := by
  have hwidth : narrowest 8 (Text.bytes s).length ≤ 4 := by
    unfold narrowest
    rw [if_pos hs]
    split
    · omega
    · split <;> omega
  rw [length_packText]
  split <;> omega

end Courier.Columnar

namespace Courier.Metadata

open Columnar

/-- No text, and neither all the keys nor all the values together, are as long as the limit. -/
structure IsWithinReach (m : Metadata) : Prop where
  serviceName : (Text.bytes m.serviceName).length < lengthLimit
  methodName : (Text.bytes m.methodName).length < lengthLimit
  error : (Text.bytes m.error).length < lengthLimit
  size : m.extra.size < lengthLimit
  keys : ((m.extra.entries.map Prod.fst).flatMap Text.bytes).length < lengthLimit
  values : ((m.extra.entries.map Prod.snd).flatMap Text.bytes).length < lengthLimit

theorem IsWithinReach.reader_reads {m : Metadata} (hm : m.IsWithinReach) :
    reader.Reads m.pack m := by
  have hkeys := readTexts_reads hm.keys
  have hvalues := readTexts_reads hm.values
  rw [List.length_map] at hkeys hvalues
  unfold pack
  simp only [List.append_assoc]
  apply (readText_reads hm.serviceName).bind
  apply (readText_reads hm.methodName).bind
  apply (readText_reads hm.error).bind
  apply (readLength_reads hm.size).bind
  apply hkeys.bind
  have hrebuilt : SortedMap.insertAll .empty
      ((m.extra.entries.map Prod.fst).zip (m.extra.entries.map Prod.snd)) = m.extra := by
    rw [← List.unzip_fst, ← List.unzip_snd, List.zip_unzip]
    exact SortedMap.insertAll_empty_entries m.extra
  have hread := hvalues.map fun values => ({
    serviceName := m.serviceName, methodName := m.methodName, error := m.error
    extra := .insertAll .empty ((m.extra.entries.map Prod.fst).zip values) } : Metadata)
  rwa [hrebuilt] at hread

theorem isWithinReach_of_length_pack {m : Metadata} (hsize : 8 * m.pack.length < lengthLimit) :
    m.IsWithinReach := by
  have hparts : m.pack.length = (packText m.serviceName).length + (packText m.methodName).length +
      (packText m.error).length + (packLengths [m.extra.size]).length +
      (packTexts (m.extra.entries.map Prod.fst)).length +
      (packTexts (m.extra.entries.map Prod.snd)).length := by
    simp only [pack, List.length_append]
  have hcount := length_le_packTexts (m.extra.entries.map Prod.fst)
  have hentries : (m.extra.entries.map Prod.fst).length = m.extra.size := List.length_map _
  have hserviceName := length_lt_packText m.serviceName
  have hmethodName := length_lt_packText m.methodName
  have herror := length_lt_packText m.error
  have hkeys := length_flatMap_le_packTexts (m.extra.entries.map Prod.fst)
  have hvalues := length_flatMap_le_packTexts (m.extra.entries.map Prod.snd)
  constructor <;> omega

end Courier.Metadata

namespace Courier.Calculator

open Columnar

/-! ## The numbers of a call -/

theorem readNumbers_reads (numbers : List Binary64) :
    (readNumbers numbers.length).Reads (packWords 8 (numbers.map fun x => x.bits.toNat))
      numbers := by
  have hwords : ∀ v ∈ numbers.map fun x => x.bits.toNat, v < UInt64.size := by
    intro v hv
    obtain ⟨x, -, rfl⟩ := List.mem_map.1 hv
    exact x.bits.toNat_lt
  have hread := (readWords_reads hwords).map (List.map fun n => (⟨UInt64.ofNat n⟩ : Binary64))
  have hsame : (numbers.map fun x => x.bits.toNat).map (fun n => (⟨UInt64.ofNat n⟩ : Binary64)) =
      numbers := by
    rw [List.map_map]
    apply map_eq_self
    intro x _
    rw [Function.comp_apply, UInt64.ofNat_toNat]
  rwa [List.length_map, hsame] at hread

theorem unpackRequest_packRequest {numbers : List Binary64}
    (hsize : 8 * (packRequest numbers).length < lengthLimit) :
    unpackRequest (packRequest numbers) = .ok numbers := by
  have hcount := length_le_packWords (numbers.map fun x => x.bits.toNat)
  have hparts : (packRequest numbers).length = (packLengths [numbers.length]).length +
      (packWords 8 (numbers.map fun x => x.bits.toNat)).length := by
    rw [packRequest, List.length_append]
  rw [List.length_map] at hcount
  have hread : requestReader.Reads (packRequest numbers) numbers :=
    (readLength_reads (show numbers.length < lengthLimit by omega)).bind (readNumbers_reads numbers)
  rw [unpackRequest, unpack, hread.complete]
  rfl

theorem length_packResponse_le (result : Binary64) : (packResponse result).length ≤ 9 := by
  have hwidth := narrowest_le result.bits.toNat
  rw [packResponse, length_packWords_singleton]
  omega

theorem unpackResponse_packResponse (result : Binary64) :
    unpackResponse (packResponse result) = .ok result := by
  have hread : responseReader.Reads (packResponse result) result :=
    (readNumbers_reads [result]).map fun numbers => numbers.headD .zero
  rw [unpackResponse, unpack, hread.complete]
  rfl

end Courier.Calculator
