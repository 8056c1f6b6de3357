import Courier.Proofs.Consistency
import Courier.Proofs.MetadataForms
/-!
# Metadata come back from both codecs

The JSON form of metadata leaves out what is empty and puts its members in the order of their
names, and all metadata come back from it (`Codec.json_lossless`).  So do those that are packed
(`Codec.binary_lossless`), with a reservation for sizes that no machine has: readers refuse
lengths that sum up to `Columnar.lengthLimit`, so that nothing they give is as long
(`Metadata.reader_gives`).
-/

namespace Courier

namespace Columnar

namespace Reader

variable {α β : Type} {reader : Reader α} {P : α → Prop} {Q : β → Prop}

/-- Whatever the reader makes of an input has the property. -/
def Gives (reader : Reader α) (P : α → Prop) : Prop :=
  ∀ ⦃input value rest⦄, reader input = .ok (value, rest) → P value

theorem Gives.bind {f : α → Reader β} (hreader : reader.Gives P) (hf : ∀ a, P a → (f a).Gives Q) :
    (reader >>= f).Gives Q := by
  intro input value rest h
  obtain ⟨⟨a, rest'⟩, hread, h⟩ := bind_eq_ok_iff.1 h
  exact hf a (hreader hread) h

theorem gives_pure {a : α} (ha : P a) : (pure a : Reader α).Gives P := by
  rintro input _ rest ⟨⟩
  exact ha

theorem gives_throw (fault : Fault) : (throw fault : Reader α).Gives P := by
  rintro input value rest ⟨⟩

theorem complete_eq_ok_iff {input : Bytes} {value : α} :
    reader.complete input = .ok value ↔ reader input = .ok (value, []) := by
  unfold complete
  cases reader input with
  | error fault => simp
  | ok p =>
    obtain ⟨read, rest⟩ := p
    cases rest <;> simp

theorem gives_true (reader : Reader α) : reader.Gives fun _ => True :=
  fun _ _ _ _ => trivial

end Reader

open Reader

/-! ## As many values as are read -/

theorem readBytes_gives (n : Nat) : (readBytes n).Gives fun bytes => bytes.length = n := by
  intro input bytes rest h
  unfold readBytes at h
  cases htake : Bytes.takeExactly n input with
  | none => simp [htake] at h
  | some p =>
    rw [htake] at h
    cases h
    exact (Bytes.takeExactly_eq_some_iff.1 htake).1

theorem length_lowDigits (base count n : Nat) : (lowDigits base count n).length = count := by
  induction count generalizing n with
  | zero => rfl
  | succ count ih => rw [lowDigits, List.length_cons, ih]

theorem length_unpackDigits {base perByte count : Nat} {packed : Bytes}
    (hpacked : count ≤ perByte * packed.length) :
    (unpackDigits base perByte count packed).length = count := by
  apply List.length_take_of_le
  simp only [List.length_flatMap, length_lowDigits, List.map_const', List.sum_replicate,
    smul_eq_mul]
  rwa [Nat.mul_comm]

theorem readRaw_gives (count : Nat) :
    (do return (← readBytes count).map UInt8.toNat : Reader (List Nat)).Gives
      fun values => values.length = count := by
  refine (readBytes_gives count).bind fun raw hraw => gives_pure ?_
  rw [List.length_map, hraw]

theorem readPacked_gives (code count : Nat) :
    (readPacked code count).Gives fun values => values.length = count := by
  unfold readPacked
  split
  · next p hp =>
    have hperByte := (isSound_of_mem_packings p (List.mem_of_find?_eq_some hp)).perByte
    refine (readBytes_gives _).bind fun packed hpacked => gives_pure ?_
    apply length_unpackDigits
    rw [hpacked]
    have hmod := Nat.mod_lt (count + p.perByte - 1) hperByte
    have hdiv := Nat.div_add_mod (count + p.perByte - 1) p.perByte
    omega
  · exact readRaw_gives count

theorem readSmalls_gives (count : Nat) :
    (readSmalls count).Gives fun values => values.length = count := by
  unfold readSmalls
  split
  · exact readRaw_gives count
  · refine (gives_true readByte).bind fun code _ => ?_
    dsimp only
    split
    · exact (gives_throw (P := fun _ => False) _).bind fun _ hnever => hnever.elim
    split
    · exact readPacked_gives code.toNat count
    · refine (gives_true readByte).bind fun minimum _ => ?_
      refine (readPacked_gives _ count).bind fun offsets hoffsets => gives_pure ?_
      rw [List.length_map, hoffsets]

theorem length_fillLong (shorts longs : List Nat) :
    (fillLong shorts longs).length = shorts.length := by
  induction shorts generalizing longs with
  | nil => rfl
  | cons short shorts ih =>
    rw [fillLong]
    split
    · rw [List.length_cons, ih, List.length_cons]
    · rw [List.length_cons, ih, List.length_cons]

theorem readLengths_gives (count : Nat) :
    (readLengths count).Gives fun lengths =>
      lengths.length = count ∧ total lengths < lengthLimit := by
  unfold readLengths
  refine (readSmalls_gives count).bind fun shorts hshorts => ?_
  refine (gives_true _).bind fun longs _ => ?_
  dsimp only
  split
  · exact (gives_throw (P := fun _ => False) _).bind fun _ hnever => hnever.elim
  split
  · exact (gives_throw (P := fun _ => False) _).bind fun _ hnever => hnever.elim
  next hlimit =>
    exact gives_pure ⟨(length_fillLong shorts longs).trans hshorts, not_le.1 hlimit⟩

theorem readLength_gives : readLength.Gives fun n => n < lengthLimit := by
  unfold readLength
  exact (readLengths_gives 1).bind fun lengths hlengths => gives_pure hlengths.2

theorem texts_of_splitTexts {lengths : List Nat} {bytes : Bytes} {texts : List String}
    (h : splitTexts lengths bytes = .ok texts) :
    texts.length = lengths.length ∧ (texts.flatMap Text.bytes).length ≤ total lengths := by
  induction lengths generalizing bytes texts with
  | nil =>
    cases h
    exact ⟨rfl, Nat.le_refl _⟩
  | cons n lengths ih =>
    rw [splitTexts] at h
    cases htext : Text.ofBytes? (bytes.take n) with
    | none => simp [htext] at h
    | some s =>
      cases hrest : splitTexts lengths (bytes.drop n) with
      | error fault => simp [htext, hrest, Except.map] at h
      | ok rest =>
        rw [htext, hrest] at h
        cases h
        obtain ⟨hlength, hbytes⟩ := ih hrest
        have hs : (Text.bytes s).length ≤ n := by
          rw [Text.bytes_of_ofBytes? htext, List.length_take]
          exact Nat.min_le_left _ _
        constructor
        · rw [List.length_cons, List.length_cons, hlength]
        · rw [List.flatMap_cons, List.length_append, total_cons]
          exact Nat.add_le_add hs hbytes

theorem readTexts_gives (count : Nat) :
    (readTexts count).Gives fun texts =>
      texts.length = count ∧ (texts.flatMap Text.bytes).length < lengthLimit := by
  unfold readTexts
  refine (readLengths_gives count).bind fun lengths hlengths => ?_
  refine (gives_true _).bind fun bytes _ => ?_
  intro input texts rest h
  obtain ⟨texts', hsplit, h⟩ := bind_eq_ok_iff.1 h
  cases h
  obtain ⟨hlength, hbytes⟩ := texts_of_splitTexts hsplit
  exact ⟨hlength.trans hlengths.1, hbytes.trans_lt hlengths.2⟩

theorem readText_gives : readText.Gives fun s => (Text.bytes s).length < lengthLimit := by
  unfold readText
  refine (readTexts_gives 1).bind fun texts htexts => gives_pure ?_
  obtain ⟨s, rfl⟩ := List.length_eq_one_iff.1 htexts.1
  simpa using htexts.2

end Columnar

/-! ## Metadata -/

section

open ByteKey

variable {κ : Type} [ByteKey κ] {α : Type}

theorem sum_insertEntry_le (weight : κ × α → Nat) (key : κ) (value : α) (entries : List (κ × α)) :
    ((insertEntry key value entries).map weight).sum ≤
      weight (key, value) + (entries.map weight).sum := by
  induction entries with
  | nil => simp [insertEntry]
  | cons entry entries ih =>
    rw [insertEntry]
    split
    · simp
    split
    · simp only [List.map_cons, List.sum_cons]
      omega
    · simp only [List.map_cons, List.sum_cons]
      omega

theorem SortedMap.sum_insertAll_le (weight : κ × α → Nat) (m : SortedMap κ α)
    (entries : List (κ × α)) :
    ((m.insertAll entries).entries.map weight).sum ≤
      (m.entries.map weight).sum + (entries.map weight).sum := by
  induction entries generalizing m with
  | nil => exact Nat.le_refl _
  | cons entry entries ih =>
    have hinsert : ((m.insert entry.1 entry.2).entries.map weight).sum ≤
        weight entry + (m.entries.map weight).sum :=
      sum_insertEntry_le weight entry.1 entry.2 m.entries
    calc ((m.insertAll (entry :: entries)).entries.map weight).sum
        = (((m.insert entry.1 entry.2).insertAll entries).entries.map weight).sum := rfl
      _ ≤ ((m.insert entry.1 entry.2).entries.map weight).sum + (entries.map weight).sum :=
        ih (m.insert entry.1 entry.2)
      _ ≤ (m.entries.map weight).sum + ((entry :: entries).map weight).sum := by
        rw [List.map_cons, List.sum_cons]
        omega

theorem SortedMap.sum_insertAll_empty_le (weight : κ × α → Nat) (entries : List (κ × α)) :
    ((SortedMap.insertAll .empty entries).entries.map weight).sum ≤ (entries.map weight).sum := by
  have hsum := SortedMap.sum_insertAll_le weight .empty entries
  rwa [SortedMap.empty, List.map_nil, List.sum_nil, Nat.zero_add] at hsum

end

namespace Metadata

open Columnar Reader

theorem length_texts_insertAll_le (text : String × String → String)
    (entries : List (String × String)) :
    (((SortedMap.insertAll .empty entries).entries.map text).flatMap Text.bytes).length ≤
      ((entries.map text).flatMap Text.bytes).length := by
  rw [List.length_flatMap, List.length_flatMap, List.map_map, List.map_map]
  exact SortedMap.sum_insertAll_empty_le _ entries

theorem size_insertAll_le (entries : List (String × String)) :
    (SortedMap.insertAll .empty entries).size ≤ entries.length := by
  have hsum := SortedMap.sum_insertAll_empty_le (fun _ => 1) entries
  simpa [SortedMap.size] using hsum

theorem reader_gives : reader.Gives IsWithinReach := by
  unfold reader
  refine readText_gives.bind fun serviceName hserviceName => ?_
  refine readText_gives.bind fun methodName hmethodName => ?_
  refine readText_gives.bind fun error herror => ?_
  refine readLength_gives.bind fun count hcount => ?_
  refine (readTexts_gives count).bind fun keys hkeys => ?_
  refine (readTexts_gives count).bind fun values hvalues => gives_pure ?_
  have hsame : keys.length = values.length := hkeys.1.trans hvalues.1.symm
  refine ⟨hserviceName, hmethodName, herror, ?_, ?_, ?_⟩
  · apply (size_insertAll_le _).trans_lt
    rwa [List.length_zip, ← hsame, Nat.min_self, hkeys.1]
  · apply (length_texts_insertAll_le Prod.fst _).trans_lt
    rw [List.map_fst_zip hsame.le]
    exact hkeys.2
  · apply (length_texts_insertAll_le Prod.snd _).trans_lt
    rw [List.map_snd_zip hsame.ge]
    exact hvalues.2

end Metadata

/-! ## The two codecs -/

namespace Codec

theorem load_eq_iff {c : Codec} {α : Type} {capabilities : Capabilities α} {bytes : Bytes}
    {target value : α} :
    c.load capabilities bytes target = (value, none) ↔ c.decode capabilities bytes = .ok value := by
  unfold load
  cases c.decode capabilities bytes <;> simp

/-- The JSON form of metadata names the two names, and the error and the entries if there are any,
in the order of the names of its members; and everything comes back from it. -/
theorem json_lossless (m target : Metadata) :
    ∃ members, json.encode Metadata.capabilities m =
        .ok (Json.print Json.compact (.object members)) ∧
      Json.print Json.compact (.object members) ≠ [] ∧
      Json.Textual 2 (.object members) ∧
      (∀ name, name ∈ members.map Prod.fst ↔ name = "serviceName" ∨ name = "methodName" ∨
        name = "error" ∧ m.error ≠ "" ∨ name = "extra" ∧ m.extra ≠ .empty) ∧
      Json.parse (Json.print Json.compact (.object members)) = .ok (.object members) ∧
      json.load Metadata.capabilities (Json.print Json.compact (.object members)) target =
        (m, none) := by
  have hencode : json.encode Metadata.capabilities m = .ok (Json.print Json.compact m.toTree) := rfl
  obtain ⟨hnonempty, hdecode⟩ := json_restores m _ hencode
  refine ⟨_, hencode, hnonempty, m.toTree_textual, ?_,
    Json.parse_print m.toTree_textual (by decide), load_eq_iff.2 hdecode⟩
  intro name
  simp only [List.map_append, List.mem_append, String.isEmpty_iff, SortedMap.isEmpty_iff]
  by_cases herror : m.error = "" <;> by_cases hextra : m.extra = .empty <;>
    simp [herror, hextra] <;> tauto

theorem decode_binary_eq_ok_iff {bytes : Bytes} {m : Metadata} :
    binary.decode Metadata.capabilities bytes = .ok m ↔ Metadata.reader.complete bytes = .ok m := by
  simp only [binary, Metadata.capabilities]
  cases Metadata.reader.complete bytes <;> simp [Except.mapError]

/-- The packed form of metadata is never taken for that of none, and everything comes back from any
that fits an address space of 48 bits.  Exactly metadata with a text, or keys or values, of some two
petabytes are too much for the reader. -/
theorem binary_lossless (m target : Metadata) :
    ∃ bytes, binary.encode Metadata.capabilities m = .ok bytes ∧ bytes ≠ [] ∧
      binary.decodeMetadata bytes ≠ .ok none ∧
      (bytes.length < 2 ^ 48 → binary.load Metadata.capabilities bytes target = (m, none)) ∧
      (binary.load Metadata.capabilities bytes target = (m, none) ↔ m.IsWithinReach) := by
  have hnonempty : m.pack ≠ [] := by
    have hname := Columnar.length_lt_packText m.serviceName
    intro hnil
    have hlength := congrArg List.length hnil
    simp only [Metadata.pack, List.length_append, List.length_nil] at hlength
    omega
  have hload : binary.load Metadata.capabilities m.pack target = (m, none) ↔ m.IsWithinReach := by
    rw [load_eq_iff, decode_binary_eq_ok_iff]
    constructor
    · intro hread
      exact Metadata.reader_gives (Columnar.Reader.complete_eq_ok_iff.1 hread)
    · intro hm
      exact hm.reader_reads.complete
  refine ⟨m.pack, rfl, hnonempty, ?_, ?_, hload⟩
  · intro hnone
    exact hnonempty ((eq_none_iff_of_decodeMetadata hnone).1 rfl)
  · intro hsize
    have hlimit : 8 * (2 ^ 48 - 1) < Columnar.lengthLimit := by decide
    exact hload.2 (Metadata.isWithinReach_of_length_pack (by omega))

def tagged : Metadata where
  serviceName := "Sum"
  methodName := "add"
  extra := SortedMap.empty.insert "trace" "Ünïcode"

theorem binary_lossless_tagged :
    tagged.pack.length < 2 ^ 48 ∧
      binary.load Metadata.capabilities tagged.pack {} = (tagged, none) := by
  have hsize : tagged.pack.length < 2 ^ 48 := by decide +kernel
  obtain ⟨bytes, hencode, -, -, hload, -⟩ := binary_lossless tagged {}
  cases hencode
  exact ⟨hsize, hload hsize⟩

end Codec

end Courier
