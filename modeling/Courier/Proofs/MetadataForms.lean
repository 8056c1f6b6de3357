import Courier.Proofs.JsonTexts
import Courier.Proofs.PackedValues
import Courier.Proofs.RoundTrip
/-!
# Both codecs restore metadata

Neither the JSON text nor the packed form of metadata is ever empty, and each is read back as the
metadata it was written for (`Codec.json_restores`, `Codec.binary_restores`).  What is packed has to
stay below the reader's limit on lengths, which no segment of a message reaches.
-/

namespace Courier

/-! ## The JSON form -/

namespace Metadata

theorem mapM_asText (entries : List (String × String)) :
    (entries.map fun e => (e.1, Json.string e.2)).mapM
      (fun m => do return (m.1, ← Json.asText m.2)) = Except.ok entries := by
  induction entries with
  | nil => rfl
  | cons e entries ih =>
    rw [List.map_cons, List.mapM_cons, ih]
    rfl

theorem extraOfTree_object (extra : SortedMap String String) :
    extraOfTree (.object (extra.entries.map fun e => (e.1, .string e.2))) = .ok extra := by
  rw [extraOfTree, Json.asMembers, mapM_asText]
  exact congrArg Except.ok (SortedMap.insertAll_empty_entries extra)

theorem ascending_iff {α : Type} {entries : List (String × α)} :
    Ascending entries ↔ (entries.map Prod.fst).Pairwise ByteKey.Before :=
  List.pairwise_map.symm

theorem ascending_map {α β : Type} {entries : List (String × α)} {f : α → β} :
    Ascending (entries.map fun e => (e.1, f e.2)) ↔ Ascending entries := by
  rw [ascending_iff, List.map_map, ascending_iff]
  rfl

theorem toTree_textual (m : Metadata) : Json.Textual 2 m.toTree := by
  have hextra : Json.Textual 1
      (.object (m.extra.entries.map fun e => (e.1, Json.string e.2))) := by
    refine ⟨?_, ?_⟩
    · exact ascending_map.2 m.extra.ascending
    · intro member hmember
      obtain ⟨e, -, rfl⟩ := List.mem_map.1 hmember
      trivial
  refine ⟨?_, ?_⟩
  · rw [ascending_iff]
    split <;> split <;>
      simp only [List.map_cons, List.map_nil, List.nil_append, List.cons_append] <;>
      decide
  · intro member hmember
    simp only [List.mem_append, List.mem_ite_nil_left, List.mem_cons, List.not_mem_nil, or_false]
      at hmember
    rcases hmember with (⟨-, rfl⟩ | ⟨-, rfl⟩) | rfl | rfl
    · trivial
    · exact hextra
    · trivial
    · trivial

/-- The tree of metadata says all of it, although it leaves out what is empty. -/
theorem ofTree_toTree (m : Metadata) : ofTree m.toTree = .ok m := by
  have herror : (if m.error.isEmpty then [] else [("error", Json.string m.error)]).foldlM
      (fun (m : Metadata) f => m.setField f.1 f.2) {} = .ok { error := m.error } := by
    split
    case isTrue hempty =>
      rw [String.isEmpty_iff.1 hempty]
      rfl
    case isFalse => rfl
  have hextra : (if m.extra.isEmpty then []
      else [("extra", Json.object (m.extra.entries.map fun e => (e.1, .string e.2)))]).foldlM
        (fun (m : Metadata) f => m.setField f.1 f.2) { error := m.error } =
      .ok { error := m.error, extra := m.extra } := by
    split
    case isTrue hempty =>
      rw [SortedMap.isEmpty_iff.1 hempty]
      rfl
    case isFalse =>
      rw [List.foldlM_cons, setField, extraOfTree_object]
      rfl
  rw [toTree, ofTree, setFields, List.foldlM_append, List.foldlM_append, herror]
  simp only [bind, Except.bind, hextra]
  rfl

end Metadata

/-! ## The codecs -/

namespace Codec

theorem json_restores (m : Metadata) : json.Restores m := by
  rintro bytes hbytes
  cases hbytes
  have hparse : Json.parse (Json.print Json.compact m.toTree) = .ok m.toTree :=
    Json.parse_print m.toTree_textual (by decide)
  refine ⟨?_, ?_⟩
  · rw [Json.print, Metadata.toTree, Json.printAt]
    exact List.cons_ne_nil _ _
  · change decodeText "json" Metadata.capabilities (Json.print Json.compact m.toTree) = .ok m
    simp only [decodeText, Metadata.capabilities, hparse, Metadata.ofTree_toTree]
    rfl

theorem binary_restores {m : Metadata} (hm : m.IsWithinReach) : binary.Restores m := by
  rintro bytes hbytes
  cases hbytes
  have hread : Metadata.reader.complete m.pack = .ok m := hm.reader_reads.complete
  refine ⟨?_, ?_⟩
  · intro hempty
    rw [show m.pack = [] from hempty] at hread
    cases hread
  · simp only [binary, Metadata.capabilities, hread]
    rfl

theorem eq_json_or_binary {serialization : Serialization} {codec : Codec}
    (hlookup : Registry.builtin.lookup serialization = some codec) :
    codec = json ∨ codec = binary := by
  have hentries : Registry.builtin.codecs.entries = [(1, json), (2, binary)] := rfl
  rw [Registry.lookup, SortedMap.get?, hentries] at hlookup
  obtain ⟨entry, hfound, rfl⟩ := Option.map_eq_some_iff.1 hlookup
  have hmem := List.mem_of_find?_eq_some hfound
  simp only [List.mem_cons, List.not_mem_nil, or_false] at hmem
  rcases hmem with rfl | rfl
  · exact .inl rfl
  · exact .inr rfl

theorem decodeMetadata_of_json_or_binary {codec : Codec} {metadata : Option Metadata}
    {segment : Bytes}
    (hcodec : codec = json ∨ codec = binary) (hencode : codec.encodeMetadata metadata = .ok segment)
    (hsize : segment.length < UInt32.size) : codec.decodeMetadata segment = .ok metadata := by
  have hlimit : 8 * UInt32.size < Columnar.lengthLimit := by decide
  apply decodeMetadata_of_restores _ hencode
  rintro value rfl
  rcases hcodec with rfl | rfl
  · exact json_restores value
  · have hpacked : value.pack = segment := Except.ok.inj hencode
    apply binary_restores
    apply Metadata.isWithinReach_of_length_pack
    rw [hpacked]
    omega

theorem decodeMetadata_of_builtin {serialization : Serialization} {codec : Codec}
    {metadata : Option Metadata} {segment : Bytes}
    (hlookup : Registry.builtin.lookup serialization = some codec)
    (hencode : codec.encodeMetadata metadata = .ok segment) (hsize : segment.length < UInt32.size) :
    codec.decodeMetadata segment = .ok metadata :=
  decodeMetadata_of_json_or_binary (eq_json_or_binary hlookup) hencode hsize

end Codec

end Courier
