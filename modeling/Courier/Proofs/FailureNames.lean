import Courier.Codec.Values
import Courier.Metadata
import Courier.Proofs.Basics
/-!
# Under which name a codec fails

What a form of a value refuses it reports under a name of its own (`Capabilities.ReportsUnder`).
The packed codec puts its own name in place of that one, the JSON codec does not: of a value that
has a structured form and a text that is JSON, its failures carry the name of the form
(`Codec.name_of_failure`).
-/

namespace Courier

/-! ## Forms -/

namespace Capabilities

/-- The forms report under the name whatever they refuse. -/
structure ReportsUnder {α : Type} (capabilities : Capabilities α) (name : String) : Prop where
  toTree : ∀ form, capabilities.structured = some form → ∀ value e, form.toTree value = .error e →
    ∃ reason, e = .malformed name reason
  ofTree : ∀ form, capabilities.structured = some form → ∀ tree e, form.ofTree tree = .error e →
    ∃ reason, e = .malformed name reason
  unpack : ∀ form, capabilities.packed = some form → ∀ bytes e, form.unpack bytes = .error e →
    ∃ reason, e = .malformed name reason

theorem metadata_reportsUnder : Metadata.capabilities.ReportsUnder "metadata" where
  toTree := by
    rintro _ ⟨⟩ value e h
    cases h
  ofTree := by
    rintro _ ⟨⟩ tree e h
    obtain ⟨_, -, rfl⟩ := mapError_eq_error_iff.1 h
    exact ⟨_, rfl⟩
  unpack := by
    rintro _ ⟨⟩ bytes e h
    obtain ⟨_, -, rfl⟩ := mapError_eq_error_iff.1 h
    exact ⟨_, rfl⟩

section

variable {α : Type}

theorem ofTree_reportsUnder (toTree : α → Except Json.Mismatch Json)
    (ofTree : Json → Except Json.Mismatch α) :
    (Capabilities.ofTree toTree ofTree).ReportsUnder "structured" where
  toTree := by
    rintro _ ⟨⟩ value e h
    obtain ⟨_, -, rfl⟩ := mapError_eq_error_iff.1 h
    exact ⟨_, rfl⟩
  ofTree := by
    rintro _ ⟨⟩ tree e h
    obtain ⟨_, -, rfl⟩ := mapError_eq_error_iff.1 h
    exact ⟨_, rfl⟩
  unpack := by
    rintro _ ⟨⟩

theorem ofColumns_reportsUnder (pack : α → Bytes) (reader : Columnar.Reader α) :
    (Capabilities.ofColumns pack reader).ReportsUnder "schema" where
  toTree := by
    rintro _ ⟨⟩
  ofTree := by
    rintro _ ⟨⟩
  unpack := by
    rintro _ ⟨⟩ bytes e h
    obtain ⟨_, -, rfl⟩ := mapError_eq_error_iff.1 h
    exact ⟨_, rfl⟩

theorem opaqueValue_reportsUnder (name : String) :
    (Capabilities.opaqueValue : Capabilities α).ReportsUnder name where
  toTree := by
    rintro _ ⟨⟩
  ofTree := by
    rintro _ ⟨⟩
  unpack := by
    rintro _ ⟨⟩

end

/-- The forms with which values come, and the name under which these report: the two of metadata, a
structured or a packed one of any other type, or none at all. -/
inductive Supplied : {α : Type} → Capabilities α → String → Prop
  | metadata : Supplied Metadata.capabilities "metadata"
  | structured {α : Type} (toTree : α → Except Json.Mismatch Json)
    (ofTree : Json → Except Json.Mismatch α) : Supplied (.ofTree toTree ofTree) "structured"
  | packed {α : Type} (pack : α → Bytes) (reader : Columnar.Reader α) :
    Supplied (.ofColumns pack reader) "schema"
  | none {α : Type} (name : String) : Supplied (opaqueValue : Capabilities α) name

theorem Supplied.reportsUnder {α : Type} {capabilities : Capabilities α} {name : String}
    (h : capabilities.Supplied name) : capabilities.ReportsUnder name := by
  cases h with
  | metadata => exact metadata_reportsUnder
  | structured toTree ofTree => exact ofTree_reportsUnder toTree ofTree
  | packed pack reader => exact ofColumns_reportsUnder pack reader
  | none => exact opaqueValue_reportsUnder name

end Capabilities

/-! ## Codecs -/

namespace Codec

variable {α : Type} {capabilities : Capabilities α} {value target kept : α} {bytes : Bytes}
  {e : CodecError}

theorem load_eq_some_iff {c : Codec} :
    c.load capabilities bytes target = (kept, some e) ↔
      kept = target ∧ c.decode capabilities bytes = .error e := by
  unfold load
  cases c.decode capabilities bytes <;> simp [eq_comm]

theorem encode_binary_eq_error_iff :
    binary.encode capabilities value = .error e ↔
      capabilities.packed = none ∧ e = .invalidMessage "bitcode" := by
  simp only [binary]
  cases capabilities.packed <;> simp [eq_comm]

theorem codec_of_decode_binary {name : String} (hforms : capabilities.ReportsUnder name)
    (h : binary.decode capabilities bytes = .error e) : e.codec = binary.name := by
  cases hform : capabilities.packed with
  | none =>
    simp only [binary, hform] at h
    cases h
    rfl
  | some form =>
    cases hunpack : form.unpack bytes with
    | ok value =>
      simp only [binary, hform, hunpack] at h
      cases h
    | error cause =>
      obtain ⟨reason, rfl⟩ := hforms.unpack form hform bytes cause hunpack
      simp only [binary, hform, hunpack] at h
      cases h
      rfl

theorem encode_json_eq_error_iff :
    json.encode capabilities value = .error e ↔
      capabilities.structured = none ∧ e = .invalidMessage "json" ∨
        ∃ form, capabilities.structured = some form ∧ form.toTree value = .error e := by
  simp only [json, encodeText]
  cases capabilities.structured with
  | none => simp [eq_comm]
  | some form => cases hmake : form.toTree value <;> simp [Except.map, hmake]

theorem decode_json_eq_error_iff :
    json.decode capabilities bytes = .error e ↔
      capabilities.structured = none ∧ e = .invalidMessage "json" ∨
        ∃ form, capabilities.structured = some form ∧
          ((∃ r, Json.parse bytes = .error r ∧ e = .malformed "json" (r.message bytes)) ∨
            ∃ tree, Json.parse bytes = .ok tree ∧ form.ofTree tree = .error e) := by
  simp only [json, decodeText]
  cases capabilities.structured with
  | none => simp [eq_comm]
  | some form => cases Json.parse bytes <;> simp [eq_comm]

theorem json_reports_as_metadata :
    json.load Metadata.capabilities (Text.bytes "\x7b\"serviceName\":1\x7d") {} =
      ({}, some (.malformed "metadata" "invalid type: integer `1`, expected a string")) ∧
    "metadata" ≠ json.name :=
  ⟨rfl, by decide⟩

/-- Of every value, the packed codec reports all its failures under its own name, and so does the
JSON codec, with one exception: where it comes as far as a tree, to make or to load it, what fails
is the structured form, and the failure carries the name of the form. -/
theorem name_of_failure {form : String} (hsupplied : capabilities.Supplied form) :
    (∀ value e, binary.encode capabilities value = .error e → e.codec = binary.name) ∧
    (∀ bytes target kept e, binary.load capabilities bytes target = (kept, some e) →
      e.codec = binary.name) ∧
    (∀ value e, json.encode capabilities value = .error e →
      e.codec = if capabilities.structured.isSome then form else json.name) ∧
    ∀ bytes target kept e, json.load capabilities bytes target = (kept, some e) →
      e.codec = if capabilities.structured.isSome ∧ (Json.parse bytes).isOk then form
        else json.name := by
  have hforms := hsupplied.reportsUnder
  refine ⟨?_, ?_, ?_, ?_⟩
  · intro value e h
    obtain ⟨-, rfl⟩ := encode_binary_eq_error_iff.1 h
    rfl
  · intro bytes target kept e h
    exact codec_of_decode_binary hforms (load_eq_some_iff.1 h).2
  · intro value e h
    rcases encode_json_eq_error_iff.1 h with ⟨hlacking, rfl⟩ | ⟨structured, hform, hmake⟩
    · simp [hlacking, CodecError.codec, json]
    · obtain ⟨reason, rfl⟩ := hforms.toTree structured hform value e hmake
      simp [hform, CodecError.codec]
  · intro bytes target kept e h
    rcases decode_json_eq_error_iff.1 (load_eq_some_iff.1 h).2 with ⟨hlacking, rfl⟩ |
      ⟨structured, hform, ⟨r, hparse, rfl⟩ | ⟨tree, hparse, hload⟩⟩
    · simp [hlacking, CodecError.codec, json]
    · simp [hparse, CodecError.codec, json, Except.isOk, Except.toBool]
    · obtain ⟨reason, rfl⟩ := hforms.ofTree structured hform tree e hload
      simp [hform, hparse, CodecError.codec, Except.isOk, Except.toBool]

theorem name_of_failure_metadata :
    (Metadata.capabilities.Supplied "metadata" ∧
      (∃ kept e, json.load Metadata.capabilities [0x7B] {} = (kept, some e) ∧ e.codec = "json") ∧
      (∃ kept e, binary.load Metadata.capabilities [0x02] {} = (kept, some e) ∧
        e.codec = "bitcode") ∧
      ∃ kept e, json.load Metadata.capabilities [0x31] {} = (kept, some e) ∧
        e.codec = "metadata") ∧
    (Capabilities.words.Supplied "structured" ∧
      ∃ kept e, json.load Capabilities.words [0x31] [] = (kept, some e) ∧ e.codec = "structured") ∧
    (Capabilities.word.Supplied "schema" ∧
      ∃ kept e, binary.load Capabilities.word [] 0 = (kept, some e) ∧ e.codec = "bitcode") ∧
    (Capabilities.opaqueValue : Capabilities Unit).Supplied "" ∧
      ∃ e, json.encode (Capabilities.opaqueValue : Capabilities Unit) () = .error e ∧
        e.codec = "json" := by
  have hwords : Capabilities.words.Supplied "structured" := .structured _ _
  have hword : Capabilities.word.Supplied "schema" := .packed _ _
  have hnone : (Capabilities.opaqueValue : Capabilities Unit).Supplied "" := .none ""
  obtain ⟨-, hbinary, -, hjson⟩ := name_of_failure .metadata
  refine ⟨⟨.metadata, ⟨_, _, rfl, hjson [0x7B] {} _ _ rfl⟩, ⟨_, _, rfl, hbinary [0x02] {} _ _ rfl⟩,
    _, _, rfl, hjson [0x31] {} _ _ rfl⟩, ⟨hwords, ?_⟩, ⟨hword, ?_⟩, hnone, ?_⟩
  · exact ⟨_, _, rfl, (name_of_failure hwords).2.2.2 [0x31] [] _ _ rfl⟩
  · exact ⟨_, _, rfl, (name_of_failure hword).2.1 [] 0 _ _ rfl⟩
  · exact ⟨_, rfl, (name_of_failure hnone).2.2.1 () _ rfl⟩

end Codec

end Courier
