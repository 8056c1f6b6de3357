import Courier.Settings
import Courier.Proofs.ClearParts
import Courier.Proofs.Consistency
/-!
# Which failure comes first

Of all that may be wrong with a complete frame, or with a message that is to be encoded, the first
in a fixed order decides what comes of it.  The order is that of the constructors of
`Settings.DecodesTo` and `Settings.EncodesTo`, each of which asks that nothing before it applies;
that the stack built of the settings keeps to it is `Settings.outcome_is_first_that_applies`.
-/

namespace Courier

/-! ## The order of the failures -/

def Registry.Reads (registry : Registry) (frame : Frame) (metadata : Option Metadata) : Prop :=
  ∃ codec, registry.lookup frame.header.serialization = some codec ∧
    codec.decodeMetadata frame.metadata = .ok metadata

namespace Settings

/-- The payload of a frame without its seal, which it has if the settings have a key. -/
def Opens (settings : Settings) (frame : Frame) (opened : Bytes) : Prop :=
  match settings.key with
  | none => opened = frame.payload
  | some key => Cipher.openPayload? key frame.header.messageId frame.payload = some opened

/-- What comes of a complete frame. -/
inductive DecodesTo (settings : Settings) (registry : Registry) (frame : Frame) :
    Except WireError Message → Prop
  | unregistered (hlookup : registry.lookup frame.header.serialization = none) :
      DecodesTo settings registry frame
        (.error (.unsupportedSerializer frame.header.serialization.code .metadata))
  | metadata {codec : Codec} {cause : CodecError}
      (hlookup : registry.lookup frame.header.serialization = some codec)
      (hpresent : frame.metadata ≠ [])
      (hcause : codec.decode Metadata.capabilities frame.metadata = .error cause) :
      DecodesTo settings registry frame (.error (.ofCodec .metadata cause))
  | decryption {metadata : Option Metadata} {key : Cipher.Key}
      (hmetadata : registry.Reads frame metadata) (hkey : settings.key = some key)
      (hsealed : Cipher.openPayload? key frame.header.messageId frame.payload = none) :
      DecodesTo settings registry frame (.error .decryption)
  | unknownCompression {metadata : Option Metadata} {opened : Bytes}
      (hmetadata : registry.Reads frame metadata) (hopened : settings.Opens frame opened)
      (hplain : frame.header.compression.code ≠ 0) (hgzip : frame.header.compression.code ≠ 1) :
      DecodesTo settings registry frame
        (.error (.unsupportedCompression frame.header.compression.code))
  | damaged {metadata : Option Metadata} {opened : Bytes} {fault : Gzip.Fault}
      (hmetadata : registry.Reads frame metadata) (hopened : settings.Opens frame opened)
      (hgzip : frame.header.compression.code = 1)
      (hmember : Gzip.decompress settings.limit.toNat opened = .error (.damaged fault)) :
      DecodesTo settings registry frame (.error (.compression fault.transportError))
  | overLimit {metadata : Option Metadata} {opened : Bytes}
      (hmetadata : registry.Reads frame metadata) (hopened : settings.Opens frame opened)
      (hgzip : frame.header.compression.code = 1)
      (hmember : Gzip.decompress settings.limit.toNat opened =
        .error (.overLimit (settings.limit.toNat + 1))) :
      DecodesTo settings registry frame
        (.error (.sizeOverflow .payload (settings.limit.toNat + 1)))
  | plain {metadata : Option Metadata} {opened : Bytes}
      (hmetadata : registry.Reads frame metadata) (hopened : settings.Opens frame opened)
      (hplain : frame.header.compression.code = 0) :
      DecodesTo settings registry frame
        (.ok ⟨{ frame.header with payloadSize := UInt32.ofNat opened.length }, metadata, opened⟩)
  | decompressed {metadata : Option Metadata} {opened content : Bytes}
      (hmetadata : registry.Reads frame metadata) (hopened : settings.Opens frame opened)
      (hgzip : frame.header.compression.code = 1)
      (hmember : Gzip.decompress settings.limit.toNat opened = .ok content) :
      DecodesTo settings registry frame
        (.ok ⟨{ frame.header with payloadSize := UInt32.ofNat content.length }, metadata, content⟩)

/-- What comes of encoding a message whose segments fit their size fields. -/
inductive EncodesTo (registry : Registry) (m : Message) : Except WireError Unit → Prop
  | unknownCompression (hplain : m.header.compression.code ≠ 0)
      (hgzip : m.header.compression.code ≠ 1) :
      EncodesTo registry m (.error (.unsupportedCompression m.header.compression.code))
  | unregistered (hcompression : m.header.compression.code = 0 ∨ m.header.compression.code = 1)
      (hlookup : registry.lookup m.header.serialization = none) :
      EncodesTo registry m (.error (.unsupportedSerializer m.header.serialization.code .metadata))
  | metadata {codec : Codec} {value : Metadata} {cause : CodecError}
      (hcompression : m.header.compression.code = 0 ∨ m.header.compression.code = 1)
      (hlookup : registry.lookup m.header.serialization = some codec)
      (hvalue : m.metadata = some value)
      (hcause : codec.encode Metadata.capabilities value = .error cause) :
      EncodesTo registry m (.error (.ofCodec .metadata cause))
  | encoded {codec : Codec} {segment : Bytes}
      (hcompression : m.header.compression.code = 0 ∨ m.header.compression.code = 1)
      (hlookup : registry.lookup m.header.serialization = some codec)
      (hsegment : codec.encodeMetadata m.metadata = .ok segment) : EncodesTo registry m (.ok ())

end Settings

/-! ## Metadata -/

namespace Codec

variable {codec : Codec}

theorem decodeMetadata_eq_error_iff {segment : Bytes} {e : WireError} :
    codec.decodeMetadata segment = .error e ↔
      segment ≠ [] ∧ ∃ cause, codec.decode Metadata.capabilities segment = .error cause ∧
        e = .ofCodec .metadata cause := by
  unfold decodeMetadata
  by_cases hempty : segment = []
  · simp [hempty]
  · have hpresent : segment.isEmpty = false := by simpa using hempty
    simp only [hpresent, Bool.false_eq_true, if_false]
    cases codec.decode Metadata.capabilities segment <;> simp [hempty, eq_comm]

end Codec

namespace Frame

variable {registry : Registry} {frame : Frame}

theorem toMessage_of_reads {metadata : Option Metadata} (h : registry.Reads frame metadata) :
    frame.toMessage registry = .ok ⟨frame.header, metadata, frame.payload⟩ := by
  obtain ⟨codec, hlookup, hdecode⟩ := h
  exact toMessage_eq_ok_iff.2 ⟨codec, metadata, hlookup, hdecode, rfl⟩

theorem toMessage_of_withCodec_error {e : WireError}
    (h : registry.withCodec frame.header.serialization (·.decodeMetadata frame.metadata) =
      .error e) : frame.toMessage registry = .error e := by
  rw [toMessage, h]
  rfl

end Frame

/-! ## Compression -/

namespace Layer

variable {level : Nat} {limit : UInt32} {m : Message}

theorem decompressed_of_code_zero (limit : UInt32) (hcode : m.header.compression.code = 0) :
    decompressed limit m = .ok none := by
  simp only [decompressed, Compression.normalized, hcode]
  rfl

theorem decompressed_of_code_one (limit : UInt32) (hcode : m.header.compression.code = 1) :
    decompressed limit m =
      match Gzip.decompress limit.toNat m.payload with
      | .ok payload => .ok (some payload)
      | .error (.overLimit size) => .error (.sizeOverflow .payload size)
      | .error (.damaged fault) => .error (.compression fault.transportError) := by
  simp only [decompressed, Compression.normalized, hcode]
  rfl

theorem decompressed_of_code_other (limit : UInt32) (hplain : m.header.compression.code ≠ 0)
    (hgzip : m.header.compression.code ≠ 1) :
    decompressed limit m = .error (.unsupportedCompression m.header.compression.code) := by
  simp only [decompressed, normalized_of_code_other hplain hgzip]

theorem result_unwrap_compress (level : Nat) (limit : UInt32) (m : Message) :
    ((compress level limit).unwrap m).result =
      (decompressed limit m).map fun payload => payload.elim m (withPayload m) := by
  simp only [unwrap]
  rcases decompressed limit m with e | _ | payload <;> rfl

theorem withPayload_eq_self (hm : m.IsSized) : withPayload m m.payload = m := by
  rw [withPayload, ← hm, UInt32.ofNat_toNat]

theorem unwrap_encrypt_of_open {key : Cipher.Key} {opened : Bytes} (hm : m.IsSized)
    (hopened : Cipher.openPayload? key m.id m.payload = some opened) :
    (encrypt key).unwrap m = ⟨.ok (withPayload m opened), []⟩ := by
  have hfits := sizesFit_of_isSized (encrypt key) hm opened hopened
  simp only [unwrap, hopened, hfits]

theorem unwrap_encrypt_of_sealed {key : Cipher.Key}
    (hsealed : Cipher.openPayload? key m.id m.payload = none) :
    (encrypt key).unwrap m =
      ⟨.error .decryption, [unwrapFailure m "payload failed authentication"]⟩ := by
  simp only [unwrap, hsealed]

end Layer

/-! ## Decoding -/

namespace Settings

open Stack Layer

variable {settings : Settings} {registry : Registry} {frame : Frame}

theorem finish_of_opens {metadata : Option Metadata} {opened : Bytes}
    (hsized : frame.header.payloadSize.toNat = frame.payload.length)
    (hmetadata : registry.Reads frame metadata) (hopened : settings.Opens frame opened) :
    ((settings.stack registry).finish (frame.toMessage registry)).result =
      (Layer.decompressed settings.limit
        (withPayload ⟨frame.header, metadata, frame.payload⟩ opened)).map fun content =>
          withPayload ⟨frame.header, metadata, frame.payload⟩ (content.getD opened) := by
  let framed : Message := ⟨frame.header, metadata, frame.payload⟩
  have hframed : framed.IsSized := hsized
  -- With the seal off, if there is one, the compressing layer alone is left.
  have hinner : (unwrapAll settings.layers framed).result =
      ((compress defaultLevel settings.limit).unwrap (withPayload framed opened)).result := by
    have hlast (m : Message) : unwrapAll [.compress defaultLevel settings.limit] m =
        (compress defaultLevel settings.limit).unwrap m :=
      Traced.andThen_eq_self fun _ _ => rfl
    unfold layers
    unfold Opens at hopened
    cases hkey : settings.key with
    | none =>
      rw [hkey] at hopened
      obtain rfl : opened = framed.payload := hopened
      rw [withPayload_eq_self hframed]
      exact congrArg Traced.result (hlast framed)
    | some key =>
      rw [hkey] at hopened
      have hunwrap := unwrap_encrypt_of_open (m := framed) hframed hopened
      simp only [Option.toList_some, List.map_cons, List.map_nil, List.cons_append,
        List.nil_append, unwrapAll, hunwrap]
      exact congrArg Traced.result (hlast (withPayload framed opened))
  rw [Frame.toMessage_of_reads hmetadata]
  change (unwrapAll settings.layers framed).result = _
  rw [hinner, result_unwrap_compress]
  rcases Layer.decompressed settings.limit (withPayload framed opened) with e | _ | content <;> rfl

theorem finish_of_decodesTo {r : Except WireError Message}
    (hsized : frame.header.payloadSize.toNat = frame.payload.length)
    (h : settings.DecodesTo registry frame r) :
    ((settings.stack registry).finish (frame.toMessage registry)).result = r := by
  cases h with
  | unregistered hlookup =>
    rw [Frame.toMessage_of_withCodec_error (Frame.withCodec_eq_error_iff.2 (Or.inl ⟨hlookup, rfl⟩))]
    rfl
  | @metadata codec cause hlookup hpresent hcause =>
    have hrefused : codec.decodeMetadata frame.metadata = .error (.ofCodec .metadata cause) :=
      Codec.decodeMetadata_eq_error_iff.2 ⟨hpresent, cause, hcause, rfl⟩
    rw [Frame.toMessage_of_withCodec_error
      (Frame.withCodec_eq_error_iff.2 (Or.inr ⟨codec, hlookup, hrefused⟩))]
    rfl
  | @decryption metadata key hmetadata hkey hsealed =>
    have hunwrap :=
      unwrap_encrypt_of_sealed (m := ⟨frame.header, metadata, frame.payload⟩) hsealed
    rw [Frame.toMessage_of_reads hmetadata]
    change (unwrapAll settings.layers ⟨frame.header, metadata, frame.payload⟩).result = _
    simp only [layers, hkey, Option.toList_some, List.map_cons, List.map_nil, List.cons_append,
      List.nil_append, unwrapAll, hunwrap]
    rfl
  | unknownCompression hmetadata hopened hplain hgzip =>
    rw [finish_of_opens hsized hmetadata hopened,
      decompressed_of_code_other _ hplain hgzip]
    rfl
  | damaged hmetadata hopened hgzip hmember =>
    rw [finish_of_opens hsized hmetadata hopened, decompressed_of_code_one _ hgzip,
      payload_withPayload, hmember]
    rfl
  | overLimit hmetadata hopened hgzip hmember =>
    rw [finish_of_opens hsized hmetadata hopened, decompressed_of_code_one _ hgzip,
      payload_withPayload, hmember]
    rfl
  | plain hmetadata hopened hplain =>
    rw [finish_of_opens hsized hmetadata hopened, decompressed_of_code_zero _ hplain]
    rfl
  | decompressed hmetadata hopened hgzip hmember =>
    rw [finish_of_opens hsized hmetadata hopened, decompressed_of_code_one _ hgzip,
      payload_withPayload, hmember]
    rfl

theorem opens_or_sealed (settings : Settings) (frame : Frame) :
    (∃ opened, settings.Opens frame opened) ∨
      ∃ key, settings.key = some key ∧
        Cipher.openPayload? key frame.header.messageId frame.payload = none := by
  unfold Opens
  cases settings.key with
  | none => exact Or.inl ⟨_, rfl⟩
  | some key =>
    cases hopened : Cipher.openPayload? key frame.header.messageId frame.payload with
    | none => exact Or.inr ⟨key, rfl, hopened⟩
    | some opened => exact Or.inl ⟨opened, hopened⟩

theorem exists_decodesTo (settings : Settings) (registry : Registry) (frame : Frame) :
    ∃ r, settings.DecodesTo registry frame r := by
  cases hlookup : registry.lookup frame.header.serialization with
  | none => exact ⟨_, .unregistered hlookup⟩
  | some codec =>
  cases hdecode : codec.decodeMetadata frame.metadata with
  | error e =>
    obtain ⟨hpresent, cause, hcause, -⟩ := Codec.decodeMetadata_eq_error_iff.1 hdecode
    exact ⟨_, .metadata hlookup hpresent hcause⟩
  | ok metadata =>
  have hmetadata : registry.Reads frame metadata := ⟨codec, hlookup, hdecode⟩
  rcases settings.opens_or_sealed frame with ⟨opened, hopened⟩ | ⟨key, hkey, hsealed⟩
  · by_cases hplain : frame.header.compression.code = 0
    · exact ⟨_, .plain hmetadata hopened hplain⟩
    by_cases hgzip : frame.header.compression.code = 1
    · cases hmember : Gzip.decompress settings.limit.toNat opened with
      | ok content => exact ⟨_, .decompressed hmetadata hopened hgzip hmember⟩
      | error refusal =>
        cases refusal with
        | overLimit size =>
          obtain rfl := Gzip.size_of_decompress hmember
          exact ⟨_, .overLimit hmetadata hopened hgzip hmember⟩
        | damaged fault => exact ⟨_, .damaged hmetadata hopened hgzip hmember⟩
    · exact ⟨_, .unknownCompression hmetadata hopened hplain hgzip⟩
  · exact ⟨_, .decryption hmetadata hkey hsealed⟩

theorem decodesTo_iff {r : Except WireError Message}
    (hsized : frame.header.payloadSize.toNat = frame.payload.length) :
    ((settings.stack registry).finish (frame.toMessage registry)).result = r ↔
      settings.DecodesTo registry frame r := by
  constructor
  · rintro rfl
    obtain ⟨r, hr⟩ := exists_decodesTo settings registry frame
    rw [finish_of_decodesTo hsized hr]
    exact hr
  · exact finish_of_decodesTo hsized

/-- The failures that the stack may report when it decodes: not those of a buffer, of a version or
of sealing, and of those of a size only the one of the limit. -/
def MayReport (settings : Settings) : WireError → Prop
  | .incompleteHeader _ _ | .unsupportedVersion _ | .encryption => False
  | .sizeOverflow segment size => segment = .payload ∧ size = settings.limit.toNat + 1
  | _ => True

variable {e : WireError}

theorem mayReport_of_decodesTo (h : settings.DecodesTo registry frame (.error e)) :
    settings.MayReport e := by
  cases h with
  | @metadata codec cause _ _ _ => cases cause <;> trivial
  | overLimit => exact ⟨rfl, rfl⟩
  | unregistered | decryption | unknownCompression | damaged => trivial

theorem mayReport_of_frameLayout_refused {front : Bytes}
    (h : settings.framing.frameLayout.Refused front e) : settings.MayReport e := by
  rcases h with (⟨_, _, -, -, rfl⟩ | ⟨_, fields, _, rfl, rfl, hfields⟩) |
    ⟨_, _, _, _, _, h | ⟨_, _, _, _, _, h | ⟨_, _, _, _, _, h⟩⟩⟩
  · trivial
  · obtain ⟨-, rfl⟩ := Framing.compact_of_fieldsLayout_refused hfields
    trivial
  · exact h.elim
  · exact h.elim
  · exact h.elim

theorem mayReport_of_decodeBytes {bytes : Bytes}
    (he : ((settings.stack registry).decodeBytes bytes).1.result = .error e) :
    settings.MayReport e := by
  rcases settings.framing.frameIntake_follows.covers bytes with
    ⟨front, rest, frame, rfl, hframe⟩ | ⟨front, rest, e', rfl, hfront⟩ | ⟨s, hs⟩
  · obtain ⟨_, -, -, -, hsized⟩ := Framing.parts_of_frameLayout hframe
    rw [decodeBytes_form hframe] at he
    exact mayReport_of_decodesTo ((decodesTo_iff hsized).1 he)
  · have hrefused := decodeBytes_refused (t := settings.stack registry) hfront rest
    rw [hrefused] at he
    cases he
    exact mayReport_of_frameLayout_refused hfront
  · obtain ⟨size, received, hrun⟩ := decodeBytes_unfinished (t := settings.stack registry) hs
    rw [hrun] at he
    cases he
    trivial

theorem mayReport_of_decode {source : Source}
    (he : ((settings.stack registry).decode source).1.result = .error e) :
    settings.MayReport e := by
  rcases (settings.stack registry).decode_agrees source with
    ⟨_, -, hbytes⟩ | ⟨segment, cause, hfailed⟩
  · have hdecoded : ((settings.stack registry).decodeBytes source.pending).1.result = .error e := by
      rw [hbytes]
      exact he
    exact mayReport_of_decodeBytes hdecoded
  · rw [he] at hfailed
    cases hfailed
    trivial

end Settings

/-! ## Encoding -/

namespace Settings

open Stack Layer

variable {settings : Settings} {registry : Registry} {nonces : Nonces} {m : Message}

theorem any_isCompressing (settings : Settings) : settings.layers.any isCompressing = true := by
  simp [layers, isCompressing]

/-- The segments of the message, as they go onto the stream, fit their size fields. -/
structure SegmentsFit (settings : Settings) (registry : Registry) (nonces : Nonces) (m : Message) :
    Prop where
  metadata : ∀ codec segment, registry.lookup m.header.serialization = some codec →
    codec.encodeMetadata m.metadata = .ok segment → segment.length < UInt32.size
  payload : ∀ inner, (wrapAll nonces 0 settings.layers m).result = .ok inner →
    inner.payload.length < UInt32.size

theorem exists_wrapAll_layers (settings : Settings) (nonces : Nonces)
    (hcompression : m.header.compression.code = 0 ∨ m.header.compression.code = 1) :
    ∃ content, (wrapAll nonces 0 settings.layers m).result = .ok { m with payload := content } := by
  obtain ⟨inner, hwrap⟩ := exists_wrapAll_eq_ok nonces 0 fun _ => hcompression
  refine ⟨inner.payload, ?_⟩
  rw [← eq_of_wrapAll hwrap]
  exact hwrap

theorem frameOf_of_codec_error (settings : Settings) (nonces : Nonces) {e : WireError}
    (hcompression : m.header.compression.code = 0 ∨ m.header.compression.code = 1)
    (he : registry.withCodec m.header.serialization (·.encodeMetadata m.metadata) = .error e) :
    (settings.stack registry).frameOf nonces m = .error e := by
  obtain ⟨content, hwrap⟩ := settings.exists_wrapAll_layers nonces hcompression
  exact bind_eq_error_iff.2 (Or.inr ⟨_, hwrap, Frame.ofMessage_eq_error_iff.2 (Or.inl he)⟩)

theorem encodeInPieces_of_encodesTo {r : Except WireError Unit}
    (hfit : settings.SegmentsFit registry nonces m) (h : EncodesTo registry m r)
    (pieces : List Delivery) :
    ((settings.stack registry).encodeInPieces nonces m pieces).1 = r := by
  cases h with
  | unknownCompression hplain hgzip =>
    have hframe : (settings.stack registry).frameOf nonces m =
        .error (.unsupportedCompression m.header.compression.code) :=
      bind_eq_error_iff.2 (Or.inl
        (wrapAll_of_code_other settings.any_isCompressing hplain hgzip))
    rw [encodeInPieces_of_frameOf_error hframe]
  | unregistered hcompression hlookup =>
    have hcodec := frameOf_of_codec_error settings nonces hcompression
      (Frame.withCodec_eq_error_iff.2 (Or.inl ⟨hlookup, rfl⟩))
    rw [encodeInPieces_of_frameOf_error hcodec]
  | @metadata codec value cause hcompression hlookup hvalue hcause =>
    have hrefused : codec.encodeMetadata m.metadata = .error (.ofCodec .metadata cause) :=
      Codec.encodeMetadata_eq_error_iff.2 ⟨value, cause, hvalue, hcause, rfl⟩
    have hcodec := frameOf_of_codec_error settings nonces hcompression
      (Frame.withCodec_eq_error_iff.2 (Or.inr ⟨codec, hlookup, hrefused⟩))
    rw [encodeInPieces_of_frameOf_error hcodec]
  | @encoded codec segment hcompression hlookup hsegment =>
    obtain ⟨content, hwrap⟩ := settings.exists_wrapAll_layers nonces hcompression
    have hframe := frameOf_eq_ok_iff (s := settings.stack registry).2 ⟨_, hwrap,
      Frame.ofMessage_eq_ok_iff.2 ⟨codec, segment, hlookup, hsegment,
        hfit.metadata codec segment hlookup hsegment, hfit.payload _ hwrap, rfl⟩⟩
    rw [encodeInPieces_of_frameOf hframe]

theorem exists_encodesTo (registry : Registry) (m : Message) : ∃ r, EncodesTo registry m r := by
  by_cases hcompression : m.header.compression.code = 0 ∨ m.header.compression.code = 1
  · cases hlookup : registry.lookup m.header.serialization with
    | none => exact ⟨_, .unregistered hcompression hlookup⟩
    | some codec =>
    cases hencode : codec.encodeMetadata m.metadata with
    | error e =>
      obtain ⟨value, cause, hvalue, hcause, -⟩ := Codec.encodeMetadata_eq_error_iff.1 hencode
      exact ⟨_, .metadata hcompression hlookup hvalue hcause⟩
    | ok segment => exact ⟨_, .encoded hcompression hlookup hencode⟩
  · push Not at hcompression
    exact ⟨_, .unknownCompression hcompression.1 hcompression.2⟩

theorem encodesTo_iff {r : Except WireError Unit}
    (hfit : settings.SegmentsFit registry nonces m) (pieces : List Delivery) :
    ((settings.stack registry).encodeInPieces nonces m pieces).1 = r ↔ EncodesTo registry m r := by
  constructor
  · rintro rfl
    obtain ⟨r, hr⟩ := exists_encodesTo registry m
    rw [encodeInPieces_of_encodesTo hfit hr]
    exact hr
  · exact fun h => encodeInPieces_of_encodesTo hfit h pieces

/-! ## Both ways -/

/-- What comes of a complete frame, and of a message whose segments fit their size fields and whose
sink does not fail, is the first that applies.  Whatever a source holds and wherever it fails, no
failure is reported for a buffer, a version or the sealing of a payload, and none for a size but
that of the limit. -/
theorem outcome_is_first_that_applies (settings : Settings) (registry : Registry) :
    (∀ front frame rest pieces r, settings.framing.frameLayout.Form front frame →
      (((settings.stack registry).decodeInPieces (front ++ rest) pieces).1 = r ↔
        settings.DecodesTo registry frame r)) ∧
    (∀ source e, ((settings.stack registry).decode source).1.result = .error e →
      settings.MayReport e) ∧
    ∀ nonces m pieces r, settings.SegmentsFit registry nonces m →
      (((settings.stack registry).encodeInPieces nonces m pieces).1 = r ↔
        EncodesTo registry m r) := by
  refine ⟨?_, fun _ _ => mayReport_of_decode, fun _ _ pieces _ hfit => encodesTo_iff hfit pieces⟩
  intro front frame rest pieces r hframe
  obtain ⟨_, -, -, -, hsized⟩ := Framing.parts_of_frameLayout hframe
  rw [decodeInPieces_eq]
  simp only [decodeBytes_form (t := settings.stack registry) hframe rest]
  exact decodesTo_iff hsized

def twiceWrong : Frame where
  header := { Header.new .request (.custom 9) 7 with compression := .other 5, payloadSize := 1 }
  metadata := []
  payload := [0x1F]

theorem outcome_is_first_that_applies_twiceWrong :
    ((({} : Settings).stack .builtin).decodeInPieces (twiceWrong.bytes .fixed ++ [1])
        [.upTo 3, .interrupted]).1 = .error (.unsupportedSerializer 9 .metadata) ∧
      (∀ e, ((({} : Settings).stack .builtin).decode
          { pending := [0x3F], failure := some ⟨1, ⟨.brokenPipe, none⟩⟩ }).1.result = .error e →
        ({} : Settings).MayReport e) ∧
      ((({} : Settings).stack .builtin).encodeInPieces .ofCounter
        ⟨twiceWrong.header, none, twiceWrong.payload⟩ [.upTo 1]).1 =
          .error (.unsupportedCompression 5) := by
  obtain ⟨hdecode, hreport, hencode⟩ := outcome_is_first_that_applies {} .builtin
  have hsound : twiceWrong.IsSound := ⟨rfl, rfl, rfl⟩
  refine ⟨?_, hreport _, ?_⟩
  · exact (hdecode _ _ [1] _ _ (Frame.bytes_form hsound .fixed)).2 (.unregistered rfl)
  · refine (hencode .ofCounter _ _ _ ⟨fun codec segment hlookup => ?_, fun inner hwrap => ?_⟩).2
      (.unknownCompression (by decide) (by decide))
    · cases hlookup
    · cases hwrap

end Settings

end Courier
