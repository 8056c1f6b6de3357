import Courier.Proofs.FailingSources
import Courier.Proofs.HeaderFields
/-!
# What is decoded agrees with itself and with the wire

Whatever bytes a message is decoded from, its header says how long the payload is that comes with
it, and all else in the header is what stood on the wire (`Stack.decode_selfConsistent`).  The
sizes hold because no layer hands up a payload that is too long for a size field: a compressing
layer keeps to a limit that is itself such a size, and a sealing layer hands up less than it was
handed.
-/

namespace Courier

/-! ## Layers -/

namespace Message

def IsSized (m : Message) : Prop :=
  m.header.payloadSize.toNat = m.payload.length

theorem IsSized.length_lt {m : Message} (hm : m.IsSized) : m.payload.length < UInt32.size :=
  hm ▸ m.header.payloadSize.toNat_lt

end Message

namespace Layer

variable {layer : Layer} {m up : Message}

/-- Where the layer puts the size of a payload into the header, the payload is not too long. -/
def SizesFit (layer : Layer) (m : Message) : Prop :=
  match layer with
  | compress _ limit => ∀ content, decompressed limit m = .ok (some content) →
      (UInt32.ofNat content.length).toNat = content.length
  | encrypt key => ∀ content, Cipher.openPayload? key m.id m.payload = some content →
      sizeField .payload content = .ok (UInt32.ofNat content.length)

theorem length_le_of_decompressed {limit : UInt32} {content : Bytes}
    (h : decompressed limit m = .ok (some content)) : content.length ≤ limit.toNat := by
  unfold decompressed at h
  split at h
  · cases h
  · split at h
    next hread =>
      cases h
      exact (Gzip.startsWithMember_of_decompress hread).1
    · cases h
    · cases h
  · cases h

theorem sizesFit_of_isSized (layer : Layer) (hm : m.IsSized) : layer.SizesFit m := by
  cases layer with
  | compress level limit =>
    intro content hcontent
    exact UInt32.toNat_ofNat_of_lt' ((length_le_of_decompressed hcontent).trans_lt limit.toNat_lt)
  | encrypt key =>
    intro content hcontent
    have hlonger := Cipher.length_of_openPayload? hcontent
    have hfits := hm.length_lt
    exact Frame.sizeField_eq_ok_iff.2 ⟨by omega, rfl⟩

theorem unwrap_eq_ok (h : (layer.unwrap m).result = .ok up) :
    up = m ∨ ∃ payload : Bytes, payload.length < UInt32.size ∧ up = withPayload m payload := by
  cases layer with
  | compress level limit =>
    simp only [unwrap] at h
    split at h
    · cases h
      exact Or.inl rfl
    next payload hread =>
      cases h
      exact Or.inr ⟨payload, (length_le_of_decompressed hread).trans_lt limit.toNat_lt, rfl⟩
    · cases h
  | encrypt key =>
    simp only [unwrap] at h
    split at h
    · cases h
    next payload hopened =>
      split at h
      next hsize =>
        cases h
        exact Or.inr ⟨payload, (Frame.sizeField_eq_ok_iff.1 hsize).1, rfl⟩
      · cases h

theorem isSized_withPayload (m : Message) {payload : Bytes}
    (hpayload : payload.length < UInt32.size) :
    (withPayload m payload).IsSized :=
  UInt32.toNat_ofNat_of_lt' hpayload

end Layer

namespace Stack

open Layer

variable {t : Stack} {layers : List Layer} {m up : Message}

theorem unwrapAll_eq_ok (h : (unwrapAll layers m).result = .ok up) :
    up = m ∨ ∃ payload : Bytes, payload.length < UInt32.size ∧ up = withPayload m payload := by
  induction layers generalizing m with
  | nil =>
    cases h
    exact Or.inl rfl
  | cons layer outer ih =>
    obtain ⟨handed, hlayer, houter⟩ := Traced.andThen_eq_ok_iff.1 h
    rcases unwrap_eq_ok hlayer with rfl | ⟨payload, hpayload, rfl⟩
    · exact ih houter
    · rcases ih houter with rfl | ⟨payload', hpayload', rfl⟩
      · exact Or.inr ⟨payload, hpayload, rfl⟩
      · exact Or.inr ⟨payload', hpayload', rfl⟩

theorem isSized_of_unwrapAll (hm : m.IsSized) (h : (unwrapAll layers m).result = .ok up) :
    up.IsSized := by
  rcases unwrapAll_eq_ok h with rfl | ⟨payload, hpayload, rfl⟩
  · exact hm
  · exact isSized_withPayload m hpayload

end Stack

/-! ## Frames -/

namespace Framing

variable {f : Framing} {bytes rest : Bytes} {framed : Message}

theorem form_of_runBytes {registry : Registry}
    (h : (f.intake registry).runBytes bytes = (.ok framed, rest)) :
    ∃ front frame, bytes = front ++ rest ∧ f.frameLayout.Form front frame ∧
      frame.toMessage registry = .ok framed := by
  rcases f.frameIntake_follows.covers bytes with
    ⟨front, rest', frame, rfl, hframe⟩ | ⟨front, rest', e, rfl, hfront⟩ | ⟨s, hs⟩
  · rw [runBytes_intake_form hframe] at h
    simp only [Prod.mk.injEq] at h
    obtain ⟨hmessage, rfl⟩ := h
    exact ⟨front, frame, rfl, hframe, hmessage⟩
  · rw [runBytes_intake_refused hfront] at h
    cases h
  · obtain ⟨size, received, hrun⟩ := runBytes_intake_unfinished hs registry
    rw [hrun] at h
    cases h

theorem parts_of_frameLayout {front : Bytes} {frame : Frame}
    (hfront : f.frameLayout.Form front frame) :
    ∃ header, front = header ++ (frame.metadata ++ frame.payload) ∧
      f.headerLayout.Form header frame.header ∧
      frame.header.metadataSize.toNat = frame.metadata.length ∧
      frame.header.payloadSize.toNat = frame.payload.length := by
  obtain ⟨header, _, h, rfl, hheader, metadata, _, _, rfl, ⟨hmetadata, rfl⟩, payload, _, _, rfl,
    ⟨hpayload, rfl⟩, rfl, rfl⟩ := hfront
  exact ⟨header, by simp, hheader, hmetadata.symm, hpayload.symm⟩

end Framing

theorem Codec.eq_none_iff_of_decodeMetadata {codec : Codec} {segment : Bytes}
    {metadata : Option Metadata} (h : codec.decodeMetadata segment = .ok metadata) :
    metadata = none ↔ segment = [] := by
  unfold decodeMetadata at h
  split at h
  next hempty =>
    cases h
    simpa using hempty
  next hnonempty =>
    split at h
    · cases h
      simpa using hnonempty
    · cases h

namespace Stack

open Layer

variable {t : Stack} {m : Message}

/-- Behind a message that is decoded stands a frame, of which a message comes that the layers hand
up. -/
theorem frame_of_decodeBytes {bytes : Bytes} (hm : (t.decodeBytes bytes).1.result = .ok m) :
    ∃ front frame framed, bytes = front ++ (t.decodeBytes bytes).2 ∧
      t.framing.frameLayout.Form front frame ∧ frame.toMessage t.registry = .ok framed ∧
      (unwrapAll t.layers framed).result = .ok m := by
  rcases hrun : (t.framing.intake t.registry).runBytes bytes with ⟨result, rest⟩
  rw [decodeBytes, hrun] at hm ⊢
  obtain ⟨framed, rfl, hlayers⟩ := Traced.andThen_eq_ok_iff.1 hm
  obtain ⟨front, frame, hsplit, hframe, hmessage⟩ := Framing.form_of_runBytes hrun
  exact ⟨front, frame, framed, hsplit, hframe, hmessage, hlayers⟩

theorem frame_of_decode {source : Source} (hm : (t.decode source).1.result = .ok m) :
    ∃ front frame framed, source.pending = front ++ (t.decode source).2.pending ∧
      t.framing.frameLayout.Form front frame ∧ frame.toMessage t.registry = .ok framed ∧
      (unwrapAll t.layers framed).result = .ok m := by
  have hbytes := (decodeBytes_of_decode hm).2
  have hm' : (t.decodeBytes source.pending).1.result = .ok m := by rw [hbytes, hm]
  have hframe := frame_of_decodeBytes hm'
  rwa [hbytes] at hframe

theorem isSized_of_toMessage {f : Framing} {registry : Registry} {front : Bytes} {frame : Frame}
    (hframe : f.frameLayout.Form front frame) (hm : frame.toMessage registry = .ok m) :
    m.IsSized := by
  obtain ⟨_, -, -, -, hpayload⟩ := Framing.parts_of_frameLayout hframe
  obtain ⟨_, _, -, -, rfl⟩ := Frame.toMessage_eq_ok_iff.1 hm
  exact hpayload

theorem frame_of_run {source : Source} {framed : Message}
    (hframed : ((t.framing.intake t.registry).run source).1 = .ok framed) :
    ∃ front frame,
      source.pending = front ++ ((t.framing.intake t.registry).run source).2.pending ∧
      t.framing.frameLayout.Form front frame ∧ frame.toMessage t.registry = .ok framed := by
  rcases (t.framing.intake t.registry).run_agrees source with
    ⟨_, -, hbytes⟩ | ⟨segment, cause, hfailed⟩
  · rw [hframed] at hbytes
    exact Framing.form_of_runBytes hbytes
  · rw [hframed] at hfailed
    cases hfailed

/-- A message that is decoded says how long its payload is and names its type codes.  Its version,
type codes, id and metadata are those of the frame at the front of the bytes, which is all that is
taken off them.  And no layer is handed a message of which it would hand up a payload that is too
long for a size field, whether the other layers go on to hand a message up or not.  -/
theorem decode_selfConsistent (t : Stack) (source : Source) :
    (∀ m, (t.decode source).1.result = .ok m →
      m.header.magic = Header.magicNumber ∧ m.header.payloadSize.toNat = m.payload.length ∧
      m.header.IsNamed ∧
      ∃ (id metadataSize payloadSize metadata payload : Bytes) (carried : UInt32),
        source.pending = [0x3F, 0x3F, m.header.version, m.header.messageType.code,
            m.header.compression.code, m.header.serialization.code] ++ id ++ metadataSize ++
          payloadSize ++ metadata ++ payload ++ (t.decode source).2.pending ∧
        t.framing.IdForm id m.header.messageId ∧
        t.framing.SizeForm metadataSize m.header.metadataSize ∧
        m.header.metadataSize.toNat = metadata.length ∧ (m.metadata = none ↔ metadata = []) ∧
        t.framing.SizeForm payloadSize carried ∧ carried.toNat = payload.length) ∧
    ∀ inner layer outer framed handed, t.layers = inner ++ layer :: outer →
      ((t.framing.intake t.registry).run source).1 = .ok framed →
      (unwrapAll inner framed).result = .ok handed → layer.SizesFit handed := by
  constructor
  · intro m hm
    have hbytes := (decodeBytes_of_decode hm).2
    have hm' : (t.decodeBytes source.pending).1.result = .ok m := by rw [hbytes, hm]
    obtain ⟨front, frame, framed, hsplit, hframe, hmessage, hlayers⟩ := frame_of_decodeBytes hm'
    have hsized := isSized_of_unwrapAll (isSized_of_toMessage hframe hmessage) hlayers
    obtain ⟨header, rfl, hheader, hmetadata, hpayload⟩ := Framing.parts_of_frameLayout hframe
    obtain ⟨hmagic, hnormal, id, metadataSize, payloadSize, rfl, hid, hmetadataSize,
        hpayloadSize⟩ :=
      Framing.fields_of_headerLayout hheader
    obtain ⟨codec, metadata, -, hdecode, rfl⟩ := Frame.toMessage_eq_ok_iff.1 hmessage
    -- Of the framed message the layers change the payload and its size alone.
    obtain ⟨size, payload, rfl⟩ : ∃ size payload,
        m = ⟨{ frame.header with payloadSize := size }, metadata, payload⟩ := by
      rcases unwrapAll_eq_ok hlayers with rfl | ⟨payload, -, rfl⟩
      · exact ⟨_, _, rfl⟩
      · exact ⟨_, _, rfl⟩
    rw [hbytes] at hsplit
    refine ⟨hmagic, hsized, ?_, id, metadataSize, payloadSize, frame.metadata, frame.payload,
      frame.header.payloadSize, ?_, hid, hmetadataSize, hmetadata,
      Codec.eq_none_iff_of_decodeMetadata hdecode, hpayloadSize, hpayload⟩
    · have hnamed := Header.isNamed_of_normalized hnormal
      exact ⟨hnamed.messageType, hnamed.compression, hnamed.serialization⟩
    · rw [hsplit, Header.leadBytes_eq hmagic]
      simp [Framing.magicBytes]
  · intro inner layer outer framed handed _ hframed hhanded
    obtain ⟨front, frame, -, hframe, hmessage⟩ := frame_of_run hframed
    exact sizesFit_of_isSized layer
      (isSized_of_unwrapAll (isSized_of_toMessage hframe hmessage) hhanded)

/-- A source that breaks behind a frame whose id and whose size are not in their shortest forms.
The message type has no name, and the payload is a member.  -/
def longForms : Source where
  pending := [0x3F, 0x3F, 1, 9, 1, 2, 0x87, 0x00, 0x00, 0x9A, 0x80, 0x00] ++
    [31, 139, 8, 0, 0, 0, 0, 0, 4, 255, 1, 3, 0, 252, 255, 1, 2, 3, 29, 128, 188, 85, 3, 0, 0, 0]
  schedule := [.interrupted, .upTo 2]
  failure := some ⟨38, ⟨.brokenPipe, none⟩⟩

theorem decode_selfConsistent_longForms :
    ∃ m framed,
      ((Stack.mk .compact .builtin [.defaultCompress]).decode longForms).1.result = .ok m ∧
      m.payload = [1, 2, 3] ∧ m.header.payloadSize.toNat = m.payload.length ∧ m.header.IsNamed ∧
      ((Framing.compact.intake .builtin).run longForms).1 = .ok framed ∧
      defaultCompress.SizesFit framed := by
  obtain ⟨hdecoded, hlayers⟩ :=
    decode_selfConsistent ⟨.compact, .builtin, [.defaultCompress]⟩ longForms
  obtain ⟨framed, hframed⟩ : ∃ framed,
      ((Framing.compact.intake .builtin).run longForms).1 = .ok framed := ⟨_, rfl⟩
  have hread : ((Stack.mk .compact .builtin [.defaultCompress]).decode longForms).1.result.map
      Message.payload = .ok [1, 2, 3] := by decide +kernel
  cases hm : ((Stack.mk .compact .builtin [.defaultCompress]).decode longForms).1.result with
  | error e =>
    rw [hm] at hread
    cases hread
  | ok m =>
    rw [hm] at hread
    obtain ⟨-, hsize, hnamed, -⟩ := hdecoded m hm
    exact ⟨m, framed, rfl, Except.ok.inj hread, hsize, hnamed, hframed,
      hlayers [] .defaultCompress [] framed framed rfl hframed rfl⟩

end Stack

end Courier
