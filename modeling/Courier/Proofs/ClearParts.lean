import Courier.Proofs.Framings
import Courier.Proofs.HeaderFields
import Courier.Proofs.Writing
/-!
# What layers leave in clear

Whatever layers lie on a framing, a message is framed as it is but for its payload.  So on the wire
all that stands in front of the size of the payload, and the metadata, are what the framing alone
makes of the message (`Stack.encode_replaces_payload`).
-/

namespace Courier

namespace Traced

theorem andThen_eq_self {α : Type} {t : Traced (Except WireError α)}
    {f : α → Traced (Except WireError α)}
    (hf : ∀ a, t.result = .ok a → f a = ⟨.ok a, []⟩) : t.andThen f = t := by
  obtain ⟨result, log⟩ := t
  cases result with
  | error e => rfl
  | ok a => simp [andThen, hf a rfl]

end Traced

/-! ## Layers -/

namespace Layer

variable {layer : Layer} {nonce : Cipher.Nonce} {m inner : Message}

theorem compress_wrap_of_code_zero (level : Nat) (limit : UInt32) (nonce : Cipher.Nonce)
    (hcode : m.header.compression.code = 0) :
    (compress level limit).wrap nonce m = ⟨.ok m, []⟩ := by
  simp only [wrap, Compression.normalized, hcode]
  rfl

theorem length_wrap (hcode : m.header.compression.code = 0)
    (hwrap : (layer.wrap nonce m).result = .ok inner) :
    inner.payload.length = m.payload.length + if layer.isSealing then 28 else 0 := by
  cases layer with
  | compress level limit =>
    rw [compress_wrap_of_code_zero level limit nonce hcode] at hwrap
    cases hwrap
    rfl
  | encrypt key =>
    cases hwrap
    exact Cipher.length_sealPayload ..

end Layer

namespace Stack

open Layer

variable {nonces : Nonces} {seals : Nat} {layers : List Layer} {m inner : Message}

/-- A layer that compresses nothing may be left out, wherever it is. -/
theorem wrapAll_without_compress (below : List Layer) (level : Nat) (limit : UInt32)
    (outer : List Layer) (hcode : m.header.compression.code = 0) :
    wrapAll nonces seals (below ++ .compress level limit :: outer) m =
      wrapAll nonces seals (below ++ outer) m := by
  induction below generalizing seals with
  | nil =>
    refine Traced.andThen_eq_self fun handed hhanded => ?_
    apply compress_wrap_of_code_zero
    rw [(wrapAll_eq_ok hhanded).1]
    exact hcode
  | cons layer below ih => simp only [List.cons_append, wrapAll, ih]

theorem length_wrapAll (hcode : m.header.compression.code = 0)
    (hwrap : (wrapAll nonces seals layers m).result = .ok inner) :
    inner.payload.length = m.payload.length + 28 * layers.countP isSealing := by
  induction layers generalizing seals inner with
  | nil =>
    cases hwrap
    rfl
  | cons layer outer ih =>
    obtain ⟨handed, houter, hlayer⟩ := Traced.andThen_eq_ok_iff.1 hwrap
    have hhanded : handed.header.compression.code = 0 := by
      rw [(wrapAll_eq_ok houter).1]
      exact hcode
    rw [length_wrap hhanded hlayer, ih houter, List.countP_cons]
    split <;> omega

theorem eq_of_wrapAll (hwrap : (wrapAll nonces seals layers m).result = .ok inner) :
    inner = { m with payload := inner.payload } := by
  obtain ⟨hheader, hmetadata⟩ := wrapAll_eq_ok hwrap
  rw [← hheader, ← hmetadata]

end Stack

/-! ## Frames -/

namespace Frame

variable {registry : Registry} {m : Message}

theorem bytes_of_ofMessage {frame : Frame} (hframe : ofMessage registry m = .ok frame)
    (f : Framing) {content : Bytes} (hcontent : content.length < UInt32.size) :
    ∃ frame', ofMessage registry { m with payload := content } = .ok frame' ∧
      frame'.bytes f = f.frontBytes frame.header ++
        f.sizeBytes (UInt32.ofNat content.length) ++ frame.metadata ++ content := by
  obtain ⟨codec, metadata, hlookup, hencode, hmetadata, -, rfl⟩ := ofMessage_eq_ok_iff.1 hframe
  refine ⟨_, ofMessage_eq_ok_iff.2
    ⟨codec, metadata, hlookup, hencode, hmetadata, hcontent, rfl⟩, ?_⟩
  rw [bytes_eq, Framing.headerBytes_eq]
  simp only [List.append_assoc]
  rfl

theorem ofMessage_error_of_payload {e : WireError} (he : ofMessage registry m = .error e)
    (hcause : ∀ size, e ≠ .sizeOverflow .payload size) (content : Bytes) :
    ofMessage registry { m with payload := content } = .error e := by
  rcases ofMessage_eq_error_iff.1 he with hcodec | ⟨metadata, hcodec, hsize | ⟨-, -, rfl⟩⟩
  · exact ofMessage_eq_error_iff.2 (Or.inl hcodec)
  · exact ofMessage_eq_error_iff.2 (Or.inr ⟨metadata, hcodec, Or.inl hsize⟩)
  · exact absurd rfl (hcause _)

end Frame

namespace Stack

open Layer

/-- The wire form of a message is what the framing alone makes of it, but for the payload and its
size: in front of the size of the payload, and in the metadata, stand the bytes that the framing
puts there whatever the payload is.  For a message that is not compressed the compressing layers
do nothing, and the payload grows by what the sealing layers add.  What the framing refuses, but
for the length of its payload, is refused under any layers.  -/
theorem encode_replaces_payload (s : Stack) (nonces : Nonces) (m : Message) :
    (∀ wire, (s.encodeToBytes nonces m).result = .ok wire →
      ∃ (front metadata payload : Bytes) (h : Header),
        wire = front ++ s.framing.sizeBytes (UInt32.ofNat payload.length) ++ metadata ++ payload ∧
        s.framing.headerLayout.Form
          (front ++ s.framing.sizeBytes (UInt32.ofNat payload.length)) h ∧
        h.metadataSize.toNat = metadata.length ∧ h.payloadSize.toNat = payload.length ∧
        (∀ nonces' content, content.length < UInt32.size →
          ((s.framing.bare s.registry).encodeToBytes nonces' { m with payload := content }).result =
            .ok (front ++ s.framing.sizeBytes (UInt32.ofNat content.length) ++ metadata ++
              content)) ∧
        (m.header.compression.code = 0 →
          payload.length = m.payload.length + 28 * s.layers.countP isSealing)) ∧
    (∀ below level limit outer, s.layers = below ++ .compress level limit :: outer →
      m.header.compression.code = 0 → ∀ sink,
        s.encode nonces m sink = { s with layers := below ++ outer }.encode nonces m sink) ∧
    ∀ nonces' e, ((s.framing.bare s.registry).encodeToBytes nonces' m).result = .error e →
      (∀ size, e ≠ .sizeOverflow .payload size) →
        ∃ e', (s.encodeToBytes nonces m).result = .error e' ∧
          (e' = e ∨ ∃ code, e' = .unsupportedCompression code) := by
  refine ⟨?_, ?_, ?_⟩
  · intro wire hwire
    obtain ⟨frame, hframe, rfl⟩ := encodeToBytes_eq_ok_iff.1 hwire
    have hsound := frameOf_isSound hframe
    obtain ⟨inner, hwrap, hinner⟩ := frameOf_eq_ok_iff.1 hframe
    have hsize : frame.header.payloadSize = UInt32.ofNat frame.payload.length := by
      rw [← hsound.payload, UInt32.ofNat_toNat]
    refine ⟨s.framing.frontBytes frame.header, frame.metadata, frame.payload,
      frame.header.normalized, ?_, ?_, hsound.metadata, hsound.payload, ?_, ?_⟩
    · rw [Frame.bytes_eq, Framing.headerBytes_eq, hsize]
      simp only [List.append_assoc]
    · rw [← hsize, ← Framing.headerBytes_eq]
      exact s.framing.headerBytes_form hsound.magic
    · intro nonces' content hcontent
      obtain ⟨frame', hframe', hbytes⟩ := Frame.bytes_of_ofMessage hinner s.framing hcontent
      rw [eq_of_wrapAll hwrap] at hframe'
      exact encodeToBytes_eq_ok_iff.2 ⟨frame', hframe', hbytes.symm⟩
    · intro hcode
      obtain ⟨_, _, -, -, -, -, rfl⟩ := Frame.ofMessage_eq_ok_iff.1 hinner
      exact length_wrapAll hcode hwrap
  · intro below level limit outer hlayers hcode sink
    simp only [encode, hlayers, wrapAll_without_compress below level limit outer hcode]
    rfl
  · intro nonces' e he hcause
    have hbare : Frame.ofMessage s.registry m = .error e := encodeToBytes_eq_error_iff.1 he
    cases hwrap : (wrapAll nonces 0 s.layers m).result with
    | error e' =>
      refine ⟨e', encodeToBytes_eq_error_iff.2 ?_, Or.inr (wrapAll_eq_error hwrap)⟩
      rw [frameOf, hwrap]
      rfl
    | ok inner =>
      refine ⟨e, encodeToBytes_eq_error_iff.2 ?_, Or.inl rfl⟩
      rw [frameOf, hwrap, eq_of_wrapAll hwrap]
      exact Frame.ofMessage_error_of_payload hbare hcause inner.payload

theorem encode_replaces_payload_reply :
    (∃ wire front metadata payload : Bytes,
      ((sample 6 64).encodeToBytes .ofCounter (.response 7 .json none [1, 2, 3])).result =
        .ok wire ∧
      wire = front ++ Framing.compact.sizeBytes (UInt32.ofNat payload.length) ++ metadata ++
        payload ∧
      payload.length = 31 ∧
      ((Framing.compact.bare .builtin).encodeToBytes .ofCounter
          (.response 7 .json none [1, 2, 3])).result =
        .ok (front ++ Framing.compact.sizeBytes 3 ++ metadata ++ [1, 2, 3])) ∧
    (sample 6 64).encode .ofCounter (.response 7 .json none [1, 2, 3]) {} =
      { sample 6 64 with layers := [.encrypt sampleKey] }.encode .ofCounter
        (.response 7 .json none [1, 2, 3]) {} ∧
    ∃ e, ((sample 6 64).encodeToBytes .ofCounter (.response 7 (.custom 9) none [])).result =
      .error e := by
  obtain ⟨hwire, hremove, -⟩ :=
    encode_replaces_payload (sample 6 64) .ofCounter (.response 7 .json none [1, 2, 3])
  refine ⟨?_, hremove [] 6 64 [.encrypt sampleKey] rfl rfl {}, ?_⟩
  · obtain ⟨frame, hframe⟩ : ∃ frame,
        (sample 6 64).frameOf .ofCounter (.response 7 .json none [1, 2, 3]) = .ok frame := by
      refine ⟨_, frameOf_eq_ok_iff.2 ⟨_, rfl, Frame.ofMessage_eq_ok_iff.2
        ⟨.json, [], rfl, rfl, by decide, ?_, rfl⟩⟩⟩
      rw [Cipher.length_sealPayload]
      decide
    have hencoded := encodeToBytes_eq_ok_iff.2 ⟨frame, hframe, rfl⟩
    obtain ⟨front, metadata, payload, _, hsplit, -, -, -, hbare, hgrows⟩ := hwire _ hencoded
    exact ⟨_, front, metadata, payload, hencoded, hsplit, hgrows rfl,
      hbare .ofCounter [1, 2, 3] (by decide)⟩
  · obtain ⟨e, he, -⟩ :=
      (encode_replaces_payload (sample 6 64) .ofCounter (.response 7 (.custom 9) none [])).2.2
        .ofCounter _ rfl (by simp)
    exact ⟨e, he⟩

end Stack

end Courier
