import Courier.Proofs.ClearParts
import Courier.Proofs.Reports
import Courier.Settings
/-!
# Two messages side by side

What is encoded of two messages, by comparison.  Messages that say the same come to the same
bytes, whatever names their type codes go by and whatever their headers held in place of the magic
number and the sizes (`Stack.encode_eq_of_matches`).  Messages of one outline, sealed equally
often, come to the same but for the bytes of the payload segment (`Stack.encode_hides_payload`).

A layer keeps messages that match matching, and an outline that is not compressed an outline.  So
both are led back to what one framing makes of two messages of one outline: frames that begin
alike.
-/

namespace Courier

/-! ## What is compared -/

/-- The headers say the same: they may spell a type code differently, and their magic numbers and
sizes do not count. -/
structure Header.Matches (h h' : Header) : Prop where
  version : h.version = h'.version
  messageType : h.messageType.code = h'.messageType.code
  compression : h.compression.code = h'.compression.code
  serialization : h.serialization.code = h'.serialization.code
  messageId : h.messageId = h'.messageId

namespace Message

/-- The messages carry the same under headers that say the same. -/
structure Matches (m m' : Message) : Prop where
  header : m.header.Matches m'.header
  metadata : m.metadata = m'.metadata
  payload : m.payload = m'.payload

/-- The messages differ in nothing but what their payloads, of one length, consist of. -/
structure SameOutline (m m' : Message) : Prop where
  header : m.header.Matches m'.header
  metadata : m.metadata = m'.metadata
  length : m.payload.length = m'.payload.length

variable {m m' : Message}

theorem Matches.sameOutline (h : m.Matches m') : m.SameOutline m' :=
  ⟨h.header, h.metadata, congrArg List.length h.payload⟩

theorem SameOutline.id_eq (h : m.SameOutline m') : m.id = m'.id :=
  h.header.messageId

end Message

namespace Traced

variable {α β γ δ : Type} {R : α → β → Prop} {S : γ → δ → Prop}

/-- The steps report the same, and fail alike or come to related values. -/
inductive Alike (R : α → β → Prop) :
    Traced (Except WireError α) → Traced (Except WireError β) → Prop
  | error (e : WireError) (log : Log) : Alike R ⟨.error e, log⟩ ⟨.error e, log⟩
  | ok {a : α} {b : β} (log : Log) (h : R a b) : Alike R ⟨.ok a, log⟩ ⟨.ok b, log⟩

theorem Alike.andThen {t : Traced (Except WireError α)} {t' : Traced (Except WireError β)}
    {f : α → Traced (Except WireError γ)} {f' : β → Traced (Except WireError δ)}
    (ht : Alike R t t') (hf : ∀ a b, R a b → Alike S (f a) (f' b)) :
    Alike S (t.andThen f) (t'.andThen f') := by
  cases ht with
  | error e log => exact .error e log
  | @ok a b log h =>
    have hnext := hf a b h
    simp only [Traced.andThen]
    generalize f a = next, f' b = next' at hnext
    cases hnext with
    | error e later => exact .error e (log ++ later)
    | ok later h' => exact .ok (log ++ later) h'

end Traced

/-! ## Layers -/

theorem Layer.wrap_alike {m m' : Message} (layer : Layer) (nonce : Cipher.Nonce)
    (h : m.Matches m') :
    Traced.Alike Message.Matches (layer.wrap nonce m) (layer.wrap nonce m') := by
  have hid : m.id = m'.id := h.sameOutline.id_eq
  cases layer with
  | compress level limit =>
    simp only [wrap, compressedEvent, Compression.normalized, h.header.compression, h.payload, hid]
    split
    · exact .ok _ h
    · exact .ok _ ⟨h.header, h.metadata, rfl⟩
    · exact .error _ _
  | encrypt key =>
    simp only [wrap, h.payload, hid]
    exact .ok _ ⟨h.header, h.metadata, rfl⟩

namespace Stack

open Layer

variable {m m' : Message}

theorem wrapAll_alike (nonces : Nonces) (seals : Nat) (layers : List Layer) (h : m.Matches m') :
    Traced.Alike Message.Matches (wrapAll nonces seals layers m)
      (wrapAll nonces seals layers m') := by
  induction layers generalizing seals with
  | nil => exact .ok [] h
  | cons layer outer ih => exact (ih _).andThen fun _ _ => layer.wrap_alike (nonces seals)

theorem wrapAll_of_code_zero (nonces : Nonces) (seals : Nat) (layers : List Layer)
    (hcode : m.header.compression.code = 0) :
    ∃ inner, wrapAll nonces seals layers m = ⟨.ok inner, []⟩ ∧ inner.header = m.header ∧
      inner.metadata = m.metadata ∧
      inner.payload.length = m.payload.length + 28 * layers.countP isSealing := by
  have hknown : layers.any isCompressing = true →
      m.header.compression.code = 0 ∨ m.header.compression.code = 1 := fun _ => Or.inl hcode
  obtain ⟨inner, hwrap⟩ := exists_wrapAll_eq_ok nonces seals hknown
  have hlog : (wrapAll nonces seals layers m).log = [] :=
    log_wrapAll_of_code_ne_one (by rw [hcode]; decide)
  obtain ⟨hheader, hmetadata⟩ := wrapAll_eq_ok hwrap
  exact ⟨inner, by rw [← hwrap, ← hlog], hheader, hmetadata, length_wrapAll hcode hwrap⟩

theorem wrapAll_sameOutline {layers layers' : List Layer} (nonces nonces' : Nonces)
    (hseals : layers.countP isSealing = layers'.countP isSealing) (h : m.SameOutline m')
    (hcode : m.header.compression.code = 0) :
    ∃ inner inner', wrapAll nonces 0 layers m = ⟨.ok inner, []⟩ ∧
      wrapAll nonces' 0 layers' m' = ⟨.ok inner', []⟩ ∧ inner.SameOutline inner' ∧
      inner.payload.length = m.payload.length + 28 * layers.countP isSealing := by
  have hcode' : m'.header.compression.code = 0 := h.header.compression ▸ hcode
  obtain ⟨inner, hwrap, hheader, hmetadata, hsize⟩ := wrapAll_of_code_zero nonces 0 layers hcode
  obtain ⟨inner', hwrap', hheader', hmetadata', hsize'⟩ :=
    wrapAll_of_code_zero nonces' 0 layers' hcode'
  refine ⟨inner, inner', hwrap, hwrap', ⟨?_, ?_, ?_⟩, hsize⟩
  · rw [hheader, hheader']
    exact h.header
  · rw [hmetadata, hmetadata', h.metadata]
  · rw [hsize, hsize', h.length, hseals]

end Stack

/-! ## Frames -/

structure Header.WrittenAlike (h h' : Header) : Prop extends h.Matches h' where
  magic : h.magic = h'.magic
  metadataSize : h.metadataSize = h'.metadataSize
  payloadSize : h.payloadSize = h'.payloadSize

namespace Framing

variable {h h' : Header}

theorem headerBytes_eq_of_writtenAlike (f : Framing) (halike : h.WrittenAlike h') :
    f.headerBytes h = f.headerBytes h' := by
  have hlead : h.leadBytes = h'.leadBytes := by
    simp only [Header.leadBytes, halike.magic, halike.version, halike.messageType,
      halike.compression, halike.serialization]
  simp only [headerBytes_eq, frontBytes, hlead, halike.messageId, halike.metadataSize,
    halike.payloadSize]

theorem sizeFields_eq_of_writtenAlike (f : Framing) (halike : h.WrittenAlike h') :
    f.sizeFields h = f.sizeFields h' := by
  simp only [sizeFields, halike.messageId, halike.serialization, halike.metadataSize,
    halike.payloadSize]

theorem encodeEvent_eq_of_writtenAlike (f : Framing) (id : UInt64) (halike : h.WrittenAlike h')
    (result : Except WireError Unit) :
    f.encodeEvent id (result.map fun _ => h) = f.encodeEvent id (result.map fun _ => h') := by
  cases result with
  | error e => rfl
  | ok _ => exact congrArg (Event.mk .trace _) (f.sizeFields_eq_of_writtenAlike halike)

def SameButPayload (f : Framing) (size : Nat) (wire wire' : Bytes) : Prop :=
  ∃ (header metadata payload payload' : Bytes) (h : Header),
    wire = header ++ (metadata ++ payload) ∧ wire' = header ++ (metadata ++ payload') ∧
      f.headerLayout.Form header h ∧ h.metadataSize.toNat = metadata.length ∧
      h.payloadSize.toNat = size ∧ payload.length = size ∧ payload'.length = size

end Framing

namespace Frame

/-- The frames are the same but for the bytes of the payload. -/
structure SameFront (frame frame' : Frame) : Prop where
  header : frame.header.WrittenAlike frame'.header
  metadata : frame.metadata = frame'.metadata
  payload : frame.payload.length = frame'.payload.length

variable {m m' : Message} {frame frame' : Frame}

theorem SameFront.length_bytes (h : frame.SameFront frame') (f : Framing) :
    (frame.bytes f).length = (frame'.bytes f).length := by
  simp only [bytes_eq, List.length_append, f.headerBytes_eq_of_writtenAlike h.header, h.metadata,
    h.payload]

theorem SameFront.sameButPayload (h : frame.SameFront frame') (hframe : frame.IsSound)
    (f : Framing) :
    f.SameButPayload frame.payload.length (frame.bytes f) (frame'.bytes f) := by
  refine ⟨f.headerBytes frame.header, frame.metadata, frame.payload, frame'.payload,
    frame.header.normalized, bytes_eq frame f, ?_, f.headerBytes_form hframe.magic, hframe.metadata,
    hframe.payload, rfl, h.payload.symm⟩
  rw [bytes_eq, f.headerBytes_eq_of_writtenAlike h.header, h.metadata]

theorem SameFront.result_of_write (h : frame.SameFront frame') (f : Framing) (sink : Sink) :
    (frame.write f sink).1 = (frame'.write f sink).1 := by
  rw [write_result, write_result, h.length_bytes, f.headerBytes_eq_of_writtenAlike h.header,
    h.metadata]

theorem ofMessage_alike (registry : Registry) (h : m.SameOutline m') :
    (∃ e, ofMessage registry m = .error e ∧ ofMessage registry m' = .error e) ∨
      ∃ frame frame', ofMessage registry m = .ok frame ∧ ofMessage registry m' = .ok frame' ∧
        frame.SameFront frame' ∧ frame.payload = m.payload ∧ frame'.payload = m'.payload := by
  have hlookup :
      registry.lookup m.header.serialization = registry.lookup m'.header.serialization := by
    simp only [Registry.lookup, h.header.serialization]
  cases hframe : ofMessage registry m with
  | error e =>
    have hcodec : registry.withCodec m.header.serialization (·.encodeMetadata m.metadata) =
        registry.withCodec m'.header.serialization (·.encodeMetadata m'.metadata) := by
      simp only [Registry.withCodec, hlookup, h.header.serialization, h.metadata]
    refine Or.inl ⟨e, rfl, ofMessage_eq_error_iff.2 ?_⟩
    rw [← hcodec, ← h.length]
    exact ofMessage_eq_error_iff.1 hframe
  | ok frame =>
    obtain ⟨codec, metadata, hcodec, hencode, hsize, hfits, rfl⟩ := ofMessage_eq_ok_iff.1 hframe
    rw [hlookup] at hcodec
    rw [h.metadata] at hencode
    rw [h.length] at hfits
    have hframe' := ofMessage_eq_ok_iff.2 ⟨codec, metadata, hcodec, hencode, hsize, hfits, rfl⟩
    have hsizes := congrArg UInt32.ofNat h.length
    exact Or.inr ⟨_, _, rfl, hframe', ⟨⟨⟨h.header.version, h.header.messageType,
      h.header.compression, h.header.serialization, h.header.messageId⟩, rfl, rfl, hsizes⟩, rfl,
      h.length⟩, rfl, rfl⟩

end Frame

namespace Stack

variable {m m' : Message}

theorem encodeFramed_traced (s : Stack) (h : m.SameOutline m') (sink : Sink) :
    (s.encodeFramed m sink).1 = (s.encodeFramed m' sink).1 := by
  rcases Frame.ofMessage_alike s.registry h with
    ⟨e, hrefused, hrefused'⟩ | ⟨frame, frame', hframe, hframe', hfront, -, -⟩
  · rw [encodeFramed_of_error hrefused, encodeFramed_of_error hrefused', h.id_eq]
  · rw [encodeFramed_of_ok hframe, encodeFramed_of_ok hframe', h.id_eq, hfront.result_of_write,
      s.framing.encodeEvent_eq_of_writtenAlike _ hfront.header]

theorem encodeFramed_eq_of_matches (s : Stack) (h : m.Matches m') (sink : Sink) :
    s.encodeFramed m sink = s.encodeFramed m' sink := by
  refine Prod.ext (s.encodeFramed_traced h.sameOutline sink) ?_
  rcases Frame.ofMessage_alike s.registry h.sameOutline with
    ⟨e, hrefused, hrefused'⟩ | ⟨frame, frame', hframe, hframe', hfront, hpayload, hpayload'⟩
  · rw [encodeFramed_of_error hrefused, encodeFramed_of_error hrefused']
  · have hsegments : frame.segments s.framing = frame'.segments s.framing := by
      simp only [Frame.segments, s.framing.headerBytes_eq_of_writtenAlike hfront.header,
        hfront.metadata, hpayload, hpayload', h.payload]
    rw [encodeFramed_of_ok hframe, encodeFramed_of_ok hframe', Frame.write, Frame.write, hsegments]

/-! ## The same message -/

/-- Messages that match are encoded alike: to the same bytes or the same failure, with the same
events. -/
theorem encode_eq_of_matches (s : Stack) (nonces : Nonces) (h : m.Matches m') (sink : Sink) :
    s.encode nonces m sink = s.encode nonces m' sink := by
  have hwrap := wrapAll_alike nonces 0 s.layers h
  unfold encode
  generalize wrapAll nonces 0 s.layers m = wrapped, wrapAll nonces 0 s.layers m' = wrapped' at hwrap
  cases hwrap with
  | error e log => rfl
  | ok log hinner => simp only [s.encodeFramed_eq_of_matches hinner sink]

def numberedReply : Message where
  header :=
    { magic := 0, version := Header.currentVersion, messageType := .other 2,
      compression := .other 0,
      serialization := .custom 1, messageId := 7, metadataSize := 5, payloadSize := 9 }
  metadata := none
  payload := [1, 2, 3]

theorem encode_eq_of_matches_numberedReply :
    (sample 6 64).encode .ofCounter numberedReply breakingSink =
      (sample 6 64).encode .ofCounter (.response 7 .json none [1, 2, 3]) breakingSink := by
  have hmatches : numberedReply.Matches (.response 7 .json none [1, 2, 3]) :=
    ⟨⟨rfl, rfl, rfl, rfl, rfl⟩, rfl, rfl⟩
  exact encode_eq_of_matches (sample 6 64) .ofCounter hmatches breakingSink

/-! ## Sealed payloads -/

open Layer

variable {s : Stack} {nonces nonces' : Nonces} {inner : Message}

theorem encode_of_wrapAll_silent (hwrap : wrapAll nonces 0 s.layers m = ⟨.ok inner, []⟩)
    (sink : Sink) : s.encode nonces m sink = s.encodeFramed inner sink := by
  simp only [encode, hwrap]
  rfl

/-- Nothing but the payload segment tells messages of one outline apart if they are not to be
compressed and are sealed equally often, under whatever keys and nonces.  On any sink the results
and the events are the same.  Either both messages are refused for the same reason and nothing is
written, or their wire forms are the same outside the payload, and the sink takes equally much of
them.  -/
theorem encode_hides_payload (s : Stack) (layers' : List Layer) (nonces nonces' : Nonces)
    (hseals : s.layers.countP isSealing = layers'.countP isSealing) (h : m.SameOutline m')
    (hcode : m.header.compression.code = 0) :
    (∀ sink, (s.encode nonces m sink).1 = ({ s with layers := layers' }.encode nonces' m' sink).1) ∧
      (∀ e, (s.encodeToBytes nonces m).result = .error e →
        ({ s with layers := layers' }.encodeToBytes nonces' m').result = .error e ∧
        ∀ sink, (s.encode nonces m sink).2 = sink ∧
          ({ s with layers := layers' }.encode nonces' m' sink).2 = sink) ∧
      ∀ wire, (s.encodeToBytes nonces m).result = .ok wire →
        ∃ wire', ({ s with layers := layers' }.encodeToBytes nonces' m').result = .ok wire' ∧
          s.framing.SameButPayload (m.payload.length + 28 * s.layers.countP isSealing) wire wire' ∧
          ∀ sink, (s.encode nonces m sink).2.accepted =
              sink.accepted ++ wire.take (sink.room wire.length) ∧
            ({ s with layers := layers' }.encode nonces' m' sink).2.accepted =
              sink.accepted ++ wire'.take (sink.room wire.length) := by
  obtain ⟨inner, inner', hwrap, hwrap', hinner, hsize⟩ :=
    wrapAll_sameOutline nonces nonces' hseals h hcode
  have hframed := frameOf_of_wrapAll (congrArg Traced.result hwrap)
  have hframed' : { s with layers := layers' }.frameOf nonces' m' =
      Frame.ofMessage s.registry inner' := frameOf_of_wrapAll (congrArg Traced.result hwrap')
  refine ⟨fun sink => ?_, ?_⟩
  · rw [encode_of_wrapAll_silent hwrap, encode_of_wrapAll_silent hwrap']
    exact s.encodeFramed_traced hinner sink
  rcases Frame.ofMessage_alike s.registry hinner with
    ⟨e, hrefused, hrefused'⟩ | ⟨frame, frame', hframe, hframe', hfront, hpayload, -⟩
  · have hbytes := encodeToBytes_eq_error_iff.2 (hframed.trans hrefused)
    have hbytes' := encodeToBytes_eq_error_iff.2 (hframed'.trans hrefused')
    refine ⟨fun e' he' => ?_, fun wire hwire => ?_⟩
    · cases hbytes.symm.trans he'
      exact ⟨hbytes', fun sink =>
        ⟨sink_of_encodeToBytes_error hbytes sink, sink_of_encodeToBytes_error hbytes' sink⟩⟩
    · cases hbytes.symm.trans hwire
  · have hbytes := encodeToBytes_eq_ok_iff.2 ⟨frame, hframed.trans hframe, rfl⟩
    have hbytes' := encodeToBytes_eq_ok_iff.2 ⟨frame', hframed'.trans hframe', rfl⟩
    refine ⟨fun e he => ?_, fun wire hwire => ?_⟩
    · cases hbytes.symm.trans he
    · cases hbytes.symm.trans hwire
      have hwires := hfront.sameButPayload (Frame.ofMessage_isSound hframe) s.framing
      rw [hpayload, hsize] at hwires
      refine ⟨_, hbytes', hwires, fun sink => ⟨accepted_of_encodeToBytes hbytes sink, ?_⟩⟩
      rw [hfront.length_bytes]
      exact accepted_of_encodeToBytes hbytes' sink

def otherKey : Cipher.Key :=
  ⟨List.replicate 32 9, rfl⟩

theorem encode_hides_payload_otherKey :
    ∃ wire wire',
      ((({ key := some sampleKey } : Settings).stack .builtin).encodeToBytes .ofCounter
        (.response 7 .json none [1, 2, 3])).result = .ok wire ∧
      ((({ key := some otherKey } : Settings).stack .builtin).encodeToBytes (fun _ => .ofCounter 5)
        (.response 7 .json none [4, 5, 6])).result = .ok wire' ∧
      Framing.fixed.SameButPayload 31 wire wire' := by
  have hcode : (Message.response 7 .json none [1, 2, 3]).header.compression.code = 0 := rfl
  have houtline : (Message.response 7 .json none [1, 2, 3]).SameOutline
      (.response 7 .json none [4, 5, 6]) := ⟨⟨rfl, rfl, rfl, rfl, rfl⟩, rfl, rfl⟩
  obtain ⟨-, -, hwires⟩ :=
    encode_hides_payload (({ key := some sampleKey } : Settings).stack .builtin)
      ({ key := some otherKey } : Settings).layers .ofCounter (fun _ => .ofCounter 5) rfl houtline
      hcode
  obtain ⟨inner, hwrap, hheader, hmetadata, hsize⟩ :=
    wrapAll_of_code_zero .ofCounter 0 ({ key := some sampleKey } : Settings).layers hcode
  obtain ⟨frame, hframe⟩ : ∃ frame, (({ key := some sampleKey } : Settings).stack .builtin).frameOf
      .ofCounter (.response 7 .json none [1, 2, 3]) = .ok frame := by
    rw [frameOf_of_wrapAll (congrArg Traced.result hwrap)]
    refine ⟨_, Frame.ofMessage_eq_ok_iff.2 ⟨.json, [], ?_, ?_, by decide, ?_, rfl⟩⟩
    · rw [hheader]
      rfl
    · rw [hmetadata]
      rfl
    · rw [hsize]
      decide
  have hbytes := encodeToBytes_eq_ok_iff.2 ⟨frame, hframe, rfl⟩
  obtain ⟨wire', hbytes', hsame, -⟩ := hwires _ hbytes
  exact ⟨_, wire', hbytes, hbytes', hsame⟩

end Stack

end Courier
