import Courier.Proofs.Frames
import Courier.Proofs.Layers
import Courier.Proofs.Sinks
import Courier.Proofs.Sources
/-!
# Stacks as frames

Encoding a message makes one frame and writes it (`Stack.encode_of_frameOf`), decoding reads one
frame and makes a message of it.  What a stack makes of a frame that an agreeing stack has made is
the message that went in, if there is a codec and the message keeps within the limits
(`Stack.finish_frameOf_iff`).
-/

namespace Courier

namespace Stack

variable {s t : Stack} {nonces : Nonces} {m read : Message} {frame : Frame}

def frameOf (s : Stack) (nonces : Nonces) (m : Message) : Except WireError Frame :=
  (wrapAll nonces 0 s.layers m).result >>= Frame.ofMessage s.registry

theorem frameOf_eq_ok_iff :
    s.frameOf nonces m = .ok frame ↔ ∃ inner, (wrapAll nonces 0 s.layers m).result = .ok inner ∧
      Frame.ofMessage s.registry inner = .ok frame :=
  bind_eq_ok_iff

theorem frameOf_of_wrapAll {inner : Message}
    (hwrap : (wrapAll nonces 0 s.layers m).result = .ok inner) :
    s.frameOf nonces m = Frame.ofMessage s.registry inner := by
  rw [frameOf, hwrap]
  rfl

theorem frameOf_isSound (hframe : s.frameOf nonces m = .ok frame) : frame.IsSound := by
  obtain ⟨inner, -, hframe⟩ := frameOf_eq_ok_iff.1 hframe
  exact Frame.ofMessage_isSound hframe

theorem encodeFramed_of_error {e : WireError} (hframe : Frame.ofMessage s.registry m = .error e)
    (sink : Sink) :
    s.encodeFramed m sink = (⟨.error e, [s.framing.encodeEvent m.id (.error e)]⟩, sink) := by
  simp only [encodeFramed, hframe]
  rfl

theorem encodeFramed_of_ok (hframe : Frame.ofMessage s.registry m = .ok frame) (sink : Sink) :
    s.encodeFramed m sink =
      (⟨(frame.write s.framing sink).1, [s.framing.encodeEvent m.id
        ((frame.write s.framing sink).1.map fun _ => frame.header)]⟩,
        (frame.write s.framing sink).2) := by
  simp only [encodeFramed, hframe]
  rcases frame.write s.framing sink with ⟨result, sink'⟩
  cases result <;> rfl

theorem encode_of_wrapAll_error {e : WireError}
    (hwrap : (wrapAll nonces 0 s.layers m).result = .error e) (sink : Sink) :
    s.encode nonces m sink = (⟨.error e, (wrapAll nonces 0 s.layers m).log⟩, sink) := by
  simp only [encode, hwrap]

theorem encode_of_wrapAll {inner : Message}
    (hwrap : (wrapAll nonces 0 s.layers m).result = .ok inner) (sink : Sink) :
    s.encode nonces m sink =
      (⟨(s.encodeFramed inner sink).1.result,
        (wrapAll nonces 0 s.layers m).log ++ (s.encodeFramed inner sink).1.log⟩,
        (s.encodeFramed inner sink).2) := by
  simp only [encode, hwrap]

theorem encode_of_frameOf_error {e : WireError} (hframe : s.frameOf nonces m = .error e)
    (sink : Sink) : ∃ log, s.encode nonces m sink = (⟨.error e, log⟩, sink) := by
  rcases bind_eq_error_iff.1 hframe with hwrap | ⟨inner, hwrap, hinner⟩
  · exact ⟨_, encode_of_wrapAll_error hwrap sink⟩
  · rw [encode_of_wrapAll hwrap, encodeFramed_of_error hinner]
    exact ⟨_, rfl⟩

theorem encode_of_frameOf (hframe : s.frameOf nonces m = .ok frame) (sink : Sink) :
    ∃ log, s.encode nonces m sink =
      (⟨(frame.write s.framing sink).1, log⟩, (frame.write s.framing sink).2) := by
  obtain ⟨inner, hwrap, hinner⟩ := frameOf_eq_ok_iff.1 hframe
  rw [encode_of_wrapAll hwrap, encodeFramed_of_ok hinner]
  exact ⟨_, rfl⟩

theorem encodeToBytes_eq (s : Stack) (nonces : Nonces) (m : Message) :
    (s.encodeToBytes nonces m).result = (s.frameOf nonces m).map (·.bytes s.framing) := by
  unfold encodeToBytes
  cases hframe : s.frameOf nonces m with
  | error e =>
    obtain ⟨log, hencode⟩ := encode_of_frameOf_error hframe {}
    simp only [hencode]
    rfl
  | ok frame =>
    obtain ⟨log, hencode⟩ := encode_of_frameOf hframe {}
    have hroom : ({} : Sink).room (frame.bytes s.framing).length =
        (frame.bytes s.framing).length := rfl
    obtain ⟨sink, hwrite, hadvanced⟩ := Frame.write_of_room hroom
    have haccepted : sink.accepted = frame.bytes s.framing := hadvanced.1
    simp only [hencode, hwrite, Except.map, haccepted]

theorem encodeToBytes_eq_ok_iff {wire : Bytes} :
    (s.encodeToBytes nonces m).result = .ok wire ↔
      ∃ frame, s.frameOf nonces m = .ok frame ∧ wire = frame.bytes s.framing := by
  rw [encodeToBytes_eq]
  cases s.frameOf nonces m <;> simp [Except.map, eq_comm]

theorem encodeToBytes_eq_error_iff {e : WireError} :
    (s.encodeToBytes nonces m).result = .error e ↔ s.frameOf nonces m = .error e := by
  rw [encodeToBytes_eq]
  cases s.frameOf nonces m <;> simp [Except.map]

theorem sink_of_encodeToBytes_error {e : WireError}
    (he : (s.encodeToBytes nonces m).result = .error e) (sink : Sink) :
    (s.encode nonces m sink).2 = sink := by
  obtain ⟨log, hencode⟩ := encode_of_frameOf_error (encodeToBytes_eq_error_iff.1 he) sink
  rw [hencode]

theorem accepted_of_encodeToBytes {wire : Bytes}
    (hwire : (s.encodeToBytes nonces m).result = .ok wire) (sink : Sink) :
    (s.encode nonces m sink).2.accepted = sink.accepted ++ wire.take (sink.room wire.length) := by
  obtain ⟨frame, hframe, rfl⟩ := encodeToBytes_eq_ok_iff.1 hwire
  obtain ⟨log, hencode⟩ := encode_of_frameOf hframe sink
  obtain ⟨result, after, hwrite, hadvanced, -⟩ := frame.write_eq s.framing sink
  rw [hencode, hwrite]
  exact hadvanced.1

/-! ## Decoding -/

theorem decode_eq_decodeBytes (t : Stack) {source : Source} (hsource : source.failure = none) :
    ∃ source', t.decode source = ((t.decodeBytes source.pending).1, source') ∧
      source'.pending = (t.decodeBytes source.pending).2 ∧
      source.Advanced source' ((t.framing.intake t.registry).taken source.pending) := by
  obtain ⟨source', hrun, hadvanced⟩ := (t.framing.intake t.registry).run_eq_runBytes hsource
  refine ⟨source', ?_, ?_, hadvanced⟩
  · simp only [decode, hrun]
    rfl
  · rw [hadvanced.1, Intake.drop_taken]
    rfl

theorem decodeBytes_form {front : Bytes} (hfront : t.framing.frameLayout.Form front frame)
    (rest : Bytes) :
    t.decodeBytes (front ++ rest) = (t.finish (frame.toMessage t.registry), rest) := by
  simp only [decodeBytes, Framing.runBytes_intake_form hfront]

theorem decodeBytes_refused {front : Bytes} {e : WireError}
    (hfront : t.framing.frameLayout.Refused front e) (rest : Bytes) :
    (t.decodeBytes (front ++ rest)).1.result = .error e := by
  simp only [decodeBytes, Framing.runBytes_intake_refused hfront]
  rfl

theorem decodeBytes_unfinished {bytes : Bytes} {segment : Segment}
    (hbytes : t.framing.frameLayout.Unfinished bytes segment) :
    ∃ size received, (t.decodeBytes bytes).1.result =
      .error (.transport segment (Intake.shortage segment size received)) := by
  obtain ⟨size, received, hrun⟩ := Framing.runBytes_intake_unfinished hbytes t.registry
  refine ⟨size, received, ?_⟩
  simp only [decodeBytes, hrun]
  rfl

/-! ## Streams that do not fail -/

/-- What comes of encoding into a new sink that accepts the message in the given pieces, and what
the sink holds then. -/
def encodeInPieces (s : Stack) (nonces : Nonces) (m : Message) (pieces : List Delivery) :
    Except WireError Unit × Bytes :=
  let (encoded, sink) := s.encode nonces m { schedule := pieces }
  (encoded.result, sink.accepted)

def decodeInPieces (t : Stack) (bytes : Bytes) (pieces : List Delivery) :
    Except WireError Message × Bytes :=
  let (decoded, source) := t.decode { pending := bytes, schedule := pieces }
  (decoded.result, source.pending)

theorem encodeInPieces_of_frameOf_error {e : WireError} (hframe : s.frameOf nonces m = .error e)
    (pieces : List Delivery) : s.encodeInPieces nonces m pieces = (.error e, []) := by
  obtain ⟨log, hencode⟩ := encode_of_frameOf_error hframe { schedule := pieces }
  rw [encodeInPieces, hencode]

theorem encodeInPieces_of_frameOf (hframe : s.frameOf nonces m = .ok frame)
    (pieces : List Delivery) :
    s.encodeInPieces nonces m pieces = (.ok (), frame.bytes s.framing) := by
  obtain ⟨log, hencode⟩ := encode_of_frameOf hframe { schedule := pieces }
  have hroom : ({ schedule := pieces } : Sink).room (frame.bytes s.framing).length =
      (frame.bytes s.framing).length := rfl
  obtain ⟨sink, hwrite, hadvanced⟩ := Frame.write_of_room hroom
  rw [encodeInPieces, hencode, hwrite]
  exact congrArg (Prod.mk _) hadvanced.1

theorem decodeInPieces_eq (t : Stack) (bytes : Bytes) (pieces : List Delivery) :
    t.decodeInPieces bytes pieces = ((t.decodeBytes bytes).1.result, (t.decodeBytes bytes).2) := by
  have hsource : ({ pending := bytes, schedule := pieces } : Source).failure = none := rfl
  obtain ⟨source, hdecode, hleft, -⟩ := t.decode_eq_decodeBytes hsource
  rw [decodeInPieces, hdecode]
  exact congrArg (Prod.mk _) hleft

/-! ## From one end to the other -/

/-- Stacks of the same framing with layers that agree.  Registries, levels and limits may differ. -/
structure Agrees (s t : Stack) : Prop where
  framing : s.framing = t.framing
  layers : List.Forall₂ Layer.Agrees s.layers t.layers

end Stack

namespace Message

/-- The message as it comes out at the other end: as it was sent, but for the named form of the type
codes, the magic number and the sizes. -/
def delivered (m : Message) (metadataSize : Nat) : Message :=
  { m with
    header := { m.header.normalized with
      magic := Header.magicNumber
      metadataSize := UInt32.ofNat metadataSize
      payloadSize := UInt32.ofNat m.payload.length } }

end Message

namespace Stack

variable {s t : Stack} {nonces : Nonces} {m read : Message} {frame : Frame}

theorem lookup_normalized (registry : Registry) (serialization : Serialization) :
    registry.lookup serialization.normalized = registry.lookup serialization := by
  simp [Registry.lookup, Serialization.normalized]

/-- What comes of the frame of a message at an end that agrees with the one that made it. -/
theorem finish_frameOf_iff (hagree : s.Agrees t) (hframe : s.frameOf nonces m = .ok frame) :
    (t.finish (Frame.toMessage t.registry
        { frame with header := frame.header.normalized })).result = .ok read ↔
      ∃ codec metadata, t.registry.lookup m.header.serialization = some codec ∧
        codec.decodeMetadata frame.metadata = .ok metadata ∧
        WithinLimits nonces 0 s.layers t.layers m ∧
        read = { m with metadata }.delivered frame.metadata.length := by
  obtain ⟨inner, hwrap, hinner⟩ := frameOf_eq_ok_iff.1 hframe
  obtain ⟨-, segment, -, -, -, hsize, rfl⟩ := Frame.ofMessage_eq_ok_iff.1 hinner
  obtain ⟨hheader, -⟩ := wrapAll_eq_ok hwrap
  -- The message as it is framed, with the metadata that the codec over there makes of the segment.
  let framed (metadata : Option Metadata) : Message :=
    ⟨{ m.header.normalized with
        magic := Header.magicNumber
        metadataSize := UInt32.ofNat segment.length
        payloadSize := UInt32.ofNat inner.payload.length }, metadata, inner.payload⟩
  have hunwrap (metadata : Option Metadata) :
      (unwrapAll t.layers (framed metadata)).result = .ok read ↔
        read = { m with metadata }.delivered segment.length ∧
          WithinLimits nonces 0 s.layers t.layers m :=
    unwrapAll_wrapAll_iff (r := framed metadata) hagree.layers hwrap (by
      simp [framed, Header.normalized, Compression.normalized]) rfl hsize
  simp only [finish, Traced.andThen_eq_ok_iff, Frame.toMessage_eq_ok_iff, Header.normalized,
    lookup_normalized, hheader]
  constructor
  · rintro ⟨_, ⟨codec, metadata, hlookup, hdecode, rfl⟩, hread⟩
    obtain ⟨rfl, hlimits⟩ := (hunwrap metadata).1 hread
    exact ⟨codec, metadata, hlookup, hdecode, hlimits, rfl⟩
  · rintro ⟨codec, metadata, hlookup, hdecode, hlimits, rfl⟩
    exact ⟨framed metadata, ⟨codec, metadata, hlookup, hdecode, rfl⟩,
      (hunwrap metadata).2 ⟨rfl, hlimits⟩⟩

theorem decodeBytes_frameOf (hagree : s.Agrees t) (hframe : s.frameOf nonces m = .ok frame)
    (rest : Bytes) :
    t.decodeBytes (frame.bytes s.framing ++ rest) =
      (t.finish (Frame.toMessage t.registry { frame with header := frame.header.normalized }),
        rest) := by
  rw [hagree.framing]
  exact decodeBytes_form (Frame.bytes_form (frameOf_isSound hframe) t.framing) rest

end Stack

end Courier
