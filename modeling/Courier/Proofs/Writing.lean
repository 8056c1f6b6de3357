import Courier.Proofs.Stacks
/-!
# What encoding puts on the stream

All that can fail but the sink fails before the first byte is written.  A sink that gives up inside
the message holds the front of it up to that place, and the failure names the segment in which the
place lies (`Stack.encode_to_limited_sink`).
-/

namespace Courier

namespace WireError

/-- The failures that come before anything is written. -/
def BeforeWriting : WireError → Prop
  | unsupportedCompression _ | unsupportedSerializer _ _ | invalidMessage _ _ | codec _ _
  | sizeOverflow _ _ => True
  | _ => False

end WireError

theorem Codec.encodeMetadata_eq_error_iff {codec : Codec} {metadata : Option Metadata}
    {e : WireError} :
    codec.encodeMetadata metadata = .error e ↔
      ∃ value cause, metadata = some value ∧
        codec.encode Metadata.capabilities value = .error cause ∧ e = .ofCodec .metadata cause := by
  cases metadata with
  | none => simp [encodeMetadata]
  | some value =>
    cases hvalue : codec.encode Metadata.capabilities value <;>
      simp [encodeMetadata, hvalue, Except.mapError, eq_comm]

theorem Codec.beforeWriting_of_encodeMetadata {codec : Codec} {metadata : Option Metadata}
    {e : WireError} (h : codec.encodeMetadata metadata = .error e) : e.BeforeWriting := by
  obtain ⟨_, cause, -, -, rfl⟩ := encodeMetadata_eq_error_iff.1 h
  cases cause <;> trivial

theorem Frame.beforeWriting_of_ofMessage {registry : Registry} {m : Message} {e : WireError}
    (h : ofMessage registry m = .error e) : e.BeforeWriting := by
  rcases ofMessage_eq_error_iff.1 h with hcodec | ⟨metadata, -, ⟨-, rfl⟩ | ⟨-, -, rfl⟩⟩
  · rcases withCodec_eq_error_iff.1 hcodec with ⟨-, rfl⟩ | ⟨codec, -, hencode⟩
    · trivial
    · exact Codec.beforeWriting_of_encodeMetadata hencode
  · trivial
  · trivial

namespace Stack

variable {s : Stack} {nonces : Nonces} {m : Message} {e : WireError}

theorem beforeWriting_of_frameOf (h : s.frameOf nonces m = .error e) : e.BeforeWriting := by
  rcases bind_eq_error_iff.1 h with hwrap | ⟨inner, -, hframe⟩
  · obtain ⟨_, rfl⟩ := wrapAll_eq_error hwrap
    trivial
  · exact Frame.beforeWriting_of_ofMessage hframe

end Stack

/-! ## Segments of the wire form -/

namespace Frame

/-- The segment in which a place of a message lies. -/
def segmentAt (header metadata : Bytes) (place : Nat) : Segment :=
  if place < header.length then .header
  else if place < header.length + metadata.length then .metadata
  else .payload

theorem segment_eq_segmentAt {frame : Frame} {f : Framing} {place : Nat} {segment : Segment}
    (h : HoldsOffset (frame.segments f) place segment) :
    segment = segmentAt (f.headerBytes frame.header) frame.metadata place := by
  obtain ⟨before, bytes, behind, hsegments, hle, hlt⟩ := h
  unfold segmentAt
  rcases before with _ | ⟨first, _ | ⟨second, _ | ⟨third, before⟩⟩⟩
  · cases hsegments
    simp only [List.flatMap_nil, List.length_nil] at hlt
    rw [if_pos (by omega)]
  · cases hsegments
    simp only [List.flatMap_cons, List.flatMap_nil, List.append_nil] at hle hlt
    rw [if_neg (by omega), if_pos hlt]
  · cases hsegments
    simp only [List.flatMap_cons, List.flatMap_nil, List.append_nil, List.length_append] at hle
    rw [if_neg (by omega), if_neg (by omega)]
  · simp [segments] at hsegments

theorem write_result (frame : Frame) (f : Framing) (s : Sink) :
    (frame.write f s).1 =
      if s.room (frame.bytes f).length < (frame.bytes f).length then
        .error (.transport (segmentAt (f.headerBytes frame.header) frame.metadata
          (s.room (frame.bytes f).length)) s.refusal)
      else .ok () := by
  by_cases hroom : s.room (frame.bytes f).length < (frame.bytes f).length
  · obtain ⟨segment, s', hwrite, -, hholds⟩ := write_of_room_lt hroom
    rw [if_pos hroom, hwrite, segment_eq_segmentAt hholds]
  · have hall := Nat.le_antisymm (s.room_le _) (Nat.le_of_not_lt hroom)
    obtain ⟨s', hwrite, -⟩ := write_of_room hall
    rw [if_neg hroom, hwrite]

end Frame

namespace Stack

/-- A sink that accepts so many bytes and then fails gets nothing of a message that cannot be
framed, all of one that it has room for, and otherwise the front of the message that it has room
for.  Then the failure is its own, in the segment of the first byte it has no room for. -/
theorem encode_to_limited_sink (s : Stack) (nonces : Nonces) (m : Message) {sink : Sink}
    {room : Nat} {cause : Option TransportError}
    (hsink : sink.failure = some ⟨sink.position + room, cause⟩) :
    (∀ e, (s.encodeToBytes nonces m).result = .error e →
      e.BeforeWriting ∧ (s.encode nonces m sink).1.result = .error e ∧
        (s.encode nonces m sink).2 = sink) ∧
    (∀ wire, (s.encodeToBytes nonces m).result = .ok wire → wire.length ≤ room →
      (s.encode nonces m sink).1.result = .ok () ∧
        (s.encode nonces m sink).2.accepted = sink.accepted ++ wire) ∧
    (∀ wire, (s.encodeToBytes nonces m).result = .ok wire → room < wire.length →
      (s.encode nonces m sink).2.accepted = sink.accepted ++ wire.take room ∧
      ∃ header metadata payload h, wire = header ++ metadata ++ payload ∧
        s.framing.headerLayout.Form header h ∧ h.metadataSize.toNat = metadata.length ∧
        h.payloadSize.toNat = payload.length ∧
        (s.encode nonces m sink).1.result =
          .error (.transport (Frame.segmentAt header metadata room)
            (cause.getD Sink.acceptsNothing))) := by
  have hroom (wanted : Nat) : sink.room wanted = min wanted room := by
    simp only [Sink.room, hsink, Nat.add_sub_cancel_left]
  have hrefusal : sink.refusal = cause.getD Sink.acceptsNothing := by
    simp only [Sink.refusal, hsink]
  refine ⟨?_, ?_, ?_⟩
  · intro e he
    have hframe := encodeToBytes_eq_error_iff.1 he
    obtain ⟨log, hencode⟩ := encode_of_frameOf_error hframe sink
    rw [hencode]
    exact ⟨beforeWriting_of_frameOf hframe, rfl, rfl⟩
  · intro wire hwire hfits
    obtain ⟨frame, hframe, rfl⟩ := encodeToBytes_eq_ok_iff.1 hwire
    obtain ⟨log, hencode⟩ := encode_of_frameOf hframe sink
    obtain ⟨sink', hwrite, hadvanced⟩ :=
      Frame.write_of_room ((hroom _).trans (Nat.min_eq_left hfits))
    rw [hencode, hwrite]
    exact ⟨rfl, hadvanced.1⟩
  · intro wire hwire hlong
    obtain ⟨frame, hframe, rfl⟩ := encodeToBytes_eq_ok_iff.1 hwire
    obtain ⟨log, hencode⟩ := encode_of_frameOf hframe sink
    have hfront : sink.room (frame.bytes s.framing).length = room :=
      (hroom _).trans (Nat.min_eq_right (Nat.le_of_lt hlong))
    obtain ⟨segment, sink', hwrite, hadvanced, hholds⟩ :=
      Frame.write_of_room_lt (hfront.trans_lt hlong)
    rw [hfront] at hadvanced hholds
    rw [hencode, hwrite, hrefusal]
    have hsound := frameOf_isSound hframe
    refine ⟨hadvanced.1, s.framing.headerBytes frame.header, frame.metadata, frame.payload,
      frame.header.normalized, ?_, s.framing.headerBytes_form hsound.magic, hsound.metadata,
      hsound.payload, ?_⟩
    · rw [Frame.bytes_eq, List.append_assoc]
    · rw [← Frame.segment_eq_segmentAt hholds]

def replyBytes : Bytes :=
  [63, 63, 1, 2, 0, 1, 0, 0, 0, 0, 0, 0, 0, 7, 0, 0, 0, 0, 0, 0, 0, 3, 1, 2, 3]

def breakingSink : Sink where
  schedule := [.interrupted, .upTo 3, .interrupted]
  failure := some ⟨22, some ⟨.brokenPipe, none⟩⟩

theorem encode_to_limited_sink_reply :
    ((Stack.mk .fixed .builtin []).encode .ofCounter (.response 7 .json none [1, 2, 3])
        breakingSink).2.accepted = replyBytes.take 22 ∧
      ∃ header metadata payload h, replyBytes = header ++ metadata ++ payload ∧
        Framing.fixed.headerLayout.Form header h ∧ h.metadataSize.toNat = metadata.length ∧
        h.payloadSize.toNat = payload.length ∧
        ((Stack.mk .fixed .builtin []).encode .ofCounter (.response 7 .json none [1, 2, 3])
          breakingSink).1.result =
          .error (.transport (Frame.segmentAt header metadata 22) ⟨.brokenPipe, none⟩) := by
  have hsink : breakingSink.failure =
      some ⟨breakingSink.position + 22, some ⟨.brokenPipe, none⟩⟩ := rfl
  exact (encode_to_limited_sink ⟨.fixed, .builtin, []⟩ .ofCounter (.response 7 .json none [1, 2, 3])
    hsink).2.2 replyBytes rfl (by decide)

end Stack

end Courier
