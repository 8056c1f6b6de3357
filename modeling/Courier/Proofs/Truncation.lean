import Courier.Proofs.Consumption
import Courier.Proofs.RoundTrip
import Courier.Proofs.Writing
/-!
# Where a stream may end

A byte string that ends inside a frame is reported as the early end of the stream, in the segment to
which the first byte that is missing belongs, and nothing else is reported that way
(`Stack.decode_unexpectedEof_iff`): neither a front that no frame starts with, nor a complete frame
of which no message comes, whatever is cut short inside its segments.
-/

namespace Courier

namespace Framing

/-- The bytes end inside a frame, and the first byte that is missing is one of the segment. -/
inductive CutShort (f : Framing) : Bytes → Segment → Prop
  | magic {bytes : Bytes} (hshort : bytes.length < 2) : CutShort f bytes .header
  | fields {fields : Bytes} (hfields : f.fieldsLayout.Unfinished fields .header) :
      CutShort f (magicBytes ++ fields) .header
  | metadata {front behind : Bytes} {header : Header} (hfront : f.headerLayout.Form front header)
      (hshort : behind.length < header.metadataSize.toNat) : CutShort f (front ++ behind) .metadata
  | payload {front behind : Bytes} {header : Header} (hfront : f.headerLayout.Form front header)
      (hmetadata : header.metadataSize.toNat ≤ behind.length)
      (hshort : behind.length < header.metadataSize.toNat + header.payloadSize.toNat) :
      CutShort f (front ++ behind) .payload

variable {f : Framing} {bytes : Bytes} {segment : Segment}

theorem segment_of_fieldsLayout_unfinished (h : f.fieldsLayout.Unfinished bytes segment) :
    segment = .header := by
  cases f with
  | fixed =>
    rcases h with ⟨-, rfl⟩ | ⟨_, _, _, _, _, h⟩
    · rfl
    · exact h.elim
  | compact =>
    rcases h with ⟨-, rfl⟩ | ⟨_, _, _, _, _, ⟨-, rfl⟩ | ⟨_, _, _, _, _, ⟨-, rfl⟩ | ⟨_, _, _, _, _,
      ⟨-, rfl⟩ | ⟨_, _, _, _, _, h⟩⟩⟩⟩
    · rfl
    · rfl
    · rfl
    · rfl
    · exact h.elim

theorem cutShort_of_headerLayout_unfinished (h : f.headerLayout.Unfinished bytes segment) :
    segment = .header ∧ f.CutShort bytes .header := by
  rcases h with ⟨hshort, rfl⟩ | ⟨_, fields, _, rfl, rfl, hfields⟩
  · exact ⟨rfl, .magic hshort⟩
  · obtain rfl := segment_of_fieldsLayout_unfinished hfields
    exact ⟨rfl, .fields hfields⟩

theorem frameLayout_unfinished_iff :
    f.frameLayout.Unfinished bytes segment ↔ f.CutShort bytes segment := by
  constructor
  · rintro (hheader | ⟨front, behind, header, rfl, hfront, ⟨hshort, rfl⟩ |
      ⟨metadata, payload, _, rfl, ⟨hmetadata, -⟩, ⟨hshort, rfl⟩ | ⟨_, _, _, _, _, h⟩⟩⟩)
    · obtain ⟨rfl, hcut⟩ := cutShort_of_headerLayout_unfinished hheader
      exact hcut
    · exact .metadata hfront hshort
    · exact .payload hfront (by rw [List.length_append]; omega) (by rw [List.length_append]; omega)
    · exact h.elim
  · rintro (hshort | hfields | ⟨hfront, hshort⟩ | ⟨hfront, hmetadata, hshort⟩)
    · exact Or.inl (Or.inl ⟨hshort, rfl⟩)
    · exact Or.inl (Or.inr ⟨magicBytes, _, (), rfl, rfl, hfields⟩)
    · exact Or.inr ⟨_, _, _, rfl, hfront, Or.inl ⟨hshort, rfl⟩⟩
    next behind header =>
    refine Or.inr ⟨_, _, _, rfl, hfront, Or.inr ⟨_, _, _, (List.take_append_drop _ behind).symm,
      ⟨List.length_take_of_le hmetadata, rfl⟩, Or.inl ⟨?_, rfl⟩⟩⟩
    rw [List.length_drop]
    omega

theorem isUnexpectedEof_of_refused {e : WireError} (h : f.frameLayout.Refused bytes e) :
    e.isUnexpectedEof = false := by
  rcases h with (⟨_, _, -, -, rfl⟩ | ⟨_, fields, _, rfl, rfl, hfields⟩) |
    ⟨_, _, _, _, _, h | ⟨_, _, _, _, _, h | ⟨_, _, _, _, _, h⟩⟩⟩
  · rfl
  · obtain ⟨-, rfl⟩ := compact_of_fieldsLayout_refused hfields
    rfl
  · exact h.elim
  · exact h.elim
  · exact h.elim

end Framing

theorem WireError.isUnexpectedEof_of_ofFrame {e : WireError} (h : e.OfFrame) :
    e.isUnexpectedEof = false := by
  cases e <;> first | rfl | exact h.elim

namespace Stack

variable {t : Stack} {bytes rest : Bytes} {segment : Segment} {frame : Frame} {e : WireError}

/-! ## Decoding -/

theorem decodeBytes_cutShort (h : t.framing.CutShort bytes segment) :
    ∃ cause, cause.fault = .unexpectedEof ∧
      (t.decodeBytes bytes).1.result = .error (.transport segment cause) := by
  obtain ⟨size, received, hrun⟩ := decodeBytes_unfinished (Framing.frameLayout_unfinished_iff.2 h)
  exact ⟨_, Intake.fault_shortage segment size received, hrun⟩

theorem isUnexpectedEof_of_form (hframe : t.framing.frameLayout.Form bytes frame)
    (he : (t.decodeBytes (bytes ++ rest)).1.result = .error e) : e.isUnexpectedEof = false := by
  rw [decodeBytes_form hframe] at he
  exact WireError.isUnexpectedEof_of_ofFrame (ofFrame_of_finish he)

theorem isUnexpectedEof_of_frameLayout_refused {e' : WireError}
    (hfront : t.framing.frameLayout.Refused bytes e')
    (he : (t.decodeBytes (bytes ++ rest)).1.result = .error e) : e.isUnexpectedEof = false := by
  rw [decodeBytes_refused hfront] at he
  cases he
  exact Framing.isUnexpectedEof_of_refused hfront

theorem decodeBytes_unexpectedEof_iff :
    (∃ e, (t.decodeBytes bytes).1.result = .error e ∧ e.isUnexpectedEof = true ∧
        e.segment = segment) ↔ t.framing.CutShort bytes segment := by
  constructor
  · rintro ⟨e, he, heof, rfl⟩
    rcases t.framing.frameIntake_follows.covers bytes with
      ⟨front, rest, frame, rfl, hframe⟩ | ⟨front, rest, e', rfl, hfront⟩ | ⟨s, hs⟩
    · rw [isUnexpectedEof_of_form hframe he] at heof
      cases heof
    · rw [isUnexpectedEof_of_frameLayout_refused hfront he] at heof
      cases heof
    · have hcut := Framing.frameLayout_unfinished_iff.1 hs
      obtain ⟨cause, -, he'⟩ := decodeBytes_cutShort hcut
      rw [he] at he'
      cases he'
      exact hcut
  · intro hcut
    obtain ⟨cause, hcause, he⟩ := decodeBytes_cutShort hcut
    exact ⟨_, he, by simp [WireError.isUnexpectedEof, WireError.transportError, hcause], rfl⟩

end Stack

theorem Framing.CutShort.unique {f : Framing} {bytes : Bytes} {segment segment' : Segment}
    (h : f.CutShort bytes segment) (h' : f.CutShort bytes segment') : segment = segment' := by
  let bare : Stack := ⟨f, .empty, []⟩
  obtain ⟨cause, -, he⟩ := Stack.decodeBytes_cutShort (t := bare) h
  obtain ⟨cause', -, he'⟩ := Stack.decodeBytes_cutShort (t := bare) h'
  rw [he] at he'
  cases he'
  rfl

/-! ## Fronts of a message -/

theorem Framing.cutShort_take {f : Framing} {header metadata payload : Bytes} {h : Header}
    {count : Nat}
    (hheader : f.headerLayout.Form header h) (hmetadata : h.metadataSize.toNat = metadata.length)
    (hpayload : h.payloadSize.toNat = payload.length)
    (hcount : count < (header ++ (metadata ++ payload)).length) :
    f.CutShort ((header ++ (metadata ++ payload)).take count)
      (Frame.segmentAt header metadata count) := by
  simp only [List.length_append] at hcount
  unfold Frame.segmentAt
  by_cases hshort : count < header.length
  · rw [if_pos hshort, List.take_append_of_le_length hshort.le]
    rw [← List.take_append_drop count header] at hheader
    have hrest : header.drop count ≠ [] := by
      simpa using hshort
    obtain ⟨s, hs⟩ := f.headerIntake_follows.unfinished_of_form hheader hrest
    exact (Framing.cutShort_of_headerLayout_unfinished hs).2
  · obtain ⟨behind, rfl⟩ := Nat.exists_eq_add_of_le (Nat.le_of_not_lt hshort)
    rw [if_neg hshort, List.take_length_add_append]
    have hlength : ((metadata ++ payload).take behind).length = behind := by
      rw [List.length_take, List.length_append]
      omega
    by_cases hbehind : behind < metadata.length
    · rw [if_pos (by omega)]
      exact .metadata hheader (by rw [hlength]; omega)
    · rw [if_neg (by omega)]
      exact .payload hheader (by rw [hlength]; omega) (by rw [hlength]; omega)

theorem Frame.cutShort_take {frame : Frame} {count : Nat} (hframe : frame.IsSound) (f : Framing)
    (hcount : count < (frame.bytes f).length) :
    f.CutShort ((frame.bytes f).take count)
      (segmentAt (f.headerBytes frame.header) frame.metadata count) := by
  rw [bytes_eq] at hcount ⊢
  exact Framing.cutShort_take (f.headerBytes_form hframe.magic) hframe.metadata hframe.payload
    hcount

namespace Stack

/-- Decoding reports the early end of the stream, in a segment, just if the bytes end inside a frame
and the first byte that is missing is one of that segment.  So it is with every front of a message
that a stack of the same framing encodes.  A complete frame is never reported that way, whatever its
segments hold. -/
theorem decode_unexpectedEof_iff (t : Stack) (bytes : Bytes) (pieces : List Delivery) :
    (∀ segment, (∃ e, (t.decodeInPieces bytes pieces).1 = .error e ∧ e.isUnexpectedEof = true ∧
        e.segment = segment) ↔ t.framing.CutShort bytes segment) ∧
    (∀ (s : Stack) (nonces : Nonces) (m : Message) (wire : Bytes), s.framing = t.framing →
      (s.encodeToBytes nonces m).result = .ok wire → bytes <+: wire → bytes ≠ wire →
      ∃ header metadata payload h e, wire = header ++ metadata ++ payload ∧
        t.framing.headerLayout.Form header h ∧ h.metadataSize.toNat = metadata.length ∧
        h.payloadSize.toNat = payload.length ∧ (t.decodeInPieces bytes pieces).1 = .error e ∧
        e.isUnexpectedEof = true ∧ e.segment = Frame.segmentAt header metadata bytes.length) ∧
    ∀ front rest frame e, bytes = front ++ rest → t.framing.frameLayout.Form front frame →
      (t.decodeInPieces bytes pieces).1 = .error e → e.isUnexpectedEof = false := by
  rw [decodeInPieces_eq]
  refine ⟨fun segment => decodeBytes_unexpectedEof_iff, ?_, ?_⟩
  · rintro s nonces m wire hframing hwire hfront hne
    obtain ⟨frame, hframe, rfl⟩ := encodeToBytes_eq_ok_iff.1 hwire
    have hsound := frameOf_isSound hframe
    have hshort : bytes.length < (frame.bytes s.framing).length :=
      Nat.lt_of_le_of_ne hfront.length_le fun h => hne (hfront.eq_of_length h)
    have hcut := Frame.cutShort_take hsound s.framing hshort
    rw [← List.prefix_iff_eq_take.1 hfront, hframing] at hcut
    obtain ⟨e, he, heof, hsegment⟩ := decodeBytes_unexpectedEof_iff.2 hcut
    refine ⟨_, _, _, _, e, ?_, t.framing.headerBytes_form hsound.magic, hsound.metadata,
      hsound.payload, he, heof, hsegment⟩
    rw [Frame.bytes_eq, hframing, List.append_assoc]
  · rintro front rest frame e rfl hframe he
    exact isUnexpectedEof_of_form hframe he

/-- A frame whose metadata is the start of a JSON text, and whose payload is too short to be sealed
and the start of a member. -/
def halfWritten : Frame where
  header := { Header.new .request .json 7 with
    compression := .gzip
    metadataSize := 1
    payloadSize := 2 }
  metadata := [0x7B]
  payload := [0x1F, 0x8B]

theorem decode_unexpectedEof_iff_sample :
    (∃ e, ((Stack.mk .fixed .builtin []).decodeInPieces (replyBytes.take 23) [.upTo 4]).1 =
        .error e ∧ e.isUnexpectedEof = true) ∧
      ∀ e, ((sample 6 64).decodeInPieces (halfWritten.bytes .compact) [.interrupted]).1 =
        .error e → e.isUnexpectedEof = false := by
  constructor
  · obtain ⟨_, _, _, _, e, -, -, -, -, he, heof, -⟩ :=
      (decode_unexpectedEof_iff ⟨.fixed, .builtin, []⟩ (replyBytes.take 23) [.upTo 4]).2.1
        ⟨.fixed, .builtin, []⟩ .ofCounter (.response 7 .json none [1, 2, 3]) replyBytes rfl rfl
        (List.take_prefix 23 replyBytes) (by decide)
    exact ⟨e, he, heof⟩
  · intro e he
    have hsound : halfWritten.IsSound := ⟨rfl, rfl, rfl⟩
    exact (decode_unexpectedEof_iff (sample 6 64) (halfWritten.bytes .compact) [.interrupted]).2.2
      _ [] _ e (List.append_nil _).symm (Frame.bytes_form hsound .compact) he

end Stack

end Courier
