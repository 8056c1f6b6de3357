import Courier.Framing
import Courier.Proofs.Varints
/-!
# The layout of frames

A frame is a header and two segments as long as the header says.  The two framings differ in the
layout of the header alone.  Reading follows the layout (`Framing.frameIntake_follows`), and what is
written for a message is laid out that way (`Frame.bytes_form`).
-/

namespace Courier

namespace Framing

def magicBytes : Bytes := [0x3F, 0x3F]

/-- The magic number; any other two bytes are refused. -/
def magicLayout : Layout Unit where
  Form bytes _ := bytes = magicBytes
  Refused bytes e :=
    ∃ a b, bytes = [a, b] ∧ bytes ≠ magicBytes ∧
      e = .invalidMagic (UInt16.ofNat (256 * a.toNat + b.toNat))
  Unfinished bytes s := bytes.length < 2 ∧ s = .header

def fieldsLayout : Framing → Layout Header
  | fixed => (Layout.exactly .header 20).bind fun fields => .nothing (Header.ofFields fields)
  | compact =>
    (Layout.exactly .header 4).bind fun codes =>
    (Varint.layout Varint.longest64 64).bind fun messageId =>
    (Varint.layout Varint.longest32 32).bind fun metadataSize =>
    (Varint.layout Varint.longest32 32).bind fun payloadSize =>
    .nothing {
      Header.ofCodes (codes.getD 0 0) (codes.getD 1 0) (codes.getD 2 0) (codes.getD 3 0) with
      messageId := UInt64.ofNat messageId
      metadataSize := UInt32.ofNat metadataSize
      payloadSize := UInt32.ofNat payloadSize }

def headerLayout (f : Framing) : Layout Header :=
  magicLayout.bind fun _ => f.fieldsLayout

/-- A header and the two segments that it announces. -/
def frameLayout (f : Framing) : Layout Frame :=
  f.headerLayout.bind fun header =>
  (Layout.exactly .metadata header.metadataSize.toNat).bind fun metadata =>
  (Layout.exactly .payload header.payloadSize.toNat).bind fun payload =>
  .nothing { header, metadata, payload }

theorem compact_of_fieldsLayout_refused {f : Framing} {fields : Bytes} {e : WireError}
    (h : f.fieldsLayout.Refused fields e) : f = .compact ∧ e = .invalidVarint .header := by
  cases f with
  | fixed =>
    rcases h with h | ⟨_, _, _, _, _, h⟩
    · exact h.elim
    · exact h.elim
  | compact =>
    rcases h with h | ⟨_, _, _, _, _, ⟨rfl, -⟩ | ⟨_, _, _, _, _, ⟨rfl, -⟩ | ⟨_, _, _, _, _,
      ⟨rfl, -⟩ | ⟨_, _, _, _, _, h⟩⟩⟩⟩
    · exact h.elim
    · exact ⟨rfl, rfl⟩
    · exact ⟨rfl, rfl⟩
    · exact ⟨rfl, rfl⟩
    · exact h.elim

/-! ## Reading -/

theorem checkMagic_pair (a b : UInt8) :
    Header.checkMagic [a, b] =
      if [a, b] = magicBytes then .ok ()
      else .error (.invalidMagic (UInt16.ofNat (256 * a.toNat + b.toNat))) := by
  have hvalue : Bytes.ofBigEndian [a, b] = 256 * a.toNat + b.toNat := by
    simp [Bytes.ofBigEndian]
  have hiff : UInt16.ofNat (256 * a.toNat + b.toNat) = Header.magicNumber ↔
      [a, b] = magicBytes := by
    have ha := a.toNat_lt
    have hb := b.toNat_lt
    rw [← UInt16.toNat_inj, UInt16.toNat_ofNat', Nat.mod_eq_of_lt (by omega)]
    simp only [magicBytes, List.cons.injEq, and_true, ← UInt8.toNat_inj]
    change 256 * a.toNat + b.toNat = 16191 ↔ a.toNat = 63 ∧ b.toNat = 63
    omega
  unfold Header.checkMagic
  rw [hvalue]
  by_cases hmagic : [a, b] = magicBytes
  · rw [if_pos hmagic]
    exact if_pos (hiff.2 hmagic)
  · rw [if_neg hmagic]
    exact if_neg (mt hiff.1 hmagic)

theorem runBytes_magicIntake (a b : UInt8) (rest : Bytes) :
    magicIntake.runBytes ([a, b] ++ rest) =
      (if [a, b] = magicBytes then .ok ()
        else .error (.invalidMagic (UInt16.ofNat (256 * a.toNat + b.toNat))), rest) := by
  have htake : (Intake.take .header 2).runBytes ([a, b] ++ rest) = (.ok [a, b], rest) :=
    (Intake.take_follows .header 2).form ⟨rfl, rfl⟩ rest
  rw [magicIntake, Intake.bind_eq, Intake.runBytes_bind_ok htake, checkMagic_pair]
  split <;> rfl

theorem magicIntake_follows : magicIntake.Follows magicLayout where
  form := by
    rintro _ _ rfl rest
    rw [magicBytes, runBytes_magicIntake, magicBytes, if_pos rfl]
  refused := by
    rintro _ _ ⟨a, b, rfl, hmagic, rfl⟩ rest
    rw [runBytes_magicIntake, if_neg hmagic]
  unfinished := by
    rintro bytes _ ⟨hshort, rfl⟩
    obtain ⟨size, received, hrun⟩ := (Intake.take_follows .header 2).unfinished ⟨hshort, rfl⟩
    exact ⟨size, received, Intake.runBytes_bind_error hrun _⟩
  covers bytes := by
    match bytes with
    | [] => exact Or.inr (Or.inr ⟨.header, by simp, rfl⟩)
    | [_] => exact Or.inr (Or.inr ⟨.header, by simp, rfl⟩)
    | a :: b :: rest =>
      by_cases hmagic : [a, b] = magicBytes
      · exact Or.inl ⟨[a, b], rest, (), rfl, hmagic⟩
      · exact Or.inr (Or.inl ⟨[a, b], rest, _, rfl, a, b, rfl, hmagic, rfl⟩)

theorem fieldsIntake_follows (f : Framing) : f.fieldsIntake.Follows f.fieldsLayout := by
  cases f with
  | fixed =>
    exact (Intake.take_follows .header 20).bind fun fields => Intake.done_follows _
  | compact =>
    have hid : (Varint.intake Varint.longest64 64).Follows (Varint.layout Varint.longest64 64) :=
      Varint.intake_follows Varint.isField64
    exact (Intake.take_follows .header 4).bind fun codes => hid.bind fun messageId =>
      Varint.sizeIntake_bind_follows fun metadataSize =>
        Varint.sizeIntake_bind_follows fun payloadSize => by
          rw [UInt32.ofNat_toNat, UInt32.ofNat_toNat]
          exact Intake.done_follows _

theorem headerIntake_follows (f : Framing) : f.headerIntake.Follows f.headerLayout :=
  magicIntake_follows.bind fun _ => f.fieldsIntake_follows

theorem frameIntake_follows (f : Framing) : f.frameIntake.Follows f.frameLayout :=
  f.headerIntake_follows.bind fun header =>
    (Intake.take_follows .metadata header.metadataSize.toNat).bind fun _ =>
      (Intake.take_follows .payload header.payloadSize.toNat).bind fun _ =>
        Intake.done_follows _

end Framing

/-! ## Writing -/

namespace Header

theorem leadBytes_eq {h : Header} (hmagic : h.magic = magicNumber) :
    h.leadBytes = Framing.magicBytes ++
      [h.version, h.messageType.code, h.compression.code, h.serialization.code] := by
  rw [leadBytes, hmagic]
  rfl

theorem ofFields_eq {h : Header} (hmagic : h.magic = magicNumber) :
    ofFields ([h.version, h.messageType.code, h.compression.code, h.serialization.code] ++
      (Bytes.bigEndian 8 h.messageId.toNat ++ (Bytes.bigEndian 4 h.metadataSize.toNat ++
        Bytes.bigEndian 4 h.payloadSize.toNat))) = h.normalized := by
  have hid := Bytes.length_bigEndian 8 h.messageId.toNat
  have hmetadata := Bytes.length_bigEndian 4 h.metadataSize.toNat
  have hpayload := Bytes.length_bigEndian 4 h.payloadSize.toNat
  have hid' := Bytes.ofBigEndian_bigEndian_uint64 h.messageId
  have hmetadata' := Bytes.ofBigEndian_bigEndian_uint32 h.metadataSize
  have hpayload' := Bytes.ofBigEndian_bigEndian_uint32 h.payloadSize
  -- Only the lengths of the three words matter from here on.
  generalize Bytes.bigEndian 8 h.messageId.toNat = messageId at hid hid' ⊢
  generalize Bytes.bigEndian 4 h.metadataSize.toNat = metadataSize at hmetadata hmetadata' ⊢
  generalize Bytes.bigEndian 4 h.payloadSize.toNat = payloadSize at hpayload hpayload' ⊢
  have hbehind : (messageId ++ (metadataSize ++ payloadSize)).drop 12 = payloadSize := by
    rw [← List.append_assoc]
    exact List.drop_left' (by simp [hid, hmetadata])
  simp only [ofFields, List.cons_append, List.nil_append, List.getD_cons_zero,
    List.getD_cons_succ, List.drop_succ_cons, List.drop_zero, hbehind]
  rw [List.take_left' hid, List.drop_left' hid, List.take_left' hmetadata,
    List.take_of_length_le hpayload.le, hid', hmetadata', hpayload']
  simp only [ofCodes, normalized, hmagic]
  rfl

end Header

namespace Framing

theorem headerBytes_form (f : Framing) {h : Header} (hmagic : h.magic = Header.magicNumber) :
    f.headerLayout.Form (f.headerBytes h) h.normalized := by
  let codes := [h.version, h.messageType.code, h.compression.code, h.serialization.code]
  cases f with
  | fixed =>
    have hbytes : fixed.headerBytes h = magicBytes ++ (codes ++
        (Bytes.bigEndian 8 h.messageId.toNat ++ (Bytes.bigEndian 4 h.metadataSize.toNat ++
          Bytes.bigEndian 4 h.payloadSize.toNat))) := by
      simp [headerBytes, Header.bytes, Header.leadBytes_eq hmagic, codes]
    rw [hbytes]
    apply Layout.bind_form (x := ()) rfl
    apply Layout.bind_nothing_form (Layout.exactly_form .header ?_)
    · exact (Header.ofFields_eq hmagic).symm
    · simp [codes]
  | compact =>
    have hbytes : compact.headerBytes h = magicBytes ++ (codes ++
        (Varint.encode h.messageId.toNat ++ (Varint.encode h.metadataSize.toNat ++
          Varint.encode h.payloadSize.toNat))) := by
      simp [headerBytes, Header.leadBytes_eq hmagic, codes]
    rw [hbytes]
    apply Layout.bind_form (x := ()) rfl
    apply Layout.bind_form (Layout.exactly_form .header rfl)
    apply Layout.bind_form (Varint.encode_form_uint64 h.messageId)
    apply Layout.bind_form (Varint.encode_form_uint32 h.metadataSize)
    apply Layout.bind_nothing_form (Varint.encode_form_uint32 h.payloadSize)
    obtain ⟨magic, version, messageType, compression, serialization, messageId, metadataSize,
      payloadSize⟩ := h
    subst hmagic
    simp only [Header.normalized, Header.ofCodes, UInt64.ofNat_toNat, UInt32.ofNat_toNat]
    rfl

end Framing

namespace Frame

/-- The header announces the segments. -/
structure IsSound (frame : Frame) : Prop where
  magic : frame.header.magic = Header.magicNumber
  metadata : frame.header.metadataSize.toNat = frame.metadata.length
  payload : frame.header.payloadSize.toNat = frame.payload.length

theorem bytes_eq (frame : Frame) (f : Framing) :
    frame.bytes f = f.headerBytes frame.header ++ (frame.metadata ++ frame.payload) := by
  simp [bytes, segments]

theorem bytes_form {frame : Frame} (hframe : frame.IsSound) (f : Framing) :
    f.frameLayout.Form (frame.bytes f) { frame with header := frame.header.normalized } := by
  rw [bytes_eq]
  apply Layout.bind_form (f.headerBytes_form hframe.magic)
  apply Layout.bind_form (Layout.exactly_form .metadata hframe.metadata.symm)
  exact Layout.bind_nothing_form (Layout.exactly_form .payload hframe.payload.symm) rfl

end Frame

/-! ## Messages in frames -/

namespace Frame

def toMessage (registry : Registry) (frame : Frame) : Except WireError Message :=
  (registry.withCodec frame.header.serialization (·.decodeMetadata frame.metadata)).map
    fun metadata => { header := frame.header, metadata, payload := frame.payload }

theorem sizeField_eq_ok_iff {segment : Segment} {bytes : Bytes} {size : UInt32} :
    sizeField segment bytes = .ok size ↔
      bytes.length < UInt32.size ∧ size = UInt32.ofNat bytes.length := by
  unfold sizeField
  by_cases hsize : bytes.length < UInt32.size
  · simp [hsize, eq_comm]
  · simp [hsize]

theorem withCodec_eq_ok_iff {α : Type} {registry : Registry} {serialization : Serialization}
    {f : Codec → Except WireError α} {value : α} :
    registry.withCodec serialization f = .ok value ↔
      ∃ codec, registry.lookup serialization = some codec ∧ f codec = .ok value := by
  unfold Registry.withCodec
  cases registry.lookup serialization <;> simp

theorem withCodec_eq_error_iff {α : Type} {registry : Registry} {serialization : Serialization}
    {f : Codec → Except WireError α} {e : WireError} :
    registry.withCodec serialization f = .error e ↔
      registry.lookup serialization = none ∧
          e = .unsupportedSerializer serialization.code .metadata ∨
        ∃ codec, registry.lookup serialization = some codec ∧ f codec = .error e := by
  unfold Registry.withCodec
  cases registry.lookup serialization <;> simp [eq_comm]

theorem sizeField_eq_error_iff {segment : Segment} {bytes : Bytes} {e : WireError} :
    sizeField segment bytes = .error e ↔
      UInt32.size ≤ bytes.length ∧ e = .sizeOverflow segment bytes.length := by
  unfold sizeField
  by_cases hsize : bytes.length < UInt32.size
  · simp [hsize]
  · simp [hsize, Nat.le_of_not_lt hsize, eq_comm]

theorem toMessage_eq_ok_iff {registry : Registry} {frame : Frame} {m : Message} :
    frame.toMessage registry = .ok m ↔
      ∃ codec metadata, registry.lookup frame.header.serialization = some codec ∧
        codec.decodeMetadata frame.metadata = .ok metadata ∧
        m = { header := frame.header, metadata, payload := frame.payload } := by
  unfold toMessage
  constructor
  · intro h
    cases hcodec : registry.withCodec frame.header.serialization
        (·.decodeMetadata frame.metadata) with
    | error e =>
      rw [hcodec] at h
      cases h
    | ok metadata =>
      rw [hcodec] at h
      cases h
      obtain ⟨codec, hlookup, hdecode⟩ := withCodec_eq_ok_iff.1 hcodec
      exact ⟨codec, metadata, hlookup, hdecode, rfl⟩
  · rintro ⟨codec, metadata, hlookup, hdecode, rfl⟩
    rw [withCodec_eq_ok_iff.2 ⟨codec, hlookup, hdecode⟩]
    rfl

theorem ofMessage_eq_ok_iff {registry : Registry} {m : Message} {frame : Frame} :
    ofMessage registry m = .ok frame ↔
      ∃ codec metadata, registry.lookup m.header.serialization = some codec ∧
        codec.encodeMetadata m.metadata = .ok metadata ∧ metadata.length < UInt32.size ∧
        m.payload.length < UInt32.size ∧
        frame = {
          header := { m.header with
            magic := Header.magicNumber
            metadataSize := UInt32.ofNat metadata.length
            payloadSize := UInt32.ofNat m.payload.length }
          metadata
          payload := m.payload } := by
  constructor
  · intro h
    obtain ⟨metadata, hcodec, h⟩ := bind_eq_ok_iff.1 h
    obtain ⟨metadataSize, hmetadata, h⟩ := bind_eq_ok_iff.1 h
    obtain ⟨payloadSize, hpayload, h⟩ := bind_eq_ok_iff.1 h
    obtain ⟨codec, hlookup, hencode⟩ := withCodec_eq_ok_iff.1 hcodec
    obtain ⟨hlength, rfl⟩ := sizeField_eq_ok_iff.1 hmetadata
    obtain ⟨hlength', rfl⟩ := sizeField_eq_ok_iff.1 hpayload
    exact ⟨codec, metadata, hlookup, hencode, hlength, hlength', (Except.ok.inj h).symm⟩
  · rintro ⟨codec, metadata, hlookup, hencode, hlength, hlength', rfl⟩
    exact bind_eq_ok_iff.2 ⟨_, withCodec_eq_ok_iff.2 ⟨codec, hlookup, hencode⟩,
      bind_eq_ok_iff.2 ⟨_, sizeField_eq_ok_iff.2 ⟨hlength, rfl⟩,
        bind_eq_ok_iff.2 ⟨_, sizeField_eq_ok_iff.2 ⟨hlength', rfl⟩, rfl⟩⟩⟩

/-- A message is not framed if its metadata cannot be written, or else if a segment is too long for
its size field. -/
theorem ofMessage_eq_error_iff {registry : Registry} {m : Message} {e : WireError} :
    ofMessage registry m = .error e ↔
      registry.withCodec m.header.serialization (·.encodeMetadata m.metadata) = .error e ∨
      ∃ metadata, registry.withCodec m.header.serialization (·.encodeMetadata m.metadata) =
          .ok metadata ∧
        (UInt32.size ≤ metadata.length ∧ e = .sizeOverflow .metadata metadata.length ∨
          metadata.length < UInt32.size ∧ UInt32.size ≤ m.payload.length ∧
            e = .sizeOverflow .payload m.payload.length) := by
  constructor
  · intro h
    rcases bind_eq_error_iff.1 h with hcodec | ⟨metadata, hcodec, h⟩
    · exact Or.inl hcodec
    refine Or.inr ⟨metadata, hcodec, ?_⟩
    rcases bind_eq_error_iff.1 h with hmetadata | ⟨metadataSize, hmetadata, h⟩
    · exact Or.inl (sizeField_eq_error_iff.1 hmetadata)
    rcases bind_eq_error_iff.1 h with hpayload | ⟨payloadSize, -, h⟩
    · exact Or.inr ⟨(sizeField_eq_ok_iff.1 hmetadata).1, sizeField_eq_error_iff.1 hpayload⟩
    · cases h
  · rintro (hcodec | ⟨metadata, hcodec, hmetadata | ⟨hfits, hpayload⟩⟩)
    · exact bind_eq_error_iff.2 (Or.inl hcodec)
    · exact bind_eq_error_iff.2 (Or.inr ⟨metadata, hcodec,
        bind_eq_error_iff.2 (Or.inl (sizeField_eq_error_iff.2 hmetadata))⟩)
    · exact bind_eq_error_iff.2 (Or.inr ⟨metadata, hcodec,
        bind_eq_error_iff.2 (Or.inr ⟨_, sizeField_eq_ok_iff.2 ⟨hfits, rfl⟩,
          bind_eq_error_iff.2 (Or.inl (sizeField_eq_error_iff.2 hpayload))⟩)⟩)

theorem ofMessage_isSound {registry : Registry} {m : Message} {frame : Frame}
    (hframe : ofMessage registry m = .ok frame) : frame.IsSound := by
  obtain ⟨codec, metadata, -, -, hmetadata, hpayload, rfl⟩ := ofMessage_eq_ok_iff.1 hframe
  refine ⟨rfl, ?_, ?_⟩
  · exact UInt32.toNat_ofNat_of_lt' hmetadata
  · exact UInt32.toNat_ofNat_of_lt' hpayload

end Frame

namespace Framing

variable {f : Framing}

theorem runBytes_intake_form {front : Bytes} {frame : Frame}
    (hfront : f.frameLayout.Form front frame) (registry : Registry) (rest : Bytes) :
    (f.intake registry).runBytes (front ++ rest) = (frame.toMessage registry, rest) := by
  rw [intake, Intake.bind_eq, Intake.runBytes_bind_ok (f.frameIntake_follows.form hfront rest)]
  unfold Frame.toMessage
  cases registry.withCodec frame.header.serialization (·.decodeMetadata frame.metadata) with
  | ok metadata => rfl
  | error e => rfl

theorem runBytes_intake_refused {front : Bytes} {e : WireError}
    (hfront : f.frameLayout.Refused front e) (registry : Registry) (rest : Bytes) :
    (f.intake registry).runBytes (front ++ rest) = (.error e, rest) :=
  Intake.runBytes_bind_error (f.frameIntake_follows.refused hfront rest) _

theorem runBytes_intake_unfinished {bytes : Bytes} {s : Segment}
    (hbytes : f.frameLayout.Unfinished bytes s) (registry : Registry) :
    ∃ size received, (f.intake registry).runBytes bytes =
      (.error (.transport s (Intake.shortage s size received)), []) := by
  obtain ⟨size, received, hrun⟩ := f.frameIntake_follows.unfinished hbytes
  exact ⟨size, received, Intake.runBytes_bind_error hrun _⟩

end Framing

end Courier
