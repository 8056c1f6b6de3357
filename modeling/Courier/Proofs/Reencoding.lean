import Courier.Proofs.Framings
import Courier.Proofs.MetadataForms
import Courier.Proofs.Opening
/-!
# Encoding what was decoded

A frame that is decoded and encoded again keeps all but the spelling of its metadata and the
padding of its variable-length integers (`Framing.encode_of_decode`).  What is written for a
number is the only shortest of its forms (`Varint.shortest_form_iff`), and the parts of a frame
can be told from its bytes (`Parts.IsFrameOf.eq_of_bytes_eq`), so byte strings are compared part
by part.
-/

namespace Courier

/-- The byte string has the property, and none that is shorter does. -/
def Shortest (P : Bytes → Prop) (bytes : Bytes) : Prop :=
  P bytes ∧ ∀ other, P other → bytes.length ≤ other.length

theorem shortest_eq_iff {bytes written : Bytes} :
    Shortest (· = written) bytes ↔ bytes = written := by
  constructor
  · exact And.left
  · rintro rfl
    exact ⟨rfl, fun other hother => hother ▸ le_rfl⟩

namespace Varint

variable {maxLength maxBits n : Nat} {bytes : Bytes}

theorem eq_of_ofGroups_eq {front front' : Bytes} {b b' : UInt8}
    (hfront : ∀ c ∈ front, 128 ≤ c.toNat) (hb : b.toNat < 128)
    (hfront' : ∀ c ∈ front', 128 ≤ c.toNat) (hb' : b'.toNat < 128)
    (hlength : front.length = front'.length)
    (hvalue : ofGroups (front ++ [b]) = ofGroups (front' ++ [b'])) :
    front ++ [b] = front' ++ [b'] := by
  induction front generalizing front' with
  | nil =>
    obtain rfl := List.length_eq_zero_iff.1 hlength.symm
    simp only [List.nil_append, ofGroups] at hvalue
    have hsame : b = b' := UInt8.toNat_inj.1 (by omega)
    rw [hsame]
  | cons c front ih =>
    cases front' with
    | nil => cases hlength
    | cons c' front' =>
      simp only [List.cons_append, ofGroups] at hvalue
      have hc : 128 ≤ c.toNat := hfront c List.mem_cons_self
      have hc' : 128 ≤ c'.toNat := hfront' c' List.mem_cons_self
      have hlt := c.toNat_lt
      have hlt' := c'.toNat_lt
      have hsame : c = c' := UInt8.toNat_inj.1 (by omega)
      have hrest := ih (fun c hc => hfront c (List.mem_cons_of_mem _ hc))
        (fun c hc => hfront' c (List.mem_cons_of_mem _ hc)) (Nat.succ.inj hlength) (by omega)
      rw [List.cons_append, List.cons_append, hsame, hrest]

theorem length_encode_le_of_form (hbytes : (layout maxLength maxBits).Form bytes n) :
    (encode n).length ≤ bytes.length := by
  obtain ⟨front, b, rfl, -, -, rfl, -⟩ := hbytes
  have hlt := ofGroups_lt (front ++ [b])
  rw [List.length_append, List.length_singleton] at hlt ⊢
  exact length_encode_le hlt

theorem eq_encode_of_form (hbytes : (layout maxLength maxBits).Form bytes n)
    (hlength : bytes.length ≤ (encode n).length) : bytes = encode n := by
  have hle := length_encode_le_of_form hbytes
  obtain ⟨front, b, rfl, hopen, hb, hvalue, -⟩ := hbytes
  obtain ⟨front', b', hencode, hfront', hb'⟩ := encode_eq_append n
  have hwritten := ofGroups_encode n
  rw [hencode] at hlength hle hwritten ⊢
  simp only [List.length_append, List.length_singleton] at hlength hle
  exact eq_of_ofGroups_eq hopen.2.1 hb hfront' hb' (by omega) (hvalue.trans hwritten.symm)

theorem shortest_form_iff (hencode : (layout maxLength maxBits).Form (encode n) n) :
    Shortest ((layout maxLength maxBits).Form · n) bytes ↔ bytes = encode n := by
  constructor
  · rintro ⟨hbytes, hshortest⟩
    exact eq_encode_of_form hbytes (hshortest _ hencode)
  · rintro rfl
    exact ⟨hencode, fun other hother => length_encode_le_of_form hother⟩

end Varint

namespace Framing

variable {f : Framing} {bytes bytes' rest rest' : Bytes}

theorem shortest_idForm_iff {id : UInt64} :
    Shortest (f.IdForm · id) bytes ↔ bytes = f.idBytes id := by
  cases f with
  | fixed => exact shortest_eq_iff
  | compact => exact Varint.shortest_form_iff (Varint.encode_form_uint64 id)

theorem shortest_sizeForm_iff {size : UInt32} :
    Shortest (f.SizeForm · size) bytes ↔ bytes = f.sizeBytes size := by
  cases f with
  | fixed => exact shortest_eq_iff
  | compact => exact Varint.shortest_form_iff (Varint.encode_form_uint32 size)

theorem idForm_unique {id id' : UInt64} (h : f.IdForm bytes id) (h' : f.IdForm bytes' id')
    (hsame : bytes ++ rest = bytes' ++ rest') : bytes = bytes' ∧ rest = rest' := by
  cases f with
  | fixed =>
    obtain rfl : bytes = _ := h
    obtain rfl : bytes' = _ := h'
    exact List.append_inj hsame (by simp only [Bytes.length_bigEndian])
  | compact =>
    have hreads : (Varint.intake Varint.longest64 64).Follows (Varint.layout Varint.longest64 64) :=
      Varint.intake_follows Varint.isField64
    obtain ⟨hbytes, -, hrest⟩ := hreads.form_unique h h' hsame
    exact ⟨hbytes, hrest⟩

theorem sizeForm_unique {size size' : UInt32} (h : f.SizeForm bytes size)
    (h' : f.SizeForm bytes' size') (hsame : bytes ++ rest = bytes' ++ rest') :
    bytes = bytes' ∧ size = size' ∧ rest = rest' := by
  cases f with
  | fixed =>
    obtain rfl : bytes = _ := h
    obtain rfl : bytes' = _ := h'
    obtain ⟨hbytes, hrest⟩ := List.append_inj hsame (by simp only [Bytes.length_bigEndian])
    have hvalue := congrArg (fun word => UInt32.ofNat (Bytes.ofBigEndian word)) hbytes
    simp only [Bytes.ofBigEndian_bigEndian_uint32] at hvalue
    exact ⟨hbytes, hvalue, hrest⟩
  | compact =>
    have hreads : (Varint.intake Varint.longest32 32).Follows (Varint.layout Varint.longest32 32) :=
      Varint.intake_follows Varint.isField32
    obtain ⟨hbytes, hvalue, hrest⟩ := hreads.form_unique h h' hsame
    exact ⟨hbytes, UInt32.toNat_inj.1 hvalue, hrest⟩

end Framing

/-! ## Frames in parts -/

/-- A frame in its parts: the six bytes that both framings have in front, the id, the two sizes,
and the two segments. -/
@[ext]
structure Parts where
  lead : Bytes
  id : Bytes
  metadataSize : Bytes
  payloadSize : Bytes
  metadata : Bytes
  payload : Bytes

namespace Parts

variable {f : Framing} {m m' : Message} {parts parts' : Parts} {own : Bytes}

def bytes (parts : Parts) : Bytes :=
  parts.lead ++ (parts.id ++ (parts.metadataSize ++ (parts.payloadSize ++
    (parts.metadata ++ parts.payload))))

structure IsFrameOf (parts : Parts) (f : Framing) (m : Message) : Prop where
  lead : parts.lead = [0x3F, 0x3F, m.header.version, m.header.messageType.code,
    m.header.compression.code, m.header.serialization.code]
  id : f.IdForm parts.id m.header.messageId
  metadataSize : f.SizeForm parts.metadataSize m.header.metadataSize
  payloadSize : f.SizeForm parts.payloadSize m.header.payloadSize
  metadata : m.header.metadataSize.toNat = parts.metadata.length
  payload : parts.payload = m.payload

structure IsShortest (parts : Parts) (f : Framing) (id : UInt64)
    (metadataSize payloadSize : UInt32) :
    Prop where
  id : Shortest (f.IdForm · id) parts.id
  metadataSize : Shortest (f.SizeForm · metadataSize) parts.metadataSize
  payloadSize : Shortest (f.SizeForm · payloadSize) parts.payloadSize

/-- What is written for a message, with the given bytes as its metadata, where the parts stood: the
lead and the payload are theirs, and the id and the sizes are in their shortest forms. -/
structure Restates (again parts : Parts) (f : Framing) (m : Message) (own : Bytes) : Prop where
  lead : again.lead = parts.lead
  metadata : again.metadata = own
  payload : again.payload = parts.payload
  shortest : again.IsShortest f m.header.messageId (UInt32.ofNat own.length) m.header.payloadSize

def ofMessage (f : Framing) (m : Message) (own : Bytes) : Parts where
  lead := [0x3F, 0x3F, m.header.version, m.header.messageType.code, m.header.compression.code,
    m.header.serialization.code]
  id := f.idBytes m.header.messageId
  metadataSize := f.sizeBytes (UInt32.ofNat own.length)
  payloadSize := f.sizeBytes m.header.payloadSize
  metadata := own
  payload := m.payload

theorem ofMessage_isShortest (f : Framing) (m : Message) (own : Bytes) :
    (ofMessage f m own).IsShortest f m.header.messageId (UInt32.ofNat own.length)
      m.header.payloadSize where
  id := Framing.shortest_idForm_iff.2 rfl
  metadataSize := Framing.shortest_sizeForm_iff.2 rfl
  payloadSize := Framing.shortest_sizeForm_iff.2 rfl

def resized (m : Message) (own : Bytes) : Message :=
  { m with header := { m.header with metadataSize := UInt32.ofNat own.length } }

theorem ofMessage_isFrameOf (f : Framing) (m : Message) (hfits : own.length < UInt32.size) :
    (ofMessage f m own).IsFrameOf f (resized m own) where
  lead := rfl
  id := (ofMessage_isShortest f m own).id.1
  metadataSize := (ofMessage_isShortest f m own).metadataSize.1
  payloadSize := (ofMessage_isShortest f m own).payloadSize.1
  metadata := UInt32.toNat_ofNat_of_lt' hfits
  payload := rfl

theorem IsFrameOf.eq_of_bytes_eq (h : parts.IsFrameOf f m) (h' : parts'.IsFrameOf f m')
    (hsame : parts.bytes = parts'.bytes) : parts = parts' := by
  have hlength : parts.lead.length = parts'.lead.length := by
    rw [h.lead, h'.lead]
    rfl
  obtain ⟨hlead, hsame⟩ := List.append_inj hsame hlength
  obtain ⟨hid, hsame⟩ := Framing.idForm_unique h.id h'.id hsame
  obtain ⟨hmetadataSize, hvalue, hsame⟩ :=
    Framing.sizeForm_unique h.metadataSize h'.metadataSize hsame
  obtain ⟨hpayloadSize, -, hsame⟩ := Framing.sizeForm_unique h.payloadSize h'.payloadSize hsame
  have hlength : parts.metadata.length = parts'.metadata.length := by
    rw [← h.metadata, ← h'.metadata, hvalue]
  obtain ⟨hmetadata, hpayload⟩ := List.append_inj hsame hlength
  exact Parts.ext hlead hid hmetadataSize hpayloadSize hmetadata hpayload

theorem IsFrameOf.metadataSize_eq (h : parts.IsFrameOf f m) (hown : parts.metadata = own) :
    UInt32.ofNat own.length = m.header.metadataSize := by
  rw [← hown, ← h.metadata, UInt32.ofNat_toNat]

theorem IsFrameOf.length_ofMessage_le (h : parts.IsFrameOf f m) (hown : parts.metadata = own) :
    (ofMessage f m own).bytes.length ≤ parts.bytes.length := by
  have hshortest := ofMessage_isShortest f m own
  rw [h.metadataSize_eq hown] at hshortest
  have hid := hshortest.id.2 _ h.id
  have hmetadataSize := hshortest.metadataSize.2 _ h.metadataSize
  have hpayloadSize := hshortest.payloadSize.2 _ h.payloadSize
  have hlead : (ofMessage f m own).lead = parts.lead := h.lead.symm
  have hmetadata : (ofMessage f m own).metadata = parts.metadata := hown.symm
  have hpayload : (ofMessage f m own).payload = parts.payload := h.payload.symm
  simp only [bytes, List.length_append, hlead, hmetadata, hpayload]
  omega

theorem IsFrameOf.eq_ofMessage (h : parts.IsFrameOf f m) (hown : parts.metadata = own)
    (hshortest : parts.IsShortest f m.header.messageId m.header.metadataSize m.header.payloadSize) :
    parts = ofMessage f m own := by
  have hsize := congrArg f.sizeBytes (h.metadataSize_eq hown)
  exact Parts.ext h.lead (Framing.shortest_idForm_iff.1 hshortest.id)
    ((Framing.shortest_sizeForm_iff.1 hshortest.metadataSize).trans hsize.symm)
    (Framing.shortest_sizeForm_iff.1 hshortest.payloadSize) hown h.payload

/-- What is written is the frame just if the metadata are the same and nothing else can be
shorter. -/
theorem IsFrameOf.ofMessage_bytes_eq_iff (h : parts.IsFrameOf f m)
    (hfits : own.length < UInt32.size) :
    (ofMessage f m own).bytes = parts.bytes ↔ parts.metadata = own ∧
      parts.IsShortest f m.header.messageId m.header.metadataSize m.header.payloadSize := by
  constructor
  · intro hsame
    obtain rfl := (ofMessage_isFrameOf f m hfits).eq_of_bytes_eq h hsame
    have hshortest := ofMessage_isShortest f m own
    have hsize : UInt32.ofNat own.length = m.header.metadataSize := h.metadataSize_eq rfl
    rw [hsize] at hshortest
    exact ⟨rfl, hshortest⟩
  · rintro ⟨hown, hshortest⟩
    rw [h.eq_ofMessage hown hshortest]

theorem IsFrameOf.isShortest_of_fixed (h : parts.IsFrameOf .fixed m) :
    parts.IsShortest .fixed m.header.messageId m.header.metadataSize m.header.payloadSize where
  id := Framing.shortest_idForm_iff.2 h.id
  metadataSize := Framing.shortest_sizeForm_iff.2 h.metadataSize
  payloadSize := Framing.shortest_sizeForm_iff.2 h.payloadSize

theorem IsFrameOf.fields_of_fixed (h : parts.IsFrameOf .fixed m) :
    parts.bytes.take 14 = parts.lead ++ parts.id ∧
      (parts.bytes.drop 18).take 4 = parts.payloadSize := by
  have hid : parts.id.length = 8 := h.id ▸ Bytes.length_bigEndian _ _
  have hmetadataSize : parts.metadataSize.length = 4 := h.metadataSize ▸ Bytes.length_bigEndian _ _
  have hpayloadSize : parts.payloadSize.length = 4 := h.payloadSize ▸ Bytes.length_bigEndian _ _
  have hfront : (parts.lead ++ parts.id).length = 14 := by
    rw [List.length_append, h.lead, hid]
    rfl
  have hbytes : parts.bytes = parts.lead ++ parts.id ++ (parts.metadataSize ++
      (parts.payloadSize ++ (parts.metadata ++ parts.payload))) := (List.append_assoc ..).symm
  constructor
  · rw [hbytes, List.take_left' hfront]
  · have hbehind : (parts.lead ++ parts.id ++ parts.metadataSize).length = 18 := by
      rw [List.length_append, hfront, hmetadataSize]
    rw [hbytes, ← List.append_assoc, List.drop_left' hbehind, List.take_left' hpayloadSize]

end Parts

/-! ## Encoding what was decoded -/

/-- The codec can write all metadata that it reads. -/
def Codec.WritesWhatItReads (codec : Codec) : Prop :=
  ∀ segment metadata, codec.decode Metadata.capabilities segment = .ok metadata →
    ∃ own, codec.encode Metadata.capabilities metadata = .ok own

theorem Codec.decodeMetadata_eq_some_iff {codec : Codec} {segment : Bytes} {value : Metadata} :
    codec.decodeMetadata segment = .ok (some value) ↔
      segment ≠ [] ∧ codec.decode Metadata.capabilities segment = .ok value := by
  unfold decodeMetadata
  by_cases hempty : segment = []
  · simp [hempty]
  · cases codec.decode Metadata.capabilities segment <;> simp [hempty]

theorem Codec.WritesWhatItReads.encodeMetadata {codec : Codec} (hcodec : codec.WritesWhatItReads)
    {segment : Bytes} {metadata : Option Metadata}
    (hread : codec.decodeMetadata segment = .ok metadata) :
    ∃ own, codec.encodeMetadata metadata = .ok own := by
  cases metadata with
  | none => exact ⟨[], rfl⟩
  | some value =>
    obtain ⟨-, hvalue⟩ := decodeMetadata_eq_some_iff.1 hread
    obtain ⟨own, hown⟩ := hcodec segment value hvalue
    refine ⟨own, ?_⟩
    rw [Codec.encodeMetadata, hown]
    rfl

theorem Codec.encodeMetadata_of_nil {codec : Codec} {segment own : Bytes}
    {metadata : Option Metadata} (hread : codec.decodeMetadata segment = .ok metadata)
    (hown : codec.encodeMetadata metadata = .ok own) (hnil : segment = []) : own = [] := by
  obtain rfl := (Codec.eq_none_iff_of_decodeMetadata hread).2 hnil
  cases hown
  rfl

theorem Codec.writesWhatItReads_of_builtin {serialization : Serialization} {codec : Codec}
    (hlookup : Registry.builtin.lookup serialization = some codec) : codec.WritesWhatItReads := by
  rcases eq_json_or_binary hlookup with rfl | rfl
  · exact fun _ _ _ => ⟨_, rfl⟩
  · exact fun _ _ _ => ⟨_, rfl⟩

namespace Framing

open Parts

variable {f : Framing} {registry : Registry} {source : Source} {m : Message} {codec : Codec}
  {own : Bytes}

theorem parts_of_decode (hm : ((f.bare registry).decode source).1.result = .ok m) :
    ∃ (frame : Parts) (codec : Codec),
      source.pending = frame.bytes ++ ((f.bare registry).decode source).2.pending ∧
      frame.IsFrameOf f m ∧ m.IsSized ∧ registry.lookup m.header.serialization = some codec ∧
      codec.decodeMetadata frame.metadata = .ok m.metadata := by
  obtain ⟨front, frame, framed, hsplit, hframe, hmessage, hlayers⟩ := Stack.frame_of_decode hm
  cases hlayers
  have hsized := Stack.isSized_of_toMessage hframe hmessage
  obtain ⟨codec, metadata, hlookup, hread, rfl⟩ := Frame.toMessage_eq_ok_iff.1 hmessage
  obtain ⟨header, rfl, hheader, hmetadata, -⟩ := parts_of_frameLayout hframe
  obtain ⟨hmagic, -, id, metadataSize, payloadSize, rfl, hid, hmetadataSize, hpayloadSize⟩ :=
    fields_of_headerLayout hheader
  refine ⟨⟨frame.header.leadBytes, id, metadataSize, payloadSize, frame.metadata, frame.payload⟩,
    codec, ?_, ⟨Header.leadBytes_eq hmagic, hid, hmetadataSize, hpayloadSize, hmetadata, rfl⟩,
      hsized,
    hlookup, hread⟩
  simpa only [Parts.bytes, List.append_assoc] using hsplit

theorem encodeInPieces_ofMessage (hm : m.IsSized)
    (hlookup : registry.lookup m.header.serialization = some codec)
    (hown : codec.encodeMetadata m.metadata = .ok own) (hfits : own.length < UInt32.size)
    (nonces : Nonces) (pieces : List Delivery) :
    (f.bare registry).encodeInPieces nonces m pieces = (.ok (), (ofMessage f m own).bytes) := by
  have hframe := (f.frameOf_bare registry nonces m).trans
    (Frame.ofMessage_eq_ok_iff.2 ⟨codec, own, hlookup, hown, hfits, hm.length_lt, rfl⟩)
  have hsize : UInt32.ofNat m.payload.length = m.header.payloadSize := by
    rw [← hm, UInt32.ofNat_toNat]
  rw [Stack.encodeInPieces_of_frameOf hframe, Frame.bytes_eq, headerBytes_eq, frontBytes,
    Header.leadBytes_eq rfl]
  simp only [Parts.bytes, ofMessage, hsize, List.append_assoc]
  rfl

theorem encodeInPieces_oversized
    (hlookup : registry.lookup m.header.serialization = some codec)
    (hown : codec.encodeMetadata m.metadata = .ok own) (hlong : UInt32.size ≤ own.length)
    (nonces : Nonces) (pieces : List Delivery) :
    (f.bare registry).encodeInPieces nonces m pieces =
      (.error (.sizeOverflow .metadata own.length), []) := by
  have hframe := (f.frameOf_bare registry nonces m).trans (Frame.ofMessage_eq_error_iff.2
    (.inr ⟨own, Frame.withCodec_eq_ok_iff.2 ⟨codec, hlookup, hown⟩, .inl ⟨hlong, rfl⟩⟩))
  exact Stack.encodeInPieces_of_frameOf_error hframe pieces

/-- A message that was decoded is encoded again, if the codecs can write what they read; only
metadata that take up four gigabytes in the codec's own form, other than the one that stood in the
frame, are refused for it.  The lead and the payload are those of the frame, and the id and the
sizes are in their shortest forms, which in the fixed framing are the only ones.  So it is the
same frame again just if the metadata stood there in the codec's own form, or were none, and
nothing was padded.  Of all frames that have the message with such metadata it is the shortest,
and in the fixed framing the only one.  -/
theorem encode_of_decode
    (hcodecs : ∀ serialization codec, registry.lookup serialization = some codec →
      codec.WritesWhatItReads)
    (hm : ((f.bare registry).decode source).1.result = .ok m)
    (nonces : Nonces) (pieces : List Delivery) :
    ∃ (codec : Codec) (own : Bytes) (frame : Parts),
      registry.lookup m.header.serialization = some codec ∧
      codec.encodeMetadata m.metadata = .ok own ∧
      source.pending = frame.bytes ++ ((f.bare registry).decode source).2.pending ∧
      frame.IsFrameOf f m ∧
      (UInt32.size ≤ own.length → frame.metadata ≠ [] ∧ frame.metadata ≠ own ∧
        (f.bare registry).encodeInPieces nonces m pieces =
          (.error (.sizeOverflow .metadata own.length), [])) ∧
      (own.length < UInt32.size → ∃ again : Parts,
        (f.bare registry).encodeInPieces nonces m pieces = (.ok (), again.bytes) ∧
        again.Restates frame f m own ∧
        (f = .fixed → again.bytes.take 14 = frame.bytes.take 14 ∧
          (again.bytes.drop 18).take 4 = (frame.bytes.drop 18).take 4) ∧
        (again.bytes = frame.bytes ↔ (frame.metadata = [] ∨ frame.metadata = own) ∧
          frame.IsShortest f m.header.messageId m.header.metadataSize m.header.payloadSize) ∧
        ∀ other : Parts, other.IsFrameOf f m → other.metadata = [] ∨ other.metadata = own →
          again.bytes.length ≤ other.bytes.length ∧ (f = .fixed → again = other)) := by
  obtain ⟨frame, codec, hsplit, hframe, hsized, hlookup, hread⟩ := parts_of_decode hm
  obtain ⟨own, hown⟩ := (hcodecs _ codec hlookup).encodeMetadata hread
  -- A frame without metadata has them in the codec's own form, too.
  have hsame (other : Parts) (hother : other.IsFrameOf f m)
      (hmetadata : other.metadata = [] ∨ other.metadata = own) : other.metadata = own := by
    rcases hmetadata with hempty | hmetadata
    · have hlength : frame.metadata.length = 0 := by
        rw [← hframe.metadata, hother.metadata, hempty]
        rfl
      rw [hempty, Codec.encodeMetadata_of_nil hread hown (List.length_eq_zero_iff.1 hlength)]
    · exact hmetadata
  refine ⟨codec, own, frame, hlookup, hown, hsplit, hframe, ?_, ?_⟩
  · intro hlong
    have hother : frame.metadata ≠ own := by
      rintro rfl
      exact absurd hlong (Nat.not_le_of_lt (hframe.metadata ▸ m.header.metadataSize.toNat_lt))
    exact ⟨fun hempty => hother (hsame frame hframe (.inl hempty)), hother,
      encodeInPieces_oversized hlookup hown hlong nonces pieces⟩
  · intro hfits
    refine ⟨ofMessage f m own, encodeInPieces_ofMessage hsized hlookup hown hfits nonces pieces,
      ⟨hframe.lead.symm, rfl, hframe.payload.symm, ofMessage_isShortest f m own⟩, ?_, ?_, ?_⟩
    · rintro rfl
      obtain ⟨hfront, hpayloadSize⟩ := (ofMessage_isFrameOf .fixed m hfits).fields_of_fixed
      obtain ⟨hfront', hpayloadSize'⟩ := hframe.fields_of_fixed
      rw [hfront, hfront', hpayloadSize, hpayloadSize', hframe.lead, hframe.id, hframe.payloadSize]
      exact ⟨rfl, rfl⟩
    · rw [hframe.ofMessage_bytes_eq_iff hfits]
      exact and_congr_left fun _ => ⟨.inr, hsame frame hframe⟩
    · intro other hother hmetadata
      have hown := hsame other hother hmetadata
      refine ⟨hother.length_ofMessage_le hown, ?_⟩
      rintro rfl
      exact (hother.eq_ofMessage hown hother.isShortest_of_fixed).symm

/-- A frame with a padded id, and with metadata that leave out everything. -/
def padded : Source where
  pending := [0x3F, 0x3F, 1, 1, 0, 1, 0x87, 0, 2, 1, 0x7B, 0x7D, 9]

theorem encode_of_decode_padded :
    ∃ (m : Message) (own : Bytes) (frame again : Parts),
      ((compact.bare .builtin).decode padded).1.result = .ok m ∧ padded.pending = frame.bytes ∧
      (compact.bare .builtin).encodeInPieces .ofCounter m [.upTo 1] = (.ok (), again.bytes) ∧
      again.Restates frame compact m own ∧
      again.bytes.take 9 = [0x3F, 0x3F, 1, 1, 0, 1, 7, 34, 1] := by
  have hwritten : ((compact.bare .builtin).decode padded).1.result.map (fun m =>
      let written := (compact.bare .builtin).encodeInPieces .ofCounter m [.upTo 1]
      (written.1, written.2.take 9)) =
      Except.ok (Except.ok (), [0x3F, 0x3F, 1, 1, 0, 1, 7, 34, 1]) := by decide +kernel
  obtain ⟨m, hm⟩ : ∃ m, ((compact.bare .builtin).decode padded).1.result = .ok m := ⟨_, rfl⟩
  rw [hm] at hwritten
  have hrest : ((compact.bare .builtin).decode padded).2.pending = [] := rfl
  obtain ⟨codec, own, frame, -, -, hpending, -, hlong, hfits⟩ :=
    encode_of_decode (fun _ _ => Codec.writesWhatItReads_of_builtin) hm .ofCounter [.upTo 1]
  rw [hrest, List.append_nil] at hpending
  rcases Nat.lt_or_ge own.length UInt32.size with hown | hown
  · obtain ⟨again, hagain, hrestates, -⟩ := hfits hown
    simp only [Except.map, hagain] at hwritten
    exact ⟨m, own, frame, again, hm, hpending, hagain, hrestates,
      congrArg Prod.snd (Except.ok.inj hwritten)⟩
  · simp [Except.map, (hlong hown).2.2] at hwritten

end Framing

end Courier
