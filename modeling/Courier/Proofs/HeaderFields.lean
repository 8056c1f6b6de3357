import Courier.Proofs.Frames
/-!
# The fields of a header on the wire

Six bytes in front are the same in both framings; behind them come the id and the two sizes, as
words in the fixed framing and as variable-length integers in the compact one.  The header that is
read has the fields that are there, with every type code named (`Framing.fields_of_headerLayout`).
-/

namespace Courier

/-! ## Words -/

namespace Bytes

theorem bigEndian_ofBigEndian (bytes : Bytes) :
    bigEndian bytes.length (ofBigEndian bytes) = bytes := by
  induction bytes using List.reverseRecOn with
  | nil => rfl
  | append_singleton front b ih =>
    have hfront : (256 * ofBigEndian front + b.toNat) / 256 = ofBigEndian front := by
      have hb := b.toNat_lt
      omega
    have hlast : UInt8.ofNat (256 * ofBigEndian front + b.toNat) = b := by
      have hb := b.toNat_lt
      rw [← UInt8.toNat_inj, UInt8.toNat_ofNat']
      omega
    rw [List.length_append, List.length_singleton, bigEndian, ofBigEndian_append_singleton, hfront,
      hlast, ih]

theorem ofBigEndian_lt (bytes : Bytes) : ofBigEndian bytes < 256 ^ bytes.length := by
  induction bytes using List.reverseRecOn with
  | nil => simp [ofBigEndian]
  | append_singleton front b ih =>
    have hb := b.toNat_lt
    rw [ofBigEndian_append_singleton, List.length_append, List.length_singleton, Nat.pow_succ]
    omega

theorem bigEndian_ofBigEndian_uint64 {bytes : Bytes} (hlength : bytes.length = 8) :
    bigEndian 8 (UInt64.ofNat (ofBigEndian bytes)).toNat = bytes := by
  have hlt := ofBigEndian_lt bytes
  rw [hlength] at hlt
  rw [UInt64.toNat_ofNat_of_lt' hlt, ← hlength, bigEndian_ofBigEndian]

theorem bigEndian_ofBigEndian_uint32 {bytes : Bytes} (hlength : bytes.length = 4) :
    bigEndian 4 (UInt32.ofNat (ofBigEndian bytes)).toNat = bytes := by
  have hlt := ofBigEndian_lt bytes
  rw [hlength] at hlt
  rw [UInt32.toNat_ofNat_of_lt' hlt, ← hlength, bigEndian_ofBigEndian]

end Bytes

namespace Varint

variable {bytes : Bytes} {n : Nat}

theorem lt_of_form {maxLength maxBits : Nat} (hbytes : (layout maxLength maxBits).Form bytes n) :
    n < 2 ^ maxBits := by
  obtain ⟨_, _, -, -, -, -, hn⟩ := hbytes
  exact hn

theorem form_ofNat_uint64 (hbytes : (layout longest64 64).Form bytes n) :
    (layout longest64 64).Form bytes (UInt64.ofNat n).toNat := by
  rwa [UInt64.toNat_ofNat_of_lt' (lt_of_form hbytes)]

theorem form_ofNat_uint32 (hbytes : (layout longest32 32).Form bytes n) :
    (layout longest32 32).Form bytes (UInt32.ofNat n).toNat := by
  rwa [UInt32.toNat_ofNat_of_lt' (lt_of_form hbytes)]

end Varint

namespace Framing

def IdForm : Framing → Bytes → UInt64 → Prop
  | fixed, bytes, id => bytes = Bytes.bigEndian 8 id.toNat
  | compact, bytes, id => (Varint.layout Varint.longest64 64).Form bytes id.toNat

def SizeForm : Framing → Bytes → UInt32 → Prop
  | fixed, bytes, size => bytes = Bytes.bigEndian 4 size.toNat
  | compact, bytes, size => (Varint.layout Varint.longest32 32).Form bytes size.toNat

def idBytes : Framing → UInt64 → Bytes
  | fixed, id => Bytes.bigEndian 8 id.toNat
  | compact, id => Varint.encode id.toNat

def sizeBytes : Framing → UInt32 → Bytes
  | fixed, size => Bytes.bigEndian 4 size.toNat
  | compact, size => Varint.encode size.toNat

def frontBytes (f : Framing) (h : Header) : Bytes :=
  h.leadBytes ++ f.idBytes h.messageId ++ f.sizeBytes h.metadataSize

theorem headerBytes_eq (f : Framing) (h : Header) :
    f.headerBytes h = f.frontBytes h ++ f.sizeBytes h.payloadSize := by
  cases f <;> rfl

end Framing

/-! ## Type codes -/

namespace Header

/-- No type code that has a name is held by a catch-all. -/
structure IsNamed (h : Header) : Prop where
  messageType : ∀ code, h.messageType = .other code → code ≠ 1 ∧ code ≠ 2
  compression : ∀ code, h.compression = .other code → code ≠ 0 ∧ code ≠ 1
  serialization : ∀ code, h.serialization = .custom code → code ≠ 1 ∧ code ≠ 2

theorem isNamed_of_normalized {h : Header} (hnormal : h.normalized = h) : h.IsNamed where
  messageType := by
    intro code hcode
    have hsame : MessageType.ofCode code = .other code := by
      have := congrArg Header.messageType hnormal
      rwa [normalized, MessageType.normalized, hcode] at this
    constructor <;> rintro rfl <;> cases hsame
  compression := by
    intro code hcode
    have hsame : Compression.ofCode code = .other code := by
      have := congrArg Header.compression hnormal
      rwa [normalized, Compression.normalized, hcode] at this
    constructor <;> rintro rfl <;> cases hsame
  serialization := by
    intro code hcode
    have hsame : Serialization.ofCode code = .custom code := by
      have := congrArg Header.serialization hnormal
      rwa [normalized, Serialization.normalized, hcode] at this
    constructor <;> rintro rfl <;> cases hsame

end Header

/-! ## Headers -/

namespace Header

variable (version messageType compression serialization : UInt8) (messageId : UInt64)
  (metadataSize payloadSize : UInt32)

theorem leadBytes_ofCodes :
    ({ ofCodes version messageType compression serialization with
      messageId, metadataSize, payloadSize } : Header).leadBytes =
      Framing.magicBytes ++ [version, messageType, compression, serialization] := by
  simp only [leadBytes, ofCodes, MessageType.code_ofCode, Compression.code_ofCode,
    Serialization.code_ofCode]
  rfl

theorem normalized_ofCodes :
    ({ ofCodes version messageType compression serialization with
      messageId, metadataSize, payloadSize } : Header).normalized =
      { ofCodes version messageType compression serialization with
        messageId, metadataSize, payloadSize } := by
  simp only [normalized, ofCodes, MessageType.normalized, Compression.normalized,
    Serialization.normalized, MessageType.code_ofCode, Compression.code_ofCode,
    Serialization.code_ofCode]

theorem split_fields {fields : Bytes} (hlength : fields.length = 20) :
    ∃ version messageType compression serialization words,
      fields = version :: messageType :: compression :: serialization :: words ∧
        words.length = 16 := by
  match fields, hlength with
  | version :: messageType :: compression :: serialization :: words, hlength =>
    exact ⟨version, messageType, compression, serialization, words, rfl, by simpa using hlength⟩

theorem ofFields_cons (words : Bytes) :
    ofFields (version :: messageType :: compression :: serialization :: words) =
      { ofCodes version messageType compression serialization with
        messageId := UInt64.ofNat (Bytes.ofBigEndian (words.take 8))
        metadataSize := UInt32.ofNat (Bytes.ofBigEndian ((words.drop 8).take 4))
        payloadSize := UInt32.ofNat (Bytes.ofBigEndian ((words.drop 12).take 4)) } := rfl

end Header

namespace Framing

variable {f : Framing} {front : Bytes} {h : Header}

/-- The bytes of a header are those of its fields, whatever form they were written in. -/
theorem fields_of_headerLayout (hfront : f.headerLayout.Form front h) :
    h.magic = Header.magicNumber ∧ h.normalized = h ∧
      ∃ id metadataSize payloadSize,
        front = h.leadBytes ++ id ++ metadataSize ++ payloadSize ∧ f.IdForm id h.messageId ∧
          f.SizeForm metadataSize h.metadataSize ∧ f.SizeForm payloadSize h.payloadSize := by
  obtain ⟨_, behind, _, rfl, rfl, hfields⟩ := hfront
  cases f with
  | fixed =>
    obtain ⟨fields, _, _, rfl, ⟨hlength, rfl⟩, rfl, rfl⟩ := hfields
    obtain ⟨version, messageType, compression, serialization, words, rfl, hwords⟩ :=
      Header.split_fields hlength
    have hid : (words.take 8).length = 8 := by simp [hwords]
    have hmetadata : ((words.drop 8).take 4).length = 4 := by simp [hwords]
    have hpayload : ((words.drop 12).take 4).length = 4 := by simp [hwords]
    rw [List.append_nil, Header.ofFields_cons]
    refine ⟨rfl, Header.normalized_ofCodes .., words.take 8, (words.drop 8).take 4,
      (words.drop 12).take 4, ?_, ?_, ?_, ?_⟩
    · have hsplit : words = words.take 8 ++ ((words.drop 8).take 4 ++ (words.drop 12).take 4) := by
        rw [List.take_of_length_le (show (words.drop 12).length ≤ 4 by simp [hwords]),
          show words.drop 12 = (words.drop 8).drop 4 by rw [List.drop_drop],
          List.take_append_drop, List.take_append_drop]
      conv_lhs => rw [hsplit]
      rw [Header.leadBytes_ofCodes]
      simp
    · exact (Bytes.bigEndian_ofBigEndian_uint64 hid).symm
    · exact (Bytes.bigEndian_ofBigEndian_uint32 hmetadata).symm
    · exact (Bytes.bigEndian_ofBigEndian_uint32 hpayload).symm
  | compact =>
    obtain ⟨codes, _, _, rfl, ⟨hcodes, rfl⟩, id, _, idValue, rfl, hid, metadataSize, _,
      sizeValue, rfl,
      hmetadata, payloadSize, _, payloadValue, rfl, hpayload, rfl, rfl⟩ := hfields
    obtain ⟨version, messageType, compression, serialization, rfl⟩ := List.length_eq_four.1 hcodes
    refine ⟨rfl, Header.normalized_ofCodes .., id, metadataSize, payloadSize, ?_, ?_, ?_, ?_⟩
    · rw [Header.leadBytes_ofCodes]
      simp
    · exact Varint.form_ofNat_uint64 hid
    · exact Varint.form_ofNat_uint32 hmetadata
    · exact Varint.form_ofNat_uint32 hpayload

end Framing

end Courier
