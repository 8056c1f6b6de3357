import Courier.Proofs.HeaderFields
/-!
# Headers in buffers

A header takes up 22 bytes, each field at a place of its own.  The buffers that a header can be
read off are those that are long enough and start with the magic number; and reading and writing
undo each other, up to naming the type codes (`Header.ofBytes_undoes_bytes`).
-/

namespace Courier

namespace Header

/-! ## Reading off the front of a buffer -/

theorem ofBytes_of_length_lt {buffer : Bytes} (hshort : buffer.length < size) :
    ofBytes buffer = .error (.incompleteHeader size buffer.length) := by
  rw [ofBytes, if_pos hshort]
  rfl

theorem ofBytes_of_size_le {buffer : Bytes} (hlong : size ≤ buffer.length) :
    ofBytes buffer =
      (checkMagic (buffer.take 2)).map fun _ => ofFields ((buffer.drop 2).take (size - 2)) := by
  rw [ofBytes, if_neg (Nat.not_lt.2 hlong)]
  cases checkMagic (buffer.take 2) <;> rfl

theorem checkMagic_bigEndian (magic : UInt16) :
    checkMagic (Bytes.bigEndian 2 magic.toNat) =
      if magic = magicNumber then .ok () else .error (.invalidMagic magic) := by
  have hvalue : magic.toNat % 256 ^ 2 = magic.toNat := Nat.mod_eq_of_lt magic.toNat_lt
  rw [checkMagic, Bytes.ofBigEndian_bigEndian, hvalue, UInt16.ofNat_toNat]

theorem checkMagic_eq_ok_iff {front : Bytes} (hfront : front.length = 2) :
    checkMagic front = .ok () ↔ front = Framing.magicBytes := by
  obtain ⟨a, b, rfl⟩ := List.length_eq_two.1 hfront
  rw [Framing.checkMagic_pair]
  split <;> simp_all

theorem length_magicBytes_append {fields : Bytes} (hfields : fields.length = size - 2)
    (rest : Bytes) : (Framing.magicBytes ++ (fields ++ rest)).length = size + rest.length := by
  rw [← List.append_assoc, List.length_append, List.length_append, hfields]
  rfl

theorem ofBytes_eq_ok_iff {buffer : Bytes} {h : Header} :
    ofBytes buffer = .ok h ↔ ∃ fields rest, buffer = Framing.magicBytes ++ (fields ++ rest) ∧
      fields.length = size - 2 ∧ h = ofFields fields := by
  constructor
  · intro hread
    by_cases hlong : size ≤ buffer.length
    · rw [ofBytes_of_size_le hlong] at hread
      have hsize : size = 22 := rfl
      have hfront : (buffer.take 2).length = 2 := List.length_take_of_le (by omega)
      have hfields : ((buffer.drop 2).take (size - 2)).length = size - 2 :=
        List.length_take_of_le (by rw [List.length_drop]; omega)
      cases hmagic : checkMagic (buffer.take 2) with
      | error e =>
        rw [hmagic] at hread
        cases hread
      | ok checked =>
        rw [hmagic] at hread
        cases hread
        refine ⟨_, (buffer.drop 2).drop (size - 2), ?_, hfields, rfl⟩
        rw [← (checkMagic_eq_ok_iff hfront).1 hmagic, List.take_append_drop, List.take_append_drop]
    · rw [ofBytes_of_length_lt (Nat.lt_of_not_le hlong)] at hread
      cases hread
  · rintro ⟨fields, rest, rfl, hfields, rfl⟩
    have hlong : size ≤ (Framing.magicBytes ++ (fields ++ rest)).length := by
      rw [length_magicBytes_append hfields]
      exact Nat.le_add_right size rest.length
    have hfront : Framing.magicBytes.length = 2 := rfl
    have hmagic : checkMagic Framing.magicBytes = .ok () := (checkMagic_eq_ok_iff rfl).2 rfl
    rw [ofBytes_of_size_le hlong, List.take_left' hfront, List.drop_left' hfront,
      List.take_left' hfields, hmagic]
    rfl

/-! ## Writing what was read -/

theorem bytes_ofFields {fields : Bytes} (hfields : fields.length = size - 2) :
    (ofFields fields).bytes = Framing.magicBytes ++ fields ∧
      (ofFields fields).normalized = ofFields fields := by
  have hform : Framing.fixed.headerLayout.Form (Framing.magicBytes ++ fields) (ofFields fields) :=
    Layout.bind_form (x := ()) rfl
      (Layout.bind_nothing_form (Layout.exactly_form .header hfields) rfl)
  obtain ⟨-, hnormal, _, _, _, hbytes, rfl, rfl, rfl⟩ := Framing.fields_of_headerLayout hform
  exact ⟨hbytes.symm, hnormal⟩

theorem ofBytes_bytes_append (h : Header) (tail : Bytes) :
    ofBytes (h.bytes ++ tail) =
      if h.magic = magicNumber then .ok h.normalized else .error (.invalidMagic h.magic) := by
  have hlong : size ≤ (h.bytes ++ tail).length := by
    rw [List.length_append]
    exact Nat.le_add_right size tail.length
  have hfront : (h.bytes ++ tail).take 2 = Bytes.bigEndian 2 h.magic.toNat := rfl
  have hfields : ((h.bytes ++ tail).drop 2).take (size - 2) =
      [h.version, h.messageType.code, h.compression.code, h.serialization.code] ++
        (Bytes.bigEndian 8 h.messageId.toNat ++ (Bytes.bigEndian 4 h.metadataSize.toNat ++
          Bytes.bigEndian 4 h.payloadSize.toNat)) := rfl
  rw [ofBytes_of_size_le hlong, hfront, checkMagic_bigEndian]
  by_cases hmagic : h.magic = magicNumber
  · rw [if_pos hmagic, if_pos hmagic, hfields, ofFields_eq hmagic]
    rfl
  · rw [if_neg hmagic, if_neg hmagic]
    rfl

/-! ## Both ways -/

/-- Every field of the header stands at its offset, words with the most significant byte first. -/
structure IsLaidOut (h : Header) (bytes : Bytes) : Prop where
  length : bytes.length = 22
  magic : bytes.take 2 = Bytes.bigEndian 2 h.magic.toNat
  codes : (bytes.drop 2).take 4 =
    [h.version, h.messageType.code, h.compression.code, h.serialization.code]
  messageId : (bytes.drop 6).take 8 = Bytes.bigEndian 8 h.messageId.toNat
  metadataSize : (bytes.drop 14).take 4 = Bytes.bigEndian 4 h.metadataSize.toNat
  payloadSize : (bytes.drop 18).take 4 = Bytes.bigEndian 4 h.payloadSize.toNat

theorem bytes_isLaidOut (h : Header) : h.IsLaidOut h.bytes :=
  ⟨rfl, rfl, rfl, rfl, rfl, rfl⟩

/-- A header that is written is read back with its type codes named, whatever follows it, or refused
for its magic number.  A header is read off a buffer just if that has 22 bytes and starts with the
magic number, and it is the one that is written as the first 22 bytes.  A shorter buffer is refused
for its length, whatever it holds. -/
theorem ofBytes_undoes_bytes :
    (∀ (h : Header) (tail : Bytes), h.IsLaidOut h.bytes ∧ ofBytes (h.bytes ++ tail) =
      if h.magic = magicNumber then .ok h.normalized else .error (.invalidMagic h.magic)) ∧
    (∀ buffer : Bytes,
      (∃ h, ofBytes buffer = .ok h) ↔ 22 ≤ buffer.length ∧ [0x3F, 0x3F] <+: buffer) ∧
    (∀ buffer h, ofBytes buffer = .ok h →
      h.bytes = buffer.take 22 ∧ h.normalized = h ∧ h.IsNamed) ∧
    ∀ buffer : Bytes, buffer.length < 22 →
      ofBytes buffer = .error (.incompleteHeader 22 buffer.length) := by
  refine ⟨fun h tail => ⟨h.bytes_isLaidOut, h.ofBytes_bytes_append tail⟩, ?_, ?_,
    fun buffer hshort => ofBytes_of_length_lt hshort⟩
  · intro buffer
    constructor
    · rintro ⟨h, hread⟩
      obtain ⟨fields, rest, rfl, hfields, -⟩ := ofBytes_eq_ok_iff.1 hread
      refine ⟨?_, List.prefix_append _ _⟩
      rw [length_magicBytes_append hfields]
      exact Nat.le_add_right 22 rest.length
    · rintro ⟨hlong, behind, rfl⟩
      have hbehind : (behind.take 20).length = size - 2 := by
        have hsplit : ([0x3F, 0x3F] ++ behind : Bytes).length = 2 + behind.length :=
          List.length_append
        exact List.length_take_of_le (by omega)
      exact ⟨_, ofBytes_eq_ok_iff.2 ⟨_, behind.drop 20, by rw [List.take_append_drop]; rfl, hbehind,
        rfl⟩⟩
  · intro buffer h hread
    obtain ⟨fields, rest, rfl, hfields, rfl⟩ := ofBytes_eq_ok_iff.1 hread
    obtain ⟨hbytes, hnormal⟩ := bytes_ofFields hfields
    refine ⟨?_, hnormal, isNamed_of_normalized hnormal⟩
    rw [hbytes, ← List.append_assoc]
    have hlength : (Framing.magicBytes ++ fields).length = 22 := by
      rw [List.length_append, hfields]
      rfl
    exact (List.take_left' hlength).symm

def extremeBuffer : Bytes :=
  [0x3F, 0x3F, 0x7E, 9, 5, 42] ++ List.replicate 16 0xFF ++ [1, 2, 3]

theorem ofBytes_undoes_bytes_extreme :
    22 ≤ extremeBuffer.length ∧ [0x3F, 0x3F] <+: extremeBuffer ∧
      (∃ h, ofBytes extremeBuffer = .ok h ∧ h.bytes = extremeBuffer.take 22) ∧
      (extremeBuffer.take 21).length < 22 ∧
      ofBytes (extremeBuffer.take 21) = .error (.incompleteHeader 22 21) := by
  obtain ⟨-, hreads, hwrites, hshort⟩ := ofBytes_undoes_bytes
  have hlong : 22 ≤ extremeBuffer.length := by decide
  have hmagic : [0x3F, 0x3F] <+: extremeBuffer := ⟨_, rfl⟩
  obtain ⟨h, hread⟩ := (hreads extremeBuffer).2 ⟨hlong, hmagic⟩
  exact ⟨hlong, hmagic, ⟨h, hread, (hwrites _ h hread).1⟩, by decide,
    hshort (extremeBuffer.take 21) (by decide)⟩

end Header

end Courier
