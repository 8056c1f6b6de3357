import Courier.Bytes
/-!
# Text as UTF-8

`Text.bytes` is the UTF-8 form of a string and `Text.ofBytes?` its only reader: it succeeds
exactly on the byte strings that some string has as its UTF-8 form (`Text.ofBytes?_bytes`,
`Text.bytes_of_ofBytes?`). `Text.validLength` says how far a byte string is sound UTF-8, for the
readers that report a place.
-/

namespace Courier.Text

def bytes (s : String) : Bytes :=
  s.toByteArray.data.toList

def ofBytes? (b : Bytes) : Option String :=
  String.fromUTF8? ⟨b.toArray⟩

theorem bytes_inj {s t : String} (h : bytes s = bytes t) : s = t := by
  have h' : s.toByteArray.data = t.toByteArray.data := Array.toList_inj.1 h
  exact String.toByteArray_inj.1 (ByteArray.ext h')

@[simp] theorem ofBytes?_bytes (s : String) : ofBytes? (bytes s) = some s := by
  have hb : (⟨(bytes s).toArray⟩ : ByteArray) = s.toByteArray := by
    simp [bytes]
  rw [ofBytes?, hb]
  exact dif_pos s.isValidUTF8

theorem bytes_of_ofBytes? {b : Bytes} {s : String} (h : ofBytes? b = some s) : bytes s = b := by
  rw [ofBytes?, String.fromUTF8?] at h
  split at h
  · cases h
    simp [bytes, String.fromUTF8]
  · cases h

def isContinuation (b : UInt8) : Bool :=
  0x80 ≤ b && b ≤ 0xBF

/-- The length of the character that starts the byte string, or zero if none does: overlong forms,
surrogates and numbers past the last character are no characters. -/
def characterLength : Bytes → Nat
  | [] => 0
  | a :: rest =>
    if a ≤ 0x7F then 1
    else if 0xC2 ≤ a && a ≤ 0xDF then
      match rest with
      | b :: _ => if isContinuation b then 2 else 0
      | _ => 0
    else if 0xE0 ≤ a && a ≤ 0xEF then
      match rest with
      | b :: c :: _ =>
        let low : UInt8 := if a = 0xE0 then 0xA0 else 0x80
        let high : UInt8 := if a = 0xED then 0x9F else 0xBF
        if low ≤ b && b ≤ high && isContinuation c then 3 else 0
      | _ => 0
    else if 0xF0 ≤ a && a ≤ 0xF4 then
      match rest with
      | b :: c :: d :: _ =>
        let low : UInt8 := if a = 0xF0 then 0x90 else 0x80
        let high : UInt8 := if a = 0xF4 then 0x8F else 0xBF
        if low ≤ b && b ≤ high && isContinuation c && isContinuation d then 4 else 0
      | _ => 0
    else 0

/-- How many bytes at the front of the byte string are whole characters, added to `seen`; `left`
bounds the number of characters. -/
def validLengthFrom (seen : Nat) : (left : Nat) → Bytes → Nat
  | 0, _ => seen
  | left + 1, b =>
    match characterLength b with
    | 0 => seen
    | n + 1 => validLengthFrom (seen + (n + 1)) left (b.drop (n + 1))

def validLength (b : Bytes) : Nat :=
  validLengthFrom 0 b.length b

end Courier.Text
