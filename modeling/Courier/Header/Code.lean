import Courier.Shape
/-!
# Type codes of a header

Three one-byte codes say what a message is, how its payload is compressed and which codec carries
its metadata. Each enumeration is open: a code without a name of its own is kept as it is, so that
a message of a newer peer can still be framed. The catch-all may also hold a code that has a name;
two values are the same (`==`) when their codes are, and `normalized` gives the named form.
-/

namespace Courier

/-- The role of a message. -/
inductive MessageType where
  | request
  | response
  | other (code : UInt8)

/-- How a payload is compressed. -/
inductive Compression where
  | none
  | gzip
  | other (code : UInt8)

/-- Which codec carries the metadata. -/
inductive Serialization where
  | json
  | binary
  | custom (code : UInt8)

namespace MessageType

def code : MessageType → UInt8
  | request => 1
  | response => 2
  | other c => c

def ofCode (c : UInt8) : MessageType :=
  if c = 1 then request else if c = 2 then response else other c

def normalized (t : MessageType) : MessageType :=
  ofCode t.code

instance : BEq MessageType := ⟨fun a b => a.code == b.code⟩

@[simp] theorem code_ofCode (c : UInt8) : (ofCode c).code = c := by
  unfold ofCode
  split
  · simp_all [code]
  · split <;> simp_all [code]

def shape : MessageType → Shape
  | request => .atom "Request"
  | response => .atom "Response"
  | other c => .tuple "Other" [.number c.toNat]

end MessageType

namespace Compression

def code : Compression → UInt8
  | none => 0
  | gzip => 1
  | other c => c

def ofCode (c : UInt8) : Compression :=
  if c = 0 then none else if c = 1 then gzip else other c

def normalized (t : Compression) : Compression :=
  ofCode t.code

instance : BEq Compression := ⟨fun a b => a.code == b.code⟩

@[simp] theorem code_ofCode (c : UInt8) : (ofCode c).code = c := by
  unfold ofCode
  split
  · simp_all [code]
  · split <;> simp_all [code]

def shape : Compression → Shape
  | none => .atom "None"
  | gzip => .atom "Gzip"
  | other c => .tuple "Other" [.number c.toNat]

end Compression

namespace Serialization

def code : Serialization → UInt8
  | json => 1
  | binary => 2
  | custom c => c

def ofCode (c : UInt8) : Serialization :=
  if c = 1 then json else if c = 2 then binary else custom c

def normalized (t : Serialization) : Serialization :=
  ofCode t.code

instance : BEq Serialization := ⟨fun a b => a.code == b.code⟩

@[simp] theorem code_ofCode (c : UInt8) : (ofCode c).code = c := by
  unfold ofCode
  split
  · simp_all [code]
  · split <;> simp_all [code]

def shape : Serialization → Shape
  | json => .atom "Json"
  | binary => .atom "Binary"
  | custom c => .tuple "Custom" [.number c.toNat]

end Serialization

end Courier
