import Courier.Failure
import Courier.Json.Printer
import Courier.Json.Parser
import Courier.Json.Mismatch
/-!
# Codecs

A codec turns values into bytes and back. It knows nothing of a value but its `Capabilities`: a
structured form, through a JSON tree, or a packed form, straight to bytes. A codec that needs a
form which the value lacks refuses it. The two codecs that are always there are `Codec.json` and
`Codec.binary`.
-/

namespace Courier

structure StructuredForm (α : Type) where
  toTree : α → Except CodecError Json
  ofTree : Json → Except CodecError α

structure PackedForm (α : Type) where
  pack : α → Bytes
  unpack : Bytes → Except CodecError α

/-- The forms through which a codec may reach a value. -/
structure Capabilities (α : Type) where
  structured : Option (StructuredForm α) := none
  packed : Option (PackedForm α) := none

structure Codec where
  name : String
  encode : {α : Type} → Capabilities α → α → Except CodecError Bytes
  decode : {α : Type} → Capabilities α → Bytes → Except CodecError α

namespace Codec

/-- Decodes in place of what a target holds, and leaves the target alone on failure. -/
def load {α : Type} (c : Codec) (capabilities : Capabilities α) (bytes : Bytes) (target : α) :
    α × Option CodecError :=
  match c.decode capabilities bytes with
  | .ok value => (value, none)
  | .error e => (target, some e)

def encodeText (name : String) (spacing : Json.Spacing) {α : Type} (capabilities : Capabilities α)
    (value : α) : Except CodecError Bytes :=
  match capabilities.structured with
  | none => .error (.invalidMessage name)
  | some form => (form.toTree value).map (Json.print spacing)

def decodeText (name : String) {α : Type} (capabilities : Capabilities α) (bytes : Bytes) :
    Except CodecError α :=
  match capabilities.structured with
  | none => .error (.invalidMessage name)
  | some form =>
    match Json.parse bytes with
    | .error r => .error (.malformed name (r.message bytes))
    | .ok tree => form.ofTree tree

def json : Codec where
  name := "json"
  encode := encodeText "json" Json.compact
  decode := decodeText "json"

/-- The packed form, as it is. Its reader's failures are reported under this codec's name. -/
def binary : Codec where
  name := "bitcode"
  encode capabilities value :=
    match capabilities.packed with
    | none => .error (.invalidMessage "bitcode")
    | some form => .ok (form.pack value)
  decode capabilities bytes :=
    match capabilities.packed with
    | none => .error (.invalidMessage "bitcode")
    | some form =>
      match form.unpack bytes with
      | .ok value => .ok value
      | .error (.malformed _ reason) => .error (.malformed "bitcode" reason)
      | .error e => .error e

def indentedJson : Codec where
  name := "pretty-json"
  encode := encodeText "pretty-json" Json.indented
  decode := decodeText "json"

def picky : Codec where
  name := "picky"
  encode _ _ := .error (.invalidMessage "picky")
  decode _ _ := .error (.invalidMessage "picky")

def named : List Codec := [json, binary, indentedJson, picky]

def ofName? (name : String) : Option Codec :=
  named.find? (·.name = name)

end Codec

end Courier
