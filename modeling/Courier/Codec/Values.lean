import Courier.Codec
import Courier.Columnar.Texts
/-!
# Ready-made capabilities

The forms of some plain values: any JSON tree, lists of 32-bit words, one such word, maps by byte
strings (which have no JSON form) and a sample request with a number and a list of texts.
-/

namespace Courier.Capabilities

def structuredName : String := "structured"

def packedName : String := "schema"

def ofTree {α : Type} (toTree : α → Except Json.Mismatch Json)
    (ofTree : Json → Except Json.Mismatch α) :
    Capabilities α where
  structured := some {
    toTree := fun value => (toTree value).mapError fun e => .malformed structuredName e.message
    ofTree := fun tree => (ofTree tree).mapError fun e => .malformed structuredName e.message }

def ofColumns {α : Type} (pack : α → Bytes) (reader : Columnar.Reader α) : Capabilities α where
  packed := some {
    pack := pack
    unpack := fun bytes =>
      (reader.complete bytes).mapError fun e => .malformed packedName e.message }

def opaqueValue {α : Type} : Capabilities α := {}

def tree : Capabilities Json :=
  ofTree .ok .ok

def words : Capabilities (List UInt32) :=
  ofTree (fun values => .ok (.array (values.map fun v => .integer v.toNat)))
    (fun tree => (Json.asList (Json.asWord 32) tree).map fun values => values.map UInt32.ofNat)

def word : Capabilities UInt32 :=
  ofColumns (fun value => Columnar.packWords 4 [value.toNat])
    (do return UInt32.ofNat ((← Columnar.readWords 4 1).headD 0))

/-- A map by byte strings: its keys are no texts, so only the empty one has a structured form. -/
def byteKeyed : Capabilities (SortedMap Bytes UInt8) :=
  ofTree (fun map => if map.isEmpty then .ok (.object []) else .error .nonStringKey)
    (fun
      | .object [] => .ok .empty
      | .object ((name, _) :: _) => .error (.wrongType (.string name) "a sequence")
      | found => .error (.wrongType found "a map"))

end Courier.Capabilities

namespace Courier

/-- A sample request: which fields of a user to look up. -/
structure UserQuery where
  id : UInt64
  fields : List String
  deriving DecidableEq, Repr, Inhabited

namespace UserQuery

def typeName : String := "struct GetUserRequest"

def toTree (q : UserQuery) : Json :=
  .object [("fields", .array (q.fields.map .string)), ("id", .integer q.id.toNat)]

def setField (q : Option UInt64 × Option (List String)) (name : String) (value : Json) :
    Except Json.Mismatch (Option UInt64 × Option (List String)) :=
  if name = "id" then (Json.asWord 64 value).map fun n => (some (UInt64.ofNat n), q.2)
  else if name = "fields" then (Json.asList Json.asText value).map fun fields => (q.1, some fields)
  else .ok q

def ofTree : Json → Except Json.Mismatch UserQuery
  | .object members => do
    match ← members.foldlM (fun q m => setField q m.1 m.2) (none, none) with
    | (none, _) => throw (.missingField "id")
    | (some _, none) => throw (.missingField "fields")
    | (some id, some fields) => return { id, fields }
  | .array items => do
    match ← (["id", "fields"].zip items).foldlM (fun q m => setField q m.1 m.2) (none, none) with
    | (some id, some fields) =>
      if 2 < items.length then
        throw (.wrongLength items.length Json.noMoreItems)
      return { id, fields }
    | _ => throw (.wrongLength items.length (typeName ++ " with 2 elements"))
  | found => .error (.wrongType found typeName)

def pack (q : UserQuery) : Bytes :=
  Columnar.packWords 8 [q.id.toNat] ++ Columnar.packLengths [q.fields.length] ++
    Columnar.packTexts q.fields

def reader : Columnar.Reader UserQuery := do
  let id := UInt64.ofNat ((← Columnar.readWords 8 1).headD 0)
  let count ← Columnar.readLength
  let fields ← Columnar.readTexts count
  return { id, fields }

def structured : Capabilities UserQuery :=
  .ofTree (fun q => .ok q.toTree) ofTree

def packed : Capabilities UserQuery :=
  .ofColumns pack reader

end UserQuery

end Courier
