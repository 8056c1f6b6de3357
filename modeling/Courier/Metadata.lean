import Courier.Codec
import Courier.Columnar.Texts
/-!
# Call metadata

What travels beside the payload of a message: the names of service and method, an error text that
is not empty on a failed response, and further entries by key. Its JSON form is an object that
leaves out an empty error and empty extra entries; its packed form lays out the three texts, the
keys and the values in columns. Reading the JSON form fills in what is missing and ignores members
it does not know.
-/

namespace Courier

/-- Call identity and side-channel entries of a message. -/
structure Metadata where
  serviceName : String := ""
  methodName : String := ""
  error : String := ""
  extra : SortedMap String String := .empty
  deriving DecidableEq

namespace Metadata

instance : Inhabited Metadata := ⟨{}⟩

def withError (m : Metadata) (error : String) : Metadata :=
  { m with error }

def withExtra (m : Metadata) (key value : String) : Metadata :=
  { m with extra := m.extra.insert key value }

def isError (m : Metadata) : Bool :=
  !m.error.isEmpty

def toTree (m : Metadata) : Json :=
  .object (
    (if m.error.isEmpty then [] else [("error", .string m.error)]) ++
    (if m.extra.isEmpty then []
      else [("extra", .object (m.extra.entries.map fun e => (e.1, .string e.2)))]) ++
    [("methodName", .string m.methodName), ("serviceName", .string m.serviceName)])

def extraOfTree (tree : Json) : Except Json.Mismatch (SortedMap String String) :=
  (Json.asMembers Json.asText tree).map (SortedMap.insertAll .empty)

/-- The metadata with the field of the given name taken from a tree; a name that is no field's
changes nothing. -/
def setField (m : Metadata) (name : String) (value : Json) : Except Json.Mismatch Metadata :=
  if name = "serviceName" then (Json.asText value).map fun serviceName => { m with serviceName }
  else if name = "methodName" then (Json.asText value).map fun methodName => { m with methodName }
  else if name = "error" then (Json.asText value).map fun error => { m with error }
  else if name = "extra" then (extraOfTree value).map fun extra => { m with extra }
  else .ok m

def fieldNames : List String :=
  ["serviceName", "methodName", "error", "extra"]

def setFields (fields : List (String × Json)) : Except Json.Mismatch Metadata :=
  fields.foldlM (fun m f => m.setField f.1 f.2) {}

/-- Reads the JSON form: an object, or a sequence of the fields. -/
def ofTree : Json → Except Json.Mismatch Metadata
  | .object members => setFields members
  | .array items => do
    let m ← setFields (fieldNames.zip items)
    if fieldNames.length < items.length then
      throw (.wrongLength items.length Json.noMoreItems)
    return m
  | found => .error (.wrongType found "struct Metadata")

def pack (m : Metadata) : Bytes :=
  Columnar.packText m.serviceName ++ Columnar.packText m.methodName ++ Columnar.packText m.error ++
    Columnar.packLengths [m.extra.size] ++ Columnar.packTexts (m.extra.entries.map Prod.fst) ++
    Columnar.packTexts (m.extra.entries.map Prod.snd)

def reader : Columnar.Reader Metadata := do
  let serviceName ← Columnar.readText
  let methodName ← Columnar.readText
  let error ← Columnar.readText
  let count ← Columnar.readLength
  let keys ← Columnar.readTexts count
  let values ← Columnar.readTexts count
  return { serviceName, methodName, error, extra := .insertAll .empty (keys.zip values) }

def formName : String := "metadata"

def capabilities : Capabilities Metadata where
  structured := some {
    toTree := fun m => .ok m.toTree
    ofTree := fun tree => (ofTree tree).mapError fun e => .malformed formName e.message }
  packed := some {
    pack := pack
    unpack := fun bytes => (reader.complete bytes).mapError fun e => .malformed formName e.message }

def shape (m : Metadata) : Shape :=
  .record "Metadata" [
    ("service_name", .text m.serviceName),
    ("method_name", .text m.methodName),
    ("error", .text m.error),
    ("extra", .map (m.extra.entries.map fun e => (.text e.1, .text e.2)))]

end Metadata

end Courier
