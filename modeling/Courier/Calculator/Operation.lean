import Courier.Binary64
import Courier.Columnar.Texts
import Courier.Failure
/-!
# Calculator operations

The calculator service offers operations on lists of numbers. The numbers of a request and the
number of a response travel as packed payloads, in the same form for every operation.
-/

namespace Courier.Calculator

def serviceName : String := "Calculator"

inductive Operation where
  | add
  | mult
  deriving DecidableEq, Repr

namespace Operation

def all : List Operation := [add, mult]

def name : Operation → String
  | add => "Add"
  | mult => "Mult"

def ofName? (method : String) : Option Operation :=
  all.find? (·.name = method)

/-- The result on no numbers; a sum starts at negative zero, which leaves every number as it is. -/
def start : Operation → Binary64
  | add => .negativeZero
  | mult => .one

def step : Operation → Binary64 → Binary64 → Binary64
  | add => Binary64.add
  | mult => Binary64.mul

def compute (op : Operation) (numbers : List Binary64) : Binary64 :=
  numbers.foldl op.step op.start

end Operation

def packRequest (numbers : List Binary64) : Bytes :=
  Columnar.packLengths [numbers.length] ++ Columnar.packWords 8 (numbers.map fun x => x.bits.toNat)

def packResponse (result : Binary64) : Bytes :=
  Columnar.packWords 8 [result.bits.toNat]

def readNumbers (count : Nat) : Columnar.Reader (List Binary64) := do
  return (← Columnar.readWords 8 count).map fun n => ⟨UInt64.ofNat n⟩

def requestReader : Columnar.Reader (List Binary64) := do
  let count ← Columnar.readLength
  readNumbers count

def responseReader : Columnar.Reader Binary64 := do
  return (← readNumbers 1).headD .zero

def unpack {α : Type} (reader : Columnar.Reader α) (payload : Bytes) : Except TransportError α :=
  (reader.complete payload).mapError fun e => ⟨.invalidData, some e.message⟩

def unpackRequest : Bytes → Except TransportError (List Binary64) :=
  unpack requestReader

def unpackResponse : Bytes → Except TransportError Binary64 :=
  unpack responseReader

/-- A method as a client knows it: its name, the payload of a request for it, and what it takes the
payload of a response for.  A service may offer the name or not. -/
structure Method where
  name : String
  pack : List Binary64 → Bytes
  unpack : Bytes → Except TransportError Binary64

def Method.named (name : String) : Method where
  name := name
  pack := packRequest
  unpack := unpackResponse

instance : Coe String Method where
  coe := Method.named

def Operation.method (op : Operation) : Method :=
  .named op.name

end Courier.Calculator
