import Courier.Header
import Courier.Metadata
/-!
# Messages

One request or response: a header, metadata or none, and a payload that nothing here looks into.
-/

namespace Courier

/-- A request or a response. -/
structure Message where
  header : Header
  metadata : Option Metadata
  payload : Bytes
  deriving BEq

namespace Message

def request (id : UInt64) (serialization : Serialization) (metadata : Metadata)
    (payload : Bytes) : Message :=
  ⟨.new .request serialization id, some metadata, payload⟩

def response (id : UInt64) (serialization : Serialization) (metadata : Option Metadata)
    (payload : Bytes) : Message :=
  ⟨.new .response serialization id, metadata, payload⟩

def errorResponse (id : UInt64) (serialization : Serialization) (error : String) : Message :=
  response id serialization (some (Metadata.withError {} error)) []

def id (m : Message) : UInt64 :=
  m.header.messageId

def isRequest (m : Message) : Bool :=
  m.header.messageType == .request

def isResponse (m : Message) : Bool :=
  m.header.messageType == .response

def error? (m : Message) : Option String :=
  (m.metadata.filter Metadata.isError).map Metadata.error

def serviceName? (m : Message) : Option String :=
  m.metadata.map Metadata.serviceName

def methodName? (m : Message) : Option String :=
  m.metadata.map Metadata.methodName

def shape (m : Message) : Shape :=
  .record "Message" [
    ("header", m.header.shape),
    ("metadata", .option (m.metadata.map Metadata.shape)),
    ("payload", .list (m.payload.map fun b => .number b.toNat))]

end Message

end Courier
