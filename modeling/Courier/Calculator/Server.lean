import Courier.Calculator.Operation
import Courier.Connection
import Courier.Settings
/-!
# Calculator server

The server answers every request with one response of the same id: the result of an operation, or
an error text. It serves a connection (`serve`) until the stream ends or fails.
-/

namespace Courier.Calculator

/-- The method that a request asks for; its name is empty if the request has no metadata. -/
def methodOf (request : Message) : String :=
  request.methodName?.getD ""

def outcome (method : String) (payload : Bytes) : Except String Bytes :=
  match Operation.ofName? method with
  | none => .error ("Unknown method `" ++ method ++ "`")
  | some op =>
    match unpackRequest payload with
    | .error e => .error e.message
    | .ok numbers => .ok (packResponse (op.compute numbers))

def failedEvent (request : Message) (error : String) : Event where
  severity := .debug
  text := "Request failed: " ++ error
  fields := [("message_id", toString request.id.toNat)]

def respond (settings : Settings) (request : Message) : Traced Message :=
  let header := settings.responseHeader request.id
  let method := methodOf request
  match outcome method request.payload with
  | .ok payload => ⟨⟨header, some { serviceName, methodName := method }, payload⟩, []⟩
  | .error error => ⟨⟨header, some (Metadata.withError {} error), []⟩, [failedEvent request error]⟩

def serveWithin (settings : Settings) (nonces : Nat → Nonces) :
    (rounds answered : Nat) → Connection → Except WireError Unit × Connection
  | 0, _, c => (.ok (), c)
  | rounds + 1, answered, c =>
    match c.receive with
    | (⟨.error e, _⟩, c) => (if e.isUnexpectedEof then .ok () else .error e, c)
    | (⟨.ok request, _⟩, c) =>
      match c.send (nonces answered) (respond settings request).result with
      | (⟨.error e, _⟩, c) => (.error e, c)
      | (⟨.ok (), _⟩, c) => serveWithin settings nonces rounds (answered + 1) c

/-- Answers requests until the stream ends, which is no failure, or fails; the n-th response uses
the n-th nonces. Every request takes bytes off the stream, so that there are not more of them than
bytes. -/
def serve (settings : Settings) (nonces : Nat → Nonces) (stream : Stream) :
    Except WireError Unit × Stream :=
  let c : Connection := { stream, stack := settings.stack .builtin }
  let (served, c) := serveWithin settings nonces (stream.unread.length + 1) 0 c
  (served, c.stream)

def turn (settings : Settings) (nonces : Nat → Nonces) :
    Connection.Turn (Except WireError Unit) := fun stream =>
  let (requests, stream) := stream.takeWritten
  let (served, answered) := serve settings nonces (.ofBytes requests)
  (stream.feed answered.written, served)

end Courier.Calculator
