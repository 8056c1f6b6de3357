import Courier.Calculator.CallError
import Courier.Calculator.Operation
import Courier.Connection
import Courier.Settings
/-!
# Calculator client

A client makes one call at a time: it sends a request with an id of its own and takes the next
message of its stream for the response. Of a response it looks first at the id, then at the error
text, then at the payload (`conclude`).
-/

namespace Courier.Calculator

structure Client where
  settings : Settings
  connection : Connection

namespace Client

def ofStream (settings : Settings) (stream : Stream) : Client where
  settings := settings
  connection := { stream, stack := settings.stack .builtin }

def request (settings : Settings) (id : UInt64) (method : Method) (numbers : List Binary64) :
    Message where
  header := settings.requestHeader id
  metadata := some
    (Metadata.withExtra { serviceName, methodName := method.name } "client" "example")
  payload := method.pack numbers

/-- What a message received says to the request of the given id. -/
def conclude (method : Method) (id : UInt64) (response : Message) : Except CallError Binary64 :=
  if response.id ≠ id then .error (.mismatchedId id response.id)
  else
    match response.error? with
    | some error => .error (.remote error)
    | none => (method.unpack response.payload).mapError .decode

/-- Calls a method on a list of numbers. While the client waits for the response, the other end
gets its turn; what came of that is answered too, if there was a turn. -/
def call {σ : Type} (client : Client) (turn : Connection.Turn σ) (nonces : Nonces) (id : UInt64)
    (method : Method) (numbers : List Binary64) :
    Except CallError Binary64 × Client × Option σ :=
  match client.connection.send nonces (request client.settings id method numbers) with
  | (⟨.error e, _⟩, connection) => (.error (.protocol e), { client with connection }, none)
  | (⟨.ok (), _⟩, connection) =>
    match connection.receiveAfter turn with
    | (⟨.error e, _⟩, connection, outcome) =>
      (.error (.protocol e), { client with connection }, outcome)
    | (⟨.ok response, _⟩, connection, outcome) =>
      (conclude method id response, { client with connection }, outcome)

end Client

end Courier.Calculator
