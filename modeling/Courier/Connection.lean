import Courier.Stack
import Courier.Transport.Stream
/-!
# Connections

A connection is a byte stream with the protocol stack that both ends have agreed on; it keeps
nothing else. One call sends or receives one message.
-/

namespace Courier

structure Connection where
  stream : Stream
  stack : Stack

namespace Connection

def plain (registry : Registry) (stream : Stream) : Connection where
  stream := stream
  stack := { framing := .fixed, registry, layers := [] }

/-- Flushes the stream. A failure is one of the payload, the last segment handed to the stream. -/
def flush (c : Connection) : Except WireError Unit × Connection :=
  let (flushed, stream) := c.stream.flush
  (flushed.mapError (.transport .payload), { c with stream })

def send (c : Connection) (nonces : Nonces) (m : Message) :
    Traced (Except WireError Unit) × Connection :=
  let (encoded, sink) := c.stack.encode nonces m c.stream.sink
  let c := { c with stream := { c.stream with sink } }
  match encoded.result with
  | .error _ => (encoded, c)
  | .ok () =>
    let (flushed, c) := c.flush
    (⟨flushed, encoded.log⟩, c)

def receive (c : Connection) : Traced (Except WireError Message) × Connection :=
  let (decoded, source) := c.stack.decode c.stream.source
  (decoded, { c with stream := c.stream.afterReading source })

def wantsMore (c : Connection) : Bool :=
  (c.stack.framing.intake c.stack.registry).wantsMore c.stream.unread

/-- What the other end of a stream does with it when it gets its turn, and what else comes of
that. -/
abbrev Turn (σ : Type) := Stream → Stream × σ

/-- Decodes the next message of the stream; the other end gets a turn first if the bytes at hand
do not suffice. -/
def receiveAfter {σ : Type} (c : Connection) (turn : Turn σ) :
    Traced (Except WireError Message) × Connection × Option σ :=
  if c.wantsMore then
    let (stream, outcome) := turn c.stream
    let (received, c) := { c with stream }.receive
    (received, c, some outcome)
  else
    let (received, c) := c.receive
    (received, c, none)

def shape (c : Connection) : Shape :=
  .openRecord "Connection" [("protocol", c.stack.shape)]

end Connection

end Courier
