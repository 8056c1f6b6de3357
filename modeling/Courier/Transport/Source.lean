import Courier.Bytes
import Courier.Failure
/-!
# Byte sources

A `Source` is the receiving end of a byte transport: the bytes still to come, a schedule of what
its next calls do, and possibly a place at which it starts to fail. `Source.readExactly` calls it
until it has the bytes that are wanted; it tries again after an interruption, and neither the size
of the pieces nor interruptions show in its outcome.
-/

namespace Courier

/-- What one call of a transport may do: be interrupted, or move up to `most + 1` bytes. -/
inductive Delivery where
  | interrupted
  | upTo (most : Nat)
  deriving DecidableEq, Repr

/-- A failure of every call once so many bytes were moved. -/
structure FailureAt (ε : Type) where
  after : Nat
  cause : ε

structure Source where
  pending : Bytes
  position : Nat := 0
  schedule : List Delivery := []
  failure : Option (FailureAt TransportError) := none

namespace Source

def ofBytes (bytes : Bytes) : Source :=
  { pending := bytes }

inductive Reply where
  | interrupted
  | failed (cause : TransportError)
  | bytes (content : Bytes)

def deliver (s : Source) (most : Nat) : Reply × Source :=
  let hand (n : Nat) : Reply × Source :=
    let content := s.pending.take n
    (.bytes content,
      { s with pending := s.pending.drop n, position := s.position + content.length })
  match s.failure with
  | none => hand most
  | some f =>
    if f.after ≤ s.position then (.failed f.cause, s) else hand (min most (f.after - s.position))

def call (s : Source) (room : Nat) : Reply × Source :=
  match s.schedule with
  | [] => s.deliver room
  | .interrupted :: later => (.interrupted, { s with schedule := later })
  | .upTo most :: later => { s with schedule := later }.deliver (min room (most + 1))

inductive Outcome where
  | full (content : Bytes)
  | ended (received : Nat)
  | failed (cause : TransportError)

/-- Calls the source until `room` more bytes have come behind those gathered; `calls` bounds the
number of calls. -/
def gather : (calls : Nat) → (room : Nat) → (gathered : List Bytes) → Source → Outcome × Source
  | 0, _, _, s => (.ended 0, s)
  | calls + 1, room, gathered, s =>
    if room = 0 then (.full gathered.reverse.flatten, s)
    else
      match s.call room with
      | (.interrupted, s) => gather calls room gathered s
      | (.failed cause, s) => (.failed cause, s)
      | (.bytes [], s) => (.ended gathered.flatten.length, s)
      | (.bytes content, s) => gather calls (room - content.length) (content :: gathered) s

def readExactly (s : Source) (size : Nat) : Outcome × Source :=
  gather (s.schedule.length + size + 1) size [] s

end Source

end Courier
