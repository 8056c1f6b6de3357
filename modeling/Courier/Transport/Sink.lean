import Courier.Transport.Source
/-!
# Byte sinks

A `Sink` is the sending end of a byte transport: the bytes it has accepted, a schedule of what its
next calls do, and possibly a place at which it starts to fail, by an error or by accepting no
byte. `Sink.writeAll` calls it until it has accepted everything.
-/

namespace Courier

/-- The sending end of a byte transport. -/
structure Sink where
  accepted : Bytes := []
  position : Nat := 0
  schedule : List Delivery := []
  /-- Without an error, a failing call accepts no byte. -/
  failure : Option (FailureAt (Option TransportError)) := none

namespace Sink

inductive Reply where
  | interrupted
  | failed (cause : TransportError)
  | accepted (count : Nat)

/-- Accepts at most `most` of the bytes, and none past the place of failure. -/
def accept (s : Sink) (bytes : Bytes) (most : Nat) : Reply × Sink :=
  let take (n : Nat) : Reply × Sink :=
    let content := bytes.take n
    (.accepted content.length,
      { s with accepted := s.accepted ++ content, position := s.position + content.length })
  match s.failure with
  | none => take most
  | some f =>
    if f.after ≤ s.position then
      match f.cause with
      | some cause => (.failed cause, s)
      | none => (.accepted 0, s)
    else take (min most (f.after - s.position))

def call (s : Sink) (bytes : Bytes) : Reply × Sink :=
  match s.schedule with
  | [] => s.accept bytes bytes.length
  | .interrupted :: later => (.interrupted, { s with schedule := later })
  | .upTo most :: later => { s with schedule := later }.accept bytes (min bytes.length (most + 1))

def acceptsNothing : TransportError :=
  ⟨.writeZero, some "failed to write whole buffer"⟩

def pushWithin : (calls : Nat) → Sink → Bytes → Except TransportError Unit × Sink
  | 0, s, _ => (.error acceptsNothing, s)
  | calls + 1, s, bytes =>
    if bytes.isEmpty then (.ok (), s)
    else
      match s.call bytes with
      | (.interrupted, s) => pushWithin calls s bytes
      | (.failed cause, s) => (.error cause, s)
      | (.accepted 0, s) => (.error acceptsNothing, s)
      | (.accepted count, s) => pushWithin calls s (bytes.drop count)

/-- Writes all the bytes. Every call but the last uses up a part of the schedule or accepts a
byte. -/
def writeAll (s : Sink) (bytes : Bytes) : Except TransportError Unit × Sink :=
  pushWithin (s.schedule.length + bytes.length + 1) s bytes

end Sink

end Courier
