import Courier.Transport.Source
import Courier.Transport.Sink
/-!
# Byte streams in memory

A `Stream` has both ends of a byte transport: bytes to read, with a position among them, and a
sink for bytes written.  It can be made to deliver in pieces and to fail, and it keeps where it
was flushed.  Bytes already read are kept, so that they can be read once more.
-/

namespace Courier

structure Stream where
  /-- All the bytes to read, also those that were read. -/
  inbound : Bytes := []
  position : Nat := 0
  deliveries : List Delivery := []
  readFailure : Option (FailureAt TransportError) := none
  sink : Sink := {}
  flushFailure : Option TransportError := none
  /-- How many bytes the sink had accepted at each flush that succeeded. -/
  flushedAt : List Nat := []

namespace Stream

def ofBytes (bytes : Bytes) : Stream :=
  { inbound := bytes }

def unread (s : Stream) : Bytes :=
  s.inbound.drop s.position

def written (s : Stream) : Bytes :=
  s.sink.accepted

def flushes (s : Stream) : Nat :=
  s.flushedAt.length

def source (s : Stream) : Source where
  pending := s.unread
  position := s.position
  schedule := s.deliveries
  failure := s.readFailure

def afterReading (s : Stream) (source : Source) : Stream :=
  { s with
    position := source.position
    deliveries := source.schedule }

def feed (s : Stream) (bytes : Bytes) : Stream :=
  { s with inbound := s.inbound ++ bytes }

def takeWritten (s : Stream) : Bytes × Stream :=
  (s.written, { s with sink := { s.sink with accepted := [] } })

/-- Makes what was written the next bytes to read behind all others. -/
def loopBack (s : Stream) : Stream :=
  let (bytes, s) := s.takeWritten
  s.feed bytes

def rewind (s : Stream) : Stream :=
  { s with position := 0 }

def flip (s : Stream) (ahead : Nat) (bits : UInt8) : Bool × Stream :=
  let i := s.position + ahead
  (i < s.inbound.length, { s with inbound := s.inbound.modify i (· ^^^ bits) })

def flush (s : Stream) : Except TransportError Unit × Stream :=
  match s.flushFailure with
  | some cause => (.error cause, s)
  | none => (.ok (), { s with flushedAt := s.flushedAt ++ [s.sink.position] })

end Stream

end Courier
