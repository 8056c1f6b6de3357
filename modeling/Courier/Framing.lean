import Courier.Message
import Courier.Registry
import Courier.Varint
import Courier.Transport.Sink
/-!
# Framings

A framing lays a message out on a byte stream: a header, the metadata in the form its codec gives
it, and the payload. The two framings differ in the header alone: the fixed one has 22 bytes, the
compact one writes the id and the sizes as variable-length integers. A message is framed
completely (`Frame.ofMessage`) before its first byte is written (`Frame.write`); it is decoded
(`Framing.intake`) by reading all of its bytes before anything but the header is looked at.
-/

namespace Courier

/-- How the id and the sizes of a header are laid out. -/
inductive Framing where
  | fixed
  | compact
  deriving DecidableEq, Repr, Inhabited

structure Frame where
  header : Header
  metadata : Bytes
  payload : Bytes

def Codec.encodeMetadata (codec : Codec) : Option Metadata → Except WireError Bytes
  | none => .ok []
  | some m => (codec.encode Metadata.capabilities m).mapError (.ofCodec .metadata)

def Codec.decodeMetadata (codec : Codec) (segment : Bytes) : Except WireError (Option Metadata) :=
  if segment.isEmpty then .ok none
  else
    match codec.decode Metadata.capabilities segment with
    | .ok m => .ok (some m)
    | .error e => .error (.ofCodec .metadata e)

/-- What the codec of a serialization makes, or that there is none; metadata need not be there for
that. -/
def Registry.withCodec {α : Type} (r : Registry) (serialization : Serialization)
    (f : Codec → Except WireError α) : Except WireError α :=
  match r.lookup serialization with
  | some codec => f codec
  | none => .error (.unsupportedSerializer serialization.code .metadata)

def sizeField (segment : Segment) (bytes : Bytes) : Except WireError UInt32 :=
  let size := bytes.length
  if size < UInt32.size then .ok (UInt32.ofNat size) else .error (.sizeOverflow segment size)

namespace Frame

/-- The frame of a message. The sizes come from the segments, never from the header given. -/
def ofMessage (registry : Registry) (m : Message) : Except WireError Frame := do
  let metadata ← registry.withCodec m.header.serialization (·.encodeMetadata m.metadata)
  let metadataSize ← sizeField .metadata metadata
  let payloadSize ← sizeField .payload m.payload
  return {
    header := { m.header with magic := Header.magicNumber, metadataSize, payloadSize }
    metadata
    payload := m.payload }

end Frame

namespace Framing

def headerBytes : Framing → Header → Bytes
  | fixed, h => h.bytes
  | compact, h =>
    h.leadBytes ++ Varint.encode h.messageId.toNat ++ Varint.encode h.metadataSize.toNat ++
      Varint.encode h.payloadSize.toNat

def magicIntake : Intake Unit := do
  let front ← Intake.take .header 2
  .ofExcept (Header.checkMagic front)

def fieldsIntake : Framing → Intake Header
  | fixed => do
    let fields ← Intake.take .header (Header.size - 2)
    return Header.ofFields fields
  | compact => do
    let codes ← Intake.take .header (Header.leadSize - 2)
    let messageId ← Varint.intake Varint.longest64 64
    let metadataSize ← Varint.sizeIntake
    let payloadSize ← Varint.sizeIntake
    return {
      Header.ofCodes (codes.getD 0 0) (codes.getD 1 0) (codes.getD 2 0) (codes.getD 3 0) with
      messageId := UInt64.ofNat messageId
      metadataSize
      payloadSize }

def headerIntake (f : Framing) : Intake Header := do
  magicIntake
  f.fieldsIntake

def frameIntake (f : Framing) : Intake Frame := do
  let header ← f.headerIntake
  let metadata ← Intake.take .metadata header.metadataSize.toNat
  let payload ← Intake.take .payload header.payloadSize.toNat
  return { header, metadata, payload }

/-- A message. Its codec is looked up once the whole frame is read, so that a failure leaves the
stream at the next frame. -/
def intake (f : Framing) (registry : Registry) : Intake Message := do
  let frame ← f.frameIntake
  let metadata ← Intake.ofExcept
    (registry.withCodec frame.header.serialization (·.decodeMetadata frame.metadata))
  return { header := frame.header, metadata, payload := frame.payload }

def shape : Framing → Shape
  | fixed => .atom "Fixed"
  | compact => .atom "Compact"

def eventWord : Framing → String
  | fixed => ""
  | compact => "compact "

def sizeFields (f : Framing) (h : Header) : List (String × String) :=
  [("message_id", toString h.messageId.toNat)] ++
  (match f with
    | fixed => [("serialization_type", toString h.serialization.code.toNat)]
    | compact => []) ++
  [("metadata_size", toString h.metadataSize.toNat), ("payload_size", toString h.payloadSize.toNat)]

def segmentField (e : WireError) : String × String :=
  ("phase", (Shape.option (some e.segment.shape)).oneLine)

def encodeEvent (f : Framing) (id : UInt64) : Except WireError Header → Event
  | .ok h => ⟨.trace, "encoded " ++ f.eventWord ++ "message", f.sizeFields h⟩
  | .error e =>
    ⟨.debug, f.eventWord ++ "encode failed: " ++ e.message,
      [("message_id", toString id.toNat), segmentField e]⟩

def decodeEvent (f : Framing) : Except WireError Message → Event
  | .ok m => ⟨.trace, "decoded " ++ f.eventWord ++ "message", f.sizeFields m.header⟩
  | .error e => ⟨.debug, f.eventWord ++ "decode failed: " ++ e.message, [segmentField e]⟩

end Framing

namespace Frame

def segments (frame : Frame) (f : Framing) : List (Segment × Bytes) :=
  [(.header, f.headerBytes frame.header), (.metadata, frame.metadata), (.payload, frame.payload)]

def bytes (frame : Frame) (f : Framing) : Bytes :=
  (frame.segments f).flatMap Prod.snd

/-- Writes segments one after another; a failure is one of the segment under way. -/
def writeSegments : List (Segment × Bytes) → Sink → Except WireError Unit × Sink
  | [], sink => (.ok (), sink)
  | (segment, bytes) :: rest, sink =>
    match sink.writeAll bytes with
    | (.ok (), sink) => writeSegments rest sink
    | (.error cause, sink) => (.error (.transport segment cause), sink)

def write (frame : Frame) (f : Framing) (sink : Sink) : Except WireError Unit × Sink :=
  writeSegments (frame.segments f) sink

end Frame

end Courier
