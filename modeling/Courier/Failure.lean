import Courier.Text.Quoted
import Courier.Shape
/-!
# Causes of failure

A codec refuses a value or bytes (`CodecError`), a byte transport fails (`TransportError`), and
one call of a protocol fails for a `WireError`, which names the segment of the message it
concerns. Each cause has one message text and one inspection text.
-/

namespace Courier

inductive Segment where
  | header
  | metadata
  | payload
  deriving DecidableEq, Repr

namespace Segment

def name : Segment → String
  | header => "header"
  | metadata => "metadata"
  | payload => "payload"

def shape : Segment → Shape
  | header => .atom "Header"
  | metadata => .atom "Metadata"
  | payload => .atom "Payload"

end Segment

inductive TransportFault where
  | brokenPipe
  | connectionReset
  | connectionAborted
  | timedOut
  | wouldBlock
  | unexpectedEof
  | permissionDenied
  | invalidInput
  | invalidData
  | writeZero
  | other
  deriving DecidableEq, Repr

namespace TransportFault

def table : List (TransportFault × String × String) := [
  (brokenPipe, "BrokenPipe", "broken pipe"),
  (connectionReset, "ConnectionReset", "connection reset"),
  (connectionAborted, "ConnectionAborted", "connection aborted"),
  (timedOut, "TimedOut", "timed out"),
  (wouldBlock, "WouldBlock", "operation would block"),
  (unexpectedEof, "UnexpectedEof", "unexpected end of file"),
  (permissionDenied, "PermissionDenied", "permission denied"),
  (invalidInput, "InvalidInput", "invalid input parameter"),
  (invalidData, "InvalidData", "invalid data"),
  (writeZero, "WriteZero", "write zero"),
  (other, "Other", "other error")]

def name (fault : TransportFault) : String :=
  ((table.find? (·.1 = fault)).map (·.2.1)).getD "Other"

def description (fault : TransportFault) : String :=
  ((table.find? (·.1 = fault)).map (·.2.2)).getD "other error"

def ofName (text : String) : TransportFault :=
  ((table.find? (·.2.1 = text)).map (·.1)).getD other

end TransportFault

/-- A failure of a byte transport: its kind, and a text if it came with one. -/
structure TransportError where
  fault : TransportFault
  text : Option String
  deriving DecidableEq, Repr

namespace TransportError

def message (e : TransportError) : String :=
  e.text.getD e.fault.description

def shape (e : TransportError) : Shape :=
  match e.text with
  | none => .tuple "Kind" [.atom e.fault.name]
  | some text => .record "Custom" [("kind", .atom e.fault.name), ("error", .text text)]

end TransportError

inductive CodecError where
  | invalidMessage (codec : String)
  | malformed (codec reason : String)
  deriving DecidableEq, Repr

namespace CodecError

def codec : CodecError → String
  | invalidMessage codec => codec
  | malformed codec _ => codec

def message : CodecError → String
  | invalidMessage codec => "value is not supported by the `" ++ codec ++ "` codec"
  | malformed codec reason => "`" ++ codec ++ "` codec failed: " ++ reason

def shape : CodecError → Shape
  | invalidMessage codec => .record "InvalidMessage" [("codec", .text codec)]
  | malformed codec reason => .record "Malformed" [("codec", .text codec), ("reason", .text reason)]

end CodecError

/-- Why one call that encodes or decodes a message failed. -/
inductive WireError where
  | invalidMagic (found : UInt16)
  | incompleteHeader (needed available : Nat)
  | unsupportedVersion (version : UInt8)
  | unsupportedSerializer (code : UInt8) (segment : Segment)
  | invalidMessage (codec : String) (segment : Segment)
  | codec (segment : Segment) (cause : CodecError)
  | transport (segment : Segment) (cause : TransportError)
  | sizeOverflow (segment : Segment) (size : Nat)
  | invalidVarint (segment : Segment)
  | unsupportedCompression (code : UInt8)
  | compression (cause : TransportError)
  | encryption
  | decryption
  deriving DecidableEq, Repr

namespace WireError

def ofCodec (segment : Segment) : CodecError → WireError
  | .invalidMessage name => invalidMessage name segment
  | cause => codec segment cause

def segment : WireError → Segment
  | invalidMagic _ | incompleteHeader _ _ | unsupportedVersion _ => .header
  | unsupportedSerializer _ s | invalidMessage _ s | codec s _ | transport s _ | sizeOverflow s _
  | invalidVarint s => s
  | unsupportedCompression _ | compression _ | encryption | decryption => .payload

def transportError : WireError → Option TransportError
  | transport _ cause => some cause
  | _ => none

/-- Whether the byte stream ended inside the message. -/
def isUnexpectedEof (e : WireError) : Bool :=
  e.transportError.any (·.fault = .unexpectedEof)

def message : WireError → String
  | invalidMagic found => "invalid magic number: 0x" ++ Text.paddedHexadecimal 4 found.toNat
  | incompleteHeader needed available =>
    "incomplete header: need " ++ toString needed ++ " bytes, have " ++ toString available
  | unsupportedVersion version =>
    "unsupported protocol version: 0x" ++ Text.paddedHexadecimal 2 version.toNat
  | unsupportedSerializer code s =>
    "unsupported serializer type " ++ toString code.toNat ++ " (" ++ s.name ++ ")"
  | invalidMessage name s => "message type is invalid for `" ++ name ++ "` codec (" ++ s.name ++ ")"
  | codec s cause => cause.message ++ " (" ++ s.name ++ ")"
  | transport s cause => "I/O error: " ++ cause.message ++ " (" ++ s.name ++ ")"
  | sizeOverflow s size => s.name ++ " of " ++ toString size ++ " bytes exceeds the u32 size field"
  | invalidVarint s => "invalid varint (" ++ s.name ++ ")"
  | unsupportedCompression code => "unsupported compress type " ++ toString code.toNat
  | compression cause => "compression failed: " ++ cause.message
  | encryption => "payload encryption failed"
  | decryption => "payload decryption failed"

def causeMessage : WireError → Option String
  | codec _ cause => some cause.message
  | transport _ cause => some cause.message
  | compression cause => some cause.message
  | _ => none

def name : WireError → String
  | invalidMagic _ => "InvalidMagic"
  | incompleteHeader _ _ => "IncompleteHeader"
  | unsupportedVersion _ => "UnsupportedVersion"
  | unsupportedSerializer _ _ => "UnsupportedSerializer"
  | invalidMessage _ _ => "InvalidMessage"
  | codec _ _ => "Codec"
  | transport _ _ => "Io"
  | sizeOverflow _ _ => "SizeOverflow"
  | invalidVarint _ => "InvalidVarint"
  | unsupportedCompression _ => "UnsupportedCompression"
  | compression _ => "Compression"
  | encryption => "Encryption"
  | decryption => "Decryption"

def shape (e : WireError) : Shape :=
  match e with
  | invalidMagic found => .record e.name [("found", .number found.toNat)]
  | incompleteHeader needed available =>
    .record e.name [("needed", .number needed), ("have", .number available)]
  | unsupportedVersion version => .record e.name [("version", .number version.toNat)]
  | unsupportedSerializer code s =>
    .record e.name [("serialization_type", .number code.toNat), ("phase", s.shape)]
  | invalidMessage codecName s => .record e.name [("codec", .text codecName), ("phase", s.shape)]
  | codec s cause => .record e.name [("phase", s.shape), ("source", cause.shape)]
  | transport s cause => .record e.name [("phase", s.shape), ("source", cause.shape)]
  | sizeOverflow s size => .record e.name [("phase", s.shape), ("size", .number size)]
  | invalidVarint s => .record e.name [("phase", s.shape)]
  | unsupportedCompression code => .record e.name [("compress_type", .number code.toNat)]
  | compression cause => .record e.name [("source", cause.shape)]
  | encryption | decryption => .atom e.name

end WireError

end Courier
