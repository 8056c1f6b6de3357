import Courier.Bytes
import Courier.Failure
import Courier.Header.Code
/-!
# Message headers

A header names a message: the magic number, a version, three type codes, an id and the sizes of
the two segments that follow. `Header.bytes` lays the fields out in 22 bytes, most significant
byte first; `Header.ofBytes` reads them back and is the inverse of `bytes` up to naming the type
codes.
-/

namespace Courier

namespace Header

def magicNumber : UInt16 := 0x3F3F

/-- The version written by default: the major line in the high half, the minor revision in the low
one. -/
def currentVersion : UInt8 := 1

def supportedMajor : UInt8 := currentVersion >>> 4

/-- Where each field of the fixed layout starts. -/
structure Offsets where
  magic : Nat := 0
  version : Nat := 2
  messageType : Nat := 3
  compression : Nat := 4
  serialization : Nat := 5
  messageId : Nat := 6
  metadataSize : Nat := 14
  payloadSize : Nat := 18

def offsets : Offsets := {}

def size : Nat := offsets.payloadSize + 4

def leadSize : Nat := offsets.messageId

end Header

structure Header where
  magic : UInt16
  version : UInt8
  messageType : MessageType
  compression : Compression
  serialization : Serialization
  messageId : UInt64
  metadataSize : UInt32
  payloadSize : UInt32
  deriving BEq

namespace Header

def new (messageType : MessageType) (serialization : Serialization) (messageId : UInt64) :
    Header where
  magic := magicNumber
  version := currentVersion
  messageType := messageType
  compression := .none
  serialization := serialization
  messageId := messageId
  metadataSize := 0
  payloadSize := 0

instance : Inhabited Header :=
  ⟨new .request .json 0⟩

def majorVersion (h : Header) : UInt8 :=
  h.version >>> 4

def minorVersion (h : Header) : UInt8 :=
  h.version &&& 0x0F

def ensureSupportedVersion (h : Header) : Except WireError Unit :=
  if h.majorVersion = supportedMajor then .ok () else .error (.unsupportedVersion h.version)

/-- The header with every type code in its named form. -/
def normalized (h : Header) : Header :=
  { h with
    messageType := h.messageType.normalized
    compression := h.compression.normalized
    serialization := h.serialization.normalized }

def leadBytes (h : Header) : Bytes :=
  Bytes.bigEndian 2 h.magic.toNat ++
    [h.version, h.messageType.code, h.compression.code, h.serialization.code]

def bytes (h : Header) : Bytes :=
  h.leadBytes ++ Bytes.bigEndian 8 h.messageId.toNat ++ Bytes.bigEndian 4 h.metadataSize.toNat ++
    Bytes.bigEndian 4 h.payloadSize.toNat

def checkMagic (front : Bytes) : Except WireError Unit :=
  let found := UInt16.ofNat (Bytes.ofBigEndian front)
  if found = magicNumber then .ok () else .error (.invalidMagic found)

def ofCodes (version messageType compression serialization : UInt8) : Header where
  magic := magicNumber
  version := version
  messageType := .ofCode messageType
  compression := .ofCode compression
  serialization := .ofCode serialization
  messageId := 0
  metadataSize := 0
  payloadSize := 0

def ofFields (fields : Bytes) : Header :=
  let code (i : Nat) : UInt8 := fields.getD i 0
  { ofCodes (code 0) (code 1) (code 2) (code 3) with
    messageId := UInt64.ofNat (Bytes.ofBigEndian ((fields.drop 4).take 8))
    metadataSize := UInt32.ofNat (Bytes.ofBigEndian ((fields.drop 12).take 4))
    payloadSize := UInt32.ofNat (Bytes.ofBigEndian ((fields.drop 16).take 4)) }

/-- Reads the fixed layout off the front of a buffer. -/
def ofBytes (buffer : Bytes) : Except WireError Header := do
  if buffer.length < size then
    throw (.incompleteHeader size buffer.length)
  checkMagic (buffer.take 2)
  return ofFields ((buffer.drop 2).take (size - 2))

def shape (h : Header) : Shape :=
  .record "Header" [
    ("magic", .number h.magic.toNat),
    ("version", .number h.version.toNat),
    ("message_type", h.messageType.shape),
    ("compress_type", h.compression.shape),
    ("serialization_type", h.serialization.shape),
    ("message_id", .number h.messageId.toNat),
    ("metadata_size", .number h.metadataSize.toNat),
    ("payload_size", .number h.payloadSize.toNat)]

end Header

end Courier
