import Courier.Stack
/-!
# Connection settings

What the two ends of a connection choose for it: how a message is framed, whether payloads are
sealed, how far one may grow when it is decompressed, and what the headers of new messages say.
The settings build the protocol stack of a connection (`Settings.stack`): payloads are compressed
first and then sealed.
-/

namespace Courier

open Cipher (Key)

/-- The choices of one end. Both ends have to agree on the framing and the key; the other choices
travel in the headers or concern the receiver alone. -/
structure Settings where
  version : UInt8 := Header.currentVersion
  serialization : Serialization := .json
  compression : Compression := .none
  framing : Framing := .fixed
  key : Option Key := none
  /-- The most bytes that a compressed payload may grow to. -/
  limit : UInt32 := Layer.defaultLimit

namespace Settings

instance : Inhabited Settings := ⟨{}⟩

/-- Settings are the same when their type codes are the same bytes and all else is equal. -/
instance : BEq Settings where
  beq a b :=
    a.version == b.version && a.serialization == b.serialization &&
      a.compression == b.compression && a.framing == b.framing && a.key == b.key &&
      a.limit == b.limit

def header (s : Settings) (messageType : MessageType) (id : UInt64) : Header :=
  { Header.new messageType s.serialization id with
    version := s.version
    compression := s.compression }

def requestHeader (s : Settings) (id : UInt64) : Header :=
  s.header .request id

def responseHeader (s : Settings) (id : UInt64) : Header :=
  s.header .response id

def layers (s : Settings) : List Layer :=
  s.key.toList.map Layer.encrypt ++ [.compress Layer.defaultLevel s.limit]

def stack (s : Settings) (registry : Registry) : Stack where
  framing := s.framing
  registry := registry
  layers := s.layers

def shape (s : Settings) : Shape :=
  .record "ProtocolConfig" [
    ("version", .number s.version.toNat),
    ("serialization", s.serialization.shape),
    ("compression", s.compression.shape),
    ("framing", s.framing.shape),
    ("encrypted", .flag s.key.isSome),
    ("max_decompressed_size", .number s.limit.toNat)]

end Settings

end Courier
