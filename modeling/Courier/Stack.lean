import Courier.Framing
import Courier.Gzip
import Courier.Cipher.Sealed
/-!
# Protocol stacks

A stack is a framing with a registry and layers on it, each of which replaces the payload of a
message on its way to the framing and brings it back on its way from there. The compressing layer
acts as the header's compression code says, the sealing layer always. A stack encodes a message
into a sink (`Stack.encode`) and decodes one from a source (`Stack.decode`); both also report
events.
-/

namespace Courier

open Cipher (Key Nonce)

/-- What may stand on a framing. -/
inductive Layer where
  | compress (level : Nat) (limit : UInt32)
  | encrypt (key : Key)

structure Stack where
  framing : Framing
  registry : Registry
  layers : List Layer

namespace Layer

def defaultLevel : Nat := 6

def defaultLimit : UInt32 := 64 * 1024 * 1024

def defaultCompress : Layer := compress defaultLevel defaultLimit

def compressedEvent (m : Message) (compressed : Bytes) : Event where
  severity := .trace
  text := "compressed payload"
  fields := [
    ("message_id", toString m.id.toNat),
    ("original", toString m.payload.length),
    ("compressed", toString compressed.length)]

def wrap (layer : Layer) (nonce : Nonce) (m : Message) : Traced (Except WireError Message) :=
  match layer with
  | compress level _ =>
    match m.header.compression.normalized with
    | .none => ⟨.ok m, []⟩
    | .gzip =>
      let compressed := Gzip.compress level m.payload
      ⟨.ok { m with payload := compressed }, [compressedEvent m compressed]⟩
    | .other code => ⟨.error (.unsupportedCompression code), []⟩
  | encrypt key => ⟨.ok { m with payload := Cipher.sealPayload key nonce m.id m.payload }, []⟩

def withPayload (m : Message) (payload : Bytes) : Message :=
  { m with
    header := { m.header with payloadSize := UInt32.ofNat payload.length }
    payload }

def decompressed (limit : UInt32) (m : Message) : Except WireError (Option Bytes) :=
  match m.header.compression.normalized with
  | .none => .ok none
  | .gzip =>
    match Gzip.decompress limit.toNat m.payload with
    | .ok payload => .ok (some payload)
    | .error (.overLimit size) => .error (.sizeOverflow .payload size)
    | .error (.damaged fault) => .error (.compression fault.transportError)
  | .other code => .error (.unsupportedCompression code)

def unwrapFailure (m : Message) (text : String) : Event :=
  ⟨.debug, text, [("message_id", toString m.id.toNat)]⟩

def unwrap (layer : Layer) (m : Message) : Traced (Except WireError Message) :=
  match layer with
  | compress _ limit =>
    match decompressed limit m with
    | .ok none => ⟨.ok m, []⟩
    | .ok (some payload) => ⟨.ok (withPayload m payload), []⟩
    | .error e => ⟨.error e, [unwrapFailure m ("payload decompression failed: " ++ e.message)]⟩
  | encrypt key =>
    match Cipher.openPayload? key m.id m.payload with
    | none => ⟨.error .decryption, [unwrapFailure m "payload failed authentication"]⟩
    | some payload =>
      match sizeField .payload payload with
      | .ok _ => ⟨.ok (withPayload m payload), []⟩
      | .error e => ⟨.error e, []⟩

def isSealing : Layer → Bool
  | compress _ _ => false
  | encrypt _ => true

end Layer

namespace Traced

/-- A step after a result that may be an error; events come in the order of the steps. -/
def andThen {α β : Type} (t : Traced (Except WireError α)) (f : α → Traced (Except WireError β)) :
    Traced (Except WireError β) :=
  match t.result with
  | .error e => ⟨.error e, t.log⟩
  | .ok a =>
    let next := f a
    ⟨next.result, t.log ++ next.log⟩

end Traced

/-- The nonces of one encoding: that of the sealing layer with so many sealing layers below it. -/
abbrev Nonces := Nat → Nonce

namespace Stack

/-- The message as layers hand it to the framing, the outermost layer first; `seals` sealing
layers lie below. -/
def wrapAll (nonces : Nonces) (seals : Nat) :
    List Layer → Message → Traced (Except WireError Message)
  | [], m => ⟨.ok m, []⟩
  | layer :: outer, m =>
    let seals' := if layer.isSealing then seals + 1 else seals
    (wrapAll nonces seals' outer m).andThen (layer.wrap (nonces seals))

/-- The message as layers hand it up from the framing, the innermost layer first. -/
def unwrapAll : List Layer → Message → Traced (Except WireError Message)
  | [], m => ⟨.ok m, []⟩
  | layer :: outer, m => (layer.unwrap m).andThen (unwrapAll outer)

def encodeFramed (s : Stack) (m : Message) (sink : Sink) : Traced (Except WireError Unit) × Sink :=
  let (written, sink) : Except WireError Header × Sink :=
    match Frame.ofMessage s.registry m with
    | .error e => (.error e, sink)
    | .ok frame =>
      match frame.write s.framing sink with
      | (.ok (), sink) => (.ok frame.header, sink)
      | (.error e, sink) => (.error e, sink)
  (⟨written.map fun _ => (), [s.framing.encodeEvent m.id written]⟩, sink)

def encode (s : Stack) (nonces : Nonces) (m : Message) (sink : Sink) :
    Traced (Except WireError Unit) × Sink :=
  let wrapped := wrapAll nonces 0 s.layers m
  match wrapped.result with
  | .error e => (⟨.error e, wrapped.log⟩, sink)
  | .ok inner =>
    let (t, sink) := s.encodeFramed inner sink
    (⟨t.result, wrapped.log ++ t.log⟩, sink)

def encodeToBytes (s : Stack) (nonces : Nonces) (m : Message) : Traced (Except WireError Bytes) :=
  let (t, sink) := s.encode nonces m {}
  ⟨t.result.map fun _ => sink.accepted, t.log⟩

def finish (s : Stack) (framed : Except WireError Message) : Traced (Except WireError Message) :=
  (Traced.mk framed [s.framing.decodeEvent framed]).andThen (unwrapAll s.layers)

def decode (s : Stack) (source : Source) : Traced (Except WireError Message) × Source :=
  let (framed, source) := (s.framing.intake s.registry).run source
  (s.finish framed, source)

def decodeBytes (s : Stack) (bytes : Bytes) : Traced (Except WireError Message) × Bytes :=
  let (framed, rest) := (s.framing.intake s.registry).runBytes bytes
  (s.finish framed, rest)

def messagesWithin (s : Stack) : (most : Nat) → Bytes → List Message × Option WireError
  | 0, _ => ([], none)
  | most + 1, bytes =>
    if bytes.isEmpty then ([], none)
    else
      match s.decodeBytes bytes with
      | (⟨.error e, _⟩, _) => ([], some e)
      | (⟨.ok m, _⟩, rest) =>
        let (later, failure) := messagesWithin s most rest
        (m :: later, failure)

/-- The messages of a byte string, one after another, and the failure to decode what follows them,
if anything does. Every message takes bytes, so that there are not more of them than bytes. -/
def messages (s : Stack) (bytes : Bytes) : List Message × Option WireError :=
  s.messagesWithin bytes.length bytes

def framingShape (f : Framing) (r : Registry) : Shape :=
  let name := match f with
    | .fixed => "DefaultProtocol"
    | .compact => "CompactProtocol"
  .record name [("registry", r.shape)]

def layersShape (inner : Shape) : List Layer → Shape
  | [] => inner
  | .compress level limit :: outer =>
    layersShape (.record "CompressingProtocol" [
      ("inner", inner),
      ("level", .tuple "Compression" [.number level]),
      ("max_decompressed_size", .number limit.toNat)]) outer
  | .encrypt _ :: outer => layersShape (.openRecord "EncryptingProtocol" [("inner", inner)]) outer

def shape (s : Stack) : Shape :=
  layersShape (framingShape s.framing s.registry) s.layers

end Stack

end Courier
