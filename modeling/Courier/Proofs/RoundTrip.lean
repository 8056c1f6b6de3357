import Courier.Proofs.Stacks
/-!
# The round trip of a message

A message that is encoded by one stack and decoded by a stack that agrees with it comes out as it
was sent (`Stack.decode_of_encodeToBytes`), whatever follows it on the wire.
-/

namespace Courier

open Layer

/-- Whatever the codec writes for the metadata is not empty and is read back as the metadata. -/
def Codec.Restores (codec : Codec) (metadata : Metadata) : Prop :=
  ∀ bytes, codec.encode Metadata.capabilities metadata = .ok bytes →
    bytes ≠ [] ∧ codec.decode Metadata.capabilities bytes = .ok metadata

theorem Codec.decodeMetadata_of_restores {codec : Codec} {metadata : Option Metadata}
    {segment : Bytes} (hrestores : ∀ value, metadata = some value → codec.Restores value)
    (hencode : codec.encodeMetadata metadata = .ok segment) :
    codec.decodeMetadata segment = .ok metadata := by
  cases metadata with
  | none =>
    cases hencode
    rfl
  | some value =>
    have hvalue : codec.encode Metadata.capabilities value = .ok segment := by
      unfold Codec.encodeMetadata at hencode
      cases hwritten : codec.encode Metadata.capabilities value with
      | error e =>
        simp only [hwritten] at hencode
        cases hencode
      | ok bytes =>
        simp only [hwritten] at hencode
        cases hencode
        rfl
    obtain ⟨hnonempty, hdecode⟩ := hrestores value rfl segment hvalue
    simp [Codec.decodeMetadata, hnonempty, hdecode]

namespace Message

/-- A message comes out as another one was sent: with the same type codes by value, and with the
size of its payload in the header. -/
structure ArrivesAs (m read : Message) : Prop where
  magic : read.header.magic = Header.magicNumber
  version : read.header.version = m.header.version
  messageType : read.header.messageType.code = m.header.messageType.code
  compression : read.header.compression.code = m.header.compression.code
  serialization : read.header.serialization.code = m.header.serialization.code
  messageId : read.header.messageId = m.header.messageId
  payloadSize : read.header.payloadSize.toNat = m.payload.length
  metadata : read.metadata = m.metadata
  payload : read.payload = m.payload

theorem arrivesAs_delivered {m : Message} (hsize : m.payload.length < UInt32.size)
    (metadataSize : Nat) : m.ArrivesAs (m.delivered metadataSize) where
  magic := rfl
  version := rfl
  messageType := MessageType.code_ofCode _
  compression := Compression.code_ofCode _
  serialization := Serialization.code_ofCode _
  messageId := rfl
  payloadSize := UInt32.toNat_ofNat_of_lt' hsize
  metadata := rfl
  payload := rfl

def sample : Message where
  header := { Header.new .request .binary 7 with compression := .gzip }
  metadata := some { serviceName := "Sum", methodName := "add" }
  payload := [1, 2, 3]

theorem sample_restores (value : Metadata) (hvalue : sample.metadata = some value) :
    Codec.binary.Restores value := by
  rintro bytes hbytes
  cases hvalue
  cases hbytes
  exact ⟨by decide, rfl⟩

end Message

namespace Stack

variable {s t : Stack} {nonces : Nonces} {m : Message} {frame : Frame} {codec : Codec}

theorem finish_frameOf_arrives (hagree : s.Agrees t) (hframe : s.frameOf nonces m = .ok frame)
    (hlookup : t.registry.lookup m.header.serialization = some codec)
    (hdecode : codec.decodeMetadata frame.metadata = .ok m.metadata)
    (hlimits : WithinLimits nonces 0 s.layers t.layers m) :
    ∃ read, (t.finish (Frame.toMessage t.registry
        { frame with header := frame.header.normalized })).result = .ok read ∧
      m.ArrivesAs read := by
  obtain ⟨inner, hwrap, hinner⟩ := frameOf_eq_ok_iff.1 hframe
  obtain ⟨-, -, -, -, -, hsize, -⟩ := Frame.ofMessage_eq_ok_iff.1 hinner
  exact ⟨_, (finish_frameOf_iff hagree hframe).2 ⟨codec, _, hlookup, hdecode, hlimits, rfl⟩,
    Message.arrivesAs_delivered (length_lt_of_withinLimits hagree.layers hwrap hsize hlimits) _⟩

def sampleKey : Cipher.Key :=
  ⟨List.replicate 32 7, rfl⟩

def sample (level : Nat) (limit : UInt32) : Stack where
  framing := .compact
  registry := .builtin
  layers := [.compress level limit, .encrypt sampleKey]

theorem sample_agrees (level level' : Nat) (limit limit' : UInt32) :
    (sample level limit).Agrees (sample level' limit') :=
  ⟨rfl, .cons (.compress ..) (.cons (.encrypt _) .nil)⟩

/-- A message makes the round trip between stacks that agree if there is one codec for it at both
ends, which restores its metadata, if the compressing layers know its compression code, if its
segments fit their size fields and if the limits over there hold what is compressed. -/
theorem decode_of_encodeToBytes {metadata : Bytes} (hagree : s.Agrees t)
    (hsender : s.registry.lookup m.header.serialization = some codec)
    (hreceiver : t.registry.lookup m.header.serialization = some codec)
    (hencode : codec.encodeMetadata m.metadata = .ok metadata)
    (hrestores : ∀ value, m.metadata = some value → codec.Restores value)
    (hcompression : s.layers.any isCompressing = true →
      m.header.compression.code = 0 ∨ m.header.compression.code = 1)
    (hmetadata : metadata.length < UInt32.size)
    (hpayload : ∀ inner, (wrapAll nonces 0 s.layers m).result = .ok inner →
      inner.payload.length < UInt32.size)
    (hlimits : WithinLimits nonces 0 s.layers t.layers m) :
    ∃ wire, (s.encodeToBytes nonces m).result = .ok wire ∧
      ∀ (rest : Bytes) (source : Source), source.failure = none → source.pending = wire ++ rest →
        ∃ read, (t.decode source).1.result = .ok read ∧ (t.decode source).2.pending = rest ∧
          m.ArrivesAs read := by
  obtain ⟨inner, hwrap⟩ := exists_wrapAll_eq_ok nonces 0 hcompression
  obtain ⟨hheader, hsame⟩ := wrapAll_eq_ok hwrap
  obtain ⟨frame, hframe, hframed⟩ : ∃ frame, s.frameOf nonces m = .ok frame ∧
      frame.metadata = metadata := by
    refine ⟨_, frameOf_eq_ok_iff.2 ⟨inner, hwrap, Frame.ofMessage_eq_ok_iff.2
      ⟨codec, metadata, ?_, ?_, hmetadata, hpayload inner hwrap, rfl⟩⟩, rfl⟩
    · rw [hheader]
      exact hsender
    · rw [hsame]
      exact hencode
  have hdecode : codec.decodeMetadata frame.metadata = .ok m.metadata := by
    rw [hframed]
    exact Codec.decodeMetadata_of_restores hrestores hencode
  obtain ⟨read, hread, harrives⟩ :=
    finish_frameOf_arrives hagree hframe hreceiver hdecode hlimits
  refine ⟨frame.bytes s.framing, encodeToBytes_eq_ok_iff.2 ⟨frame, hframe, rfl⟩, ?_⟩
  intro rest source hsource hpending
  obtain ⟨source', hrun, hleft, -⟩ := t.decode_eq_decodeBytes hsource
  rw [hpending, decodeBytes_frameOf hagree hframe] at hrun hleft
  rw [hrun]
  exact ⟨read, hread, hleft, harrives⟩

theorem decode_of_encodeToBytes_sample :
    ∃ wire, ((sample 0 0).encodeToBytes .ofCounter .sample).result = .ok wire ∧
      ∀ (rest : Bytes) (source : Source), source.failure = none → source.pending = wire ++ rest →
        ∃ read, ((sample 9 64).decode source).1.result = .ok read ∧
          ((sample 9 64).decode source).2.pending = rest ∧ Message.sample.ArrivesAs read := by
  have hhanded : ∀ handed, (wrapAll .ofCounter 0 [.encrypt sampleKey] .sample).result = .ok handed →
      handed.payload.length = 31 := by
    rintro handed hwrap
    cases hwrap
    exact Cipher.length_sealPayload _ _ _ _
  refine decode_of_encodeToBytes (sample_agrees ..) rfl rfl rfl Message.sample_restores
    (fun _ => Or.inr rfl) (by decide) ?_ ⟨?_, ?_, trivial⟩
  · rintro inner hwrap
    obtain ⟨handed, houter, hwrap⟩ := Traced.andThen_eq_ok_iff.1 hwrap
    have hlength := hhanded handed houter
    cases houter
    cases hwrap
    rw [Gzip.length_compress_zero (by rw [hlength]; decide), hlength]
    decide
  · rintro handed hwrap -
    rw [hhanded handed hwrap]
    decide
  · intro handed hwrap
    trivial

end Stack

end Courier
