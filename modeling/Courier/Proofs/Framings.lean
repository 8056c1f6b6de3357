import Courier.Proofs.RoundTrip
/-!
# The two framings agree

A framing lays out the header; all else about a message is the same in both.  A message that one of
them cannot write the other cannot write for the same reason, and behind headers that say the same
both read the same (`Framing.fixed_agrees_with_compact`), because what is read behind a header
depends on the header alone (`Framing.runBytes_intake_header`).
-/

namespace Courier

namespace Intake

variable {α β : Type}

theorem bind_ofExcept_map (result : Except WireError α) (f : α → β) :
    ((ofExcept result).bind fun value => done (f value)) = ofExcept (result.map f) := by
  cases result <;> rfl

end Intake

namespace Framing

variable {f f' : Framing} {front front' : Bytes} {header : Header} {registry : Registry}

def bare (f : Framing) (registry : Registry) : Stack :=
  { framing := f, registry, layers := [] }

/-! ## Reading behind a header -/

/-- The segments that a header announces, and the message that comes of them. -/
def bodyIntake (registry : Registry) (header : Header) : Intake Message :=
  (Intake.take .metadata header.metadataSize.toNat).bind fun metadata =>
    (Intake.take .payload header.payloadSize.toNat).bind fun payload =>
      .ofExcept (Frame.toMessage registry { header, metadata, payload })

theorem intake_eq (f : Framing) (registry : Registry) :
    f.intake registry = f.headerIntake.bind (bodyIntake registry) := by
  simp only [intake, frameIntake, Intake.bind_eq, Intake.bind_assoc]
  congr
  funext header
  simp only [bodyIntake]
  congr
  funext metadata
  congr
  funext payload
  exact Intake.bind_ofExcept_map _ _

theorem runBytes_intake_header (hfront : f.headerLayout.Form front header) (registry : Registry)
    (rest : Bytes) :
    (f.intake registry).runBytes (front ++ rest) = (bodyIntake registry header).runBytes rest := by
  rw [intake_eq, Intake.runBytes_bind_ok (f.headerIntake_follows.form hfront rest)]

theorem decodeInPieces_bare (f : Framing) (registry : Registry) (bytes : Bytes)
    (pieces : List Delivery) :
    (f.bare registry).decodeInPieces bytes pieces = (f.intake registry).runBytes bytes := by
  have hfinish (framed : Except WireError Message) :
      ((f.bare registry).finish framed).result = framed := by
    cases framed <;> rfl
  rw [Stack.decodeInPieces_eq]
  exact congrArg (Prod.mk · _) (hfinish _)

/-! ## Writing -/

theorem frameOf_bare (f : Framing) (registry : Registry) (nonces : Nonces) (m : Message) :
    (f.bare registry).frameOf nonces m = Frame.ofMessage registry m := rfl

/-- Wire forms of a message in the two framings: the same first six bytes, headers that say the
same, and behind them the same segments. -/
def Alike (m : Message) (wire wire' : Bytes) : Prop :=
  ∃ (lead fields fields' metadata : Bytes) (written : Header),
    wire = lead ++ fields ++ (metadata ++ m.payload) ∧
    wire' = lead ++ fields' ++ (metadata ++ m.payload) ∧ lead.length = 6 ∧
    fixed.headerLayout.Form (lead ++ fields) written ∧
    compact.headerLayout.Form (lead ++ fields') written ∧
    written.metadataSize.toNat = metadata.length ∧ written.payloadSize.toNat = m.payload.length

theorem leadBytes_prefix_headerBytes (f : Framing) (h : Header) :
    h.leadBytes <+: f.headerBytes h := by
  cases f with
  | fixed =>
    rw [headerBytes, Header.bytes, List.append_assoc, List.append_assoc]
    exact List.prefix_append _ _
  | compact =>
    rw [headerBytes, List.append_assoc, List.append_assoc]
    exact List.prefix_append _ _

theorem alike_of_ofMessage {m : Message} {frame : Frame}
    (hframe : Frame.ofMessage registry m = .ok frame) :
    Alike m (frame.bytes fixed) (frame.bytes compact) := by
  obtain ⟨hmagic, hmetadata, hpayload⟩ := Frame.ofMessage_isSound hframe
  have hsame : frame.payload = m.payload := by
    obtain ⟨_, _, -, -, -, -, rfl⟩ := Frame.ofMessage_eq_ok_iff.1 hframe
    rfl
  obtain ⟨fields, hfixed⟩ := fixed.leadBytes_prefix_headerBytes frame.header
  obtain ⟨fields', hcompact⟩ := compact.leadBytes_prefix_headerBytes frame.header
  refine ⟨frame.header.leadBytes, fields, fields', frame.metadata, frame.header.normalized,
    ?_, ?_, ?_, ?_, ?_, hmetadata, ?_⟩
  · rw [Frame.bytes_eq, hfixed, hsame]
  · rw [Frame.bytes_eq, hcompact, hsame]
  · simp [Header.leadBytes]
  · rw [hfixed]
    exact fixed.headerBytes_form hmagic
  · rw [hcompact]
    exact compact.headerBytes_form hmagic
  · rw [← hsame]
    exact hpayload

/-! ## Both framings on one message -/

theorem decodeInPieces_bytes {m : Message} {frame : Frame}
    (hframe : Frame.ofMessage registry m = .ok frame) (f : Framing) (rest : Bytes)
    (pieces : List Delivery) :
    (f.bare registry).decodeInPieces (frame.bytes f ++ rest) pieces =
      (Frame.toMessage registry { frame with header := frame.header.normalized }, rest) := by
  rw [decodeInPieces_bare]
  exact runBytes_intake_form (Frame.bytes_form (Frame.ofMessage_isSound hframe) f) registry rest

theorem arrivesAs_of_toMessage {m : Message} {frame : Frame} {codec : Codec}
    (hframe : Frame.ofMessage registry m = .ok frame)
    (hlookup : registry.lookup m.header.serialization = some codec)
    (hrestores : ∀ value, m.metadata = some value → codec.Restores value) :
    ∃ read, Frame.toMessage registry { frame with header := frame.header.normalized } = .ok read ∧
      m.ArrivesAs read := by
  obtain ⟨codec', metadata, hlookup', hencode, -, hsize, rfl⟩ := Frame.ofMessage_eq_ok_iff.1 hframe
  rw [hlookup] at hlookup'
  cases hlookup'
  have hdecode := Codec.decodeMetadata_of_restores hrestores hencode
  refine ⟨m.delivered metadata.length, Frame.toMessage_eq_ok_iff.2 ⟨codec, m.metadata, ?_, hdecode,
    rfl⟩, Message.arrivesAs_delivered hsize _⟩
  simpa [Header.normalized] using (Stack.lookup_normalized registry _).trans hlookup

/-- The two framings refuse the same messages for the same reasons.  What they write of any other
message is alike, and each reads its own form as the same message, which is the one that was
written if the codec restores the metadata.  Behind headers with the same fields they read the
same, whether the bytes suffice or not, and leave the same bytes. -/
theorem fixed_agrees_with_compact (registry : Registry) (nonces : Nonces) (m : Message)
    (writes writes' reads reads' : List Delivery) :
    ((∃ e, (fixed.bare registry).encodeInPieces nonces m writes = (.error e, []) ∧
        (compact.bare registry).encodeInPieces nonces m writes' = (.error e, [])) ∨
      ∃ wire wire' outcome, Alike m wire wire' ∧
        (fixed.bare registry).encodeInPieces nonces m writes = (.ok (), wire) ∧
        (compact.bare registry).encodeInPieces nonces m writes' = (.ok (), wire') ∧
        (∀ rest, (fixed.bare registry).decodeInPieces (wire ++ rest) reads = (outcome, rest) ∧
          (compact.bare registry).decodeInPieces (wire' ++ rest) reads' = (outcome, rest)) ∧
        ∀ codec, registry.lookup m.header.serialization = some codec →
          (∀ value, m.metadata = some value → codec.Restores value) →
          ∃ read, outcome = .ok read ∧ m.ArrivesAs read) ∧
    ∀ (h : Header) (behind : Bytes), h.magic = Header.magicNumber →
      (fixed.bare registry).decodeInPieces (fixed.headerBytes h ++ behind) reads =
        (compact.bare registry).decodeInPieces (compact.headerBytes h ++ behind) reads' ∧
      ((fixed.bare registry).decodeInPieces (fixed.headerBytes h ++ behind) reads).2 <:+
        behind := by
  constructor
  · cases hframe : Frame.ofMessage registry m with
    | error e =>
      have hfixed := (fixed.frameOf_bare registry nonces m).trans hframe
      have hcompact := (compact.frameOf_bare registry nonces m).trans hframe
      exact Or.inl ⟨e, Stack.encodeInPieces_of_frameOf_error hfixed writes,
        Stack.encodeInPieces_of_frameOf_error hcompact writes'⟩
    | ok frame =>
      have hfixed := (fixed.frameOf_bare registry nonces m).trans hframe
      have hcompact := (compact.frameOf_bare registry nonces m).trans hframe
      exact Or.inr ⟨_, _, _, alike_of_ofMessage hframe,
        Stack.encodeInPieces_of_frameOf hfixed writes,
        Stack.encodeInPieces_of_frameOf hcompact writes',
        fun rest => ⟨decodeInPieces_bytes hframe fixed rest reads,
          decodeInPieces_bytes hframe compact rest reads'⟩,
        fun codec => arrivesAs_of_toMessage hframe⟩
  · intro h behind hmagic
    have hfixed := runBytes_intake_header (fixed.headerBytes_form hmagic) registry behind
    have hcompact := runBytes_intake_header (compact.headerBytes_form hmagic) registry behind
    rw [decodeInPieces_bare, decodeInPieces_bare, hfixed, hcompact]
    exact ⟨rfl, (bodyIntake registry h.normalized).runBytes_suffix behind⟩

def announcing : Header :=
  { Header.new .request .json 300 with metadataSize := 2, payloadSize := 200 }

theorem fixed_agrees_with_compact_announcing :
    announcing.magic = Header.magicNumber ∧
      (fixed.bare .builtin).decodeInPieces (fixed.headerBytes announcing ++ [0x7B]) [] =
        (compact.bare .builtin).decodeInPieces (compact.headerBytes announcing ++ [0x7B])
          [.upTo 0, .interrupted] ∧
      ((fixed.bare .builtin).decodeInPieces (fixed.headerBytes announcing ++ [0x7B]) []).2 <:+
        [0x7B] :=
  ⟨rfl, (fixed_agrees_with_compact .builtin .ofCounter .sample [] [] []
    [.upTo 0, .interrupted]).2 announcing [0x7B] rfl⟩

end Framing

end Courier
