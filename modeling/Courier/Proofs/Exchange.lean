import Courier.Settings
import Courier.Proofs.MetadataForms
import Courier.Proofs.Queue
import Courier.Proofs.ShortData
/-!
# Messages between ends with the same settings

The messages at the front of a byte string are taken off one after another (`Stack.Decodes`).
With the two codecs that are always there, and no compression or the known one, a message is
framed if both segments fit their size fields (`Stack.frameOf_or_overflow`), and the frame is
decoded as the message (`Settings.decodeBytes_frame`).
-/

namespace Courier

/-! ## Messages one after another -/

namespace Stack

variable {t : Stack} {bytes middle rest : Bytes} {m : Message} {messages messages' : List Message}

/-- Decoding takes the messages off a byte string one after another and leaves the rest. -/
inductive Decodes (t : Stack) : Bytes → List Message → Bytes → Prop
  | nil (bytes : Bytes) : Decodes t bytes [] bytes
  | cons {bytes rest : Bytes} {m : Message} {messages : List Message}
      (hm : (t.decodeBytes bytes).1.result = .ok m)
      (hrest : Decodes t (t.decodeBytes bytes).2 messages rest) :
      Decodes t bytes (m :: messages) rest

theorem Decodes.append (hfront : t.Decodes bytes messages middle)
    (hback : t.Decodes middle messages' rest) : t.Decodes bytes (messages ++ messages') rest := by
  induction hfront with
  | nil bytes => exact hback
  | cons hm _ ih => exact .cons hm (ih hback)

theorem Decodes.unique {rest' : Bytes} {e e' : WireError}
    (h : t.Decodes bytes messages rest) (he : (t.decodeBytes rest).1.result = .error e)
    (h' : t.Decodes bytes messages' rest') (he' : (t.decodeBytes rest').1.result = .error e') :
    messages = messages' ∧ rest = rest' := by
  induction h generalizing messages' with
  | nil bytes =>
    cases h' with
    | nil => exact ⟨rfl, rfl⟩
    | cons hm' _ =>
      rw [he] at hm'
      cases hm'
  | cons hm _ ih =>
    cases h' with
    | nil =>
      rw [he'] at hm
      cases hm
    | cons hm' hrest' =>
      rw [hm] at hm'
      cases hm'
      obtain ⟨rfl, rfl⟩ := ih he hrest'
      exact ⟨rfl, rfl⟩

theorem length_decodeBytes_lt (hm : (t.decodeBytes bytes).1.result = .ok m) :
    (t.decodeBytes bytes).2.length < bytes.length := by
  rcases t.framing.frameIntake_follows.covers bytes with
    ⟨front, rest, frame, rfl, hframe⟩ | ⟨front, rest, e, rfl, hfront⟩ | ⟨s, hs⟩
  · have hfront : 0 < front.length := by
      obtain ⟨_, _, _, rfl, ⟨_, _, _, rfl, rfl, -⟩, -⟩ := hframe
      simp [Framing.magicBytes]
    rw [decodeBytes_form hframe, List.length_append]
    exact Nat.lt_add_of_pos_left hfront
  · have hrun := Framing.runBytes_intake_refused hfront t.registry rest
    simp only [decodeBytes, hrun] at hm
    cases hm
  · obtain ⟨_, _, hrun⟩ := Framing.runBytes_intake_unfinished hs t.registry
    simp only [decodeBytes, hrun] at hm
    cases hm

theorem exists_decodes (t : Stack) (bytes : Bytes) :
    ∃ messages rest e, t.Decodes bytes messages rest ∧
      (t.decodeBytes rest).1.result = .error e := by
  induction hlength : bytes.length using Nat.strongRecOn generalizing bytes with
  | _ n ih =>
    cases hdecode : (t.decodeBytes bytes).1.result with
    | error e => exact ⟨[], bytes, e, .nil bytes, hdecode⟩
    | ok m =>
      have hless := length_decodeBytes_lt hdecode
      rw [hlength] at hless
      obtain ⟨messages, rest, e, hrest, he⟩ := ih _ hless (t.decodeBytes bytes).2 rfl
      exact ⟨m :: messages, rest, e, .cons hdecode hrest, he⟩

end Stack

/-! ## Frames with the codecs that are always there -/

namespace Message

def metadataSegment (m : Message) : Except WireError Bytes :=
  Registry.builtin.withCodec m.header.serialization (·.encodeMetadata m.metadata)

theorem exists_metadataSegment (m : Message)
    (hserialization : m.header.serialization.code = 1 ∨ m.header.serialization.code = 2) :
    ∃ segment, m.metadataSegment = .ok segment := by
  unfold metadataSegment Registry.withCodec Registry.lookup
  rcases hserialization with hcode | hcode
  · rw [hcode]
    cases m.metadata <;> exact ⟨_, rfl⟩
  · rw [hcode]
    cases m.metadata <;> exact ⟨_, rfl⟩

end Message

namespace Stack

variable {nonces : Nonces} {frame : Frame}

theorem metadataSegment_of_frameOf {t : Stack} {m : Message} (hregistry : t.registry = .builtin)
    (hframe : t.frameOf nonces m = .ok frame) : m.metadataSegment = .ok frame.metadata := by
  obtain ⟨inner, hwrap, hinner⟩ := frameOf_eq_ok_iff.1 hframe
  obtain ⟨hheader, hmetadata⟩ := wrapAll_eq_ok hwrap
  obtain ⟨codec, segment, hlookup, hencode, -, -, rfl⟩ := Frame.ofMessage_eq_ok_iff.1 hinner
  rw [hregistry, hheader] at hlookup
  rw [hmetadata] at hencode
  exact Frame.withCodec_eq_ok_iff.2 ⟨codec, hlookup, hencode⟩

/-- A message is framed, or one of its segments is too long for its size field. -/
theorem frameOf_or_overflow {t : Stack} {m : Message} (hregistry : t.registry = .builtin)
    (hserialization : m.header.serialization.code = 1 ∨ m.header.serialization.code = 2)
    (hcompression : m.header.compression.code = 0 ∨ m.header.compression.code = 1)
    (nonces : Nonces) :
    (∃ frame, t.frameOf nonces m = .ok frame) ∨
    (∃ segment, m.metadataSegment = .ok segment ∧ UInt32.size ≤ segment.length ∧
      t.frameOf nonces m = .error (.sizeOverflow .metadata segment.length)) ∨
    ∃ inner, (wrapAll nonces 0 t.layers m).result = .ok inner ∧
      UInt32.size ≤ inner.payload.length ∧
      t.frameOf nonces m = .error (.sizeOverflow .payload inner.payload.length) := by
  obtain ⟨inner, hwrap⟩ : ∃ inner, (wrapAll nonces 0 t.layers m).result = .ok inner :=
    exists_wrapAll_eq_ok nonces 0 fun _ => hcompression
  obtain ⟨hheader, hmetadata⟩ := wrapAll_eq_ok hwrap
  obtain ⟨segment, hsegment⟩ := m.exists_metadataSegment hserialization
  have hwritten : t.registry.withCodec inner.header.serialization
      (·.encodeMetadata inner.metadata) = .ok segment := by
    rw [hregistry, hheader, hmetadata]
    exact hsegment
  rw [frameOf_of_wrapAll hwrap]
  cases hinner : Frame.ofMessage t.registry inner with
  | ok frame => exact Or.inl ⟨frame, rfl⟩
  | error e =>
    rcases Frame.ofMessage_eq_error_iff.1 hinner with hcodec | ⟨segment', hcodec, hsize⟩
    · rw [hwritten] at hcodec
      cases hcodec
    · obtain rfl : segment = segment' := Except.ok.inj (hwritten.symm.trans hcodec)
      rcases hsize with ⟨hlong, rfl⟩ | ⟨-, hlong, rfl⟩
      · exact Or.inr (Or.inl ⟨segment, hsegment, hlong, rfl⟩)
      · exact Or.inr (Or.inr ⟨inner, hwrap, hlong, rfl⟩)

end Stack

/-! ## Ends with the same settings -/

theorem Layer.agrees_self (layer : Layer) : layer.Agrees layer := by
  cases layer with
  | compress level limit => exact .compress level level limit limit
  | encrypt key => exact .encrypt key

namespace Settings

open Stack

variable {settings : Settings} {nonces : Nonces} {m : Message} {frame : Frame}

theorem stack_agrees_self (settings : Settings) (registry : Registry) :
    (settings.stack registry).Agrees (settings.stack registry) :=
  ⟨rfl, List.forall₂_same.2 fun layer _ => layer.agrees_self⟩

theorem withinLimits (hlimit : m.payload.length ≤ settings.limit.toNat) :
    WithinLimits nonces 0 settings.layers settings.layers m := by
  have hplain : ∀ seals, WithinLimits nonces seals [.compress Layer.defaultLevel settings.limit]
      [.compress Layer.defaultLevel settings.limit] m := by
    intro seals
    refine ⟨?_, trivial⟩
    rintro handed hhanded -
    cases hhanded
    exact hlimit
  unfold layers
  cases settings.key with
  | none => exact hplain 0
  | some key => exact ⟨fun _ _ => trivial, hplain 1⟩

theorem decodeBytes_frame (hframe : (settings.stack .builtin).frameOf nonces m = .ok frame)
    (hlimit : m.payload.length ≤ settings.limit.toNat) (rest : Bytes) :
    ((settings.stack .builtin).decodeBytes (frame.bytes settings.framing ++ rest)).1.result =
        .ok (m.delivered frame.metadata.length) ∧
      ((settings.stack .builtin).decodeBytes (frame.bytes settings.framing ++ rest)).2 = rest := by
  have hagree := settings.stack_agrees_self .builtin
  obtain ⟨inner, hwrap, hinner⟩ := frameOf_eq_ok_iff.1 hframe
  obtain ⟨hheader, hmetadata⟩ := wrapAll_eq_ok hwrap
  obtain ⟨codec, segment, hlookup, hencode, hsize, -, hparts⟩ := Frame.ofMessage_eq_ok_iff.1 hinner
  have hsegment : frame.metadata = segment := by rw [hparts]
  rw [hheader] at hlookup
  rw [hmetadata] at hencode
  have hdecode : codec.decodeMetadata frame.metadata = .ok m.metadata := by
    rw [hsegment]
    exact Codec.decodeMetadata_of_builtin hlookup hencode hsize
  have hall := decodeBytes_frameOf hagree hframe rest
  rw [show (settings.stack .builtin).framing = settings.framing from rfl] at hall
  rw [hall]
  refine ⟨?_, rfl⟩
  exact (finish_frameOf_iff hagree hframe).2
    ⟨codec, m.metadata, hlookup, hdecode, withinLimits hlimit, rfl⟩

/-- A short payload stays short under the layers. -/
theorem length_wrapAll_le {inner : Message} (hshort : m.payload.length ≤ Deflate.neverStored)
    (hwrap : (wrapAll nonces 0 settings.layers m).result = .ok inner) :
    inner.payload.length ≤ 10 * m.payload.length + 51 := by
  have hcompress : ∀ seals handed, (wrapAll nonces seals
      [.compress Layer.defaultLevel settings.limit] m).result = .ok handed →
      handed.payload.length ≤ 10 * m.payload.length + 23 := by
    intro seals handed hhanded
    obtain ⟨_, hsame, hhanded⟩ := Traced.andThen_eq_ok_iff.1 hhanded
    cases hsame
    simp only [Layer.wrap] at hhanded
    split at hhanded
    · cases hhanded
      omega
    · cases hhanded
      exact Gzip.length_compress_le Layer.defaultLevel hshort
    · cases hhanded
  unfold layers at hwrap
  cases hkey : settings.key with
  | none =>
    rw [hkey] at hwrap
    have hinner := hcompress 0 inner hwrap
    omega
  | some key =>
    rw [hkey] at hwrap
    obtain ⟨handed, hhanded, hsealed⟩ := Traced.andThen_eq_ok_iff.1 hwrap
    have hlength := hcompress 1 handed hhanded
    cases hsealed
    rw [Cipher.length_sealPayload]
    simp only [Cipher.nonceSize, Cipher.tagSize]
    omega

end Settings

end Courier
