import Courier.Proofs.Stacks
/-!
# What decoding takes off the stream

Whether a message comes of a complete frame or not, decoding takes the frame and no more, so that
what follows is decoded as if it stood alone.  Of a front that cannot become a frame it takes the
bytes up to the one that shows it, and of a frame that is cut short all there is
(`Stack.decode_advances`).
-/

namespace Courier

namespace WireError

/-- The failures that do not come from the stream, but from what is made of a complete frame. -/
def OfFrame : WireError → Prop
  | unsupportedSerializer _ _ | invalidMessage _ _ | codec _ _ | decryption
  | unsupportedCompression _ | compression _ | sizeOverflow _ _ => True
  | _ => False

theorem ofFrame_ofCodec (segment : Segment) (cause : CodecError) :
    (ofCodec segment cause).OfFrame := by
  cases cause <;> trivial

end WireError

namespace Layer

variable {layer : Layer} {m : Message} {e : WireError}

theorem ofFrame_of_decompressed {limit : UInt32} (h : decompressed limit m = .error e) :
    e.OfFrame := by
  unfold decompressed at h
  split at h
  · cases h
  · split at h
    · cases h
    · cases h
      trivial
    · cases h
      trivial
  · cases h
    trivial

theorem ofFrame_of_unwrap (h : (layer.unwrap m).result = .error e) : e.OfFrame := by
  cases layer with
  | compress level limit =>
    simp only [unwrap] at h
    split at h
    · cases h
    · cases h
    next e' hfailed =>
      cases h
      exact ofFrame_of_decompressed hfailed
  | encrypt key =>
    simp only [unwrap] at h
    split at h
    · cases h
      trivial
    · split at h
      · cases h
      next hsize =>
        cases h
        obtain ⟨-, rfl⟩ := Frame.sizeField_eq_error_iff.1 hsize
        trivial

end Layer

theorem Codec.ofFrame_of_decodeMetadata {codec : Codec} {segment : Bytes} {e : WireError}
    (h : codec.decodeMetadata segment = .error e) : e.OfFrame := by
  unfold decodeMetadata at h
  split at h
  · cases h
  · split at h
    · cases h
    · cases h
      exact WireError.ofFrame_ofCodec _ _

theorem Frame.ofFrame_of_toMessage {registry : Registry} {frame : Frame} {e : WireError}
    (h : frame.toMessage registry = .error e) : e.OfFrame := by
  have hcodec : registry.withCodec frame.header.serialization (·.decodeMetadata frame.metadata) =
      .error e := by
    unfold toMessage at h
    cases hcodec : registry.withCodec frame.header.serialization
        (·.decodeMetadata frame.metadata) with
    | error e' =>
      rw [hcodec] at h
      cases h
      rfl
    | ok metadata =>
      rw [hcodec] at h
      cases h
  rcases withCodec_eq_error_iff.1 hcodec with ⟨-, rfl⟩ | ⟨codec, -, hdecode⟩
  · trivial
  · exact Codec.ofFrame_of_decodeMetadata hdecode

namespace Stack

variable {t : Stack} {e : WireError}

theorem ofFrame_of_unwrapAll {layers : List Layer} {m : Message}
    (h : (unwrapAll layers m).result = .error e) : e.OfFrame := by
  induction layers generalizing m with
  | nil => cases h
  | cons layer outer ih =>
    rcases Traced.andThen_eq_error_iff.1 h with hlayer | ⟨up, -, houter⟩
    · exact Layer.ofFrame_of_unwrap hlayer
    · exact ih houter

theorem ofFrame_of_finish {frame : Frame}
    (h : (t.finish (frame.toMessage t.registry)).result = .error e) : e.OfFrame := by
  rcases Traced.andThen_eq_error_iff.1 h with hmessage | ⟨m, -, hlayers⟩
  · exact Frame.ofFrame_of_toMessage hmessage
  · exact ofFrame_of_unwrapAll hlayers

/-! ## Fronts -/

theorem decode_of_runBytes {source : Source} {front rest : Bytes}
    {framed : Except WireError Message} (hsource : source.failure = none)
    (hpending : source.pending = front ++ rest)
    (hrun : (t.framing.intake t.registry).runBytes (front ++ rest) = (framed, rest)) :
    (t.decode source).1 = t.finish framed ∧ (t.decode source).2.pending = rest ∧
      source.Advanced (t.decode source).2 front.length := by
  obtain ⟨source', hdecode, hleft, hadvanced⟩ := t.decode_eq_decodeBytes hsource
  have htaken : (t.framing.intake t.registry).taken (front ++ rest) = front.length := by
    rw [Intake.taken, hrun, List.length_append, Nat.add_sub_cancel]
  have hbytes : t.decodeBytes (front ++ rest) = (t.finish framed, rest) := by
    simp only [decodeBytes, hrun]
  rw [hpending, hbytes] at hdecode hleft
  rw [hpending, htaken] at hadvanced
  rw [hdecode]
  exact ⟨rfl, hleft, hadvanced⟩

/-- Decoding takes exactly a complete frame, whatever comes of it, or the front that cannot become
one; it takes everything of a frame that is cut short.  These are all the cases. -/
theorem decode_advances (t : Stack) {source : Source} (hsource : source.failure = none) :
    (∀ front rest frame, source.pending = front ++ rest →
      t.framing.frameLayout.Form front frame →
        source.Advanced (t.decode source).2 front.length ∧
        (t.decode source).2.pending = rest ∧
        (∀ e, (t.decode source).1.result = .error e → e.OfFrame) ∧
        (t.decode (t.decode source).2).1 = (t.decode (.ofBytes rest)).1) ∧
    (∀ a b rest, source.pending = a :: b :: rest → [a, b] ≠ Framing.magicBytes →
      source.Advanced (t.decode source).2 2 ∧
      ∃ found, (t.decode source).1.result = .error (.invalidMagic found)) ∧
    (∀ fields rest e, source.pending = Framing.magicBytes ++ fields ++ rest →
      t.framing.fieldsLayout.Refused fields e →
        source.Advanced (t.decode source).2 (2 + fields.length) ∧ t.framing = .compact ∧
        (t.decode source).1.result = .error (.invalidVarint .header)) ∧
    (∀ segment, t.framing.frameLayout.Unfinished source.pending segment →
      source.Advanced (t.decode source).2 source.pending.length ∧
      ∃ cause, cause.fault = .unexpectedEof ∧
        (t.decode source).1.result = .error (.transport segment cause)) ∧
    t.framing.frameLayout.Covers source.pending := by
  refine ⟨?_, ?_, ?_, ?_, t.framing.frameIntake_follows.covers _⟩
  · intro front rest frame hpending hfront
    obtain ⟨hresult, hleft, hadvanced⟩ := decode_of_runBytes hsource hpending
      (Framing.runBytes_intake_form hfront t.registry rest)
    refine ⟨hadvanced, hleft, ?_, ?_⟩
    · intro e he
      rw [hresult] at he
      exact ofFrame_of_finish he
    · obtain ⟨next, hnext, -⟩ := t.decode_eq_decodeBytes hadvanced.2.2
      have hfresh : (Source.ofBytes rest).failure = none := rfl
      obtain ⟨alone, halone, -⟩ := t.decode_eq_decodeBytes hfresh
      rw [hnext, halone, hleft]
      rfl
  · intro a b rest hpending hmagic
    have hfront : t.framing.frameLayout.Refused [a, b]
        (.invalidMagic (UInt16.ofNat (256 * a.toNat + b.toNat))) :=
      Or.inl (Or.inl ⟨a, b, rfl, hmagic, rfl⟩)
    obtain ⟨hresult, -, hadvanced⟩ := decode_of_runBytes hsource hpending
      (Framing.runBytes_intake_refused hfront t.registry rest)
    exact ⟨hadvanced, _, by rw [hresult]; rfl⟩
  · intro fields rest e hpending hfields
    obtain ⟨hcompact, rfl⟩ := Framing.compact_of_fieldsLayout_refused hfields
    have hfront : t.framing.frameLayout.Refused (Framing.magicBytes ++ fields)
        (.invalidVarint .header) :=
      Or.inl (Or.inr ⟨Framing.magicBytes, fields, (), rfl, rfl, hfields⟩)
    obtain ⟨hresult, -, hadvanced⟩ := decode_of_runBytes hsource hpending
      (Framing.runBytes_intake_refused hfront t.registry rest)
    rw [List.length_append] at hadvanced
    exact ⟨hadvanced, hcompact, by rw [hresult]; rfl⟩
  · intro segment hbytes
    obtain ⟨size, received, hrun⟩ := Framing.runBytes_intake_unfinished hbytes t.registry
    have hpending : source.pending = source.pending ++ [] := (List.append_nil _).symm
    obtain ⟨hresult, -, hadvanced⟩ := decode_of_runBytes hsource hpending
      (by rw [List.append_nil]; exact hrun)
    exact ⟨hadvanced, _, Intake.fault_shortage .., by rw [hresult]; rfl⟩

def unregistered : Frame where
  header := { Header.new .request (.custom 9) 7 with metadataSize := 1, payloadSize := 2 }
  metadata := [0x6D]
  payload := [0x3F, 0x3F]

def unregisteredSource : Source where
  pending := unregistered.bytes .compact ++ [0x3F]
  schedule := [.interrupted, .upTo 0, .interrupted, .upTo 3]

theorem decode_advances_unregistered :
    unregisteredSource.Advanced
        ((Stack.mk .compact .builtin []).decode unregisteredSource).2
        (unregistered.bytes .compact).length ∧
      ((Stack.mk .compact .builtin []).decode unregisteredSource).2.pending = [0x3F] := by
  have hsound : unregistered.IsSound := ⟨rfl, rfl, rfl⟩
  obtain ⟨hadvanced, hpending, -⟩ :=
    (decode_advances ⟨.compact, .builtin, []⟩ (rfl : unregisteredSource.failure = none)).1 _ _ _ rfl
      (Frame.bytes_form hsound .compact)
  exact ⟨hadvanced, hpending⟩

end Stack

end Courier
