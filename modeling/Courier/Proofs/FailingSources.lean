import Courier.Proofs.Truncation
/-!
# Sources that may fail

On any source a stack decodes the bytes to come, unless the transport fails (`Stack.decode_agrees`).
And the transport fails just where a frame takes more bytes than come before its failure: no byte
behind a frame is ever asked for (`Stack.decode_until_failure`).
-/

namespace Courier

/-- On any source a stack decodes the bytes to come, unless the transport fails. -/
theorem Stack.decode_agrees (t : Stack) (source : Source) :
    (∃ content, source.Delivered (t.decode source).2 content ∧
        t.decodeBytes source.pending = ((t.decode source).1, (t.decode source).2.pending)) ∨
      ∃ segment cause, (t.decode source).1.result = .error (.transport segment cause) := by
  rcases (t.framing.intake t.registry).run_agrees source with
    ⟨content, hcontent, hbytes⟩ | ⟨segment, cause, hfailed⟩
  · refine Or.inl ⟨content, hcontent, ?_⟩
    rw [decodeBytes, hbytes]
    rfl
  · refine Or.inr ⟨segment, cause, ?_⟩
    change (t.finish ((t.framing.intake t.registry).run source).1).result = _
    rw [hfailed]
    rfl

theorem Stack.decodeBytes_of_decode {t : Stack} {source : Source} {m : Message}
    (hm : (t.decode source).1.result = .ok m) :
    (∃ content, source.Delivered (t.decode source).2 content) ∧
      t.decodeBytes source.pending = ((t.decode source).1, (t.decode source).2.pending) := by
  rcases t.decode_agrees source with ⟨content, hcontent, hbytes⟩ | ⟨segment, cause, hfailed⟩
  · exact ⟨⟨content, hcontent⟩, hbytes⟩
  · rw [hm] at hfailed
    cases hfailed

/-! ## The place of the failure -/

namespace Source

variable {source : Source} {room : Nat} {cause : TransportError}

theorem reachable_of_failure (hsource : source.failure = some ⟨source.position + room, cause⟩) :
    source.reachable = source.pending.take room := by
  simp only [reachable, hsource, Nat.add_sub_cancel_left]

theorem breakage_of_failure (hsource : source.failure = some ⟨source.position + room, cause⟩) :
    source.breakage = if room ≤ source.pending.length then some cause else none := by
  simp only [breakage, hsource, Nat.add_sub_cancel_left]

theorem length_reachable_of_failure
    (hsource : source.failure = some ⟨source.position + room, cause⟩) :
    source.reachable.length = min room source.pending.length := by
  rw [reachable_of_failure hsource, List.length_take]

end Source

namespace Stack

variable {t : Stack} {bytes : Bytes} {segment : Segment}

theorem decodeBytes_of_stopsIn (h : (t.framing.intake t.registry).stopsIn bytes = some segment) :
    ∃ e, (t.decodeBytes bytes).1.result = .error e ∧ e.isUnexpectedEof = true ∧
      e.segment = segment := by
  obtain ⟨size, received, hrun⟩ := Intake.runBytes_of_stopsIn h
  refine ⟨.transport segment (Intake.shortage segment size received), ?_, ?_, rfl⟩
  · simp only [decodeBytes, hrun]
    rfl
  · simp [WireError.isUnexpectedEof, WireError.transportError]

theorem decode_ofBytes (t : Stack) (bytes : Bytes) :
    (t.decode (.ofBytes bytes)).1 = (t.decodeBytes bytes).1 ∧
      (t.decode (.ofBytes bytes)).2.position = (t.framing.intake t.registry).taken bytes := by
  have hfresh : (Source.ofBytes bytes).failure = none := rfl
  obtain ⟨source, hdecode, -, hadvanced⟩ := t.decode_eq_decodeBytes hfresh
  rw [hdecode]
  exact ⟨rfl, hadvanced.2.1.trans (Nat.zero_add _)⟩

/-- A source that fails behind the bytes that a plain source gives for a message, or for a failure
other than its own end, is decoded alike. -/
theorem decode_of_taken_le {source : Source} {room : Nat} {cause : TransportError}
    (hsource : source.failure = some ⟨source.position + room, cause⟩)
    (hroom : (t.framing.intake t.registry).taken source.pending ≤ room)
    (hends : ∀ e, (t.decodeBytes source.pending).1.result = .error e → e.isUnexpectedEof = false) :
    ∃ source', t.decode source = ((t.decodeBytes source.pending).1, source') ∧
      source.Moved source'
        (source.pending.take ((t.framing.intake t.registry).taken source.pending)) := by
  rcases (t.framing.intake t.registry).run_cases source with
    ⟨-, source', hrun, hmoved⟩ | ⟨segment, _, _, hstops, hbreakage, -, -⟩
  · refine ⟨source', ?_, hmoved⟩
    simp only [decode, hrun]
    rfl
  · -- The bytes in front of the failure would have to suffice.
    have hlength := Source.length_reachable_of_failure hsource
    have hbreaks : room ≤ source.pending.length := by
      by_contra hbehind
      rw [Source.breakage_of_failure hsource, if_neg hbehind] at hbreakage
      cases hbreakage
    obtain ⟨more, hmore⟩ := source.reachable_prefix
    rcases Intake.lt_taken_of_stopsIn hstops more with hlt | ⟨segment', hstops'⟩
    · rw [hmore] at hlt
      omega
    · rw [hmore] at hstops'
      obtain ⟨e, he, heof, -⟩ := decodeBytes_of_stopsIn hstops'
      rw [hends e he] at heof
      cases heof

theorem decode_of_lt_taken {source : Source} {room : Nat} {cause : TransportError}
    (hsource : source.failure = some ⟨source.position + room, cause⟩)
    (hroom : room < (t.framing.intake t.registry).taken source.pending) :
    ∃ segment source', t.decode source = (t.finish (.error (.transport segment cause)), source') ∧
      source.Moved source' (source.pending.take room) ∧
      t.framing.CutShort (source.pending.take room) segment := by
  have hshort := (t.framing.intake t.registry).taken_le source.pending
  have hreachable := Source.reachable_of_failure hsource
  have hbreakage := Source.breakage_of_failure hsource
  rw [if_pos (by omega)] at hbreakage
  rcases (t.framing.intake t.registry).run_cases source with
    ⟨hnone | hnone, -⟩ | ⟨segment, _, source', hstops, hcause, hrun, hmoved⟩
  · rw [hbreakage] at hnone
    cases hnone
  · obtain ⟨more, hmore⟩ := source.reachable_prefix
    have htaken := Intake.taken_append hnone more
    have hle := (t.framing.intake t.registry).taken_le source.reachable
    have hlength := Source.length_reachable_of_failure hsource
    rw [hmore] at htaken
    omega
  · rw [hbreakage] at hcause
    cases hcause
    rw [hreachable] at hmoved hstops
    refine ⟨segment, source', ?_, hmoved,
      decodeBytes_unexpectedEof_iff.1 (decodeBytes_of_stopsIn hstops)⟩
    simp only [decode, hrun]

theorem decode_ofBytes_frame {header metadata payload : Bytes} {h : Header}
    (hheader : t.framing.headerLayout.Form header h)
    (hmetadata : h.metadataSize.toNat = metadata.length)
    (hpayload : h.payloadSize.toNat = payload.length) (behind : Bytes) :
    (t.decode (.ofBytes (header ++ (metadata ++ payload) ++ behind))).2.position =
        (header ++ (metadata ++ payload)).length ∧
      ∀ e, (t.decode (.ofBytes (header ++ (metadata ++ payload) ++ behind))).1.result = .error e →
        e.isUnexpectedEof = false := by
  have hframe :
      t.framing.frameLayout.Form (header ++ (metadata ++ payload)) ⟨h, metadata, payload⟩ :=
    Layout.bind_form hheader (Layout.bind_form (Layout.exactly_form .metadata hmetadata.symm)
      (Layout.bind_nothing_form (Layout.exactly_form .payload hpayload.symm) rfl))
  have hfresh : (Source.ofBytes (header ++ (metadata ++ payload) ++ behind)).failure = none := rfl
  obtain ⟨hresult, -, hadvanced⟩ := decode_of_runBytes hfresh rfl
    (Framing.runBytes_intake_form hframe t.registry behind)
  refine ⟨hadvanced.2.1.trans (Nat.zero_add _), fun e he => ?_⟩
  rw [hresult] at he
  exact WireError.isUnexpectedEof_of_ofFrame (ofFrame_of_finish he)

theorem decode_ofBytes_magic {a b : UInt8} (hmagic : [a, b] ≠ Framing.magicBytes) (behind : Bytes) :
    (t.decode (.ofBytes (a :: b :: behind))).2.position = 2 ∧
      ∀ e, (t.decode (.ofBytes (a :: b :: behind))).1.result = .error e →
        e.isUnexpectedEof = false := by
  have hfront : t.framing.frameLayout.Refused [a, b]
      (.invalidMagic (UInt16.ofNat (256 * a.toNat + b.toNat))) :=
    Or.inl (Or.inl ⟨a, b, rfl, hmagic, rfl⟩)
  have hfresh : (Source.ofBytes ([a, b] ++ behind)).failure = none := rfl
  obtain ⟨hresult, -, hadvanced⟩ := decode_of_runBytes hfresh rfl
    (Framing.runBytes_intake_refused hfront t.registry behind)
  refine ⟨hadvanced.2.1, fun e he => ?_⟩
  change (t.decode (.ofBytes ([a, b] ++ behind))).1.result = .error e at he
  rw [hresult] at he
  cases he
  rfl

/-- On a source that fails after some bytes a stack decodes what it decodes from a plain one, and
takes as many bytes, if it takes no more than come before the failure and does not come to the end
of the stream.  If it takes more, it fails for the cause of the source, in the segment of the
first byte that does not come, having taken all that do.  So no byte is asked for behind a
complete frame, or behind two bytes that are not the magic number.  -/
theorem decode_until_failure {t : Stack} {source rest : Source}
    {plain : Traced (Except WireError Message)} {room : Nat} {cause : TransportError}
    (hplain : t.decode (.ofBytes source.pending) = (plain, rest))
    (hsource : source.failure = some ⟨source.position + room, cause⟩) :
    (rest.position ≤ room → (∀ e, plain.result = .error e → e.isUnexpectedEof = false) →
      (t.decode source).1 = plain ∧
        (t.decode source).2.pending = source.pending.drop rest.position ∧
        (t.decode source).2.position = source.position + rest.position) ∧
    (room < rest.position → room < source.pending.length ∧
      (t.decode source).2.pending = source.pending.drop room ∧
      (t.decode source).2.position = source.position + room ∧
      ∃ segment, t.framing.CutShort (source.pending.take room) segment ∧
        (t.decode source).1.result = .error (.transport segment cause)) ∧
    (∀ header metadata payload behind h,
      source.pending = header ++ (metadata ++ payload) ++ behind →
      t.framing.headerLayout.Form header h → h.metadataSize.toNat = metadata.length →
      h.payloadSize.toNat = payload.length →
        rest.position = (header ++ (metadata ++ payload)).length ∧
        (∀ e, plain.result = .error e → e.isUnexpectedEof = false) ∧
        (room < rest.position → (t.decode source).1.result =
          .error (.transport (Frame.segmentAt header metadata room) cause))) ∧
    ∀ a b behind, source.pending = a :: b :: behind → [a, b] ≠ Framing.magicBytes →
      rest.position = 2 ∧ ∀ e, plain.result = .error e → e.isUnexpectedEof = false := by
  obtain ⟨hresult, htaken⟩ := t.decode_ofBytes source.pending
  rw [hplain] at hresult htaken
  simp only at hresult htaken
  have hshort := (t.framing.intake t.registry).taken_le source.pending
  have hbefore (hroom : room < rest.position) :
      ∃ segment source', t.decode source = (t.finish (.error (.transport segment cause)), source') ∧
        source.Moved source' (source.pending.take room) ∧
        t.framing.CutShort (source.pending.take room) segment :=
    decode_of_lt_taken hsource (htaken ▸ hroom)
  refine ⟨?_, ?_, ?_, ?_⟩
  · intro hroom hends
    rw [hresult] at hends ⊢
    rw [htaken] at hroom ⊢
    obtain ⟨source', hdecode, hmoved⟩ := decode_of_taken_le hsource hroom hends
    have hlength := List.length_take_of_le hshort
    rw [hdecode]
    exact ⟨rfl, hmoved.pending_eq_drop.trans (by rw [hlength]),
      hmoved.position.trans (by rw [hlength])⟩
  · intro hroom
    obtain ⟨segment, source', hdecode, hmoved, hcut⟩ := hbefore hroom
    have hlt : room < source.pending.length := by omega
    have hlength := List.length_take_of_le hlt.le
    rw [hdecode]
    exact ⟨hlt, hmoved.pending_eq_drop.trans (by rw [hlength]),
      hmoved.position.trans (by rw [hlength]),
      segment, hcut, rfl⟩
  · intro header metadata payload behind h hpending hheader hmetadata hpayload
    obtain ⟨hposition, hends⟩ := decode_ofBytes_frame hheader hmetadata hpayload behind
    rw [← hpending, hplain] at hposition hends
    refine ⟨hposition, hends, fun hroom => ?_⟩
    obtain ⟨segment, source', hdecode, -, hcut⟩ := hbefore hroom
    have hinside : room < (header ++ (metadata ++ payload)).length := hposition ▸ hroom
    rw [hpending, List.take_append_of_le_length hinside.le] at hcut
    rw [hdecode, hcut.unique (Framing.cutShort_take hheader hmetadata hpayload hinside)]
    rfl
  · intro a b behind hpending hmagic
    have hdecoded := decode_ofBytes_magic (t := t) hmagic behind
    rwa [← hpending, hplain] at hdecoded

def replySource (room : Nat) : Source where
  pending := replyBytes ++ [0x3F]
  schedule := [.interrupted, .upTo 2, .interrupted, .upTo 0]
  failure := some ⟨room, ⟨.brokenPipe, none⟩⟩

theorem decode_until_failure_reply :
    ((Stack.mk .fixed .builtin []).decode (replySource 25)).1 =
        ((Stack.mk .fixed .builtin []).decode (.ofBytes (replyBytes ++ [0x3F]))).1 ∧
      ((Stack.mk .fixed .builtin []).decode (replySource 25)).2.position = 25 ∧
      ((Stack.mk .fixed .builtin []).decode (replySource 24)).2.position = 24 ∧
      ((Stack.mk .fixed .builtin []).decode (replySource 24)).1.result =
        .error (.transport .payload ⟨.brokenPipe, none⟩) := by
  have hheader := Framing.fixed.headerBytes_form
    (h := { Header.new .response .json 7 with payloadSize := 3 }) rfl
  have hplain (room : Nat) :
      (Stack.mk .fixed .builtin []).decode (.ofBytes (replySource room).pending) =
      (Stack.mk .fixed .builtin []).decode (.ofBytes (replyBytes ++ [0x3F])) := rfl
  have hsource (room : Nat) : (replySource room).failure =
      some ⟨(replySource room).position + room, ⟨.brokenPipe, none⟩⟩ := by
    simp [replySource]
  have hwhole := decode_until_failure (hplain 25) (hsource 25)
  have hcut := decode_until_failure (hplain 24) (hsource 24)
  obtain ⟨hposition, hends, -⟩ := hwhole.2.2.1 _ [] [1, 2, 3] [0x3F] _ rfl hheader rfl rfl
  obtain ⟨hposition', -, hfails⟩ := hcut.2.2.1 _ [] [1, 2, 3] [0x3F] _ rfl hheader rfl rfl
  have hlt : 24 < 25 := by decide
  obtain ⟨hsame, -, htakes⟩ := hwhole.1 hposition.le hends
  obtain ⟨-, -, htakes', -⟩ := hcut.2.1 (hposition' ▸ hlt)
  exact ⟨hsame, htakes.trans (by rw [hposition]; rfl), htakes', hfails (hposition' ▸ hlt)⟩

end Stack

end Courier
