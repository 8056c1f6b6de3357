import Courier.Proofs.Consistency
/-!
# What a call reports

A call that fails reports one failure, and a call that succeeds none, but one event of the framing
that says how long the segments on the wire are (`Stack.calls_are_reported`).  There is one
exception: a message that a compressing layer refuses on its way down is refused without a word
(`Stack.encode_refused_silently`).
-/

namespace Courier

def Log.failures (log : Log) : Nat :=
  log.countP (·.severity = .debug)

/-- The event says how long the two segments behind a header are. -/
def Event.TellsSizes (event : Event) (metadata payload : Bytes) : Prop :=
  ("metadata_size", toString metadata.length) ∈ event.fields ∧
    ("payload_size", toString payload.length) ∈ event.fields

namespace Log

theorem failures_cons (event : Event) (log : Log) :
    failures (event :: log) = failures log + if event.severity = .debug then 1 else 0 := by
  simp [failures, List.countP_cons]

theorem failures_append (log log' : Log) : failures (log ++ log') = failures log + failures log' :=
  List.countP_append

end Log

namespace Traced

variable {α β : Type} {t : Traced (Except WireError α)} {f : α → Traced (Except WireError β)}

theorem log_andThen_of_error {e : WireError} (ht : t.result = .error e) :
    (t.andThen f).log = t.log := by
  simp only [andThen, ht]

theorem log_andThen_of_ok {a : α} (ht : t.result = .ok a) :
    (t.andThen f).log = t.log ++ (f a).log := by
  simp only [andThen, ht]

end Traced

/-! ## Layers -/

namespace Layer

variable {layer : Layer} {nonce : Cipher.Nonce} {m up : Message} {e : WireError} {event : Event}

theorem eq_compressedEvent_of_mem_log_wrap (h : event ∈ (layer.wrap nonce m).log) :
    m.header.compression.code = 1 ∧ ∃ m' compressed, event = compressedEvent m' compressed := by
  cases layer with
  | compress level limit =>
    simp only [wrap] at h
    by_cases hplain : m.header.compression.code = 0
    · simp [Compression.normalized, Compression.ofCode, hplain] at h
    by_cases hgzip : m.header.compression.code = 1
    · simp only [Compression.normalized, Compression.ofCode, hgzip] at h
      exact ⟨hgzip, m, _, List.mem_singleton.1 h⟩
    · simp [normalized_of_code_other hplain hgzip] at h
  | encrypt key => cases h

theorem log_unwrap_of_ok (h : (layer.unwrap m).result = .ok up) : (layer.unwrap m).log = [] := by
  cases layer with
  | compress level limit =>
    simp only [unwrap] at h ⊢
    split at h
    · rfl
    · rfl
    · cases h
  | encrypt key =>
    simp only [unwrap] at h ⊢
    split at h
    · cases h
    · split at h
      · rfl
      · cases h

theorem log_unwrap_of_error (hm : m.IsSized) (h : (layer.unwrap m).result = .error e) :
    ∃ text, (layer.unwrap m).log = [unwrapFailure m text] := by
  cases layer with
  | compress level limit =>
    simp only [unwrap] at h ⊢
    split at h
    · cases h
    · cases h
    · exact ⟨_, rfl⟩
  | encrypt key =>
    cases hopened : Cipher.openPayload? key m.id m.payload with
    | none =>
      simp only [unwrap, hopened]
      exact ⟨_, rfl⟩
    | some opened =>
      have hfits := sizesFit_of_isSized (encrypt key) hm opened hopened
      simp only [unwrap, hopened, hfits] at h
      cases h

end Layer

namespace Stack

open Layer

variable {nonces : Nonces} {seals : Nat} {layers : List Layer} {m up : Message} {e : WireError}
  {event : Event}

theorem eq_compressedEvent_of_mem_log_wrapAll (h : event ∈ (wrapAll nonces seals layers m).log) :
    m.header.compression.code = 1 ∧ ∃ m' compressed, event = compressedEvent m' compressed := by
  induction layers generalizing seals with
  | nil => cases h
  | cons layer outer ih =>
    cases houter :
        (wrapAll nonces (if layer.isSealing then seals + 1 else seals) outer m).result with
    | error e =>
      rw [wrapAll, Traced.log_andThen_of_error houter] at h
      exact ih h
    | ok handed =>
      rw [wrapAll, Traced.log_andThen_of_ok houter] at h
      rcases List.mem_append.1 h with h | h
      · exact ih h
      · obtain ⟨hcode, hevent⟩ := eq_compressedEvent_of_mem_log_wrap h
        rw [(wrapAll_eq_ok houter).1] at hcode
        exact ⟨hcode, hevent⟩

theorem log_wrapAll_of_code_ne_one (hcode : m.header.compression.code ≠ 1) :
    (wrapAll nonces seals layers m).log = [] :=
  List.eq_nil_iff_forall_not_mem.2 fun _ h => hcode (eq_compressedEvent_of_mem_log_wrapAll h).1

theorem failures_log_wrapAll : (wrapAll nonces seals layers m).log.failures = 0 := by
  refine List.countP_eq_zero.2 fun event h => ?_
  obtain ⟨-, _, _, rfl⟩ := eq_compressedEvent_of_mem_log_wrapAll h
  simp [compressedEvent]

theorem log_unwrapAll_of_ok (h : (unwrapAll layers m).result = .ok up) :
    (unwrapAll layers m).log = [] := by
  induction layers generalizing m with
  | nil => rfl
  | cons layer outer ih =>
    obtain ⟨handed, hlayer, houter⟩ := Traced.andThen_eq_ok_iff.1 h
    rw [unwrapAll, Traced.log_andThen_of_ok hlayer, log_unwrap_of_ok hlayer, ih houter]
    rfl

theorem failures_log_unwrapAll (hm : m.IsSized) (h : (unwrapAll layers m).result = .error e) :
    (unwrapAll layers m).log.failures = 1 := by
  -- The layer that fails is the last that is asked, and those before it have reported nothing.
  induction layers generalizing m with
  | nil => cases h
  | cons layer outer ih =>
    rw [unwrapAll]
    rcases Traced.andThen_eq_error_iff.1 h with hlayer | ⟨handed, hlayer, houter⟩
    · obtain ⟨text, hlog⟩ := log_unwrap_of_error hm hlayer
      rw [Traced.log_andThen_of_error hlayer, hlog]
      rfl
    · have hhanded : handed.IsSized := by
        rcases unwrap_eq_ok hlayer with rfl | ⟨payload, hpayload, rfl⟩
        · exact hm
        · exact isSized_withPayload m hpayload
      rw [Traced.log_andThen_of_ok hlayer, log_unwrap_of_ok hlayer]
      exact ih hhanded houter

end Stack

/-! ## Calls -/

/-- Of the events with the given text the log has one.  It is no failure, and it says how long the
two segments are.  -/
def Log.TellsOnce (log : Log) (text : String) (metadata payload : Bytes) : Prop :=
  ∃ event, log.filter (·.text = text) = [event] ∧ event.severity = .trace ∧
    event.TellsSizes metadata payload

namespace Framing

theorem tellsSizes_of_sizeFields {event : Event} {f : Framing} {h : Header}
    {metadata payload : Bytes}
    (hevent : event.fields = f.sizeFields h) (hmetadata : h.metadataSize.toNat = metadata.length)
    (hpayload : h.payloadSize.toNat = payload.length) : event.TellsSizes metadata payload := by
  unfold Event.TellsSizes
  rw [hevent]
  cases f <;> simp [sizeFields, hmetadata, hpayload]

end Framing

namespace Stack

open Layer

variable {s : Stack} {nonces : Nonces} {m : Message} {e : WireError} {sink : Sink} {source : Source}

/-- The stack has a compressing layer, and the message names a compression that no layer knows. -/
def Refuses (s : Stack) (m : Message) : Prop :=
  s.layers.any isCompressing = true ∧ m.header.compression.code ≠ 0 ∧ m.header.compression.code ≠ 1

theorem exists_wrapAll_of_not_refuses (nonces : Nonces) (h : ¬ s.Refuses m) :
    ∃ inner, (wrapAll nonces 0 s.layers m).result = .ok inner := by
  refine exists_wrapAll_eq_ok nonces 0 fun hany => ?_
  by_contra hcode
  exact h ⟨hany, not_or.1 hcode⟩

theorem encode_of_refuses (nonces : Nonces) (h : s.Refuses m) (sink : Sink) :
    s.encode nonces m sink =
      (⟨.error (.unsupportedCompression m.header.compression.code), []⟩, sink) := by
  obtain ⟨hany, hplain, hgzip⟩ := h
  rw [encode_of_wrapAll_error (wrapAll_of_code_other hany hplain hgzip),
    log_wrapAll_of_code_ne_one hgzip]

theorem failures_log_encode (h : ¬ s.Refuses m)
    (he : (s.encode nonces m sink).1.result = .error e) :
    (s.encode nonces m sink).1.log.failures = 1 := by
  obtain ⟨inner, hwrap⟩ := exists_wrapAll_of_not_refuses nonces h
  rw [encode_of_wrapAll hwrap] at he ⊢
  rw [Log.failures_append, failures_log_wrapAll]
  cases hframe : Frame.ofMessage s.registry inner with
  | error e' =>
    rw [encodeFramed_of_error hframe]
    rfl
  | ok frame =>
    rw [encodeFramed_of_ok hframe] at he ⊢
    simp only at he ⊢
    rw [he]
    rfl

theorem tells_of_encode (hok : (s.encode nonces m sink).1.result = .ok ()) :
    (s.encode nonces m sink).1.log.failures = 0 ∧
      ∃ wire frame, (s.encode nonces m sink).2.accepted = sink.accepted ++ wire ∧
        s.framing.frameLayout.Form wire frame ∧
        (s.encode nonces m sink).1.log.TellsOnce ("encoded " ++ s.framing.eventWord ++ "message")
          frame.metadata frame.payload := by
  have hdown : ¬ s.Refuses m := by
    intro h
    rw [encode_of_refuses nonces h] at hok
    cases hok
  obtain ⟨inner, hwrap⟩ := exists_wrapAll_of_not_refuses nonces hdown
  rw [encode_of_wrapAll hwrap] at hok ⊢
  cases hframe : Frame.ofMessage s.registry inner with
  | error e' =>
    rw [encodeFramed_of_error hframe] at hok
    cases hok
  | ok frame =>
    rw [encodeFramed_of_ok hframe] at hok ⊢
    obtain ⟨result, sink', hwrite, hadvanced, ⟨hroom, rfl⟩ | ⟨segment, -, rfl⟩⟩ :=
      frame.write_eq s.framing sink
    · rw [hroom, List.take_length] at hadvanced
      have hsound := Frame.ofMessage_isSound hframe
      simp only [hwrite]
      let event := s.framing.encodeEvent inner.id (.ok frame.header)
      have hsizes : event.TellsSizes frame.metadata frame.payload :=
        Framing.tellsSizes_of_sizeFields rfl hsound.metadata hsound.payload
      refine ⟨?_, _, _, hadvanced.1, Frame.bytes_form hsound s.framing, event, ?_, rfl, hsizes⟩
      · rw [Log.failures_append, failures_log_wrapAll]
        rfl
      · -- The compressing layers have a text of their own.
        have habove : (wrapAll nonces 0 s.layers m).log.filter
            (·.text = "encoded " ++ s.framing.eventWord ++ "message") = [] := by
          refine List.filter_eq_nil_iff.2 fun event hevent => ?_
          obtain ⟨-, m', compressed, rfl⟩ := eq_compressedEvent_of_mem_log_wrapAll hevent
          cases s.framing <;> simp [compressedEvent, Framing.eventWord]
        rw [List.filter_append, habove, List.nil_append]
        exact List.filter_cons_of_pos (by simp [Framing.encodeEvent, Except.map])
    · rw [hwrite] at hok
      cases hok

theorem failures_log_decode (he : (s.decode source).1.result = .error e) :
    (s.decode source).1.log.failures = 1 := by
  change (s.finish ((s.framing.intake s.registry).run source).1).result = .error e at he
  change (s.finish ((s.framing.intake s.registry).run source).1).log.failures = 1
  cases hframed : ((s.framing.intake s.registry).run source).1 with
  | error e' => rfl
  | ok framed =>
    obtain ⟨front, frame, -, hframe, hmessage⟩ := frame_of_run hframed
    rw [hframed] at he
    have hlayers := failures_log_unwrapAll (isSized_of_toMessage hframe hmessage) he
    change Log.failures (_ :: (unwrapAll s.layers framed).log) = 1
    rw [Log.failures_cons, hlayers]
    rfl

theorem tells_of_decode (hok : (s.decode source).1.result = .ok m) :
    (s.decode source).1.log.failures = 0 ∧
      ∃ wire frame, source.pending = wire ++ (s.decode source).2.pending ∧
        s.framing.frameLayout.Form wire frame ∧
        (s.decode source).1.log.TellsOnce ("decoded " ++ s.framing.eventWord ++ "message")
          frame.metadata frame.payload := by
  change (s.finish ((s.framing.intake s.registry).run source).1).result = .ok m at hok
  cases hframed : ((s.framing.intake s.registry).run source).1 with
  | error e =>
    rw [hframed] at hok
    cases hok
  | ok framed =>
    rw [hframed] at hok
    obtain ⟨front, frame, hsplit, hframe, hmessage⟩ := frame_of_run hframed
    obtain ⟨_, -, -, hmetadata, hpayload⟩ := Framing.parts_of_frameLayout hframe
    obtain ⟨_, _, -, -, rfl⟩ := Frame.toMessage_eq_ok_iff.1 hmessage
    have hlog : (s.decode source).1.log =
        [⟨.trace, "decoded " ++ s.framing.eventWord ++ "message",
          s.framing.sizeFields frame.header⟩] := by
      change (s.finish ((s.framing.intake s.registry).run source).1).log = _
      rw [hframed]
      exact congrArg (List.cons _) (log_unwrapAll_of_ok hok)
    rw [hlog]
    exact ⟨rfl, front, frame, hsplit, hframe, _, List.filter_cons_of_pos (by simp), rfl,
      Framing.tellsSizes_of_sizeFields rfl hmetadata hpayload⟩

/-- A message that names the compression 9 is refused by the compressing layer, and the log is
empty. -/
theorem encode_refused_silently :
    (Stack.mk .fixed .builtin [.defaultCompress]).encode .ofCounter
        ⟨{ Header.new .request .json 7 with compression := .other 9 }, none, [1, 2]⟩ {} =
      (⟨.error (.unsupportedCompression 9), []⟩, {}) := rfl

/-- A call that fails reports one failure.  A call that succeeds reports none, and tells once, for
the framing, how long the segments on the wire are.  The exception is a message that a compressing
layer refuses when it is encoded: nothing is reported of it.  Nor would be of a payload beyond the
`2 ^ 38 - 64` bytes that the cipher takes, where sealing is not modelled.  -/
theorem calls_are_reported (s : Stack) :
    (∀ nonces m sink,
      (¬ s.Refuses m → ∀ e, (s.encode nonces m sink).1.result = .error e →
        (s.encode nonces m sink).1.log.failures = 1) ∧
      (s.Refuses m → s.encode nonces m sink =
        (⟨.error (.unsupportedCompression m.header.compression.code), []⟩, sink)) ∧
      ((s.encode nonces m sink).1.result = .ok () →
        (s.encode nonces m sink).1.log.failures = 0 ∧
        ∃ wire frame, (s.encode nonces m sink).2.accepted = sink.accepted ++ wire ∧
          s.framing.frameLayout.Form wire frame ∧
          (s.encode nonces m sink).1.log.TellsOnce ("encoded " ++ s.framing.eventWord ++ "message")
            frame.metadata frame.payload)) ∧
    ∀ source,
      (∀ e, (s.decode source).1.result = .error e → (s.decode source).1.log.failures = 1) ∧
      ∀ m, (s.decode source).1.result = .ok m →
        (s.decode source).1.log.failures = 0 ∧
        ∃ wire frame, source.pending = wire ++ (s.decode source).2.pending ∧
          s.framing.frameLayout.Form wire frame ∧
          (s.decode source).1.log.TellsOnce ("decoded " ++ s.framing.eventWord ++ "message")
            frame.metadata frame.payload :=
  ⟨fun nonces _ sink =>
    ⟨fun h _ he => failures_log_encode h he, fun h => encode_of_refuses nonces h sink,
    tells_of_encode⟩, fun _ => ⟨fun _ he => failures_log_decode he, fun _ => tells_of_decode⟩⟩

theorem calls_are_reported_sample :
    ((Stack.mk .fixed .builtin [.defaultCompress]).encode .ofCounter
        (.response 7 (.custom 9) none []) {}).1.log.failures = 1 ∧
      ((Stack.mk .fixed .builtin [.defaultCompress]).encode .ofCounter
        ⟨{ Header.new .request .json 7 with compression := .other 5 }, none, []⟩ {}).1.log = [] ∧
      (∃ wire frame, ((Stack.mk .fixed .builtin [.defaultCompress]).encode .ofCounter
          (.response 7 .json none [1, 2, 3]) {}).2.accepted = wire ∧
        Framing.fixed.frameLayout.Form wire frame ∧
        ((Stack.mk .fixed .builtin [.defaultCompress]).encode .ofCounter
          (.response 7 .json none [1, 2, 3]) {}).1.log.TellsOnce "encoded message"
            frame.metadata frame.payload) ∧
      ((Stack.mk .fixed .builtin [.defaultCompress]).decode { pending := [0x3F] }).1.log.failures =
        1 := by
  obtain ⟨hencode, hdecode⟩ := calls_are_reported ⟨.fixed, .builtin, [.defaultCompress]⟩
  refine ⟨(hencode _ _ _).1 ?_ _ rfl, ?_, ?_, (hdecode _).1 _ rfl⟩
  · rintro ⟨-, hplain, -⟩
    exact hplain rfl
  · rw [(hencode _ _ _).2.1 ⟨rfl, by decide, by decide⟩]
  · obtain ⟨-, wire, frame, haccepted, hform, htells⟩ :=
      (hencode .ofCounter (.response 7 .json none [1, 2, 3]) {}).2.2 rfl
    exact ⟨wire, frame, haccepted, hform, htells⟩

end Stack

end Courier
