import Courier.Connection
import Courier.Proofs.Consumption
import Courier.Proofs.RoundTrip
import Courier.Proofs.Writing
/-!
# A connection is a queue of messages

What one end of a byte queue sends the other end receives, message by message and in order.  The
queue of messages (`Queue.Run`) knows nothing of bytes; every run of the two connections is one of
its runs (`Link.run_is_queue`), because the bytes under way are always the wire forms of the
messages in it.
-/

namespace Courier

/-! ## Connections -/

namespace Connection

variable {c : Connection} {nonces : Nonces} {m : Message}

theorem send_of_frameOf_error {e : WireError} (hframe : c.stack.frameOf nonces m = .error e) :
    ∃ log, c.send nonces m = (⟨.error e, log⟩, c) := by
  obtain ⟨log, hencode⟩ := Stack.encode_of_frameOf_error hframe c.stream.sink
  simp only [send, hencode]
  exact ⟨log, rfl⟩

theorem send_of_frameOf {frame : Frame} (hframe : c.stack.frameOf nonces m = .ok frame)
    (hsink : c.stream.sink.failure = none) (hflush : c.stream.flushFailure = none) :
    ∃ log sink, c.send nonces m =
        (⟨.ok (), log⟩,
          { c with stream := { c.stream with
            sink
            flushedAt := c.stream.flushedAt ++ [sink.position] } }) ∧
      c.stream.sink.Advanced sink (frame.bytes c.stack.framing) := by
  obtain ⟨log, hencode⟩ := Stack.encode_of_frameOf hframe c.stream.sink
  have hroom : c.stream.sink.room (frame.bytes c.stack.framing).length =
      (frame.bytes c.stack.framing).length := by
    simp only [Sink.room, hsink]
  obtain ⟨sink, hwrite, hadvanced⟩ := Frame.write_of_room hroom
  refine ⟨log, sink, ?_, hadvanced⟩
  simp only [send, hencode, hwrite, flush, Stream.flush, hflush]
  rfl

def CanRead (c : Connection) : Prop :=
  c.stream.readFailure = none ∧ c.stream.position ≤ c.stream.inbound.length

theorem receive_eq (hc : c.CanRead) :
    ∃ c', c.receive = ((c.stack.decodeBytes c.stream.unread).1, c') ∧ c'.CanRead ∧
      c'.stack = c.stack ∧ c'.stream.unread = (c.stack.decodeBytes c.stream.unread).2 := by
  obtain ⟨hfailure, hposition⟩ := hc
  have hsource : c.stream.source.failure = none := hfailure
  obtain ⟨source, hdecode, hpending, hadvanced⟩ := c.stack.decode_eq_decodeBytes hsource
  have hunread : c.stream.source.pending = c.stream.unread := rfl
  rw [hunread] at hdecode hpending hadvanced
  obtain ⟨hleft, hmoved, -⟩ := hadvanced
  have htaken : (c.stack.framing.intake c.stack.registry).taken c.stream.unread ≤
      c.stream.inbound.length - c.stream.position := by
    rw [← List.length_drop]
    exact Nat.sub_le _ _
  generalize (c.stack.framing.intake c.stack.registry).taken c.stream.unread = count
    at hleft hmoved htaken
  have hplace : source.position = c.stream.position + count := hmoved
  refine ⟨{ c with stream := c.stream.afterReading source }, ?_, ⟨hfailure, ?_⟩, rfl, ?_⟩
  · simp only [receive, hdecode]
  · change source.position ≤ c.stream.inbound.length
    omega
  · change c.stream.inbound.drop source.position = _
    rw [hplace, ← hpending, hleft, ← List.drop_drop]
    rfl

theorem CanRead.feed (hc : c.CanRead) (bytes : Bytes) :
    ({ c with stream := c.stream.feed bytes } : Connection).CanRead := by
  obtain ⟨hfailure, hposition⟩ := hc
  refine ⟨hfailure, ?_⟩
  change c.stream.position ≤ (c.stream.inbound ++ bytes).length
  rw [List.length_append]
  omega

theorem CanRead.unread_feed (hc : c.CanRead) (bytes : Bytes) :
    (c.stream.feed bytes).unread = c.stream.unread ++ bytes :=
  List.drop_append_of_le_length hc.2

end Connection

/-! ## The queue of messages -/

structure Sent where
  nonces : Nonces
  message : Message

inductive Action where
  | send (nonces : Nonces) (m : Message)
  | receive

inductive Answer where
  | sent (result : Except WireError Unit)
  | received (result : Except WireError Message)

namespace Stack

/-- There is a codec for the message at the other end, and the limits there hold what is
compressed. -/
def Delivers (s t : Stack) (sent : Sent) : Prop :=
  t.registry.contains sent.message.header.serialization = true ∧
    WithinLimits sent.nonces 0 s.layers t.layers sent.message

/-- What may be received for a message: the message as it was sent if it can be delivered, and
otherwise a failure that is none of the stream. -/
def Yields (s t : Stack) (sent : Sent) : Except WireError Message → Prop
  | .ok read => s.Delivers t sent ∧ sent.message.ArrivesAs read
  | .error e => ¬ s.Delivers t sent ∧ e.OfFrame

/-- If both ends have a codec for the message it is the same one and restores the metadata. -/
def CodecsAgree (s t : Stack) (m : Message) : Prop :=
  ∀ codec codec', s.registry.lookup m.header.serialization = some codec →
    t.registry.lookup m.header.serialization = some codec' →
    codec' = codec ∧ ∀ value, m.metadata = some value → codec.Restores value

theorem sample_codecsAgree {level level' : Nat} {limit limit' : UInt32} :
    (sample level limit).CodecsAgree (sample level' limit') .sample := by
  intro codec codec' hcodec hcodec'
  have hbinary : Codec.binary = codec := Option.some.inj hcodec
  subst hbinary
  exact ⟨(Option.some.inj hcodec').symm, Message.sample_restores⟩

end Stack

namespace Queue

variable (s t : Stack)

/-- One action on the queue of the messages that were sent and not received. -/
inductive Step : List Sent → Action → Answer → List Sent → Prop
  | enqueue {queue : List Sent} {nonces : Nonces} {m : Message} {wire : Bytes}
      (hwire : (s.encodeToBytes nonces m).result = .ok wire) :
      Step queue (.send nonces m) (.sent (.ok ())) (queue ++ [⟨nonces, m⟩])
  | reject {queue : List Sent} {nonces : Nonces} {m : Message} {e : WireError}
      (he : (s.encodeToBytes nonces m).result = .error e) (hbefore : e.BeforeWriting) :
      Step queue (.send nonces m) (.sent (.error e)) queue
  | take {queue : List Sent} {sent : Sent} {result : Except WireError Message}
      (hyields : s.Yields t sent result) : Step (sent :: queue) .receive (.received result) queue
  | starve {cause : TransportError} (hcause : cause.fault = .unexpectedEof) :
      Step [] .receive (.received (.error (.transport .header cause))) []

inductive Run : List Sent → List Action → List Answer → List Sent → Prop
  | nil (queue : List Sent) : Run queue [] [] queue
  | cons {queue queue' queue'' : List Sent} {action : Action} {answer : Answer}
      {actions : List Action} {answers : List Answer} (hstep : Step s t queue action answer queue')
      (hrun : Run queue' actions answers queue'') :
      Run queue (action :: actions) (answer :: answers) queue''

def accepted : List Action → List Answer → List Sent
  | .send nonces m :: actions, .sent (.ok ()) :: answers =>
    ⟨nonces, m⟩ :: accepted actions answers
  | _ :: actions, _ :: answers => accepted actions answers
  | _, _ => []

def found : List Answer → List (Except WireError Message)
  | .received (.error (.transport _ _)) :: answers => found answers
  | .received result :: answers => result :: found answers
  | _ :: answers => found answers
  | [] => []

variable {s t} {queue queue' : List Sent}

theorem found_of_yields {sent : Sent} {result : Except WireError Message}
    (hyields : s.Yields t sent result) (answers : List Answer) :
    found (.received result :: answers) = result :: found answers := by
  cases result with
  | ok read => rfl
  | error e =>
    obtain ⟨-, he⟩ := hyields
    cases e <;> first | rfl | exact he.elim

/-- The messages that were found are the first that were accepted, in order, and the others are
still in the queue. -/
theorem Run.in_order {actions : List Action} {answers : List Answer}
    (hrun : Run s t queue actions answers queue') :
    ∃ taken, queue ++ accepted actions answers = taken ++ queue' ∧
      List.Forall₂ (s.Yields t) taken (found answers) := by
  induction hrun with
  | nil queue => exact ⟨[], List.append_nil queue, .nil⟩
  | cons hstep _ ih =>
    obtain ⟨taken, hsplit, hyields⟩ := ih
    cases hstep with
    | enqueue hwire =>
      refine ⟨taken, ?_, hyields⟩
      rw [← hsplit, List.append_assoc]
      rfl
    | reject he hbefore => exact ⟨taken, hsplit, hyields⟩
    | @take _ sent _ hhead =>
      refine ⟨sent :: taken, ?_, ?_⟩
      · rw [List.cons_append, List.cons_append, ← hsplit]
        rfl
      · rw [found_of_yields hhead]
        exact .cons hhead hyields
    | starve hcause => exact ⟨taken, hsplit, hyields⟩

end Queue

/-! ## Two connections -/

structure Link where
  sender : Connection
  receiver : Connection

namespace Link

def connect (s t : Stack) (writes reads : List Delivery) : Link where
  sender := { stream := { sink := { schedule := writes } }, stack := s }
  receiver := { stream := { deliveries := reads }, stack := t }

def step (l : Link) : Action → Answer × Link
  | .send nonces m =>
    let (sent, sender) := l.sender.send nonces m
    let (bytes, stream) := sender.stream.takeWritten
    (.sent sent.result, {
      sender := { sender with stream }
      receiver := { l.receiver with stream := l.receiver.stream.feed bytes } })
  | .receive =>
    let (received, receiver) := l.receiver.receive
    (.received received.result, { l with receiver })

def run (l : Link) : List Action → List Answer × Link
  | [] => ([], l)
  | action :: actions =>
    let (answer, l) := l.step action
    let (answers, l) := l.run actions
    (answer :: answers, l)

inductive Carries (s t : Stack) : List Sent → Bytes → Prop
  | nil : Carries s t [] []
  | cons {sent : Sent} {queue : List Sent} {frame : Frame} {rest : Bytes}
      (hframe : s.frameOf sent.nonces sent.message = .ok frame)
      (hcodecs : s.CodecsAgree t sent.message) (hrest : Carries s t queue rest) :
      Carries s t (sent :: queue) (frame.bytes s.framing ++ rest)

/-- The link carries the messages of a queue between ends with the given stacks. -/
structure Holds (l : Link) (s t : Stack) (queue : List Sent) : Prop where
  sender : l.sender.stack = s
  receiver : l.receiver.stack = t
  sink : l.sender.stream.sink.failure = none
  flush : l.sender.stream.flushFailure = none
  written : l.sender.stream.written = []
  reads : l.receiver.CanRead
  carries : Carries s t queue l.receiver.stream.unread

variable {l : Link} {s t : Stack} {queue : List Sent} {nonces : Nonces} {m : Message}

theorem Carries.append {bytes : Bytes} {sent : Sent} {frame : Frame} (h : Carries s t queue bytes)
    (hframe : s.frameOf sent.nonces sent.message = .ok frame)
    (hcodecs : s.CodecsAgree t sent.message) :
    Carries s t (queue ++ [sent]) (bytes ++ frame.bytes s.framing) := by
  induction h with
  | nil =>
    have hsent := Carries.cons hframe hcodecs .nil
    rwa [List.append_nil] at hsent
  | cons hframe' hcodecs' _ ih =>
    rw [List.append_assoc]
    exact .cons hframe' hcodecs' ih

theorem connect_holds (s t : Stack) (writes reads : List Delivery) :
    (connect s t writes reads).Holds s t [] where
  sender := rfl
  receiver := rfl
  sink := rfl
  flush := rfl
  written := rfl
  reads := ⟨rfl, Nat.le_refl 0⟩
  carries := .nil

theorem step_send (hl : l.Holds s t queue) (hcodecs : s.CodecsAgree t m) :
    ∃ queue', Queue.Step s t queue (.send nonces m) (l.step (.send nonces m)).1 queue' ∧
      (l.step (.send nonces m)).2.Holds s t queue' := by
  obtain ⟨rfl, hreceiver, hsink, hflush, hwritten, hreads, hcarries⟩ := hl
  cases hframe : l.sender.stack.frameOf nonces m with
  | error e =>
    obtain ⟨log, hsend⟩ := Connection.send_of_frameOf_error hframe
    simp only [step, hsend, Stream.takeWritten]
    have hcarries' :
        Carries l.sender.stack t queue (l.receiver.stream.feed l.sender.stream.written).unread := by
      rw [hreads.unread_feed, hwritten, List.append_nil]
      exact hcarries
    have he := Stack.encodeToBytes_eq_error_iff.2 hframe
    exact ⟨queue, .reject he (Stack.beforeWriting_of_frameOf hframe),
      ⟨rfl, hreceiver, hsink, hflush, rfl, hreads.feed _, hcarries'⟩⟩
  | ok frame =>
    obtain ⟨log, sink, hsend, hadvanced⟩ := Connection.send_of_frameOf hframe hsink hflush
    have haccepted : sink.accepted = frame.bytes l.sender.stack.framing := by
      rw [hadvanced.1]
      exact congrArg (· ++ _) hwritten
    simp only [step, hsend, Stream.takeWritten]
    have hcarries' : Carries l.sender.stack t (queue ++ [⟨nonces, m⟩])
        (l.receiver.stream.feed sink.accepted).unread := by
      rw [hreads.unread_feed, haccepted]
      exact hcarries.append hframe hcodecs
    have hwire := Stack.encodeToBytes_eq_ok_iff.2 ⟨frame, hframe, rfl⟩
    exact ⟨queue ++ [⟨nonces, m⟩], .enqueue hwire,
      ⟨rfl, hreceiver, hadvanced.2.2.trans hsink, hflush, rfl, hreads.feed _, hcarries'⟩⟩

theorem yields_of_frameOf {sent : Sent} {frame : Frame} (hagree : s.Agrees t)
    (hframe : s.frameOf sent.nonces sent.message = .ok frame)
    (hcodecs : s.CodecsAgree t sent.message) :
    s.Yields t sent (t.finish (Frame.toMessage t.registry
      { frame with header := frame.header.normalized })).result := by
  obtain ⟨inner, hwrap, hinner⟩ := Stack.frameOf_eq_ok_iff.1 hframe
  obtain ⟨hheader, hmetadata⟩ := Stack.wrapAll_eq_ok hwrap
  obtain ⟨codec, segment, hlookup, hencode, -, -, rfl⟩ := Frame.ofMessage_eq_ok_iff.1 hinner
  rw [hheader] at hlookup
  rw [hmetadata] at hencode
  by_cases hdelivers : s.Delivers t sent
  · obtain ⟨codec', hlookup'⟩ := Option.isSome_iff_exists.1 hdelivers.1
    obtain ⟨rfl, hrestores⟩ := hcodecs codec codec' hlookup hlookup'
    have hdecode := Codec.decodeMetadata_of_restores hrestores hencode
    obtain ⟨read, hread, harrives⟩ :=
      Stack.finish_frameOf_arrives hagree hframe hlookup' hdecode hdelivers.2
    rw [hread]
    exact ⟨hdelivers, harrives⟩
  · cases hresult : (t.finish (Frame.toMessage t.registry _)).result with
    | ok read =>
      obtain ⟨codec', metadata, hlookup', -, hlimits, -⟩ :=
        (Stack.finish_frameOf_iff hagree hframe).1 hresult
      exact absurd ⟨Option.isSome_iff_exists.2 ⟨codec', hlookup'⟩, hlimits⟩ hdelivers
    | error e => exact ⟨hdelivers, Stack.ofFrame_of_finish hresult⟩

theorem step_receive (hagree : s.Agrees t) (hl : l.Holds s t queue) :
    ∃ queue', Queue.Step s t queue .receive (l.step .receive).1 queue' ∧
      (l.step .receive).2.Holds s t queue' := by
  obtain ⟨hsender, rfl, hsink, hflush, hwritten, hreads, hcarries⟩ := hl
  obtain ⟨receiver, hreceive, hreads', hstack, hunread⟩ := Connection.receive_eq hreads
  simp only [step, hreceive]
  generalize l.receiver.stream.unread = bytes at hcarries hunread
  cases hcarries with
  | nil =>
    have hcarries' : Carries s l.receiver.stack [] receiver.stream.unread := by
      rw [hunread]
      exact .nil
    exact ⟨[], .starve (Intake.fault_shortage .header 2 0),
      ⟨hsender, hstack, hsink, hflush, hwritten, hreads', hcarries'⟩⟩
  | @cons sent queue frame rest hframe hcodecs hrest =>
    rw [Stack.decodeBytes_frameOf hagree hframe] at hunread ⊢
    have hcarries' : Carries s l.receiver.stack queue receiver.stream.unread := by
      rw [hunread]
      exact hrest
    exact ⟨queue, .take (yields_of_frameOf hagree hframe hcodecs),
      ⟨hsender, hstack, hsink, hflush, hwritten, hreads', hcarries'⟩⟩

theorem run_holds (hagree : s.Agrees t) {actions : List Action}
    (hcodecs : ∀ nonces m, Action.send nonces m ∈ actions → s.CodecsAgree t m)
    (hl : l.Holds s t queue) :
    ∃ queue', Queue.Run s t queue actions (l.run actions).1 queue' ∧
      (l.run actions).2.Holds s t queue' := by
  induction actions generalizing l queue with
  | nil => exact ⟨queue, .nil queue, hl⟩
  | cons action actions ih =>
    obtain ⟨queue', hstep, hl'⟩ : ∃ queue', Queue.Step s t queue action (l.step action).1 queue' ∧
        (l.step action).2.Holds s t queue' := by
      cases action with
      | send nonces m => exact step_send hl (hcodecs nonces m List.mem_cons_self)
      | receive => exact step_receive hagree hl
    obtain ⟨queue'', hrun, hl''⟩ :=
      ih (fun nonces m hm => hcodecs nonces m (List.mem_cons_of_mem _ hm)) hl'
    exact ⟨queue'', .cons hstep hrun, hl''⟩

/-- Every run of two connections is a run of the queue of messages: what is found is the first of
what was accepted, and the bytes under way are the wire forms of the others.  A code that is
registered at both ends has to name one codec there. -/
theorem run_is_queue (hagree : s.Agrees t) (writes reads : List Delivery) (actions : List Action)
    (hcodecs : ∀ nonces m, Action.send nonces m ∈ actions → s.CodecsAgree t m) :
    ∃ taken queue,
      Queue.Run s t [] actions ((connect s t writes reads).run actions).1 queue ∧
      Queue.accepted actions ((connect s t writes reads).run actions).1 = taken ++ queue ∧
      List.Forall₂ (s.Yields t) taken
        (Queue.found ((connect s t writes reads).run actions).1) ∧
      Carries s t queue ((connect s t writes reads).run actions).2.receiver.stream.unread := by
  obtain ⟨queue, hrun, hl⟩ := run_holds hagree hcodecs (connect_holds s t writes reads)
  obtain ⟨taken, hsplit, hyields⟩ := hrun.in_order
  exact ⟨taken, queue, hrun, hsplit, hyields, hl.carries⟩

def sampleActions : List Action := [
  .receive,
  .send .ofCounter .sample,
  .send .ofCounter (.response 8 (.custom 9) none []),
  .receive,
  .send .ofCounter .sample]

theorem run_is_queue_sample :
    ∃ taken queue,
      Queue.Run (.sample 0 0) (.sample 9 64) [] sampleActions
        ((connect (.sample 0 0) (.sample 9 64) [.upTo 2] [.upTo 6]).run sampleActions).1 queue ∧
      Queue.accepted sampleActions
        ((connect (.sample 0 0) (.sample 9 64) [.upTo 2] [.upTo 6]).run sampleActions).1 =
          taken ++ queue ∧
      List.Forall₂ ((Stack.sample 0 0).Yields (.sample 9 64)) taken (Queue.found
        ((connect (.sample 0 0) (.sample 9 64) [.upTo 2] [.upTo 6]).run sampleActions).1) ∧
      Carries (.sample 0 0) (.sample 9 64) queue
        ((connect (.sample 0 0) (.sample 9 64) [.upTo 2] [.upTo 6]).run
          sampleActions).2.receiver.stream.unread := by
  refine run_is_queue (Stack.sample_agrees ..) _ _ sampleActions ?_
  intro nonces m hm codec codec' hcodec hcodec'
  -- No codec is registered for the reply.
  simp only [sampleActions, List.mem_cons, Action.send.injEq, reduceCtorEq, List.not_mem_nil,
    or_false, false_or] at hm
  rcases hm with ⟨-, rfl⟩ | ⟨-, rfl⟩ | ⟨-, rfl⟩
  · exact Stack.sample_codecsAgree codec codec' hcodec hcodec'
  · cases hcodec
  · exact Stack.sample_codecsAgree codec codec' hcodec hcodec'

end Link

end Courier
