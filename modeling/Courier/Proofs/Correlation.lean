import Courier.MessageIds
import Courier.Proofs.Calls
import Courier.Proofs.Consistency
/-!
# Responses that belong to their requests

The clients of a process share one counter of ids.  However their calls are interleaved, no two of
the requests carry one id, and none carries zero.  So whatever is fed to their streams, a call that
succeeds has been given a response to its own request, and what answers another call is refused
(`Clients.run_correlates`).
-/

namespace Courier

/-! ## Connections over any stream -/

/-- The bytes are a frame of which the stack makes the message. -/
def Stack.Frames (t : Stack) (front : Bytes) (m : Message) : Prop :=
  ∃ frame, t.framing.frameLayout.Form front frame ∧
    (t.finish (frame.toMessage t.registry)).result = .ok m

theorem Stack.messageId_of_frameOf {s : Stack} {nonces : Nonces} {m : Message} {frame : Frame}
    (hframe : s.frameOf nonces m = .ok frame) : frame.header.messageId = m.id := by
  obtain ⟨inner, hwrap, hinner⟩ := frameOf_eq_ok_iff.1 hframe
  obtain ⟨_, _, -, -, -, -, rfl⟩ := Frame.ofMessage_eq_ok_iff.1 hinner
  change inner.header.messageId = m.header.messageId
  rw [(wrapAll_eq_ok hwrap).1]

namespace Connection

variable {σ : Type} {c : Connection} {nonces : Nonces} {m : Message}

theorem unread_receive {content : Bytes}
    (hdelivered : c.stream.source.Delivered (c.stack.decode c.stream.source).2 content) :
    c.receive.2.stream.unread = (c.stack.decode c.stream.source).2.pending := by
  obtain ⟨hpending, hposition⟩ := hdelivered
  change c.stream.inbound.drop (c.stack.decode c.stream.source).2.position = _
  rw [hposition]
  change c.stream.inbound.drop (c.stream.position + content.length) = _
  rw [← List.drop_drop]
  change c.stream.source.pending.drop content.length = _
  rw [hpending, List.drop_left]

theorem frames_of_receive (hm : c.receive.1.result = .ok m) :
    ∃ front, c.stream.unread = front ++ c.receive.2.stream.unread ∧ c.stack.Frames front m := by
  have hdecode : (c.stack.decode c.stream.source).1.result = .ok m := hm
  obtain ⟨content, hdelivered⟩ := (Stack.decodeBytes_of_decode hdecode).1
  obtain ⟨front, frame, framed, hsplit, hframe, hmessage, hlayers⟩ := Stack.frame_of_decode hdecode
  refine ⟨front, ?_, frame, hframe, Traced.andThen_eq_ok_iff.2 ⟨framed, hmessage, hlayers⟩⟩
  rw [unread_receive hdelivered]
  exact hsplit

theorem receive_of_frames {front rest : Bytes} (hsplit : c.stream.unread = front ++ rest)
    (hframes : c.stack.Frames front m) :
    c.receive.1.result = .ok m ∧ c.receive.2.stream.unread = rest ∨
      ∃ segment cause, c.receive.1.result = .error (.transport segment cause) := by
  obtain ⟨frame, hframe, hm⟩ := hframes
  rcases c.stack.decode_agrees c.stream.source with ⟨content, hdelivered, hbytes⟩ | hfailed
  · have hpending : c.stream.source.pending = front ++ rest := hsplit
    rw [hpending, Stack.decodeBytes_form hframe] at hbytes
    obtain ⟨hdecoded, hrest⟩ := Prod.mk.inj hbytes
    refine Or.inl ⟨?_, ?_⟩
    · change (c.stack.decode c.stream.source).1.result = _
      rw [← hdecoded, hm]
    · rw [unread_receive hdelivered, hrest]
  · exact Or.inr hfailed

theorem flush_keeps (c : Connection) :
    c.flush.2.stack = c.stack ∧ c.flush.2.stream.sink = c.stream.sink := by
  unfold flush Stream.flush
  cases c.stream.flushFailure <;> exact ⟨rfl, rfl⟩

theorem stack_send (c : Connection) (nonces : Nonces) (m : Message) :
    (c.send nonces m).2.stack = c.stack := by
  rcases hencode : c.stack.encode nonces m c.stream.sink with ⟨⟨result, log⟩, sink⟩
  cases result with
  | error e => simp only [send, hencode]
  | ok u =>
    simp only [send, hencode]
    exact (flush_keeps _).1

/-- Of a message that has no frame nothing is written.  Of any other message a front of its frame is
written, and the whole frame if the message was sent. -/
theorem send_writes (c : Connection) (nonces : Nonces) (m : Message) :
    (∃ e, (c.send nonces m).1.result = .error e ∧
        (c.send nonces m).2.stream.written = c.stream.written) ∨
      ∃ frame wire, c.stack.frameOf nonces m = .ok frame ∧
        (c.send nonces m).2.stream.written = c.stream.written ++ wire ∧
        wire <+: frame.bytes c.stack.framing ∧
        ((c.send nonces m).1.result = .ok () → wire = frame.bytes c.stack.framing) := by
  cases hframe : c.stack.frameOf nonces m with
  | error e =>
    obtain ⟨log, hsend⟩ := send_of_frameOf_error hframe
    rw [hsend]
    exact Or.inl ⟨e, rfl, rfl⟩
  | ok frame =>
    obtain ⟨log, hencode⟩ := Stack.encode_of_frameOf hframe c.stream.sink
    obtain ⟨result, sink, hwrite, hadvanced, hresult⟩ :=
      frame.write_eq c.stack.framing c.stream.sink
    rw [hwrite] at hencode
    cases result with
    | error e =>
      simp only [send, hencode]
      refine Or.inr ⟨frame, _, rfl, hadvanced.1, List.take_prefix _ _, fun hsent => ?_⟩
      cases hsent
    | ok u =>
      have hroom : c.stream.sink.room (frame.bytes c.stack.framing).length =
          (frame.bytes c.stack.framing).length := by
        rcases hresult with ⟨hroom, -⟩ | ⟨_, -, he⟩
        · exact hroom
        · cases he
      rw [hroom, List.take_length] at hadvanced
      simp only [send, hencode]
      refine Or.inr ⟨frame, _, rfl, ?_, List.prefix_refl _, fun _ => rfl⟩
      exact (congrArg Sink.accepted (flush_keeps _).2).trans hadvanced.1

def afterTurn (c : Connection) (turn : Turn σ) : Connection :=
  if c.wantsMore then { c with stream := (turn c.stream).1 } else c

theorem stack_afterTurn (c : Connection) (turn : Turn σ) : (c.afterTurn turn).stack = c.stack := by
  unfold afterTurn
  split <;> rfl

theorem receiveAfter_eq (c : Connection) (turn : Turn σ) :
    ∃ outcome, c.receiveAfter turn =
      ((c.afterTurn turn).receive.1, (c.afterTurn turn).receive.2, outcome) := by
  unfold receiveAfter afterTurn
  split
  · exact ⟨some (turn c.stream).2, rfl⟩
  · exact ⟨none, rfl⟩

end Connection

theorem Message.error?_eq_none_iff {m : Message} :
    m.error? = none ↔ ∀ metadata, m.metadata = some metadata → metadata.error = "" := by
  unfold error?
  cases m.metadata with
  | none => simp
  | some metadata => simp [Metadata.isError, Option.filter]

namespace Calculator

/-! ## One call -/

namespace Client

variable {σ : Type} {id : UInt64} {response : Message}

theorem call_of_receiveAfter_error {client : Client} {turn : Connection.Turn σ} {nonces : Nonces}
    {method : Method} {numbers : List Binary64} {log log' : List Event} {c c' : Connection}
    {outcome : Option σ} {e : WireError}
    (hsend : client.connection.send nonces (request client.settings id method numbers) =
      (⟨.ok (), log⟩, c))
    (hreceive : c.receiveAfter turn = (⟨.error e, log'⟩, c', outcome)) :
    client.call turn nonces id method numbers =
      (.error (.protocol e), { client with connection := c' }, outcome) := by
  rw [call, hsend]
  simp only [hreceive]

theorem conclude_eq_ok_iff {method : Method} {value : Binary64} :
    conclude method id response = .ok value ↔
      response.id = id ∧ response.error? = none ∧ method.unpack response.payload = .ok value := by
  unfold conclude
  by_cases hid : response.id = id
  · rw [if_neg (not_not_intro hid)]
    cases herror : response.error? with
    | none => cases method.unpack response.payload <;> simp [hid, Except.mapError]
    | some error => simp
  · simp [hid]

theorem conclude_of_other {method : Method} (hid : response.id ≠ id) :
    conclude method id response = .error (.mismatchedId id response.id) :=
  if_pos hid

end Client

/-- A call as it is made: by a client as it is then, while the other end has its turn. -/
structure Attempt where
  client : Client
  turn : Connection.Turn Unit
  call : Call

namespace Attempt

def stack (a : Attempt) : Stack :=
  a.client.connection.stack

def sent (a : Attempt) : Except WireError Unit × Connection :=
  let (sent, c) := a.client.connection.send a.call.nonces (a.call.request a.client.settings)
  (sent.result, c)

/-- The bytes to be read when the client turns to the response. -/
def heard (a : Attempt) : Bytes :=
  (a.sent.2.afterTurn a.turn).stream.unread

def received (a : Attempt) : Except WireError Message :=
  (a.sent.2.afterTurn a.turn).receive.1.result

def made (a : Attempt) : Except CallError Binary64 × Client :=
  let (answer, client, _) :=
    a.client.call a.turn a.call.nonces a.call.id a.call.method a.call.numbers
  (answer, client)

def left (a : Attempt) : Bytes :=
  a.made.2.connection.stream.unread

variable {a : Attempt} {response : Message} {e : WireError}

theorem stack_sent (a : Attempt) : (a.sent.2.afterTurn a.turn).stack = a.stack :=
  (Connection.stack_afterTurn _ _).trans (Connection.stack_send ..)

theorem made_of_unsent (he : a.sent.1 = .error e) : a.made.1 = .error (.protocol e) := by
  rcases hsend : a.client.connection.send a.call.nonces (a.call.request a.client.settings) with
    ⟨⟨result, log⟩, c⟩
  rw [sent, hsend] at he
  obtain rfl : result = .error e := he
  rw [made, Client.call_of_send_error hsend]

theorem made_of_sent (hsent : a.sent.1 = .ok ()) :
    a.made.1 = (match a.received with
      | .error e => .error (.protocol e)
      | .ok response => Client.conclude a.call.method a.call.id response) ∧
      a.made.2.connection = (a.sent.2.afterTurn a.turn).receive.2 := by
  rcases hsend : a.client.connection.send a.call.nonces (a.call.request a.client.settings) with
    ⟨⟨result, log⟩, c⟩
  have hc : a.sent = (result, c) := by rw [sent, hsend]
  rw [hc] at hsent
  obtain rfl : result = .ok () := hsent
  obtain ⟨outcome, hreceive⟩ := c.receiveAfter_eq a.turn
  rw [received, hc]
  rcases hreceived : (c.afterTurn a.turn).receive with ⟨⟨result, log'⟩, c'⟩
  rw [hreceived] at hreceive
  cases result with
  | error e =>
    rw [made, Client.call_of_receiveAfter_error hsend hreceive]
    exact ⟨rfl, rfl⟩
  | ok response =>
    rw [made, Client.call_of_receiveAfter hsend hreceive]
    exact ⟨rfl, rfl⟩

/-- When the client turns to the response, the frame of the message is next on the stream, in front
of the given bytes. -/
def Meets (a : Attempt) (response : Message) (rest : Bytes) : Prop :=
  ∃ front, a.heard = front ++ rest ∧ a.stack.Frames front response

theorem left_of_sent (hsent : a.sent.1 = .ok ()) :
    a.left = (a.sent.2.afterTurn a.turn).receive.2.stream.unread :=
  congrArg (fun c : Connection => c.stream.unread) (made_of_sent hsent).2

theorem meets_of_received (hsent : a.sent.1 = .ok ()) (hresponse : a.received = .ok response) :
    a.Meets response a.left := by
  rw [left_of_sent hsent, Meets, ← a.stack_sent]
  exact Connection.frames_of_receive hresponse

theorem received_of_meets {rest : Bytes} (hsent : a.sent.1 = .ok ())
    (hmeets : a.Meets response rest)
    (htransport : ∀ segment cause, a.received ≠ .error (.transport segment cause)) :
    a.received = .ok response ∧ a.left = rest := by
  obtain ⟨front, hsplit, hframes⟩ := hmeets
  rw [← a.stack_sent] at hframes
  rcases Connection.receive_of_frames hsplit hframes with hreceived | ⟨segment, cause, hfailed⟩
  · rw [left_of_sent hsent]
    exact hreceived
  · exact absurd hfailed (htransport segment cause)

/-- The request carries the id of the call, and of all responses only one that carries it too is
taken for an answer. -/
structure IsCorrelated (a : Attempt) : Prop where
  request : ∃ wire, a.sent.2.stream.written = a.client.connection.stream.written ++ wire ∧
    (wire = [] ∧ a.sent.1 ≠ .ok () ∨
      ∃ frame, a.stack.frameOf a.call.nonces (a.call.request a.client.settings) = .ok frame ∧
        frame.header.messageId = a.call.id ∧ wire <+: frame.bytes a.stack.framing ∧
        (a.sent.1 = .ok () → wire = frame.bytes a.stack.framing))
  answered : ∀ value, a.made.1 = .ok value → ∃ response,
    a.Meets response a.left ∧ response.id = a.call.id ∧
      (∀ metadata, response.metadata = some metadata → metadata.error = "") ∧
      a.call.method.unpack response.payload = .ok value
  refused : ∀ response rest, a.sent.1 = .ok () → a.Meets response rest →
    (∀ segment cause, a.received ≠ .error (.transport segment cause)) →
    response.id ≠ a.call.id →
    a.made.1 = .error (.mismatchedId a.call.id response.id) ∧ a.left = rest

theorem isCorrelated (a : Attempt) : a.IsCorrelated where
  request := by
    rcases a.client.connection.send_writes a.call.nonces (a.call.request a.client.settings) with
      ⟨e, he, hwritten⟩ | ⟨frame, wire, hframe, hwritten, hfront, hall⟩
    · refine ⟨[], by rw [List.append_nil]; exact hwritten, Or.inl ⟨rfl, fun hsent => ?_⟩⟩
      have he' : a.sent.1 = .error e := he
      rw [hsent] at he'
      cases he'
    · exact ⟨wire, hwritten,
        Or.inr ⟨frame, hframe, Stack.messageId_of_frameOf hframe, hfront, hall⟩⟩
  answered value hvalue := by
    cases hsent : a.sent.1 with
    | error e =>
      rw [made_of_unsent hsent] at hvalue
      cases hvalue
    | ok u =>
    have hmade := (made_of_sent hsent).1
    cases hresponse : a.received with
    | error e =>
      rw [hmade, hresponse] at hvalue
      cases hvalue
    | ok response =>
      rw [hmade, hresponse] at hvalue
      obtain ⟨hid, herror, hpayload⟩ := Client.conclude_eq_ok_iff.1 hvalue
      exact ⟨response, meets_of_received hsent hresponse, hid,
        Message.error?_eq_none_iff.1 herror, hpayload⟩
  refused response rest hsent hmeets htransport hid := by
    obtain ⟨hresponse, hleft⟩ := received_of_meets hsent hmeets htransport
    refine ⟨?_, hleft⟩
    rw [(made_of_sent hsent).1, hresponse]
    exact Client.conclude_of_other hid

/-- The call takes no answer to another call for its own. -/
def Refuses (a b : Attempt) : Prop :=
  ∀ response rest, a.sent.1 = .ok () → a.Meets response rest →
    (∀ segment cause, a.received ≠ .error (.transport segment cause)) →
    response.id = b.call.id →
    a.made.1 = .error (.mismatchedId a.call.id b.call.id) ∧ a.left = rest

theorem refuses_of_ne {b : Attempt} (hne : a.call.id ≠ b.call.id) : a.Refuses b := by
  intro response rest hsent hmeets htransport hid
  have hother : response.id ≠ a.call.id := by
    rw [hid]
    exact hne.symm
  rw [← hid]
  exact a.isCorrelated.refused response rest hsent hmeets htransport hother

end Attempt

/-! ## The clients of a process -/

structure Clients (κ : Type) where
  ids : MessageIds := {}
  client : κ → Client
  drawn : κ → Option UInt64 := fun _ => none

namespace Clients

variable {κ : Type}

/-- What may happen next.  A caller draws an id before it makes a call, and others may do as they
like in between. -/
inductive Action (κ : Type) where
  | draw (caller : κ)
  | disturb (caller : κ) (turn : Connection.Turn Unit)
  | call (caller : κ) (turn : Connection.Turn Unit) (nonces : Nonces) (method : Method)
      (numbers : List Binary64)

def Action.isDraw : Action κ → Bool
  | draw _ => true
  | disturb _ _ | call _ _ _ _ _ => false

def IsDrawn (draws : Nat) (id : UInt64) : Prop :=
  0 < id.toNat ∧ id.toNat ≤ draws

/-- So many ids were drawn; some of them were spent on calls, and others are held for calls to be
made, each for one. -/
structure Issued (p : Clients κ) (draws : Nat) (spent : List UInt64) : Prop where
  next : p.ids.next = UInt64.ofNat (draws + 1)
  drawn : ∀ id ∈ spent, IsDrawn draws id
  nodup : spent.Nodup
  held : ∀ caller id, p.drawn caller = some id → IsDrawn draws id ∧ id ∉ spent
  apart : ∀ caller caller' id, p.drawn caller = some id → p.drawn caller' = some id →
    caller = caller'

variable {p : Clients κ} {draws : Nat} {spent : List UInt64}

theorem IsDrawn.mono {id : UInt64} (hid : IsDrawn draws id) : IsDrawn (draws + 1) id :=
  ⟨hid.1, hid.2.trans (Nat.le_succ draws)⟩

theorem start_issued (client : κ → Client) : Issued { client } 0 [] where
  next := rfl
  drawn _ hid := absurd hid List.not_mem_nil
  nodup := .nil
  held _ _ hheld := by cases hheld
  apart _ _ _ hheld _ := by cases hheld

variable [DecidableEq κ]

def step (p : Clients κ) : Action κ → Option Attempt × Clients κ
  | .draw caller =>
    let (id, ids) := p.ids.take
    (none, { p with ids, drawn := Function.update p.drawn caller (some id) })
  | .disturb caller turn =>
    let client := p.client caller
    let (stream, _) := turn client.connection.stream
    let client := { client with connection := { client.connection with stream } }
    (none, { p with client := Function.update p.client caller client })
  | .call caller turn nonces method numbers =>
    match p.drawn caller with
    | none => (none, p)
    | some id =>
      let attempt : Attempt := ⟨p.client caller, turn, ⟨nonces, id, method, numbers⟩⟩
      (some attempt, { p with
        client := Function.update p.client caller attempt.made.2
        drawn := Function.update p.drawn caller none })

def run (p : Clients κ) : List (Action κ) → List Attempt × Clients κ
  | [] => ([], p)
  | action :: actions =>
    let (attempt, p) := p.step action
    let (attempts, p) := p.run actions
    (attempt.toList ++ attempts, p)

theorem update_eq_some_iff {drawn : κ → Option UInt64} {caller other : κ} {value : Option UInt64}
    {id : UInt64} :
    Function.update drawn caller value other = some id ↔
      other = caller ∧ value = some id ∨ other ≠ caller ∧ drawn other = some id := by
  rw [Function.update_apply, ite_eq_iff]

theorem step_draw (hp : p.Issued draws spent) (hfew : draws + 1 < UInt64.size) (caller : κ) :
    (p.step (.draw caller)).2.Issued (draws + 1) spent := by
  -- The counter is ahead of all ids that were drawn, as long as it has not gone round.
  have hvalue : p.ids.next.toNat = draws + 1 := by
    rw [hp.next, UInt64.toNat_ofNat_of_lt' hfew]
  have hnew : ∀ id, IsDrawn draws id → id ≠ p.ids.next := by
    rintro id ⟨-, hle⟩ rfl
    omega
  refine ⟨?_, fun id hid => (hp.drawn id hid).mono, hp.nodup, ?_, ?_⟩
  · change p.ids.next + 1 = _
    rw [hp.next, ← UInt64.ofNat_one, ← UInt64.ofNat_add]
  · intro other id hheld
    rcases update_eq_some_iff.1 hheld with ⟨-, hid⟩ | ⟨-, hold⟩
    · obtain rfl : p.ids.next = id := Option.some.inj hid
      exact ⟨⟨by omega, hvalue.le⟩, fun hspent => hnew _ (hp.drawn _ hspent) rfl⟩
    · exact ⟨(hp.held other id hold).1.mono, (hp.held other id hold).2⟩
  · intro other other' id hheld hheld'
    rcases update_eq_some_iff.1 hheld with ⟨rfl, hid⟩ | ⟨-, hold⟩ <;>
      rcases update_eq_some_iff.1 hheld' with ⟨rfl, hid'⟩ | ⟨-, hold'⟩
    · rfl
    · exact absurd (Option.some.inj hid).symm (hnew id (hp.held other' id hold').1)
    · exact absurd (Option.some.inj hid').symm (hnew id (hp.held other id hold).1)
    · exact hp.apart other other' id hold hold'

theorem step_call (hp : p.Issued draws spent) {caller : κ} {id : UInt64}
    (hid : p.drawn caller = some id) (client : κ → Client) :
    Issued { p with client, drawn := Function.update p.drawn caller none } draws
      (spent ++ [id]) := by
  obtain ⟨hrange, hunspent⟩ := hp.held caller id hid
  -- The caller's id is gone, and the others hold what they held.
  have hothers : ∀ other id', Function.update p.drawn caller none other = some id' →
      other ≠ caller ∧ p.drawn other = some id' := by
    intro other id' hheld
    rcases update_eq_some_iff.1 hheld with ⟨-, hnone⟩ | hother
    · cases hnone
    · exact hother
  refine ⟨hp.next, ?_, ?_, ?_, ?_⟩
  · intro id' hid'
    rcases List.mem_append.1 hid' with hold | hnew
    · exact hp.drawn id' hold
    · rwa [List.mem_singleton.1 hnew]
  · exact List.nodup_append_comm.1 (List.nodup_cons.2 ⟨hunspent, hp.nodup⟩)
  · intro other id' hheld
    obtain ⟨hother, hold⟩ := hothers other id' hheld
    refine ⟨(hp.held other id' hold).1, fun hspent => ?_⟩
    rcases List.mem_append.1 hspent with hspent | hnew
    · exact (hp.held other id' hold).2 hspent
    · rw [List.mem_singleton.1 hnew] at hold
      exact hother (hp.apart other caller id hold hid)
  · intro other other' id' hheld hheld'
    exact hp.apart other other' id' (hothers other id' hheld).2 (hothers other' id' hheld').2

theorem step_issued (hp : p.Issued draws spent) (action : Action κ)
    (hfew : draws + (if action.isDraw then 1 else 0) < UInt64.size) :
    (p.step action).2.Issued (draws + if action.isDraw then 1 else 0)
      (spent ++ (p.step action).1.toList.map (·.call.id)) := by
  cases action with
  | draw caller =>
    change (p.step (.draw caller)).2.Issued (draws + 1) (spent ++ [])
    rw [List.append_nil]
    exact step_draw hp hfew caller
  | disturb caller turn =>
    change (p.step (.disturb caller turn)).2.Issued draws (spent ++ [])
    rw [List.append_nil]
    exact ⟨hp.next, hp.drawn, hp.nodup, hp.held, hp.apart⟩
  | call caller turn nonces method numbers =>
    cases hid : p.drawn caller with
    | none =>
      simp only [step, hid, Option.toList_none, List.map_nil, List.append_nil]
      exact hp
    | some id =>
      simp only [step, hid, Option.toList_some, List.map_cons, List.map_nil]
      exact step_call hp hid _

theorem run_issued (hp : p.Issued draws spent) (actions : List (Action κ))
    (hfew : draws + actions.countP Action.isDraw < UInt64.size) :
    (p.run actions).2.Issued (draws + actions.countP Action.isDraw)
      (spent ++ (p.run actions).1.map (·.call.id)) := by
  induction actions generalizing p draws spent with
  | nil =>
    rw [run, List.map_nil, List.append_nil]
    exact hp
  | cons action actions ih =>
    rw [List.countP_cons, Nat.add_comm (actions.countP _), ← Nat.add_assoc] at hfew ⊢
    have hstep := step_issued hp action (by omega)
    have hrun := ih hstep hfew
    rw [run, List.map_append, ← List.append_assoc]
    exact hrun

/-- Whatever the callers do and whatever is fed to their streams, the ids of the calls are distinct,
and none is zero, as long as the counter has not gone round.  Every request carries the id of its
call, a call returns a result only for a response with this id, and the answer to another call is
refused. -/
theorem run_correlates (client : κ → Client) (actions : List (Action κ))
    (hfew : actions.countP Action.isDraw < UInt64.size) :
    ∃ attempts p, run { client } actions = (attempts, p) ∧
      (attempts.map (·.call.id)).Nodup ∧ (∀ a ∈ attempts, a.call.id ≠ 0 ∧ a.IsCorrelated) ∧
      attempts.Pairwise fun a b => a.Refuses b ∧ b.Refuses a := by
  obtain ⟨-, hdrawn, hnodup, -, -⟩ :=
    run_issued (start_issued client) actions (by rwa [Nat.zero_add])
  rw [List.nil_append] at hdrawn hnodup
  refine ⟨_, _, rfl, hnodup, fun a ha => ⟨?_, a.isCorrelated⟩, ?_⟩
  · intro hzero
    obtain ⟨hpos, -⟩ := hdrawn _ (List.mem_map_of_mem ha)
    rw [hzero] at hpos
    exact absurd hpos (by decide)
  · exact (List.pairwise_map.1 hnodup).imp fun hne =>
      ⟨Attempt.refuses_of_ne hne, Attempt.refuses_of_ne hne.symm⟩

def lateResponse : Bytes :=
  [63, 63, 1, 2, 0, 2, 0, 0, 0, 0, 0, 0, 0, 1, 0, 0, 0, 8, 0, 0, 0, 0,
    0, 0, 4, 108, 97, 116, 101, 0]

def crossed : List (Action Bool) :=
  let feed : Connection.Turn Unit := fun stream => (stream.feed lateResponse, ())
  [.draw false, .draw true, .call true feed .ofCounter "Add" [.one],
    .call false feed .ofCounter "Add" [.one]]

theorem run_correlates_crossed :
    ∃ a b, (run { client := fun _ => .ofStream { serialization := .binary } {} } crossed).1 =
      [a, b] ∧
      b.made.1 = .error (.remote "late") ∧ a.made.1 = .error (.mismatchedId 2 1) := by
  obtain ⟨attempts, p, hrun, -, -, hrefuse⟩ :=
    run_correlates (fun _ => .ofStream { serialization := .binary } {}) crossed (by decide)
  obtain ⟨a, b, hcalls, ha, hb, hsent, hreceived, hmade⟩ : ∃ a b,
      (run { client := fun _ => .ofStream { serialization := .binary } {} } crossed).1 = [a, b] ∧
        a.call.id = 2 ∧ b.call.id = 1 ∧ a.sent.1 = .ok () ∧
        a.received.map Message.id = .ok 1 ∧ b.made.1 = .error (.remote "late") :=
    ⟨_, _, rfl, rfl, rfl, by decide +kernel, by decide +kernel, by decide +kernel⟩
  rw [hrun] at hcalls
  obtain rfl : attempts = [a, b] := hcalls
  obtain ⟨hab, -⟩ := List.rel_of_pairwise_cons hrefuse (List.mem_singleton_self b)
  cases hresponse : a.received with
  | error e =>
    rw [hresponse] at hreceived
    cases hreceived
  | ok response =>
    rw [hresponse] at hreceived
    have hmeets := Attempt.meets_of_received hsent hresponse
    have hid := (hab response _ hsent hmeets (by simp [hresponse])
      ((Except.ok.inj hreceived).trans hb.symm)).1
    rw [ha, hb] at hid
    exact ⟨a, b, congrArg Prod.fst hrun, hmade, hid⟩

end Clients

end Calculator

end Courier
