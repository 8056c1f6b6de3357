import Courier.Proofs.ResponseTexts
import Courier.Proofs.Serving
/-!
# Calls from end to end

A client and the server it is connected to make calls one after another (`Session.run`).  Every call
takes one request to the server and one response back, which leaves nothing under way
(`Session.call_inStep`), so that each gets the answer to itself (`Session.run_answers`).
-/

namespace Courier.Calculator

/-! ## Calls -/

namespace Client

variable {σ : Type} {id : UInt64} {response : Message}

theorem call_of_receiveAfter {client : Client} {turn : Connection.Turn σ} {nonces : Nonces}
    {method : Method} {numbers : List Binary64} {log log' : List Event} {c c' : Connection}
    {outcome : Option σ}
    (hsend : client.connection.send nonces (request client.settings id method numbers) =
      (⟨.ok (), log⟩, c))
    (hreceive : c.receiveAfter turn = (⟨.ok response, log'⟩, c', outcome)) :
    client.call turn nonces id method numbers =
      (conclude method id response, { client with connection := c' }, outcome) := by
  rw [call, hsend]
  simp only [hreceive]

theorem call_of_send_error {client : Client} {turn : Connection.Turn σ} {nonces : Nonces}
    {method : Method} {numbers : List Binary64} {log : List Event} {c : Connection} {e : WireError}
    (hsend : client.connection.send nonces (request client.settings id method numbers) =
      (⟨.error e, log⟩, c)) :
    client.call turn nonces id method numbers =
      (.error (.protocol e), { client with connection := c }, none) := by
  rw [call, hsend]

theorem conclude_of_result {method : Method} {value : Binary64} (hid : response.id = id)
    (herror : response.error? = none) (hvalue : method.unpack response.payload = .ok value) :
    conclude method id response = .ok value := by
  rw [conclude, if_neg (not_not_intro hid), herror, hvalue]
  rfl

theorem conclude_of_error {method : Method} {error : String} (hid : response.id = id)
    (herror : response.error? = some error) :
    conclude method id response = .error (.remote error) := by
  rw [conclude, if_neg (not_not_intro hid), herror]

end Client

structure Call where
  nonces : Nonces
  id : UInt64
  method : Method
  numbers : List Binary64

namespace Call

def request (settings : Settings) (call : Call) : Message :=
  Client.request settings call.id call.method call.numbers

/-- The payload of the request keeps within the limit, and so does that of the response if there
is a result. -/
def WithinLimit (settings : Settings) (call : Call) : Prop :=
  (call.method.pack call.numbers).length ≤ settings.limit.toNat ∧
    ∀ (op : Operation) (numbers : List Binary64), call.method.name = op.name →
      unpackRequest (call.method.pack call.numbers) = .ok numbers →
      (packResponse (op.compute numbers)).length ≤ settings.limit.toNat

/-- The answer of a service that offers the operations. -/
def IsAnsweredBy (call : Call) (answer : Except CallError Binary64) : Prop :=
  (∀ op : Operation, call.method = op.method → answer = .ok (op.compute call.numbers)) ∧
    ((∀ op : Operation, call.method.name ≠ op.name) →
      answer = .error (.remote ("Unknown method `" ++ call.method.name ++ "`")))

/-- The answer when a segment of the request is too long for its size field. -/
def IsUnsendable (settings : Settings) (call : Call) (answer : Except CallError Binary64) : Prop :=
  ∃ segment size, UInt32.size ≤ size ∧
    (settings.stack .builtin).frameOf call.nonces (call.request settings) =
      .error (.sizeOverflow segment size) ∧
    answer = .error (.protocol (.sizeOverflow segment size))

variable {settings : Settings} {call : Call}

def received (settings : Settings) (call : Call) (metadataSize : Nat) : Message :=
  (call.request settings).delivered metadataSize

theorem unpackRequest_of_operation {op : Operation} (hlimit : call.WithinLimit settings)
    (hop : call.method = op.method) :
    unpackRequest (call.method.pack call.numbers) = .ok call.numbers := by
  have hlength := hlimit.1
  have hsize := settings.limit.toNat_lt
  have hreader : 8 * 2 ^ 32 < Columnar.lengthLimit := by decide
  rw [hop] at hlength ⊢
  change (packRequest call.numbers).length ≤ _ at hlength
  exact unpackRequest_packRequest (by omega)

theorem respond_computed {op : Operation} {numbers : List Binary64}
    (hop : call.method.name = op.name)
    (hnumbers : unpackRequest (call.method.pack call.numbers) = .ok numbers) (metadataSize : Nat) :
    (respond settings (call.received settings metadataSize)).result =
      ⟨settings.responseHeader call.id, some { serviceName, methodName := op.name },
        packResponse (op.compute numbers)⟩ := by
  have hmethod : methodOf (call.received settings metadataSize) = op.name := hop
  have houtcome : outcome (methodOf (call.received settings metadataSize))
      (call.received settings metadataSize).payload = .ok (packResponse (op.compute numbers)) := by
    rw [hmethod]
    exact outcome_known hnumbers
  rw [respond_of_ok houtcome, hmethod]
  rfl

theorem respond_undecoded {op : Operation} {e : TransportError} (hop : call.method.name = op.name)
    (he : unpackRequest (call.method.pack call.numbers) = .error e) (metadataSize : Nat) :
    (respond settings (call.received settings metadataSize)).result =
      ⟨settings.responseHeader call.id, some (Metadata.withError {} e.message), []⟩ := by
  have hmethod : methodOf (call.received settings metadataSize) = op.name := hop
  apply respond_of_error
  rw [hmethod]
  exact outcome_undecoded he

theorem respond_unknown (hmethod : ∀ op : Operation, call.method.name ≠ op.name)
    (metadataSize : Nat) :
    (respond settings (call.received settings metadataSize)).result =
      ⟨settings.responseHeader call.id, some (unknownMetadata call.method.name), []⟩ :=
  respond_of_error (outcome_unknown hmethod _)

theorem computed_or_undecoded_or_unknown (call : Call) :
    (∃ (op : Operation) (numbers : List Binary64), call.method.name = op.name ∧
        unpackRequest (call.method.pack call.numbers) = .ok numbers) ∨
      (∃ (op : Operation) (e : TransportError), call.method.name = op.name ∧
        unpackRequest (call.method.pack call.numbers) = .error e) ∨
      ∀ op : Operation, call.method.name ≠ op.name := by
  by_cases hmethod : ∃ op : Operation, call.method.name = op.name
  · obtain ⟨op, hop⟩ := hmethod
    cases hnumbers : unpackRequest (call.method.pack call.numbers) with
    | ok numbers => exact .inl ⟨op, numbers, hop, rfl⟩
    | error e => exact .inr (.inl ⟨op, e, hop, rfl⟩)
  · push Not at hmethod
    exact .inr (.inr hmethod)

theorem length_respond_received_le (hlimit : call.WithinLimit settings) (metadataSize : Nat) :
    (respond settings (call.received settings metadataSize)).result.payload.length ≤
      settings.limit.toNat := by
  rcases call.computed_or_undecoded_or_unknown with
    ⟨op, numbers, hop, hnumbers⟩ | ⟨op, e, hop, he⟩ | hmethod
  · rw [respond_computed hop hnumbers]
    exact hlimit.2 op numbers hop hnumbers
  · rw [respond_undecoded hop he]
    exact Nat.zero_le _
  · rw [respond_unknown hmethod]
    exact Nat.zero_le _

theorem exists_frameOf_request {segment : Bytes}
    (hserialization : settings.serialization.code = 1 ∨ settings.serialization.code = 2)
    (hcompression : settings.compression.code = 0 ∨ settings.compression.code = 1)
    (hshort : (call.method.pack call.numbers).length ≤ Deflate.neverStored)
    (hsegment : (call.request settings).metadataSegment = .ok segment)
    (hfits : segment.length < UInt32.size) :
    ∃ frame, (settings.stack .builtin).frameOf call.nonces (call.request settings) = .ok frame := by
  have hregistry : (settings.stack .builtin).registry = .builtin := rfl
  rcases Stack.frameOf_or_overflow (m := call.request settings) hregistry hserialization
    hcompression call.nonces with
    hframe | ⟨segment', hsegment', hlong, -⟩ | ⟨inner, hwrap, hlong, -⟩
  · exact hframe
  · rw [hsegment] at hsegment'
    cases hsegment'
    exact absurd hfits (not_lt.2 hlong)
  · have hinner := Settings.length_wrapAll_le hshort hwrap
    have hrequest : (call.request settings).payload.length ≤ 32 := hshort
    have hsize : 371 < UInt32.size := by decide
    omega

theorem exists_frameOf_response {frame : Frame}
    (hserialization : settings.serialization.code = 1 ∨ settings.serialization.code = 2)
    (hcompression : settings.compression.code = 0 ∨ settings.compression.code = 1)
    (hframe : (settings.stack .builtin).frameOf call.nonces (call.request settings) = .ok frame)
    (nonces : Nonces) (metadataSize : Nat) :
    ∃ frame', (settings.stack .builtin).frameOf nonces
      (respond settings (call.received settings metadataSize)).result = .ok frame' := by
  rcases frameOf_respond hserialization hcompression nonces (call.received settings metadataSize)
    with hframed | ⟨segment, hsegment, hlong, -⟩
  · exact hframed
  -- The other case is that of metadata too long, which are no longer than those of the request.
  refine absurd ?_ (not_lt.2 hlong)
  rcases call.computed_or_undecoded_or_unknown with
    ⟨op, numbers, hop, hnumbers⟩ | ⟨op, e, hop, he⟩ | hmethod
  · rw [respond_computed hop hnumbers] at hsegment
    exact length_segment_known hserialization rfl hsegment
  · rw [respond_undecoded hop he] at hsegment
    exact length_segment_refused he hserialization rfl hsegment
  · rw [respond_unknown hmethod] at hsegment
    have hrequest := Stack.metadataSegment_of_frameOf rfl hframe
    have hfits : frame.metadata.length < UInt32.size := by
      rw [← (Stack.frameOf_isSound hframe).metadata]
      exact frame.header.metadataSize.toNat_lt
    have hasked : (call.request settings).metadata = some (requestMetadata call.method.name) := rfl
    have hheader : (call.request settings).header.serialization = settings.serialization := rfl
    rw [← hheader] at hserialization
    refine length_segment_unknown hserialization ?_ hasked ?_ hrequest hsegment hfits
    · rfl
    · rfl

theorem conclude_isAnsweredBy (hlimit : call.WithinLimit settings) (metadataSize size : Nat) :
    call.IsAnsweredBy (Client.conclude call.method call.id
      ((respond settings (call.received settings metadataSize)).result.delivered size)) := by
  constructor
  · intro op hop
    have hname : call.method.name = op.name := by rw [hop]; rfl
    rw [respond_computed hname (unpackRequest_of_operation hlimit hop), hop]
    exact Client.conclude_of_result rfl rfl (unpackResponse_packResponse (op.compute call.numbers))
  · intro hmethod
    rw [respond_unknown hmethod]
    exact Client.conclude_of_error rfl (error?_of_withError (by simp))

end Call

/-! ## Calls one after another -/

theorem Ready.feed {c : Connection} (hc : Ready settings c) (bytes : Bytes) :
    Ready settings { c with stream := c.stream.feed bytes } :=
  ⟨hc.stack, hc.reads.feed bytes, hc.sink, hc.flush⟩

theorem Ready.takeWritten {c : Connection} (hc : Ready settings c) :
    Ready settings { c with stream := c.stream.takeWritten.2 } :=
  ⟨hc.stack, hc.reads, hc.sink, hc.flush⟩

theorem serveWithin_one {nonces : Nat → Nonces} {answered : Nat} {c : Connection}
    {request : Message} {frame : Frame} (hc : Ready settings c)
    (hrequest : ((settings.stack .builtin).decodeBytes c.stream.unread).1.result = .ok request)
    (hleft : ((settings.stack .builtin).decodeBytes c.stream.unread).2 = [])
    (hframe : (settings.stack .builtin).frameOf (nonces answered)
      (respond settings request).result = .ok frame) :
    ∃ c', serveWithin settings nonces (c.stream.unread.length + 1) answered c = (.ok (), c') ∧
      Ready settings c' ∧ c'.stream.unread = [] ∧
      c'.stream.written = c.stream.written ++ frame.bytes settings.framing := by
  have hlonger := Stack.length_decodeBytes_lt hrequest
  obtain ⟨rounds, hrounds⟩ := Nat.exists_eq_add_of_lt hlonger
  obtain ⟨c₁, hserve, hready, hunread, hwrote⟩ := serveWithin_answers hc hrequest hframe
  rw [hleft] at hunread
  -- Behind the request there is no byte left, which the loop takes for the end of the stream.
  have hend : ((settings.stack .builtin).decodeBytes c₁.stream.unread).1.result =
      .error (.transport .header (Intake.shortage .header 2 0)) := by
    rw [hunread]
    rfl
  obtain ⟨c', hserve', hready', hunread', hwrote'⟩ := serveWithin_ends hready hend
  have hwritten := (hwrote.append hwrote').written
  rw [List.append_nil, List.flatten_singleton] at hwritten
  refine ⟨c', ?_, hready', ?_, hwritten⟩
  · rw [hrounds, hserve]
    exact hserve'
  · rw [hunread', hunread]
    rfl

theorem Ready.receiveAfter {σ : Type} {turn : Connection.Turn σ} {outcome : σ} {nonces : Nonces}
    {m : Message} {frame : Frame} {c : Connection} (hc : Ready settings c)
    (hunread : c.stream.unread = [])
    (hturn : turn c.stream =
      (c.stream.takeWritten.2.feed (frame.bytes settings.framing), outcome))
    (hframe : (settings.stack .builtin).frameOf nonces m = .ok frame)
    (hlimit : m.payload.length ≤ settings.limit.toNat) :
    ∃ log c', c.receiveAfter turn =
        (⟨.ok (m.delivered frame.metadata.length), log⟩, c', some outcome) ∧
      Ready settings c' ∧ c'.stream.unread = [] ∧ c'.stream.written = [] := by
  have hwants : c.wantsMore = true := by
    rw [Connection.wantsMore, hc.stack, hunread]
    rfl
  have hfed : (c.stream.takeWritten.2.feed (frame.bytes settings.framing)).unread =
      frame.bytes settings.framing :=
    (hc.takeWritten.reads.unread_feed _).trans (congrArg (· ++ _) hunread)
  obtain ⟨hread, hleft⟩ := Settings.decodeBytes_frame hframe hlimit []
  rw [List.append_nil, ← hfed] at hread hleft
  obtain ⟨log, c', hreceive, hready, hunread', hwrote⟩ :=
    (hc.takeWritten.feed (frame.bytes settings.framing)).receive hread
  refine ⟨log, c', ?_, hready, hunread'.trans hleft, hwrote.written⟩
  rw [Connection.receiveAfter, if_pos hwants, hturn]
  simp only [hreceive]

/-- A client and the server to which it is connected. -/
structure Session where
  client : Client
  server : Stream
  served : Except WireError Unit := .ok ()

def serverConnection (settings : Settings) (stream : Stream) : Connection where
  stream := stream
  stack := settings.stack .builtin

namespace Session

/-- The server's turn: its loop goes on with the bytes that came, and its responses go back.  Where
these bytes end it waits for more; once it has failed it does nothing. -/
def turn (settings : Settings) (nonces : Nat → Nonces) (s : Session) :
    Connection.Turn (Stream × Except WireError Unit) := fun stream =>
  match s.served with
  | .error e => (stream, s.server, .error e)
  | .ok () =>
    let (requests, stream) := stream.takeWritten
    let c := serverConnection settings (s.server.feed requests)
    let (served, c) := serveWithin settings nonces (c.stream.unread.length + 1) c.stream.flushes c
    let (responses, server) := c.stream.takeWritten
    (stream.feed responses, server, served)

def call (settings : Settings) (nonces : Nat → Nonces) (s : Session) (call : Call) :
    Except CallError Binary64 × Session :=
  match s.client.call (s.turn settings nonces) call.nonces call.id call.method call.numbers with
  | (answer, client, none) => (answer, { s with client })
  | (answer, client, some (server, served)) => (answer, { client, server, served })

def run (settings : Settings) (nonces : Nat → Nonces) (s : Session) :
    List Call → List (Except CallError Binary64) × Session
  | [] => ([], s)
  | call :: calls =>
    let (answer, s) := s.call settings nonces call
    let (answers, s) := s.run settings nonces calls
    (answer :: answers, s)

def connect (settings : Settings)
    (clientReads clientWrites serverReads serverWrites : List Delivery) :
    Session where
  client := .ofStream settings { deliveries := clientReads, sink := { schedule := clientWrites } }
  server := { deliveries := serverReads, sink := { schedule := serverWrites } }

/-- Both ends go on, and no bytes are under way. -/
structure InStep (settings : Settings) (s : Session) : Prop where
  same : s.client.settings = settings
  client : Ready settings s.client.connection
  clientUnread : s.client.connection.stream.unread = []
  clientWritten : s.client.connection.stream.written = []
  serving : s.served = .ok ()
  server : Ready settings (serverConnection settings s.server)
  serverUnread : s.server.unread = []
  serverWritten : s.server.written = []

variable {settings : Settings} {s : Session} {call : Call} {nonces : Nat → Nonces}

theorem connect_inStep (settings : Settings)
    (clientReads clientWrites serverReads serverWrites : List Delivery) :
    (connect settings clientReads clientWrites serverReads serverWrites).InStep settings where
  same := rfl
  client := ⟨rfl, ⟨rfl, Nat.le_refl 0⟩, rfl, rfl⟩
  clientUnread := rfl
  clientWritten := rfl
  serving := rfl
  server := ⟨rfl, ⟨rfl, Nat.le_refl 0⟩, rfl, rfl⟩
  serverUnread := rfl
  serverWritten := rfl

theorem turn_answers {stream : Stream} {request : Message} {frame : Frame} (hs : s.InStep settings)
    (hrequest : ((settings.stack .builtin).decodeBytes stream.written).1.result = .ok request)
    (hleft : ((settings.stack .builtin).decodeBytes stream.written).2 = [])
    (hframe : (settings.stack .builtin).frameOf (nonces s.server.flushes)
      (respond settings request).result = .ok frame) :
    ∃ server, s.turn settings nonces stream =
        (stream.takeWritten.2.feed (frame.bytes settings.framing), server, .ok ()) ∧
      Ready settings (serverConnection settings server) ∧ server.unread = [] ∧
      server.written = [] := by
  let c := serverConnection settings (s.server.feed stream.written)
  have hready : Ready settings c := hs.server.feed stream.written
  have hunread : c.stream.unread = stream.written :=
    (hs.server.reads.unread_feed stream.written).trans
      (congrArg (· ++ stream.written) hs.serverUnread)
  rw [← hunread] at hrequest hleft
  obtain ⟨c', hserve, hready', hunread', hwritten'⟩ := serveWithin_one hready hrequest hleft hframe
  have hempty : c.stream.written = [] := hs.serverWritten
  rw [hempty, List.nil_append] at hwritten'
  let served := serveWithin settings nonces (c.stream.unread.length + 1) s.server.flushes c
  have hserved : served = (.ok (), c') := hserve
  have hturn : s.turn settings nonces stream =
      (stream.takeWritten.2.feed served.2.stream.written, served.2.stream.takeWritten.2,
        served.1) := by
    rw [turn, hs.serving]
    rfl
  rw [hturn, hserved, hwritten']
  exact ⟨c'.stream.takeWritten.2, rfl, ⟨rfl, hready'.reads, hready'.sink, hready'.flush⟩, hunread',
    rfl⟩

theorem call_answered {frame : Frame}
    (hserialization : settings.serialization.code = 1 ∨ settings.serialization.code = 2)
    (hcompression : settings.compression.code = 0 ∨ settings.compression.code = 1)
    (hs : s.InStep settings) (hlimit : call.WithinLimit settings)
    (hframe : (settings.stack .builtin).frameOf call.nonces (call.request settings) = .ok frame) :
    call.IsAnsweredBy (s.call settings nonces call).1 ∧
      (s.call settings nonces call).2.InStep settings := by
  obtain ⟨_, c₁, hsend, hready₁, hunread₁, hwrote₁⟩ := hs.client.send hframe
  have hwritten₁ := hwrote₁.written
  rw [hs.clientUnread] at hunread₁
  rw [hs.clientWritten, List.nil_append, List.flatten_singleton] at hwritten₁
  obtain ⟨hrequest, hleft⟩ := Settings.decodeBytes_frame hframe hlimit.1 []
  rw [List.append_nil, ← hwritten₁] at hrequest hleft
  obtain ⟨frame', hframe'⟩ := Call.exists_frameOf_response hserialization hcompression hframe
    (nonces s.server.flushes) frame.metadata.length
  obtain ⟨server, hturn, hserver, hserverUnread, hserverWritten⟩ :=
    turn_answers hs hrequest hleft hframe'
  obtain ⟨_, c₂, hreceive, hready₂, hunread₂, hwritten₂⟩ := hready₁.receiveAfter hunread₁ hturn
    hframe' (Call.length_respond_received_le hlimit frame.metadata.length)
  rw [← hs.same] at hsend
  rw [Session.call, Client.call_of_receiveAfter hsend hreceive]
  exact ⟨Call.conclude_isAnsweredBy hlimit _ _, hs.same, hready₂, hunread₂, hwritten₂, rfl,
    hserver, hserverUnread, hserverWritten⟩

theorem call_unsendable {e : WireError} (hs : s.InStep settings)
    (he : (settings.stack .builtin).frameOf call.nonces (call.request settings) = .error e) :
    s.call settings nonces call = (.error (.protocol e), s) := by
  rw [← hs.client.stack] at he
  obtain ⟨_, hsend⟩ := Connection.send_of_frameOf_error he
  rw [← hs.same] at hsend
  rw [Session.call, Client.call_of_send_error hsend]

theorem call_inStep (nonces : Nat → Nonces)
    (hserialization : settings.serialization.code = 1 ∨ settings.serialization.code = 2)
    (hcompression : settings.compression.code = 0 ∨ settings.compression.code = 1)
    (hs : s.InStep settings) (hlimit : call.WithinLimit settings) :
    (call.IsAnsweredBy (s.call settings nonces call).1 ∨
        call.IsUnsendable settings (s.call settings nonces call).1) ∧
      (s.call settings nonces call).2.InStep settings := by
  have hregistry : (settings.stack .builtin).registry = .builtin := rfl
  rcases Stack.frameOf_or_overflow (m := call.request settings) hregistry hserialization
    hcompression call.nonces with ⟨frame, hframe⟩ | ⟨segment, -, hlong, he⟩ | ⟨inner, -, hlong, he⟩
  · obtain ⟨hanswered, hs'⟩ := call_answered hserialization hcompression hs hlimit hframe
    exact ⟨Or.inl hanswered, hs'⟩
  · rw [call_unsendable hs he]
    exact ⟨Or.inr ⟨.metadata, segment.length, hlong, he, rfl⟩, hs⟩
  · rw [call_unsendable hs he]
    exact ⟨Or.inr ⟨.payload, inner.payload.length, hlong, he, rfl⟩, hs⟩

theorem run_inStep (nonces : Nat → Nonces) {calls : List Call}
    (hserialization : settings.serialization.code = 1 ∨ settings.serialization.code = 2)
    (hcompression : settings.compression.code = 0 ∨ settings.compression.code = 1)
    (hs : s.InStep settings) (hlimit : ∀ call ∈ calls, call.WithinLimit settings) :
    List.Forall₂ (fun (call : Call) answer =>
        call.IsAnsweredBy answer ∨ call.IsUnsendable settings answer)
      calls (s.run settings nonces calls).1 ∧
      (s.run settings nonces calls).2.InStep settings := by
  induction calls generalizing s with
  | nil => exact ⟨.nil, hs⟩
  | cons call calls ih =>
    obtain ⟨hanswer, hs'⟩ := call_inStep nonces hserialization hcompression hs
      (hlimit call List.mem_cons_self)
    obtain ⟨hanswers, hs''⟩ := ih hs' fun call hcall => hlimit call (List.mem_cons_of_mem _ hcall)
    exact ⟨.cons hanswer hanswers, hs''⟩

/-- Every call in a session gets its own answer, whatever the calls before it got: the result of
its operation, bit for bit, or the text that the method is unknown.  Only a call of which a
segment takes four gibibytes or more, which is more than a size field can say, is refused before
anything is sent, and that too leaves the ends in step.  -/
theorem run_answers (settings : Settings) (nonces : Nat → Nonces) (calls : List Call)
    (clientReads clientWrites serverReads serverWrites : List Delivery)
    (hserialization : settings.serialization.code = 1 ∨ settings.serialization.code = 2)
    (hcompression : settings.compression.code = 0 ∨ settings.compression.code = 1)
    (hlimit : ∀ call ∈ calls, call.WithinLimit settings) :
    ∃ answers s,
      (connect settings clientReads clientWrites serverReads serverWrites).run settings
          nonces calls =
        (answers, s) ∧
      List.Forall₂ (fun (call : Call) answer =>
        call.IsAnsweredBy answer ∨ call.IsUnsendable settings answer) calls answers ∧
      s.InStep settings := by
  obtain ⟨hanswers, hs⟩ := run_inStep nonces hserialization hcompression
    (connect_inStep settings clientReads clientWrites serverReads serverWrites) hlimit
  exact ⟨_, _, rfl, hanswers, hs⟩

def sampleCalls : List Call := [
  ⟨.ofCounter, 1, "Add", [.one, .negativeZero]⟩,
  ⟨.ofCounter, 2, "Div", [.one, .zero]⟩,
  ⟨.ofCounter, 2, "Mult", []⟩]

def sealedSettings : Settings where
  serialization := .binary
  compression := .gzip
  framing := .compact
  key := Cipher.Key.ofBytes? (List.replicate 32 9)
  limit := 100

theorem sampleCalls_short : ∀ call ∈ sampleCalls,
    (call.method.pack call.numbers).length ≤ Deflate.neverStored := by decide

theorem sampleCalls_sent : ∀ call ∈ sampleCalls, ∀ answer,
    ¬ call.IsUnsendable sealedSettings answer := by
  rintro call hcall answer ⟨overflowed, size, -, he, -⟩
  have hsegment : ∃ segment, (call.request sealedSettings).metadataSegment = .ok segment ∧
      segment.length < UInt32.size := by
    simp only [sampleCalls, List.mem_cons, List.not_mem_nil, or_false] at hcall
    rcases hcall with rfl | rfl | rfl <;> exact ⟨_, rfl, by decide⟩
  obtain ⟨segment, hsegment, hfits⟩ := hsegment
  obtain ⟨frame, hframe⟩ := Call.exists_frameOf_request (Or.inr rfl) (Or.inr rfl)
    (sampleCalls_short call hcall) hsegment hfits
  rw [hframe] at he
  cases he

theorem sampleCalls_withinLimit : ∀ call ∈ sampleCalls, call.WithinLimit sealedSettings := by
  intro call hcall
  exact ⟨(sampleCalls_short call hcall).trans (by decide),
    fun _ _ _ _ => (length_packResponse_le _).trans (by decide)⟩

theorem run_answers_sample :
    ((connect sealedSettings [.upTo 3] [.upTo 1] [.interrupted] [.upTo 0]).run sealedSettings
        (fun _ => .ofCounter) sampleCalls).1 =
      [.ok (Operation.add.compute [.one, .negativeZero]),
        .error (.remote "Unknown method `Div`"), .ok .one] := by
  obtain ⟨answers, s, hrun, hanswers, -⟩ := run_answers sealedSettings (fun _ => .ofCounter)
    sampleCalls [.upTo 3] [.upTo 1] [.interrupted] [.upTo 0] (Or.inr rfl) (Or.inr rfl)
    sampleCalls_withinLimit
  rw [hrun]
  obtain ⟨sum, _, hadd, hmore, rfl⟩ := List.forall₂_cons_left_iff.1 hanswers
  obtain ⟨refusal, _, hdiv, hlast, rfl⟩ := List.forall₂_cons_left_iff.1 hmore
  obtain ⟨product, _, hmult, hnone, rfl⟩ := List.forall₂_cons_left_iff.1 hlast
  obtain rfl := List.forall₂_nil_left_iff.1 hnone
  have hsum := (hadd.resolve_right (sampleCalls_sent _ (by simp [sampleCalls]) _)).1 .add rfl
  have hrefusal := (hdiv.resolve_right (sampleCalls_sent _ (by simp [sampleCalls]) _)).2
    (by intro op; cases op <;> decide)
  have hproduct := (hmult.resolve_right (sampleCalls_sent _ (by simp [sampleCalls]) _)).1 .mult rfl
  rw [hsum, hrefusal, hproduct]
  rfl

end Session

end Courier.Calculator
