import Courier.Calculator.Server
import Courier.Proofs.Exchange
/-!
# The server answers every request once and in order

A round of the server takes one request off the stream and writes one response
(`serveWithin_answers`); a run answers all requests up to the first failure to decode one, and
says of that failure whether it is the end of the stream (`serve_answers_all`).
-/

namespace Courier.Calculator

/-! ## Responses -/

namespace Operation

theorem ofName?_name (op : Operation) : ofName? op.name = some op := by
  cases op <;> decide

theorem ofName?_eq_none {method : String} (hmethod : ∀ op : Operation, method ≠ op.name) :
    ofName? method = none := by
  rw [ofName?, List.find?_eq_none]
  intro op _ hname
  exact hmethod op (of_decide_eq_true hname).symm

end Operation

/-- What a response says to a request: it fits the settings and the request's id, and carries either
the text of what is wrong with the request and no payload, or the result and no such text. -/
structure Answers (settings : Settings) (request response : Message) : Prop where
  isResponse : response.header.messageType = .response
  id : response.id = request.id
  version : response.header.version = settings.version
  serialization : response.header.serialization = settings.serialization
  compression : response.header.compression = settings.compression
  refused : ((∀ op : Operation, request.metadata.elim "" Metadata.methodName ≠ op.name) ∨
      ∃ e, unpackRequest request.payload = .error e) →
    (∃ error, error ≠ "" ∧ response.error? = some error) ∧ response.payload = []
  computed : ∀ (op : Operation) (numbers : List Binary64),
    request.metadata.elim "" Metadata.methodName = op.name →
    unpackRequest request.payload = .ok numbers →
      response.error? = none ∧ response.payload = packResponse (op.compute numbers) ∧
        response.metadata = some { serviceName, methodName := op.name }

variable {settings : Settings} {request : Message}

theorem methodOf_eq (request : Message) :
    methodOf request = request.metadata.elim "" Metadata.methodName := by
  unfold methodOf Message.methodName?
  cases request.metadata <;> rfl

theorem exists_fault_of_unpackRequest {payload : Bytes} {e : TransportError}
    (he : unpackRequest payload = .error e) :
    ∃ fault : Columnar.Fault, e = ⟨.invalidData, some fault.message⟩ := by
  unfold unpackRequest unpack at he
  cases hread : requestReader.complete payload with
  | ok numbers =>
    rw [hread] at he
    cases he
  | error fault =>
    rw [hread] at he
    cases he
    exact ⟨fault, rfl⟩

theorem message_ne_empty_of_unpackRequest {payload : Bytes} {e : TransportError}
    (he : unpackRequest payload = .error e) : e.message ≠ "" := by
  obtain ⟨fault, rfl⟩ := exists_fault_of_unpackRequest he
  cases fault <;> decide

theorem respond_of_error {error : String}
    (houtcome : outcome (methodOf request) request.payload = .error error) :
    (respond settings request).result =
      ⟨settings.responseHeader request.id, some (Metadata.withError {} error), []⟩ := by
  unfold respond
  simp only [houtcome]

theorem respond_of_ok {payload : Bytes}
    (houtcome : outcome (methodOf request) request.payload = .ok payload) :
    (respond settings request).result =
      ⟨settings.responseHeader request.id,
        some { serviceName, methodName := methodOf request }, payload⟩ := by
  unfold respond
  simp only [houtcome]

theorem outcome_unknown {method : String} (hmethod : ∀ op : Operation, method ≠ op.name)
    (payload : Bytes) :
    outcome method payload = .error ("Unknown method `" ++ method ++ "`") := by
  rw [outcome, Operation.ofName?_eq_none hmethod]

theorem outcome_known {op : Operation} {payload : Bytes} {numbers : List Binary64}
    (hnumbers : unpackRequest payload = .ok numbers) :
    outcome op.name payload = .ok (packResponse (op.compute numbers)) := by
  rw [outcome, op.ofName?_name]
  simp only [hnumbers]

theorem outcome_undecoded {op : Operation} {payload : Bytes} {e : TransportError}
    (he : unpackRequest payload = .error e) : outcome op.name payload = .error e.message := by
  rw [outcome, op.ofName?_name]
  simp only [he]

theorem error?_of_withError {header : Header} {error : String} {payload : Bytes}
    (herror : error ≠ "") :
    (Message.mk header (some (Metadata.withError {} error)) payload).error? = some error := by
  simp [Message.error?, Metadata.withError, Metadata.isError, Option.filter, herror]

theorem respond_refused {error : String} (herror : error ≠ "")
    (houtcome : outcome (methodOf request) request.payload = .error error) :
    (∃ error, error ≠ "" ∧ (respond settings request).result.error? = some error) ∧
      (respond settings request).result.payload = [] := by
  rw [respond_of_error houtcome]
  exact ⟨⟨error, herror, error?_of_withError herror⟩, rfl⟩

theorem respond_header (settings : Settings) (request : Message) :
    (respond settings request).result.header = settings.responseHeader request.id := by
  unfold respond
  simp only
  split <;> rfl

theorem respond_answers (settings : Settings) (request : Message) :
    Answers settings request (respond settings request).result where
  isResponse := by rw [respond_header]; rfl
  id := by rw [Message.id, respond_header]; rfl
  version := by rw [respond_header]; rfl
  serialization := by rw [respond_header]; rfl
  compression := by rw [respond_header]; rfl
  refused := by
    rw [← methodOf_eq]
    rintro (hmethod | ⟨e, he⟩)
    · exact respond_refused (by simp) (outcome_unknown hmethod _)
    · by_cases hmethod : ∃ op : Operation, methodOf request = op.name
      · obtain ⟨op, hop⟩ := hmethod
        refine respond_refused (message_ne_empty_of_unpackRequest he) ?_
        rw [hop, outcome_undecoded he]
      · push Not at hmethod
        exact respond_refused (by simp) (outcome_unknown hmethod _)
  computed := by
    intro op numbers hop hnumbers
    rw [← methodOf_eq] at hop
    have houtcome : outcome (methodOf request) request.payload =
        .ok (packResponse (op.compute numbers)) := by
      rw [hop]
      exact outcome_known hnumbers
    rw [respond_of_ok houtcome, hop]
    exact ⟨rfl, rfl, rfl⟩

theorem length_respond_le (settings : Settings) (request : Message) :
    (respond settings request).result.payload.length ≤ 9 := by
  cases houtcome : outcome (methodOf request) request.payload with
  | error error =>
    rw [respond_of_error houtcome]
    exact Nat.zero_le 9
  | ok payload =>
    rw [respond_of_ok houtcome]
    unfold outcome at houtcome
    split at houtcome
    · cases houtcome
    · split at houtcome
      · cases houtcome
      · cases houtcome
        exact length_packResponse_le _

/-- A response is framed unless its metadata are too long for their size field. -/
theorem frameOf_respond
    (hserialization : settings.serialization.code = 1 ∨ settings.serialization.code = 2)
    (hcompression : settings.compression.code = 0 ∨ settings.compression.code = 1)
    (nonces : Nonces) (request : Message) :
    (∃ frame, (settings.stack .builtin).frameOf nonces (respond settings request).result =
      .ok frame) ∨
    ∃ segment, (respond settings request).result.metadataSegment = .ok segment ∧
      UInt32.size ≤ segment.length ∧
      (settings.stack .builtin).frameOf nonces (respond settings request).result =
        .error (.sizeOverflow .metadata segment.length) := by
  have hpayload := length_respond_le settings request
  have hheader := respond_header settings request
  have hs : (respond settings request).result.header.serialization = settings.serialization := by
    rw [hheader]
    rfl
  have hc : (respond settings request).result.header.compression = settings.compression := by
    rw [hheader]
    rfl
  rw [← hs] at hserialization
  rw [← hc] at hcompression
  have hregistry : (settings.stack .builtin).registry = .builtin := rfl
  rcases Stack.frameOf_or_overflow hregistry hserialization hcompression nonces with
    hframe | hmetadata | ⟨inner, hwrap, hlong, -⟩
  · exact Or.inl hframe
  · exact Or.inr hmetadata
  · have hshort := Settings.length_wrapAll_le (hpayload.trans (by decide)) hwrap
    have hsize : 141 < UInt32.size := by decide
    omega

/-! ## One round -/

def ends : Nat → List Bytes → List Nat
  | _, [] => []
  | place, wire :: wires => (place + wire.length) :: ends (place + wire.length) wires

theorem ends_append (place : Nat) (wires wires' : List Bytes) :
    ends place (wires ++ wires') =
      ends place wires ++ ends (place + wires.flatten.length) wires' := by
  induction wires generalizing place with
  | nil => rfl
  | cons wire wires ih =>
    simp only [List.cons_append, ends, ih, List.flatten_cons, List.length_append, Nat.add_assoc]

theorem length_ends (place : Nat) (wires : List Bytes) :
    (ends place wires).length = wires.length := by
  induction wires generalizing place with
  | nil => rfl
  | cons wire wires ih => rw [ends, List.length_cons, ih, List.length_cons]

/-- From one state of a stream to the other the given byte strings were written, with a flush behind
each of them and no other. -/
structure Wrote (s s' : Stream) (wires : List Bytes) : Prop where
  written : s'.written = s.written ++ wires.flatten
  position : s'.sink.position = s.sink.position + wires.flatten.length
  flushedAt : s'.flushedAt = s.flushedAt ++ ends s.sink.position wires

theorem Wrote.nil {s s' : Stream} (hsink : s'.sink = s.sink)
    (hflushed : s'.flushedAt = s.flushedAt) :
    Wrote s s' [] where
  written := by rw [Stream.written, hsink, List.flatten_nil, List.append_nil]; rfl
  position := by rw [hsink]; rfl
  flushedAt := by rw [hflushed, ends, List.append_nil]

theorem Wrote.append {s s' s'' : Stream} {wires wires' : List Bytes} (h : Wrote s s' wires)
    (h' : Wrote s' s'' wires') : Wrote s s'' (wires ++ wires') where
  written := by rw [h'.written, h.written, List.flatten_append, List.append_assoc]
  position := by
    rw [h'.position, h.position, List.flatten_append, List.length_append, Nat.add_assoc]
  flushedAt := by
    rw [h'.flushedAt, h.flushedAt, h.position, ends_append, List.append_assoc]

/-- The connection of a server that nothing keeps from reading and writing. -/
structure Ready (settings : Settings) (c : Connection) : Prop where
  stack : c.stack = settings.stack .builtin
  reads : c.CanRead
  sink : c.stream.sink.failure = none
  flush : c.stream.flushFailure = none

variable {nonces : Nat → Nonces} {rounds answered : Nat} {c : Connection}

theorem Ready.receive {result : Except WireError Message} (hc : Ready settings c)
    (hresult : ((settings.stack .builtin).decodeBytes c.stream.unread).1.result = result) :
    ∃ log c', c.receive = (⟨result, log⟩, c') ∧ Ready settings c' ∧
      c'.stream.unread = ((settings.stack .builtin).decodeBytes c.stream.unread).2 ∧
      Wrote c.stream c'.stream [] := by
  obtain ⟨c', hreceive, hreads, hstack, hunread⟩ := Connection.receive_eq hc.reads
  obtain rfl : c' = c.receive.2 := by rw [hreceive]
  rw [hc.stack] at hreceive hunread
  refine ⟨((settings.stack .builtin).decodeBytes c.stream.unread).1.log, _, ?_,
    ⟨hstack.trans hc.stack, hreads, hc.sink, hc.flush⟩, hunread, .nil rfl rfl⟩
  rw [hreceive, ← hresult]

theorem Ready.send {m : Message} {frame : Frame} {nonces : Nonces} (hc : Ready settings c)
    (hframe : (settings.stack .builtin).frameOf nonces m = .ok frame) :
    ∃ log c', c.send nonces m = (⟨.ok (), log⟩, c') ∧ Ready settings c' ∧
      c'.stream.unread = c.stream.unread ∧
      Wrote c.stream c'.stream [frame.bytes settings.framing] := by
  have hframe' : c.stack.frameOf nonces m = .ok frame := by
    rw [hc.stack]
    exact hframe
  obtain ⟨log, sink, hsend, haccepted, hposition, hfailure⟩ :=
    Connection.send_of_frameOf hframe' hc.sink hc.flush
  rw [hc.stack] at haccepted hposition
  refine ⟨log, _, hsend, ⟨hc.stack, hc.reads, hfailure.trans hc.sink, hc.flush⟩, rfl, ?_, ?_, ?_⟩
  · rw [List.flatten_singleton]
    exact haccepted
  · rw [List.flatten_singleton]
    exact hposition
  · exact congrArg (fun place => c.stream.flushedAt ++ [place]) hposition

theorem serveWithin_ends {e : WireError} (hc : Ready settings c)
    (he : ((settings.stack .builtin).decodeBytes c.stream.unread).1.result = .error e) :
    ∃ c', serveWithin settings nonces (rounds + 1) answered c =
        (if e.isUnexpectedEof then .ok () else .error e, c') ∧ Ready settings c' ∧
      c'.stream.unread = ((settings.stack .builtin).decodeBytes c.stream.unread).2 ∧
      Wrote c.stream c'.stream [] := by
  obtain ⟨log, c', hreceive, hready, hunread, hwrote⟩ := hc.receive he
  refine ⟨c', ?_, hready, hunread, hwrote⟩
  rw [serveWithin, hreceive]

theorem serveWithin_refuses {request : Message} {e : WireError} (hc : Ready settings c)
    (hrequest : ((settings.stack .builtin).decodeBytes c.stream.unread).1.result = .ok request)
    (he : (settings.stack .builtin).frameOf (nonces answered) (respond settings request).result =
      .error e) :
    ∃ c', serveWithin settings nonces (rounds + 1) answered c = (.error e, c') ∧
      Wrote c.stream c'.stream [] := by
  obtain ⟨log, c', hreceive, hready, -, hwrote⟩ := hc.receive hrequest
  rw [← hready.stack] at he
  obtain ⟨sent, hsend⟩ := Connection.send_of_frameOf_error he
  refine ⟨c', ?_, hwrote⟩
  rw [serveWithin, hreceive]
  simp only [hsend]

theorem serveWithin_answers {request : Message} {frame : Frame} (hc : Ready settings c)
    (hrequest : ((settings.stack .builtin).decodeBytes c.stream.unread).1.result = .ok request)
    (hframe : (settings.stack .builtin).frameOf (nonces answered)
      (respond settings request).result = .ok frame) :
    ∃ c', serveWithin settings nonces (rounds + 1) answered c =
        serveWithin settings nonces rounds (answered + 1) c' ∧ Ready settings c' ∧
      c'.stream.unread = ((settings.stack .builtin).decodeBytes c.stream.unread).2 ∧
      Wrote c.stream c'.stream [frame.bytes settings.framing] := by
  obtain ⟨log, c₁, hreceive, hready, hunread, hwrote⟩ := hc.receive hrequest
  obtain ⟨sent, c', hsend, hready', hunread', hwrote'⟩ := hready.send hframe
  refine ⟨c', ?_, hready', hunread'.trans hunread, hwrote.append hwrote'⟩
  rw [serveWithin, hreceive]
  simp only [hsend]

/-! ## A run -/

/-- Requests that are taken off a byte string and answered one after another: the requests, the
frames of their responses, and the bytes behind the requests. -/
inductive Serves (settings : Settings) (nonces : Nat → Nonces) :
    (answered : Nat) → Bytes → List Message → List Frame → Bytes → Prop
  | nil (answered : Nat) (bytes : Bytes) : Serves settings nonces answered bytes [] [] bytes
  | cons {answered : Nat} {bytes rest : Bytes} {request : Message} {requests : List Message}
      {frame : Frame} {frames : List Frame}
      (hrequest : ((settings.stack .builtin).decodeBytes bytes).1.result = .ok request)
      (hframe : (settings.stack .builtin).frameOf (nonces answered)
        (respond settings request).result = .ok frame)
      (hrest : Serves settings nonces (answered + 1) ((settings.stack .builtin).decodeBytes bytes).2
        requests frames rest) :
      Serves settings nonces answered bytes (request :: requests) (frame :: frames) rest

variable {bytes rest : Bytes} {requests : List Message} {frames : List Frame}

theorem Serves.decodes (h : Serves settings nonces answered bytes requests frames rest) :
    (settings.stack .builtin).Decodes bytes requests rest := by
  induction h with
  | nil answered bytes => exact .nil bytes
  | cons hrequest _ _ ih => exact .cons hrequest ih

def ReadsBack (settings : Settings) (request read : Message) : Prop :=
  ∃ segment, (respond settings request).result.metadataSegment = .ok segment ∧
    read = (respond settings request).result.delivered segment.length

theorem Serves.wires (h : Serves settings nonces answered bytes requests frames rest) :
    List.Forall₂ (fun (request : Message × Nat) wire =>
        ((settings.stack .builtin).encodeToBytes (nonces request.2)
          (respond settings request.1).result).result = .ok wire)
      (requests.zipIdx answered) (frames.map (·.bytes settings.framing)) := by
  induction h with
  | nil answered bytes => exact .nil
  | cons _ hframe _ ih => exact .cons (Stack.encodeToBytes_eq_ok_iff.2 ⟨_, hframe, rfl⟩) ih

/-- A run goes on as long as a request can be decoded and its response framed. -/
theorem serveWithin_serves (nonces : Nat → Nonces) (answered : Nat) (hc : Ready settings c)
    (hrounds : c.stream.unread.length < rounds) :
    ∃ requests frames rest c',
      Serves settings nonces answered c.stream.unread requests frames rest ∧
      Wrote c.stream c'.stream (frames.map (·.bytes settings.framing)) ∧
      ((∃ e, ((settings.stack .builtin).decodeBytes rest).1.result = .error e ∧
          serveWithin settings nonces rounds answered c =
            (if e.isUnexpectedEof then .ok () else .error e, c') ∧
          Ready settings c' ∧
          c'.stream.unread = ((settings.stack .builtin).decodeBytes rest).2) ∨
        ∃ request e, ((settings.stack .builtin).decodeBytes rest).1.result = .ok request ∧
          (settings.stack .builtin).frameOf (nonces (answered + requests.length))
            (respond settings request).result = .error e ∧
          serveWithin settings nonces rounds answered c = (.error e, c')) := by
  induction rounds generalizing answered c with
  | zero => exact absurd hrounds (Nat.not_lt_zero _)
  | succ rounds ih =>
    cases hdecode : ((settings.stack .builtin).decodeBytes c.stream.unread).1.result with
    | error e =>
      obtain ⟨c', hserve, hready, hunread, hwrote⟩ := serveWithin_ends hc hdecode
      exact ⟨[], [], c.stream.unread, c', .nil _ _, hwrote,
        Or.inl ⟨e, hdecode, hserve, hready, hunread⟩⟩
    | ok request =>
      -- A request takes bytes, so that the rounds do not run out before the stream does.
      have hless := Stack.length_decodeBytes_lt hdecode
      cases hframe : (settings.stack .builtin).frameOf (nonces answered)
          (respond settings request).result with
      | error e =>
        obtain ⟨c', hserve, hwrote⟩ := serveWithin_refuses hc hdecode hframe
        exact ⟨[], [], c.stream.unread, c', .nil _ _, hwrote,
          Or.inr ⟨request, e, hdecode, hframe, hserve⟩⟩
      | ok frame =>
        obtain ⟨c₁, hserve, hready, hunread, hwrote⟩ := serveWithin_answers hc hdecode hframe
        obtain ⟨requests, frames, rest, c', hserves, hwrote', hend⟩ :=
          ih (answered + 1) hready (by rw [hunread]; omega)
        rw [hunread] at hserves
        refine ⟨request :: requests, frame :: frames, rest, c', .cons hdecode hframe hserves,
          hwrote.append hwrote', ?_⟩
        rw [hserve, List.length_cons, show answered + (requests.length + 1) =
          answered + 1 + requests.length by omega]
        exact hend

theorem Serves.responses (h : Serves settings nonces answered bytes requests frames rest)
    (hlimit : ∀ request ∈ requests,
      (respond settings request).result.payload.length ≤ settings.limit.toNat) :
    ∃ responses, List.Forall₂ (ReadsBack settings) requests responses ∧
      (settings.stack .builtin).Decodes (frames.flatMap (·.bytes settings.framing)) responses
        [] := by
  induction h with
  | nil answered bytes => exact ⟨[], .nil, .nil []⟩
  | @cons answered bytes rest request requests frame frames hrequest hframe hrest ih =>
    obtain ⟨responses, hresponses, hdecodes⟩ := ih fun q hq => hlimit q (List.mem_cons_of_mem _ hq)
    have hsegment := Stack.metadataSegment_of_frameOf rfl hframe
    obtain ⟨hread, hleft⟩ := Settings.decodeBytes_frame hframe (hlimit request List.mem_cons_self)
      (frames.flatMap (·.bytes settings.framing))
    refine ⟨_, .cons ⟨frame.metadata, hsegment, rfl⟩ hresponses, ?_⟩
    rw [List.flatMap_cons]
    refine .cons hread ?_
    rw [hleft]
    exact hdecodes

/-- The server answers the requests on the stream one by one, in order, and stops at the first
failure to decode one, which is none of its own if it is the end of the stream.  The stream is
flushed behind every response, and each is read back as it was sent if the limit holds its
payload.  Only a response whose metadata would take four gibibytes or more, which is more than a
size field can say, stops it before.  -/
theorem serve_answers_all (settings : Settings) (nonces : Nat → Nonces) (inbound : Bytes)
    (reads writes : List Delivery)
    (hserialization : settings.serialization.code = 1 ∨ settings.serialization.code = 2)
    (hcompression : settings.compression.code = 0 ∨ settings.compression.code = 1) :
    ∃ requests rest e served stream,
      serve settings nonces { inbound, deliveries := reads, sink := { schedule := writes } } =
        (served, stream) ∧
      (settings.stack .builtin).Decodes inbound requests rest ∧
      ((settings.stack .builtin).decodeBytes rest).1.result = .error e ∧
      (∀ request, Answers settings request (respond settings request).result) ∧
      ∃ answered, answered <+: requests ∧ stream.flushes = answered.length ∧
        (∃ wires, List.Forall₂ (fun (request : Message × Nat) wire =>
            ((settings.stack .builtin).encodeToBytes (nonces request.2)
              (respond settings request.1).result).result = .ok wire) answered.zipIdx wires ∧
          stream.written = wires.flatten ∧ stream.flushedAt = ends 0 wires) ∧
        ((∀ request ∈ answered,
            (respond settings request).result.payload.length ≤ settings.limit.toNat) →
          ∃ responses, List.Forall₂ (ReadsBack settings) answered responses ∧
            (settings.stack .builtin).Decodes stream.written responses []) ∧
        ((answered = requests ∧ served = if e.isUnexpectedEof then .ok () else .error e) ∨
          ∃ request segment, answered ++ [request] <+: requests ∧
            (respond settings request).result.metadataSegment = .ok segment ∧
            UInt32.size ≤ segment.length ∧
            served = .error (.sizeOverflow .metadata segment.length)) := by
  let c : Connection := {
    stream := { inbound, deliveries := reads, sink := { schedule := writes } }
    stack := settings.stack .builtin }
  have hready : Ready settings c := ⟨rfl, ⟨rfl, Nat.zero_le _⟩, rfl, rfl⟩
  obtain ⟨answered, frames, rest, c', hserves, hwrote, hend⟩ :=
    serveWithin_serves nonces 0 hready (Nat.lt_succ_self c.stream.unread.length)
  have hserve : serve settings nonces c.stream =
      ((serveWithin settings nonces (c.stream.unread.length + 1) 0 c).1,
        (serveWithin settings nonces (c.stream.unread.length + 1) 0 c).2.stream) := rfl
  have hwritten : c'.stream.written = (frames.map (·.bytes settings.framing)).flatten :=
    hwrote.written
  have hflushed : c'.stream.flushedAt = ends 0 (frames.map (·.bytes settings.framing)) :=
    hwrote.flushedAt
  have hwires := hserves.wires
  have hreadback : (∀ request ∈ answered,
      (respond settings request).result.payload.length ≤ settings.limit.toNat) →
      ∃ responses, List.Forall₂ (ReadsBack settings) answered responses ∧
        (settings.stack .builtin).Decodes c'.stream.written responses [] := by
    intro hlimit
    rw [hwritten, ← List.flatMap_def]
    exact hserves.responses hlimit
  have hcount : c'.stream.flushes = answered.length := by
    rw [Stream.flushes, hflushed, length_ends, ← hwires.length_eq, List.length_zipIdx]
  rcases hend with ⟨e, he, hresult, -, -⟩ | ⟨request, e, hrequest, hframe, hresult⟩
  · refine ⟨answered, rest, e, _, _, hserve, hserves.decodes, he, respond_answers settings,
      answered, List.prefix_rfl, ?_⟩
    rw [hresult]
    exact ⟨hcount, ⟨_, hwires, hwritten, hflushed⟩, hreadback, Or.inl ⟨rfl, rfl⟩⟩
  · obtain ⟨later, rest', e', hlater, he'⟩ :=
      (settings.stack .builtin).exists_decodes ((settings.stack .builtin).decodeBytes rest).2
    refine ⟨answered ++ request :: later, rest', e', _, _, hserve,
      hserves.decodes.append (.cons hrequest hlater), he', respond_answers settings, answered,
      List.prefix_append _ _, ?_⟩
    rw [hresult]
    refine ⟨hcount, ⟨_, hwires, hwritten, hflushed⟩, hreadback, Or.inr ⟨request, ?_⟩⟩
    rcases frameOf_respond hserialization hcompression (nonces (0 + answered.length)) request with
      ⟨frame, hframed⟩ | ⟨segment, hsegment, hlong, hoverflow⟩
    · rw [hframe] at hframed
      cases hframed
    · rw [hframe] at hoverflow
      cases hoverflow
      refine ⟨segment, ⟨later, ?_⟩, hsegment, hlong, rfl⟩
      rw [List.append_assoc, List.singleton_append]

def unnamedSettings : Settings where
  serialization := .custom 2
  compression := .other 0
  limit := 9

def bareRequest : Message where
  header := Header.new .request .binary 7
  metadata := none
  payload := []

def bareStream : Stream where
  inbound := bareRequest.header.bytes ++ [0x3F]
  deliveries := [.interrupted, .upTo 4]
  sink := { schedule := [.upTo 0] }

theorem bareStream_decodes :
    (unnamedSettings.stack .builtin).Decodes bareStream.inbound [bareRequest] [0x3F] :=
  .cons rfl (.nil _)

theorem serve_answers_all_bare :
    ∃ stream read, serve unnamedSettings (fun _ => .ofCounter) bareStream = (.ok (), stream) ∧
      stream.flushes = 1 ∧ ReadsBack unnamedSettings bareRequest read ∧
      (unnamedSettings.stack .builtin).Decodes stream.written [read] [] := by
  obtain ⟨requests, rest, e, served, stream, hserve, hdecodes, he, -, answered, hprefix, hcount,
    -, hread, hend⟩ := serve_answers_all unnamedSettings (fun _ => .ofCounter) bareStream.inbound
    bareStream.deliveries bareStream.sink.schedule (Or.inr rfl) (Or.inl rfl)
  have hpartial : ((unnamedSettings.stack .builtin).decodeBytes [0x3F]).1.result =
      .error (.transport .header (Intake.shortage .header 2 1)) := rfl
  obtain ⟨rfl, rfl⟩ := hdecodes.unique he bareStream_decodes hpartial
  rcases hend with ⟨rfl, hserved⟩ | ⟨request, segment, hlonger, hsegment, hlong, -⟩
  · obtain ⟨responses, hresponses, hwritten⟩ :=
      hread fun request _ => length_respond_le unnamedSettings request
    obtain ⟨read, responses, hreads, hnone, rfl⟩ := List.forall₂_cons_left_iff.1 hresponses
    obtain rfl := List.forall₂_nil_left_iff.1 hnone
    rw [hpartial] at he
    cases he
    have hok : served = .ok () := hserved
    rw [hok] at hserve
    exact ⟨stream, read, hserve, hcount, hreads, hwritten⟩
  · obtain ⟨later, hall⟩ := hlonger
    have hbare : request = bareRequest := by
      cases answered with
      | nil => exact (List.cons.inj hall).1
      | cons first more => simp at hall
    have hwritten : (respond unnamedSettings bareRequest).result.metadataSegment =
        .ok (Metadata.withError {} "Unknown method ``").pack := rfl
    rw [hbare, hwritten] at hsegment
    cases hsegment
    exact absurd hlong (by decide)

end Courier.Calculator
