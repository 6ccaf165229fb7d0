import Deltabase.Network.NetServer
import Mathlib.Data.Prod.Lex

/-!
# Which requests reach their handler

While a stream of results is being sent, a second thread reads from the same
socket, and it goes on reading when the stream has ended: `handle_stream` waits
for it. So the first message after a query that was streamed is received by that
thread, which drops it unless it is the cancellation of the stream.

`Reader` says who will receive the next message, and `Unhindered` that no
request of a list of messages is received by anybody but the loop that
dispatches requests, nor waits for a call of the engine that does not return. Of
an unhindered list every request that is sent reaches its handler, once, and is
answered, whatever the order in which the client and the threads take their steps
(`requests_handled`).
-/

namespace Connection

open StdNetProtocol NetServer

/-- `QUERY`, `CREATE_DB` and `ATTACH_DB`. -/
def isRequest : NetMessage → Bool
  | .query .. => true
  | .createDb .. => true
  | .attachDb .. => true
  | _ => false

/-- **Who receives the next message.** -/
inductive Reader (E : Type) where
  /-- `handle_message`, with the sessions there are. -/
  | main (sessions : UUID → Option E)
  /-- The `cancel_thread` of a stream of a session. -/
  | cancelOf (sessionId : UUID) (sessions : UUID → Option E)
  /-- Nobody: the connection is closed. -/
  | nobody
  /-- There is no next message: the client does not get the response to the last
  one. -/
  | unanswered

variable {E : Type} (api : EngineApi E)

/-- Who receives the message after `m`, which `handle_message` receives. -/
def nextReader (sessions : UUID → Option E) (m : NetMessage) : Reader E :=
  if (encode m).length > maxIncomingLen then .unanswered
  else match m with
    | .query sessionId _ query =>
      match sessions sessionId with
      | none => .nobody
      | some engine =>
        match api.executeQuery engine query with
        | none => .unanswered
        | some (_, .error _) => .nobody
        | some (engine, .ok result) =>
          if result.throws then .unanswered
          else .cancelOf sessionId (Function.update sessions sessionId (some engine))
    | .createDb sessionId _ dbName =>
      match sessions sessionId with
      | none => .nobody
      | some engine =>
        match api.createDb engine dbName with
        | none => .unanswered
        | some (_, .error _) => .nobody
        | some (engine, .ok _) => .main (Function.update sessions sessionId (some engine))
    | .attachDb sessionId _ dbName =>
      match sessions sessionId with
      | none => .nobody
      | some engine =>
        match api.attachDb engine dbName with
        | none => .unanswered
        | some (_, .error _) => .nobody
        | some (engine, .ok _) => .main (Function.update sessions sessionId (some engine))
    | _ => .nobody

/-- The cancellation of a stream of the session. -/
def isCancelOf (sessionId : UUID) : NetMessage → Bool
  | .cancelStream id _ => id == sessionId
  | _ => false

/-- The call of the engine that a message asks for returns or throws. -/
def returns (sessions : UUID → Option E) : NetMessage → Bool
  | .query sessionId _ query =>
    (sessions sessionId).all fun engine => (api.executeQuery engine query).isSome
  | .createDb sessionId _ dbName =>
    (sessions sessionId).all fun engine => (api.createDb engine dbName).isSome
  | .attachDb sessionId _ dbName =>
    (sessions sessionId).all fun engine => (api.attachDb engine dbName).isSome
  | _ => true

/-- **No request is kept from its handler, and none is kept there**: none directly
follows a query whose result is streamed, none comes after the connection has been
closed, none is too long to be received, and the call of the engine that it asks for
returns or throws. -/
def Unhindered : Reader E → List NetMessage → Prop
  | _, [] => True
  | .main sessions, m :: ms =>
    (isRequest m → (encode m).length ≤ maxIncomingLen ∧ returns api sessions m)
      ∧ Unhindered (nextReader api sessions m) ms
  | .cancelOf sessionId sessions, m :: ms =>
    isRequest m = false
      ∧ Unhindered (if isCancelOf sessionId m then .main sessions else .unanswered) ms
  | .nobody, m :: ms => isRequest m = false ∧ Unhindered .nobody ms
  | .unanswered, _ :: _ => True

/-- Whether the messages are unhindered can be told by running the engine. -/
instance decidableUnhindered :
    (reader : Reader E) → (ms : List NetMessage) → Decidable (Unhindered api reader ms)
  | .main _, [] => .isTrue trivial
  | .cancelOf _ _, [] => .isTrue trivial
  | .nobody, [] => .isTrue trivial
  | .unanswered, [] => .isTrue trivial
  | .main sessions, m :: ms =>
    have := decidableUnhindered (nextReader api sessions m) ms
    inferInstanceAs (Decidable
      ((isRequest m → (encode m).length ≤ maxIncomingLen ∧ returns api sessions m)
        ∧ Unhindered api (nextReader api sessions m) ms))
  | .cancelOf sessionId sessions, m :: ms =>
    have := decidableUnhindered
      (if isCancelOf sessionId m then .main sessions else .unanswered) ms
    inferInstanceAs (Decidable (isRequest m = false
      ∧ Unhindered api (if isCancelOf sessionId m then .main sessions else .unanswered) ms))
  | .nobody, m :: ms =>
    have := decidableUnhindered .nobody ms
    inferInstanceAs (Decidable (isRequest m = false ∧ Unhindered api .nobody ms))
  | .unanswered, _ :: _ => .isTrue trivial

/-! ## What the handlers do -/

/-- A `PONG` that carries a request id. -/
def isAnswer (requestId : Int32) : NetMessage → Bool := isPong requestId fun _ => true

/-- The request among a message. -/
def request (m : NetMessage) : List NetMessage := [m].filter isRequest

/-- **What `handle_message` has done with a message**, by who receives the
next. -/
inductive Dispatched (server : NetServer E) (m : NetMessage) (after : NetServer E) :
    Reader E → Prop
  | main (answer : NetMessage) (hmode : after.mode = .reading)
      (hframes : after.frames = server.frames ++ [answer])
      (hanswer : isAnswer m.requestId answer = true) :
      Dispatched server m after (.main after.sessions)
  | nobody (answers : List NetMessage) (hmode : after.mode = .stopped)
      (hframes : after.frames = server.frames ++ answers)
      (hanswer : isRequest m = true → answers.any (isAnswer m.requestId) = true) :
      Dispatched server m after .nobody
  | stream (sessionId : UUID) (requestId : Int32) (query : Bytes) (result : QueryResult)
      (hm : m = .query sessionId requestId query)
      (hmode : after.mode = .streaming { sessionId, requestId, stream := .starting result })
      (hframes : after.frames = server.frames) :
      Dispatched server m after
        (if result.throws then .unanswered else .cancelOf sessionId after.sessions)

theorem isAnswer_pong (sessionId : UUID) (err : NetErrorCode) (requestId : Int32)
    (payload : Bytes) : isAnswer requestId (.pong sessionId err requestId payload) = true := by
  simp [isAnswer, isPong]

/-- An answer that ends the connection. -/
theorem dispatched_sendPongAndStop {server s : NetServer E} {m : NetMessage} (sessionId : UUID)
    (err : NetErrorCode) (error : Bytes) (hframes : s.frames = server.frames) :
    Dispatched server m (s.sendPongAndStop sessionId err m.requestId error) .nobody := by
  refine .nobody
    [.pong sessionId err m.requestId (if error ≠ [] ∧ err ≠ .success then error else [])] rfl ?_
    fun _ => ?_
  · show s.frames ++ _ = server.frames ++ _
    rw [hframes]
  · rw [List.any_cons, isAnswer_pong, Bool.true_or]

/-- An answer after which the next message is read. -/
theorem dispatched_sendSuccess {server s : NetServer E} {m : NetMessage} (sessionId : UUID)
    (hmode : s.mode = .reading) (hframes : s.frames = server.frames) :
    Dispatched server m (s.sendSuccess sessionId m.requestId) (.main s.sessions) := by
  refine .main (.pong sessionId .success m.requestId []) hmode ?_ (isAnswer_pong _ _ _ _)
  show s.frames ++ _ = server.frames ++ _
  rw [hframes]

/-- **The cases of `handle_message`.** -/
theorem dispatched_dispatch {server : NetServer E} (hmode : server.mode = .reading)
    {m : NetMessage} (hlen : (encode m).length ≤ maxIncomingLen)
    (hreturns : isRequest m = true → returns api server.sessions m = true) :
    Dispatched server m (server.dispatch api m) (nextReader api server.sessions m) := by
  unfold nextReader
  rw [if_neg (Nat.not_lt.mpr hlen)]
  cases m with
  | ping requestId => exact dispatched_sendPongAndStop _ _ _ rfl
  | pong sessionId err requestId payload => exact dispatched_sendPongAndStop _ _ _ rfl
  | cancelStream sessionId requestId => exact dispatched_sendPongAndStop _ _ _ rfl
  | close sessionId requestId =>
    show Dispatched server _ (server.handleCloseMessage sessionId requestId) .nobody
    unfold handleCloseMessage
    cases server.sessions sessionId with
    | none => exact dispatched_sendPongAndStop _ _ _ rfl
    | some engine =>
      refine .nobody [] rfl ?_ fun h => ?_
      · exact (List.append_nil _).symm
      · cases h
  | query sessionId requestId query =>
    cases hs : server.sessions sessionId with
    | none =>
      simp only [dispatch, handleQueryMessage, note_sessions, hs]
      exact dispatched_sendPongAndStop _ _ _ rfl
    | some engine =>
      rcases hcall : api.executeQuery engine query with - | ⟨engine', what | result⟩ <;>
        simp only [dispatch, handleQueryMessage, note_sessions, hs, hcall]
      · exact absurd (hreturns rfl) (by simp [returns, hs, hcall])
      · exact dispatched_sendPongAndStop _ _ _ rfl
      · exact .stream sessionId requestId query result rfl rfl rfl
  | createDb sessionId requestId dbName =>
    cases hs : server.sessions sessionId with
    | none =>
      simp only [dispatch, handleCreateDbMessage, note_sessions, hs]
      exact dispatched_sendPongAndStop _ _ _ rfl
    | some engine =>
      rcases hcall : api.createDb engine dbName with - | ⟨engine', what | result⟩ <;>
        simp only [dispatch, handleCreateDbMessage, note_sessions, hs, hcall]
      · exact absurd (hreturns rfl) (by simp [returns, hs, hcall])
      · exact dispatched_sendPongAndStop _ _ _ rfl
      · exact dispatched_sendSuccess sessionId hmode rfl
  | attachDb sessionId requestId dbName =>
    cases hs : server.sessions sessionId with
    | none =>
      simp only [dispatch, handleAttachDbMessage, note_sessions, hs]
      exact dispatched_sendPongAndStop _ _ _ rfl
    | some engine =>
      rcases hcall : api.attachDb engine dbName with - | ⟨engine', failure | result⟩
      · exact absurd (hreturns rfl) (by simp [returns, hs, hcall])
      · cases failure <;> simp only [dispatch, handleAttachDbMessage, note_sessions, hs, hcall] <;>
          exact dispatched_sendPongAndStop _ _ _ rfl
      · simp only [dispatch, handleAttachDbMessage, note_sessions, hs, hcall]
        exact dispatched_sendSuccess sessionId hmode rfl

/-- A request is noted by its handler, and nothing else is; what has not been
received stays. -/
theorem handled_dispatch (server : NetServer E) (m : NetMessage) :
    (server.dispatch api m).handled
        = server.handled ++ (request m).map (Handled.mk · server.frames.length)
      ∧ (server.dispatch api m).incoming = server.incoming := by
  have hstay : server.handled = server.handled ++ [] := (List.append_nil _).symm
  cases m with
  | ping requestId => exact ⟨hstay, rfl⟩
  | pong sessionId err requestId payload => exact ⟨hstay, rfl⟩
  | cancelStream sessionId requestId => exact ⟨hstay, rfl⟩
  | close sessionId requestId =>
    simp only [dispatch, handleCloseMessage]
    split <;> exact ⟨hstay, rfl⟩
  | query sessionId requestId query =>
    simp only [dispatch, handleQueryMessage]
    split
    · exact ⟨rfl, rfl⟩
    · split <;> exact ⟨rfl, rfl⟩
  | createDb sessionId requestId dbName =>
    simp only [dispatch, handleCreateDbMessage]
    split
    · exact ⟨rfl, rfl⟩
    · split <;> exact ⟨rfl, rfl⟩
  | attachDb sessionId requestId dbName =>
    simp only [dispatch, handleAttachDbMessage]
    split
    · exact ⟨rfl, rfl⟩
    · split <;> exact ⟨rfl, rfl⟩

/-- A message of the length that is received is received. -/
theorem receive_encode {m : NetMessage} (h : m.Fits) (hlen : (encode m).length ≤ maxIncomingLen) :
    receive (encode m) = some (.ok m) := by
  have hle : maxIncomingLen ≤ ReadOnlyMemoryStream.maxSize := by
    rw [maxIncomingLen, ReadOnlyMemoryStream.maxSize]
    decide
  rw [receive, if_neg (Nat.not_lt.mpr hlen), parse_self h (hlen.trans hle)]

theorem joined_frames (threads : Streaming) (server : NetServer E) :
    (server.joined threads).frames = server.frames := by
  unfold joined
  split <;> rfl

theorem joined_incoming (threads : Streaming) (server : NetServer E) :
    (server.joined threads).incoming = server.incoming := by
  unfold joined
  split <;> rfl

theorem joined_handled (threads : Streaming) (server : NetServer E) :
    (server.joined threads).handled = server.handled := by
  unfold joined
  split <;> rfl

/-! ## The steps of the parties -/

section Steps

variable {api} {c c' : Connection E}

theorem step_clientSends (h : Step api c .clientSends c') :
    ∃ m ms, c.toSend = m :: ms ∧ c.responseComplete = true
      ∧ c' = { server := { c.server with incoming := c.server.incoming ++ [encode m] }
               toSend := ms
               sent := c.sent ++ [m]
               mark := c.server.frames.length } := by
  unfold Step act at h
  simp only at h
  split at h
  case h_1 m ms hsend =>
    by_cases hcomplete : c.responseComplete = true
    · simp only [hcomplete, if_true, Option.some.injEq] at h
      exact ⟨m, ms, hsend, hcomplete, h.symm⟩
    · simp only [hcomplete] at h
      cases h
  case h_2 => cases h

theorem step_serverReceives (h : Step api c .serverReceives c') :
    ∃ bytes rest, c.server.mode = .reading ∧ c.server.incoming = bytes :: rest
      ∧ c' = { c with
        server := { c.server with incoming := rest }.handleMessage api bytes } := by
  unfold Step act at h
  simp only at h
  split at h
  case h_1 bytes rest hmode hincoming =>
    exact ⟨bytes, rest, hmode, hincoming, (Option.some.inj h).symm⟩
  case h_2 => cases h

theorem step_streamRuns (h : Step api c .streamRuns c') :
    ∃ threads server, c.server.mode = .streaming threads
      ∧ c.server.streamHandler threads = some server ∧ c' = { c with server := server } := by
  unfold Step act at h
  simp only at h
  split at h
  case h_1 threads hmode =>
    obtain ⟨server, hserver, hc⟩ := Option.map_eq_some_iff.mp h
    exact ⟨threads, server, hmode, hserver, hc.symm⟩
  case h_2 => cases h

theorem step_cancelReceives (h : Step api c .cancelReceives c') :
    ∃ threads bytes rest, c.server.mode = .streaming threads ∧ c.server.incoming = bytes :: rest
      ∧ threads.cancelWaiting = true
      ∧ c' = { c with
        server := { c.server with incoming := rest }.cancelHandler threads bytes } := by
  unfold Step act at h
  simp only at h
  split at h
  case h_1 threads bytes rest hmode hincoming =>
    by_cases hwaiting : threads.cancelWaiting = true
    · rw [if_pos hwaiting] at h
      exact ⟨threads, bytes, rest, hmode, hincoming, hwaiting, (Option.some.inj h).symm⟩
    · rw [if_neg hwaiting] at h
      cases h
  case h_2 => cases h

theorem step_threadsJoin (h : Step api c .threadsJoin c') :
    ∃ threads, c.server.mode = .streaming threads ∧ threads.stream = .finished
      ∧ threads.cancelWaiting = false ∧ c' = { c with server := c.server.joined threads } := by
  unfold Step act at h
  simp only at h
  split at h
  case h_1 threads hmode =>
    split at h
    case h_1 hstream hwaiting => exact ⟨threads, hmode, hstream, hwaiting, (Option.some.inj h).symm⟩
    case h_2 => cases h
  case h_2 => cases h

end Steps

/-! ## The phases of a connection -/

/-- The client waits for the response to `m` and has heard nothing yet. -/
def Waits (c : Connection E) (m : NetMessage) : Prop :=
  c.sent.getLast? = some m ∧ c.heard = []

/-- What has been sent and not been received is one message at most, to which the
client awaits the response. -/
def Pending (c : Connection E) (queue : List NetMessage) : Prop :=
  queue = [] ∨ ∃ m, queue = [m] ∧ Waits c m

/-- The loop reads, or will when the threads of a stream have been joined. -/
def ReadsNext (mode : ServerMode) : Prop :=
  mode = .reading ∨ ∃ threads, mode = .streaming threads ∧ threads.stream = .finished
    ∧ threads.cancelWaiting = false ∧ threads.stop = false

/-- **Where a connection can be** when the messages the client sends are
unhindered; `queue` is what has been sent and not been received. -/
inductive Phase (c : Connection E) (queue : List NetMessage) : Prop
  /-- The loop receives the next message. -/
  | main (hmode : ReadsNext c.server.mode) (hqueue : Pending c queue)
      (hu : Unhindered api (.main c.server.sessions) (queue ++ c.toSend))
  /-- A stream is being sent, and the client has not got its end. -/
  | streams (threads : Streaming) (result : QueryResult)
      (hmode : c.server.mode = .streaming threads)
      (hstream : threads.stream = .starting result ∨ threads.stream = .sending result)
      (hwaiting : threads.cancelWaiting = true) (hcancelled : threads.cancelled = false)
      (hstop : threads.stop = false) (hqueue : queue = [])
      (hlast : ∃ sessionId query,
        c.sent.getLast? = some (.query sessionId threads.requestId query))
      (hheard : c.heard.any (isPong threads.requestId endsStream) = false)
      (hu : result.throws = false →
        Unhindered api (.cancelOf threads.sessionId c.server.sessions) c.toSend)
  /-- The stream has been sent, and its `cancel_thread` receives the next
  message. -/
  | leftover (threads : Streaming) (hmode : c.server.mode = .streaming threads)
      (hstream : threads.stream = .finished) (hwaiting : threads.cancelWaiting = true)
      (hstop : threads.stop = false) (hqueue : Pending c queue)
      (hu : Unhindered api (.cancelOf threads.sessionId c.server.sessions) (queue ++ c.toSend))
  /-- The client waits for a response that will not come. -/
  | stuck (hqueue : queue = []) (hresponse : c.responseComplete = false)
      (hmode : ∀ threads, c.server.mode = .streaming threads →
        threads.stream = .finished ∧ threads.cancelWaiting = false
          ∧ { c with server := c.server.joined threads }.responseComplete = false)
  /-- The connection is closed. -/
  | ended (hmode : c.server.mode = .stopped) (hu : Unhindered api .nobody (queue ++ c.toSend))

/-- A request has been answered since it reached its handler. -/
def Answered (c : Connection E) (h : Handled) : Prop :=
  ∃ frame ∈ c.server.frames.drop h.mark, isAnswer h.message.requestId frame = true

/-- The stream that answers a request is about to be started. -/
def Starting (c : Connection E) (h : Handled) : Prop :=
  ∃ threads result, c.server.mode = .streaming threads ∧ threads.stream = .starting result
    ∧ threads.requestId = h.message.requestId

/-- No request waits for a stream that has been started. -/
theorem not_starting {c : Connection E} {threads : Streaming}
    (hmode : c.server.mode = .streaming threads)
    (hstream : ∀ result, threads.stream ≠ .starting result) (h : Handled) : ¬ Starting c h := by
  rintro ⟨threads', result, hmode', hstarting, -⟩
  rw [hmode] at hmode'
  obtain rfl := ServerMode.streaming.inj hmode'
  exact hstream result hstarting

/-- **The invariant of a connection** whose messages are unhindered. -/
structure Inv (c : Connection E) (queue : List NetMessage) : Prop where
  incoming : c.server.incoming = queue.map encode
  mark : c.mark ≤ c.server.frames.length
  fits : ∀ m ∈ queue ++ c.toSend, m.Fits
  handled : c.server.handled.map Handled.message ++ queue.filter isRequest
    = c.sent.filter isRequest
  marks : ∀ h ∈ c.server.handled, h.mark ≤ c.server.frames.length
  answered : ∀ h ∈ c.server.handled, Answered c h ∨ Starting c h
  phase : Phase api c queue

/-- Whoever has heard nothing has not got a response, unless the connection has
been closed. -/
theorem responseComplete_of_waits {c : Connection E} {m : NetMessage} (h : Waits c m)
    (hclosed : c.closed = false) : c.responseComplete = false := by
  obtain ⟨hlast, hheard⟩ := h
  unfold responseComplete
  rw [hlast, hheard, hclosed]
  cases m <;> rfl

/-- A client that has not got the end of a stream has not got the response. -/
theorem responseComplete_of_query {c : Connection E} {sessionId : UUID} {requestId : Int32}
    {query : Bytes} (hlast : c.sent.getLast? = some (.query sessionId requestId query))
    (hheard : c.heard.any (isPong requestId endsStream) = false) : c.responseComplete = false := by
  unfold responseComplete
  rw [hlast]
  exact hheard

/-- The connection of a server that reads, or will, has not been closed. -/
theorem ReadsNext.closed {c : Connection E} (h : ReadsNext c.server.mode) : c.closed = false := by
  unfold Connection.closed
  rcases h with hmode | ⟨threads, hmode, -⟩ <;> rw [hmode]

/-! ## What each step preserves -/

section Preservation

variable {api} {c c' : Connection E} {queue : List NetMessage}

/-- The client only sends what has been waited for, so what it sends is alone. -/
theorem inv_clientSends (hinv : Inv api c queue) (h : Step api c .clientSends c') :
    ∃ queue', Inv api c' queue' := by
  obtain ⟨m, ms, hsend, hcomplete, rfl⟩ := step_clientSends h
  have happend : (queue ++ [m]) ++ ms = queue ++ c.toSend := by
    rw [hsend, List.append_assoc, List.singleton_append]
  have hwaits : ∀ server : NetServer E, server.frames = c.server.frames →
      Waits { server := server, toSend := ms, sent := c.sent ++ [m],
              mark := c.server.frames.length } m := fun server hframes => by
    refine ⟨List.getLast?_concat, ?_⟩
    show server.frames.drop c.server.frames.length = []
    rw [hframes, List.drop_length]
  have hpending : Pending c queue → c.closed = false → queue = [] := fun hqueue hclosed => by
    rcases hqueue with hnil | ⟨m', -, hwaits'⟩
    · exact hnil
    · rw [responseComplete_of_waits hwaits' hclosed] at hcomplete
      cases hcomplete
  refine ⟨queue ++ [m], ?_, le_rfl, ?_, ?_, hinv.marks, hinv.answered, ?_⟩
  · show c.server.incoming ++ [encode m] = _
    rw [hinv.incoming, List.map_append, List.map_singleton]
  · show ∀ m' ∈ (queue ++ [m]) ++ ms, m'.Fits
    rw [happend]
    exact hinv.fits
  · show c.server.handled.map Handled.message ++ (queue ++ [m]).filter isRequest
      = (c.sent ++ [m]).filter isRequest
    rw [List.filter_append, List.filter_append, ← List.append_assoc, hinv.handled]
  · cases hinv.phase with
    | main hmode hqueue hu =>
      have hnil := hpending hqueue hmode.closed
      refine .main hmode (Or.inr ⟨m, ?_, hwaits _ rfl⟩) ?_
      · rw [hnil, List.nil_append]
      · show Unhindered api (.main c.server.sessions) ((queue ++ [m]) ++ ms)
        rw [happend]
        exact hu
    | streams threads result hmode hstream hwaiting hcancelled hstop hqueue hlast hheard hu =>
      obtain ⟨sessionId, query, hlast⟩ := hlast
      rw [responseComplete_of_query hlast hheard] at hcomplete
      cases hcomplete
    | leftover threads hmode hstream hwaiting hstop hqueue hu =>
      have hclosed : c.closed = false := by
        unfold Connection.closed
        rw [hmode]
      have hnil := hpending hqueue hclosed
      refine .leftover threads hmode hstream hwaiting hstop (Or.inr ⟨m, ?_, hwaits _ rfl⟩) ?_
      · rw [hnil, List.nil_append]
      · show Unhindered api (.cancelOf threads.sessionId c.server.sessions) ((queue ++ [m]) ++ ms)
        rw [happend]
        exact hu
    | stuck hqueue hresponse hmode =>
      rw [hresponse] at hcomplete
      cases hcomplete
    | ended hmode hu =>
      refine .ended hmode ?_
      show Unhindered api .nobody ((queue ++ [m]) ++ ms)
      rw [happend]
      exact hu

/-- What has been heard only grows. -/
theorem heard_append {server : NetServer E} {frames : List NetMessage}
    (hframes : server.frames = c.server.frames ++ frames)
    (hmark : c.mark ≤ c.server.frames.length) :
    { c with server := server }.heard = c.heard ++ frames := by
  show server.frames.drop c.mark = c.server.frames.drop c.mark ++ frames
  rw [hframes, List.drop_append_of_le_length hmark]

/-- A request that has been answered stays so. -/
theorem Answered.mono {request : Handled} (h : Answered c request) {frames : List NetMessage}
    (hframes : c'.server.frames = c.server.frames ++ frames) : Answered c' request := by
  obtain ⟨frame, hmem, hanswer⟩ := h
  refine ⟨frame, ?_, hanswer⟩
  rw [hframes, List.drop_append]
  exact List.mem_append_left _ hmem

/-- What is sent after a request has reached its handler answers it. -/
theorem answered_of_frame {request : Handled} (hmark : request.mark ≤ c.server.frames.length)
    {frames : List NetMessage} (hframes : c'.server.frames = c.server.frames ++ frames)
    (h : ∃ frame ∈ frames, isAnswer request.message.requestId frame = true) :
    Answered c' request := by
  obtain ⟨frame, hmem, hanswer⟩ := h
  refine ⟨frame, ?_, hanswer⟩
  rw [hframes, List.drop_append_of_le_length hmark]
  exact List.mem_append_right _ hmem

/-- What has been received was the only message on its way. -/
theorem Pending.head {m : NetMessage} {ms : List NetMessage} (h : Pending c (m :: ms)) :
    ms = [] ∧ Waits c m := by
  rcases h with hnil | ⟨m', hqueue, hwaits⟩
  · cases hnil
  · obtain ⟨rfl, rfl⟩ := List.cons.inj hqueue
    exact ⟨rfl, hwaits⟩

/-- The messages behind the bytes that are received. -/
theorem Inv.received (hinv : Inv api c queue) {bytes : Bytes} {rest : List Bytes}
    (h : c.server.incoming = bytes :: rest) :
    ∃ m ms, queue = m :: ms ∧ bytes = encode m ∧ rest = ms.map encode := by
  have hmap : queue.map encode = bytes :: rest := hinv.incoming.symm.trans h
  obtain ⟨m, ms, hqueue, hbytes, hrest⟩ := List.map_eq_cons_iff.mp hmap
  exact ⟨m, ms, hqueue, hbytes.symm, hrest.symm⟩

/-- A message that is too long to be received does not ask for the end of the
connection. -/
theorem responseComplete_of_long {m : NetMessage} (h : Waits c m)
    (hlong : maxIncomingLen < (encode m).length) : c.responseComplete = false := by
  obtain ⟨hlast, hheard⟩ := h
  unfold responseComplete
  rw [hlast, hheard]
  cases m with
  | close sessionId requestId =>
    have hshort : (encode (.close sessionId requestId)).length ≤ maxIncomingLen := by
      rw [encode_eq, bodyBytes, maxIncomingLen]
      simp
    exact absurd hlong (Nat.not_lt.mpr hshort)
  | _ => rfl

/-- **The phase after a message has been handed to its handler.** -/
theorem Dispatched.phase {m : NetMessage} {server after : NetServer E} {reader : Reader E}
    (h : Dispatched server m after reader) (hframes : server.frames = c.server.frames)
    (hmark : c.mark ≤ c.server.frames.length) (hwaits : Waits c m)
    (hu : Unhindered api reader c.toSend) : Phase api { c with server := after } [] := by
  cases h with
  | main answer hmode _ _ => exact .main (Or.inl hmode) (Or.inl rfl) hu
  | nobody answers hmode _ _ => exact .ended hmode hu
  | stream sessionId requestId query result hm hmode hafter =>
    refine .streams _ result hmode (Or.inl rfl) rfl rfl rfl rfl ⟨sessionId, query, ?_⟩ ?_ ?_
    · rw [← hm]
      exact hwaits.1
    · have hheard : { c with server := after }.heard = c.heard ++ [] :=
        heard_append (by rw [hafter, hframes, List.append_nil]) hmark
      rw [hheard, hwaits.2]
      rfl
    · intro hthrows
      rw [hthrows] at hu
      exact hu

/-- **What a request that has been handed to its handler has been sent.** -/
theorem Dispatched.answered {m : NetMessage} {server after : NetServer E} {reader : Reader E}
    (h : Dispatched server m after reader) (hbefore : server.frames = c.server.frames)
    (hm : isRequest m = true) :
    Answered { c with server := after } ⟨m, c.server.frames.length⟩
      ∨ Starting { c with server := after } ⟨m, c.server.frames.length⟩ := by
  cases h with
  | main answer _ hframes hanswer =>
    rw [hbefore] at hframes
    exact Or.inl (answered_of_frame le_rfl hframes ⟨answer, List.mem_singleton_self _, hanswer⟩)
  | nobody answers _ hframes hanswer =>
    rw [hbefore] at hframes
    exact Or.inl (answered_of_frame le_rfl hframes (List.any_eq_true.mp (hanswer hm)))
  | stream sessionId requestId query result hmessage hmode _ =>
    refine Or.inr ⟨_, result, hmode, rfl, ?_⟩
    rw [hmessage]
    rfl

/-- A handler only adds to what has been sent. -/
theorem Dispatched.frames {m : NetMessage} {server after : NetServer E} {reader : Reader E}
    (h : Dispatched server m after reader) : ∃ frames, after.frames = server.frames ++ frames := by
  cases h with
  | main answer _ hframes _ => exact ⟨[answer], hframes⟩
  | nobody answers _ hframes _ => exact ⟨answers, hframes⟩
  | stream _ _ _ _ _ _ hframes => exact ⟨[], hframes.trans (List.append_nil _).symm⟩

/-- The invariant after more frames have been sent: nothing that has been
answered is forgotten. -/
theorem Inv.answered_of_frames (hinv : Inv api c queue) (hstarting : ∀ h, ¬ Starting c h)
    {frames : List NetMessage} (hframes : c'.server.frames = c.server.frames ++ frames) :
    ∀ h ∈ c.server.handled, Answered c' h := fun h hmem =>
  (hinv.answered h hmem).elim (fun hdone => hdone.mono hframes)
    fun hstart => absurd hstart (hstarting h)

/-- The loop of `handle_message` receives what is on its way and hands it to its
handler. -/
theorem inv_serverReceives (hinv : Inv api c queue) (h : Step api c .serverReceives c') :
    ∃ queue', Inv api c' queue' := by
  obtain ⟨bytes, rest, hreading, hincoming, rfl⟩ := step_serverReceives h
  obtain ⟨m, ms, rfl, rfl, rfl⟩ := hinv.received hincoming
  have hstarting : ∀ m', ¬ Starting c m' := by
    rintro m' ⟨threads, _, hmode, _⟩
    rw [hreading] at hmode
    cases hmode
  cases hinv.phase with
  | streams threads result hmode =>
    rw [hreading] at hmode
    cases hmode
  | leftover threads hmode =>
    rw [hreading] at hmode
    cases hmode
  | stuck hqueue => cases hqueue
  | ended hmode =>
    rw [hreading] at hmode
    cases hmode
  | main _ hqueue hu =>
    obtain ⟨rfl, hwaits⟩ := hqueue.head
    obtain ⟨hshort, hnext⟩ := hu
    have hsent : c.server.handled.map Handled.message ++ request m = c.sent.filter isRequest :=
      hinv.handled
    have hfits : ∀ m' ∈ c.toSend, m'.Fits := fun m' hmem =>
      hinv.fits m' (List.mem_cons_of_mem _ hmem)
    let server : NetServer E := { c.server with incoming := [] }
    refine ⟨[], ?_⟩
    show Inv api { c with server := server.handleMessage api (encode m) } []
    by_cases hlen : (encode m).length ≤ maxIncomingLen
    · have hserver : server.handleMessage api (encode m) = server.dispatch api m := by
        unfold handleMessage
        rw [receive_encode (hinv.fits m (List.mem_cons_self ..)) hlen]
      obtain ⟨hhandled, hrest⟩ := handled_dispatch api server m
      have hmode : server.mode = .reading := hreading
      have hdone := dispatched_dispatch api hmode hlen fun h => (hshort h).2
      obtain ⟨frames, hframes⟩ := hdone.frames
      have hgrown : c.server.frames.length ≤ (server.dispatch api m).frames.length := by
        rw [hframes, List.length_append]
        exact Nat.le_add_right _ _
      rw [hserver]
      refine ⟨hrest, hinv.mark.trans hgrown, hfits, ?_, fun h hmem => ?_, fun h hmem => ?_,
        hdone.phase rfl hinv.mark hwaits hnext⟩
      · show (server.dispatch api m).handled.map Handled.message ++ [] = _
        rw [List.append_nil, hhandled, List.map_append, List.map_map]
        exact (congrArg _ (List.map_id _)).trans hsent
      all_goals
        have hmem' : h ∈ c.server.handled
            ++ (request m).map (Handled.mk · c.server.frames.length) := hhandled ▸ hmem
        rcases List.mem_append.mp hmem' with hmem' | hmem'
      · exact (hinv.marks h hmem').trans hgrown
      · obtain ⟨m', -, rfl⟩ := List.mem_map.mp hmem'
        exact hgrown
      · exact Or.inl (hinv.answered_of_frames hstarting hframes h hmem')
      · obtain ⟨m', hm', rfl⟩ := List.mem_map.mp hmem'
        obtain ⟨hm', hrequest⟩ := List.mem_filter.mp hm'
        rw [List.mem_singleton.mp hm'] at hrequest ⊢
        exact hdone.answered rfl hrequest
    · -- a message that is too long ends the connection, and no request is
      have hserver : server.handleMessage api (encode m) = server.stopped := by
        unfold handleMessage receive
        rw [if_pos (Nat.not_le.mp hlen)]
      have hrequest : request m = [] := by
        refine List.filter_eq_nil_iff.mpr fun m' hmem => ?_
        rw [List.mem_singleton.mp hmem]
        exact fun h => hlen (hshort h).1
      rw [hserver]
      refine ⟨rfl, hinv.mark, hfits, ?_, hinv.marks, fun h hmem => ?_, ?_⟩
      · show c.server.handled.map Handled.message ++ [] = _
        rw [← hrequest]
        exact hsent
      · exact Or.inl (hinv.answered_of_frames hstarting (List.append_nil _).symm h hmem)
      · refine .stuck rfl (responseComplete_of_long hwaits (Nat.not_le.mp hlen)) ?_
        intro threads hmode
        cases hmode

/-- **A step of a thread of a stream** keeps the invariant when it takes the
connection to a phase, and what it sends answers the query. -/
theorem Inv.send (hinv : Inv api c queue) {after : NetServer E} {queue' : List NetMessage}
    {frames : List NetMessage} (hincoming : after.incoming = queue'.map encode)
    (hsuffix : ∃ m, queue = m ++ queue' ∧ m.filter isRequest = [])
    (hhandled : after.handled = c.server.handled)
    (hframes : after.frames = c.server.frames ++ frames)
    (hanswers : ∀ h, Starting c h →
      ∃ frame ∈ frames, isAnswer h.message.requestId frame = true)
    (hphase : Phase api { c with server := after } queue') :
    Inv api { c with server := after } queue' := by
  obtain ⟨received, rfl, hreceived⟩ := hsuffix
  have hgrown : c.server.frames.length ≤ after.frames.length := by
    rw [hframes, List.length_append]
    exact Nat.le_add_right _ _
  refine ⟨hincoming, hinv.mark.trans hgrown, fun m hmem => ?_, ?_, fun h hmem => ?_,
    fun h hmem => ?_, hphase⟩
  · refine hinv.fits m ?_
    rw [List.append_assoc]
    exact List.mem_append_right _ hmem
  · show after.handled.map Handled.message ++ queue'.filter isRequest = c.sent.filter isRequest
    rw [hhandled, ← hinv.handled, List.filter_append, hreceived, List.nil_append]
  · exact (hinv.marks h (hhandled ▸ hmem)).trans hgrown
  · have hmem' : h ∈ c.server.handled := hhandled ▸ hmem
    rcases hinv.answered h hmem' with hdone | hstart
    · exact Or.inl (hdone.mono hframes)
    · exact Or.inl (answered_of_frame (hinv.marks h hmem') hframes (hanswers h hstart))

/-- A result whose next chunk is empty does not throw. -/
theorem throws_of_empty {result : QueryResult} (h : nextChunk result = .empty) :
    result.throws = false := by
  unfold nextChunk at h
  by_cases hthrows : result.rows.length < batchSize ∧ result.throws = true
  · rw [if_pos hthrows] at h
    cases h
  · by_cases hrows : result.rows = []
    · have hlen : result.rows.length < batchSize := by
        rw [hrows]
        decide
      exact Bool.eq_false_iff.mpr fun h => hthrows ⟨hlen, h⟩
    · rw [if_neg hthrows, if_neg hrows] at h
      cases h

/-- What is left of a result throws if the result does. -/
theorem nextChunk_rows {result rest : QueryResult} {rows : List DataRow}
    (h : nextChunk result = .rows rows rest) :
    rest = { result with rows := result.rows.drop batchSize } ∧ result.rows ≠ [] := by
  unfold nextChunk at h
  split at h
  · cases h
  · split at h
    · cases h
    · rename_i hrows
      obtain ⟨-, rfl⟩ := Chunk.rows.inj h
      exact ⟨rfl, hrows⟩

/-- **The cases of a round of the `stream_thread`** of a stream that has not been
cancelled: it begins, sends a chunk, sends the end, or throws. -/
inductive Streamed (threads : Streaming) (server after : NetServer E) : Prop
  | start (result : QueryResult) (hstream : threads.stream = .starting result)
      (h : after = { server.sendMessage (.pong threads.sessionId .startStream threads.requestId [])
        with mode := .streaming { threads with stream := .sending result } })
  | chunk (result rest : QueryResult) (payload : Bytes) (hstream : threads.stream = .sending result)
      (hrest : rest = { result with rows := result.rows.drop batchSize }) (hrows : result.rows ≠ [])
      (h : after = { server.sendMessage
          (.pong threads.sessionId .streamChunk threads.requestId payload)
        with mode := .streaming { threads with stream := .sending rest } })
  | finish (result : QueryResult) (hstream : threads.stream = .sending result)
      (hthrows : threads.cancelled = false → result.throws = false)
      (h : after = { server.sendMessage (.pong threads.sessionId .endStream threads.requestId [])
        with mode := .streaming { threads with stream := .finished } })
  | throws (result : QueryResult) (hstream : threads.stream = .sending result)
      (h : after = { server with mode := .terminated })

theorem streamed_streamHandler {threads : Streaming} {server after : NetServer E}
    (h : server.streamHandler threads = some after) : Streamed threads server after := by
  unfold streamHandler at h
  cases hstream : threads.stream with
  | starting result =>
    simp only [hstream] at h
    exact .start result hstream (Option.some.inj h).symm
  | finished =>
    simp only [hstream] at h
    cases h
  | sending result =>
    simp only [hstream] at h
    by_cases hcancelled : threads.cancelled = true
    · rw [if_pos hcancelled] at h
      refine .finish result hstream (fun h' => ?_) (Option.some.inj h).symm
      rw [hcancelled] at h'
      cases h'
    · rw [if_neg hcancelled] at h
      cases hchunk : nextChunk result with
      | empty =>
        simp only [hchunk] at h
        exact .finish result hstream (fun _ => throws_of_empty hchunk) (Option.some.inj h).symm
      | rows rows rest =>
        simp only [hchunk] at h
        obtain ⟨hrest, hrows⟩ := nextChunk_rows hchunk
        exact .chunk result rest _ hstream hrest hrows (Option.some.inj h).symm
      | throws =>
        simp only [hchunk] at h
        exact .throws result hstream (Option.some.inj h).symm

/-- The `stream_thread` takes a step. -/
theorem inv_streamRuns (hinv : Inv api c queue) (h : Step api c .streamRuns c') :
    ∃ queue', Inv api c' queue' := by
  obtain ⟨threads, after, hmode, hafter, rfl⟩ := step_streamRuns h
  have hdone := streamed_streamHandler hafter
  have hrunning : threads.stream ≠ .finished := fun hfinished => by
    unfold streamHandler at hafter
    rw [hfinished] at hafter
    cases hafter
  cases hinv.phase with
  | main hreads =>
    rcases hreads with hreading | ⟨threads', hmode', hfinished, -⟩
    · rw [hmode] at hreading
      cases hreading
    · rw [hmode] at hmode'
      obtain rfl := ServerMode.streaming.inj hmode'
      exact absurd hfinished hrunning
  | leftover threads' hmode' hfinished =>
    rw [hmode] at hmode'
    obtain rfl := ServerMode.streaming.inj hmode'
    exact absurd hfinished hrunning
  | stuck _ _ hfinished => exact absurd (hfinished threads hmode).1 hrunning
  | ended hmode' =>
    rw [hmode] at hmode'
    cases hmode'
  | streams threads' result hmode' hstream hwaiting hcancelled hstop hqueue hlast hheard hu =>
    rw [hmode] at hmode'
    obtain rfl := ServerMode.streaming.inj hmode'
    subst hqueue
    obtain ⟨sessionId, query, hquery⟩ := hlast
    have hanswers : ∀ err payload h, Starting c h → ∃ frame ∈
        [NetMessage.pong threads.sessionId err threads.requestId payload],
        isAnswer h.message.requestId frame = true := by
      rintro err payload h ⟨threads', _, hmode', _, hid⟩
      rw [hmode] at hmode'
      rw [← hid, ← ServerMode.streaming.inj hmode']
      exact ⟨_, List.mem_singleton_self _, isAnswer_pong _ _ _ _⟩
    -- the client goes on waiting while what it is sent does not end the stream
    have hwaits : ∀ (server : NetServer E) (frame : NetMessage),
        server.frames = c.server.frames ++ [frame] →
        isPong threads.requestId endsStream frame = false →
        { c with server := server }.heard.any (isPong threads.requestId endsStream) = false :=
      fun server frame hframes hend => by
        rw [heard_append hframes hinv.mark, List.any_append, hheard, List.any_cons, hend]
        rfl
    have hkept : ∃ m, ([] : List NetMessage) = m ++ [] ∧ m.filter isRequest = [] := ⟨[], rfl, rfl⟩
    cases hdone with
    | start result' hstarting hserver =>
      subst hserver
      have hsame : result' = result := by
        rcases hstream with h | h
        · exact StreamThread.starting.inj (hstarting.symm.trans h)
        · rw [hstarting] at h
          cases h
      subst hsame
      refine ⟨[], hinv.send hinv.incoming hkept rfl rfl (hanswers _ _) ?_⟩
      refine .streams _ result' rfl (Or.inr rfl) hwaiting hcancelled hstop rfl
        ⟨sessionId, query, hquery⟩ (hwaits _ _ rfl ?_) hu
      exact Bool.and_false _
    | chunk result' rest payload hsending hrest _ hserver =>
      subst hserver
      have hsame : result' = result := by
        rcases hstream with h | h
        · rw [hsending] at h
          cases h
        · exact StreamThread.sending.inj (hsending.symm.trans h)
      subst hsame hrest
      refine ⟨[], hinv.send hinv.incoming hkept rfl rfl (hanswers _ _) ?_⟩
      refine .streams _ _ rfl (Or.inr rfl) hwaiting hcancelled hstop rfl
        ⟨sessionId, query, hquery⟩ (hwaits _ _ rfl ?_) hu
      exact Bool.and_false _
    | finish result' hsending hthrows hserver =>
      subst hserver
      have hsame : result' = result := by
        rcases hstream with h | h
        · rw [hsending] at h
          cases h
        · exact StreamThread.sending.inj (hsending.symm.trans h)
      subst hsame
      refine ⟨[], hinv.send hinv.incoming hkept rfl rfl (hanswers _ _) ?_⟩
      exact .leftover _ rfl rfl hwaiting hstop (Or.inl rfl) (hu (hthrows hcancelled))
    | throws result' hsending hserver =>
      subst hserver
      have hnone : ∀ h, Starting c h → ∃ frame ∈ ([] : List NetMessage),
          isAnswer h.message.requestId frame = true := fun h hstarting =>
        (not_starting hmode (fun _ => hsending ▸ nofun) h hstarting).elim
      refine ⟨[], hinv.send hinv.incoming hkept rfl (List.append_nil _).symm hnone ?_⟩
      refine .stuck rfl (responseComplete_of_query hquery hheard) fun threads' hmode' => ?_
      cases hmode'

/-- **The cases of `cancel_handler`**: the message cancels the stream, is dropped,
or is too long to be received. -/
inductive Cancelled (threads : Streaming) (m : NetMessage) (server after : NetServer E) : Prop
  | cancelled (hm : isCancelOf threads.sessionId m = true)
      (h : after = { server.sendMessage (.pong threads.sessionId .success m.requestId [])
        with mode := .streaming { threads with cancelWaiting := false, cancelled := true } })
  | dropped (hm : isCancelOf threads.sessionId m = false)
      (h : after = { server with mode := .streaming { threads with cancelWaiting := false } })
  | stopped (hlong : maxIncomingLen < (encode m).length)
      (h : after = { server with
        mode :=
          .streaming { threads with cancelWaiting := false, cancelled := true, stop := true } })

theorem cancelled_cancelHandler (threads : Streaming) {m : NetMessage} (hfits : m.Fits)
    (server : NetServer E) :
    Cancelled threads m server (server.cancelHandler threads (encode m)) := by
  unfold cancelHandler
  by_cases hlen : (encode m).length ≤ maxIncomingLen
  · rw [receive_encode hfits hlen]
    cases m with
    | cancelStream sessionId requestId =>
      by_cases hsession : sessionId = threads.sessionId
      · refine .cancelled (beq_iff_eq.mpr hsession) ?_
        simp only [hsession, ne_eq, not_true_eq_false, if_false]
        rfl
      · refine .dropped (beq_eq_false_iff_ne.mpr hsession) ?_
        simp only [ne_eq, hsession, not_false_eq_true, if_true]
    | _ => exact .dropped rfl rfl
  · refine .stopped (Nat.not_le.mp hlen) ?_
    rw [receive, if_pos (Nat.not_le.mp hlen)]

/-- The `cancel_thread` receives a message. -/
theorem inv_cancelReceives (hinv : Inv api c queue) (h : Step api c .cancelReceives c') :
    ∃ queue', Inv api c' queue' := by
  obtain ⟨threads, bytes, rest, hmode, hincoming, hwaiting, rfl⟩ := step_cancelReceives h
  obtain ⟨m, ms, rfl, rfl, rfl⟩ := hinv.received hincoming
  cases hinv.phase with
  | main hreads =>
    rcases hreads with hreading | ⟨threads', hmode', -, hjoining, -⟩
    · rw [hmode] at hreading
      cases hreading
    · rw [hmode] at hmode'
      obtain rfl := ServerMode.streaming.inj hmode'
      rw [hwaiting] at hjoining
      cases hjoining
  | streams _ _ _ _ _ _ _ hqueue => cases hqueue
  | stuck hqueue => cases hqueue
  | ended hmode' =>
    rw [hmode] at hmode'
    cases hmode'
  | leftover threads' hmode' hfinished _ hstop hqueue hu =>
    rw [hmode] at hmode'
    obtain rfl := ServerMode.streaming.inj hmode'
    obtain ⟨rfl, hwaits⟩ := hqueue.head
    obtain ⟨hm, hnext⟩ := hu
    have hkept : ∃ ms, [m] = ms ++ ([] : List NetMessage) ∧ ms.filter isRequest = [] :=
      ⟨[m], rfl, by rw [List.filter_singleton, hm]; rfl⟩
    have hnone : ∀ (frames : List NetMessage) h, Starting c h → ∃ frame ∈ frames,
        isAnswer h.message.requestId frame = true := fun _ h hstarting =>
      (not_starting hmode (fun _ => hfinished ▸ nofun) h hstarting).elim
    have hstays : ∀ server : NetServer E, server.frames = c.server.frames →
        Waits { c with server := server } m := fun server hframes => by
      refine ⟨hwaits.1, ?_⟩
      show server.frames.drop c.mark = []
      rw [hframes]
      exact hwaits.2
    refine ⟨[], ?_⟩
    have hdone := cancelled_cancelHandler threads (hinv.fits m (List.mem_cons_self ..))
      { c.server with incoming := List.map encode [] }
    generalize cancelHandler threads (encode m) _ = after at hdone ⊢
    cases hdone with
    | cancelled hcancel hserver =>
      subst hserver
      rw [if_pos hcancel] at hnext
      refine hinv.send rfl hkept rfl rfl (hnone _) ?_
      exact .main (Or.inr ⟨_, rfl, hfinished, rfl, hstop⟩) (Or.inl rfl) hnext
    | dropped _ hserver =>
      subst hserver
      refine hinv.send rfl hkept rfl (List.append_nil _).symm (hnone _) ?_
      refine .stuck rfl (responseComplete_of_waits (hstays _ rfl) rfl) fun threads' hmode'' => ?_
      obtain rfl := ServerMode.streaming.inj hmode''
      refine ⟨hfinished, rfl, responseComplete_of_waits (hstays _ (joined_frames _ _)) ?_⟩
      unfold joined
      rw [if_neg (Bool.eq_false_iff.mp hstop)]
      rfl
    | stopped hlong hserver =>
      subst hserver
      refine hinv.send rfl hkept rfl (List.append_nil _).symm (hnone _) ?_
      refine .stuck rfl (responseComplete_of_waits (hstays _ rfl) rfl) fun threads' hmode'' => ?_
      obtain rfl := ServerMode.streaming.inj hmode''
      exact ⟨hfinished, rfl, responseComplete_of_long (hstays _ (joined_frames _ _)) hlong⟩

/-- Both threads of a stream have ended. -/
theorem inv_threadsJoin (hinv : Inv api c queue) (h : Step api c .threadsJoin c') :
    ∃ queue', Inv api c' queue' := by
  obtain ⟨threads, hmode, hfinished, hjoining, rfl⟩ := step_threadsJoin h
  have hnone : ∀ h, Starting c h → ∃ frame ∈ ([] : List NetMessage),
      isAnswer h.message.requestId frame = true := fun h hstarting =>
    (not_starting hmode (fun _ => hfinished ▸ nofun) h hstarting).elim
  have hframes : (c.server.joined threads).frames = c.server.frames ++ [] :=
    (joined_frames threads c.server).trans (List.append_nil _).symm
  refine ⟨queue, hinv.send ((joined_incoming threads c.server).trans hinv.incoming)
    ⟨[], rfl, rfl⟩ (joined_handled threads c.server) hframes hnone ?_⟩
  cases hinv.phase with
  | main hreads hqueue hu =>
    rcases hreads with hreading | ⟨threads', hmode', -, -, hstop⟩
    · rw [hmode] at hreading
      cases hreading
    · rw [hmode] at hmode'
      obtain rfl := ServerMode.streaming.inj hmode'
      have hjoined : c.server.joined threads = { c.server with mode := .reading } := by
        unfold joined
        rw [if_neg (Bool.eq_false_iff.mp hstop)]
      rw [hjoined]
      refine .main (Or.inl rfl) ?_ hu
      exact hqueue
  | streams threads' result hmode' hstream =>
    rw [hmode] at hmode'
    obtain rfl := ServerMode.streaming.inj hmode'
    rw [hfinished] at hstream
    rcases hstream with hstream | hstream <;> cases hstream
  | leftover threads' hmode' _ hwaiting =>
    rw [hmode] at hmode'
    obtain rfl := ServerMode.streaming.inj hmode'
    rw [hjoining] at hwaiting
    cases hwaiting
  | stuck hqueue hresponse hjoins =>
    refine .stuck hqueue (hjoins threads hmode).2.2 fun threads' hmode' => ?_
    unfold joined at hmode'
    split at hmode' <;> cases hmode'
  | ended hmode' =>
    rw [hmode] at hmode'
    cases hmode'

/-- **Every step keeps the invariant.** -/
theorem inv_step {a : Action} (hinv : ∃ queue, Inv api c queue) (h : Step api c a c') :
    ∃ queue, Inv api c' queue := by
  obtain ⟨queue, hinv⟩ := hinv
  cases a with
  | clientSends => exact inv_clientSends hinv h
  | serverReceives => exact inv_serverReceives hinv h
  | streamRuns => exact inv_streamRuns hinv h
  | cancelReceives => exact inv_cancelReceives hinv h
  | threadsJoin => exact inv_threadsJoin hinv h

end Preservation

/-! ## A connection comes to rest -/

/-- How many steps a stream takes, with the one that joins its threads. -/
def roundsOf : StreamThread → ℕ
  | .starting result => result.rows.length + 3
  | .sending result => result.rows.length + 2
  | .finished => 1

/-- How many steps a server takes before it receives again. -/
def roundsLeft (server : NetServer E) : ℕ :=
  match server.mode with
  | .streaming threads => roundsOf threads.stream
  | _ => 0

theorem roundsLeft_streaming {server : NetServer E} {threads : Streaming}
    (h : server.mode = .streaming threads) : roundsLeft server = roundsOf threads.stream := by
  unfold roundsLeft
  rw [h]

/-- What is left of a run: what the client has to send, what nobody has received
and the rounds of the stream. -/
def remaining (c : Connection E) : ℕ ×ₗ ℕ ×ₗ ℕ :=
  toLex (c.toSend.length, toLex (c.server.incoming.length, roundsLeft c.server))

theorem incoming_handleMessage (bytes : Bytes) (server : NetServer E) :
    (server.handleMessage api bytes).incoming = server.incoming := by
  unfold handleMessage
  split
  · rfl
  · rfl
  · exact (handled_dispatch api server _).2

theorem incoming_cancelHandler (threads : Streaming) (bytes : Bytes) (server : NetServer E) :
    (server.cancelHandler threads bytes).incoming = server.incoming := by
  unfold cancelHandler
  split
  · rfl
  · rfl
  · dsimp only
    split <;> rfl
  · rfl

theorem roundsLeft_joined (threads : Streaming) (server : NetServer E) :
    roundsLeft (server.joined threads) = 0 := by
  unfold joined
  split <;> rfl

/-- A round of the stream is one less to take. -/
theorem Streamed.roundsLeft {threads : Streaming} {server after : NetServer E}
    (h : Streamed threads server after) (hmode : server.mode = .streaming threads) :
    after.incoming = server.incoming ∧ roundsLeft after < roundsLeft server := by
  rw [roundsLeft_streaming hmode]
  cases h with
  | start result hstream hserver =>
    subst hserver
    rw [hstream]
    exact ⟨rfl, Nat.lt_succ_self _⟩
  | chunk result rest payload hstream hrest hrows hserver =>
    subst hserver hrest
    rw [hstream]
    refine ⟨rfl, ?_⟩
    show (result.rows.drop batchSize).length + 2 < result.rows.length + 2
    have hpos : 0 < result.rows.length := List.length_pos_iff.mpr hrows
    rw [List.length_drop, batchSize]
    omega
  | finish result hstream _ hserver =>
    subst hserver
    rw [hstream]
    refine ⟨rfl, ?_⟩
    show 1 < result.rows.length + 2
    omega
  | throws result hstream hserver =>
    subst hserver
    rw [hstream]
    exact ⟨rfl, Nat.succ_pos _⟩

/-- **Every step leaves less to do.** -/
theorem remaining_step {c c' : Connection E} {a : Action} (h : Step api c a c') :
    remaining c' < remaining c := by
  unfold remaining
  rw [Prod.Lex.toLex_lt_toLex, Prod.Lex.toLex_lt_toLex]
  cases a with
  | clientSends =>
    obtain ⟨m, ms, hsend, -, rfl⟩ := step_clientSends h
    refine Or.inl ?_
    rw [hsend]
    exact Nat.lt_succ_self _
  | serverReceives =>
    obtain ⟨bytes, rest, -, hincoming, rfl⟩ := step_serverReceives h
    refine Or.inr ⟨rfl, Or.inl ?_⟩
    show (handleMessage api bytes { c.server with incoming := rest }).incoming.length < _
    rw [incoming_handleMessage, hincoming]
    exact Nat.lt_succ_self _
  | streamRuns =>
    obtain ⟨threads, after, hmode, hafter, rfl⟩ := step_streamRuns h
    obtain ⟨hincoming, hless⟩ := (streamed_streamHandler hafter).roundsLeft hmode
    exact Or.inr ⟨rfl, Or.inr ⟨congrArg List.length hincoming, hless⟩⟩
  | cancelReceives =>
    obtain ⟨threads, bytes, rest, -, hincoming, -, rfl⟩ := step_cancelReceives h
    refine Or.inr ⟨rfl, Or.inl ?_⟩
    show (cancelHandler threads bytes { c.server with incoming := rest }).incoming.length < _
    rw [incoming_cancelHandler, hincoming]
    exact Nat.lt_succ_self _
  | threadsJoin =>
    obtain ⟨threads, hmode, hfinished, -, rfl⟩ := step_threadsJoin h
    refine Or.inr ⟨rfl, Or.inr ⟨congrArg List.length (joined_incoming threads c.server), ?_⟩⟩
    show roundsLeft (c.server.joined threads) < roundsLeft c.server
    rw [roundsLeft_joined, roundsLeft_streaming hmode, hfinished]
    exact Nat.one_pos

/-- No run goes on for ever. -/
theorem wellFounded_step : WellFounded fun c' c : Connection E => ∃ a, Step api c a c' :=
  Subrelation.wf (fun ⟨_, hstep⟩ => remaining_step api hstep) (InvImage.wf remaining wellFounded_lt)

/-! ## Every request is handled -/

/-- The connection of a client that has sent nothing yet. -/
structure Fresh (c : Connection E) : Prop where
  mode : c.server.mode = .reading
  incoming : c.server.incoming = []
  handled : c.server.handled = []
  sent : c.sent = []
  mark : c.mark ≤ c.server.frames.length

theorem Fresh.inv {c : Connection E} (h : Fresh c) (hfits : ∀ m ∈ c.toSend, m.Fits)
    (hu : Unhindered api (.main c.server.sessions) c.toSend) : Inv api c [] where
  incoming := h.incoming
  mark := h.mark
  fits := hfits
  handled := by
    rw [h.handled, h.sent]
    rfl
  marks _ hmem := by
    rw [h.handled] at hmem
    cases hmem
  answered _ hmem := by
    rw [h.handled] at hmem
    cases hmem
  phase := .main (Or.inl h.mode) (Or.inl rfl) hu

variable {api}

/-- Of the messages that come after the end of the connection none is a
request. -/
theorem filter_of_unhindered_nobody {ms rest : List NetMessage}
    (h : Unhindered api .nobody (ms ++ rest)) : ms.filter isRequest = [] := by
  induction ms with
  | nil => rfl
  | cons m ms ih =>
    obtain ⟨hm, hms⟩ := h
    rw [List.filter_cons_of_neg (Bool.eq_false_iff.mp hm)]
    exact ih hms

/-- A stream that has not been sent goes on. -/
theorem streamHandler_ne_none {threads : Streaming} (server : NetServer E)
    (h : threads.stream ≠ .finished) : server.streamHandler threads ≠ none := by
  unfold streamHandler
  cases hstream : threads.stream with
  | starting result => exact Option.some_ne_none _
  | finished => exact absurd hstream h
  | sending result =>
    dsimp only
    split
    · exact Option.some_ne_none _
    · split <;> exact Option.some_ne_none _

/-- When nothing can happen any more, no stream is being sent. -/
theorem Quiescent.finished {c : Connection E} (h : Quiescent api c) {threads : Streaming}
    (hmode : c.server.mode = .streaming threads) : threads.stream = .finished := by
  by_contra hstream
  have hact : act api c .streamRuns = none := h .streamRuns
  simp only [act, hmode, Option.map_eq_none_iff] at hact
  exact streamHandler_ne_none c.server hstream hact

/-- **When nothing can happen any more, no request is on its way.** -/
theorem Quiescent.queue {c : Connection E} {queue : List NetMessage} (h : Quiescent api c)
    (hinv : Inv api c queue) : queue.filter isRequest = [] := by
  have hincoming : ∀ m ms, queue = m :: ms → c.server.incoming = encode m :: ms.map encode :=
    fun m ms hqueue => by rw [hinv.incoming, hqueue, List.map_cons]
  cases hinv.phase with
  | main hreads hqueue =>
    rcases hqueue with rfl | ⟨m, rfl, -⟩
    · rfl
    · rcases hreads with hreading | ⟨threads, hmode, hfinished, hjoining, -⟩
      · have hact : act api c .serverReceives = none := h .serverReceives
        simp only [act, hreading, hincoming m [] rfl] at hact
        cases hact
      · have hact : act api c .threadsJoin = none := h .threadsJoin
        simp only [act, hmode, hfinished, hjoining] at hact
        cases hact
  | streams _ _ _ _ _ _ _ hqueue => rw [hqueue, List.filter_nil]
  | stuck hqueue => rw [hqueue, List.filter_nil]
  | leftover threads hmode _ hwaiting _ hqueue =>
    rcases hqueue with rfl | ⟨m, rfl, -⟩
    · rfl
    · have hact : act api c .cancelReceives = none := h .cancelReceives
      simp only [act, hmode, hincoming m [] rfl, hwaiting, if_true] at hact
      cases hact
  | ended _ hu => exact filter_of_unhindered_nobody hu

/-- **No unhindered request is lost.** Whatever the client is going to send and
in whatever order the threads take their steps: a request that has been sent has
reached its handler, once and in its turn, or is on its way there; the
connection comes to rest, and then every request that has been sent has reached
its handler and has since been answered by a `PONG` that carries its id. -/
theorem requests_handled (api : EngineApi E) (c : Connection E) (hfresh : c.Fresh)
    (hfits : ∀ m ∈ c.toSend, m.Fits)
    (hu : Unhindered api (.main c.server.sessions) c.toSend) :
    (∀ as c', Run (Step api) c as c' →
      (∃ waiting, c'.server.handled.map Handled.message ++ waiting = c'.sent.filter isRequest)
        ∧ (Quiescent api c' → c'.server.handled.map Handled.message = c'.sent.filter isRequest
          ∧ ∀ h ∈ c'.server.handled, Answered c' h))
      ∧ WellFounded fun c' c : Connection E => ∃ a, Step api c a c' := by
  refine ⟨fun as c' hrun => ?_, wellFounded_step api⟩
  obtain ⟨queue, hinv⟩ := hrun.invariant (fun _ _ _ h hstep => inv_step h hstep)
    ⟨[], hfresh.inv api hfits hu⟩
  refine ⟨⟨_, hinv.handled⟩, fun hquiet => ?_⟩
  have hall : c'.server.handled.map Handled.message = c'.sent.filter isRequest := by
    rw [← hinv.handled, hquiet.queue hinv, List.append_nil]
  refine ⟨hall, fun h hmem => ?_⟩
  rcases hinv.answered h hmem with hdone | ⟨threads, result, hmode, hstarting, -⟩
  · exact hdone
  · rw [hquiet.finished hmode] at hstarting
    cases hstarting

/-- An engine that finds no rows and fails at nothing. -/
def quietEngine : EngineApi Unit where
  executeQuery _ _ := some ((), .ok { outputSchema := [], rows := [] })
  createDb _ _ := some ((), .ok ())
  attachDb _ _ := some ((), .ok ())

/-- A connection to the quiet engine, over a session of its own. -/
def quietConnection (toSend : List NetMessage) : Connection Unit where
  server := { sessionId := UUID.null, sessions := fun _ => some () }
  toSend := toSend

/-- A client that makes a database, queries it, cancels the stream and then
attaches the database. -/
theorem requests_handled_quiet :
    let c := quietConnection
      [.createDb UUID.null 1 [100], .query UUID.null 2 [], .cancelStream UUID.null 3,
        .attachDb UUID.null 4 [100]]
    (∀ as c', Run (Step quietEngine) c as c' →
      (∃ waiting, c'.server.handled.map Handled.message ++ waiting = c'.sent.filter isRequest)
        ∧ (Quiescent quietEngine c' →
          c'.server.handled.map Handled.message = c'.sent.filter isRequest
          ∧ ∀ h ∈ c'.server.handled, Answered c' h))
      ∧ WellFounded fun c' c : Connection Unit => ∃ a, Step quietEngine c a c' :=
  requests_handled quietEngine _ ⟨rfl, rfl, rfl, rfl, Nat.zero_le _⟩ (by decide) (by decide +kernel)

/-- The connection after some steps, if they can be taken. -/
def acts (api : EngineApi E) (c : Connection E) : List Action → Option (Connection E)
  | [] => some c
  | a :: as => (act api c a).bind fun c' => acts api c' as

/-- The steps that can be taken are a run. -/
theorem run_of_acts {c c' : Connection E} {as : List Action} (h : acts api c as = some c') :
    Run (Step api) c as c' := by
  induction as generalizing c with
  | nil =>
    obtain rfl := Option.some.inj h
    exact .nil c
  | cons a as ih =>
    obtain ⟨c₁, hact, hrest⟩ := Option.bind_eq_some_iff.mp h
    exact .cons hact (ih hrest)

/-- A server that reads from a client that has nothing on its way and nothing to
send. -/
def idle (c : Connection E) : Bool :=
  match c.server.mode, c.server.incoming, c.toSend with
  | .reading, [], [] => true
  | _, _, _ => false

theorem quiescent_of_idle {c : Connection E} (h : c.idle = true) : Quiescent api c := by
  unfold idle at h
  split at h
  case h_1 hmode hincoming hsend =>
    intro a
    cases a <;> simp only [act, hmode, hincoming, hsend]
  case h_2 => cases h

/-- A client with two queries. -/
def twoQueries : Connection Unit :=
  quietConnection [.query UUID.null 1 [], .query UUID.null 2 []]

/-- The second query is sent when the stream of the first has been sent, and
received before its threads have been joined. -/
def lostQuery : List Action :=
  [.clientSends, .serverReceives, .streamRuns, .streamRuns, .clientSends, .cancelReceives,
    .threadsJoin]

/-- **A request can be lost**: of two queries, the second sent after the complete
response to the first, the second is received by the thread that waits for the
cancellation of the first one's stream, and dropped. -/
theorem not_requests_handled :
    ¬ ∀ (c : Connection Unit), c.Fresh → (∀ m ∈ c.toSend, m.Fits) → ∀ as c',
      Run (Step quietEngine) c as c' → Quiescent quietEngine c' →
        c'.server.handled.map Handled.message = c'.sent.filter isRequest := by
  intro hall
  have hlost : ((acts quietEngine twoQueries lostQuery).map fun c' =>
      (c'.idle, c'.server.handled.map Handled.message, c'.sent))
        = some (true, [.query UUID.null 1 []],
            [.query UUID.null 1 [], .query UUID.null 2 []]) := by
    decide +kernel
  obtain ⟨c', hacts, hc'⟩ := Option.map_eq_some_iff.mp hlost
  obtain ⟨hidle, hc'⟩ := Prod.mk.inj hc'
  obtain ⟨hhandled, hsent⟩ := Prod.mk.inj hc'
  have hequal := hall twoQueries ⟨rfl, rfl, rfl, rfl, Nat.zero_le _⟩ (by decide) lostQuery c'
    (run_of_acts hacts) (quiescent_of_idle hidle)
  rw [hhandled, hsent] at hequal
  exact absurd hequal (by decide)

end Connection
