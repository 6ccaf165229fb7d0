import Deltabase.Lib.Transition
import Deltabase.Network.QueryResultSerializer
import Deltabase.Network.StdNetProtocol
import Mathlib.Logic.Function.Basic

/-!
# The server and one of its clients

`net::NetServer` serves a client in a thread of its own, which reads one message
after another and hands it to the handler of its kind. A query that has been
executed is answered with a stream of results: one thread sends the chunks,
another reads from the same socket, for the client may cancel the stream, and
both are waited for before the next message is read.

`Connection` is the server's side of one connection together with the client,
which has a list of messages to send and sends each when it has the complete
response to the one before. `act` says what each party can do next, so a run is
an interleaving of the client and the threads of the server.

The engine of a session is a parameter: what the server does with a result does
not depend on how the engine arrives at it. A result may throw when it is asked
for a row; that happens in the thread that sends the chunks, where nothing
catches it, and ends the process.
-/

/-! ## The engine -/

/-- `types::IExecutionResult`: the rows that `next` will return, and whether it
throws when there are no more. -/
structure QueryResult where
  outputSchema : OutputSchema
  rows : List DataRow
  throws : Bool := false

/-- How `attach_db` fails. -/
inductive AttachFailure where
  /-- `DbDoesntExists`. -/
  | dbDoesntExist
  /-- Another exception, with its `what()`. -/
  | exception (what : Bytes)

/-- `engine::Engine`, as the server uses it: each call leaves an engine and
returns or throws, or is `none` when it goes on for ever or ends the process. -/
structure EngineApi (E : Type) where
  executeQuery : E → Bytes → Option (E × Except Bytes QueryResult)
  createDb : E → Bytes → Option (E × Except Bytes Unit)
  attachDb : E → Bytes → Option (E × Except AttachFailure Unit)

/-! ## The state of the server -/

/-- `stream_thread`. -/
inductive StreamThread where
  | starting (result : QueryResult)
  | sending (result : QueryResult)
  | finished

/-- The two threads of `handle_stream` and what they share. -/
structure Streaming where
  sessionId : UUID
  requestId : Int32
  stream : StreamThread
  /-- `cancel_thread` waits for a message. -/
  cancelWaiting : Bool := true
  cancelled : Bool := false
  stop : Bool := false

/-- Where the client's thread is. -/
inductive ServerMode where
  /-- In `handle_message`, waiting for a message. -/
  | reading
  /-- In `handle_stream`, waiting for its threads. -/
  | streaming (threads : Streaming)
  /-- In a call of the engine that does not return. -/
  | calling
  /-- The connection is closed and `handle_client` has returned. -/
  | stopped
  /-- The process has been ended by an exception. -/
  | terminated

/-- A message that has reached the handler of a request. -/
structure Handled where
  message : NetMessage
  /-- How many frames had been sent to the client then. -/
  mark : ℕ
  deriving DecidableEq

/-- **The server's side of a connection.** -/
structure NetServer (E : Type) where
  /-- The session that `handle_client` has made. -/
  sessionId : UUID
  /-- `sessions_`. -/
  sessions : UUID → Option E
  mode : ServerMode := .reading
  /-- What the client has sent and nobody has received. -/
  incoming : List Bytes := []
  /-- What has been sent to the client. -/
  frames : List NetMessage := []
  /-- The messages that have been handed to the handler of a request. -/
  handled : List Handled := []

namespace NetServer

open StdNetProtocol

/-- `MAX_INCOMING_LEN`. -/
def maxIncomingLen : ℕ := 10 * 1024 * 1024

/-- `batch_size`. -/
def batchSize : ℕ := 1024

variable {E : Type}

/-! ## Answers -/

/-- `handle.send_message(protocol_->encode(message))`. -/
def sendMessage (message : NetMessage) (server : NetServer E) : NetServer E :=
  { server with frames := server.frames ++ [message] }

/-- The end of the connection: the handle is closed, the loop of `handle_client`
ends and the session is erased. -/
def stopped (server : NetServer E) : NetServer E :=
  { server with
    mode := .stopped
    sessions := Function.update server.sessions server.sessionId none }

/-- `send_pong_and_stop`. -/
def sendPongAndStop (sessionId : UUID) (err : NetErrorCode) (requestId : Int32) (error : Bytes)
    (server : NetServer E) : NetServer E :=
  let payload := if error ≠ [] ∧ err ≠ .success then error else []
  (server.sendMessage (.pong sessionId err requestId payload)).stopped

/-- `send_success`. -/
def sendSuccess (sessionId : UUID) (requestId : Int32) (server : NetServer E) : NetServer E :=
  server.sendMessage (.pong sessionId .success requestId [])

/-- Keeps the engine that a call has left. -/
def setSession (sessionId : UUID) (engine : E) (server : NetServer E) : NetServer E :=
  { server with sessions := Function.update server.sessions sessionId (some engine) }

/-- Notes that a request has reached its handler. -/
def note (message : NetMessage) (server : NetServer E) : NetServer E :=
  { server with handled := server.handled ++ [{ message, mark := server.frames.length }] }

@[simp] theorem note_sessions (message : NetMessage) (server : NetServer E) :
    (server.note message).sessions = server.sessions := rfl

/-! ## The handlers -/

variable (api : EngineApi E)

/-- `handle_query_message`, up to the threads of `handle_stream`. -/
def handleQueryMessage (sessionId : UUID) (requestId : Int32) (query : Bytes)
    (server : NetServer E) : NetServer E :=
  match server.sessions sessionId with
  | none => server.sendPongAndStop sessionId .uninitializedSession requestId []
  | some engine =>
    match api.executeQuery engine query with
    | none => { server with mode := .calling }
    | some (engine, .error what) =>
      (server.setSession sessionId engine).sendPongAndStop sessionId .sqlError requestId what
    | some (engine, .ok result) =>
      { server.setSession sessionId engine with
        mode := .streaming { sessionId, requestId, stream := .starting result } }

/-- `handle_create_db_message`. -/
def handleCreateDbMessage (sessionId : UUID) (requestId : Int32) (dbName : Bytes)
    (server : NetServer E) : NetServer E :=
  match server.sessions sessionId with
  | none => server.sendPongAndStop sessionId .uninitializedSession requestId []
  | some engine =>
    match api.createDb engine dbName with
    | none => { server with mode := .calling }
    | some (engine, .error what) =>
      (server.setSession sessionId engine).sendPongAndStop sessionId .sqlError requestId what
    | some (engine, .ok _) => (server.setSession sessionId engine).sendSuccess sessionId requestId

/-- `handle_attach_db_message`. -/
def handleAttachDbMessage (sessionId : UUID) (requestId : Int32) (dbName : Bytes)
    (server : NetServer E) : NetServer E :=
  match server.sessions sessionId with
  | none => server.sendPongAndStop sessionId .uninitializedSession requestId []
  | some engine =>
    match api.attachDb engine dbName with
    | none => { server with mode := .calling }
    | some (engine, .error .dbDoesntExist) =>
      (server.setSession sessionId engine).sendPongAndStop sessionId .dbNotExists requestId []
    | some (engine, .error (.exception what)) =>
      (server.setSession sessionId engine).sendPongAndStop sessionId .sqlError requestId what
    | some (engine, .ok _) => (server.setSession sessionId engine).sendSuccess sessionId requestId

/-- `handle_close_message`. -/
def handleCloseMessage (sessionId : UUID) (requestId : Int32) (server : NetServer E) :
    NetServer E :=
  match server.sessions sessionId with
  | none => server.sendPongAndStop sessionId .uninitializedSession requestId []
  | some _ =>
    { server with sessions := Function.update server.sessions sessionId none }.stopped

/-- The cases of `handle_message`. -/
def dispatch (message : NetMessage) (server : NetServer E) : NetServer E :=
  match message with
  | .ping requestId => server.sendPongAndStop UUID.null .protocolViolation requestId []
  | .pong _ _ requestId _ => server.sendPongAndStop UUID.null .protocolViolation requestId []
  | .query sessionId requestId query =>
    (server.note message).handleQueryMessage api sessionId requestId query
  | .createDb sessionId requestId dbName =>
    (server.note message).handleCreateDbMessage api sessionId requestId dbName
  | .attachDb sessionId requestId dbName =>
    (server.note message).handleAttachDbMessage api sessionId requestId dbName
  | .close sessionId requestId => server.handleCloseMessage sessionId requestId
  | .cancelStream _ requestId => server.sendPongAndStop UUID.null .protocolViolation requestId []

/-- `receive_message` and `parse`: `none` when the message is too long to be
received. -/
def receive (bytes : Bytes) : Option (Except ReadError NetMessage) :=
  if bytes.length > maxIncomingLen then none else some (parse bytes)

/-- `handle_message`. -/
def handleMessage (bytes : Bytes) (server : NetServer E) : NetServer E :=
  match receive bytes with
  | none => server.stopped
  | some (.error _) => { server with mode := .terminated }
  | some (.ok message) => server.dispatch api message

/-! ## The threads of a stream -/

/-- How `next_chunk` ends. -/
inductive Chunk where
  | empty
  | rows (rows : List DataRow) (rest : QueryResult)
  | throws

/-- `next_chunk`. -/
def nextChunk (result : QueryResult) : Chunk :=
  if result.rows.length < batchSize ∧ result.throws = true then .throws
  else if result.rows = [] then .empty
  else .rows (result.rows.take batchSize) { result with rows := result.rows.drop batchSize }

/-- One round of `stream_handler`. -/
def streamHandler (threads : Streaming) (server : NetServer E) : Option (NetServer E) :=
  let pong (err : NetErrorCode) (payload : Bytes) : NetMessage :=
    .pong threads.sessionId err threads.requestId payload
  let goOn (stream : StreamThread) (server : NetServer E) : NetServer E :=
    { server with mode := .streaming { threads with stream := stream } }
  match threads.stream with
  | .starting result => some (goOn (.sending result) (server.sendMessage (pong .startStream [])))
  | .sending result =>
    if threads.cancelled then some (goOn .finished (server.sendMessage (pong .endStream [])))
    else match nextChunk result with
      | .empty => some (goOn .finished (server.sendMessage (pong .endStream [])))
      | .rows rows rest =>
        let chunk : DataTable := { outputSchema := result.outputSchema, rows := rows }
        some (goOn (.sending rest)
          (server.sendMessage (pong .streamChunk (QueryResultSerializer.serialize chunk))))
      | .throws => some { server with mode := .terminated }
  | .finished => none

/-- `cancel_handler`. A message that is not the cancellation of this stream is
dropped. -/
def cancelHandler (threads : Streaming) (bytes : Bytes) (server : NetServer E) : NetServer E :=
  let threads := { threads with cancelWaiting := false }
  match receive bytes with
  | none => { server with mode := .streaming { threads with cancelled := true, stop := true } }
  | some (.error _) => { server with mode := .terminated }
  | some (.ok (.cancelStream sessionId requestId)) =>
    if sessionId ≠ threads.sessionId then { server with mode := .streaming threads }
    else
      { server with mode := .streaming { threads with cancelled := true } }.sendSuccess
        threads.sessionId requestId
  | some (.ok _) => { server with mode := .streaming threads }

/-- The end of `handle_stream`, when both threads have been joined. -/
def joined (threads : Streaming) (server : NetServer E) : NetServer E :=
  if threads.stop then server.stopped else { server with mode := .reading }

end NetServer

/-! ## The connection -/

/-- **A connection**: the server's side and the client. -/
structure Connection (E : Type) where
  server : NetServer E
  /-- What the client is going to send. -/
  toSend : List NetMessage
  /-- What it has sent. -/
  sent : List NetMessage := []
  /-- How many frames had been sent to it when it sent its last message. -/
  mark : ℕ := 0

namespace Connection

open StdNetProtocol NetServer

variable {E : Type}

/-- A frame that ends the response to a query: not the beginning of a stream
and not a part of one. -/
def endsStream : NetErrorCode → Bool
  | .startStream => false
  | .streamChunk => false
  | _ => true

/-- A `PONG` to a request, with a code of some kind. -/
def isPong (requestId : Int32) (p : NetErrorCode → Bool) : NetMessage → Bool
  | .pong _ err id _ => id == requestId && p err
  | _ => false

/-- What the client has been sent since its last message. -/
def heard (c : Connection E) : List NetMessage := c.server.frames.drop c.mark

/-- The connection has been closed by the server. -/
def closed (c : Connection E) : Bool :=
  match c.server.mode with
  | .stopped => true
  | _ => false

/-- **The client has the complete response** to its last message: for a query
the end of the stream or an error, for a close the end of the connection, else
a `PONG`. -/
def responseComplete (c : Connection E) : Bool :=
  match c.sent.getLast? with
  | none => true
  | some (.query _ requestId _) => c.heard.any (isPong requestId endsStream)
  | some (.close _ requestId) => c.closed || c.heard.any (isPong requestId fun _ => true)
  | some m => c.heard.any (isPong m.requestId fun _ => true)

/-- What can happen next. -/
inductive Action where
  | clientSends
  | serverReceives
  | streamRuns
  | cancelReceives
  | threadsJoin
  deriving DecidableEq

variable (api : EngineApi E)

/-- **The next step of a party**, `none` when it has to wait. -/
def act (c : Connection E) : Action → Option (Connection E)
  | .clientSends =>
    match c.toSend with
    | m :: ms =>
      if c.responseComplete then
        some
          { server := { c.server with incoming := c.server.incoming ++ [encode m] }
            toSend := ms
            sent := c.sent ++ [m]
            mark := c.server.frames.length }
      else none
    | [] => none
  | .serverReceives =>
    match c.server.mode, c.server.incoming with
    | .reading, bytes :: rest =>
      some { c with server := { c.server with incoming := rest }.handleMessage api bytes }
    | _, _ => none
  | .streamRuns =>
    match c.server.mode with
    | .streaming threads =>
      (c.server.streamHandler threads).map fun server => { c with server := server }
    | _ => none
  | .cancelReceives =>
    match c.server.mode, c.server.incoming with
    | .streaming threads, bytes :: rest =>
      if threads.cancelWaiting then
        some { c with server := { c.server with incoming := rest }.cancelHandler threads bytes }
      else none
    | _, _ => none
  | .threadsJoin =>
    match c.server.mode with
    | .streaming threads =>
      match threads.stream, threads.cancelWaiting with
      | .finished, false => some { c with server := c.server.joined threads }
      | _, _ => none
    | _ => none

/-- A step of a run. -/
def Step (c : Connection E) (a : Action) (c' : Connection E) : Prop := act api c a = some c'

/-- Nothing can happen any more. -/
def Quiescent (c : Connection E) : Prop := ∀ a, act api c a = none

end Connection
