import Deltabase.Client.ResultTable
import Deltabase.Lib.Stateful
import Deltabase.Network.NetServer

/-!
# How the client receives a result

`DeltabaseConnector` sends a query, awaits its response and then receives the
chunks of the result. The frames it is sent are those of the server's
`stream_thread` (`streamRun`): the start of the stream, the chunks, the end.

Both `ExecuteCommandAsync` and `ReceiveStreamAsync` receive the frame with which
the stream starts. The server sends one, so the second of them finds the first
chunk or the end of the stream in its place and throws, whatever the result is
(`not_receives`).
-/

/-! ## Frames -/

namespace SocketHandle

open StdProtocolImpl Stateful

/-- What `send_message` writes: the length, as a `uint32_t` of the network, and
the content. -/
def sendMessage (content : Bytes) : Bytes := beBytes 4 (content.length % 2 ^ 32) ++ content

/-- Why the client does not go on. -/
inductive Stop where
  | threw (e : ClientExn)
  /-- The bytes it needs have not been sent. -/
  | waiting
  deriving DecidableEq

/-- A method of the client over the bytes that it has been sent and has not
received. -/
abbrev Receiver (α : Type) := EStateM Stop Bytes α

/-- `ReceiveExactAsync`. -/
def receiveExact (length : ℕ) : Receiver Bytes := fun s =>
  if s.length < length then .error .waiting s else .ok (s.take length) (s.drop length)

/-- `Protocol.Parse`. -/
def parse (payload : Bytes) : Receiver DeltabaseMessage :=
  match StdProtocolImpl.parse payload with
  | .ok message => pure message
  | .error e => throw (.threw e)

/-- The payload of a message. -/
def receivePayload (payloadLength : ℕ) : Receiver Bytes :=
  if payloadLength = 0 then pure [] else receiveExact payloadLength

/-- `ReceiveAsync`. -/
def receive : Receiver DeltabaseMessage := do
  let header ← receiveExact 4
  let payloadLength := beNat header
  if payloadLength > intMaxValue then
    throw (.threw (.invalidOperation "Incoming payload is too large."))
  else do
    let payload ← receivePayload payloadLength
    parse payload

theorem receiveExact_append {bs : Bytes} {length : ℕ} (h : bs.length = length) (t : Bytes) :
    receiveExact length (bs ++ t) = .ok bs t := by
  have hlen : ¬ (bs ++ t).length < length := by
    rw [List.length_append, h]
    exact Nat.not_lt.mpr (Nat.le_add_right _ _)
  rw [receiveExact, if_neg hlen, ← h, List.take_left, List.drop_left]

theorem length_receiveExact {length : ℕ} {s t bs : Bytes} (h : receiveExact length s = .ok bs t) :
    s.length = t.length + length := by
  unfold receiveExact at h
  split at h
  · cases h
  · obtain ⟨-, rfl⟩ := EStateM.Result.ok.inj h
    rw [List.length_drop]
    omega

theorem length_parse {payload s t : Bytes} {m : DeltabaseMessage}
    (h : parse payload s = .ok m t) : t = s := by
  unfold parse at h
  cases hm : StdProtocolImpl.parse payload with
  | ok m =>
    rw [hm] at h
    exact (EStateM.Result.ok.inj h).2.symm
  | error e =>
    rw [hm] at h
    cases h

/-- **A message that has been received has been taken from the socket.** -/
theorem length_receive {s t : Bytes} {m : DeltabaseMessage} (h : receive s = .ok m t) :
    t.length < s.length := by
  obtain ⟨header, u, hheader, hrest⟩ := bind_eq_ok h
  have hlen := length_receiveExact hheader
  dsimp only at hrest
  split at hrest
  · cases hrest
  · obtain ⟨payload, v, hpayload, hparse⟩ := bind_eq_ok hrest
    rw [length_parse hparse]
    unfold receivePayload at hpayload
    split at hpayload
    · obtain ⟨-, rfl⟩ := EStateM.Result.ok.inj hpayload
      omega
    · have hlen' := length_receiveExact hpayload
      omega

end SocketHandle

/-! ## Receiving a result -/

namespace DeltabaseConnector

open SocketHandle StdProtocolImpl Stateful

/-- A `PongMessage` on the side of the client. -/
structure PongMessage where
  sessionId : Guid
  requestId : Int32
  errorCode : NetErrorCode
  payload : Bytes

/-- `ThrowIfUnsuccessful`. -/
def throwIfUnsuccessful (response : DeltabaseMessage) (requestId : Int32) :
    Receiver PongMessage :=
  match response with
  | .pong sessionId id errorCode payload =>
    if id ≠ requestId then throw (.threw (.deltabaseError .protocolViolation))
    else if errorCode.isFailure then throw (.threw (.deltabaseError errorCode))
    else pure { sessionId, requestId := id, errorCode, payload }
  | _ => throw (.threw (.deltabaseError .protocolViolation))

/-- `ExecuteCommandAsync`, when the query has been sent. -/
def executeCommandAsync (requestId : Int32) : Receiver Unit := do
  let response ← receive
  let _ ← throwIfUnsuccessful response requestId
  pure ()

/-- What the loop of `ReceiveStreamAsync` does with a message. -/
inductive Received where
  | endStream
  | table (t : Table)

/-- One round of the loop, with its message. -/
def receiveTable (sessionId : Guid) (requestId : Int32) (message : DeltabaseMessage) :
    Receiver Received := do
  let chunkPong ← throwIfUnsuccessful message requestId
  if chunkPong.errorCode = .endStream then pure .endStream
  else if chunkPong.errorCode ≠ .streamChunk ∨ chunkPong.sessionId ≠ sessionId
      ∨ chunkPong.requestId ≠ requestId then
    throw (.threw (.deltabaseError .protocolViolation))
  else match parseTable chunkPong.payload with
    | .ok table => pure (.table table)
    | .error e => throw (.threw e)

theorem throwIfUnsuccessful_state {response : DeltabaseMessage} {requestId : Int32} {s t : Bytes}
    {pong : PongMessage} (h : throwIfUnsuccessful response requestId s = .ok pong t) : t = s := by
  unfold throwIfUnsuccessful at h
  split at h
  · split at h
    · cases h
    · split at h
      · cases h
      · exact (EStateM.Result.ok.inj h).2.symm
  · cases h

/-- What a round does not receive it leaves. -/
theorem receiveTable_state {sessionId : Guid} {requestId : Int32} {message : DeltabaseMessage}
    {s t : Bytes} {received : Received}
    (h : receiveTable sessionId requestId message s = .ok received t) : t = s := by
  obtain ⟨pong, u, hpong, hrest⟩ := bind_eq_ok h
  obtain rfl := throwIfUnsuccessful_state hpong
  split at hrest
  · exact (EStateM.Result.ok.inj hrest).2.symm
  · split at hrest
    · cases hrest
    · cases htable : parseTable pong.payload with
      | ok table =>
        rw [htable] at hrest
        exact (EStateM.Result.ok.inj hrest).2.symm
      | error e =>
        rw [htable] at hrest
        cases hrest

/-- The loop of `ReceiveStreamAsync`, enumerated to its end by a caller that does
not cancel. -/
def receiveTables (sessionId : Guid) (requestId : Int32) : Receiver (List Table) := fun s =>
  match hm : receive s with
  | .error e t => .error e t
  | .ok message t =>
    match hu : receiveTable sessionId requestId message t with
    | .error e u => .error e u
    | .ok .endStream u => .ok [] u
    | .ok (.table table) u =>
      have : u.length < s.length := by
        rw [receiveTable_state hu]
        exact length_receive hm
      match receiveTables sessionId requestId u with
      | .error e v => .error e v
      | .ok tables v => .ok (table :: tables) v
  termination_by s => s.length

/-- `ReceiveStreamAsync`. -/
def receiveStreamAsync (sessionId : Guid) (requestId : Int32) : Receiver (List Table) := do
  let startStream ← receive
  let startStreamPong ← throwIfUnsuccessful startStream requestId
  if startStreamPong.errorCode ≠ .startStream ∨ startStreamPong.sessionId ≠ sessionId then
    throw (.threw (.deltabaseError .protocolViolation))
  else receiveTables sessionId requestId

/-- A query that has been sent, and its result enumerated. -/
def executeAndEnumerate (sessionId : Guid) (requestId : Int32) : Receiver (List Table) := do
  executeCommandAsync requestId
  receiveStreamAsync sessionId requestId

/-! ## What the server sends -/

/-- The frame of a chunk. -/
def chunkFrame (sessionId : UUID) (requestId : Int32) (chunk : DataTable) : NetMessage :=
  .pong sessionId .streamChunk requestId (QueryResultSerializer.serialize chunk)

/-- **The frames of a result**: the start of the stream, a chunk for each table,
the end. -/
def streamFrames (sessionId : UUID) (requestId : Int32) (chunks : List DataTable) :
    List NetMessage :=
  .pong sessionId .startStream requestId []
    :: (chunks.map (chunkFrame sessionId requestId) ++ [.pong sessionId .endStream requestId []])

/-- What the client is sent. -/
def streamBytes (sessionId : UUID) (requestId : Int32) (chunks : List DataTable) : Bytes :=
  (streamFrames sessionId requestId chunks).flatMap fun frame =>
    sendMessage (StdNetProtocol.encode frame)

/-- **The client receives the result**: it consumes the frames, all of them,
and enumerates the tables of the chunks in their order. -/
def Receives (sessionId : Guid) (requestId : Int32) (chunks : List DataTable) : Prop :=
  ∃ tables, (chunks.map fun chunk => parseTable (QueryResultSerializer.serialize chunk))
      = tables.map Except.ok
    ∧ executeAndEnumerate sessionId requestId (streamBytes sessionId requestId chunks)
      = .ok tables []

/-! ### They are what the server sends -/

section Server

open NetServer Connection

/-- The tables that `next_chunk` makes of the rows of a result. -/
def chunksOf (outputSchema : OutputSchema) (rows : List DataRow) : List DataTable :=
  if rows = [] then []
  else
    { outputSchema, rows := rows.take batchSize } :: chunksOf outputSchema (rows.drop batchSize)
  termination_by rows.length
  decreasing_by
    rename_i hrows
    have hpos : 0 < rows.length := List.length_pos_iff.mpr hrows
    rw [List.length_drop, batchSize]
    omega

theorem nextChunk_of_ne {result : QueryResult} (hthrows : result.throws = false)
    (hrows : result.rows ≠ []) :
    nextChunk result = .rows (result.rows.take batchSize)
      { result with rows := result.rows.drop batchSize } := by
  unfold nextChunk
  rw [hthrows, if_neg (fun h => Bool.false_ne_true h.2), if_neg hrows]

theorem nextChunk_of_eq {result : QueryResult} (hthrows : result.throws = false)
    (hrows : result.rows = []) : nextChunk result = .empty := by
  unfold nextChunk
  rw [hthrows, if_neg (fun h => Bool.false_ne_true h.2), if_pos hrows]

variable {E : Type} {api : EngineApi E}

/-- The server after a round of the stream that has sent a frame. -/
def sent (server : NetServer E) (threads : Streaming) (stream : StreamThread) (err : NetErrorCode)
    (payload : Bytes) : NetServer E :=
  { server.sendMessage (.pong threads.sessionId err threads.requestId payload) with
    mode := .streaming { threads with stream := stream } }

/-- A round of the stream is a step of the connection. -/
theorem step_of_streamHandler {c : Connection E} {threads : Streaming} {server : NetServer E}
    (hmode : c.server.mode = .streaming threads)
    (h : c.server.streamHandler threads = some server) :
    Step api c .streamRuns { c with server := server } := by
  show act api c .streamRuns = _
  simp only [act, hmode, h, Option.map_some]

theorem streamHandler_starting {server : NetServer E} {threads : Streaming} {result : QueryResult}
    (h : threads.stream = .starting result) :
    server.streamHandler threads
      = some (sent server threads (.sending result) .startStream []) := by
  unfold streamHandler
  rw [h]
  rfl

theorem streamHandler_rows {server : NetServer E} {threads : Streaming} {result : QueryResult}
    (h : threads.stream = .sending result) (hcancelled : threads.cancelled = false)
    (hthrows : result.throws = false) (hrows : result.rows ≠ []) :
    server.streamHandler threads
      = some (sent server threads (.sending { result with rows := result.rows.drop batchSize })
          .streamChunk (QueryResultSerializer.serialize
            { outputSchema := result.outputSchema, rows := result.rows.take batchSize })) := by
  unfold streamHandler
  rw [h]
  dsimp only
  rw [if_neg (Bool.eq_false_iff.mp hcancelled), nextChunk_of_ne hthrows hrows]
  rfl

theorem streamHandler_end {server : NetServer E} {threads : Streaming} {result : QueryResult}
    (h : threads.stream = .sending result) (hcancelled : threads.cancelled = false)
    (hthrows : result.throws = false) (hrows : result.rows = []) :
    server.streamHandler threads = some (sent server threads .finished .endStream []) := by
  unfold streamHandler
  rw [h]
  dsimp only
  rw [if_neg (Bool.eq_false_iff.mp hcancelled), nextChunk_of_eq hthrows hrows]
  rfl

/-- The rounds of the `stream_thread`, once the stream has started. -/
theorem sendingRun (n : ℕ) : ∀ {c : Connection E} {threads : Streaming} {result : QueryResult},
    result.rows.length = n → c.server.mode = .streaming threads →
    threads.stream = .sending result → threads.cancelled = false → result.throws = false →
    ∃ rounds c', Run (Step api) c (List.replicate rounds .streamRuns) c'
      ∧ c'.server.frames = c.server.frames ++
          ((chunksOf result.outputSchema result.rows).map
              (chunkFrame threads.sessionId threads.requestId)
            ++ [.pong threads.sessionId .endStream threads.requestId []])
      ∧ c'.server.mode = .streaming { threads with stream := .finished } := by
  induction n using Nat.strong_induction_on with
  | _ n ih =>
    intro c threads result hn hmode hstream hcancelled hthrows
    rw [chunksOf]
    by_cases hrows : result.rows = []
    · rw [if_pos hrows]
      exact ⟨1, _, Run.single (step_of_streamHandler hmode
        (streamHandler_end hstream hcancelled hthrows hrows)), rfl, rfl⟩
    · rw [if_neg hrows]
      have hstep : Step api c .streamRuns _ := step_of_streamHandler hmode
        (streamHandler_rows hstream hcancelled hthrows hrows)
      have hpos : 0 < result.rows.length := List.length_pos_iff.mpr hrows
      have hless : (result.rows.drop batchSize).length < n := by
        rw [List.length_drop, batchSize]
        omega
      let server := sent c.server threads
        (.sending { result with rows := result.rows.drop batchSize }) .streamChunk
        (QueryResultSerializer.serialize
          { outputSchema := result.outputSchema, rows := result.rows.take batchSize })
      have hmode₁ : { c with server := server }.server.mode = .streaming _ := rfl
      obtain ⟨rounds, c', hrun, hframes, hmode'⟩ := ih _ hless rfl hmode₁ rfl hcancelled hthrows
      refine ⟨rounds + 1, c', .cons hstep hrun, ?_, hmode'⟩
      rw [hframes, List.map_cons, List.cons_append]
      exact List.append_assoc ..

/-- **A stream that nobody cancels is sent as the frames of its chunks.** -/
theorem streamRun {c : Connection E} {threads : Streaming} {result : QueryResult}
    (hmode : c.server.mode = .streaming threads) (hstream : threads.stream = .starting result)
    (hcancelled : threads.cancelled = false) (hthrows : result.throws = false) :
    ∃ rounds c', Run (Step api) c (List.replicate rounds .streamRuns) c'
      ∧ c'.server.frames = c.server.frames ++ streamFrames threads.sessionId threads.requestId
          (chunksOf result.outputSchema result.rows)
      ∧ c'.server.mode = .streaming { threads with stream := .finished } := by
  have hstep : Step api c .streamRuns _ :=
    step_of_streamHandler hmode (streamHandler_starting hstream)
  let server := sent c.server threads (.sending result) .startStream []
  have hmode₁ : { c with server := server }.server.mode = .streaming _ := rfl
  have hrounds : ∃ rounds c', Run (Step api) { c with server := server } _ c' ∧ _ ∧ _ :=
    sendingRun result.rows.length rfl hmode₁ rfl hcancelled hthrows
  obtain ⟨rounds, c', hrun, hframes, hmode'⟩ := hrounds
  refine ⟨rounds + 1, c', .cons hstep hrun, ?_, hmode'⟩
  rw [hframes]
  exact List.append_assoc ..

end Server

/-! ## What the client makes of it -/

/-- The client reads a `PONG` up to its payload. -/
theorem messageDecoder_pong (sessionId : Guid) (err : NetErrorCode) (requestId : Int32)
    (payload : Bytes) :
    messageDecoder (StdNetProtocol.encode (.pong sessionId err requestId payload))
      = (tryReadBytes >>= fun payload =>
          (pure (.pong sessionId requestId err payload) : Decoder DeltabaseMessage))
        (ReadOnlyMemoryStream.prefixedBytes payload) := by
  have hkind : MessageType.ofByte
      (NetMessage.pong sessionId err requestId payload).type.toUInt8 = some .pong := rfl
  rw [messageDecoder, StdNetProtocol.encode_eq, (reads_tryReadByte _).bind_append, hkind,
    StdNetProtocol.bodyBytes, parseBody, (reads_tryReadGuid sessionId).bind_append,
    (reads_tryReadInt32 requestId).bind_append, (reads_tryReadByte _).bind_append,
    NetErrorCode.ofUInt8_toUInt8]

/-- What it reads of one is a `PONG` with the same ids and code. -/
theorem eq_pong_of_messageDecoder {sessionId : Guid} {err : NetErrorCode} {requestId : Int32}
    {payload t : Bytes} {m : DeltabaseMessage}
    (h : messageDecoder (StdNetProtocol.encode (.pong sessionId err requestId payload))
      = some (m, t)) :
    ∃ payload', m = .pong sessionId requestId err payload' := by
  rw [messageDecoder_pong] at h
  obtain ⟨payload', u, -, hpure⟩ := Decoder.bind_eq_some.mp h
  exact ⟨payload', (Decoder.pure_eq_some.mp hpure).1.symm⟩

/-- A `PONG` without a payload is read as it is. -/
theorem parse_pong (sessionId : Guid) (err : NetErrorCode) (requestId : Int32) :
    StdProtocolImpl.parse (StdNetProtocol.encode (.pong sessionId err requestId []))
      = .ok (.pong sessionId requestId err []) := by
  have hread : (tryReadBytes >>= fun payload =>
      (pure (.pong sessionId requestId err payload) : Decoder DeltabaseMessage)).Reads
        (ReadOnlyMemoryStream.prefixedBytes []) (.pong sessionId requestId err []) :=
    (reads_tryReadBytes (Nat.zero_le _)).bind_pure rfl
  rw [StdProtocolImpl.parse, messageDecoder_pong, hread.run]

theorem extends_tryRead (count : ℕ) : (tryRead count).Extends := by
  intro s t bs h u
  unfold tryRead at h ⊢
  split at h
  · cases h
  · rename_i hle
    obtain ⟨rfl, rfl⟩ := Prod.mk.inj (Option.some.inj h)
    have hcount : count ≤ s.length := Nat.not_lt.mp hle
    have hle' : ¬ count > (s ++ u).length := by
      rw [List.length_append]
      omega
    rw [if_neg hle', List.take_append_of_le_length hcount, List.drop_append_of_le_length hcount]

theorem extends_tryReadByte : tryReadByte.Extends :=
  (extends_tryRead 1).bind fun _ => Decoder.extends_pure _

theorem extends_tryReadInt32 : tryReadInt32.Extends :=
  (extends_tryRead 4).bind fun _ => Decoder.extends_pure _

theorem extends_tryReadGuid : tryReadGuid.Extends :=
  (extends_tryRead 16).bind fun _ => Decoder.extends_pure _

theorem extends_tryReadUInt64BigEndian : tryReadUInt64BigEndian.Extends :=
  (extends_tryRead 8).bind fun _ => Decoder.extends_pure _

theorem extends_tryReadBytes : tryReadBytes.Extends := by
  refine extends_tryReadUInt64BigEndian.bind fun length => ?_
  split
  · exact Decoder.extends_fail
  · split
    · exact Decoder.extends_pure _
    · exact extends_tryRead _

theorem extends_tryReadString : tryReadString.Extends := by
  refine extends_tryReadUInt64BigEndian.bind fun length => ?_
  split
  · exact Decoder.extends_fail
  · exact (extends_tryRead _).bind fun _ => Decoder.extends_pure _

/-- A message and a string that belongs to it. -/
theorem extends_ids {α : Type} {d : Guid → Int32 → Decoder α}
    (h : ∀ sessionId requestId, (d sessionId requestId).Extends) :
    (do
      let sessionId ← tryReadGuid
      let requestId ← tryReadInt32
      d sessionId requestId : Decoder α).Extends :=
  extends_tryReadGuid.bind fun sessionId => extends_tryReadInt32.bind fun requestId =>
    h sessionId requestId

/-- **The client does not look behind a message.** -/
theorem extends_messageDecoder : messageDecoder.Extends := by
  refine extends_tryReadByte.bind fun rawType => ?_
  cases MessageType.ofByte rawType with
  | none => exact Decoder.extends_fail
  | some kind =>
    cases kind with
    | undefined => exact Decoder.extends_fail
    | ping => exact extends_tryReadInt32.bind fun _ => Decoder.extends_pure _
    | cancelStream => exact extends_ids fun _ _ => Decoder.extends_pure _
    | close => exact extends_ids fun _ _ => Decoder.extends_pure _
    | pong =>
      exact extends_ids fun _ _ => extends_tryReadByte.bind fun _ =>
        extends_tryReadBytes.bind fun _ => Decoder.extends_pure _
    | query =>
      exact extends_ids fun _ _ => extends_tryReadString.bind fun _ => Decoder.extends_pure _
    | createDb =>
      exact extends_ids fun _ _ => extends_tryReadString.bind fun _ => Decoder.extends_pure _
    | attachDb =>
      exact extends_ids fun _ _ => extends_tryReadString.bind fun _ => Decoder.extends_pure _

/-- The part of a content that is received as its payload. -/
theorem receive_sendMessage (content rest : Bytes) :
    receive (sendMessage content ++ rest)
      = if content.length % 2 ^ 32 > intMaxValue then
          .error (.threw (.invalidOperation "Incoming payload is too large.")) (content ++ rest)
        else SocketHandle.parse (content.take (content.length % 2 ^ 32))
          (content.drop (content.length % 2 ^ 32) ++ rest) := by
  have hlt : content.length % 2 ^ 32 < 256 ^ 4 := Nat.mod_lt _ (by decide)
  have hheader : receiveExact 4 (sendMessage content ++ rest)
      = .ok (beBytes 4 (content.length % 2 ^ 32)) (content ++ rest) := by
    rw [sendMessage, List.append_assoc]
    exact receiveExact_append (length_beBytes 4 _) _
  rw [receive, bind_ok hheader]
  simp only [beNat_beBytes hlt]
  generalize hn : content.length % 2 ^ 32 = n
  have hle : n ≤ content.length := hn ▸ Nat.mod_le _ _
  by_cases hlong : n > intMaxValue
  · rw [if_pos hlong, if_pos hlong]
    rfl
  · rw [if_neg hlong, if_neg hlong]
    have hpayload : receivePayload n (content ++ rest)
        = .ok (content.take n) (content.drop n ++ rest) := by
      unfold receivePayload
      by_cases hzero : n = 0
      · rw [if_pos hzero, hzero, List.take_zero, List.drop_zero]
        rfl
      · have hsplit : content ++ rest = content.take n ++ (content.drop n ++ rest) := by
          rw [← List.append_assoc, List.take_append_drop]
        rw [if_neg hzero, hsplit]
        exact receiveExact_append (List.length_take_of_le hle) _
    exact bind_ok hpayload

/-- **What is received of a frame**: the message that the client reads in its
content, or an exception. -/
theorem receive_sendMessage_cases (content rest : Bytes) :
    (∃ e t, receive (sendMessage content ++ rest) = .error (.threw e) t)
      ∨ ∃ m t u, receive (sendMessage content ++ rest) = .ok m t
        ∧ messageDecoder content = some (m, u) := by
  rw [receive_sendMessage]
  generalize content.length % 2 ^ 32 = n
  by_cases hlong : n > intMaxValue
  · rw [if_pos hlong]
    exact Or.inl ⟨_, _, rfl⟩
  · rw [if_neg hlong]
    unfold SocketHandle.parse StdProtocolImpl.parse
    cases hread : messageDecoder (content.take n) with
    | none => exact Or.inl ⟨_, _, rfl⟩
    | some r =>
      obtain ⟨m, u⟩ := r
      refine Or.inr ⟨m, _, u ++ content.drop n, rfl, ?_⟩
      have hmore := extends_messageDecoder hread (content.drop n)
      rwa [List.take_append_drop] at hmore

/-- A frame of a length and a content that the client accepts is received. -/
theorem receive_sendMessage_ok {content : Bytes} {m : DeltabaseMessage}
    (hlen : content.length ≤ intMaxValue) (hparse : StdProtocolImpl.parse content = .ok m)
    (rest : Bytes) : receive (sendMessage content ++ rest) = .ok m rest := by
  have hmod : content.length % 2 ^ 32 = content.length :=
    Nat.mod_eq_of_lt (hlen.trans_lt (by decide))
  rw [receive_sendMessage, hmod, if_neg (Nat.not_lt.mpr hlen), List.take_length, List.drop_length,
    SocketHandle.parse, hparse]
  rfl

/-- A `PONG` of the right request that is no failure is successful. -/
theorem throwIfUnsuccessful_pong (sessionId : Guid) (requestId : Int32) {err : NetErrorCode}
    (h : err.isFailure = false) (payload s : Bytes) :
    throwIfUnsuccessful (.pong sessionId requestId err payload) requestId s
      = .ok { sessionId, requestId, errorCode := err, payload } s := by
  show (if requestId ≠ requestId then _ else if err.isFailure = true then _ else _ : Receiver _) s
    = _
  rw [if_neg (not_not.mpr rfl), if_neg (Bool.eq_false_iff.mp h)]
  rfl

/-- **The start of the stream is the response of the query.** -/
theorem executeCommandAsync_start (sessionId : Guid) (requestId : Int32) (rest : Bytes) :
    executeCommandAsync requestId
        (sendMessage (StdNetProtocol.encode (.pong sessionId .startStream requestId [])) ++ rest)
      = .ok () rest := by
  have hlen : (StdNetProtocol.encode (.pong sessionId .startStream requestId [])).length
      ≤ intMaxValue := by
    rw [length_encode_pong]
    decide
  rw [executeCommandAsync, bind_ok (receive_sendMessage_ok hlen (parse_pong _ _ _) rest),
    bind_ok (throwIfUnsuccessful_pong sessionId requestId rfl [] rest)]
  rfl

/-- **No other frame of the stream is received as its start.** -/
theorem receiveStreamAsync_throws (sessionId : Guid) (requestId : Int32) {err : NetErrorCode}
    (hfailure : err.isFailure = false) (hstart : err ≠ .startStream) (payload rest : Bytes) :
    ∃ e t, receiveStreamAsync sessionId requestId
        (sendMessage (StdNetProtocol.encode (.pong sessionId err requestId payload)) ++ rest)
      = .error (.threw e) t := by
  unfold receiveStreamAsync
  rcases receive_sendMessage_cases
      (StdNetProtocol.encode (.pong sessionId err requestId payload)) rest with
    ⟨e, t, hthrows⟩ | ⟨m, t, u, hreceived, hread⟩
  · exact ⟨e, t, bind_error hthrows⟩
  · obtain ⟨payload', rfl⟩ := eq_pong_of_messageDecoder hread
    rw [bind_ok hreceived, bind_ok (throwIfUnsuccessful_pong sessionId requestId hfailure _ t)]
    rw [if_pos (Or.inl hstart)]
    exact ⟨_, _, rfl⟩

/-- **No result is received**: whatever its chunks are, enumerating it throws. -/
theorem not_receives (sessionId : Guid) (requestId : Int32) (chunks : List DataTable) :
    (∃ e t, executeAndEnumerate sessionId requestId (streamBytes sessionId requestId chunks)
        = .error (.threw e) t)
      ∧ ¬ Receives sessionId requestId chunks := by
  have hthrows : ∃ e t, executeAndEnumerate sessionId requestId
      (streamBytes sessionId requestId chunks) = .error (.threw e) t := by
    unfold executeAndEnumerate streamBytes streamFrames
    rw [List.flatMap_cons, bind_ok (executeCommandAsync_start sessionId requestId _)]
    cases chunks with
    | nil => exact receiveStreamAsync_throws sessionId requestId rfl (by decide) _ _
    | cons chunk chunks => exact receiveStreamAsync_throws sessionId requestId rfl (by decide) _ _
  refine ⟨hthrows, ?_⟩
  rintro ⟨tables, -, hreceived⟩
  obtain ⟨e, t, herror⟩ := hthrows
  rw [herror] at hreceived
  cases hreceived

/-- **A result without rows is not received**: the end of the stream is taken for
its start. -/
theorem not_receives_empty :
    executeAndEnumerate ⟨5, by decide⟩ 7 (streamBytes 5 7 [])
        = .error (.threw (.deltabaseError .protocolViolation)) []
      ∧ ¬ Receives ⟨5, by decide⟩ 7 [] := by
  have hlen : (StdNetProtocol.encode (.pong 5 .endStream 7 [])).length ≤ intMaxValue := by
    rw [length_encode_pong]
    decide
  have hthrows : executeAndEnumerate ⟨5, by decide⟩ 7 (streamBytes 5 7 [])
      = .error (.threw (.deltabaseError .protocolViolation)) [] := by
    unfold executeAndEnumerate streamBytes streamFrames
    rw [List.flatMap_cons, bind_ok (executeCommandAsync_start ⟨5, by decide⟩ 7 _),
      receiveStreamAsync]
    show (receive >>= _) (sendMessage (StdNetProtocol.encode (.pong 5 .endStream 7 [])) ++ []) = _
    rw [bind_ok (receive_sendMessage_ok hlen (parse_pong ⟨5, by decide⟩ _ _) []),
      bind_ok (throwIfUnsuccessful_pong ⟨5, by decide⟩ 7 rfl [] []),
      if_pos (Or.inl (by decide))]
    rfl
  refine ⟨hthrows, ?_⟩
  rintro ⟨tables, -, hreceived⟩
  rw [show streamBytes ((⟨5, by decide⟩ : Guid) : UUID) 7 [] = streamBytes 5 7 [] from rfl,
    hthrows] at hreceived
  cases hreceived

end DeltabaseConnector
