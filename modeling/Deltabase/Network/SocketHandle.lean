import Deltabase.Client.DeltabaseConnector
import Deltabase.Lib.Framing

/-!
# Frames on a socket

`SocketHandle::send_message` writes the length of a message and its content,
`receive_message` reads the one and then the other. Below both are calls of
`send` and `recv`, which take and return as many bytes as the kernel likes, so
`send_full` and `receive_full` repeat them.

A socket is a `Wire`: each call of `send` or of `recv` is a step, and a reader is
`receive_message` at some call of its `recv` (`receiveMessage_eq`). Towards the
server there is one writer, the client. Towards the client there is one too,
except that while a result is streamed `stream_handler` and `cancel_handler`
write to the same socket.

One writer, or several with a lock around `send_message`, have a channel
(`delivers`). `cancel_handler` does not take `send_mutex`, nor does
`stream_handler` for the first and the last of its frames: at each frame of each
stream the client can be handed bytes that are no message (`torn`).
-/

namespace SocketHandle

open StdNetProtocol

/-! ## Receiving -/

/-- `receive_full` into a buffer of `len` bytes that has `buf`, with what the
calls of `recv` return: no bytes when the connection is broken. When `recv` is
not called any more, the message has not come. -/
def receiveFull (len : ℕ) : Bytes → List Bytes → Option Bytes × List Bytes
  | buf, [] => if buf.length < len then (none, []) else (some buf, [])
  | buf, bs :: recvs =>
    if buf.length < len then
      if bs = [] then (none, recvs) else receiveFull len (buf ++ bs) recvs
    else (some buf, bs :: recvs)

/-- The content of a message, once `receive_full` is through with its length. -/
def receiveContent (limit : ℕ) : Option Bytes × List Bytes → Option Bytes × List Bytes
  | (none, recvs) => (none, recvs)
  | (some header, recvs) =>
    if beNat header > limit then (none, recvs) else receiveFull (beNat header) [] recvs

/-- `receive_message`, with the greatest length that it takes. -/
def receiveMessage (limit : ℕ) (recvs : List Bytes) : Option Bytes × List Bytes :=
  receiveContent limit (receiveFull 4 [] recvs)

theorem length_header (n : ℕ) : (beBytes 4 (n % 2 ^ 32)).length = 4 := length_beBytes 4 _

theorem beNat_header (n : ℕ) (h : n < 2 ^ 32) : beNat (beBytes 4 (n % 2 ^ 32)) = n := by
  rw [Nat.mod_eq_of_lt h]
  exact beNat_beBytes h

/-- The length of a message, as a `uint32_t` of the network. -/
def framing : Framing UInt8 where
  width := 4
  encode n := beBytes 4 (n % 2 ^ 32)
  decode := beNat
  bound := 2 ^ 32
  width_pos := Nat.succ_pos 3
  length_encode := length_header
  decode_encode := beNat_header

@[simp] theorem frame_framing (content : Bytes) : framing.frame content = sendMessage content := rfl

/-- A reader goes on until it has a message or has ended. -/
def readOn (limit : ℕ) : Reading UInt8 → List Bytes → Option Bytes × List Bytes
  | _, [] => (none, [])
  | r, bs :: recvs =>
    if bs = [] then (none, recvs)
    else match framing.receive limit r bs with
      | (_, some m) => (some m, recvs)
      | (.ended, none) => (none, recvs)
      | (r', none) => readOn limit r' recvs

theorem receiveFull_eq_readOn {len : ℕ} (limit : ℕ) {buf : Bytes} (recvs : List Bytes)
    (h : buf.length < len) : receiveFull len buf recvs = readOn limit (.content len buf) recvs := by
  induction recvs generalizing buf with
  | nil => exact if_pos h
  | cons bs recvs ih =>
    rw [receiveFull, if_pos h, readOn]
    by_cases hbs : bs = []
    · rw [if_pos hbs, if_pos hbs]
    rw [if_neg hbs, if_neg hbs]
    by_cases hlt : (buf ++ bs).length < len
    · have hreceive : framing.receive limit (.content len buf) bs
          = (.content len (buf ++ bs), none) := if_pos hlt
      rw [hreceive]
      exact ih hlt
    · have hreceive : framing.receive limit (.content len buf) bs
          = (.length [], some (buf ++ bs)) := if_neg hlt
      rw [hreceive]
      cases recvs with
      | nil => exact if_neg hlt
      | cons bs' recvs => exact if_neg hlt

theorem receiveContent_eq_readOn (limit : ℕ) {buf : Bytes} (recvs : List Bytes)
    (h : buf.length < 4) :
    receiveContent limit (receiveFull 4 buf recvs) = readOn limit (.length buf) recvs := by
  induction recvs generalizing buf with
  | nil =>
    rw [receiveFull, if_pos h]
    rfl
  | cons bs recvs ih =>
    rw [receiveFull, if_pos h, readOn]
    by_cases hbs : bs = []
    · rw [if_pos hbs, if_pos hbs]
      rfl
    rw [if_neg hbs, if_neg hbs]
    by_cases hlt : (buf ++ bs).length < 4
    · have hreceive : framing.receive limit (.length buf) bs = (.length (buf ++ bs), none) :=
        if_pos hlt
      rw [hreceive]
      exact ih hlt
    have hreceive : framing.receive limit (.length buf) bs
        = Reading.begin limit (beNat (buf ++ bs)) := if_neg hlt
    have hfull : receiveFull 4 (buf ++ bs) recvs = (some (buf ++ bs), recvs) := by
      cases recvs with
      | nil => exact if_neg hlt
      | cons bs' recvs => exact if_neg hlt
    rw [hreceive, hfull, receiveContent, Reading.begin]
    by_cases hlimit : limit < beNat (buf ++ bs)
    · rw [if_pos hlimit, if_pos hlimit]
    rw [if_neg hlimit, if_neg hlimit]
    by_cases hzero : beNat (buf ++ bs) = 0
    · rw [if_pos hzero, hzero]
      cases recvs with
      | nil => rfl
      | cons bs' recvs => rfl
    · rw [if_neg hzero]
      exact receiveFull_eq_readOn limit recvs (Nat.pos_of_ne_zero hzero)

/-- **`receive_message` is a reader of frames.** -/
theorem receiveMessage_eq (limit : ℕ) (recvs : List Bytes) :
    receiveMessage limit recvs = readOn limit (.length []) recvs :=
  receiveContent_eq_readOn limit recvs (Nat.succ_pos 3)

/-! ## One writer at a time -/

variable {ι : Type} {limit : ℕ} {exclusive : Prop} {messages : ι → List Bytes}

/-- A socket that has just been opened is whole. -/
theorem isWhole_start (hfits : ∀ i, ∀ m ∈ messages i, m.length < 2 ^ 32 ∧ m.length ≤ limit) :
    Wire.IsWhole framing limit (.start messages) [] where
  toIsChannel := Wire.isChannel_start fun i m hm => (hfits i m hm).1
  reading := fun h => by cases h
  queued_le := fun i m hm => (hfits i m hm).2
  sent_le := fun _ hm => absurd hm List.not_mem_nil

/-- **What is sent arrives**: whole, once and in order, however `send` and `recv`
cut it, as long as one thread at a time is in `send_message`. If the connection
breaks, what has arrived is the beginning of what was sent. -/
theorem delivers [DecidableEq ι] [Fintype ι] (halone : exclusive ∨ Subsingleton ι)
    (hfits : ∀ i, ∀ m ∈ messages i, m.length < 2 ^ 32 ∧ m.length ≤ limit)
    {es : List (WireEvent ι UInt8)} {w : Wire ι UInt8}
    (hrun : Run (Wire.Step framing limit exclusive) (.start messages) es w) :
    (∀ i, Wire.sentBy i es ++ (w.writers i).queue = messages i)
      ∧ deliveredOf es <+: sentOf es
      ∧ (.failed ∉ es →
        es.length ≤ (Wire.start messages).work framing
        ∧ (∃ es' w', Run (Wire.Step framing limit exclusive) w es' w' ∧ .failed ∉ es' ∧ w'.Quiet)
        ∧ (w.Quiet → deliveredOf es = sentOf es ∧ ∀ i, Wire.sentBy i es = messages i)) := by
  have hsent : ∀ i, Wire.sentBy i es ++ (w.writers i).queue = messages i := Wire.sentBy_append hrun
  refine ⟨hsent, ?_, fun hwhole => ?_⟩
  · obtain ⟨pending, hchannel, -⟩ := Wire.refines halone
      (Wire.isChannel_start fun i m hm => (hfits i m hm).1) hrun
    exact ⟨pending, (delivered_append hchannel).symm⟩
  obtain ⟨pending, hchannel, hrel⟩ := (isWhole_start hfits).run halone hrun hwhole
  refine ⟨?_, hrel.exists_quiet halone, fun hquiet => ⟨?_, fun i => ?_⟩⟩
  · exact (Nat.le_add_right _ _).trans (Wire.length_add_work_le hrun hwhole)
  · have happend := delivered_append hchannel
    rw [hrel.toIsChannel.eq_nil hrel.reading hquiet, List.append_nil] at happend
    exact happend.symm
  · have hall := hsent i
    rwa [(hquiet.1 i).1, List.append_nil] at hall

/-- What happens when a client sends one message and it is received in three
pieces. -/
def threePieces : List (WireEvent Unit UInt8) :=
  [.sent () [5, 6], .silent, .silent, .silent, .delivered [5, 6]]

theorem run_threePieces :
    ∃ w, Run (Wire.Step framing NetServer.maxIncomingLen False) (.start fun _ => [[5, 6]])
      threePieces w ∧ w.Quiet := by
  refine ⟨_, .cons (.begin (i := ()) rfl False.elim)
    (.cons (.write (i := ()) (n := 6) (by decide) (by decide))
      (.cons (.read (n := 3) (by decide) (by decide) (by decide) rfl)
        (.cons (.read (n := 1) (by decide) (by decide) (by decide) rfl)
          (.single (.read (n := 2) (by decide) (by decide) (by decide) rfl))))), ?_⟩
  exact ⟨fun _ => ⟨rfl, rfl⟩, rfl⟩

theorem delivers_threePieces :
    deliveredOf threePieces = sentOf threePieces ∧ ∀ i, Wire.sentBy i threePieces = [[5, 6]] := by
  obtain ⟨w, hrun, hquiet⟩ := run_threePieces
  have hall := delivers (.inr inferInstance) (fun _ => by decide) hrun
  exact (hall.2.2 (by simp [threePieces])).2.2 hquiet

/-! ## The two threads of a stream -/

/-- The threads of `handle_stream` that write to the socket. -/
inductive SendingThread where
  | streamHandler
  | cancelHandler
  deriving DecidableEq

/-- A message of a stream. -/
def streamMessage (sessionId : UUID) (requestId : Int32) (frame : NetErrorCode × Bytes) : Bytes :=
  encode (.pong sessionId frame.1 requestId frame.2)

/-- What they are going to send: the frames of a stream, each with its code and
its payload, and the answer to the cancellation. -/
def streamMessages (sessionId : UUID) (requestId cancelId : Int32)
    (frames : List (NetErrorCode × Bytes)) : SendingThread → List Bytes
  | .streamHandler => frames.map (streamMessage sessionId requestId)
  | .cancelHandler => [encode (.pong sessionId .success cancelId [])]

/-- No message begins with a zero. -/
theorem encode_ne_zero_cons (message : NetMessage) (rest : Bytes) : encode message ≠ 0 :: rest := by
  intro h
  rw [encode_eq, List.singleton_append] at h
  have htype := (List.cons.inj h).1
  cases message <;> cases htype

/-- The client throws when it is handed one. -/
theorem parse_zero_cons (rest : Bytes) :
    StdProtocolImpl.parse (0 :: rest) = .error .deltabase := by
  rfl

theorem length_streamMessage_pos (sessionId : UUID) (requestId : Int32)
    (frame : NetErrorCode × Bytes) : 0 < (streamMessage sessionId requestId frame).length := by
  rw [streamMessage, encode_eq, List.singleton_append]
  exact Nat.succ_pos _

/-- The answer to a cancellation is short: its length begins with a zero. -/
theorem sendMessage_success (sessionId : UUID) (requestId : Int32) :
    ∃ rest, sendMessage (encode (.pong sessionId .success requestId [])) = 0 :: rest := by
  have hlen : (encode (.pong sessionId .success requestId [])).length = 30 := by
    rw [encode_eq]
    simp [bodyBytes, ReadOnlyMemoryStream.prefixedBytes]
  rw [sendMessage, hlen]
  exact ⟨_, rfl⟩

/-- The frames that come before are delivered. -/
theorem exists_run_frames {sessionId : UUID} {requestId : Int32} {w : Wire SendingThread UInt8}
    (before : List (NetErrorCode × Bytes)) {after : List Bytes}
    (hfits : ∀ frame ∈ before, (streamMessage sessionId requestId frame).length < 2 ^ 32
      ∧ (streamMessage sessionId requestId frame).length ≤ limit)
    (hqueue : w.writers .streamHandler
      = { queue := before.map (streamMessage sessionId requestId) ++ after, rest := [] })
    (hflight : w.inFlight = []) (hreading : w.reading = .length []) :
    ∃ es w', Run (Wire.Step framing limit False) w es w' ∧ .failed ∉ es
      ∧ deliveredOf es = before.map (streamMessage sessionId requestId)
      ∧ w'.writers .streamHandler = { queue := after, rest := [] }
      ∧ w'.writers .cancelHandler = w.writers .cancelHandler
      ∧ w'.inFlight = [] ∧ w'.reading = .length [] := by
  induction before generalizing w with
  | nil => exact ⟨[], w, .nil w, List.not_mem_nil, rfl, hqueue, rfl, hflight, hreading⟩
  | cons frame before ih =>
    obtain ⟨hbound, hlimit⟩ := hfits frame List.mem_cons_self
    obtain ⟨w₁, hfirst, hqueue₁, hothers₁, hflight₁, hreading₁⟩ :=
      Wire.exists_run_frame (F := framing) hqueue False.elim hflight hreading hbound hlimit
        (length_streamMessage_pos sessionId requestId frame)
    obtain ⟨es, w', hrun, hwhole, hdelivered, hstream, hcancel, hrest⟩ :=
      ih (fun f hf => hfits f (List.mem_cons_of_mem frame hf)) hqueue₁ hflight₁ hreading₁
    refine ⟨_, w', hfirst.append hrun, ?_, ?_, hstream, ?_, hrest⟩
    · simpa using hwhole
    · rw [deliveredOf_append, hdelivered]
      rfl
    · exact hcancel.trans (hothers₁ .cancelHandler fun h => by cases h)

/-- **A cancellation can tear any frame of any stream**: the client has been
handed the frames before it and is now handed bytes that nobody has sent, that
are no message and at which it throws. -/
theorem torn (sessionId : UUID) (requestId cancelId : Int32)
    (before after : List (NetErrorCode × Bytes)) (frame : NetErrorCode × Bytes)
    (hfits : ∀ f ∈ before ++ [frame], (streamMessage sessionId requestId f).length < 2 ^ 32
      ∧ (streamMessage sessionId requestId f).length ≤ limit) :
    ∃ es w bytes, Run (Wire.Step framing limit False)
        (.start (streamMessages sessionId requestId cancelId (before ++ frame :: after))) es w
      ∧ .failed ∉ es
      ∧ deliveredOf es = before.map (streamMessage sessionId requestId) ++ [bytes]
      ∧ (∀ message, encode message ≠ bytes)
      ∧ StdProtocolImpl.parse bytes = .error .deltabase := by
  obtain ⟨es, w, hrun, hwhole, hdelivered, hstream, hcancel, hflight, hreading⟩ :=
    exists_run_frames (w := .start (streamMessages sessionId requestId cancelId
        (before ++ frame :: after))) before
      (fun f hf => hfits f (List.mem_append_left _ hf))
      (congrArg (FrameWriter.mk · []) (List.map_append ..)) rfl rfl
  obtain ⟨hbound, hlimit⟩ := hfits frame (List.mem_append_right _ (List.mem_singleton_self frame))
  have hpos := length_streamMessage_pos sessionId requestId frame
  obtain ⟨w', htorn⟩ := Wire.exists_run_torn (F := framing) (i := .streamHandler)
    (fun h => by cases h) hstream hcancel hflight hreading hbound hlimit hpos
  obtain ⟨header, hheader⟩ := sendMessage_success sessionId cancelId
  obtain ⟨k, hk⟩ := Nat.exists_eq_succ_of_ne_zero hpos.ne'
  have hbytes : (framing.frame (encode (.pong sessionId .success cancelId []))
      ++ streamMessage sessionId requestId frame).take
        (streamMessage sessionId requestId frame).length
      = 0 :: (header ++ streamMessage sessionId requestId frame).take k := by
    rw [frame_framing, hheader, hk, List.cons_append, List.take_succ_cons]
  generalize (header ++ streamMessage sessionId requestId frame).take k = rest at hbytes
  rw [hbytes] at htorn
  refine ⟨_, w', 0 :: rest, hrun.append htorn, ?_, ?_,
    fun message => encode_ne_zero_cons message rest, parse_zero_cons rest⟩
  · simpa using hwhole
  · rw [deliveredOf_append, hdelivered]
    rfl

/-- A stream whose only chunk is empty, cancelled at the chunk. -/
theorem torn_chunk :
    ∃ es w bytes, Run (Wire.Step framing StdProtocolImpl.intMaxValue False)
        (.start (streamMessages 7 3 4
          ([(.startStream, [])] ++ (.streamChunk, [1, 2]) :: [(.endStream, [])]))) es w
      ∧ .failed ∉ es
      ∧ deliveredOf es = [(.startStream, [])].map (streamMessage 7 3) ++ [bytes]
      ∧ (∀ message, encode message ≠ bytes)
      ∧ StdProtocolImpl.parse bytes = .error .deltabase :=
  torn 7 3 4 [(.startStream, [])] [(.endStream, [])] (.streamChunk, [1, 2]) (by decide)

end SocketHandle
