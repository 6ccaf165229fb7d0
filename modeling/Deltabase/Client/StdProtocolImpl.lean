import Deltabase.Client.DeltabaseMessage
import Deltabase.Network.StdNetProtocol

/-!
# The network protocol of the client

`StdProtocolImpl` is the client's half of the protocol. It is written apart
from the server's and is to write what the server reads and read what the
server writes.

The two agree on `PING`, `QUERY`, `CREATE_DB` and `ATTACH_DB`, within the length
the client accepts for a string. They do not agree on the codes of
`CANCEL_STREAM` and `CLOSE`, whose bytes are otherwise alike: what one side
sends as the one arrives as the other. And the client writes a `PONG` without
its payload, which the server refuses.
-/

namespace StdProtocolImpl

/-- `int.MaxValue`. -/
def intMaxValue : ℕ := 2 ^ 31 - 1

/-! ## Encoding -/

/-- `WriteString`. -/
def writeString (value : String) : Bytes :=
  let payload := Utf8.getBytes value
  beBytes 8 payload.length ++ if payload.length > 0 then payload else []

/-- What `WriteMessageType` and the cases of `Encode` write. -/
def encode (message : DeltabaseMessage) : Bytes :=
  [message.type.toByte] ++ match message with
    | .ping requestId => int32Bytes requestId
    | .pong sessionId requestId errorCode _ =>
      uuidBytes sessionId ++ (int32Bytes requestId ++ [errorCode.toUInt8])
    | .query sessionId requestId query =>
      uuidBytes sessionId ++ (int32Bytes requestId ++ writeString query)
    | .createDb sessionId requestId dbName =>
      uuidBytes sessionId ++ (int32Bytes requestId ++ writeString dbName)
    | .attachDb sessionId requestId dbName =>
      uuidBytes sessionId ++ (int32Bytes requestId ++ writeString dbName)
    | .cancelStream sessionId requestId => uuidBytes sessionId ++ int32Bytes requestId
    | .close sessionId requestId => uuidBytes sessionId ++ int32Bytes requestId

/-! ## Parsing -/

/-- `count` bytes, if there are as many. -/
def tryRead (count : ℕ) : Decoder Bytes := fun s =>
  if count > s.length then none else some (s.take count, s.drop count)

/-- `TryReadByte`. -/
def tryReadByte : Decoder UInt8 := do
  let bs ← tryRead 1
  pure (UInt8.ofNat (leNat bs))

/-- `TryReadInt32`. -/
def tryReadInt32 : Decoder Int32 := do
  let bs ← tryRead 4
  pure (int32OfBytes bs)

/-- `TryReadGuid`. -/
def tryReadGuid : Decoder Guid := do
  let bs ← tryRead 16
  pure ⟨leNat bs.reverse % 256 ^ 16, Nat.mod_lt _ (by decide)⟩

/-- `TryReadUInt64BigEndian`. -/
def tryReadUInt64BigEndian : Decoder ℕ := do
  let bs ← tryRead 8
  pure (beNat bs)

/-- `TryReadBytes`. -/
def tryReadBytes : Decoder Bytes := do
  let length ← tryReadUInt64BigEndian
  if length > intMaxValue then Decoder.fail
  else if length = 0 then pure []
  else tryRead length

/-- `TryReadString`. -/
def tryReadString : Decoder String := do
  let length ← tryReadUInt64BigEndian
  if length > intMaxValue then Decoder.fail
  else do
    let payload ← tryRead length
    pure (if length = 0 then "" else Utf8.getString payload)

/-- The cases of `Parse`. -/
def parseBody : Option MessageType → Decoder DeltabaseMessage
  | some .ping => do
    let requestId ← tryReadInt32
    pure (.ping requestId)
  | some .pong => do
    let sessionId ← tryReadGuid
    let requestId ← tryReadInt32
    let rawErr ← tryReadByte
    let payload ← tryReadBytes
    pure (.pong sessionId requestId (.ofUInt8 rawErr) payload)
  | some .query => do
    let sessionId ← tryReadGuid
    let requestId ← tryReadInt32
    let query ← tryReadString
    pure (.query sessionId requestId query)
  | some .createDb => do
    let sessionId ← tryReadGuid
    let requestId ← tryReadInt32
    let dbName ← tryReadString
    pure (.createDb sessionId requestId dbName)
  | some .attachDb => do
    let sessionId ← tryReadGuid
    let requestId ← tryReadInt32
    let dbName ← tryReadString
    pure (.attachDb sessionId requestId dbName)
  | some .cancelStream => do
    let sessionId ← tryReadGuid
    let requestId ← tryReadInt32
    pure (.cancelStream sessionId requestId)
  | some .close => do
    let sessionId ← tryReadGuid
    let requestId ← tryReadInt32
    pure (.close sessionId requestId)
  | some .undefined => Decoder.fail
  | none => Decoder.fail

/-- A message. -/
def messageDecoder : Decoder DeltabaseMessage := do
  let rawType ← tryReadByte
  parseBody (MessageType.ofByte rawType)

/-- `Parse`. -/
def parse (data : Bytes) : Except ClientExn DeltabaseMessage :=
  match messageDecoder data with
  | some (message, _) => .ok message
  | none => .error .deltabase

/-! ## What the client reads -/

theorem reads_tryRead {bs : Bytes} {count : ℕ} (h : bs.length = count) :
    (tryRead count).Reads bs bs := by
  intro t
  have hle : ¬ count > (bs ++ t).length := by
    rw [List.length_append, h]
    exact Nat.not_lt.mpr (Nat.le_add_right _ _)
  rw [tryRead, if_neg hle, ← h, List.take_left, List.drop_left]

theorem reads_tryReadByte (b : UInt8) : tryReadByte.Reads [b] b := by
  have hread : (tryRead 1).Reads [b] [b] := reads_tryRead rfl
  exact hread.bind_pure (congrArg pure (StdNetProtocol.byte_leNat b))

theorem reads_tryReadInt32 (n : Int32) : tryReadInt32.Reads (int32Bytes n) n :=
  (reads_tryRead (length_int32Bytes n)).bind_pure (congrArg pure (int32OfBytes_int32Bytes n))

theorem reads_tryReadGuid (id : Guid) : tryReadGuid.Reads (uuidBytes id) id := by
  refine (reads_tryRead (length_uuidBytes id)).bind_pure (congrArg pure (Subtype.ext ?_))
  show leNat (uuidBytes id).reverse % 256 ^ 16 = id
  rw [uuidBytes, List.reverse_reverse, leNat_leBytes id.2, Nat.mod_eq_of_lt id.2]

theorem reads_tryReadUInt64BigEndian {n : ℕ} (h : n < 256 ^ 8) :
    tryReadUInt64BigEndian.Reads (beBytes 8 n) n :=
  (reads_tryRead (length_beBytes 8 n)).bind_pure (congrArg pure (beNat_beBytes h))

/-- And of a string. -/
theorem tryReadString_eq_none {n : ℕ} (h : n < 256 ^ 8) (hlong : n > intMaxValue) (t : Bytes) :
    tryReadString (beBytes 8 n ++ t) = none := by
  rw [tryReadString, (reads_tryReadUInt64BigEndian h).bind_append, if_pos hlong]
  rfl

theorem intMaxValue_lt : intMaxValue < 256 ^ 8 := by decide

/-- **A byte string of a length the client accepts is read back.** -/
theorem reads_tryReadBytes {bs : Bytes} (h : bs.length ≤ intMaxValue) :
    tryReadBytes.Reads (ReadOnlyMemoryStream.prefixedBytes bs) bs := by
  refine (reads_tryReadUInt64BigEndian (h.trans_lt intMaxValue_lt)).bind ?_
  rw [if_neg (Nat.not_lt.mpr h)]
  by_cases hzero : bs.length = 0
  · rw [if_pos hzero, List.length_eq_zero_iff.mp hzero]
    exact Decoder.reads_pure []
  · rw [if_neg hzero]
    exact reads_tryRead rfl

/-- **A string of a length the client accepts is read back.** -/
theorem reads_tryReadString {s : String} (h : (Utf8.getBytes s).length ≤ intMaxValue) :
    tryReadString.Reads (ReadOnlyMemoryStream.prefixedBytes (Utf8.getBytes s)) s := by
  refine (reads_tryReadUInt64BigEndian (h.trans_lt intMaxValue_lt)).bind ?_
  rw [if_neg (Nat.not_lt.mpr h)]
  refine (reads_tryRead rfl).bind_pure ?_
  by_cases hzero : (Utf8.getBytes s).length = 0
  · have hempty : Utf8.getBytes s = Utf8.getBytes "" := List.length_eq_zero_iff.mp hzero
    rw [if_pos hzero, Utf8.getBytes_injective hempty]
  · rw [if_neg hzero, Utf8.getString_getBytes]

/-- `WriteString` writes the bytes of the string with their length before
them. -/
theorem writeString_eq (s : String) :
    writeString s = ReadOnlyMemoryStream.prefixedBytes (Utf8.getBytes s) := by
  show beBytes 8 (Utf8.getBytes s).length
    ++ (if (Utf8.getBytes s).length > 0 then Utf8.getBytes s else []) = _
  by_cases h : (Utf8.getBytes s).length > 0
  · rw [if_pos h]
    rfl
  · have hempty : Utf8.getBytes s = [] := List.length_eq_zero_iff.mp (Nat.eq_zero_of_not_pos h)
    rw [if_neg h, hempty]
    rfl

/-! ## Where the two sides agree -/

/-- **The messages of which the two sides have the same idea**: `PING`, and the
three requests while their string has a length the client accepts. -/
def Shared : DeltabaseMessage → Prop
  | .ping _ => True
  | .query _ _ query => (Utf8.getBytes query).length ≤ intMaxValue
  | .createDb _ _ dbName => (Utf8.getBytes dbName).length ≤ intMaxValue
  | .attachDb _ _ dbName => (Utf8.getBytes dbName).length ≤ intMaxValue
  | .pong .. => False
  | .cancelStream .. => False
  | .close .. => False

instance : DecidablePred Shared := fun m => by cases m <;> unfold Shared <;> infer_instance

/-- The client encodes the three requests, and `PING`, as the server does. -/
theorem encode_request {m : DeltabaseMessage}
    (h : m.type = .ping ∨ m.type = .query ∨ m.type = .createDb ∨ m.type = .attachDb) :
    encode m = StdNetProtocol.encode m.toNet := by
  rw [StdNetProtocol.encode_eq]
  cases m with
  | ping requestId => rfl
  | query sessionId requestId query => rw [encode, writeString_eq]; rfl
  | createDb sessionId requestId dbName => rw [encode, writeString_eq]; rfl
  | attachDb sessionId requestId dbName => rw [encode, writeString_eq]; rfl
  | pong => simp [DeltabaseMessage.type] at h
  | cancelStream => simp [DeltabaseMessage.type] at h
  | close => simp [DeltabaseMessage.type] at h

/-- **What the client sends to cancel a stream is what the server reads as the
end of the session**, and the other way round. -/
theorem encode_cancelStream (sessionId : Guid) (requestId : Int32) :
    encode (.cancelStream sessionId requestId)
      = StdNetProtocol.encode (.close sessionId requestId) := by
  rw [StdNetProtocol.encode_eq]
  rfl

theorem encode_close (sessionId : Guid) (requestId : Int32) :
    encode (.close sessionId requestId)
      = StdNetProtocol.encode (.cancelStream sessionId requestId) := by
  rw [StdNetProtocol.encode_eq]
  rfl

theorem length_encode_ids (sessionId : UUID) (requestId : Int32) :
    (StdNetProtocol.encode (.cancelStream sessionId requestId)).length = 21
      ∧ (StdNetProtocol.encode (.close sessionId requestId)).length = 21 := by
  rw [StdNetProtocol.encode_eq, StdNetProtocol.encode_eq]
  simp [StdNetProtocol.bodyBytes]

/-- The longest message of a fixed length fits a vector. -/
theorem le_maxSize : 22 ≤ ReadOnlyMemoryStream.maxSize := by
  rw [ReadOnlyMemoryStream.maxSize]
  decide

/-- A `PONG` that the server reads has at least the length of its payload. -/
theorem length_encode_pong (sessionId : UUID) (err : NetErrorCode) (requestId : Int32)
    (payload : Bytes) :
    (StdNetProtocol.encode (.pong sessionId err requestId payload)).length
      = 30 + payload.length := by
  rw [StdNetProtocol.encode_eq]
  simp [StdNetProtocol.bodyBytes, ReadOnlyMemoryStream.prefixedBytes]
  omega

/-- **The server reads the client's `PONG` as a violation**: it ends where the
length of the payload should stand. -/
theorem parse_encode_pong (sessionId : Guid) (requestId : Int32) (errorCode : NetErrorCode)
    (payload : Bytes) :
    StdNetProtocol.parse (encode (.pong sessionId requestId errorCode payload))
      ≠ .ok (.pong sessionId errorCode requestId payload) := by
  intro hparse
  have hlen : (encode (.pong sessionId requestId errorCode payload)).length = 22 := by
    simp [encode]
  rw [StdNetProtocol.parse_eq (hlen.trans_le le_maxSize)] at hparse
  cases hd :
    StdNetProtocol.messageDecoder (encode (.pong sessionId requestId errorCode payload)) with
  | none =>
    rw [hd] at hparse
    cases hparse
  | some x =>
    obtain ⟨m, t⟩ := x
    rw [hd] at hparse
    obtain rfl : m = .pong sessionId errorCode requestId payload := Except.ok.inj hparse
    have hbytes := congrArg List.length (StdNetProtocol.exact_messageDecoder hd)
    rw [hlen, List.length_append, length_encode_pong] at hbytes
    omega

/-! ## What the client reads of the server's messages -/

theorem ofByte_toUInt8 {m : DeltabaseMessage}
    (h : m.type = .ping ∨ m.type = .query ∨ m.type = .createDb ∨ m.type = .attachDb
      ∨ m.type = .pong) :
    MessageType.ofByte m.toNet.type.toUInt8 = some m.type := by
  cases m with
  | cancelStream => simp [DeltabaseMessage.type] at h
  | close => simp [DeltabaseMessage.type] at h
  | _ => rfl

/-- The client reads a message as the body that its kind announces. -/
theorem messageDecoder_encode {m : DeltabaseMessage}
    (h : m.type = .ping ∨ m.type = .query ∨ m.type = .createDb ∨ m.type = .attachDb
      ∨ m.type = .pong) (t : Bytes) :
    messageDecoder (StdNetProtocol.encode m.toNet ++ t)
      = parseBody (some m.type) (StdNetProtocol.bodyBytes m.toNet ++ t) := by
  rw [messageDecoder, StdNetProtocol.encode_eq, List.append_assoc,
    (reads_tryReadByte _).bind_append, ofByte_toUInt8 h]

/-- The three requests: a session id, a request id and a string. -/
theorem string_iff (f : Guid → Int32 → String → DeltabaseMessage) (sessionId : Guid)
    (requestId : Int32) {s : String} (h : (Utf8.getBytes s).length < 256 ^ 8) :
    ((do
      let sessionId ← tryReadGuid
      let requestId ← tryReadInt32
      let str ← tryReadString
      pure (f sessionId requestId str) : Decoder DeltabaseMessage)
        (uuidBytes sessionId ++ (int32Bytes requestId
          ++ ReadOnlyMemoryStream.prefixedBytes (Utf8.getBytes s)))
      = if (Utf8.getBytes s).length ≤ intMaxValue then some (f sessionId requestId s, [])
        else none) := by
  rw [(reads_tryReadGuid sessionId).bind_append, (reads_tryReadInt32 requestId).bind_append]
  by_cases hle : (Utf8.getBytes s).length ≤ intMaxValue
  · have hread : (tryReadString >>= fun str => pure (f sessionId requestId str)).Reads
        (ReadOnlyMemoryStream.prefixedBytes (Utf8.getBytes s)) (f sessionId requestId s) :=
      (reads_tryReadString hle).bind_pure rfl
    exact hread.run.trans (if_pos hle).symm
  · have hnone : tryReadString (ReadOnlyMemoryStream.prefixedBytes (Utf8.getBytes s)) = none := by
      rw [ReadOnlyMemoryStream.prefixedBytes]
      exact tryReadString_eq_none h (Nat.lt_of_not_le hle) _
    exact (Decoder.bind_eq_none hnone _).trans (if_neg hle).symm

/-- A string of a message that a vector can hold has a length of 64 bits. -/
theorem length_lt_of_le {cs bs : Bytes}
    (h : (cs ++ ReadOnlyMemoryStream.prefixedBytes bs).length ≤ ReadOnlyMemoryStream.maxSize) :
    bs.length < 256 ^ 8 := by
  have hmax : ReadOnlyMemoryStream.maxSize < 256 ^ 8 := by
    rw [ReadOnlyMemoryStream.maxSize]
    decide
  rw [List.length_append, ReadOnlyMemoryStream.prefixedBytes, List.length_append] at h
  omega

/-- **The client reads the server's request exactly when it accepts the length
of its string.** -/
theorem parse_request (f : Guid → Int32 → String → DeltabaseMessage)
    {kind : MessageType} {m : DeltabaseMessage} {sessionId : Guid} {requestId : Int32} {s : String}
    (hbody : parseBody (some kind) = (do
      let sessionId ← tryReadGuid
      let requestId ← tryReadInt32
      let str ← tryReadString
      pure (f sessionId requestId str)))
    (hm : f sessionId requestId s = m) (hkind : m.type = kind)
    (hbytes : StdNetProtocol.bodyBytes m.toNet
      = uuidBytes sessionId ++ (int32Bytes requestId
        ++ ReadOnlyMemoryStream.prefixedBytes (Utf8.getBytes s)))
    (hrequest : m.type = .ping ∨ m.type = .query ∨ m.type = .createDb ∨ m.type = .attachDb
      ∨ m.type = .pong)
    (hlen : (StdNetProtocol.encode m.toNet).length ≤ ReadOnlyMemoryStream.maxSize) :
    parse (StdNetProtocol.encode m.toNet) = .ok m ↔ (Utf8.getBytes s).length ≤ intMaxValue := by
  have hlt : (Utf8.getBytes s).length < 256 ^ 8 := by
    rw [StdNetProtocol.encode_eq, hbytes, ← List.append_assoc, ← List.append_assoc] at hlen
    exact length_lt_of_le hlen
  have hrun := messageDecoder_encode hrequest []
  rw [List.append_nil, List.append_nil, hbytes, hkind, hbody,
    string_iff f sessionId requestId hlt, hm] at hrun
  rw [parse, hrun]
  by_cases hle : (Utf8.getBytes s).length ≤ intMaxValue
  · rw [if_pos hle]
    exact ⟨fun _ => hle, fun _ => rfl⟩
  · rw [if_neg hle]
    refine ⟨fun h => ?_, fun h => (hle h).elim⟩
    cases h

/-- **Client and server speak the same format exactly of the shared
messages.** -/
theorem speaks_iff (m : DeltabaseMessage)
    (hlen : (StdNetProtocol.encode m.toNet).length ≤ ReadOnlyMemoryStream.maxSize) :
    (StdNetProtocol.parse (encode m) = .ok m.toNet
        ∧ parse (StdNetProtocol.encode m.toNet) = .ok m)
      ↔ Shared m := by
  have hserver : m.type = .ping ∨ m.type = .query ∨ m.type = .createDb ∨ m.type = .attachDb →
      StdNetProtocol.parse (encode m) = .ok m.toNet := fun h => by
    rw [encode_request h]
    exact StdNetProtocol.parse_self m.fits_toNet hlen
  cases m with
  | ping requestId =>
    refine ⟨fun _ => trivial, fun _ => ⟨hserver (Or.inl rfl), ?_⟩⟩
    have hread : (parseBody (some .ping)).Reads (int32Bytes requestId) (.ping requestId) :=
      (reads_tryReadInt32 requestId).bind_pure rfl
    have hrun : messageDecoder (StdNetProtocol.encode (.ping requestId) ++ [])
        = some (.ping requestId, []) :=
      (messageDecoder_encode (m := .ping requestId) (Or.inl rfl) []).trans (hread [])
    rw [List.append_nil] at hrun
    show parse (StdNetProtocol.encode (.ping requestId)) = _
    rw [parse, hrun]
  | query sessionId requestId query =>
    refine (and_iff_right (hserver (by simp [DeltabaseMessage.type]))).trans ?_
    exact parse_request .query rfl rfl rfl rfl (by simp [DeltabaseMessage.type]) hlen
  | createDb sessionId requestId dbName =>
    refine (and_iff_right (hserver (by simp [DeltabaseMessage.type]))).trans ?_
    exact parse_request .createDb rfl rfl rfl rfl (by simp [DeltabaseMessage.type]) hlen
  | attachDb sessionId requestId dbName =>
    refine (and_iff_right (hserver (by simp [DeltabaseMessage.type]))).trans ?_
    exact parse_request .attachDb rfl rfl rfl rfl (by simp [DeltabaseMessage.type]) hlen
  | pong sessionId requestId errorCode payload =>
    exact ⟨fun h => parse_encode_pong sessionId requestId errorCode payload h.1, False.elim⟩
  | cancelStream sessionId requestId =>
    refine ⟨fun h => ?_, False.elim⟩
    have hparse := StdNetProtocol.parse_self (m := .close sessionId requestId) sessionId.2
      ((length_encode_ids sessionId requestId).2.trans_le (by decide : 21 ≤ 22) |>.trans le_maxSize)
    rw [← encode_cancelStream sessionId requestId, h.1] at hparse
    cases hparse
  | close sessionId requestId =>
    refine ⟨fun h => ?_, False.elim⟩
    have hparse := StdNetProtocol.parse_self (m := .cancelStream sessionId requestId) sessionId.2
      ((length_encode_ids sessionId requestId).1.trans_le (by decide : 21 ≤ 22) |>.trans le_maxSize)
    rw [← encode_close sessionId requestId, h.1] at hparse
    cases hparse

/-- A query that the two sides share. -/
theorem speaks_query :
    (StdNetProtocol.parse (encode (.query ⟨5, by decide⟩ 7 "a")) = .ok (.query 5 7 [97])
        ∧ parse (StdNetProtocol.encode (.query 5 7 [97])) = .ok (.query ⟨5, by decide⟩ 7 "a"))
      ↔ Shared (.query ⟨5, by decide⟩ 7 "a") :=
  speaks_iff (.query ⟨5, by decide⟩ 7 "a") (by decide +kernel)

/-- **They do not speak the same format of every message**: the cancellation of a
stream arrives as the end of the session. -/
theorem not_speaks :
    ¬ ∀ m : DeltabaseMessage, StdNetProtocol.parse (encode m) = .ok m.toNet
      ∧ parse (StdNetProtocol.encode m.toNet) = .ok m := by
  intro h
  have hcancel := (h (.cancelStream ⟨5, by decide⟩ 7)).1
  revert hcancel
  decide +kernel

end StdProtocolImpl
