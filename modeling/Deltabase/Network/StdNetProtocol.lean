import Deltabase.Misc.ReadOnlyMemoryStream
import Deltabase.Storage.StdStorageSerializer
import Deltabase.Types.NetMessage

/-!
# The network protocol of the server

`net::StdNetProtocol` encodes a message as its kind, the session id, the
request id and what the kind adds, with the length of a string before the
string. `parse` takes the bytes a peer has sent, and answers a message it cannot
read with the close message of no session, which is also a message that a peer
can send.

`parse` works on the buffer; `messageDecoder` is what it computes
(`implements_parseMessage`), and the two directions of the format are proved of
the decoder.
-/

/-- The bytes of an `int32_t`. -/
def int32Bytes (n : Int32) : Bytes := leBytes 4 n.toUInt32.toNat

/-- The `int32_t` four bytes hold. -/
def int32OfBytes (bs : Bytes) : Int32 := (UInt32.ofNat (leNat bs)).toInt32

@[simp] theorem length_int32Bytes (n : Int32) : (int32Bytes n).length = 4 := length_leBytes 4 _

@[simp] theorem int32OfBytes_int32Bytes (n : Int32) : int32OfBytes (int32Bytes n) = n := by
  have hlt : n.toUInt32.toNat < 256 ^ 4 := n.toUInt32.toNat_lt
  rw [int32OfBytes, int32Bytes, leNat_leBytes hlt, UInt32.ofNat_toNat, Int32.toInt32_toUInt32]

theorem int32Bytes_int32OfBytes {bs : Bytes} (h : bs.length = 4) :
    int32Bytes (int32OfBytes bs) = bs := by
  have hlt : leNat bs < 2 ^ 32 := by
    have hlt := leNat_lt bs
    rwa [h] at hlt
  rw [int32Bytes, int32OfBytes, UInt32.toUInt32_toInt32, UInt32.toNat_ofNat_of_lt' hlt, ← h,
    leBytes_leNat]

namespace StdNetProtocol

open ReadOnlyMemoryStream

/-! ## Encoding -/

/-- `write_message_type`. -/
def writeMessageType (stream : MemoryStream) (type : NetMessageType) : MemoryStream :=
  stream.write [type.toUInt8]

/-- The kind, the session id and the request id of a message. -/
def writeHeader (type : NetMessageType) (sessionId : UUID) (requestId : Int32) : MemoryStream :=
  let stream := writeMessageType {} type
  let stream := stream.write (uuidBytes sessionId)
  stream.write (int32Bytes requestId)

/-- `encode`. -/
def encode : NetMessage → Bytes
  | .ping requestId =>
    let stream := writeMessageType {} .ping
    let stream := stream.write (int32Bytes requestId)
    stream.buffer
  | .pong sessionId err requestId payload =>
    let stream := writeHeader .pong sessionId requestId
    let stream := stream.write [err.toUInt8]
    let stream := stream.writeBytes payload
    stream.buffer
  | .query sessionId requestId query =>
    let stream := writeHeader .query sessionId requestId
    let stream := stream.writeBytes query
    stream.buffer
  | .createDb sessionId requestId dbName =>
    let stream := writeHeader .createDb sessionId requestId
    let stream := stream.writeBytes dbName
    stream.buffer
  | .attachDb sessionId requestId dbName =>
    let stream := writeHeader .attachDb sessionId requestId
    let stream := stream.writeBytes dbName
    stream.buffer
  | .cancelStream sessionId requestId => (writeHeader .cancelStream sessionId requestId).buffer
  | .close sessionId requestId => (writeHeader .close sessionId requestId).buffer

/-- What follows the kind in the bytes of a message. -/
def bodyBytes : NetMessage → Bytes
  | .ping requestId => int32Bytes requestId
  | .pong sessionId err requestId payload =>
    uuidBytes sessionId ++ (int32Bytes requestId ++ ([err.toUInt8] ++ prefixedBytes payload))
  | .query sessionId requestId query =>
    uuidBytes sessionId ++ (int32Bytes requestId ++ prefixedBytes query)
  | .createDb sessionId requestId dbName =>
    uuidBytes sessionId ++ (int32Bytes requestId ++ prefixedBytes dbName)
  | .attachDb sessionId requestId dbName =>
    uuidBytes sessionId ++ (int32Bytes requestId ++ prefixedBytes dbName)
  | .cancelStream sessionId requestId => uuidBytes sessionId ++ int32Bytes requestId
  | .close sessionId requestId => uuidBytes sessionId ++ int32Bytes requestId

theorem writeHeader_eq (type : NetMessageType) (sessionId : UUID) (requestId : Int32) :
    writeHeader type sessionId requestId
      = .atEnd ([type.toUInt8] ++ (uuidBytes sessionId ++ int32Bytes requestId)) := by
  simp [writeHeader, writeMessageType, MemoryStream.empty_eq_atEnd]

/-- **The bytes of a message**: its kind and what follows. -/
theorem encode_eq (m : NetMessage) : encode m = [m.type.toUInt8] ++ bodyBytes m := by
  cases m <;>
    simp [encode, writeHeader_eq, writeMessageType, MemoryStream.empty_eq_atEnd, prefixedBytes,
      bodyBytes, NetMessage.type]

/-! ## Parsing -/

/-- `protocol_violation_message`. -/
def protocolViolationMessage : NetMessage := .close UUID.null 0

/-- `read_exact` of a byte. -/
def tryReadByte : StreamReader UInt8 := do
  let bs ← tryReadExact [0]
  pure (UInt8.ofNat (leNat bs))

/-- `read_uuid`. -/
def tryReadUuid : StreamReader UUID := do
  let bs ← tryReadExact (zeros 16)
  pure (uuidOfBytes bs)

/-- `read_exact` of an `int32_t`. -/
def tryReadInt32 : StreamReader Int32 := do
  let bs ← tryReadExact (zeros 4)
  pure (int32OfBytes bs)

/-- The body of `parse`; what it refuses is answered with the protocol
violation. -/
def parseMessage : StreamReader NetMessage := do
  let rawType ← tryReadByte
  match NetMessageType.ofUInt8 rawType with
  | some .ping =>
    let requestId ← tryReadInt32
    pure (.ping requestId)
  | some .pong =>
    let sessionId ← tryReadUuid
    let requestId ← tryReadInt32
    let rawErr ← tryReadByte
    let payload ← tryReadBytes
    pure (.pong sessionId (.ofUInt8 rawErr) requestId payload)
  | some .query =>
    let sessionId ← tryReadUuid
    let requestId ← tryReadInt32
    let query ← tryReadBytes
    pure (.query sessionId requestId query)
  | some .createDb =>
    let sessionId ← tryReadUuid
    let requestId ← tryReadInt32
    let dbName ← tryReadBytes
    pure (.createDb sessionId requestId dbName)
  | some .attachDb =>
    let sessionId ← tryReadUuid
    let requestId ← tryReadInt32
    let dbName ← tryReadBytes
    pure (.attachDb sessionId requestId dbName)
  | some .cancelStream =>
    let sessionId ← tryReadUuid
    let requestId ← tryReadInt32
    pure (.cancelStream sessionId requestId)
  | some .close =>
    let sessionId ← tryReadUuid
    let requestId ← tryReadInt32
    pure (.close sessionId requestId)
  | some .undefined => throw .refused
  | none => throw .refused

/-- `parse`. An error is a read behind the end of the bytes. -/
def parse (data : Bytes) : Except ReadError NetMessage :=
  match parseMessage { buffer := data } with
  | .ok m _ => .ok m
  | .error .refused _ => .ok protocolViolationMessage
  | .error .fault _ => .error .fault

/-! ## The decoder that `parse` implements -/

/-- A byte. -/
def readByte : Decoder UInt8 := do
  let bs ← readExact [0]
  pure (UInt8.ofNat (leNat bs))

/-- A request id. -/
def readInt32 : Decoder Int32 := do
  let bs ← readExact (zeros 4)
  pure (int32OfBytes bs)

/-- What follows the kind of a message. -/
def bodyDecoder : Option NetMessageType → Decoder NetMessage
  | some .ping => do
    let requestId ← readInt32
    pure (.ping requestId)
  | some .pong => do
    let sessionId ← StdStorageSerializer.readUuid
    let requestId ← readInt32
    let rawErr ← readByte
    let payload ← readBytes
    pure (.pong sessionId (.ofUInt8 rawErr) requestId payload)
  | some .query => do
    let sessionId ← StdStorageSerializer.readUuid
    let requestId ← readInt32
    let query ← readBytes
    pure (.query sessionId requestId query)
  | some .createDb => do
    let sessionId ← StdStorageSerializer.readUuid
    let requestId ← readInt32
    let dbName ← readBytes
    pure (.createDb sessionId requestId dbName)
  | some .attachDb => do
    let sessionId ← StdStorageSerializer.readUuid
    let requestId ← readInt32
    let dbName ← readBytes
    pure (.attachDb sessionId requestId dbName)
  | some .cancelStream => do
    let sessionId ← StdStorageSerializer.readUuid
    let requestId ← readInt32
    pure (.cancelStream sessionId requestId)
  | some .close => do
    let sessionId ← StdStorageSerializer.readUuid
    let requestId ← readInt32
    pure (.close sessionId requestId)
  | some .undefined => Decoder.fail
  | none => Decoder.fail

/-- A message. -/
def messageDecoder : Decoder NetMessage := do
  let rawType ← readByte
  bodyDecoder (NetMessageType.ofUInt8 rawType)

theorem implements_tryReadByte : Implements tryReadByte readByte :=
  (implements_tryReadExact (by rw [maxSize]; decide)).bind fun _ => implements_pure _

theorem implements_tryReadUuid : Implements tryReadUuid StdStorageSerializer.readUuid :=
  (implements_tryReadExact (by rw [length_zeros, maxSize]; decide)).bind fun _ => implements_pure _

theorem implements_tryReadInt32 : Implements tryReadInt32 readInt32 :=
  (implements_tryReadExact (by rw [length_zeros, maxSize]; decide)).bind fun _ => implements_pure _

/-- **`parse` reads the decoder's messages**, without a fault. -/
theorem implements_parseMessage : Implements parseMessage messageDecoder := by
  refine implements_tryReadByte.bind fun rawType => ?_
  have hstring : ∀ f : UUID → Int32 → Bytes → NetMessage,
      Implements
        (do
          let sessionId ← tryReadUuid
          let requestId ← tryReadInt32
          let str ← tryReadBytes
          pure (f sessionId requestId str))
        (do
          let sessionId ← StdStorageSerializer.readUuid
          let requestId ← readInt32
          let str ← readBytes
          pure (f sessionId requestId str)) := fun f =>
    implements_tryReadUuid.bind fun _ => implements_tryReadInt32.bind fun _ =>
      implements_tryReadBytes.bind fun _ => implements_pure _
  cases NetMessageType.ofUInt8 rawType with
  | none => exact implements_refused
  | some type =>
    cases type with
    | undefined => exact implements_refused
    | ping => exact implements_tryReadInt32.bind fun _ => implements_pure _
    | pong =>
      exact implements_tryReadUuid.bind fun _ => implements_tryReadInt32.bind fun _ =>
        implements_tryReadByte.bind fun _ => implements_tryReadBytes.bind fun _ => implements_pure _
    | query => exact hstring .query
    | createDb => exact hstring .createDb
    | attachDb => exact hstring .attachDb
    | cancelStream =>
      exact implements_tryReadUuid.bind fun _ => implements_tryReadInt32.bind fun _ =>
        implements_pure _
    | close =>
      exact implements_tryReadUuid.bind fun _ => implements_tryReadInt32.bind fun _ =>
        implements_pure _

/-- **What `parse` computes.** -/
theorem parse_eq {data : Bytes} (h : data.length ≤ maxSize) :
    parse data = .ok (((messageDecoder data).map Prod.fst).getD protocolViolationMessage) := by
  have hagree := implements_parseMessage { buffer := data } ⟨h, Nat.zero_le _⟩
  have hrest : rest { buffer := data } = data := rfl
  unfold parse
  rw [hrest] at hagree
  cases hp : parseMessage { buffer := data } with
  | ok m s =>
    rw [hp] at hagree
    rw [hagree.2]
    rfl
  | error e s =>
    rw [hp] at hagree
    cases e with
    | refused =>
      have hnone : messageDecoder data = none := hagree
      rw [hnone]
      rfl
    | fault => exact hagree.elim

/-! ## Both directions -/

theorem byte_leNat (b : UInt8) : UInt8.ofNat (leNat [b]) = b := by
  show UInt8.ofNat (b.toNat + 256 * 0) = b
  rw [Nat.mul_zero, Nat.add_zero, UInt8.ofNat_toNat]

theorem reads_readByte (b : UInt8) : readByte.Reads [b] b := by
  have hread : (readExact [0]).Reads [b] [b] := reads_readExact rfl
  exact hread.bind_pure (congrArg pure (byte_leNat b))

theorem reads_readInt32 (n : Int32) : readInt32.Reads (int32Bytes n) n :=
  (reads_readExact (by simp)).bind_pure (congrArg pure (int32OfBytes_int32Bytes n))

/-- A string of a message that a vector can hold is read back. -/
theorem reads_readBytes_of_le (cs : Bytes) {bs : Bytes}
    (h : (cs ++ prefixedBytes bs).length ≤ maxSize) :
    readBytes.Reads (prefixedBytes bs) bs := by
  refine reads_readBytes ?_
  have hmax : maxSize < 256 ^ 8 := by rw [maxSize]; decide
  rw [List.length_append, prefixedBytes, List.length_append] at h
  omega

/-- A body with a session, a request and a string is read back. -/
theorem reads_addressed {sessionId : UUID} {requestId : Int32} {bs : Bytes}
    {message : UUID → Int32 → Bytes → NetMessage} (h : sessionId < 256 ^ 16)
    (hlen : (uuidBytes sessionId ++ (int32Bytes requestId ++ prefixedBytes bs)).length ≤ maxSize) :
    Decoder.Reads (do
        let sessionId ← StdStorageSerializer.readUuid
        let requestId ← readInt32
        let bs ← readBytes
        pure (message sessionId requestId bs))
      (uuidBytes sessionId ++ (int32Bytes requestId ++ prefixedBytes bs))
      (message sessionId requestId bs) := by
  refine (StdStorageSerializer.reads_readUuid h).bind ((reads_readInt32 requestId).bind ?_)
  refine Decoder.Reads.bind_pure (reads_readBytes_of_le
    (uuidBytes sessionId ++ int32Bytes requestId) ?_) rfl
  rw [List.append_assoc]
  exact hlen

/-- What follows the kind of a message is read back. -/
theorem reads_bodyDecoder {m : NetMessage} (h : m.Fits) (hlen : (bodyBytes m).length ≤ maxSize) :
    (bodyDecoder (some m.type)).Reads (bodyBytes m) m := by
  cases m with
  | ping requestId => exact (reads_readInt32 requestId).bind_pure rfl
  | pong sessionId err requestId payload =>
    refine (StdStorageSerializer.reads_readUuid h).bind ((reads_readInt32 requestId).bind ?_)
    refine (reads_readByte err.toUInt8).bind ?_
    rw [NetErrorCode.ofUInt8_toUInt8]
    refine Decoder.Reads.bind_pure (reads_readBytes_of_le
      (uuidBytes sessionId ++ (int32Bytes requestId ++ [err.toUInt8])) ?_) rfl
    rw [List.append_assoc, List.append_assoc]
    exact hlen
  | query sessionId requestId query => exact reads_addressed h hlen
  | createDb sessionId requestId dbName => exact reads_addressed h hlen
  | attachDb sessionId requestId dbName => exact reads_addressed h hlen
  | cancelStream sessionId requestId =>
    exact (StdStorageSerializer.reads_readUuid h).bind ((reads_readInt32 requestId).bind_pure rfl)
  | close sessionId requestId =>
    exact (StdStorageSerializer.reads_readUuid h).bind ((reads_readInt32 requestId).bind_pure rfl)

/-- **An encoded message is read back.** -/
theorem reads_messageDecoder {m : NetMessage} (h : m.Fits)
    (hlen : (encode m).length ≤ maxSize) : messageDecoder.Reads (encode m) m := by
  rw [encode_eq] at hlen ⊢
  refine (reads_readByte m.type.toUInt8).bind ?_
  rw [NetMessageType.ofUInt8_toUInt8]
  refine reads_bodyDecoder h ?_
  rw [List.length_append] at hlen
  exact (Nat.le_add_left _ _).trans hlen

/-- A message alone. -/
theorem parse_self {m : NetMessage} (h : m.Fits) (hlen : (encode m).length ≤ maxSize) :
    parse (encode m) = .ok m := by
  rw [parse_eq hlen, (reads_messageDecoder h hlen).run]
  rfl

theorem exact_readByte : readByte.Exact fun b => [b] := by
  intro s t b h
  obtain ⟨bs, u, hread, hp⟩ := Decoder.bind_eq_some.mp h
  obtain ⟨rfl, rfl⟩ := Decoder.pure_eq_some.mp hp
  obtain ⟨hlen, hs⟩ := readExact_eq_some hread
  obtain ⟨b, rfl⟩ := List.length_eq_one_iff.mp hlen
  rw [byte_leNat]
  exact hs

theorem exact_readInt32 : readInt32.Exact int32Bytes := by
  intro s t n h
  obtain ⟨bs, u, hread, hp⟩ := Decoder.bind_eq_some.mp h
  obtain ⟨rfl, rfl⟩ := Decoder.pure_eq_some.mp hp
  obtain ⟨hlen, hs⟩ := readExact_eq_some hread
  rw [int32Bytes_int32OfBytes (hlen.trans (length_zeros 4))]
  exact hs

/-- A session id, a request id and a string are written as the bytes they have
been read from. -/
theorem exact_string (f : UUID → Int32 → Bytes → NetMessage) {s t : Bytes} {m : NetMessage}
    (h : (do
      let sessionId ← StdStorageSerializer.readUuid
      let requestId ← readInt32
      let str ← readBytes
      pure (f sessionId requestId str) : Decoder NetMessage) s = some (m, t)) :
    ∃ sessionId requestId str, m = f sessionId requestId str
      ∧ s = uuidBytes sessionId ++ (int32Bytes requestId ++ prefixedBytes str) ++ t := by
  obtain ⟨sessionId, s₁, hid, h⟩ := Decoder.bind_eq_some.mp h
  obtain ⟨requestId, s₂, hrequest, h⟩ := Decoder.bind_eq_some.mp h
  obtain ⟨str, s₃, hstr, h⟩ := Decoder.bind_eq_some.mp h
  obtain ⟨rfl, rfl⟩ := Decoder.pure_eq_some.mp h
  refine ⟨sessionId, requestId, str, rfl, ?_⟩
  rw [StdStorageSerializer.exact_readUuid hid, exact_readInt32 hrequest, exact_readBytes hstr]
  simp only [List.append_assoc]

/-- A session id and a request id likewise. -/
theorem exact_ids (f : UUID → Int32 → NetMessage) {s t : Bytes} {m : NetMessage}
    (h : (do
      let sessionId ← StdStorageSerializer.readUuid
      let requestId ← readInt32
      pure (f sessionId requestId) : Decoder NetMessage) s = some (m, t)) :
    ∃ sessionId requestId, m = f sessionId requestId
      ∧ s = uuidBytes sessionId ++ int32Bytes requestId ++ t := by
  obtain ⟨sessionId, s₁, hid, h⟩ := Decoder.bind_eq_some.mp h
  obtain ⟨requestId, s₂, hrequest, h⟩ := Decoder.bind_eq_some.mp h
  obtain ⟨rfl, rfl⟩ := Decoder.pure_eq_some.mp h
  refine ⟨sessionId, requestId, rfl, ?_⟩
  rw [StdStorageSerializer.exact_readUuid hid, exact_readInt32 hrequest, List.append_assoc]

/-- What follows the kind of a message is written as the bytes it has been read
from. -/
theorem exact_bodyDecoder {type : NetMessageType} {s t : Bytes} {m : NetMessage}
    (h : bodyDecoder (some type) s = some (m, t)) : m.type = type ∧ s = bodyBytes m ++ t := by
  cases type with
  | undefined => cases h
  | ping =>
    obtain ⟨requestId, u, hrequest, h⟩ := Decoder.bind_eq_some.mp h
    obtain ⟨rfl, rfl⟩ := Decoder.pure_eq_some.mp h
    exact ⟨rfl, exact_readInt32 hrequest⟩
  | pong =>
    obtain ⟨sessionId, s₁, hid, h⟩ := Decoder.bind_eq_some.mp h
    obtain ⟨requestId, s₂, hrequest, h⟩ := Decoder.bind_eq_some.mp h
    obtain ⟨rawErr, s₃, herr, h⟩ := Decoder.bind_eq_some.mp h
    obtain ⟨payload, s₄, hpayload, h⟩ := Decoder.bind_eq_some.mp h
    obtain ⟨rfl, rfl⟩ := Decoder.pure_eq_some.mp h
    refine ⟨rfl, ?_⟩
    rw [StdStorageSerializer.exact_readUuid hid, exact_readInt32 hrequest, exact_readByte herr,
      exact_readBytes hpayload]
    simp only [bodyBytes, NetErrorCode.toUInt8_ofUInt8, List.append_assoc]
  | query =>
    obtain ⟨_, _, _, rfl, hs⟩ := exact_string .query h
    exact ⟨rfl, hs⟩
  | createDb =>
    obtain ⟨_, _, _, rfl, hs⟩ := exact_string .createDb h
    exact ⟨rfl, hs⟩
  | attachDb =>
    obtain ⟨_, _, _, rfl, hs⟩ := exact_string .attachDb h
    exact ⟨rfl, hs⟩
  | cancelStream =>
    obtain ⟨_, _, rfl, hs⟩ := exact_ids .cancelStream h
    exact ⟨rfl, hs⟩
  | close =>
    obtain ⟨_, _, rfl, hs⟩ := exact_ids .close h
    exact ⟨rfl, hs⟩

/-- **What is accepted has been encoded.** -/
theorem exact_messageDecoder : messageDecoder.Exact encode := by
  intro s t m h
  obtain ⟨rawType, u, hraw, hbody⟩ := Decoder.bind_eq_some.mp h
  cases htype : NetMessageType.ofUInt8 rawType with
  | none =>
    rw [htype] at hbody
    cases hbody
  | some type =>
    rw [htype] at hbody
    obtain ⟨hm, hu⟩ := exact_bodyDecoder hbody
    have hs : s = [rawType] ++ u := exact_readByte hraw
    rw [encode_eq, hm, NetMessageType.toUInt8_of_ofUInt8 htype, List.append_assoc, ← hu]
    exact hs

/-- **The protocol of the server.** Every message is read back from its
encoding, whatever follows it; and whatever bytes a peer sends, `parse` returns
a message without reading behind their end, and unless that is the protocol
violation the bytes begin with its encoding. -/
theorem parse_encode :
    (∀ (m : NetMessage) (t : Bytes), m.Fits → (encode m ++ t).length ≤ maxSize →
        parse (encode m ++ t) = .ok m)
      ∧ ∀ b : Bytes, b.length ≤ maxSize → ∃ m, parse b = .ok m
        ∧ (m ≠ protocolViolationMessage → ∃ t, b = encode m ++ t) := by
  constructor
  · intro m t hfits hlen
    have hm : (encode m).length ≤ maxSize := by
      rw [List.length_append] at hlen
      exact (Nat.le_add_right _ _).trans hlen
    rw [parse_eq hlen, reads_messageDecoder hfits hm t]
    rfl
  · intro b hlen
    refine ⟨_, parse_eq hlen, fun hne => ?_⟩
    cases hd : messageDecoder b with
    | none =>
      rw [hd] at hne
      exact (hne rfl).elim
    | some x =>
      obtain ⟨m, t⟩ := x
      exact ⟨t, exact_messageDecoder hd⟩

/-- A query is read back with two bytes behind it, and they alone are a
violation. -/
theorem parse_encode_query :
    parse (encode (.query 5 7 [115, 113, 108]) ++ [1, 2]) = .ok (.query 5 7 [115, 113, 108])
      ∧ ∃ m, parse [1, 2] = .ok m
        ∧ (m ≠ protocolViolationMessage → ∃ t, [1, 2] = encode m ++ t) :=
  ⟨parse_encode.1 _ _ (by decide) (by decide +kernel), parse_encode.2 _ (by decide +kernel)⟩

end StdNetProtocol
