import Deltabase.Types.DataPage

/-!
# The messages of the network protocol

A client and the server exchange the seven alternatives of `types::NetMessage`.
The kind of a message is the first byte of its encoding; a `PONG` is the one
answer the server has, with an error code that also says where in a stream of
results it stands.
-/

/-- `types::NetMessageType`, an `enum class : uint8_t`. -/
inductive NetMessageType where
  | undefined
  | ping
  | pong
  | query
  | createDb
  | attachDb
  | close
  | cancelStream
  deriving DecidableEq

namespace NetMessageType

/-- The underlying byte. -/
def toUInt8 : NetMessageType → UInt8
  | undefined => 0
  | ping => 1
  | pong => 2
  | query => 3
  | createDb => 4
  | attachDb => 5
  | close => 6
  | cancelStream => 7

/-- The enumerator with a given underlying byte, if there is one. -/
def ofUInt8 (raw : UInt8) : Option NetMessageType :=
  if raw = 0 then some undefined
  else if raw = 1 then some ping
  else if raw = 2 then some pong
  else if raw = 3 then some query
  else if raw = 4 then some createDb
  else if raw = 5 then some attachDb
  else if raw = 6 then some close
  else if raw = 7 then some cancelStream
  else none

@[simp] theorem ofUInt8_toUInt8 (t : NetMessageType) : ofUInt8 t.toUInt8 = some t := by
  cases t <;> rfl

/-- The bytes of an enumerator are those it is made from. -/
theorem toUInt8_of_ofUInt8 {raw : UInt8} {t : NetMessageType} (h : ofUInt8 raw = some t) :
    t.toUInt8 = raw := by
  unfold ofUInt8 at h
  split_ifs at h <;> cases h <;> subst raw <;> rfl

end NetMessageType

/-- `types::NetErrorCode`, an `enum class : uint8_t`. The last constructor holds
the bytes that no enumerator names, which a message can carry. -/
inductive NetErrorCode where
  | success
  | startStream
  | streamChunk
  | endStream
  | protocolViolation
  | dbNotExists
  | sqlError
  | uninitializedSession
  | other (raw : UInt8) (h : 4 ≤ raw ∧ raw < 100 ∨ 104 ≤ raw)
  deriving DecidableEq

namespace NetErrorCode

/-- The underlying byte. -/
def toUInt8 : NetErrorCode → UInt8
  | success => 0
  | startStream => 1
  | streamChunk => 2
  | endStream => 3
  | protocolViolation => 100
  | dbNotExists => 101
  | sqlError => 102
  | uninitializedSession => 103
  | other raw _ => raw

/-- The error code with a given underlying byte. -/
def ofUInt8 (raw : UInt8) : NetErrorCode :=
  if h : 4 ≤ raw ∧ raw < 100 ∨ 104 ≤ raw then other raw h
  else if raw = 0 then success
  else if raw = 1 then startStream
  else if raw = 2 then streamChunk
  else if raw = 3 then endStream
  else if raw = 100 then protocolViolation
  else if raw = 101 then dbNotExists
  else if raw = 102 then sqlError
  else uninitializedSession

@[simp] theorem ofUInt8_toUInt8 (e : NetErrorCode) : ofUInt8 e.toUInt8 = e := by
  cases e with
  | other raw h => rw [toUInt8, ofUInt8, dif_pos h]
  | _ => rfl

@[simp] theorem toUInt8_ofUInt8 (raw : UInt8) : (ofUInt8 raw).toUInt8 = raw := by
  unfold ofUInt8
  split_ifs with h h₀ h₁ h₂ h₃ h₄ h₅ h₆
  · rfl
  · exact h₀.symm
  · exact h₁.symm
  · exact h₂.symm
  · exact h₃.symm
  · exact h₄.symm
  · exact h₅.symm
  · exact h₆.symm
  · show 103 = raw
    grind

/-- `pong.ErrorCode >= (NetErrorCode)100`, a failure. -/
def isFailure (e : NetErrorCode) : Bool := decide (100 ≤ e.toUInt8)

end NetErrorCode

/-- `types::NetMessage`. -/
inductive NetMessage where
  | ping (requestId : Int32)
  | pong (sessionId : UUID) (err : NetErrorCode) (requestId : Int32) (payload : Bytes)
  | query (sessionId : UUID) (requestId : Int32) (query : Bytes)
  | createDb (sessionId : UUID) (requestId : Int32) (dbName : Bytes)
  | attachDb (sessionId : UUID) (requestId : Int32) (dbName : Bytes)
  | cancelStream (sessionId : UUID) (requestId : Int32)
  | close (sessionId : UUID) (requestId : Int32)
  deriving DecidableEq

namespace NetMessage

/-- `T::type`. -/
def type : NetMessage → NetMessageType
  | ping .. => .ping
  | pong .. => .pong
  | query .. => .query
  | createDb .. => .createDb
  | attachDb .. => .attachDb
  | cancelStream .. => .cancelStream
  | close .. => .close

/-- `msg.request_id`. -/
def requestId : NetMessage → Int32
  | ping requestId => requestId
  | pong _ _ requestId _ => requestId
  | query _ requestId _ => requestId
  | createDb _ requestId _ => requestId
  | attachDb _ requestId _ => requestId
  | cancelStream _ requestId => requestId
  | close _ requestId => requestId

/-- The session id is sixteen bytes. -/
def Fits : NetMessage → Prop
  | ping _ => True
  | pong sessionId .. => sessionId < 256 ^ 16
  | query sessionId .. => sessionId < 256 ^ 16
  | createDb sessionId .. => sessionId < 256 ^ 16
  | attachDb sessionId .. => sessionId < 256 ^ 16
  | cancelStream sessionId .. => sessionId < 256 ^ 16
  | close sessionId .. => sessionId < 256 ^ 16

instance : DecidablePred Fits := fun m => by cases m <;> unfold Fits <;> infer_instance

end NetMessage
