import Deltabase.Types.NetMessage

/-!
# The messages of the client

The .NET client has message classes of its own, with its own enumeration of
their kinds. Its strings are sequences of Unicode scalar values here, and its
`Guid`s are the sixteen bytes they stand for; the error codes have the values
of the server's `NetErrorCode`.

`Encoding.UTF8` writes a string as its UTF-8 bytes and reads bytes that are not
UTF-8 with a replacement character for each maximal ill-formed part.
-/

/-! ## UTF-8 -/

namespace Utf8

/-- `Encoding.UTF8.GetBytes`. -/
def getBytes (s : String) : Bytes := s.toUTF8.data.toList

/-- The second byte may follow the first in a character of three or four
bytes. -/
def mayFollow (b₀ b₁ : UInt8) : Bool :=
  (b₀ == 0xE0 && 0xA0 ≤ b₁ && b₁ ≤ 0xBF)
    || (0xE1 ≤ b₀ && b₀ ≤ 0xEF && b₀ != 0xED && 0x80 ≤ b₁ && b₁ ≤ 0xBF)
    || (b₀ == 0xED && 0x80 ≤ b₁ && b₁ ≤ 0x9F)
    || (b₀ == 0xF0 && 0x90 ≤ b₁ && b₁ ≤ 0xBF)
    || (0xF1 ≤ b₀ && b₀ ≤ 0xF3 && 0x80 ≤ b₁ && b₁ ≤ 0xBF)
    || (b₀ == 0xF4 && 0x80 ≤ b₁ && b₁ ≤ 0x8F)

/-- How many bytes the ill-formed part at the beginning has: as many as begin a
character, and at least one. -/
def illFormedLength : Bytes → ℕ
  | b₀ :: b₁ :: rest =>
    if !mayFollow b₀ b₁ then 1
    else if b₀ < 0xF0 then 2
    else match rest with
      | b₂ :: _ => if 0x80 ≤ b₂ && b₂ ≤ 0xBF then 3 else 2
      | [] => 2
  | _ => 1

/-- The characters of a byte string, with the replacement character for each
ill-formed part; `fuel` bounds the number of characters. -/
def decodeReplacing : ℕ → Bytes → List Char
  | 0, _ => []
  | _ + 1, [] => []
  | fuel + 1, b :: bs =>
    match ByteArray.utf8DecodeChar? ⟨(b :: bs).toArray⟩ 0 with
    | some c => c :: decodeReplacing fuel ((b :: bs).drop c.utf8Size)
    | none => '\uFFFD' :: decodeReplacing fuel ((b :: bs).drop (illFormedLength (b :: bs)))

/-- `Encoding.UTF8.GetString`. -/
def getString (bytes : Bytes) : String :=
  match String.fromUTF8? ⟨bytes.toArray⟩ with
  | some s => s
  | none => String.ofList (decodeReplacing bytes.length bytes)

/-- **The bytes of a string are read as the string.** -/
@[simp] theorem getString_getBytes (s : String) : getString (getBytes s) = s := by
  have hbytes : (⟨(getBytes s).toArray⟩ : ByteArray) = s.toByteArray := rfl
  have hread : String.fromUTF8? ⟨(getBytes s).toArray⟩ = some s := by
    rw [hbytes, String.fromUTF8?, dif_pos s.isValidUTF8]
    rfl
  rw [getString, hread]

theorem getBytes_injective : Function.Injective getBytes :=
  Function.LeftInverse.injective getString_getBytes

end Utf8

/-! ## Messages -/

/-- `System.Guid`. -/
abbrev Guid := { id : UUID // id < 256 ^ 16 }

/-- `MessageType`. -/
inductive MessageType where
  | undefined
  | ping
  | pong
  | query
  | createDb
  | attachDb
  | cancelStream
  | close
  deriving DecidableEq

namespace MessageType

/-- `(byte)messageType`. -/
def toByte : MessageType → UInt8
  | undefined => 0
  | ping => 1
  | pong => 2
  | query => 3
  | createDb => 4
  | attachDb => 5
  | cancelStream => 6
  | close => 7

/-- `(MessageType)rawType`, if that is an enumerator. -/
def ofByte (raw : UInt8) : Option MessageType :=
  if raw = 0 then some undefined
  else if raw = 1 then some ping
  else if raw = 2 then some pong
  else if raw = 3 then some query
  else if raw = 4 then some createDb
  else if raw = 5 then some attachDb
  else if raw = 6 then some cancelStream
  else if raw = 7 then some close
  else none

end MessageType

/-- `DeltabaseMessage` and its subclasses. -/
inductive DeltabaseMessage where
  | ping (requestId : Int32)
  | pong (sessionId : Guid) (requestId : Int32) (errorCode : NetErrorCode) (payload : Bytes)
  | query (sessionId : Guid) (requestId : Int32) (query : String)
  | createDb (sessionId : Guid) (requestId : Int32) (dbName : String)
  | attachDb (sessionId : Guid) (requestId : Int32) (dbName : String)
  | cancelStream (sessionId : Guid) (requestId : Int32)
  | close (sessionId : Guid) (requestId : Int32)
  deriving DecidableEq

namespace DeltabaseMessage

/-- `message.Type`. -/
def type : DeltabaseMessage → MessageType
  | ping .. => .ping
  | pong .. => .pong
  | query .. => .query
  | createDb .. => .createDb
  | attachDb .. => .attachDb
  | cancelStream .. => .cancelStream
  | close .. => .close

/-- **The same message on the side of the server.** -/
def toNet : DeltabaseMessage → NetMessage
  | ping requestId => .ping requestId
  | pong sessionId requestId errorCode payload => .pong sessionId errorCode requestId payload
  | query sessionId requestId text => .query sessionId requestId (Utf8.getBytes text)
  | createDb sessionId requestId dbName => .createDb sessionId requestId (Utf8.getBytes dbName)
  | attachDb sessionId requestId dbName => .attachDb sessionId requestId (Utf8.getBytes dbName)
  | cancelStream sessionId requestId => .cancelStream sessionId requestId
  | close sessionId requestId => .close sessionId requestId

theorem fits_toNet (m : DeltabaseMessage) : m.toNet.Fits := by
  cases m with
  | ping requestId => trivial
  | pong sessionId => exact sessionId.2
  | query sessionId => exact sessionId.2
  | createDb sessionId => exact sessionId.2
  | attachDb sessionId => exact sessionId.2
  | cancelStream sessionId => exact sessionId.2
  | close sessionId => exact sessionId.2

end DeltabaseMessage

/-- The exceptions that the client throws. -/
inductive ClientExn where
  /-- `DeltabaseException()`. -/
  | deltabase
  /-- `DeltabaseException(err)`. -/
  | deltabaseError (err : NetErrorCode)
  /-- `InvalidOperationException`. -/
  | invalidOperation (message : String)
  /-- `ArgumentOutOfRangeException`. -/
  | argumentOutOfRange
  deriving DecidableEq
