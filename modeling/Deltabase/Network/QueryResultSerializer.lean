import Deltabase.Misc.ReadOnlyMemoryStream
import Deltabase.Types.DataTable

/-!
# Results on the wire

`net::QueryResultSerializer` writes a chunk of a result: the columns, then the
rows with their tokens, each list with its length before it. A row is its
tokens alone, and a token is written with its bytes whatever its type is.
-/

namespace QueryResultSerializer

open ReadOnlyMemoryStream

/-- The loop body of `serialize` over the columns. -/
def writeColumn (stream : MemoryStream) (column : Bytes × DataType) : MemoryStream :=
  (stream.writeBytes column.1).writeU64 column.2.toNat

/-- The loop body over the tokens of a row. -/
def writeToken (stream : MemoryStream) (token : DataToken) : MemoryStream :=
  (stream.writeU64 token.type.toNat).writeBytes token.bytes

/-- The loop body over the rows. -/
def writeRow (stream : MemoryStream) (row : DataRow) : MemoryStream :=
  row.tokens.foldl writeToken (stream.writeU64 row.tokens.length)

/-- `serialize`. -/
def serialize (table : DataTable) : Bytes :=
  let stream : MemoryStream := {}
  let stream := stream.writeU64 table.outputSchema.length
  let stream := table.outputSchema.foldl writeColumn stream
  let stream := stream.writeU64 table.rows.length
  let stream := table.rows.foldl writeRow stream
  stream.buffer

/-! ## The bytes of a table -/

/-- The bytes of a column. -/
def columnBytes (column : Bytes × DataType) : Bytes :=
  prefixedBytes column.1 ++ beBytes 8 column.2.toNat

/-- The bytes of a token. -/
def tokenBytes (token : DataToken) : Bytes :=
  beBytes 8 token.type.toNat ++ prefixedBytes token.bytes

/-- The bytes of a row. -/
def rowBytes (row : DataRow) : Bytes :=
  beBytes 8 row.tokens.length ++ row.tokens.flatMap tokenBytes

/-- A loop that writes at the end appends what its iterations write. -/
theorem foldl_atEnd {α : Type} {f : MemoryStream → α → MemoryStream} {g : α → Bytes}
    (h : ∀ bs a, f (.atEnd bs) a = .atEnd (bs ++ g a)) (as : List α) (bs : Bytes) :
    as.foldl f (.atEnd bs) = .atEnd (bs ++ as.flatMap g) := by
  induction as generalizing bs with
  | nil => rw [List.foldl_nil, List.flatMap_nil, List.append_nil]
  | cons a as ih => rw [List.foldl_cons, h, ih, List.flatMap_cons, List.append_assoc]

theorem writeColumn_atEnd (bs : Bytes) (column : Bytes × DataType) :
    writeColumn (.atEnd bs) column = .atEnd (bs ++ columnBytes column) := by
  rw [writeColumn, MemoryStream.writeBytes_atEnd, MemoryStream.writeU64_atEnd, List.append_assoc]
  rfl

theorem writeToken_atEnd (bs : Bytes) (token : DataToken) :
    writeToken (.atEnd bs) token = .atEnd (bs ++ tokenBytes token) := by
  rw [writeToken, MemoryStream.writeU64_atEnd, MemoryStream.writeBytes_atEnd, List.append_assoc]
  rfl

theorem writeRow_atEnd (bs : Bytes) (row : DataRow) :
    writeRow (.atEnd bs) row = .atEnd (bs ++ rowBytes row) := by
  rw [writeRow, MemoryStream.writeU64_atEnd, foldl_atEnd writeToken_atEnd, List.append_assoc]
  rfl

/-- **The bytes of a table.** -/
theorem serialize_eq (table : DataTable) :
    serialize table
      = beBytes 8 table.outputSchema.length ++ (table.outputSchema.flatMap columnBytes
        ++ (beBytes 8 table.rows.length ++ table.rows.flatMap rowBytes)) := by
  show (table.rows.foldl writeRow ((table.outputSchema.foldl writeColumn
    ((MemoryStream.atEnd []).writeU64 table.outputSchema.length)).writeU64
      table.rows.length)).buffer = _
  rw [MemoryStream.writeU64_atEnd, foldl_atEnd writeColumn_atEnd, MemoryStream.writeU64_atEnd,
    foldl_atEnd writeRow_atEnd, MemoryStream.buffer_atEnd, List.nil_append]
  simp only [List.append_assoc]

end QueryResultSerializer
