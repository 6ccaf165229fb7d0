import Deltabase.Types.DataPage

/-!
# Schemas, tables, columns and indexes

The catalog's records. A `MetaTable` carries, besides its columns and indexes,
three counters: `last_rid`, from which row ids are handed out, and the number
of row versions and of live rows. `make_row` is where an inserted row gets its
id and its tokens in schema order.
-/

/-- `types::MetaColumn`. -/
structure MetaColumn where
  id : ColumnId
  tableId : TableId
  name : Bytes
  type : DataType
  flags : ℕ := 0
  deriving DecidableEq

/-- `types::MetaIndex`. -/
structure MetaIndex where
  id : IndexId
  tableId : TableId
  columnId : ColumnId
  rootPageId : DataPageId := UUID.null
  name : Bytes
  keyType : DataType
  isUnique : Bool
  deriving DecidableEq

/-- `types::MetaSchema`. -/
structure MetaSchema where
  id : UUID
  name : Bytes
  dbName : Bytes
  deriving DecidableEq

/-- `types::MetaTable`. -/
structure MetaTable where
  id : TableId
  schemaId : UUID
  name : Bytes
  columns : List MetaColumn
  indexes : List MetaIndex := []
  lastRid : ℕ := 0
  totalRows : ℕ := 0
  liveRows : ℕ := 0
  deriving DecidableEq

namespace MetaTable

/-- `get_column_idx(name)`; `none` is the `-1` of the source. -/
def getColumnIdxByName (mt : MetaTable) (colName : Bytes) : Option ℕ :=
  mt.columns.findIdx? (fun c => c.name == colName)

/-- `get_column_idx(id)`, which throws when no column has the id. -/
def getColumnIdx (mt : MetaTable) (colId : ColumnId) : Except Exn ℕ :=
  match mt.columns.findIdx? (fun c => c.id == colId) with
  | some i => .ok i
  | none => .error (.runtimeError "MetaTable::get_column_idx: column doesnt exist")

/-- `get_column(name)`, which throws when no column has the name. -/
def getColumn (mt : MetaTable) (colName : Bytes) : Except Exn MetaColumn :=
  match mt.columns.find? (fun c => c.name == colName) with
  | some c => .ok c
  | none => .error (.runtimeError "MetaTable::get_column: column not found")

/-- The `NULL` token a column without a value gets. -/
def nullToken : DataToken := ⟨[], .null⟩

/-- The tokens of a new row in schema order. Without column names the values
are taken by position; with names, each value goes to the column it names, the
last one winning, and a value without a column or a name without a value is
dropped. -/
def reorderedTokens (mt : MetaTable) (cols : Option (List Bytes))
    (row : List DataToken) : List DataToken :=
  match cols with
  | none => row.take mt.columns.length
      ++ List.replicate (mt.columns.length - row.length) nullToken
  | some names =>
    (names.zip row).foldl
      (fun tokens nv =>
        match mt.getColumnIdxByName nv.1 with
        | some i => tokens.set i nv.2
        | none => tokens)
      (List.replicate mt.columns.length nullToken)

/-- `make_row`: the row and the table with its counters advanced. The row's id
is the value of `last_rid` *before* the increment. -/
def makeRow (mt : MetaTable) (cols : Option (List Bytes)) (row : List DataToken) :
    DataRow × MetaTable :=
  ({ id := mt.lastRid, tokens := mt.reorderedTokens cols row },
   { mt with
      lastRid := mt.lastRid + 1
      totalRows := mt.totalRows + 1
      liveRows := mt.liveRows + 1 })

/-- What holds of a row of nulls, and still holds when a value is set at the
column it is named for, holds of a new row whose values are named. -/
theorem reorderedTokens_some_rec {P : List DataToken → Prop} {mt : MetaTable}
    {names : List Bytes} {row : List DataToken}
    (hnulls : P (List.replicate mt.columns.length nullToken))
    (hset : ∀ tokens, P tokens → ∀ p ∈ names.zip row, ∀ i,
      mt.getColumnIdxByName p.1 = some i → P (tokens.set i p.2)) :
    P (mt.reorderedTokens (some names) row) := by
  unfold reorderedTokens
  refine List.foldlRecOn _ _ hnulls fun tokens htokens p hp => ?_
  cases hidx : mt.getColumnIdxByName p.1 with
  | none => exact htokens
  | some i => exact hset tokens htokens p hp i hidx

/-- **Every row has one token per column.** -/
theorem length_reorderedTokens (mt : MetaTable) (cols : Option (List Bytes))
    (row : List DataToken) : (mt.reorderedTokens cols row).length = mt.columns.length := by
  cases cols with
  | none =>
    rw [reorderedTokens, List.length_append, List.length_take, List.length_replicate]
    omega
  | some names =>
    refine reorderedTokens_some_rec (P := fun tokens => tokens.length = mt.columns.length)
      List.length_replicate fun tokens htokens p _ i _ => ?_
    rw [List.length_set]
    exact htokens

end MetaTable
