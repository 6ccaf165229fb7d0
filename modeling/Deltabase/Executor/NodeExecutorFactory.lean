import Deltabase.Executor.SelectExecution
import Deltabase.Executor.StdPlanner

/-!
# From a plan to an executor

The executors of the plan nodes that write, and `NodeExecutorFactory`, which makes
the executor of any plan. An executor that changes rows makes a transaction, takes
all rows of its child – an `INSERT` stores each as it comes, the others collect them
first – and commits. It puts the number of rows into the row it is asked for and says
that there is none, so nobody reads it. `CREATE DATABASE` makes another database and
does nothing to this one.
-/

/-! ## Columns of a new table -/

/-- `sql::to_data_type`. -/
def SqlKeyword.toDataType : SqlKeyword → DataType
  | .integer => .integer
  | .string => .string
  | .real => .real
  | .bool => .bool
  | .char => .char
  | .null => .null
  | _ => .undefined

namespace Misc

/-- `misc::convert_to_dt`. -/
def convertToDt (token : SqlToken) : Except Exn DataType :=
  match token.detail with
  | .keyword keyword =>
    if keyword.toDataType = .undefined then
      .error (.runtimeError
        "convert_to_dt: cannot convert SQL token to a data type: unknown type keyword")
    else .ok keyword.toDataType
  | _ => .error (.invalidArgument
      "convert_to_dt: cannot convert SQL token to data type: token is not a keyword" [])

/-- `misc::convert_to_mcf`: the flags `PK`, `UN`, `AI` and `NN`. -/
def convertToMcf : List SqlToken → ℕ
  | [] => 0
  | token :: tokens => convertToMcf tokens ||| match token.detail with
    | .keyword .primary => 1
    | .keyword .unique => 16
    | .keyword .autoincrement => 4
    | .keyword .not => if (tokens.head?.map SqlToken.detail) = some (.keyword .null) then 8 else 0
    | _ => 0

/-- `misc::convert` of the definition of a column. -/
def convertColumn (definition : Sql.ColumnDefinition) : Except Exn ColumnDefinition := do
  let type ← convertToDt definition.type
  pure { name := definition.name.value, type := type, flags := convertToMcf definition.constraints }

end Misc

namespace NodeExecutor

open StdDbInstance Transaction

/-- `ValuesNodeExecutor`: the position. -/
def values (rows : List (List DataToken)) : NodeExecutor where
  State := ℕ
  init := 0
  opened idx := pure idx
  next _ idx out :=
    match rows[idx]? with
    | none => pure (false, out, idx)
    | some tokens => pure (true, { tokens := tokens }, idx + 1)
  outputSchema _ := pure []

/-! ## Writing -/

/-- `misc::convert` of an `int`. -/
def affectedRows (count : ℕ) : DataToken := ⟨leBytes 4 count, .integer⟩

/-- The loop of `UpdateNodeExecutor::next` and `DeleteNodeExecutor::next`, which
asks for every row with a variable of its own. -/
def collect {σ : Type} (childNext : σ → DataRow → Prog (Bool × DataRow × σ)) :
    ℕ → σ → Prog (List DataRow × σ)
  | 0, _ => throw .divergence
  | rounds + 1, state => do
    let (found, row, state) ← childNext state .blank
    if found then
      let (rows, state) ← collect childNext rounds state
      pure (row :: rows, state)
    else pure ([], state)

/-- The loop of `InsertNodeExecutor::next`, which counts the rows. -/
def insertLoop {σ : Type} (childNext : σ → DataRow → Prog (Bool × DataRow × σ))
    (tableName schemaName : Bytes) (cols : Option (List Bytes)) : ℕ → σ → Prog (ℕ × σ)
  | 0, _ => throw .divergence
  | rounds + 1, state => do
    let (found, row, state) ← childNext state .blank
    if found then
      insertRow tableName schemaName cols row.tokens
      let (count, state) ← insertLoop childNext tableName schemaName cols rounds state
      pure (count + 1, state)
    else pure (0, state)

/-- An executor that changes rows: `executed_` and its child. It does its work the
first time it is asked for a row, in a transaction of its own. -/
def changing (name : String) (child : NodeExecutor)
    (body : ℕ → child.State → Prog (ℕ × child.State)) : NodeExecutor where
  State := Bool × child.State
  init := (false, child.init)
  opened state := do
    let childState ← child.opened state.2
    pure (state.1, childState)
  next rounds state out :=
    if state.1 then pure (false, out, state)
    else do
      makeTransaction
      begin
      let (count, childState) ← body rounds state.2
      commit
      pure (false, { out with tokens := [affectedRows count] }, (true, childState))
  outputSchema _ := pure [(text name, .integer)]

/-- `InsertNodeExecutor`. -/
def insert (tableName schemaName : Bytes) (cols : Option (List Bytes)) (child : NodeExecutor) :
    NodeExecutor :=
  changing "affected_rows" child fun rounds state =>
    insertLoop (child.next rounds) tableName schemaName cols rounds state

/-- `UpdateNodeExecutor`. -/
def update (tableName schemaName : Bytes) (assignments : RowUpdate) (child : NodeExecutor) :
    NodeExecutor :=
  changing "affected rows" child fun rounds state => do
    let (rows, state) ← collect (child.next rounds) rounds state
    updateRow tableName schemaName assignments rows
    pure (rows.length, state)

/-- `DeleteNodeExecutor`. -/
def delete (tableName schemaName : Bytes) (child : NodeExecutor) : NodeExecutor :=
  changing "affected rows" child fun rounds state => do
    let (rows, state) ← collect (child.next rounds) rounds state
    deleteRows tableName schemaName rows
    pure (rows.length, state)

/-- An executor that makes or drops something: a transaction around one call of the
storage, every time it is asked for a row. -/
def defining (body : Prog Unit) : NodeExecutor where
  State := Unit
  init := ()
  opened := pure
  next _ state out := do
    makeTransaction
    begin
    body
    commit
    pure (false, out, state)
  outputSchema _ := pure []

/-- `CreateTableNodeExecutor`; the columns are converted in `create_table`. -/
def createTable (tableName schemaName : Bytes) (columns : List Sql.ColumnDefinition) :
    NodeExecutor :=
  defining do
    let columns ← liftExcept (columns.mapM Misc.convertColumn)
    StdDbInstance.createTable tableName schemaName columns

/-- `CreateIndexNodeExecutor`. -/
def createIndex (indexName tableName columnName schemaName : Bytes) (isUnique : Bool) :
    NodeExecutor :=
  defining (StdDbInstance.createIndex indexName tableName columnName schemaName isUnique)

/-- `DropIndexNodeExecutor`. -/
def dropIndex (indexName tableName schemaName : Bytes) : NodeExecutor :=
  defining (StdDbInstance.dropIndex indexName tableName schemaName)

/-- `CreateDbNodeExecutor`, which makes an instance of another database. -/
def createDb : NodeExecutor where
  State := Unit
  init := ()
  opened := pure
  next _ state out := pure (false, out, state)
  outputSchema _ := pure []

/-! ## The factory -/

/-- `NodeExecutorFactory::from_plan`; `unwritten` is what the `bool` of a `CREATE
INDEX` without `UNIQUE` happens to hold, which nobody has written to. -/
def fromPlan (unwritten : Bool) : Sql.PlanNode → NodeExecutor
  | .seqScan tableName schemaName => seqScan tableName schemaName
  | .indexScan tableName schemaName indexId condition =>
    indexScan tableName schemaName indexId condition
  | .filter table condition child => filter table condition (fromPlan unwritten child)
  | .project table columns child => projection table columns (fromPlan unwritten child)
  | .limit n child => limit n (fromPlan unwritten child)
  | .values rows => values rows
  | .insert tableName schemaName cols child =>
    insert tableName schemaName cols (fromPlan unwritten child)
  | .update tableName schemaName assignments child =>
    update tableName schemaName assignments (fromPlan unwritten child)
  | .delete tableName schemaName child => delete tableName schemaName (fromPlan unwritten child)
  | .createDb _ => createDb
  | .createTable tableName schema columns => createTable tableName schema.name columns
  | .createIndex indexName tableName schemaName columnName isUnique =>
    createIndex indexName tableName columnName schemaName (isUnique.getD unwritten)
  | .dropIndex indexName tableName schemaName => dropIndex indexName tableName schemaName

end NodeExecutor
