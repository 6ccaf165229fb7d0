import Deltabase.Executor.Evaluator
import Deltabase.Storage.IndexScan
import Deltabase.Storage.RowOperations
import Deltabase.Storage.SeqScan
import Deltabase.Types.DataTable

/-!
# Executing a SELECT

A plan is turned into a tree of executors, each of which is opened once and
then asked for one row after another. Here are those that only read.
`Engine::execute_query` either opens and asks them itself and hands out a table
(`MaterializedResult`), or hands out the tree (`StreamedResult`) and leaves the
asking to the caller.

Nobody opens the tree in the second case. A scan that has not been opened has no
rows, and a projection that has not been opened has no columns. So a streamed
result is always empty, and the two results agree exactly when the query finds
nothing and selects all columns.

What `close` does is nothing for all these executors, and it is left out.
-/

/-! ## Executors -/

/-- **`exq::INodeExecutor`**: an object with a state of its own that can be
opened and asked for rows. A row is written to the variable that is passed. -/
structure NodeExecutor where
  State : Type
  init : State
  opened : State → Prog State
  next : ℕ → State → DataRow → Prog (Bool × DataRow × State)
  outputSchema : State → Prog OutputSchema

namespace NodeExecutor

open StdDbInstance

/-- The columns of a table. -/
def tableSchema (tableName schemaName : Bytes) : Prog OutputSchema := do
  let mt ← getTable tableName schemaName
  pure (mt.columns.map fun column => (column.name, column.type))

/-- `SeqScanNodeExecutor`. -/
def seqScan (tableName schemaName : Bytes) : NodeExecutor where
  State := ScanCursor
  init := {}
  opened _ := do
    let page ← seqScanBegin tableName schemaName
    pure { page := page, slot := 0, initialized := true }
  next rounds cursor out := seqScanNext rounds cursor out
  outputSchema _ := tableSchema tableName schemaName

/-- `IndexScanNodeExecutor`: the rows and the position. -/
def indexScan (tableName schemaName : Bytes) (indexId : IndexId) (condition : Sql.ExprNode) :
    NodeExecutor where
  State := List DataRow × ℕ
  init := ([], 0)
  opened state := do
    let rows ← StdDbInstance.indexScan tableName schemaName indexId condition
    pure (rows, state.2)
  next _ state out :=
    match state.1[state.2]? with
    | none => pure (false, out, state)
    | some row => pure (true, row, (state.1, state.2 + 1))
  outputSchema _ := tableSchema tableName schemaName

/-- The loop of `FilterNodeExecutor::next`. -/
def filterLoop {σ : Type} (childNext : σ → DataRow → Prog (Bool × DataRow × σ))
    (table : MetaTable) (condition : Sql.ExprNode) : ℕ → σ → DataRow → Prog (Bool × DataRow × σ)
  | 0, _, _ => throw .divergence
  | rounds + 1, state, out => do
    let (found, row, state) ← childNext state .blank
    if found then
      let satisfied ← liftExcept (Evaluator.evaluate table row condition)
      if satisfied then pure (true, row, state)
      else filterLoop childNext table condition rounds state out
    else pure (false, out, state)

/-- `FilterNodeExecutor`. -/
def filter (table : MetaTable) (condition : Sql.ExprNode) (child : NodeExecutor) :
    NodeExecutor where
  State := child.State
  init := child.init
  opened := child.opened
  next rounds state out := filterLoop (child.next rounds) table condition rounds state out
  outputSchema := child.outputSchema

/-- The loop of `ProjectionNodeExecutor::open`, whose assertion a column that
is not there violates. -/
def columnIndices (table : MetaTable) : List Bytes → Except Exn (List ℕ)
  | [] => .ok []
  | column :: columns =>
    match table.getColumnIdxByName column with
    | none => .error .outOfRange
    | some colIdx => do
      let indices ← columnIndices table columns
      pure (colIdx :: indices)

/-- The loop of `ProjectionNodeExecutor::next`, which adds to what the row has. -/
def pushTokens (src : DataRow) (out : DataRow) : List ℕ → Except Exn DataRow
  | [] => .ok out
  | colIdx :: indices =>
    match src.tokens[colIdx]? with
    | some token => pushTokens src { out with tokens := out.tokens ++ [token] } indices
    | none => .error .outOfRange

/-- `ProjectionNodeExecutor`: the indices of its columns, in order. -/
def projection (table : MetaTable) (columns : List Bytes) (child : NodeExecutor) :
    NodeExecutor where
  State := List ℕ × child.State
  init := ([], child.init)
  opened state := do
    let state ← child.opened state.2
    let indices ← liftExcept (columnIndices table columns)
    pure (indices.mergeSort, state)
  next rounds state out := do
    let (found, src, childState) ← child.next rounds state.2 .blank
    if found then
      let out ← liftExcept (pushTokens src out state.1)
      pure (true, out, (state.1, childState))
    else pure (false, out, (state.1, childState))
  outputSchema state := pure
    (state.1.map fun colIdx =>
      match table.columns[colIdx]? with
      | some column => (column.name, column.type)
      | none => ([], .undefined))

/-- `LimitNodeExecutor`: the number of rows it has been asked for. -/
def limit (limit : ℕ) (child : NodeExecutor) : NodeExecutor where
  State := ℕ × child.State
  init := (0, child.init)
  opened state := do
    let childState ← child.opened state.2
    pure (state.1, childState)
  next rounds state out :=
    if state.1 ≥ limit then pure (false, out, (state.1 + 1, state.2))
    else do
      let (found, out, childState) ← child.next rounds state.2 out
      pure (found, out, (state.1 + 1, childState))
  outputSchema state := child.outputSchema state.2

end NodeExecutor

/-! ## Results -/

/-- `types::MaterializedResult` and `types::StreamedResult`. -/
inductive ExecutionResult (executor : NodeExecutor) where
  | materialized (rows : List DataRow) (schema : OutputSchema) (current : ℕ)
  | streamed (state : executor.State)

namespace ExecutionResult

variable {executor : NodeExecutor}

/-- `next`. -/
def next (rounds : ℕ) : ExecutionResult executor → DataRow →
    Prog (Bool × DataRow × ExecutionResult executor)
  | materialized rows schema current, out =>
    match rows[current]? with
    | none => pure (false, out, materialized rows schema current)
    | some row => pure (true, row, materialized rows schema (current + 1))
  | streamed state, out => do
    let (found, out, state) ← executor.next rounds state out
    pure (found, out, streamed state)

/-- `output_schema`. -/
def outputSchema : ExecutionResult executor → Prog OutputSchema
  | materialized _ schema _ => pure schema
  | streamed state => executor.outputSchema state

end ExecutionResult

namespace Engine

/-- The end of `execute_query`, from the executor on. -/
def executeQuery (rounds : ℕ) (executor : NodeExecutor) (needsStream : Bool) :
    Prog (ExecutionResult executor) :=
  if needsStream then pure (.streamed executor.init)
  else do
    let state ← executor.opened executor.init
    let (rows, state) ← drain (executor.next rounds) rounds state .blank
    let schema ← executor.outputSchema state
    pure (.materialized rows schema 0)

/-- What a caller of `execute_query` gets: the rows, until `next` returns
`false`, and the schema. -/
def obtain (rounds : ℕ) (executor : NodeExecutor) (needsStream : Bool) :
    Prog (List DataRow × OutputSchema) := do
  let result ← executeQuery rounds executor needsStream
  let (rows, result) ← drain (ExecutionResult.next rounds) rounds result .blank
  let schema ← result.outputSchema
  pure (rows, schema)

/-- **The rows and the schema a caller obtains** from an executor. -/
def Obtains (db : StdDbInstance) (executor : NodeExecutor) (needsStream : Bool)
    (result : List DataRow × OutputSchema) : Prop :=
  ∃ rounds db', obtain rounds executor needsStream db = .ok result db'

end Engine
