import Deltabase.Executor.SemanticAnalyzer

/-!
# Planning a statement

`exq::StdPlanner` makes a tree of plan nodes of a statement that has been let
through. The literals that are to be stored get their values here; a condition
goes into the plan as it is.

Whether a `SELECT` scans an index is a matter of estimated costs, which are
floating-point numbers. They are compared in one place (`cheaper`), and nothing
that is said of plans depends on how that comes out.
-/

namespace Sql

/-- The nodes of a plan. -/
inductive PlanNode where
  | seqScan (tableName schemaName : Bytes)
  | indexScan (tableName schemaName : Bytes) (indexId : IndexId) (condition : ExprNode)
  | filter (table : MetaTable) (condition : ExprNode) (child : PlanNode)
  | project (table : MetaTable) (columns : List Bytes) (child : PlanNode)
  | limit (limit : ℕ) (child : PlanNode)
  | values (rows : List (List DataToken))
  | insert (tableName schemaName : Bytes) (cols : Option (List Bytes)) (child : PlanNode)
  | update (tableName schemaName : Bytes) (assignments : RowUpdate) (child : PlanNode)
  | delete (tableName schemaName : Bytes) (child : PlanNode)
  | createDb (name : Bytes)
  | createTable (tableName : Bytes) (schema : MetaSchema) (columns : List ColumnDefinition)
  | createIndex (indexName tableName schemaName columnName : Bytes) (isUnique : Option Bool)
  | dropIndex (indexName tableName schemaName : Bytes)

end Sql

/-- `exq::StdPlanner`. -/
structure StdPlanner where
  db : StdDbInstance
  /-- `default_schema` of the configuration. -/
  defaultSchema : Bytes
  /-- Whether the scan of an index is estimated to cost less than the best so far,
  which is the sequential scan or that of an index. -/
  cheaper : MetaTable → Sql.ExprNode → MetaIndex → Option MetaIndex → Bool

namespace StdPlanner

/-! ## Choosing a scan -/

/-- `is_null_literal`. -/
def isNullLiteral : Sql.ExprNode → Bool
  | .literal token => token.detail = .literal .null
  | _ => false

/-- `is_null_predicate`. -/
def isNullPredicate : Sql.ExprNode → Bool
  | .binaryExpr op left right =>
    op = .is || (op = .eq || op = .neq) && (isNullLiteral left || isNullLiteral right)
  | .prefixExpr op right => op = .is || (op = .eq || op = .neq) && isNullLiteral right
  | _ => false

/-- The name on the left side of a condition. -/
def leftColumn : Sql.ExprNode → Except Exn Bytes
  | .binaryExpr _ (.identifier column) _ => .ok column.value
  | .binaryExpr .. =>
    .error (.runtimeError "choose_scan_type: left token must be column identifier")
  | .prefixExpr .. => .error .nullDereference
  | _ => .error .badVariantAccess

/-- The loop of `choose_scan_type` over the indexes. -/
def chooseIndex (planner : StdPlanner) (table : MetaTable) (condition : Sql.ExprNode) :
    List MetaIndex → Option MetaIndex → Except Exn (Option MetaIndex)
  | [], best => .ok best
  | idx :: indexes, best => do
    let name ← leftColumn condition
    let column ← table.getColumn name
    if idx.columnId = column.id ∧ planner.cheaper table condition idx best = true then
      chooseIndex planner table condition indexes (some idx)
    else chooseIndex planner table condition indexes best

/-- `choose_scan_type`: the index to be scanned, if it is one. -/
def chooseScanType (planner : StdPlanner) (table : MetaTable) :
    Option Sql.ExprNode → Except Exn (Option MetaIndex)
  | none => .ok none
  | some condition =>
    if isNullPredicate condition then .ok none
    else planner.chooseIndex table condition table.indexes none

/-! ## Statements -/

/-- The table that a statement names, behind its pointer. -/
def derefTable (planner : StdPlanner) (table : Sql.TableIdentifier) : Except Exn MetaTable :=
  match planner.db.findNamed planner.defaultSchema table with
  | some mt => .ok mt
  | none => .error .nullDereference

/-- A `FilterPlanNode`, if there is a condition. -/
def filtered (planner : StdPlanner) (table : Sql.TableIdentifier) (where_ : Option Sql.ExprNode) :
    Except Exn Sql.PlanNode :=
  let scan := Sql.PlanNode.seqScan table.tableName.value (table.schema planner.defaultSchema)
  match where_ with
  | none => .ok scan
  | some condition => do
    let mt ← planner.derefTable table
    pure (.filter mt condition scan)

/-- The scan of a `SELECT`; `chosenIndex` is what `choose_scan_type` has chosen, an index
only for a statement with a condition. -/
def selectScan (schemaName : Bytes) (stmt : Sql.SelectStatement) (table : MetaTable)
    (chosenIndex : Option IndexId) : Sql.PlanNode :=
  match stmt.where_, chosenIndex with
  | some condition, some indexId =>
    .indexScan stmt.table.tableName.value schemaName indexId condition
  | some condition, none =>
    .filter table condition (.seqScan stmt.table.tableName.value schemaName)
  | none, _ => .seqScan stmt.table.tableName.value schemaName

/-- The nodes of the plan of a `SELECT`. -/
def selectNodes (schemaName : Bytes) (stmt : Sql.SelectStatement) (table : MetaTable)
    (chosenIndex : Option IndexId) : Sql.PlanNode :=
  let node := selectScan schemaName stmt table chosenIndex
  let node := if stmt.columns.isEmpty then node
    else .project table (stmt.columns.map SqlToken.value) node
  match stmt.limit with
  | some limit => .limit limit node
  | none => node

/-- `plan(SelectStatement)`. -/
def planSelect (planner : StdPlanner) (stmt : Sql.SelectStatement) : Except Exn Sql.PlanNode := do
  let table ← planner.derefTable stmt.table
  let chosenIndex ← planner.chooseScanType table stmt.where_
  pure (selectNodes (stmt.table.schema planner.defaultSchema) stmt table
    (chosenIndex.map MetaIndex.id))

/-- `plan(InsertStatement)`. -/
def planInsert (planner : StdPlanner) (stmt : Sql.InsertStatement) : Except Exn Sql.PlanNode := do
  let rows ← stmt.values.mapM fun vals => vals.mapM DataToken.ofSqlToken
  let cols := if stmt.columns.isEmpty then none else some (stmt.columns.map SqlToken.value)
  pure (.insert stmt.table.tableName.value (stmt.table.schema planner.defaultSchema) cols
    (.values rows))

/-- What becomes of an assignment. The analyzer has turned its left side into a
`COLUMN_IDENTIFIER`, and there is none on a right side. -/
def planAssignment (table : MetaTable) : Sql.ExprNode → Except Exn RowUpdate
  | .binaryExpr _ (.identifier column) (.literal value) => do
    let column ← table.getColumn column.value
    let dataToken ← DataToken.ofSqlToken value
    pure [.literal column.id dataToken]
  | .binaryExpr .. => pure []
  | .prefixExpr .. => throw .nullDereference
  | _ => throw .badVariantAccess

/-- `plan(UpdateStatement)`. -/
def planUpdate (planner : StdPlanner) (stmt : Sql.UpdateStatement) : Except Exn Sql.PlanNode := do
  let table ← planner.derefTable stmt.table
  let assignments ← stmt.assignments.mapM (planAssignment table)
  let root ← planner.filtered stmt.table stmt.where_
  pure (.update stmt.table.tableName.value (stmt.table.schema planner.defaultSchema)
    assignments.flatten root)

/-- `plan(DeleteStatement)`. -/
def planDelete (planner : StdPlanner) (stmt : Sql.DeleteStatement) : Except Exn Sql.PlanNode := do
  let root ← planner.filtered stmt.table stmt.where_
  pure (.delete stmt.table.tableName.value (stmt.table.schema planner.defaultSchema) root)

/-- `plan(CreateTableStatement)`. -/
def planCreateTable (planner : StdPlanner) (stmt : Sql.CreateTableStatement) :
    Except Exn Sql.PlanNode :=
  match planner.db.catalog.getSchema (stmt.table.schema planner.defaultSchema) with
  | some schema => .ok (.createTable stmt.table.tableName.value schema stmt.columns)
  | none => .error .nullDereference

/-- **`plan`**. -/
def planStatement (planner : StdPlanner) : Sql.Statement → Except Exn Sql.PlanNode
  | .select stmt => planner.planSelect stmt
  | .insert stmt => planner.planInsert stmt
  | .update stmt => planner.planUpdate stmt
  | .delete stmt => planner.planDelete stmt
  | .createDatabase name => .ok (.createDb name.value)
  | .createTable stmt => planner.planCreateTable stmt
  | .createIndex stmt => .ok (.createIndex stmt.indexName.value stmt.table.tableName.value
      (stmt.table.schema planner.defaultSchema) stmt.columnName.value stmt.isUnique)
  | .dropIndex stmt => .ok (.dropIndex stmt.indexName.value stmt.table.tableName.value
      (stmt.table.schema planner.defaultSchema))
  | .createSchema _ => .error (.runtimeError "Unsupported query in StdPlanner::plan: 12")
  | .alterTable _ => .error (.runtimeError "Unsupported query in StdPlanner::plan: 15")

end StdPlanner

/-- What an engine makes an analyzer and a planner with, apart from the database. -/
structure EngineSetup where
  defaultSchema : Bytes
  existsDb : Bytes → Bool
  cheaper : MetaTable → Sql.ExprNode → MetaIndex → Option MetaIndex → Bool

namespace EngineSetup

/-- The analyzer of an engine. -/
def analyzer (setup : EngineSetup) (db : StdDbInstance) : SemanticAnalyzer where
  db := db
  defaultSchema := setup.defaultSchema
  existsDb := setup.existsDb

/-- The planner of an engine. -/
def planner (setup : EngineSetup) (db : StdDbInstance) : StdPlanner where
  db := db
  defaultSchema := setup.defaultSchema
  cheaper := setup.cheaper

end EngineSetup

/-- **The statement that the executors of a plan carry out**, for plans that write
rows; the rows to be changed are those that the executor of the child has found. -/
def Statement.ofPlan (rows : Except Exn (List DataRow)) : Sql.PlanNode → Option Statement
  | .insert tableName schemaName cols (.values values) =>
    some (insert tableName schemaName cols values)
  | .update tableName schemaName assignments _ =>
    some (update tableName schemaName assignments rows)
  | .delete tableName schemaName _ => some (delete tableName schemaName rows)
  | _ => none
