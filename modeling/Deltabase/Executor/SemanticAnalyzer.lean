import Deltabase.Executor.NodeExecutor
import Deltabase.Types.SqlLiteral
import Deltabase.Types.SqlStatement

/-!
# The semantic analyzer

`exq::SemanticAnalyzer` compares a statement, as the parser made it, with the
catalog. Its verdict is an `AnalysisResult`; apart from that it can throw, when it
takes a node of the tree for something else than it is. A verdict is given at the
first thing that is wrong, only of the operands of `AND` and `OR` both are looked
at before either verdict counts.

The check of an assignment also turns the `IDENTIFIER` on the left side into a
`COLUMN_IDENTIFIER`, which the planner looks for. A statement is planned only when
all its assignments have been checked, so that is not kept track of.
-/

namespace MetaTable

/-- `has_column`. -/
def hasColumn (mt : MetaTable) (colName : Bytes) : Bool :=
  mt.columns.any fun column => column.name == colName

/-- The columns that are there are those that are found. -/
theorem hasColumn_iff {mt : MetaTable} {colName : Bytes} :
    mt.hasColumn colName = true ↔ ∃ column, mt.getColumn colName = .ok column := by
  unfold hasColumn getColumn
  rw [List.any_eq_true, ← List.find?_isSome]
  cases mt.columns.find? fun c => c.name == colName with
  | none => exact iff_of_false Bool.false_ne_true fun ⟨_, h⟩ => nomatch h
  | some column => exact iff_of_true rfl ⟨column, rfl⟩

end MetaTable

/-- The schema of a table that is named in a statement. -/
def Sql.TableIdentifier.schema (table : Sql.TableIdentifier) (defaultSchema : Bytes) : Bytes :=
  (table.schemaName.map SqlToken.value).getD defaultSchema

/-- `get_table(identifier)`. -/
def StdDbInstance.findNamed (db : StdDbInstance) (defaultSchema : Bytes)
    (table : Sql.TableIdentifier) : Option MetaTable :=
  db.findTable table.tableName.value (table.schema defaultSchema)

/-- `types::AnalysisResult`; of the error there is the text. -/
structure AnalysisResult where
  isValid : Bool
  err : Option Bytes
  isSystemQuery : Option Bool
  deriving DecidableEq

namespace AnalysisResult

/-- `AnalysisResult(true)`. -/
def valid : AnalysisResult := { isValid := true, err := none, isSystemQuery := some false }

/-- `AnalysisResult(err)`. -/
def invalid (what : Bytes) : AnalysisResult :=
  { isValid := false, err := some what, isSystemQuery := none }

@[simp] theorem isValid_valid : valid.isValid = true := rfl

@[simp] theorem isValid_invalid (what : Bytes) : (invalid what).isValid = false := rfl

end AnalysisResult

/-- The underlying integer of a kind of literal. -/
def SqlLiteral.toNat : SqlLiteral → ℕ
  | .integer => 1
  | .string => 2
  | .bool => 3
  | .char => 4
  | .real => 5
  | .null => 6
  | .count => 7

/-- The operators that compare a column with a value. -/
def AstOperator.isComparison : AstOperator → Bool
  | .eq | .neq | .gr | .lt | .gre | .lte | .is => true
  | _ => false

/-- `exq::SemanticAnalyzer`. -/
structure SemanticAnalyzer where
  db : StdDbInstance
  /-- `default_schema` of the configuration. -/
  defaultSchema : Bytes
  /-- `GenericQueryValidator::exists_db`, which looks for a directory. -/
  existsDb : Bytes → Bool

namespace SemanticAnalyzer

open AnalysisResult StdDbInstance

/-! ## Errors -/

/-- The text of `TableDoesntExist`. -/
def tableDoesntExist (tableName : Bytes) : Bytes :=
  text "Table '" ++ tableName ++ text "' doesnt exist"

/-- The text of `TableExists`. -/
def tableExists (tableName : Bytes) : Bytes :=
  text "Table '" ++ tableName ++ text "' already exists"

/-- The text of `ColumnDoesntExists`. -/
def columnDoesntExists (colName : Bytes) : Bytes :=
  text "Column '" ++ colName ++ text "' doesn't exists"

/-- The text of `IndexDoesntExist`. -/
def indexDoesntExist (indexName tableName : Bytes) : Bytes :=
  text "Index '" ++ indexName ++ text "' does not exist on table " ++ tableName

/-- The text of `DbExists`. -/
def dbExists (dbName : Bytes) : Bytes := text "Database '" ++ dbName ++ text "' already exists"

/-- The text about a literal that cannot be converted to the type of its column. -/
def incompatibleTypes (literal : SqlLiteral) (type : DataType) : Bytes :=
  text ("Incompatible types conversion: " ++ toString literal.toNat ++ " to " ++
    toString type.toNat)

/-! ## Types -/

/-- `compat_table`: the types whose literals a column of a type accepts. -/
def compatTable : DataType → List DataType
  | .integer => [.integer]
  | .real => [.real, .integer]
  | .string => [.string, .char]
  | .char => [.char]
  | .bool => [.bool]
  | .null => [.null, .integer, .real, .string, .char, .bool]
  | _ => []

/-- `is_compatible`. -/
def isCompatible (literal : SqlLiteral) (type : DataType) : Bool :=
  literal == .null || (compatTable type).contains literal.dataType

/-! ## Loops -/

/-- The verdict on the first that is not valid. -/
def firstInvalid {α : Type} (check : α → Except Exn AnalysisResult) :
    List α → Except Exn AnalysisResult
  | [] => .ok valid
  | a :: as => do
    let analysis ← check a
    if analysis.isValid then firstInvalid check as else pure analysis

/-- The table that a statement names. -/
def getTable (analyzer : SemanticAnalyzer) (table : Sql.TableIdentifier) : Option MetaTable :=
  analyzer.db.findNamed analyzer.defaultSchema table

/-- The check of the names of columns. -/
def analyzeColumns (table : MetaTable) : List SqlToken → Except Exn AnalysisResult :=
  firstInvalid fun col =>
    .ok (if table.hasColumn col.value then valid else invalid (columnDoesntExists col.value))

/-! ## Conditions -/

/-- What `analyze_column_comparison` does once it has told the column from the
value. -/
def analyzeComparison (op : AstOperator) (table : MetaTable) (column value : SqlToken) :
    Except Exn AnalysisResult :=
  match value.detail with
  | .literal literal =>
    if op = .is ∧ literal ≠ .null then
      .ok (invalid (text "IS operator can only be used with NULL"))
    else if !table.hasColumn column.value then .ok (invalid (columnDoesntExists column.value))
    else do
      let column ← table.getColumn column.value
      if isCompatible literal column.type then pure valid
      else pure (invalid (text "Incompatible types conversion"))
  | _ => .error .badVariantAccess

/-- `analyze_column_comparison`. -/
def analyzeColumnComparison (op : AstOperator) (table : MetaTable) :
    Sql.ExprNode → Sql.ExprNode → Except Exn AnalysisResult
  | .identifier column, .literal value => analyzeComparison op table column value
  | .literal value, .identifier column => analyzeComparison op table column value
  | _, _ => .ok (invalid
      (text "Invalid WHERE expression: comparison must be between column and literal"))

/-- **`analyze_where`**, with the `std::get<BinaryExpr>` of its callers. -/
def analyzeWhere (table : MetaTable) : Sql.ExprNode → Except Exn AnalysisResult
  | .binaryExpr op left right =>
    if op = .assign then .ok (invalid (text "Invalid condition operator"))
    else if op.isComparison then analyzeColumnComparison op table left right
    else if op = .and ∨ op = .or then do
      let where₁ ← analyzeWhere table left
      let where₂ ← analyzeWhere table right
      if !where₁.isValid then pure where₁
      else if !where₂.isValid then pure where₂
      else pure valid
    else if op = .not then analyzeWhere table left
    else .ok valid
  | .prefixExpr op _ =>
    if op = .assign then .ok (invalid (text "Invalid condition operator"))
    else if op.isComparison then .ok (invalid (text "Incomplete comparison expression"))
    else if op = .and ∨ op = .or ∨ op = .not then .error .nullDereference
    else .ok valid
  | _ => .error .badVariantAccess

/-- A `WHERE`, if there is one. -/
def analyzeCondition (table : MetaTable) : Option Sql.ExprNode → Except Exn AnalysisResult
  | some where_ => analyzeWhere table where_
  | none => .ok valid

/-! ## Values -/

/-- The value at a position of a row of an `INSERT`. A column that is not there has
been found before. -/
def analyzeValue (table : MetaTable) (columns : List SqlToken) (value : SqlToken × ℕ) :
    Except Exn AnalysisResult :=
  match value.1.detail with
  | .literal literal =>
    match columns[value.2]? with
    | none => .error .outOfRange
    | some name =>
      if !table.hasColumn name.value then .ok valid
      else do
        let column ← table.getColumn name.value
        if isCompatible literal column.type then pure valid
        else pure (invalid (incompatibleTypes literal column.type))
  | _ => .ok (invalid (text "Invalid literal token type"))

/-- The loops of `analyze_insert` over the values. -/
def analyzeValues (table : MetaTable) (columns : List SqlToken) :
    List (List SqlToken) → Except Exn AnalysisResult :=
  firstInvalid fun values => firstInvalid (analyzeValue table columns) values.zipIdx

/-- `analyze_column_assignment`. -/
def analyzeColumnAssignment (table : MetaTable) : Sql.ExprNode → Except Exn AnalysisResult
  | .binaryExpr op left right =>
    if op ≠ .assign then .ok (invalid (text "Invalid assignment: expected '='"))
    else match left, right with
      | .identifier column, .literal value =>
        if !table.hasColumn column.value then .ok (invalid (columnDoesntExists column.value))
        else do
          let column ← table.getColumn column.value
          match value.detail with
          | .literal literal =>
            if isCompatible literal column.type then pure valid
            else pure (invalid (text "Incompatible types conversion in assignment"))
          | _ => throw .badVariantAccess
      | _, _ => .ok (invalid
          (text "Invalid assignment: you can assign only literal to a identifier"))
  | .prefixExpr op _ =>
    if op ≠ .assign then .ok (invalid (text "Invalid assignment: expected '='"))
    else .error .nullDereference
  | _ => .error .badVariantAccess

/-! ## Statements -/

/-- `analyze_select`. -/
def analyzeSelect (analyzer : SemanticAnalyzer) (stmt : Sql.SelectStatement) :
    Except Exn AnalysisResult :=
  if stmt.table.tableName.value.isEmpty then
    .ok (invalid (text "Select statement missing target table"))
  else match analyzer.getTable stmt.table with
    | none => .ok (invalid (tableDoesntExist stmt.table.tableName.value))
    | some table => do
      let columns ← analyzeColumns table stmt.columns
      if !columns.isValid then pure columns
      else analyzeCondition table stmt.where_

/-- `analyze_insert`. -/
def analyzeInsert (analyzer : SemanticAnalyzer) (stmt : Sql.InsertStatement) :
    Except Exn AnalysisResult :=
  if stmt.table.tableName.value.isEmpty then
    .ok (invalid (text "Insert statement missing target table"))
  else match analyzer.getTable stmt.table with
    | none => .ok (invalid (tableDoesntExist stmt.table.tableName.value))
    | some table => do
      let columns ← analyzeColumns table stmt.columns
      if !columns.isValid then pure columns
      else analyzeValues table stmt.columns stmt.values

/-- `analyze_update`. -/
def analyzeUpdate (analyzer : SemanticAnalyzer) (stmt : Sql.UpdateStatement) :
    Except Exn AnalysisResult :=
  if stmt.table.tableName.value.isEmpty then
    .ok (invalid (text "Update statement missing target table"))
  else if stmt.assignments.isEmpty then
    .ok (invalid (text "Update statement missing assignments"))
  else match analyzer.getTable stmt.table with
    | none => .ok (invalid (tableDoesntExist stmt.table.tableName.value))
    | some table => do
      let assignments ← firstInvalid (analyzeColumnAssignment table) stmt.assignments
      if !assignments.isValid then pure assignments
      else analyzeCondition table stmt.where_

/-- `analyze_delete`. -/
def analyzeDelete (analyzer : SemanticAnalyzer) (stmt : Sql.DeleteStatement) :
    Except Exn AnalysisResult :=
  if stmt.table.tableName.value.isEmpty then
    .ok (invalid (text "Delete statement missing target table"))
  else match analyzer.getTable stmt.table with
    | none => .ok (invalid (tableDoesntExist stmt.table.tableName.value))
    | some table => analyzeCondition table stmt.where_

/-- `analyze_create_table`. -/
def analyzeCreateTable (analyzer : SemanticAnalyzer) (stmt : Sql.CreateTableStatement) :
    AnalysisResult :=
  if (analyzer.getTable stmt.table).isSome then invalid (tableExists stmt.table.tableName.value)
  else valid

/-- `analyze_create_index`. -/
def analyzeCreateIndex (analyzer : SemanticAnalyzer) (stmt : Sql.CreateIndexStatement) :
    AnalysisResult :=
  match analyzer.getTable stmt.table with
  | none => invalid (tableDoesntExist stmt.table.tableName.value)
  | some table =>
    if table.indexes.any fun index => index.name = stmt.indexName.value then
      invalid (text "Index already exists")
    else if !table.hasColumn stmt.columnName.value then invalid (text "Column doesn't exists")
    else valid

/-- `analyze_drop_index`. -/
def analyzeDropIndex (analyzer : SemanticAnalyzer) (stmt : Sql.DropIndexStatement) :
    AnalysisResult :=
  match analyzer.getTable stmt.table with
  | none => invalid (tableDoesntExist stmt.table.tableName.value)
  | some table =>
    if table.indexes.any fun index => index.name = stmt.indexName.value then valid
    else invalid (indexDoesntExist stmt.indexName.value stmt.table.tableName.value)

/-- `analyze_create_db`. -/
def analyzeCreateDb (analyzer : SemanticAnalyzer) (name : SqlToken) : AnalysisResult :=
  if analyzer.existsDb name.value then
    { isValid := false, err := some (dbExists name.value), isSystemQuery := some true }
  else { isValid := true, err := none, isSystemQuery := some true }

/-- **`analyze`**. -/
def analyze (analyzer : SemanticAnalyzer) : Sql.Statement → Except Exn AnalysisResult
  | .select stmt => analyzer.analyzeSelect stmt
  | .insert stmt => analyzer.analyzeInsert stmt
  | .update stmt => analyzer.analyzeUpdate stmt
  | .delete stmt => analyzer.analyzeDelete stmt
  | .createDatabase name => .ok (analyzer.analyzeCreateDb name)
  | .createTable stmt => .ok (analyzer.analyzeCreateTable stmt)
  | .createIndex stmt => .ok (analyzer.analyzeCreateIndex stmt)
  | .dropIndex stmt => .ok (analyzer.analyzeDropIndex stmt)
  | _ => .error (.runtimeError
      "SemanticAnalyzer::analyze: Unsupported AST node type for semantic analysis")

/-! ## Verdicts -/

/-- A check passes: it comes to a verdict, and that is valid. -/
def Passes (check : Except Exn AnalysisResult) : Prop :=
  ∃ analysis, check = .ok analysis ∧ analysis.isValid = true

@[simp] theorem passes_ok {analysis : AnalysisResult} :
    Passes (.ok analysis) ↔ analysis.isValid = true :=
  ⟨fun ⟨_, h, hvalid⟩ => Except.ok.inj h ▸ hvalid, fun h => ⟨analysis, rfl, h⟩⟩

@[simp] theorem not_passes_error (e : Exn) : ¬ Passes (.error e) := fun ⟨_, h, _⟩ => nomatch h

theorem passes_bind {α : Type} {x : Except Exn α} {f : α → Except Exn AnalysisResult} :
    Passes (x >>= f) ↔ ∃ a, x = .ok a ∧ Passes (f a) := by
  unfold Passes
  simp only [bind_eq_ok]
  exact ⟨fun ⟨analysis, ⟨a, ha, hf⟩, hvalid⟩ => ⟨a, ha, analysis, hf, hvalid⟩,
    fun ⟨a, ha, analysis, hf, hvalid⟩ => ⟨analysis, ⟨a, ha, hf⟩, hvalid⟩⟩

/-- A check that is followed by another. -/
theorem passes_then {check next : Except Exn AnalysisResult} :
    Passes (check >>= fun analysis => if !analysis.isValid then pure analysis else next)
      ↔ Passes check ∧ Passes next := by
  rw [passes_bind]
  constructor
  · rintro ⟨analysis, rfl, h⟩
    cases hvalid : analysis.isValid with
    | false =>
      rw [hvalid] at h
      exact absurd (passes_ok.mp h) (by rw [hvalid]; exact Bool.false_ne_true)
    | true =>
      rw [hvalid] at h
      exact ⟨⟨analysis, rfl, hvalid⟩, h⟩
  · rintro ⟨⟨analysis, rfl, hvalid⟩, h⟩
    refine ⟨analysis, rfl, ?_⟩
    rw [hvalid]
    exact h

/-- **A loop passes** when every round does. -/
theorem passes_firstInvalid {α : Type} {check : α → Except Exn AnalysisResult} {l : List α} :
    Passes (firstInvalid check l) ↔ ∀ a ∈ l, Passes (check a) := by
  induction l with
  | nil => exact iff_of_true (passes_ok.mpr rfl) fun a ha => absurd ha List.not_mem_nil
  | cons a l ih =>
    have hthen : firstInvalid check (a :: l) = (check a >>= fun analysis =>
        if !analysis.isValid then pure analysis else firstInvalid check l) := by
      rw [firstInvalid]
      refine congrArg _ (funext fun analysis => ?_)
      cases analysis.isValid <;> rfl
    rw [hthen, passes_then, ih, List.forall_mem_cons]

/-- A statement is let through. -/
def Accepts (analyzer : SemanticAnalyzer) (stmt : Sql.Statement) : Prop :=
  Passes (analyzer.analyze stmt)

end SemanticAnalyzer
