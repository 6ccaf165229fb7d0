import Deltabase.Executor.AnalyzerSoundness
import Deltabase.Recovery.TypedTables

/-!
# Statements that complete

The planner looks for a column on the left of a condition as soon as the table
has an index. The evaluator only knows a single comparison, of a column on the
left with a value. So not every condition that the analyzer accepts can be planned
and evaluated: a statement completes when its condition is refused, or is such a
comparison with a literal that has a value, or there is nothing to evaluate it on
(`completes_iff`).
-/

/-! ## What an accepted condition needs -/

/-- **A comparison that can be carried out** on a row: the column is on the left, the
literal has a value and the row has one at the position of the column. -/
def Sql.ExprNode.Evaluates (mt : MetaTable) (row : DataRow) (e : Sql.ExprNode) : Prop :=
  ∃ op column value literal token,
    e = .binaryExpr op (.identifier column) (.literal value)
    ∧ DataToken.ofSqlToken value = .ok literal
    ∧ Evaluator.columnToken mt row column.value = .ok token

namespace MetaTable

variable {mt : MetaTable} {op : AstOperator} {left right : Sql.ExprNode}

/-- A condition that fits is an expression with an operator. -/
theorem FitsWhere.isBinaryExpr {e : Sql.ExprNode} (h : mt.FitsWhere e) :
    e.isBinaryExpr = true := by
  cases e with
  | binaryExpr => rfl
  | _ => exact h.elim

/-- A condition that fits has an expression with an operator on its left, or it is
a comparison. -/
theorem FitsWhere.cases (h : mt.FitsWhere (.binaryExpr op left right)) :
    left.isBinaryExpr = true ∨ mt.FitsComparison op left right := by
  rw [FitsWhere] at h
  split_ifs at h
  · exact .inl h.1.isBinaryExpr
  · exact .inl h.isBinaryExpr
  · exact .inr h.2

end MetaTable

namespace Evaluator

open MetaTable

/-- **What the evaluator needs** of a condition that has been accepted. -/
theorem exists_evaluate_iff {mt : MetaTable} {row : DataRow} {e : Sql.ExprNode}
    (hparsed : e.Parsed) (hfits : mt.FitsWhere e) :
    (∃ verdict, evaluate mt row e = .ok verdict) ↔ e.Evaluates mt row := by
  constructor
  · rintro ⟨verdict, heval⟩
    cases hparsed with
    | identifier | literal | negation => exact hfits.elim
    | @binaryExpr op left right _ hleft hright =>
      rcases hfits.cases with hnested | hcomparison
      · exact absurd heval (evaluate_ne_ok (.inl hnested) verdict)
      · cases hleft with
        | binaryExpr | negation => exact hcomparison.elim
        | identifier hcolumn =>
          cases hright with
          | literal hvalue =>
            rw [evaluate_comparison hcolumn hvalue] at heval
            obtain ⟨token, htoken, heval⟩ := bind_eq_ok.mp heval
            obtain ⟨literal, hliteral, -⟩ := bind_eq_ok.mp heval
            exact ⟨op, _, _, literal, token, rfl, hliteral, htoken⟩
          | _ => exact hcomparison.elim
        | literal hvalue =>
          cases hright with
          | identifier hcolumn =>
            exact absurd heval (evaluate_swapped_ne_ok hcolumn hvalue verdict)
          | _ => exact hcomparison.elim
  · rintro ⟨op, column, value, literal, token, rfl, hliteral, htoken⟩
    cases hparsed with
    | binaryExpr _ hleft hright =>
      cases hleft with
      | identifier hcolumn =>
        cases hright with
        | literal hvalue =>
          rw [evaluate_comparison hcolumn hvalue, htoken, hliteral]
          exact ⟨_, rfl⟩

end Evaluator

namespace StdPlanner

open MetaTable

variable {planner : StdPlanner} {mt : MetaTable}

/-- The planner looks for a column on the left when there is an index to choose. -/
def Scannable (mt : MetaTable) (e : Sql.ExprNode) : Prop :=
  isNullPredicate e = true ∨ mt.indexes = [] ∨
    ∃ op column right, e = .binaryExpr op (.identifier column) right

/-- A column is found for every index. -/
theorem exists_chooseIndex {e : Sql.ExprNode} {name : Bytes} {column : MetaColumn}
    (hleft : leftColumn e = .ok name) (hcolumn : mt.getColumn name = .ok column)
    (indexes : List MetaIndex) (best : Option MetaIndex) :
    ∃ chosen, planner.chooseIndex mt e indexes best = .ok chosen := by
  induction indexes generalizing best with
  | nil => exact ⟨best, rfl⟩
  | cons idx indexes ih =>
    have hround : planner.chooseIndex mt e (idx :: indexes) best
        = if idx.columnId = column.id ∧ planner.cheaper mt e idx best = true then
            planner.chooseIndex mt e indexes (some idx)
          else planner.chooseIndex mt e indexes best := by
      rw [chooseIndex, hleft]
      show (mt.getColumn name >>= _) = _
      rw [hcolumn]
      rfl
    rw [hround]
    split_ifs
    · exact ih (some idx)
    · exact ih best

/-- **What the planner needs** of a condition that has been accepted. -/
theorem exists_chooseScanType_iff {e : Sql.ExprNode} (hfits : mt.FitsWhere e) :
    (∃ chosen, planner.chooseScanType mt (some e) = .ok chosen) ↔ Scannable mt e := by
  rw [chooseScanType]
  constructor
  · rintro ⟨chosen, h⟩
    split_ifs at h with hnull
    · exact .inl hnull
    · cases hindexes : mt.indexes with
      | nil => exact .inr (.inl hindexes)
      | cons idx indexes =>
        rw [hindexes, chooseIndex] at h
        obtain ⟨name, hname, -⟩ := bind_eq_ok.mp h
        cases e with
        | binaryExpr op left right =>
          cases left with
          | identifier column => exact .inr (.inr ⟨op, column, right, rfl⟩)
          | _ => cases hname
        | _ => exact hfits.elim
  · intro h
    split_ifs with hnull
    · exact ⟨none, rfl⟩
    · rcases h with h | h | ⟨op, column, right, rfl⟩
      · exact absurd h hnull
      · rw [h]
        exact ⟨none, rfl⟩
      · rcases hfits.cases with hnested | hcomparison
        · cases hnested
        · cases right with
          | literal value =>
            obtain ⟨_, c, -, -, hget, -⟩ := hcomparison
            exact exists_chooseIndex rfl hget mt.indexes none
          | _ => exact hcomparison.elim

end StdPlanner

/-! ## Statements that complete -/

namespace Sql

/-- The table that the condition of a statement is about. -/
def Statement.target : Statement → Option TableIdentifier
  | .select stmt => some stmt.table
  | .update stmt => some stmt.table
  | .delete stmt => some stmt.table
  | _ => none

/-- The statements that select, update or delete rows or create a table. -/
inductive Statement.Examined : Statement → Prop
  | select (stmt : SelectStatement) : Examined (.select stmt)
  | update (stmt : UpdateStatement) : Examined (.update stmt)
  | delete (stmt : DeleteStatement) : Examined (.delete stmt)
  | createTable (stmt : CreateTableStatement) : Examined (.createTable stmt)

/-- The literals that are assigned have values. -/
def UpdateStatement.Converts (stmt : UpdateStatement) : Prop :=
  ∀ op column value, .binaryExpr op (.identifier column) (.literal value) ∈ stmt.assignments →
    ∃ token, DataToken.ofSqlToken value = .ok token

/-- **A condition that runs on some rows** of a table: the analyzer can walk it, and
when it fits the table it can be evaluated on each row. -/
structure ExprNode.RunsOn (mt : MetaTable) (rows : List DataRow) (e : ExprNode) : Prop where
  isCondition : e.isCondition = true
  evaluates : mt.FitsWhere e → ∀ row ∈ rows, e.Evaluates mt row

end Sql

namespace EngineSetup

open StdDbInstance SemanticAnalyzer StdPlanner

/-- **A statement completes**: the analyzer comes to a verdict, and when that is
valid, the statement is planned and its condition has a value on every row of the
table. -/
structure Completes (setup : EngineSetup) (db : StdDbInstance) (stmt : Sql.Statement) : Prop where
  analyzes : ∃ analysis, (setup.analyzer db).analyze stmt = .ok analysis
  plans : (setup.analyzer db).Accepts stmt →
    ∃ plan, (setup.planner db).planStatement stmt = .ok plan
  evaluates : (setup.analyzer db).Accepts stmt → ∀ table mt e, stmt.target = some table →
    (setup.analyzer db).getTable table = some mt → stmt.condition = some e →
    ∀ row ∈ live (db.tableRows mt.id), ∃ verdict, Evaluator.evaluate mt row e = .ok verdict

/-- **What the three need**: a condition that the analyzer gets to can be walked and,
when it fits the table, be planned and evaluated on the rows that there are; then
the literals that are assigned have values; and there is a schema for a new table. -/
def Agrees (setup : EngineSetup) (db : StdDbInstance) : Sql.Statement → Prop
  | .select stmt => ∀ mt, (setup.analyzer db).Reaches mt (.select stmt) →
    ∀ e, stmt.where_ = some e →
      e.RunsOn mt (live (db.tableRows mt.id)) ∧ (mt.FitsWhere e → Scannable mt e)
  | .update stmt => ∀ mt, (setup.analyzer db).Reaches mt (.update stmt) →
    (∀ e, stmt.where_ = some e → e.RunsOn mt (live (db.tableRows mt.id)))
      ∧ ((∀ e, stmt.where_ = some e → mt.FitsWhere e) → stmt.Converts)
  | .delete stmt => ∀ mt, (setup.analyzer db).Reaches mt (.delete stmt) →
    ∀ e, stmt.where_ = some e → e.RunsOn mt (live (db.tableRows mt.id))
  | .createTable stmt =>
    (db.catalog.getSchema (stmt.table.schema setup.defaultSchema)).isSome = true
  | _ => True

variable {setup : EngineSetup} {db : StdDbInstance} {stmt : Sql.Statement} {mt : MetaTable}

/-- The table whose columns a condition is compared with. -/
theorem reaches_target (h : (setup.analyzer db).Reaches mt stmt) :
    ∃ table, stmt.target = some table ∧ (setup.analyzer db).getTable table = some mt := by
  cases stmt with
  | select stmt => exact ⟨stmt.table, rfl, h.2.1⟩
  | update stmt => exact ⟨stmt.table, rfl, h.2.2.1⟩
  | delete stmt => exact ⟨stmt.table, rfl, h.2⟩
  | _ => exact h.elim

theorem reaches_unique {mt' : MetaTable} (h : (setup.analyzer db).Reaches mt stmt)
    (h' : (setup.analyzer db).Reaches mt' stmt) : mt' = mt := by
  obtain ⟨table, htarget, htable⟩ := reaches_target h
  obtain ⟨table', htarget', htable'⟩ := reaches_target h'
  obtain rfl := Option.some.inj (htarget.symm.trans htarget')
  exact Option.some.inj (htable'.symm.trans htable)

/-- A statement without a condition passes, one with a condition when that fits. -/
theorem passes_analyzeCondition {where_ : Option Sql.ExprNode}
    (hparsed : ∀ e, where_ = some e → e.Parsed) :
    Passes (analyzeCondition mt where_) ↔ ∀ e, where_ = some e → mt.FitsWhere e := by
  cases where_ with
  | none => exact iff_of_true (passes_ok.mpr rfl) fun _ h => nomatch h
  | some e =>
    show Passes (analyzeWhere mt e) ↔ _
    rw [(analyzeWhere_spec (hparsed e rfl)).passes]
    exact ⟨fun h _ he => Option.some.inj he ▸ h, fun h => h e rfl⟩

/-- A verdict is reached when there is no condition or it can be walked. -/
theorem exists_analyzeCondition {where_ : Option Sql.ExprNode}
    (hparsed : ∀ e, where_ = some e → e.Parsed) :
    (∃ analysis, analyzeCondition mt where_ = .ok analysis)
      ↔ ∀ e, where_ = some e → e.isCondition = true := by
  cases where_ with
  | none => exact iff_of_true ⟨_, rfl⟩ fun _ h => nomatch h
  | some e =>
    have hspec := @analyzeWhere_spec mt e (hparsed e rfl)
    constructor
    · rintro ⟨analysis, h⟩ e' he
      obtain rfl := Option.some.inj he
      exact hspec.walks analysis h
    · exact fun h => (hspec.judges (h e rfl)).exists_ok

/-- **A statement with a condition completes** when its condition runs on the rows,
and it is planned if the condition fits. -/
theorem completes_of_analysis (hanalysis : Analysis (setup.analyzer db) stmt)
    (hparsed : ∀ e, stmt.condition = some e → e.Parsed) :
    Completes setup db stmt ↔ ∀ mt, (setup.analyzer db).Reaches mt stmt →
      (∀ e, stmt.condition = some e → e.RunsOn mt (live (db.tableRows mt.id)))
        ∧ ((∀ e, stmt.condition = some e → mt.FitsWhere e) →
          ∃ plan, (setup.planner db).planStatement stmt = .ok plan) := by
  cases hanalysis with
  | refused hreaches hanalyze =>
    have hnot : ¬ (setup.analyzer db).Accepts stmt := by
      rintro ⟨analysis, hok, hvalid⟩
      rw [hanalyze] at hok
      obtain rfl := Except.ok.inj hok
      cases hvalid
    exact iff_of_true ⟨⟨_, hanalyze⟩, fun h => absurd h hnot, fun h => absurd h hnot⟩
      fun mt h => absurd h (hreaches mt)
  | @condition mt hreaches hanalyze =>
    have haccepts : (setup.analyzer db).Accepts stmt
        ↔ ∀ e, stmt.condition = some e → mt.FitsWhere e := by
      unfold Accepts
      rw [hanalyze, passes_analyzeCondition hparsed]
    obtain ⟨table, htarget, htable⟩ := reaches_target hreaches
    constructor
    · intro h mt' hreaches'
      obtain rfl := reaches_unique hreaches hreaches'
      have hverdict := h.analyzes
      rw [hanalyze] at hverdict
      have hwalks := (exists_analyzeCondition hparsed).mp hverdict
      refine ⟨fun e he => ⟨hwalks e he, fun hfits row hrow => ?_⟩,
        fun hfits => h.plans (haccepts.mpr hfits)⟩
      have haccepted := haccepts.mpr fun e' he' => Option.some.inj (he.symm.trans he') ▸ hfits
      exact (Evaluator.exists_evaluate_iff (hparsed e he) hfits).mp
        (h.evaluates haccepted table _ e htarget htable he row hrow)
    · intro h
      obtain ⟨hruns, hplan⟩ := h mt hreaches
      refine ⟨?_, fun haccepted => hplan (haccepts.mp haccepted),
        fun haccepted table' mt' e htarget' htable' he row hrow => ?_⟩
      · rw [hanalyze]
        exact (exists_analyzeCondition hparsed).mpr fun e he => (hruns e he).isCondition
      · obtain rfl := Option.some.inj (htarget.symm.trans htarget')
        obtain rfl := Option.some.inj (htable.symm.trans htable')
        have hfits := haccepts.mp haccepted e he
        exact (Evaluator.exists_evaluate_iff (hparsed e he) hfits).mpr
          ((hruns e he).evaluates hfits row hrow)

/-! ## Plans -/

/-- The planner finds the table that the analyzer has found. -/
theorem derefTable_of_getTable {table : Sql.TableIdentifier}
    (h : (setup.analyzer db).getTable table = some mt) :
    (setup.planner db).derefTable table = .ok mt := by
  unfold derefTable
  rw [show (setup.planner db).db.findNamed (setup.planner db).defaultSchema table = some mt from h]

theorem exists_filtered {table : Sql.TableIdentifier}
    (h : (setup.analyzer db).getTable table = some mt) (where_ : Option Sql.ExprNode) :
    ∃ node, (setup.planner db).filtered table where_ = .ok node := by
  cases where_ with
  | none => exact ⟨_, rfl⟩
  | some e =>
    unfold filtered
    rw [derefTable_of_getTable h]
    exact ⟨_, rfl⟩

/-- **A `SELECT` is planned** when a scan can be chosen. -/
theorem exists_planSelect_iff {stmt : Sql.SelectStatement}
    (htable : (setup.analyzer db).getTable stmt.table = some mt)
    (hfits : ∀ e, stmt.where_ = some e → mt.FitsWhere e) :
    (∃ plan, (setup.planner db).planSelect stmt = .ok plan)
      ↔ ∀ e, stmt.where_ = some e → Scannable mt e := by
  have hderef := derefTable_of_getTable htable
  have hscan : (∃ plan, (setup.planner db).planSelect stmt = .ok plan)
      ↔ ∃ chosen, (setup.planner db).chooseScanType mt stmt.where_ = .ok chosen := by
    unfold planSelect
    rw [hderef]
    constructor
    · rintro ⟨plan, h⟩
      obtain ⟨_, hmt, h⟩ := bind_eq_ok.mp h
      obtain rfl := Except.ok.inj hmt
      obtain ⟨chosen, hchosen, -⟩ := bind_eq_ok.mp h
      exact ⟨chosen, hchosen⟩
    · rintro ⟨chosen, hchosen⟩
      show ∃ plan, ((setup.planner db).chooseScanType mt stmt.where_ >>= _) = Except.ok plan
      rw [hchosen]
      exact ⟨_, rfl⟩
  rw [hscan]
  cases hwhere : stmt.where_ with
  | none => exact iff_of_true ⟨none, rfl⟩ fun _ h => by cases h
  | some e =>
    rw [exists_chooseScanType_iff (hfits e hwhere)]
    exact ⟨fun h _ he => Option.some.inj he ▸ h, fun h => h e rfl⟩

/-- **An `UPDATE` is planned** when the literals that it assigns have values. -/
theorem exists_planUpdate_iff {stmt : Sql.UpdateStatement}
    (htable : (setup.analyzer db).getTable stmt.table = some mt)
    (hfits : ∀ e ∈ stmt.assignments, mt.FitsAssignment e) :
    (∃ plan, (setup.planner db).planUpdate stmt = .ok plan) ↔ stmt.Converts := by
  have hassignment : ∀ e ∈ stmt.assignments, (∃ part, planAssignment mt e = .ok part)
      ↔ ∀ op column value, e = .binaryExpr op (.identifier column) (.literal value) →
        ∃ token, DataToken.ofSqlToken value = .ok token := by
    intro e he
    obtain ⟨column, value, _, c, rfl, -, hget, -⟩ := hfits e he
    constructor
    · rintro ⟨part, hpart⟩ op' column' value' heq
      cases heq
      obtain ⟨_, -, hpart⟩ := bind_eq_ok.mp hpart
      obtain ⟨token, htoken, -⟩ := bind_eq_ok.mp hpart
      exact ⟨token, htoken⟩
    · intro h
      obtain ⟨token, htoken⟩ := h _ column value rfl
      rw [planAssignment, hget, htoken]
      exact ⟨_, rfl⟩
  have hmap : (∃ plan, (setup.planner db).planUpdate stmt = .ok plan)
      ↔ ∃ assignments, stmt.assignments.mapM (planAssignment mt) = .ok assignments := by
    unfold planUpdate
    rw [derefTable_of_getTable htable]
    constructor
    · rintro ⟨plan, h⟩
      obtain ⟨_, hmt, h⟩ := bind_eq_ok.mp h
      obtain rfl := Except.ok.inj hmt
      obtain ⟨assignments, hassignments, -⟩ := bind_eq_ok.mp h
      exact ⟨assignments, hassignments⟩
    · rintro ⟨assignments, hassignments⟩
      obtain ⟨root, hroot⟩ := exists_filtered htable stmt.where_
      show ∃ plan, (stmt.assignments.mapM (planAssignment mt) >>= _) = Except.ok plan
      rw [hassignments]
      show ∃ plan, ((setup.planner db).filtered stmt.table stmt.where_ >>= _) = Except.ok plan
      rw [hroot]
      exact ⟨_, rfl⟩
  rw [hmap, exists_mapM_eq_ok_iff, forall₂_congr hassignment]
  exact ⟨fun h op column value he => h _ he op column value rfl,
    fun h e he op column value heq => h op column value (heq ▸ he)⟩

theorem exists_planDelete {stmt : Sql.DeleteStatement}
    (htable : (setup.analyzer db).getTable stmt.table = some mt) :
    ∃ plan, (setup.planner db).planDelete stmt = .ok plan := by
  obtain ⟨root, hroot⟩ := exists_filtered htable stmt.where_
  unfold planDelete
  rw [hroot]
  exact ⟨_, rfl⟩

/-- A `CREATE TABLE` is planned when there is a schema for it. -/
theorem exists_planCreateTable_iff (planner : StdPlanner) (stmt : Sql.CreateTableStatement) :
    (∃ plan, planner.planCreateTable stmt = .ok plan)
      ↔ (planner.db.catalog.getSchema (stmt.table.schema planner.defaultSchema)).isSome = true := by
  unfold planCreateTable
  cases planner.db.catalog.getSchema (stmt.table.schema planner.defaultSchema) with
  | none => simp
  | some schema => simp

/-- A table is created when there is a schema for it. -/
theorem completes_createTable_iff {stmt : Sql.CreateTableStatement} :
    Completes setup db (.createTable stmt) ↔ Agrees setup db (.createTable stmt) := by
  have hplan : (∃ plan, (setup.planner db).planStatement (.createTable stmt) = .ok plan)
      ↔ Agrees setup db (.createTable stmt) := exists_planCreateTable_iff (setup.planner db) stmt
  rw [← hplan]
  constructor
  · intro h
    by_cases haccepts : (setup.analyzer db).Accepts (.createTable stmt)
    · exact h.plans haccepts
    · -- a table that is there already has a schema
      rw [hplan]
      show (db.catalog.getSchema (stmt.table.schema setup.defaultSchema)).isSome = true
      have hthere : (setup.analyzer db).getTable stmt.table ≠ none := by
        refine fun hnone => haccepts ⟨.valid, ?_, rfl⟩
        show Except.ok ((setup.analyzer db).analyzeCreateTable stmt) = _
        rw [analyzeCreateTable, hnone]
        rfl
      cases hschema : db.catalog.getSchema (stmt.table.schema setup.defaultSchema) with
      | none =>
        refine absurd ?_ hthere
        show db.findTable _ (stmt.table.schema setup.defaultSchema) = none
        unfold findTable
        rw [hschema]
      | some schema => rfl
  · exact fun h => ⟨⟨_, rfl⟩, fun _ => h, fun _ _ _ _ htarget => by cases htarget⟩

/-- **When a statement completes.** Of the statements that the parser returns, those
complete whose condition can be walked, planned and evaluated. -/
theorem completes_iff {fuel : ℕ} {tokens : List SqlToken}
    (hparse : Sql.SqlParser.run fuel tokens = .ok stmt) (hexamined : stmt.Examined) :
    Completes setup db stmt ↔ Agrees setup db stmt := by
  have hparsed := fun e he => (Sql.parsed_of_condition hparse (e := e) he).1
  cases hexamined with
  | select stmt =>
    rw [completes_of_analysis (analysis_select _ stmt) hparsed]
    refine forall₂_congr fun mt hreaches => ?_
    constructor
    · rintro ⟨hruns, hplan⟩ e he
      refine ⟨hruns e he, fun hfits => ?_⟩
      have hall : ∀ e', stmt.where_ = some e' → mt.FitsWhere e' :=
        fun e' he' => Option.some.inj (he.symm.trans he') ▸ hfits
      exact (exists_planSelect_iff hreaches.2.1 hall).mp (hplan hall) e he
    · intro h
      exact ⟨fun e he => (h e he).1, fun hfits =>
        (exists_planSelect_iff hreaches.2.1 hfits).mpr fun e he => (h e he).2 (hfits e he)⟩
  | update stmt =>
    rw [completes_of_analysis (analysis_update _ (Sql.parsed_of_assignments hparse)) hparsed]
    refine forall₂_congr fun mt hreaches => and_congr_right fun _ => forall_congr' fun _ => ?_
    exact exists_planUpdate_iff hreaches.2.2.1 hreaches.2.2.2
  | delete stmt =>
    rw [completes_of_analysis (analysis_delete _ stmt) hparsed]
    refine forall₂_congr fun mt hreaches => ?_
    exact and_iff_left fun _ => exists_planDelete hreaches.2
  | createTable stmt => exact completes_createTable_iff

/-! ## Reachable states -/

/-- **In every state that is reached**, a row has a token for each column. -/
theorem exists_columnToken {turns : List Turn} (hrun : Run (Happens setup) {} turns db)
    {tableName schemaName : Bytes} (hlook : LooksUp db tableName schemaName mt) {row : DataRow}
    (hrow : row ∈ db.tableRows mt.id) {colName : Bytes} {c : MetaColumn}
    (hcolumn : mt.getColumn colName = .ok c) :
    ∃ token, Evaluator.columnToken mt row colName = .ok token := by
  have hlength := ((typed_compatible hrun mt.id mt hlook.entry).2 row hrow).length
  have hthere := MetaTable.hasColumn_iff.mpr ⟨c, hcolumn⟩
  unfold MetaTable.hasColumn at hthere
  unfold Evaluator.columnToken MetaTable.getColumnIdxByName
  cases hidx : mt.columns.findIdx? fun column => column.name == colName with
  | none => exact absurd hthere (by rw [List.findIdx?_eq_none_iff] at hidx; simpa using hidx)
  | some i =>
    obtain ⟨hlt, -⟩ := List.findIdx?_eq_some_iff_getElem.mp hidx
    have htoken := List.getElem?_eq_getElem (hlength.symm ▸ hlt)
    simp only [htoken]
    exact ⟨_, rfl⟩

/-- So an accepted condition can be evaluated when it is a comparison with a column
on the left and a literal that has a value. -/
theorem evaluates_iff_of_run {turns : List Turn} (hrun : Run (Happens setup) {} turns db)
    {tableName schemaName : Bytes} (hlook : LooksUp db tableName schemaName mt) {row : DataRow}
    (hrow : row ∈ db.tableRows mt.id) {e : Sql.ExprNode} (hfits : mt.FitsWhere e) :
    e.Evaluates mt row ↔ ∃ op column value literal,
      e = .binaryExpr op (.identifier column) (.literal value)
      ∧ DataToken.ofSqlToken value = .ok literal := by
  constructor
  · rintro ⟨op, column, value, literal, _, heq, hliteral, -⟩
    exact ⟨op, column, value, literal, heq, hliteral⟩
  · rintro ⟨op, column, value, literal, rfl, hliteral⟩
    rcases hfits.cases with hnested | hcomparison
    · cases hnested
    · obtain ⟨_, c, -, -, hget, -⟩ := hcomparison
      obtain ⟨token, htoken⟩ := exists_columnToken hrun hlook hrow hget
      exact ⟨op, column, value, literal, token, rfl, hliteral, htoken⟩

/-! ## Two comparisons -/

/-- `x == 1`. -/
def isOne : Sql.ExprNode :=
  .binaryExpr .eq (.identifier ⟨[120], 1, 23, .identifier⟩)
    (.literal ⟨[49], 1, 28, .literal .integer⟩)

/-- The tokens of `SELECT * FROM t WHERE x == 1`. -/
def oneTokens : List SqlToken :=
  [⟨text "SELECT", 1, 1, .keyword .select⟩, ⟨text "*", 1, 8, .operator .mul⟩,
    ⟨text "FROM", 1, 10, .keyword .from_⟩, ⟨[116], 1, 15, .identifier⟩,
    ⟨text "WHERE", 1, 17, .keyword .where_⟩, ⟨[120], 1, 23, .identifier⟩,
    ⟨text "==", 1, 25, .operator .eq⟩, ⟨[49], 1, 28, .literal .integer⟩]

/-- The `SELECT` of a condition. -/
def selectWhere (e : Sql.ExprNode) : Sql.SelectStatement where
  table := { tableName := ⟨[116], 1, 15, .identifier⟩ }
  columns := []
  where_ := some e

/-- A comparison completes. -/
theorem completes_one :
    Completes plainSetup (integerIn .integer) (.select (selectWhere isOne)) := by
  have hparse : Sql.SqlParser.run 20 oneTokens = .ok (.select (selectWhere isOne)) := by
    decide +kernel
  refine (completes_iff hparse (.select _)).mpr fun mt hreaches e he => ?_
  have htable : (plainSetup.analyzer (integerIn .integer)).getTable (selectWhere isOne).table
      = some (integersTable .integer) := by
    decide +kernel
  obtain rfl := Option.some.inj (htable.symm.trans hreaches.2.1)
  obtain rfl := Option.some.inj he
  have hrows : live ((integerIn .integer).tableRows (integersTable .integer).id)
      = [integersRow] := by
    decide +kernel
  refine ⟨⟨rfl, fun _ row hrow => ?_⟩, fun _ => .inr (.inl rfl)⟩
  rw [hrows] at hrow
  obtain rfl := List.mem_singleton.mp hrow
  exact ⟨.eq, _, _, ⟨[1, 0, 0, 0], .integer⟩, ⟨[1, 0, 0, 0], .integer⟩, rfl, by decide +kernel,
    by decide +kernel⟩

/-- The tokens of `SELECT * FROM t WHERE x == 1 AND x == 1`, but for their places. -/
def bothTokens : List SqlToken :=
  oneTokens ++ ⟨text "AND", 1, 30, .operator .and⟩ :: oneTokens.drop 5

/-- **Two comparisons are accepted** and then no value can be given to them. -/
theorem not_completes : ¬ ∀ (setup : EngineSetup) (db : StdDbInstance) (fuel : ℕ)
    (tokens : List SqlToken) (stmt : Sql.Statement),
    Sql.SqlParser.run fuel tokens = .ok stmt → stmt.Examined → Completes setup db stmt := by
  intro h
  have hparse : Sql.SqlParser.run 20 bothTokens
      = .ok (.select (selectWhere (.binaryExpr .and isOne isOne))) := by
    decide +kernel
  have haccepts : (plainSetup.analyzer (integerIn .integer)).Accepts
      (.select (selectWhere (.binaryExpr .and isOne isOne))) :=
    ⟨.valid, by decide +kernel, rfl⟩
  have htable : (plainSetup.analyzer (integerIn .integer)).getTable
      (selectWhere (.binaryExpr .and isOne isOne)).table = some (integersTable .integer) := by
    decide +kernel
  have hrow : integersRow ∈ live ((integerIn .integer).tableRows (integersTable .integer).id) := by
    decide +kernel
  obtain ⟨verdict, heval⟩ := (h plainSetup (integerIn .integer) 20 bothTokens _ hparse
    (.select _)).evaluates haccepts _ _ _ rfl htable rfl _ hrow
  cases heval

end EngineSetup
