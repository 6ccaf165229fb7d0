import Deltabase.Engine.ExecutorRules
import Deltabase.Engine.StatementMeaning

/-!
# The rows a statement is about

A statement that the analyzer lets through names a table that is there, and has no
condition or one that fits it. The plan of the statement scans the table and filters
what it finds. So the rows that reach its executor are, whatever the order of pages,
the rows of the table that the condition of the statement selects
(`Settled.ensures_collected`, `Settled.ensures_drained`).
-/

namespace Engine

open SemanticAnalyzer EngineSetup

variable {engine : Engine} {db : StdDbInstance} {query : Bytes} {plan : Sql.PlanNode}
  {mt : MetaTable}

/-- The condition of a statement is one that the parser makes. -/
theorem Plans.parsed_condition {stmt : Sql.Statement} (h : engine.Plans db query stmt plan)
    {e : Sql.ExprNode} (he : stmt.condition = some e) : e.Parsed := by
  obtain ⟨fuel, tokens, -, hrun⟩ := h.parsed
  exact (Sql.parsed_of_condition hrun he).1

/-- **A statement that is accepted** has come to its condition, which fits. -/
theorem exists_reaches_of_accepts {analyzer : SemanticAnalyzer} {stmt : Sql.Statement}
    (hanalysis : Analysis analyzer stmt) (haccepts : analyzer.Accepts stmt)
    (hparsed : ∀ e, stmt.condition = some e → e.Parsed) :
    ∃ mt, analyzer.Reaches mt stmt ∧ ∀ e, stmt.condition = some e → mt.FitsWhere e := by
  cases hanalysis with
  | refused _ hanalyze =>
    obtain ⟨analysis, hok, hvalid⟩ := haccepts
    rw [hanalyze] at hok
    obtain rfl := Except.ok.inj hok
    cases hvalid
  | @condition mt hreaches hanalyze =>
    unfold Accepts at haccepts
    rw [hanalyze, passes_analyzeCondition hparsed] at haccepts
    exact ⟨mt, hreaches, haccepts⟩

end Engine

/-! ## Rows that a condition selects -/

namespace MetaTable

/-- What a condition says of a row. -/
def keeps (mt : MetaTable) (where_ : Option Sql.ExprNode) (row : DataRow) : Except Exn Bool :=
  match where_ with
  | none => .ok true
  | some e => Evaluator.evaluate mt row e

variable {mt : MetaTable} {where_ : Option Sql.ExprNode}

/-- **What a condition says is what it means.** -/
theorem selects_of_keeps (hparsed : ∀ e, where_ = some e → e.Parsed)
    (hfits : ∀ e, where_ = some e → mt.FitsWhere e)
    (hup : where_.all Sql.ExprNode.isUpward = true) {row : DataRow} {verdict : Bool}
    (h : mt.keeps where_ row = .ok verdict) :
    verdict = Sql.selects mt.names where_ row.tokens := by
  cases where_ with
  | none => exact (Except.ok.inj h).symm
  | some e => exact Evaluator.evaluate_eq_selects (hparsed e rfl) (hfits e rfl) hup h

/-- **The rows that are let through** are those that are selected. -/
theorem filter_of_yields (hparsed : ∀ e, where_ = some e → e.Parsed)
    (hfits : ∀ e, where_ = some e → mt.FitsWhere e)
    (hup : where_.all Sql.ExprNode.isUpward = true) {rows picked : List DataRow}
    (h : Yields (mt.keeps where_) rows picked) :
    picked = rows.filter fun row => Sql.selects mt.names where_ row.tokens := by
  rw [h.2]
  refine List.filter_congr fun row hrow => ?_
  obtain ⟨verdict, hverdict⟩ := h.1 row hrow
  rw [hverdict, ← selects_of_keeps hparsed hfits hup hverdict]
  cases verdict <;> rfl

end MetaTable

/-! ## Scanning a table -/

namespace StdDbInstance

open RowView NodeExecutor EngineSetup

variable {db db₁ db₂ : StdDbInstance} {tableName schemaName : Bytes} {mt : MetaTable}

/-- **Behind the beginning of a scan** are the rows of the table. -/
theorem Settled.exists_cursorRows (h : Settled db) (hlook : LooksUp db tableName schemaName mt) :
    ∃ n rows, cursorRows db.page n ⟨db.scanStart mt, 0, true⟩ = some rows
      ∧ rows.Perm (live (db.tableRows mt.id)) := by
  have hpages := h.resting.logged.pages
  obtain ⟨enough, hscan⟩ := seqScan_of_chained hpages.ok (fun _ hid => hpages.pos trivial hid)
    (hpages.chains mt.id trivial) hlook
  obtain ⟨rows, db', hrun, hperm⟩ := hscan enough le_rfl
  obtain ⟨mt', db₁, hget, hrun⟩ := run_bind_eq_ok.mp hrun
  obtain ⟨page, db₂, hbegin, hrun⟩ := run_bind_eq_ok.mp hrun
  obtain ⟨⟨rows', cursor⟩, db₃, hdrain, hrun⟩ := run_bind_eq_ok.mp hrun
  cases hrun
  obtain ⟨rfl, -⟩ := (ensures_getTable tableName schemaName db).of_ok hget
  obtain ⟨hpage, hsame⟩ := (readsAs_seqScanBegin hlook).of_ok hbegin
  obtain ⟨-, n, rows', hrows, hyields⟩ :=
    ((scans_seqScan _).ensures_drain enough rfl .blank db₂).of_ok hdrain
  obtain rfl := hyields.eq_of_all
  rw [hsame.page, ← Except.ok.inj hpage] at hrows
  exact ⟨n, _, hrows, hperm⟩

/-- **What has been handed out** is what is let through of the rows of the table. -/
theorem Settled.yields_of_collected (h : Settled db) (hlook : LooksUp db tableName schemaName mt)
    {cursor : ScanCursor}
    (hopened : (NodeExecutor.seqScan tableName schemaName).opened {} db = .ok cursor db₁)
    (hpage : db₂.page = db.page) {keep : DataRow → Except Exn Bool} {picked : List DataRow}
    {db₃ : StdDbInstance} (hcollected : Collected keep db₂ cursor picked db₃) :
    ∃ scanned, scanned.Perm (live (db.tableRows mt.id)) ∧ Yields keep scanned picked := by
  obtain ⟨hbegin, hcursor⟩ := opened_seqScan_eq_ok.mp hopened
  have hstart := Except.ok.inj ((readsAs_seqScanBegin hlook).of_ok hbegin).1
  obtain ⟨-, m, rows, hrows, hyields⟩ := hcollected
  obtain ⟨n, scanned, hscanned, hperm⟩ := h.exists_cursorRows hlook
  rw [hpage, hcursor, ← hstart] at hrows
  have hsame : scanned = rows := Option.some.inj <|
    (cursorRows_mono (le_max_right m n) hscanned).symm.trans
      (cursorRows_mono (le_max_left m n) hrows)
  exact ⟨scanned, hperm, hsame ▸ hyields⟩

end StdDbInstance

/-! ## The child of an executor -/

namespace NodeExecutor

open StdDbInstance EngineSetup

variable {setup : EngineSetup} {db : StdDbInstance} {table : Sql.TableIdentifier} {mt : MetaTable}
  {where_ : Option Sql.ExprNode} {root : Sql.PlanNode}

/-- **What a plan makes of a condition** is a scan of the table that lets through what
the condition does. -/
theorem exists_scan_of_filtered (htable : (setup.analyzer db).getTable table = some mt)
    (hroot : (setup.planner db).filtered table where_ = .ok root) (unwritten : Bool) :
    ∃ next, fromPlan unwritten root
        = { seqScan table.tableName.value (table.schema setup.defaultSchema) with next := next }
      ∧ (fromPlan unwritten root).Reads ∧ ∀ n, Scans (mt.keeps where_) (next n) := by
  cases where_ with
  | none =>
    obtain rfl := Except.ok.inj hroot
    exact ⟨fun rounds => seqScanNext rounds, rfl, reads_seqScan, fun n => scans_seqScan n⟩
  | some e =>
    unfold StdPlanner.filtered at hroot
    rw [derefTable_of_getTable htable] at hroot
    obtain rfl := Except.ok.inj hroot
    exact ⟨fun rounds => filterLoop (seqScanNext rounds) mt e rounds, rfl,
      reads_filter reads_seqScan mt e, fun n => scans_filter mt e n n⟩

end NodeExecutor

namespace StdDbInstance

open NodeExecutor EngineSetup

/-- **The rows that are selected**, in the order in which they have been found. -/
def FoundRows (db : StdDbInstance) (mt : MetaTable) (where_ : Option Sql.ExprNode)
    (rows : List DataRow) : Prop :=
  ∃ scanned : List DataRow, scanned.Perm (live (db.tableRows mt.id))
    ∧ rows = scanned.filter fun row => Sql.selects mt.names where_ row.tokens

section Found

variable {setup : EngineSetup} {db : StdDbInstance} {table : Sql.TableIdentifier} {mt : MetaTable}
  {where_ : Option Sql.ExprNode} {root : Sql.PlanNode} {unwritten : Bool} {rounds : ℕ}

/-- **The rows that an executor collects** are those that its statement selects. -/
theorem Settled.ensures_collected (h : Settled db)
    (htable : (setup.analyzer db).getTable table = some mt)
    (hroot : (setup.planner db).filtered table where_ = .ok root)
    (hparsed : ∀ e, where_ = some e → e.Parsed) (hfits : ∀ e, where_ = some e → mt.FitsWhere e)
    (hup : where_.all Sql.ExprNode.isUpward = true) {s : (fromPlan unwritten root).State}
    {db₁ db₂ : StdDbInstance}
    (hopened : (fromPlan unwritten root).opened (fromPlan unwritten root).init db = .ok s db₁)
    (hpage : db₂.page = db.page) :
    Ensures (collect ((fromPlan unwritten root).next rounds) rounds s) db₂
      (fun r db₃ => SameView db₂ db₃ ∧ FoundRows db mt where_ r.1) fun _ _ => True := by
  obtain ⟨next, hchild, -, hscans⟩ := exists_scan_of_filtered htable hroot unwritten
  generalize fromPlan unwritten root = child at *
  subst hchild
  have hlook : LooksUp db _ _ mt := findTable_eq_some_iff.mp htable
  have hinit : ScanCursor.initialized s = true := by
    rw [(opened_seqScan_eq_ok.mp hopened).2]
  refine ((hscans rounds).ensures_collect rounds hinit db₂).mono_ok fun r db₃ hcollected => ?_
  obtain ⟨scanned, hperm, hyields⟩ := h.yields_of_collected hlook hopened hpage hcollected
  exact ⟨hcollected.1, scanned, hperm, MetaTable.filter_of_yields hparsed hfits hup hyields⟩

/-- **The rows of a table that is asked for** are those that the statement selects, and
asking for them only reads. -/
theorem Settled.executeQuery_scan (h : Settled db)
    (htable : (setup.analyzer db).getTable table = some mt)
    (hroot : (setup.planner db).filtered table where_ = .ok root)
    (hparsed : ∀ e, where_ = some e → e.Parsed) (hfits : ∀ e, where_ = some e → mt.FitsWhere e)
    (hup : where_.all Sql.ExprNode.isUpward = true) {rows : List DataRow} {schema : OutputSchema}
    {db' : StdDbInstance}
    (hrun : Engine.executeQuery rounds (fromPlan unwritten root) false db
      = .ok (.materialized rows schema 0) db') :
    FoundRows db mt where_ rows := by
  obtain ⟨next, hchild, -, hscans⟩ := exists_scan_of_filtered htable hroot unwritten
  generalize fromPlan unwritten root = child at *
  subst hchild
  have hlook : LooksUp db _ _ mt := findTable_eq_some_iff.mp htable
  obtain ⟨s, db₁, hopened, hrun⟩ := run_bind_eq_ok.mp hrun
  obtain ⟨⟨rows', s'⟩, db₂, hdrain, hrun⟩ := run_bind_eq_ok.mp hrun
  obtain ⟨schema', db₃, -, hrun⟩ := run_bind_eq_ok.mp hrun
  cases hrun
  have hinit : ScanCursor.initialized s = true := by
    rw [(opened_seqScan_eq_ok.mp hopened).2]
  have hsame : SameView db db₁ :=
    ((readsAs_seqScanBegin hlook).of_ok (opened_seqScan_eq_ok.mp hopened).1).2
  have hcollected := ((hscans rounds).ensures_drain rounds hinit .blank db₁).of_ok hdrain
  obtain ⟨scanned, hperm, hyields⟩ :=
    h.yields_of_collected hlook hopened hsame.page hcollected
  exact ⟨scanned, hperm, MetaTable.filter_of_yields hparsed hfits hup hyields⟩

end Found

end StdDbInstance
