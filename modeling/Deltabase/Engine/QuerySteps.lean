import Deltabase.Engine.RelationSteps

/-!
# One query

Every query that returns is one step of the system of relations
(`Engine.Executes.advances`), if the ids of the rows are distinct when it is an
`UPDATE` or a `DELETE`. Which ids repeat is a question of what has happened before:
an `INSERT` gives out an id again when there has been an `UPDATE` of the same table
(`possible`).
-/

open Relational

/-! ## What queries are about -/

/-- The table whose rows a statement is about. -/
def Sql.Statement.table : Statement → Option TableIdentifier
  | .select stmt => some stmt.table
  | .insert stmt => some stmt.table
  | .update stmt => some stmt.table
  | .delete stmt => some stmt.table
  | _ => none

namespace Engine

open StdDbInstance RowView

/-- The events of a system of tables. -/
abbrev TableEvent := Event TableId (List DataToken)

/-- **The event that a query is**, in the state in which it is executed. -/
def event (engine : Engine) (db : StdDbInstance) (stmt : Sql.Statement) (answer : Answer) :
    TableEvent :=
  match stmt.table.bind (db.findNamed engine.setup.defaultSchema) with
  | some mt => stmt.meaning mt answer
  | none => .silent

/-- Whether an event selects tuples to change them. -/
def Selects (t : TableId) (e : TableEvent) : Prop :=
  e.Updates t ∨ ∃ selects, e = .change t (.delete selects)

/-- **The phases that the past makes possible** for the ids of a table. -/
def possible (past : List TableEvent) (t : TableId) : Phase → Prop
  | .fresh => True
  | .rewritten => ∃ a ∈ past, a.Updates t
  | .repeated => ∃ a b, [a, b].Sublist past ∧ a.Updates t ∧ b.Inserts t

section Possible

variable {past : List TableEvent} {e : TableEvent} {t : TableId} {phase : Phase}

theorem possible_append (h : possible past t phase) : possible (past ++ [e]) t phase := by
  cases phase with
  | fresh => trivial
  | rewritten =>
    obtain ⟨a, ha, hupdates⟩ := h
    exact ⟨a, List.mem_append_left _ ha, hupdates⟩
  | repeated =>
    obtain ⟨a, b, hsub, hab⟩ := h
    exact ⟨a, b, hsub.trans (List.sublist_append_left past [e]), hab⟩

/-- **An `INSERT`** gives out an id again only after an `UPDATE`. -/
theorem possible_appends (he : e.Inserts t) (h : possible (past ++ [e]) t phase) :
    possible (past ++ [e]) t (phase.next .appends) := by
  cases phase with
  | fresh => trivial
  | rewritten =>
    obtain ⟨a, ha, hupdates⟩ := h
    have hpast : a ∈ past := by
      refine (List.mem_append.mp ha).resolve_right fun hlast => ?_
      obtain ⟨selects, replace, rfl⟩ := hupdates
      obtain ⟨tuples, hinsert⟩ := he
      rw [hinsert, List.mem_singleton] at hlast
      cases hlast
    exact ⟨a, e, (List.singleton_sublist.mpr hpast).append (.refl [e]), hupdates, he⟩
  | repeated => exact h

/-- An `UPDATE` rewrites rows. -/
theorem possible_rewrites (he : e.Updates t) (h : possible past t phase) :
    possible (past ++ [e]) t (phase.next .rewrites) := by
  have hlast : ∃ a ∈ past ++ [e], a.Updates t :=
    ⟨e, List.mem_append_right _ List.mem_cons_self, he⟩
  cases phase with
  | fresh => exact hlast
  | rewritten => exact hlast
  | repeated => exact possible_append h

end Possible

/-- **A step forwards**: the instance is settled, its tables are in order, and the
relations have taken a step. -/
structure Advances (past : List TableEvent) (db : StdDbInstance) (e : TableEvent)
    (db' : StdDbInstance) : Prop where
  settled : Settled db'
  orderly : Orderly (possible (past ++ [e])) db'.rowView
  step : Step db.rowView.contents e db'.rowView.contents

namespace Advances

variable {past : List TableEvent} {db db' : StdDbInstance}

/-- **When no rows are touched**, the event is silent. -/
theorem of_untouched (horderly : Orderly (possible past) db.rowView) (hsettled : Settled db')
    (h : Untouched db.rowView db'.rowView) : Advances past db .silent db' := by
  refine ⟨hsettled, (horderly.untouched h fun _ => trivial).mono fun _ _ => possible_append, ?_⟩
  rw [h.contents]
  exact .silent

/-- When nothing has been done but reading, the event is silent or an answer. -/
theorem of_sameView (h : Settled db) (horderly : Orderly (possible past) db.rowView)
    (hsame : SameView db db') {e : TableEvent}
    (hstep : Step db.rowView.contents e db.rowView.contents) : Advances past db e db' := by
  refine ⟨h.congr hsame.toSameRows, ?_, ?_⟩
  · rw [hsame.rowView]
    exact horderly.mono fun _ _ => possible_append
  · rw [hsame.rowView]
    exact hstep

/-- A statement that touches no rows. -/
theorem of_next (h : Settled db) (horderly : Orderly (possible past) db.rowView) {st : Statement}
    (hanalyze : st.analyze db = true)
    (hbody : ∀ db₁, Running Set.univ db₁.rowView →
      Ensures st.body db₁ (fun _ db₂ => Untouched db₁.rowView db₂.rowView) fun _ _ => True)
    (hnext : st.next db = .ok () db') : Advances past db .silent db' := by
  obtain ⟨hsettled, huntouched⟩ := h.executed (Q := fun v => Untouched db.rowView v)
    (fun v v' hsteady huntouched => huntouched.trans (.of_steady hsteady)) hanalyze
    (fun db₁ hbegan => (hbody db₁ hbegan.running).mono_ok fun _ db₂ huntouched =>
      (Untouched.of_steady hbegan.steady).trans huntouched) hnext
  exact of_untouched horderly hsettled huntouched

end Advances

/-- **What a statement leaves**: tables that are in order, with these contents. -/
def Leaves (past : List TableEvent) (e : TableEvent) (r : TableId → Multiset (List DataToken))
    (v : RowView) : Prop := Orderly (possible (past ++ [e])) v ∧ v.contents = r

theorem Leaves.steady {past : List TableEvent} {e : TableEvent}
    {r : TableId → Multiset (List DataToken)} {v v' : RowView} (hsteady : Steady v v')
    (h : Leaves past e r v) : Leaves past e r v' :=
  ⟨h.1.untouched (.of_steady hsteady) fun _ => trivial,
    (Untouched.of_steady hsteady).contents.trans h.2⟩

/-! ## Statements that change rows -/

section Changes

open NodeExecutor EngineSetup SemanticAnalyzer

variable {engine : Engine} {db db' : StdDbInstance} {past : List TableEvent} {plan : Sql.PlanNode}
  {unwritten : Bool} {rounds : ℕ} {result : ExecutionResult (fromPlan unwritten plan)}
  {mt : MetaTable}

/-- The event of a statement whose table is there. -/
theorem event_eq {stmt : Sql.Statement} {table : Sql.TableIdentifier}
    (hnamed : stmt.table = some table)
    (htable : (engine.setup.analyzer db).getTable table = some mt) (answer : Answer) :
    engine.event db stmt answer = stmt.meaning mt answer := by
  unfold event
  rw [hnamed]
  show (match db.findNamed engine.setup.defaultSchema table with
    | some mt => stmt.meaning mt answer
    | none => .silent) = _
  rw [show db.findNamed engine.setup.defaultSchema table = some mt from htable]

/-- A table that has been found is found in the transaction. -/
theorem looksUp_of_began {table : Sql.TableIdentifier}
    (htable : (engine.setup.analyzer db).getTable table = some mt) {db₁ db₂ : StdDbInstance}
    (hsame : SameView db db₁) (hbegan : Began db₁ db₂) :
    LooksUp db₂ table.tableName.value (table.schema engine.setup.defaultSchema) mt := by
  have hlook : LooksUp db table.tableName.value (table.schema engine.setup.defaultSchema) mt :=
    findTable_eq_some_iff.mp htable
  unfold LooksUp
  rw [hbegan.catalog, hsame.catalog]
  exact hlook

/-- **An `INSERT`** adds its tuples. -/
theorem advances_insert (h : Settled db) (horderly : Orderly (possible past) db.rowView)
    {stmt : Sql.InsertStatement} (haccepts : (engine.setup.analyzer db).Accepts (.insert stmt))
    (hplan : (engine.setup.planner db).planInsert stmt = .ok plan)
    (hrun : executeQuery rounds (fromPlan unwritten plan) false db = .ok result db')
    (answer : Answer) :
    Advances past db (engine.event db (.insert stmt) answer) db' := by
  obtain ⟨-, mt, htable, -, hvalues⟩ := accepts_insert_iff.mp haccepts
  rw [event_eq rfl htable]
  set e := Sql.Statement.meaning mt (.insert stmt) answer with he
  have hinserts : e.Inserts mt.id := ⟨_, rfl⟩
  obtain ⟨rows, hrows, hpure⟩ := bind_eq_ok.mp hplan
  obtain rfl := Except.ok.inj hpure
  have hnil : stmt.columns = [] → ∀ values ∈ stmt.values, values = [] := by
    refine fun hcolumns values hmem => List.eq_nil_iff_forall_not_mem.mpr fun value hvalue => ?_
    obtain ⟨i, hi⟩ := List.getElem?_of_mem hvalue
    obtain ⟨literal, name, -, hname, -⟩ :=
      (hvalues values hmem _ (List.mk_mem_zipIdx_iff_getElem?.mpr hi)).value
    rw [hcolumns] at hname
    cases hname
  have htuples := @Sql.InsertStatement.map_reorderedTokens stmt mt rows hrows hnil
  have hnext := next_of_insert hrun
  have hexists : ∀ cols, Statement.analyze db (.insert stmt.table.tableName.value
      (stmt.table.schema engine.setup.defaultSchema) cols rows) = true :=
    fun _ => Option.isSome_iff_exists.mpr ⟨mt, htable⟩
  have hbody : ∀ cols, rows.map (mt.reorderedTokens cols) = stmt.tuples mt.names →
      ∀ db₁, Began db db₁ →
      Ensures (rows.forM (insertRow stmt.table.tableName.value
        (stmt.table.schema engine.setup.defaultSchema) cols)) db₁
        (fun _ db₂ => Leaves past e (Function.update db.rowView.contents mt.id
          (db.rowView.contents mt.id + ↑(stmt.tuples mt.names))) db₂.rowView) fun _ _ => True := by
    intro cols hcols db₁ hbegan
    have huntouched := Untouched.of_steady hbegan.steady
    have horderly₁ := (horderly.untouched huntouched fun _ => trivial).mono
      fun _ _ => possible_append (e := e)
    have hlook := looksUp_of_began htable (.refl db) hbegan
    refine (relation_insertRows hbegan.running horderly₁ hlook
      (fun _ => possible_appends hinserts) cols rows).mono_ok fun _ db₂ ⟨horderly₂, hcontents⟩ => ?_
    rw [huntouched.contents, hcols] at hcontents
    exact ⟨horderly₂, hcontents⟩
  obtain ⟨hsettled, hleaves⟩ := h.executed (fun _ _ => Leaves.steady) (hexists _)
    (hbody _ htuples) hnext
  refine ⟨hsettled, hleaves.1, ?_⟩
  rw [hleaves.2]
  exact .change mt.id (.insert (stmt.tuples mt.names))

/-- The ids of the rows of a table are distinct, unless it has been updated and then
inserted into. -/
theorem nodup_of_orderly (horderly : Orderly (possible past) db.rowView)
    (hentry : db.rowView.entry mt.id = some mt)
    (hpast : ∀ a b, [a, b].Sublist past → a.Updates mt.id → ¬ b.Inserts mt.id) :
    ((db.rowView.rows mt.id).map DataRow.id).Nodup := by
  obtain ⟨phase, hids, hpossible⟩ := horderly.phases mt.id mt hentry
  refine hids.nodup_iff.mpr fun hrepeated => ?_
  rw [hrepeated] at hpossible
  obtain ⟨a, b, hsub, hupdates, hinserts⟩ := hpossible
  exact hpast a b hsub hupdates hinserts

/-- **The rule for an executor that collects rows**: what the storage makes of the rows
that are selected is what it leaves. -/
theorem advances_collecting (h : Settled db) (horderly : Orderly (possible past) db.rowView)
    {table : Sql.TableIdentifier} {where_ : Option Sql.ExprNode} {root : Sql.PlanNode}
    (htable : (engine.setup.analyzer db).getTable table = some mt)
    (hroot : (engine.setup.planner db).filtered table where_ = .ok root)
    (hparsed : ∀ e, where_ = some e → e.Parsed) (hfits : ∀ e, where_ = some e → mt.FitsWhere e)
    (hup : where_.all Sql.ExprNode.isUpward = true) {e : TableEvent}
    {r : TableId → Multiset (List DataToken)} (hstep : Step db.rowView.contents e r)
    {store : List DataRow → Prog Unit}
    (hrunning : ∀ rows db₁, Running Set.univ db₁.rowView → Ensures (store rows) db₁
      (fun _ db₂ => Running Set.univ db₂.rowView) fun _ _ => True)
    (hstore : ∀ rows db₁, Running Set.univ db₁.rowView → Orderly (possible past) db₁.rowView →
      LooksUp db₁ table.tableName.value (table.schema engine.setup.defaultSchema) mt →
      db₁.rowView.rows = db.rowView.rows → db₁.rowView.contents = db.rowView.contents →
      FoundRows db mt where_ rows →
      Ensures (store rows) db₁ (fun _ db₂ => Leaves past e r db₂.rowView) fun _ _ => True)
    {name : String}
    {result : ExecutionResult (changing name (fromPlan unwritten root) fun rounds state => do
      let (rows, state) ← collect ((fromPlan unwritten root).next rounds) rounds state
      store rows
      pure (rows.length, state))}
    (hrun : executeQuery rounds (changing name (fromPlan unwritten root) fun rounds state => do
      let (rows, state) ← collect ((fromPlan unwritten root).next rounds) rounds state
      store rows
      pure (rows.length, state)) false db = .ok result db') : Advances past db e db' := by
  obtain ⟨-, -, hreads, -⟩ := exists_scan_of_filtered htable hroot unwritten
  have hends : Settled db' ∧ Leaves past e r db'.rowView := by
    refine h.changed (fun _ _ => Leaves.steady) hreads
      (fun s db₁ db₂ hopened hsame hbegan => ?_) hrun
    rw [ensures_bind]
    have hpage : db₂.page = db.page := hbegan.page.trans hsame.page
    refine (h.ensures_collected htable hroot hparsed hfits hup hopened hpage).mono_ok
      fun ⟨rows, s'⟩ db₃ ⟨hsame₃, hselected⟩ => ?_
    show Ensures (store rows >>= _) db₃ _ _
    rw [ensures_bind]
    have hview : db₃.rowView = db₂.rowView := hsame₃.rowView
    have hsteady : Steady db.rowView db₃.rowView := by
      rw [hview, ← hsame.rowView]
      exact hbegan.steady
    have huntouched := Untouched.of_steady hsteady
    have hrunning₃ : Running Set.univ db₃.rowView := hview ▸ hbegan.running
    have hlook : LooksUp db₃ table.tableName.value (table.schema engine.setup.defaultSchema) mt :=
      hsame₃.looksUp.mpr (looksUp_of_began htable hsame hbegan)
    have hkeeps := hrunning rows db₃ hrunning₃
    have hleaves := hstore rows db₃ hrunning₃ (horderly.untouched huntouched fun _ => trivial) hlook
      hsteady.rows huntouched.contents hselected
    exact ensures_iff.mpr ⟨fun _ _ hrun => ⟨hkeeps.of_ok hrun, hleaves.of_ok hrun⟩,
      fun _ _ _ => trivial⟩
  obtain ⟨hsettled, hleaves⟩ := hends
  refine ⟨hsettled, hleaves.1, ?_⟩
  rw [hleaves.2]
  exact hstep

/-- No rows of a table share an id. -/
def DistinctIds (db : StdDbInstance) (t : TableId) : Prop :=
  ((db.rowView.rows t).map DataRow.id).Nodup

/-- **An `UPDATE`** replaces the tuples that it selects. -/
theorem advances_update (h : Settled db) (horderly : Orderly (possible past) db.rowView)
    {stmt : Sql.UpdateStatement} (haccepts : (engine.setup.analyzer db).Accepts (.update stmt))
    (hparsed : ∀ e, stmt.where_ = some e → e.Parsed)
    (hup : stmt.where_.all Sql.ExprNode.isUpward = true)
    (hplan : (engine.setup.planner db).planUpdate stmt = .ok plan)
    (hdistinct : ∀ mt, (engine.setup.analyzer db).getTable stmt.table = some mt →
      DistinctIds db mt.id)
    (hrun : executeQuery rounds (fromPlan unwritten plan) false db = .ok result db')
    (answer : Answer) :
    Advances past db (engine.event db (.update stmt) answer) db' := by
  obtain ⟨-, -, mt, htable, -, hcondition⟩ := accepts_update_iff.mp haccepts
  have hfits := (passes_analyzeCondition hparsed).mp hcondition
  rw [event_eq rfl htable]
  set e := Sql.Statement.meaning mt (.update stmt) answer with he
  have hupdates : e.Updates mt.id := ⟨_, _, rfl⟩
  obtain ⟨mt', hderef, hplan⟩ := bind_eq_ok.mp hplan
  rw [derefTable_of_getTable htable] at hderef
  obtain rfl := Except.ok.inj hderef
  obtain ⟨parts, hparts, hplan⟩ := bind_eq_ok.mp hplan
  obtain ⟨root, hroot, hpure⟩ := bind_eq_ok.mp hplan
  obtain rfl := Except.ok.inj hpure
  have hentry := (show LooksUp db _ _ mt from findTable_eq_some_iff.mp htable).entry
  have hcolumns := horderly.columns mt.id mt hentry
  have hreplace : ∀ mw row tokens, mw.columns = mt.columns →
      assignTokens mw parts.flatten row = .ok tokens →
      tokens = stmt.replace mt.names row.tokens := by
    intro mw row tokens hmw hassign
    rw [assignTokens_congr hmw] at hassign
    exact assignTokens_eq hcolumns hparts hassign
  refine advances_collecting h horderly htable hroot hparsed hfits hup (.change mt.id _)
    (fun rows db₁ hrunning => running_updateRow hrunning _ _ _ rows)
    (fun rows db₁ hrunning horderly₁ hlook hrows hcontents hselected => ?_) hrun
  obtain ⟨scanned, hperm, rfl⟩ := hselected
  refine (relation_updateRow hrunning horderly₁ hlook (fun _ _ => possible_append)
    (fun _ => possible_rewrites hupdates) hreplace _).mono_ok fun _ db₂ ⟨horderly₂, hend⟩ => ?_
  refine ⟨horderly₂, ?_⟩
  rw [hend, hcontents, hrows, Change.apply_eq]
  have hbind := @bind_of_selected db.rowView mt.id (hdistinct mt htable)
    (Sql.selects mt.names stmt.where_) scanned hperm (fun tokens => {stmt.replace mt.names tokens})
    fun tokens => {tokens}
  exact congrArg _ (hbind.trans (add_zero _).symm)

/-- **A `DELETE`** removes the tuples that it selects. -/
theorem advances_delete (h : Settled db) (horderly : Orderly (possible past) db.rowView)
    {stmt : Sql.DeleteStatement} (haccepts : (engine.setup.analyzer db).Accepts (.delete stmt))
    (hparsed : ∀ e, stmt.where_ = some e → e.Parsed)
    (hup : stmt.where_.all Sql.ExprNode.isUpward = true)
    (hplan : (engine.setup.planner db).planDelete stmt = .ok plan)
    (hdistinct : ∀ mt, (engine.setup.analyzer db).getTable stmt.table = some mt →
      DistinctIds db mt.id)
    (hrun : executeQuery rounds (fromPlan unwritten plan) false db = .ok result db')
    (answer : Answer) :
    Advances past db (engine.event db (.delete stmt) answer) db' := by
  obtain ⟨mt, ⟨-, htable⟩, hfits⟩ :=
    exists_reaches_of_accepts (analysis_delete _ stmt) haccepts hparsed
  rw [event_eq rfl htable]
  obtain ⟨root, hroot, hpure⟩ := bind_eq_ok.mp hplan
  obtain rfl := Except.ok.inj hpure
  refine advances_collecting h horderly htable hroot hparsed hfits hup (.change mt.id _)
    (fun rows db₁ hrunning => running_deleteRows hrunning _ _ rows)
    (fun rows db₁ hrunning horderly₁ hlook hrows hcontents hselected => ?_) hrun
  obtain ⟨scanned, hperm, rfl⟩ := hselected
  refine (relation_deleteRows hrunning horderly₁ hlook _).mono_ok fun _ db₂ ⟨horderly₂, hend⟩ => ?_
  refine ⟨horderly₂.mono fun _ _ => possible_append, ?_⟩
  rw [hend, hcontents, hrows, Change.apply_eq]
  have hbind := @bind_of_selected db.rowView mt.id (hdistinct mt htable)
    (Sql.selects mt.names stmt.where_) scanned hperm (fun _ => 0) fun tokens => {tokens}
  exact congrArg _ (hbind.trans (add_zero _).symm)

end Changes

/-! ## Statements that read -/

section Answers

open NodeExecutor EngineSetup SemanticAnalyzer StdPlanner

variable {engine : Engine} {db db' : StdDbInstance} {past : List TableEvent} {plan : Sql.PlanNode}
  {unwritten : Bool} {rounds : ℕ} {mt : MetaTable}

/-- **The scan of a `SELECT`** goes through an index or through all rows. -/
theorem selectScan_cases {setup : EngineSetup} {stmt : Sql.SelectStatement}
    (htable : (setup.analyzer db).getTable stmt.table = some mt) (chosenIndex : Option IndexId) :
    (∃ tableName schemaName id e,
        selectScan (stmt.table.schema setup.defaultSchema) stmt mt chosenIndex
          = .indexScan tableName schemaName id e)
      ∨ (setup.planner db).filtered stmt.table stmt.where_
        = .ok (selectScan (stmt.table.schema setup.defaultSchema) stmt mt chosenIndex) := by
  unfold selectScan filtered
  cases stmt.where_ with
  | none => exact .inr rfl
  | some e =>
    cases chosenIndex with
    | some id => exact .inl ⟨_, _, _, _, rfl⟩
    | none =>
      rw [derefTable_of_getTable htable]
      exact .inr rfl

/-- **The executor of a `SELECT`** only reads. -/
theorem reads_of_planSelect {stmt : Sql.SelectStatement}
    (htable : (engine.setup.analyzer db).getTable stmt.table = some mt)
    (hplan : (engine.setup.planner db).planSelect stmt = .ok plan) :
    (fromPlan unwritten plan).Reads := by
  obtain ⟨mt', hderef, hplan⟩ := bind_eq_ok.mp hplan
  rw [derefTable_of_getTable htable] at hderef
  obtain rfl := Except.ok.inj hderef
  obtain ⟨chosen, -, hpure⟩ := bind_eq_ok.mp hplan
  obtain rfl := Except.ok.inj hpure
  have hscan : (fromPlan unwritten (selectScan (stmt.table.schema engine.setup.defaultSchema) stmt
      mt (chosen.map MetaIndex.id))).Reads := by
    obtain ⟨tableName, schemaName, id, e, heq⟩ | hroot :=
      selectScan_cases htable (chosen.map MetaIndex.id)
    · rw [heq]
      exact reads_indexScan id e
    · obtain ⟨-, -, hreads, -⟩ := exists_scan_of_filtered htable hroot unwritten
      exact hreads
  by_cases hcolumns : stmt.columns = []
  · show (fromPlan unwritten (selectNodes _ stmt mt _)).Reads
    rw [selectNodes_all hcolumns]
    cases stmt.limit with
    | none => exact hscan
    | some k => exact reads_limit hscan k
  · show (fromPlan unwritten (selectNodes _ stmt mt _)).Reads
    rw [selectNodes_some hcolumns]
    cases stmt.limit with
    | none => exact reads_projection hscan _ _
    | some k => exact reads_limit (reads_projection hscan _ _) k

/-- The tuples of the rows that are selected. -/
theorem tokens_of_foundRows {where_ : Option Sql.ExprNode} {rows : List DataRow}
    (h : FoundRows db mt where_ rows) :
    (↑(rows.map DataRow.tokens) : Multiset (List DataToken))
      = (db.rowView.contents mt.id).filter fun tokens => Sql.selects mt.names where_ tokens := by
  obtain ⟨scanned, hperm, rfl⟩ := h
  have hcontents : db.rowView.contents mt.id = ↑(scanned.map DataRow.tokens) :=
    Multiset.coe_eq_coe.mpr (hperm.symm.map DataRow.tokens)
  rw [hcontents, Multiset.filter_coe, List.filter_map]
  simp only [Bool.decide_eq_true]
  rfl

/-- **A `SELECT`** changes nothing, and one of all columns that scans the table returns
the tuples that it selects. -/
theorem advances_select (h : Settled db) (horderly : Orderly (possible past) db.rowView)
    {stmt : Sql.SelectStatement} (haccepts : (engine.setup.analyzer db).Accepts (.select stmt))
    (hparsed : ∀ e, stmt.where_ = some e → e.Parsed)
    (hup : stmt.where_.all Sql.ExprNode.isUpward = true)
    (hplan : (engine.setup.planner db).planSelect stmt = .ok plan)
    {rows : List DataRow} {schema : OutputSchema}
    (hrun : executeQuery rounds (fromPlan unwritten plan) false db
      = .ok (.materialized rows schema 0) db') :
    Advances past db (engine.event db (.select stmt)
      (if scansIndex plan then .indexed rows else .scanned rows)) db' := by
  obtain ⟨mt, ⟨-, htable, -⟩, hfits⟩ :=
    exists_reaches_of_accepts (analysis_select _ stmt) haccepts hparsed
  rw [event_eq rfl htable]
  have hreads : (fromPlan unwritten plan).Reads := reads_of_planSelect htable hplan
  have hsame := (hreads.executeQuery rounds db).of_ok hrun
  refine .of_sameView h horderly hsame ?_
  cases hindex : scansIndex plan with
  | true => exact .silent
  | false =>
    show Step _ (if stmt.columns.isEmpty ∧ stmt.limit = none then .answer mt.id
      (Sql.selects mt.names stmt.where_) ↑(rows.map DataRow.tokens) else .silent) _
    split_ifs with hall
    · obtain ⟨hcolumns, hlimit⟩ := hall
      obtain ⟨mt', hderef, hplan⟩ := bind_eq_ok.mp hplan
      rw [derefTable_of_getTable htable] at hderef
      obtain rfl := Except.ok.inj hderef
      obtain ⟨chosen, -, hpure⟩ := bind_eq_ok.mp hplan
      have hplan : plan = selectScan (stmt.table.schema engine.setup.defaultSchema) stmt mt
          (chosen.map MetaIndex.id) := by
        have hnodes := @selectNodes_all (stmt.table.schema engine.setup.defaultSchema) stmt mt
          (chosen.map MetaIndex.id) (by simpa using hcolumns)
        rw [hlimit] at hnodes
        exact (Except.ok.inj hpure).symm.trans hnodes
      obtain ⟨tableName, schemaName, id, e, heq⟩ | hroot :=
        selectScan_cases htable (chosen.map MetaIndex.id)
      · rw [hplan, heq] at hindex
        cases hindex
      · rw [← hplan] at hroot
        rw [tokens_of_foundRows (h.executeQuery_scan htable hroot hparsed hfits hup hrun)]
        exact .answer mt.id _
    · exact .silent

end Answers

/-! ## Statements that make or drop something -/

section Definitions

open NodeExecutor EngineSetup SemanticAnalyzer

variable {engine : Engine} {db db' : StdDbInstance} {past : List TableEvent} {plan : Sql.PlanNode}
  {unwritten : Bool} {rounds : ℕ} {result : ExecutionResult (fromPlan unwritten plan)}

/-- A table that is made is not there yet. -/
theorem analyze_createTable {stmt : Sql.CreateTableStatement}
    (h : (engine.setup.analyzer db).Accepts (.createTable stmt))
    (columns : List ColumnDefinition) :
    Statement.analyze db (.createTable stmt.table.tableName.value
      (stmt.table.schema engine.setup.defaultSchema) columns) = true := by
  have hvalid : ((engine.setup.analyzer db).analyzeCreateTable stmt).isValid = true :=
    passes_ok.mp h
  unfold analyzeCreateTable at hvalid
  show (!((engine.setup.analyzer db).getTable stmt.table).isSome) = true
  split_ifs at hvalid with hsome
  · cases hvalid
  · rw [Bool.eq_false_iff.mpr hsome]
    rfl

/-- An index is made of a column that is there, under a name that is not. -/
theorem analyze_createIndex {stmt : Sql.CreateIndexStatement}
    (h : (engine.setup.analyzer db).Accepts (.createIndex stmt)) (isUnique : Bool) :
    Statement.analyze db (.createIndex stmt.indexName.value stmt.table.tableName.value
      stmt.columnName.value (stmt.table.schema engine.setup.defaultSchema) isUnique) = true := by
  have hvalid : ((engine.setup.analyzer db).analyzeCreateIndex stmt).isValid = true :=
    passes_ok.mp h
  unfold analyzeCreateIndex at hvalid
  show ((engine.setup.analyzer db).getTable stmt.table).any _ = true
  cases htable : (engine.setup.analyzer db).getTable stmt.table with
  | none =>
    rw [htable] at hvalid
    cases hvalid
  | some table =>
    simp only [htable] at hvalid
    split_ifs at hvalid with hname hcolumn
    · cases hvalid
    · cases hvalid
    · rw [Option.any_some, Bool.and_eq_true]
      refine ⟨?_, ?_⟩
      · simpa using hname
      · simpa [MetaTable.hasColumn] using hcolumn

/-- An index that is dropped is there. -/
theorem analyze_dropIndex {stmt : Sql.DropIndexStatement}
    (h : (engine.setup.analyzer db).Accepts (.dropIndex stmt)) :
    Statement.analyze db (.dropIndex stmt.indexName.value stmt.table.tableName.value
      (stmt.table.schema engine.setup.defaultSchema)) = true := by
  have hvalid : ((engine.setup.analyzer db).analyzeDropIndex stmt).isValid = true :=
    passes_ok.mp h
  unfold analyzeDropIndex at hvalid
  show ((engine.setup.analyzer db).getTable stmt.table).any _ = true
  cases htable : (engine.setup.analyzer db).getTable stmt.table with
  | none =>
    rw [htable] at hvalid
    cases hvalid
  | some table =>
    simp only [htable] at hvalid
    split_ifs at hvalid with hname
    · exact hname
    · cases hvalid

/-- **A `CREATE TABLE`** touches no rows. -/
theorem advances_createTable (h : Settled db) (horderly : Orderly (possible past) db.rowView)
    {stmt : Sql.CreateTableStatement}
    (haccepts : (engine.setup.analyzer db).Accepts (.createTable stmt))
    (hplan : (engine.setup.planner db).planCreateTable stmt = .ok plan)
    (hrun : executeQuery rounds (fromPlan unwritten plan) false db = .ok result db') :
    Advances past db .silent db' := by
  unfold StdPlanner.planCreateTable at hplan
  cases hschema : (engine.setup.planner db).db.catalog.getSchema
      (stmt.table.schema (engine.setup.planner db).defaultSchema) with
  | none =>
    rw [hschema] at hplan
    cases hplan
  | some schema =>
    rw [hschema] at hplan
    obtain rfl := Except.ok.inj hplan
    have hfound := List.find?_some hschema
    have hname : schema.name = stmt.table.schema engine.setup.defaultSchema :=
      of_decide_eq_true hfound
    obtain ⟨columns, hnext⟩ := next_of_createTable hrun
    rw [hname] at hnext
    exact .of_next h horderly (analyze_createTable haccepts columns)
      (fun db₁ hrunning => untouched_createTable hrunning _ _ _) hnext

end Definitions

/-! ## Every query -/

section Queries

open NodeExecutor EngineSetup SemanticAnalyzer

variable {engine : Engine} {db db' : StdDbInstance} {past : List TableEvent} {query : Bytes}
  {stmt : Sql.Statement} {answer : Answer}

/-- **A query that returns is one step**, if the ids of the rows that it selects to change
them are distinct. -/
theorem Executes.advances (hexecutes : engine.Executes db query stmt answer db') (h : Settled db)
    (horderly : Orderly (possible past) db.rowView) (hup : stmt.isUpward = true)
    (hdistinct : ∀ t, Selects t (engine.event db stmt answer) → DistinctIds db t) :
    Advances past db (engine.event db stmt answer) db' := by
  cases hexecutes with
  | @streamed plan plans streams =>
    cases stmt with
    | select stmt =>
      refine .of_sameView h horderly (.refl db) ?_
      unfold event
      cases (Sql.Statement.select stmt).table.bind (db.findNamed engine.setup.defaultSchema) with
      | none => exact .silent
      | some mt => exact .silent
    | _ => cases streams
  | @materialized plan rounds rows schema _ plans whole returns =>
    have hparsed := fun e he => plans.parsed_condition (e := e) he
    have haccepts := plans.accepts
    cases stmt with
    | select stmt => exact advances_select h horderly haccepts hparsed hup plans.planned returns
    | insert stmt => exact advances_insert h horderly haccepts plans.planned returns _
    | update stmt =>
      refine advances_update h horderly haccepts hparsed hup plans.planned
        (fun mt htable => hdistinct mt.id ?_) returns _
      rw [event_eq rfl htable]
      exact .inl ⟨_, _, rfl⟩
    | delete stmt =>
      refine advances_delete h horderly haccepts hparsed hup plans.planned
        (fun mt htable => hdistinct mt.id ?_) returns _
      rw [event_eq rfl htable]
      exact .inr ⟨_, rfl⟩
    | createTable stmt => exact advances_createTable h horderly haccepts plans.planned returns
    | createIndex stmt =>
      obtain rfl := Except.ok.inj plans.planned
      exact .of_next h horderly (analyze_createIndex haccepts _)
        (fun db₁ hrunning => untouched_createIndex hrunning _ _ _ _ _) (next_of_createIndex returns)
    | dropIndex stmt =>
      obtain rfl := Except.ok.inj plans.planned
      exact .of_next h horderly (analyze_dropIndex haccepts)
        (fun db₁ hrunning => untouched_dropIndex hrunning _ _ _) (next_of_dropIndex returns)
    | createDatabase name =>
      obtain rfl := Except.ok.inj plans.planned
      obtain rfl := executeQuery_createDb returns
      exact .of_sameView h horderly (.refl db') .silent
    | createSchema | alterTable => cases plans.planned

end Queries

end Engine
