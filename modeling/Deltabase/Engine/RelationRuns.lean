import Deltabase.Engine.QuerySteps
import Deltabase.Recovery.CrashedCommits

/-!
# A system of relations

Seen from outside, the engine is a system of relations: whatever queries are executed,
and however often the database is closed or the process killed between them and the
files opened again, the answers and the contents of the tables are those that the
statements mean (`Engine.refines_relations`).

The ids of rows are the limit of that. A table that is updated and then inserted into
has two rows with one id, and an `UPDATE` or a `DELETE` that selects one of them changes
both. Neither a query that throws while it is executed is part of these runs, nor a
recovery that does, nor a condition with `<` or `<=`; the tables have directories of
their own, and the pool of the instance has room (`Housed`).
-/

/-- **The name of a directory** that a statement gives: one component of a path. -/
def Sql.Statement.PlainNames : Statement → Prop
  | .createTable stmt => PlainName stmt.table.tableName.value
  | _ => True

instance : DecidablePred Sql.Statement.PlainNames := fun stmt => by
  cases stmt <;> unfold Sql.Statement.PlainNames <;> infer_instance

namespace Engine

open StdDbInstance RowView Relational

/-- **What happens to a database**, as an event of its tables. -/
inductive Occurs (engine : Engine) (db : StdDbInstance) : TableEvent → StdDbInstance → Prop
  /-- A query is executed. -/
  | query {text : Bytes} {stmt : Sql.Statement} {answer : Answer} {db' : StdDbInstance}
      (executes : engine.Executes db text stmt answer db') (upward : stmt.isUpward = true)
      (plain : stmt.PlainNames) :
      Occurs engine db (engine.event db stmt answer) db'
  /-- A query is refused: it is no statement, or it is not accepted or not planned. -/
  | refused {text : Bytes} (refuses : ∀ stmt plan, ¬ engine.Plans db text stmt plan) :
      Occurs engine db .silent db
  /-- `set_db_instance` makes the default schema. -/
  | createSchema {dbName : Bytes} {db' : StdDbInstance}
      (absent : db.catalog.getSchema engine.setup.defaultSchema = none)
      (made : (Statement.createSchema dbName engine.setup.defaultSchema).next db = .ok () db')
      (plain : StdDbInstance.PlainNames (.createSchema dbName engine.setup.defaultSchema)) :
      Occurs engine db .silent db'
  /-- The instance is closed, and another is opened. -/
  | restart {db' : StdDbInstance} (opens : Opens (db.catalog.flush db.io) db.keptLog db.clock db') :
      Occurs engine db .silent db'
  /-- The process is killed between two queries, and an instance is opened. -/
  | killed {db' : StdDbInstance} (reopens : Reopens db db') : Occurs engine db .silent db'

/-- **What happens while the pool of the instance has room.** -/
structure Housed (engine : Engine) (db : StdDbInstance) (e : TableEvent) (db' : StdDbInstance) :
    Prop where
  occurs : engine.Occurs db e db'
  room : BufferPool.HasRoom db'

/-- **The rows that are selected to be changed have ids of their own**: no table is
updated, then inserted into and after that updated or deleted from. -/
def KeepsIdsApart (events : List TableEvent) : Prop :=
  ∀ t a b c, [a, b, c].Sublist events → a.Updates t → b.Inserts t → ¬ Selects t c

variable {engine : Engine} {db db' : StdDbInstance} {past events : List TableEvent}
  {e : TableEvent}

/-- What is committed is found when the process has been killed. -/
theorem settled_of_reopens (h : Settled db) (hreopens : Reopens db db') :
    Settled db' ∧ Found db.rowView db'.rowView := by
  unfold Reopens at hreopens
  rw [keptLog_eq h.durable] at hreopens
  have hredo : db.rowView.Redoable := fun id p _ hdirty => by
    rw [show db.rowView.dirty id = false from h.clean id] at hdirty
    cases hdirty
  obtain ⟨hrest, hfound⟩ := h.resting.reopen hredo rfl (filesOf_io h.resting) le_rfl hreopens
  have hwal : db'.wal = db.wal := hfound.wal
  exact ⟨⟨hrest, hwal ▸ h.durable, hfound.clean⟩, hfound⟩

/-- A statement only changes its own table. -/
theorem id_of_selects {mt : MetaTable} {stmt : Sql.Statement} {answer : Answer} {t : TableId}
    (h : Selects t (stmt.meaning mt answer)) : mt.id = t := by
  cases stmt with
  | update | delete =>
    obtain ⟨_, _, h⟩ | ⟨_, h⟩ := h
    all_goals cases h
    rfl
  | select stmt =>
    cases answer with
    | scanned rows =>
      change Selects t (if stmt.columns.isEmpty ∧ stmt.limit = none then .answer mt.id
        (Sql.selects mt.names stmt.where_) ↑(rows.map DataRow.tokens) else .silent) at h
      split_ifs at h
      · obtain ⟨_, _, h⟩ | ⟨_, h⟩ := h <;> cases h
      · obtain ⟨_, _, h⟩ | ⟨_, h⟩ := h <;> cases h
    | _ => obtain ⟨_, _, h⟩ | ⟨_, h⟩ := h <;> cases h
  | _ => obtain ⟨_, _, h⟩ | ⟨_, h⟩ := h <;> cases h

/-- The table that a query changes is there. -/
theorem exists_entry_of_selects {stmt : Sql.Statement} {answer : Answer} {t : TableId}
    (h : Selects t (engine.event db stmt answer)) :
    ∃ mt : MetaTable, mt.id = t ∧ db.rowView.entry mt.id = some mt := by
  unfold event at h
  cases htable : stmt.table.bind (db.findNamed engine.setup.defaultSchema) with
  | none =>
    rw [htable] at h
    obtain ⟨_, _, h⟩ | ⟨_, h⟩ := h <;> cases h
  | some mt =>
    rw [htable] at h
    obtain ⟨table, hnamed, hfound⟩ := Option.bind_eq_some_iff.mp htable
    have hlook : LooksUp db _ _ mt := findTable_eq_some_iff.mp hfound
    exact ⟨mt, id_of_selects h, hlook.entry⟩

/-- **The step.** Whatever happens is a step of the relations. -/
theorem Occurs.advances (hoccurs : engine.Occurs db e db') (h : Settled db)
    (horderly : Orderly (possible past) db.rowView)
    (hapart : ∀ t a b, [a, b].Sublist past → a.Updates t → b.Inserts t → ¬ Selects t e) :
    Advances past db e db' := by
  cases hoccurs with
  | query executes upward =>
    refine executes.advances h horderly upward fun t hselects => ?_
    obtain ⟨mt, rfl, hentry⟩ := exists_entry_of_selects hselects
    exact nodup_of_orderly horderly hentry fun a b hsub hupdates hinserts =>
      hapart mt.id a b hsub hupdates hinserts hselects
  | refused => exact .of_sameView h horderly (.refl db) .silent
  | @createSchema dbName _ absent made =>
    have hanalyze : Statement.analyze db (.createSchema dbName engine.setup.defaultSchema) = true :=
      Option.isNone_iff_eq_none.mpr absent
    exact .of_next h horderly hanalyze
      (fun db₁ hrunning => untouched_createSchema hrunning _ _) made
  | restart opens =>
    obtain ⟨hsettled, hfound⟩ := h.reopen opens
    exact .of_untouched horderly hsettled (.of_entries hfound.entry hfound.rows_perm)
  | killed reopens =>
    obtain ⟨hsettled, hfound⟩ := settled_of_reopens h reopens
    exact .of_untouched horderly hsettled (.of_entries hfound.entry hfound.rows_perm)

/-- **The run**, after some past. -/
theorem run_step (hrun : Run engine.Housed db events db') (h : Settled db)
    (horderly : Orderly (possible past) db.rowView) (hapart : KeepsIdsApart (past ++ events)) :
    Run Step db.rowView.contents events db'.rowView.contents := by
  induction hrun generalizing past with
  | nil => exact .nil _
  | @cons db db₁ db' e events hhoused hrest ih =>
    have hadvances : Advances past db e db₁ := by
      refine hhoused.occurs.advances h horderly fun t a b hsub => hapart t a b e ?_
      exact hsub.append (List.singleton_sublist.mpr List.mem_cons_self)
    refine .cons hadvances.step (ih hadvances.settled hadvances.orderly ?_)
    rw [List.append_assoc]
    exact hapart

/-- **The engine is a system of relations.** Every run, of queries and restarts, is one of
the relations that the tables are, as long as no table is updated, then inserted into
and after that updated or deleted from. -/
theorem refines_relations {generator : UUIDGenerator}
    (hrun : Run engine.Housed { generator } events db) (hapart : KeepsIdsApart events) :
    Run Step (fun _ => 0) events db.rowView.contents := by
  have horderly : Orderly (possible []) ({ generator } : StdDbInstance).rowView :=
    ⟨fun _ _ hmt => (by cases hmt), fun _ _ hmt => (by cases hmt)⟩
  exact run_step hrun (settled_new generator) horderly hapart

/-! ## A session -/

/-- Whether an event inserts tuples. -/
def inserts : TableEvent → Bool
  | .change _ (.insert _) => true
  | _ => false

/-- Whether an event updates tuples. -/
def updates : TableEvent → Bool
  | .change _ (.update _ _) => true
  | _ => false

/-- Ids are kept apart when nothing is inserted after an update. -/
theorem keepsIdsApart_of_pairwise
    (h : events.Pairwise fun a b => (updates a && inserts b) = false) : KeepsIdsApart events := by
  rintro t a b c hsub ⟨selects, replace, rfl⟩ ⟨tuples, rfl⟩ -
  have hpair := h.sublist hsub
  rw [List.pairwise_cons] at hpair
  exact absurd (hpair.1 _ List.mem_cons_self) (by simp [updates, inserts])

/-- The state after a query. -/
def after (engine : Engine) (query : Bytes) (db : StdDbInstance) : StdDbInstance :=
  match engine.execute 60 query db with
  | some (_, _, db') => db'
  | none => db

/-- The event that it is. -/
def eventOf (engine : Engine) (query : Bytes) (db : StdDbInstance) : TableEvent :=
  match engine.execute 60 query db with
  | some (stmt, answer, _) => engine.event db stmt answer
  | none => .silent

theorem housed_of_execute {query : Bytes} (h : ((engine.execute 60 query db).any fun r =>
      r.1.isUpward && decide r.1.PlainNames) = true)
    (hroom : BufferPool.HasRoom (engine.after query db)) :
    engine.Housed db (engine.eventOf query db) (engine.after query db) := by
  refine ⟨?_, hroom⟩
  unfold eventOf after
  cases hrun : engine.execute 60 query db with
  | none =>
    rw [hrun] at h
    cases h
  | some r =>
    rw [hrun, Option.any_some, Bool.and_eq_true] at h
    exact .query (executes_of_execute hrun) h.1 (of_decide_eq_true h.2)

/-- An engine. -/
def plainEngine : Engine where
  setup := plainSetup
  streams _ _ := false
  unwritten := false

/-- A table is made, -/
def session₁ : StdDbInstance := plainEngine.after (text "CREATE TABLE t (x INTEGER)") secondSession

/-- gets a row, -/
def session₂ : StdDbInstance := plainEngine.after (text "INSERT INTO t (x) VALUES (1)") session₁

/-- which is updated -/
def session₃ : StdDbInstance := plainEngine.after (text "UPDATE t SET x = 3 WHERE x == 1") session₂

/-- and selected -/
def session₄ : StdDbInstance := plainEngine.after (text "SELECT * FROM t") session₃

/-- and deleted. -/
def session₅ : StdDbInstance := plainEngine.after (text "DELETE FROM t WHERE x == 3") session₄

/-- The events of the session. -/
def sessionEvents : List TableEvent :=
  [.silent, .silent, plainEngine.eventOf (text "CREATE TABLE t (x INTEGER)") secondSession,
    plainEngine.eventOf (text "INSERT INTO t (x) VALUES (1)") session₁,
    plainEngine.eventOf (text "UPDATE t SET x = 3 WHERE x == 1") session₂,
    plainEngine.eventOf (text "SELECT * FROM t") session₃,
    plainEngine.eventOf (text "DELETE FROM t WHERE x == 3") session₄]

/-- The session is one of the relations. -/
theorem refines_relations_session :
    Run Step (fun _ => 0) sessionEvents session₅.rowView.contents := by
  have hschema : plainEngine.Housed {} .silent schemaSession := by
    refine ⟨?_, by decide +kernel⟩
    cases Statement.occurs_of_returns (show createSchema₁.returns {} = true by
      decide +kernel) with
    | execute hanalyze hnext => exact .createSchema (by rfl) hnext plainNames_createSchema₁
  have hrestart : plainEngine.Housed schemaSession .silent secondSession := by
    refine ⟨?_, by decide +kernel⟩
    cases occurs_secondSession with
    | restart opens => exact .restart opens
  have hrun : Run plainEngine.Housed {} sessionEvents session₅ := by
    refine .cons hschema (.cons hrestart (.cons (housed_of_execute ?_ ?_)
      (.cons (housed_of_execute ?_ ?_) (.cons (housed_of_execute ?_ ?_)
        (.cons (housed_of_execute ?_ ?_) (.single (housed_of_execute ?_ ?_)))))))
    all_goals decide +kernel
  exact refines_relations hrun (keepsIdsApart_of_pairwise (by decide +kernel))

end Engine
