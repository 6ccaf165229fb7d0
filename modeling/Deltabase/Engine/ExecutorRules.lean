import Deltabase.Engine.ScannedRows

/-!
# What executors that write do

A query that writes ends in a transaction: its child is opened, a transaction
begins, the executor does its work in it and commits. What it does to the tables is
decided by the work alone, and the rules here say what has to be shown of it
(`Settled.ensures_changing`, `Settled.ensures_defining`).

An `INSERT` is the statement whose rows are its `VALUES`; an executor that makes or
drops something is the statement it is named after.
-/

namespace StdDbInstance

open Transaction RowView

variable {α : Type} {db db' : StdDbInstance}

/-- What is seen of the rows is the same, so the instance is settled. -/
theorem Settled.congr (h : Settled db) (hsame : SameRows db db') : Settled db' where
  resting := hsame.rowView ▸ h.resting
  durable := hsame.wal ▸ h.durable
  clean := fun id => (congrFun hsame.dirty id).trans (h.clean id)

/-- **A transaction has begun**: the tables are as they were. -/
structure Began (db db' : StdDbInstance) : Prop where
  running : Running Set.univ db'.rowView
  steady : Steady db.rowView db'.rowView
  catalog : db'.catalog = db.catalog
  page : db'.page = db.page

theorem Settled.ensures_begin (h : Settled db) :
    Ensures (makeTransaction >>= fun _ => begin) db (fun _ db' => Began db db')
      fun _ _ => False := by
  have hpage : Ensures (makeTransaction >>= fun _ => begin) db
      (fun _ db' => db'.page = db.page) fun _ _ => True := by
    unfold makeTransaction begin
    rw [ensures_bind, ensures_bind, ensures_make, ensures_modify, ensures_bind, ensures_get]
    show Ensures (modify _ >>= fun _ => modify _) _ _ _
    rw [ensures_bind, ensures_modify, ensures_modify]
    rfl
  have hrunning := running_begin h.resting
  refine ensures_iff.mpr ⟨fun _ db₁ hrun => ?_, fun _ _ herror => hrunning.of_error herror⟩
  obtain ⟨hrunning₁, hcatalog⟩ := hrunning.of_ok hrun
  exact ⟨hrunning₁, (steady_begin db).of_ok hrun, hcatalog, hpage.of_ok hrun⟩

/-- **The rule for a transaction** that is committed: what its body sees to, and idle
steps leave alone, holds afterwards. -/
theorem Settled.ensures_transaction {Q : RowView → Prop} (h : Settled db)
    (hidle : ∀ v v', Steady v v' → Q v → Q v') {body : Prog α}
    (hbody : ∀ db₁, Began db db₁ → Ensures body db₁
      (fun _ db₂ => Running Set.univ db₂.rowView ∧ Q db₂.rowView) fun _ _ => True) :
    Ensures (do makeTransaction; begin; let a ← body; commit; pure a) db
      (fun _ db' => Settled db' ∧ Q db'.rowView) fun _ _ => True := by
  have hbegin := h.ensures_begin
  rw [ensures_bind] at hbegin ⊢
  refine hbegin.mono (fun _ db₁ hbegin₁ => ?_) fun _ _ _ => trivial
  rw [ensures_bind]
  refine hbegin₁.mono (fun _ db₂ hbegan => ?_) fun _ _ _ => trivial
  rw [ensures_bind]
  refine (hbody db₂ hbegan).mono_ok fun a db₃ ⟨hrunning, hQ⟩ => ?_
  rw [ensures_bind]
  have hsettled := settled_commit hrunning
  refine ensures_iff.mpr ⟨fun _ db₄ hcommit => ?_, fun _ _ _ => trivial⟩
  exact ⟨hsettled.of_ok hcommit, hidle _ _ ((steady_commit db₃).of_ok hcommit) hQ⟩

end StdDbInstance

/-! ## Queries that write -/

namespace NodeExecutor

open StdDbInstance Transaction RowView Engine

variable {db db' : StdDbInstance} {rounds : ℕ}

/-- **A query that changes rows** opens the child and does its work in a transaction. -/
theorem executeQuery_changing {name : String} {child : NodeExecutor}
    {body : ℕ → child.State → Prog (ℕ × child.State)}
    {result : ExecutionResult (changing name child body)}
    (h : executeQuery rounds (changing name child body) false db = .ok result db') :
    ∃ s db₁ r, child.opened child.init db = .ok s db₁
      ∧ (do makeTransaction; begin; let r ← body rounds s; commit; pure r) db₁ = .ok r db' := by
  obtain ⟨state, db₁, hopened, h⟩ := run_bind_eq_ok.mp h
  obtain ⟨s, db₁', hchild, hstate⟩ := run_bind_eq_ok.mp hopened
  cases hstate
  obtain ⟨⟨rows, state'⟩, db₂, hdrain, h⟩ := run_bind_eq_ok.mp h
  cases h
  cases rounds with
  | zero => cases hdrain
  | succ rounds =>
    obtain ⟨⟨found, row, state''⟩, db₃, hnext, hrest⟩ := run_bind_eq_ok.mp hdrain
    obtain ⟨_, db₄, hmake, hnext⟩ := run_bind_eq_ok.mp hnext
    obtain ⟨_, db₅, hbegin, hnext⟩ := run_bind_eq_ok.mp hnext
    obtain ⟨r, db₆, hbody, hnext⟩ := run_bind_eq_ok.mp hnext
    obtain ⟨_, db₇, hcommit, hnext⟩ := run_bind_eq_ok.mp hnext
    cases hnext
    cases hrest
    exact ⟨s, db₁, r, hchild, run_bind_eq_ok.mpr ⟨_, db₄, hmake, run_bind_eq_ok.mpr
      ⟨_, db₅, hbegin, run_bind_eq_ok.mpr ⟨r, db₆, hbody, run_bind_eq_ok.mpr
        ⟨_, _, hcommit, rfl⟩⟩⟩⟩⟩

/-- **A query that makes or drops something** does it in a transaction. -/
theorem executeQuery_defining {body : Prog Unit} {result : ExecutionResult (defining body)}
    (h : executeQuery rounds (defining body) false db = .ok result db') :
    (do makeTransaction; begin; body; commit) db = .ok () db' := by
  obtain ⟨state, db₁, hopened, h⟩ := run_bind_eq_ok.mp h
  cases hopened
  obtain ⟨⟨rows, state'⟩, db₂, hdrain, h⟩ := run_bind_eq_ok.mp h
  cases h
  cases rounds with
  | zero => cases hdrain
  | succ rounds =>
    obtain ⟨⟨found, row, state''⟩, db₃, hnext, hrest⟩ := run_bind_eq_ok.mp hdrain
    obtain ⟨_, db₄, hmake, hnext⟩ := run_bind_eq_ok.mp hnext
    obtain ⟨_, db₅, hbegin, hnext⟩ := run_bind_eq_ok.mp hnext
    obtain ⟨_, db₆, hbody, hnext⟩ := run_bind_eq_ok.mp hnext
    obtain ⟨_, db₇, hcommit, hnext⟩ := run_bind_eq_ok.mp hnext
    cases hnext
    cases hrest
    exact run_bind_eq_ok.mpr ⟨_, db₄, hmake, run_bind_eq_ok.mpr ⟨_, db₅, hbegin,
      run_bind_eq_ok.mpr ⟨_, db₆, hbody, hcommit⟩⟩⟩

/-- A `CREATE DATABASE` does nothing to this one. -/
theorem executeQuery_createDb {result : ExecutionResult createDb}
    (h : executeQuery rounds createDb false db = .ok result db') : db' = db := by
  obtain ⟨state, db₁, hopened, h⟩ := run_bind_eq_ok.mp h
  cases hopened
  obtain ⟨⟨rows, state'⟩, db₂, hdrain, h⟩ := run_bind_eq_ok.mp h
  cases h
  cases rounds with
  | zero => cases hdrain
  | succ rounds =>
    cases hdrain
    rfl

/-- The loop of an `INSERT` over `VALUES` stores one row after another. -/
theorem forM_of_insertLoop {tableName schemaName : Bytes} {cols : Option (List Bytes)}
    {rows : List (List DataToken)} {n idx : ℕ} {r : ℕ × ℕ}
    (h : @insertLoop ℕ ((values rows).next n) tableName schemaName cols rounds idx db
      = .ok r db') :
    (rows.drop idx).forM (insertRow tableName schemaName cols) db = .ok () db' := by
  induction rounds generalizing idx db r with
  | zero => cases h
  | succ rounds ih =>
    obtain ⟨⟨found, row, idx'⟩, db₁, hnext, h⟩ := run_bind_eq_ok.mp h
    unfold values at hnext
    cases hrow : rows[idx]? with
    | none =>
      simp only [hrow] at hnext
      cases hnext
      cases h
      rw [List.drop_eq_nil_iff.mpr (List.getElem?_eq_none_iff.mp hrow)]
      rfl
    | some tokens =>
      simp only [hrow] at hnext
      cases hnext
      obtain ⟨_, db₂, hinsert, h⟩ := run_bind_eq_ok.mp h
      obtain ⟨⟨count, idx''⟩, db₃, hloop, h⟩ := run_bind_eq_ok.mp h
      cases h
      obtain ⟨hlt, hget⟩ := List.getElem?_eq_some_iff.mp hrow
      rw [List.drop_eq_getElem_cons hlt, hget]
      exact run_bind_eq_ok.mpr ⟨(), db₂, hinsert, ih hloop⟩

/-- **An `INSERT`** is the statement whose rows are its `VALUES`. -/
theorem next_of_insert {tableName schemaName : Bytes} {cols : Option (List Bytes)}
    {rows : List (List DataToken)}
    {result : ExecutionResult (insert tableName schemaName cols (values rows))}
    (h : executeQuery rounds (insert tableName schemaName cols (values rows)) false db
      = .ok result db') :
    (Statement.insert tableName schemaName cols rows).next db = .ok () db' := by
  obtain ⟨s, db₁, r, hopened, h⟩ := executeQuery_changing h
  cases hopened
  obtain ⟨_, db₂, hmake, h⟩ := run_bind_eq_ok.mp h
  obtain ⟨_, db₃, hbegin, h⟩ := run_bind_eq_ok.mp h
  obtain ⟨r', db₄, hloop, h⟩ := run_bind_eq_ok.mp h
  obtain ⟨_, db₅, hcommit, h⟩ := run_bind_eq_ok.mp h
  cases h
  exact run_bind_eq_ok.mpr ⟨_, db₂, hmake, run_bind_eq_ok.mpr ⟨_, db₃, hbegin,
    run_bind_eq_ok.mpr ⟨_, db₄, forM_of_insertLoop hloop, hcommit⟩⟩⟩

/-- **A `CREATE INDEX`** is the statement. -/
theorem next_of_createIndex {indexName tableName columnName schemaName : Bytes} {isUnique : Bool}
    {result : ExecutionResult (createIndex indexName tableName columnName schemaName isUnique)}
    (h : executeQuery rounds (createIndex indexName tableName columnName schemaName isUnique) false
      db = .ok result db') :
    (Statement.createIndex indexName tableName columnName schemaName isUnique).next db
      = .ok () db' := executeQuery_defining h

/-- **A `DROP INDEX`** is the statement. -/
theorem next_of_dropIndex {indexName tableName schemaName : Bytes}
    {result : ExecutionResult (dropIndex indexName tableName schemaName)}
    (h : executeQuery rounds (dropIndex indexName tableName schemaName) false db
      = .ok result db') :
    (Statement.dropIndex indexName tableName schemaName).next db = .ok () db' :=
  executeQuery_defining h

/-- **A `CREATE TABLE`** is the statement with its columns converted. -/
theorem next_of_createTable {tableName schemaName : Bytes} {columns : List Sql.ColumnDefinition}
    {result : ExecutionResult (createTable tableName schemaName columns)}
    (h : executeQuery rounds (createTable tableName schemaName columns) false db = .ok result db') :
    ∃ columns', (Statement.createTable tableName schemaName columns').next db = .ok () db' := by
  have h := executeQuery_defining h
  obtain ⟨_, db₁, hmake, h⟩ := run_bind_eq_ok.mp h
  obtain ⟨_, db₂, hbegin, h⟩ := run_bind_eq_ok.mp h
  obtain ⟨_, db₃, hbody, hcommit⟩ := run_bind_eq_ok.mp h
  obtain ⟨columns', db₄, hcolumns, htable⟩ := run_bind_eq_ok.mp hbody
  obtain ⟨-, rfl⟩ := run_liftExcept_eq_ok.mp hcolumns
  exact ⟨columns', run_bind_eq_ok.mpr ⟨_, db₁, hmake, run_bind_eq_ok.mpr ⟨_, db₄, hbegin,
    run_bind_eq_ok.mpr ⟨_, db₃, htable, hcommit⟩⟩⟩⟩

end NodeExecutor

/-! ## Rules -/

namespace StdDbInstance

open Transaction RowView Engine NodeExecutor

variable {Q : RowView → Prop} {db db' : StdDbInstance} {rounds : ℕ}

/-- **The rule for an executor that changes rows**, whose child only reads. -/
theorem Settled.changed (h : Settled db) (hidle : ∀ v v', Steady v v' → Q v → Q v')
    {name : String} {child : NodeExecutor} (hchild : child.Reads)
    {body : ℕ → child.State → Prog (ℕ × child.State)}
    (hbody : ∀ s db₁ db₂, child.opened child.init db = .ok s db₁ → SameView db db₁ →
      Began db₁ db₂ → Ensures (body rounds s) db₂
        (fun _ db₃ => Running Set.univ db₃.rowView ∧ Q db₃.rowView) fun _ _ => True)
    {result : ExecutionResult (changing name child body)}
    (hrun : executeQuery rounds (changing name child body) false db = .ok result db') :
    Settled db' ∧ Q db'.rowView := by
  obtain ⟨s, db₁, r, hopened, hrun⟩ := executeQuery_changing hrun
  have hsame : SameView db db₁ := (hchild.opened child.init db).of_ok hopened
  exact ((h.congr hsame.toSameRows).ensures_transaction hidle
    fun db₂ hbegan => hbody s db₁ db₂ hopened hsame hbegan).of_ok hrun

/-- **The rule for a statement.** -/
theorem Settled.executed (h : Settled db) (hidle : ∀ v v', Steady v v' → Q v → Q v')
    {st : Statement} (hanalyze : st.analyze db = true)
    (hbody : ∀ db₁, Began db db₁ →
      Ensures st.body db₁ (fun _ db₂ => Q db₂.rowView) fun _ _ => True)
    (hrun : st.next db = .ok () db') : Settled db' ∧ Q db'.rowView := by
  refine ⟨(settled_next h hanalyze).of_ok hrun, ?_⟩
  obtain ⟨_, db₁, hmake, hrun⟩ := run_bind_eq_ok.mp hrun
  obtain ⟨_, db₂, hbegin, hrun⟩ := run_bind_eq_ok.mp hrun
  obtain ⟨_, db₃, hst, hcommit⟩ := run_bind_eq_ok.mp hrun
  have hbegan : Began db db₂ :=
    h.ensures_begin.of_ok (run_bind_eq_ok.mpr ⟨_, db₁, hmake, hbegin⟩)
  exact hidle _ _ ((steady_commit db₃).of_ok hcommit) ((hbody db₂ hbegan).of_ok hst)

end StdDbInstance
