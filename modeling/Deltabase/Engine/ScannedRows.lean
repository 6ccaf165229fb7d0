import Deltabase.Engine.QueryExecution
import Deltabase.Executor.StreamedResult
import Deltabase.Recovery.CleanRestarts

/-!
# The rows an executor is given

The child of an executor that changes rows is a scan, or a filter over one. Asked
for rows until there is none, it hands out the rows of its table that are not
obsolete and satisfy the condition, each once (`ensures_collect`, `ensures_drain`),
and nothing changes but what the pool has loaded.

That is shown of every `next` that passes over some rows before the cursor and
hands out the one behind them (`Scans`). The executors of a `SELECT` only read
(`OnlyReads`), whatever they make of the rows.
-/

open StdDbInstance

/-! ## Rows that are let through -/

/-- **The rows that a condition lets through**, when it has a value on all of
them. -/
def Yields (keep : DataRow → Except Exn Bool) (rows picked : List DataRow) : Prop :=
  (∀ row ∈ rows, ∃ verdict, keep row = .ok verdict)
    ∧ picked = rows.filter fun row => (keep row).toOption = some true

namespace Yields

variable {keep : DataRow → Except Exn Bool} {skipped rows picked : List DataRow} {row : DataRow}

theorem nil : Yields keep [] [] := ⟨fun _ h => absurd h List.not_mem_nil, rfl⟩

/-- A row that is let through. -/
theorem pick (hrow : keep row = .ok true) (h : Yields keep rows picked) :
    Yields keep (row :: rows) (row :: picked) := by
  refine ⟨List.forall_mem_cons.mpr ⟨⟨true, hrow⟩, h.1⟩, ?_⟩
  rw [List.filter_cons_of_pos (by rw [hrow]; rfl), ← h.2]

/-- A row that is passed over. -/
theorem skip (hrow : keep row = .ok false) (h : Yields keep rows picked) :
    Yields keep (row :: rows) picked := by
  refine ⟨List.forall_mem_cons.mpr ⟨⟨false, hrow⟩, h.1⟩, ?_⟩
  rw [List.filter_cons_of_neg (by rw [hrow]; decide)]
  exact h.2

theorem append {rows' picked' : List DataRow} (h : Yields keep rows picked)
    (h' : Yields keep rows' picked') : Yields keep (rows ++ rows') (picked ++ picked') := by
  refine ⟨fun row hrow => (List.mem_append.mp hrow).elim (h.1 row) (h'.1 row), ?_⟩
  rw [List.filter_append, ← h.2, ← h'.2]

/-- Without a condition all rows are let through. -/
theorem eq_of_all (h : Yields (fun _ => .ok true) rows picked) : picked = rows := by
  rw [h.2]
  exact List.filter_eq_self.mpr fun _ _ => rfl

end Yields

/-! ## Reading -/

/-- **A program that only reads** when it ends in a value. -/
def OnlyReads {α : Type} (m : Prog α) : Prop :=
  ∀ db, Ensures m db (fun _ db' => SameView db db') fun _ _ => True

namespace OnlyReads

variable {α β : Type} {m : Prog α}

theorem pure (a : α) : OnlyReads (Pure.pure a : Prog α) := fun db => .refl db

theorem throw (e : Exn) : OnlyReads (MonadExcept.throw e : Prog α) := fun _ => trivial

theorem ofExcept (x : Except Exn α) : OnlyReads (liftExcept x : Prog α) := fun db => by
  rw [ensures_liftExcept]
  exact ⟨fun _ _ => .refl db, fun _ _ => trivial⟩

theorem bind {f : α → Prog β} (h : OnlyReads m) (hf : ∀ a, OnlyReads (f a)) :
    OnlyReads (m >>= f) := fun db => by
  rw [ensures_bind]
  exact (h db).mono (fun a db₁ hsame => (hf a db₁).mono_ok fun _ _ hsame' => hsame.trans hsame')
    fun _ _ h => h

/-- What looks a table up first only reads when it does so once the table is there. -/
theorem of_looksUp {tableName schemaName : Bytes} {f : MetaTable → Prog α}
    (h : ∀ db mt, LooksUp db tableName schemaName mt →
      ∃ x, ReadsAs (getTable tableName schemaName >>= f) db x) :
    OnlyReads (getTable tableName schemaName >>= f) := fun db => by
  rw [ensures_iff]
  refine ⟨fun a db' hrun => ?_, fun _ _ _ => trivial⟩
  obtain ⟨mt, hlook, -⟩ := NodeExecutor.exists_looksUp hrun
  obtain ⟨x, hreads⟩ := h db mt hlook
  exact (hreads.of_ok hrun).2

end OnlyReads

/-! ## Executors that only read -/

namespace NodeExecutor

variable {tableName schemaName : Bytes}

/-- **An executor that only reads.** -/
structure Reads (executor : NodeExecutor) : Prop where
  opened : ∀ state, OnlyReads (executor.opened state)
  next : ∀ rounds state out, OnlyReads (executor.next rounds state out)
  outputSchema : ∀ state, OnlyReads (executor.outputSchema state)

theorem onlyReads_tableSchema : OnlyReads (tableSchema tableName schemaName) :=
  .of_looksUp fun _ _ hlook => ⟨_, readsAs_tableSchema hlook⟩

theorem reads_seqScan : Reads (seqScan tableName schemaName) where
  opened _ := by
    refine .bind ?_ fun _ => .pure _
    exact .of_looksUp fun _ _ hlook => ⟨_, readsAs_seqScanBegin hlook⟩
  next rounds cursor out := by
    show OnlyReads (seqScanNext rounds cursor out)
    unfold seqScanNext
    split_ifs
    · exact fun db => (ensures_seqScanNextLoop_found rounds cursor out db).mono_ok fun _ _ h => h.1
    · exact .pure _
  outputSchema _ := onlyReads_tableSchema

theorem reads_indexScan (indexId : IndexId) (condition : Sql.ExprNode) :
    Reads (indexScan tableName schemaName indexId condition) where
  opened state := by
    refine .bind ?_ fun _ => .pure _
    exact .of_looksUp fun _ _ hlook => ⟨_, readsAs_indexScan hlook indexId condition⟩
  next _ state out := by
    unfold indexScan
    dsimp only
    split
    · exact .pure _
    · exact .pure _
  outputSchema _ := onlyReads_tableSchema

theorem reads_filter {child : NodeExecutor} (h : Reads child) (table : MetaTable)
    (condition : Sql.ExprNode) : Reads (filter table condition child) where
  opened := h.opened
  next rounds state out := by
    show OnlyReads (filterLoop (child.next rounds) table condition rounds state out)
    have hloop : ∀ rounds' state, OnlyReads
        (filterLoop (child.next rounds) table condition rounds' state out) := by
      intro rounds'
      induction rounds' with
      | zero => exact fun _ => .throw _
      | succ rounds' ih =>
        refine fun state => .bind (h.next rounds state .blank) fun r => ?_
        obtain ⟨found, row, state'⟩ := r
        cases found with
        | false => exact .pure _
        | true =>
          refine .bind (.ofExcept _) fun satisfied => ?_
          cases satisfied with
          | false => exact ih state'
          | true => exact .pure _
    exact hloop rounds state
  outputSchema := h.outputSchema

theorem reads_projection {child : NodeExecutor} (h : Reads child) (table : MetaTable)
    (columns : List Bytes) : Reads (projection table columns child) where
  opened state := .bind (h.opened state.2) fun _ => .bind (.ofExcept _) fun _ => .pure _
  next rounds state out := by
    refine .bind (h.next rounds state.2 .blank) fun r => ?_
    obtain ⟨found, src, childState⟩ := r
    cases found with
    | false => exact .pure _
    | true => exact .bind (.ofExcept _) fun _ => .pure _
  outputSchema _ := .pure _

theorem reads_limit {child : NodeExecutor} (h : Reads child) (n : ℕ) : Reads (limit n child) where
  opened state := .bind (h.opened state.2) fun _ => .pure _
  next rounds state out := by
    unfold limit
    dsimp only
    split
    · exact .pure _
    · exact .bind (h.next rounds state.2 out) fun _ => .pure _
  outputSchema state := h.outputSchema state.2

/-- **Asking an executor that only reads** for all its rows only reads. -/
theorem Reads.drain {executor : NodeExecutor} (h : Reads executor) (n rounds : ℕ)
    (state : executor.State) (row : DataRow) :
    OnlyReads (drain (executor.next n) rounds state row) := by
  induction rounds generalizing state row with
  | zero => exact .throw _
  | succ rounds ih =>
    refine .bind (h.next n state row) fun r => ?_
    obtain ⟨found, row', state'⟩ := r
    cases found with
    | false => exact .pure _
    | true => exact .bind (ih state' row') fun _ => .pure _

/-- **A query whose executor only reads** only reads. -/
theorem Reads.executeQuery {executor : NodeExecutor} (h : Reads executor) (rounds : ℕ) :
    OnlyReads (Engine.executeQuery rounds executor false) := by
  unfold Engine.executeQuery
  refine .bind (h.opened _) fun state => .bind (h.drain rounds rounds state .blank) fun r => ?_
  exact .bind (h.outputSchema r.2) fun _ => .pure _

/-! ## Scans -/

/-- **A `next` over a cursor that hands out the rows that are let through**: it
passes over rows that are not, and stops behind the first that is. -/
def Scans (keep : DataRow → Except Exn Bool)
    (next : ScanCursor → DataRow → Prog (Bool × DataRow × ScanCursor)) : Prop :=
  ∀ cursor out db, cursor.initialized = true → Ensures (next cursor out) db
    (fun r db' => SameView db db' ∧ r.2.2.initialized = true
      ∧ (r.1 = false → ∃ n rows, cursorRows db.page n cursor = some rows ∧ Yields keep rows [])
      ∧ (r.1 = true → ∀ n rows, cursorRows db.page n r.2.2 = some rows →
        ∃ n' skipped, cursorRows db.page n' cursor = some (skipped ++ r.2.1 :: rows)
          ∧ Yields keep skipped [] ∧ keep r.2.1 = .ok true))
    fun _ _ => True

theorem scans_seqScan (n : ℕ) : Scans (fun _ => .ok true) (seqScanNext n) := by
  intro cursor out db hinit
  unfold seqScanNext
  rw [if_pos hinit]
  refine (ensures_seqScanNextLoop_found n cursor out db).mono_ok
    fun r db' ⟨hsame, hinit', hnone, hsome⟩ => ⟨hsame, hinit'.trans hinit, fun hr => ?_,
      fun hr m rows hrows => ?_⟩
  · obtain ⟨m, hm⟩ := hnone hr
    exact ⟨m, [], hm, .nil⟩
  · obtain ⟨m', hm'⟩ := hsome hr m rows hrows
    exact ⟨m', [], hm', .nil, rfl⟩

theorem scans_filter (table : MetaTable) (condition : Sql.ExprNode) (n rounds : ℕ) :
    Scans (fun row => Evaluator.evaluate table row condition)
      (filterLoop (seqScanNext n) table condition rounds) := by
  induction rounds with
  | zero => exact fun _ _ _ _ => trivial
  | succ rounds ih =>
    intro cursor out db hinit
    unfold filterLoop
    rw [ensures_bind]
    refine (scans_seqScan n cursor .blank db hinit).mono (fun r db₁ hscanned => ?_)
      fun _ _ _ => trivial
    obtain ⟨found, row, cursor'⟩ := r
    obtain ⟨hsame, hinit', hnone, hsome⟩ := hscanned
    cases found with
    | false =>
      refine ⟨hsame, hinit', fun _ => ?_, fun h => Bool.noConfusion h⟩
      obtain ⟨m, rows, hm, hyields⟩ := hnone rfl
      obtain rfl := hyields.eq_of_all
      exact ⟨m, [], hm, .nil⟩
    | true =>
      have hbefore : ∀ m rows, cursorRows db.page m cursor' = some rows →
          ∃ m', cursorRows db.page m' cursor = some (row :: rows) := by
        intro m rows hrows
        obtain ⟨m', skipped, hm', hskipped, -⟩ := hsome rfl m rows hrows
        obtain rfl := hskipped.eq_of_all
        exact ⟨m', hm'⟩
      show Ensures (liftExcept _ >>= _) db₁ _ _
      rw [ensures_bind, ensures_liftExcept]
      refine ⟨fun satisfied hsatisfied => ?_, fun _ _ => trivial⟩
      cases satisfied with
      | true =>
        refine ⟨hsame, hinit', fun h => Bool.noConfusion h, fun _ m rows hrows => ?_⟩
        obtain ⟨m', hm'⟩ := hbefore m rows hrows
        exact ⟨m', [], hm', .nil, hsatisfied⟩
      | false =>
        refine (ih cursor' out db₁ hinit').mono_ok fun r db₂ hfound => ?_
        obtain ⟨hsame₂, hinit₂, hnone₂, hsome₂⟩ := hfound
        rw [hsame.page] at hnone₂ hsome₂
        refine ⟨hsame.trans hsame₂, hinit₂, fun hr => ?_, fun hr m rows hrows => ?_⟩
        · obtain ⟨m, rows, hm, hyields⟩ := hnone₂ hr
          obtain ⟨m', hm'⟩ := hbefore m rows hm
          exact ⟨m', _, hm', hyields.skip hsatisfied⟩
        · obtain ⟨m', skipped, hm', hskipped, hkept⟩ := hsome₂ hr m rows hrows
          obtain ⟨m'', hm''⟩ := hbefore m' _ hm'
          exact ⟨m'', row :: skipped, hm'', hskipped.skip hsatisfied, hkept⟩

section Asking

variable {keep : DataRow → Except Exn Bool}
  {next : ScanCursor → DataRow → Prog (Bool × DataRow × ScanCursor)}

/-- **What has been handed out when there is no more**: what is let through of the
rows before the cursor. -/
def Collected (keep : DataRow → Except Exn Bool) (db : StdDbInstance) (cursor : ScanCursor)
    (picked : List DataRow) (db' : StdDbInstance) : Prop :=
  SameView db db' ∧ ∃ n rows, cursorRows db.page n cursor = some rows ∧ Yields keep rows picked

/-- One row more. -/
theorem Collected.cons {db db₁ db₂ : StdDbInstance} {cursor cursor' : ScanCursor} {row : DataRow}
    {picked : List DataRow} (h : Collected keep db₁ cursor' picked db₂) (hsame : SameView db db₁)
    (hrow : ∀ n rows, cursorRows db.page n cursor' = some rows →
      ∃ n' skipped, cursorRows db.page n' cursor = some (skipped ++ row :: rows)
        ∧ Yields keep skipped [] ∧ keep row = .ok true) :
    Collected keep db cursor (row :: picked) db₂ := by
  obtain ⟨hsame₂, n, rows, hrows, hyields⟩ := h
  rw [hsame.page] at hrows
  obtain ⟨n', skipped, hn', hskipped, hkept⟩ := hrow n rows hrows
  exact ⟨hsame.trans hsame₂, n', _, hn', hskipped.append (hyields.pick hkept)⟩

/-- **The loop that collects the rows of a scan.** -/
theorem Scans.ensures_collect (h : Scans keep next) (rounds : ℕ) {cursor : ScanCursor}
    (hinit : cursor.initialized = true) (db : StdDbInstance) :
    Ensures (collect next rounds cursor) db (fun r db' => Collected keep db cursor r.1 db')
      fun _ _ => True := by
  induction rounds generalizing cursor db with
  | zero => trivial
  | succ rounds ih =>
    unfold collect
    rw [ensures_bind]
    refine (h cursor .blank db hinit).mono
      (fun ⟨found, row, cursor'⟩ db₁ ⟨hsame, hinit', hnone, hsome⟩ => ?_) fun _ _ _ => trivial
    cases found with
    | false => exact ⟨hsame, hnone rfl⟩
    | true =>
      show Ensures (collect next rounds cursor' >>= _) db₁ _ _
      rw [ensures_bind]
      exact (ih hinit' db₁).mono_ok fun r db₂ hr => hr.cons hsame (hsome rfl)

/-- **The loop of `execute_query`** over a scan, which passes the same variable
every time. -/
theorem Scans.ensures_drain (h : Scans keep next) (rounds : ℕ) {cursor : ScanCursor}
    (hinit : cursor.initialized = true) (out : DataRow) (db : StdDbInstance) :
    Ensures (drain next rounds cursor out) db (fun r db' => Collected keep db cursor r.1 db')
      fun _ _ => True := by
  induction rounds generalizing cursor out db with
  | zero => trivial
  | succ rounds ih =>
    unfold drain
    rw [ensures_bind]
    refine (h cursor out db hinit).mono ?_ fun _ _ _ => trivial
    rintro ⟨found, row, cursor'⟩ db₁ ⟨hsame, hinit', hnone, hsome⟩
    cases found with
    | false => exact ⟨hsame, hnone rfl⟩
    | true =>
      show Ensures (drain next rounds cursor' row >>= _) db₁ _ _
      rw [ensures_bind]
      exact (ih hinit' row db₁).mono_ok fun r db₂ hr => hr.cons hsame (hsome rfl)

end Asking

end NodeExecutor
