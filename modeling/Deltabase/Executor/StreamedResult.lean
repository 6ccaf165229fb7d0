import Deltabase.Executor.NodeExecutorFactory

/-!
# Streamed and materialized results

A caller obtains the same rows and the same schema from a streamed and from a
materialized result exactly when the statement selects all columns and its scan
finds no row, or its limit is zero.

For the streamed result this is one induction over the plan (`next_init`): an
executor that has not been opened hands out nothing. For the materialized one
it is enough to know when it is empty, node by node (`OpensEmpty`).
-/

namespace NodeExecutor

open StdDbInstance

variable {db : StdDbInstance} {schema : OutputSchema}

/-! ## Executors that have not been opened -/

/-- **An executor that has not been opened** hands out nothing, and its schema
stays what it is. -/
def Idle (executor : NodeExecutor) : Prop :=
  ∀ (n : ℕ) (out : DataRow) (db : StdDbInstance),
    ∃ s, executor.next (n + 1) executor.init out db = .ok (false, out, s) db
      ∧ executor.outputSchema s = executor.outputSchema executor.init

theorem idle_seqScan (tableName schemaName : Bytes) : Idle (seqScan tableName schemaName) :=
  fun _ _ _ => ⟨{}, rfl, rfl⟩

theorem idle_indexScan (tableName schemaName : Bytes) (indexId : IndexId)
    (condition : Sql.ExprNode) : Idle (indexScan tableName schemaName indexId condition) :=
  fun _ _ _ => ⟨([], 0), rfl, rfl⟩

namespace Idle

variable {child : NodeExecutor}

protected theorem filter (h : Idle child) (table : MetaTable) (condition : Sql.ExprNode) :
    Idle (filter table condition child) := fun n _ db => by
  obtain ⟨s, hnext, hschema⟩ := h n .blank db
  exact ⟨s, run_bind_eq_ok.mpr ⟨_, db, hnext, rfl⟩, hschema⟩

protected theorem projection (h : Idle child) (table : MetaTable) (columns : List Bytes) :
    Idle (projection table columns child) := fun n _ db => by
  obtain ⟨s, hnext, -⟩ := h n .blank db
  exact ⟨([], s), run_bind_eq_ok.mpr ⟨_, db, hnext, rfl⟩, rfl⟩

protected theorem limit (h : Idle child) (limit : ℕ) :
    Idle (NodeExecutor.limit limit child) := fun n out db => by
  obtain ⟨s, hnext, hschema⟩ := h n out db
  cases limit with
  | zero => exact ⟨(1, child.init), rfl, rfl⟩
  | succ k => exact ⟨(1, s), run_bind_eq_ok.mpr ⟨_, db, hnext, rfl⟩, hschema⟩

end Idle

/-- **The executor of a `SELECT`** is idle until it is opened. -/
theorem idle_selectNodes (unwritten : Bool) (schemaName : Bytes) (stmt : Sql.SelectStatement)
    (table : MetaTable) (chosenIndex : Option IndexId) :
    Idle (fromPlan unwritten (StdPlanner.selectNodes schemaName stmt table chosenIndex)) := by
  have hscan : Idle (fromPlan unwritten
      (StdPlanner.selectScan schemaName stmt table chosenIndex)) := by
    unfold StdPlanner.selectScan
    split
    · exact idle_indexScan _ _ _ _
    · exact (idle_seqScan _ _).filter _ _
    · exact idle_seqScan _ _
  have hproject : Idle (fromPlan unwritten (if stmt.columns.isEmpty
      then StdPlanner.selectScan schemaName stmt table chosenIndex
      else .project table (stmt.columns.map SqlToken.value)
        (StdPlanner.selectScan schemaName stmt table chosenIndex))) := by
    split_ifs
    · exact hscan
    · exact hscan.projection _ _
  unfold StdPlanner.selectNodes
  cases stmt.limit with
  | none => exact hproject
  | some limit => exact hproject.limit limit

/-! ## Executors that are opened and have no row -/

/-- The executor can be opened, and has this schema then. -/
def OpensWith (executor : NodeExecutor) (db : StdDbInstance) (schema : OutputSchema) : Prop :=
  ∃ s db₁ db₂, executor.opened executor.init db = .ok s db₁
    ∧ executor.outputSchema s db₁ = .ok schema db₂

/-- The executor can be opened, has no row and then this schema. -/
def OpensEmpty (executor : NodeExecutor) (db : StdDbInstance) (schema : OutputSchema) : Prop :=
  ∃ n s db₁ out s' db₂ db₃, executor.opened executor.init db = .ok s db₁
    ∧ executor.next (n + 1) s .blank db₁ = .ok (false, out, s') db₂
    ∧ executor.outputSchema s' db₂ = .ok schema db₃

/-- A limit of zero asks for no row. -/
theorem opensEmpty_limit_zero {child : NodeExecutor} :
    OpensEmpty (limit 0 child) db schema ↔ OpensWith child db schema := by
  constructor
  · rintro ⟨n, s, db₁, out, s', db₂, db₃, hopen, hnext, hschema⟩
    obtain ⟨childState, db₁', hchild, heq⟩ := run_bind_eq_ok.mp hopen
    cases heq
    cases hnext
    exact ⟨childState, db₁, db₃, hchild, hschema⟩
  · rintro ⟨s, db₁, db₂, hopen, hschema⟩
    exact ⟨0, (0, s), db₁, .blank, (1, s), db₁, db₂, run_bind_eq_ok.mpr ⟨s, db₁, hopen, rfl⟩, rfl,
      hschema⟩

/-- Any other limit asks for a first row. -/
theorem opensEmpty_limit_succ {child : NodeExecutor} (k : ℕ) :
    OpensEmpty (limit (k + 1) child) db schema ↔ OpensEmpty child db schema := by
  constructor
  · rintro ⟨n, s, db₁, out, s', db₂, db₃, hopen, hnext, hschema⟩
    obtain ⟨childState, db₁', hchild, heq⟩ := run_bind_eq_ok.mp hopen
    cases heq
    obtain ⟨⟨found, row, childState'⟩, db₂', hchildNext, heq⟩ := run_bind_eq_ok.mp hnext
    cases heq
    exact ⟨n, childState, db₁, out, childState', db₂, db₃, hchild, hchildNext, hschema⟩
  · rintro ⟨n, s, db₁, out, s', db₂, db₃, hopen, hnext, hschema⟩
    exact ⟨n, (0, s), db₁, out, (1, s'), db₂, db₃, run_bind_eq_ok.mpr ⟨s, db₁, hopen, rfl⟩,
      run_bind_eq_ok.mpr ⟨_, db₂, hnext, rfl⟩, hschema⟩

theorem length_columnIndices {table : MetaTable} {columns : List Bytes} {indices : List ℕ}
    (h : columnIndices table columns = .ok indices) : indices.length = columns.length := by
  induction columns generalizing indices with
  | nil =>
    cases h
    rfl
  | cons column columns ih =>
    unfold columnIndices at h
    cases hidx : table.getColumnIdxByName column with
    | none =>
      rw [hidx] at h
      cases h
    | some colIdx =>
      rw [hidx] at h
      obtain ⟨rest, hrest, heq⟩ := bind_eq_ok.mp h
      cases heq
      rw [List.length_cons, List.length_cons, ih hrest]

/-- A projection that has been opened has its columns. -/
theorem length_of_opened_projection {table : MetaTable} {columns : List Bytes}
    {child : NodeExecutor} {db₁ : StdDbInstance} {s : (projection table columns child).State}
    (h : (projection table columns child).opened (projection table columns child).init db
      = .ok s db₁) :
    s.1.length = columns.length := by
  obtain ⟨childState, db', hchild, h⟩ := run_bind_eq_ok.mp h
  obtain ⟨indices, db'', hindices, heq⟩ := run_bind_eq_ok.mp h
  cases heq
  rw [List.length_mergeSort, length_columnIndices (run_liftExcept_eq_ok.mp hindices).1]

theorem OpensWith.length_projection {table : MetaTable} {columns : List Bytes}
    {child : NodeExecutor} (h : OpensWith (projection table columns child) db schema) :
    schema.length = columns.length := by
  obtain ⟨s, db₁, db₂, hopen, hschema⟩ := h
  cases hschema
  rw [List.length_map, length_of_opened_projection hopen]

theorem OpensEmpty.length_projection {table : MetaTable} {columns : List Bytes}
    {child : NodeExecutor} (h : OpensEmpty (projection table columns child) db schema) :
    schema.length = columns.length := by
  obtain ⟨n, s, db₁, out, s', db₂, db₃, hopen, hnext, hschema⟩ := h
  obtain ⟨⟨found, src, childState⟩, db', hchild, hnext⟩ := run_bind_eq_ok.mp hnext
  cases hschema
  cases found with
  | true =>
    obtain ⟨row, db'', -, heq⟩ := run_bind_eq_ok.mp hnext
    cases heq
  | false =>
    cases hnext
    rw [List.length_map, length_of_opened_projection hopen]

/-! ## Scans without a row -/

section Scans

variable {tableName schemaName : Bytes} {mt : MetaTable}

/-- The schema of a table. -/
def schemaOf (mt : MetaTable) : OutputSchema :=
  mt.columns.map fun column => (column.name, column.type)

/-- What ends in a value, of what looks a table up first, has found it. -/
theorem exists_looksUp {α : Type} {f : MetaTable → Prog α} {a : α} {db' : StdDbInstance}
    (h : (getTable tableName schemaName >>= f) db = .ok a db') :
    ∃ mt, LooksUp db tableName schemaName mt ∧ f mt db = .ok a db' := by
  obtain ⟨mt, db₁, hget, hf⟩ := run_bind_eq_ok.mp h
  obtain ⟨rfl, hlook⟩ := (ensures_getTable tableName schemaName db).of_ok hget
  exact ⟨mt, hlook, hf⟩

theorem readsAs_tableSchema (h : LooksUp db tableName schemaName mt) :
    ReadsAs (tableSchema tableName schemaName) db (.ok (schemaOf mt)) :=
  (readsAs_getTable h).bind_ok fun db₁ _ => readsAs_pure _ db₁

theorem tableSchema_eq_ok (h : LooksUp db tableName schemaName mt) :
    (∃ db', tableSchema tableName schemaName db = .ok schema db') ↔ schema = schemaOf mt := by
  constructor
  · rintro ⟨db', heq⟩
    exact Except.ok.inj ((readsAs_tableSchema h).of_ok heq).1 |>.symm
  · rintro rfl
    obtain ⟨db', heq, -⟩ := (readsAs_tableSchema h).eq_ok_iff.mp rfl
    exact ⟨db', heq⟩

theorem opensWith_seqScan : OpensWith (seqScan tableName schemaName) db schema
    ↔ ∃ mt, LooksUp db tableName schemaName mt ∧ schema = schemaOf mt := by
  constructor
  · rintro ⟨s, db₁, db₂, hopen, hschema⟩
    obtain ⟨page, db₁', hbegin, heq⟩ := run_bind_eq_ok.mp hopen
    cases heq
    obtain ⟨mt, hlook, -⟩ := exists_looksUp hbegin
    have hsame := ((readsAs_seqScanBegin hlook).of_ok hbegin).2
    exact ⟨mt, hlook, (tableSchema_eq_ok (hsame.looksUp.mpr hlook)).mp ⟨db₂, hschema⟩⟩
  · rintro ⟨mt, hlook, hschema⟩
    obtain ⟨db₁, hbegin, hsame⟩ := (readsAs_seqScanBegin hlook).eq_ok_iff.mp rfl
    obtain ⟨db₂, hread⟩ := (tableSchema_eq_ok (hsame.looksUp.mpr hlook)).mpr hschema
    exact ⟨_, db₁, db₂, run_bind_eq_ok.mpr ⟨_, db₁, hbegin, rfl⟩, hread⟩

/-- How `opened` leaves the cursor of a scan. -/
theorem opened_seqScan_eq_ok {s : ScanCursor} {db₁ : StdDbInstance} :
    (seqScan tableName schemaName).opened {} db = .ok s db₁
      ↔ seqScanBegin tableName schemaName db = .ok s.page db₁ ∧ s = ⟨s.page, 0, true⟩ := by
  constructor
  · intro h
    obtain ⟨page, db', hbegin, heq⟩ := run_bind_eq_ok.mp h
    cases heq
    exact ⟨hbegin, rfl⟩
  · rintro ⟨hbegin, heq⟩
    rw [heq]
    exact run_bind_eq_ok.mpr ⟨s.page, db₁, hbegin, rfl⟩

/-- **What a filter has passed over** when it finds nothing: rows that do not
satisfy its condition, to the end. -/
theorem ensures_filterLoop_found {table : MetaTable} {condition : Sql.ExprNode} (n rounds : ℕ)
    {cursor : ScanCursor} (hinit : cursor.initialized = true) (out : DataRow)
    (db : StdDbInstance) :
    Ensures (filterLoop (seqScanNext n) table condition rounds cursor out) db
      (fun r db' => SameView db db' ∧ (r.1 = false → ∃ m rows,
        cursorRows db.page m cursor = some rows
          ∧ ∀ row ∈ rows, Evaluator.evaluate table row condition = .ok false))
      fun _ _ => True := by
  induction rounds generalizing cursor db with
  | zero => trivial
  | succ rounds ih =>
    unfold filterLoop seqScanNext
    rw [if_pos hinit, ensures_bind]
    refine (ensures_seqScanNextLoop_found n cursor .blank db).mono
      (fun ⟨found, row, cursor'⟩ db₁ ⟨hsame, hinit', hnone, hsome⟩ => ?_) fun _ _ _ => trivial
    cases found with
    | false =>
      obtain ⟨m, hm⟩ := hnone rfl
      exact ⟨hsame, fun _ => ⟨m, [], hm, fun row hrow => absurd hrow List.not_mem_nil⟩⟩
    | true =>
      show Ensures (liftExcept _ >>= _) db₁ _ _
      rw [ensures_bind, ensures_liftExcept]
      refine ⟨fun satisfied hevaluate => ?_, fun _ _ => trivial⟩
      cases satisfied with
      | true => exact ⟨hsame, fun h => Bool.noConfusion h⟩
      | false =>
        refine (ih (hinit'.trans hinit) db₁).mono (fun r db₂ ⟨hsame₂, hrest⟩ =>
          ⟨hsame.trans hsame₂, fun hr => ?_⟩) fun _ _ _ => trivial
        obtain ⟨m, rows, hrows, hall⟩ := hrest hr
        obtain ⟨m', hm'⟩ := hsome rfl m rows (hsame.page ▸ hrows)
        exact ⟨m', row :: rows, hm', List.forall_mem_cons.mpr ⟨hevaluate, hall⟩⟩

/-- **A filter finds nothing** among rows that do not satisfy its condition, if
it has rounds enough. -/
theorem ensures_filterLoop {table : MetaTable} {condition : Sql.ExprNode} {n rounds : ℕ}
    {cursor : ScanCursor} {rows : List DataRow} (hinit : cursor.initialized = true)
    (hrows : cursorRows db.page n cursor = some rows)
    (hall : ∀ row ∈ rows, Evaluator.evaluate table row condition = .ok false)
    (hrounds : rows.length < rounds) (out : DataRow) :
    Ensures (filterLoop (seqScanNext (n + 1)) table condition rounds cursor out) db
      (fun r db' => r.1 = false ∧ SameView db db') fun _ _ => False := by
  induction rows generalizing cursor rounds db with
  | nil =>
    obtain ⟨rounds, rfl⟩ := Nat.exists_eq_add_of_lt hrounds
    unfold filterLoop seqScanNext
    rw [if_pos hinit, ensures_bind]
    refine (ensures_seqScanNextLoop hrows .blank).mono_ok
      fun ⟨found, row, cursor'⟩ db₁ ⟨hsame, _, hfound, _⟩ => ?_
    dsimp only at hfound
    subst hfound
    exact ⟨rfl, hsame⟩
  | cons row rows ih =>
    obtain ⟨rounds, rfl⟩ := Nat.exists_eq_add_of_lt hrounds
    unfold filterLoop seqScanNext
    rw [if_pos hinit, ensures_bind]
    refine (ensures_seqScanNextLoop hrows .blank).mono_ok
      fun ⟨found, row', cursor'⟩ db₁ ⟨hsame, hinit', hfound, hrow, hrest⟩ => ?_
    dsimp only at hfound hrow hinit' hrest
    subst hfound hrow
    show Ensures (liftExcept _ >>= _) db₁ _ _
    rw [ensures_bind, ensures_liftExcept]
    have hevaluate := (List.forall_mem_cons.mp hall).1
    refine ⟨fun satisfied hsatisfied => ?_, fun e he => ?_⟩
    · obtain rfl : false = satisfied := Except.ok.inj (hevaluate.symm.trans hsatisfied)
      refine
        (ih (hinit'.trans hinit) (hsame.page ▸ hrest) (List.forall_mem_cons.mp hall).2 ?_).mono_ok
        fun r db₂ ⟨hr, hsame₂⟩ => ⟨hr, hsame.trans hsame₂⟩
      rw [List.length_cons]
      omega
    · cases hevaluate.symm.trans he

/-- A scan whose `next` finds nothing exactly when the rows before the cursor
satisfy `P`. -/
theorem opensEmpty_iff_of_next
    {next : ℕ → ScanCursor → DataRow → Prog (Bool × DataRow × ScanCursor)}
    {P : List DataRow → Prop}
    (hfound : ∀ n (cursor : ScanCursor) out db, cursor.initialized = true →
      Ensures (next n cursor out) db (fun r db' => SameView db db' ∧ (r.1 = false → ∃ m rows,
        cursorRows db.page m cursor = some rows ∧ P rows)) fun _ _ => True)
    (hnone : ∀ m (cursor : ScanCursor) rows out (db : StdDbInstance), cursor.initialized = true →
      cursorRows db.page m cursor = some rows → P rows → ∃ n, Ensures (next (n + 1) cursor out) db
        (fun r db' => r.1 = false ∧ SameView db db') fun _ _ => False) :
    OpensEmpty { seqScan tableName schemaName with next := next } db schema
      ↔ ∃ mt, LooksUp db tableName schemaName mt ∧ schema = schemaOf mt
        ∧ ∃ m rows, scanRows db.page m (db.scanStart mt) = some rows ∧ P rows := by
  constructor
  · rintro ⟨n, s, db₁, out, s', db₂, db₃, hopen, hnext, hschema⟩
    obtain ⟨hbegin, hs⟩ := opened_seqScan_eq_ok.mp hopen
    obtain ⟨mt, hlook, -⟩ := exists_looksUp hbegin
    obtain ⟨hpage, hsame⟩ := (readsAs_seqScanBegin hlook).of_ok hbegin
    rw [hs] at hnext
    obtain ⟨hsame₂, hrows⟩ := (hfound (n + 1) ⟨s.page, 0, true⟩ .blank db₁ rfl).of_ok hnext
    obtain ⟨m, rows, hm, hP⟩ := hrows rfl
    have hschema' := (tableSchema_eq_ok ((hsame.trans hsame₂).looksUp.mpr hlook)).mp ⟨db₃, hschema⟩
    refine ⟨mt, hlook, hschema', m + 1, rows, ?_, hP⟩
    rw [Except.ok.inj hpage, ← cursorRows_start m s.page true, ← hsame.page, hm]
  · rintro ⟨mt, hlook, hschema, m, rows, hrows, hP⟩
    obtain ⟨db₁, hbegin, hsame⟩ := (readsAs_seqScanBegin hlook).eq_ok_iff.mp rfl
    have hrows₁ : cursorRows db₁.page m ⟨db.scanStart mt, 0, true⟩ = some rows := by
      rw [cursorRows_start, hsame.page]
      exact scanRows_mono (Nat.le_succ m) hrows
    obtain ⟨n, hends⟩ := hnone m ⟨db.scanStart mt, 0, true⟩ rows .blank db₁ rfl hrows₁ hP
    obtain ⟨⟨found, out, s'⟩, db₂, hnext, hr, hsame₂⟩ := hends.exists_ok
    dsimp only at hr
    subst hr
    obtain ⟨db₃, hread⟩ :=
      (tableSchema_eq_ok ((hsame.trans hsame₂).looksUp.mpr hlook)).mpr hschema
    exact ⟨n, ⟨db.scanStart mt, 0, true⟩, db₁, out, s', db₂, db₃,
      opened_seqScan_eq_ok.mpr ⟨hbegin, rfl⟩, hnext, hread⟩

/-- **A scan without a row**: no row is reached. -/
theorem opensEmpty_seqScan : OpensEmpty (seqScan tableName schemaName) db schema
    ↔ ∃ mt, LooksUp db tableName schemaName mt ∧ schema = schemaOf mt
      ∧ ∃ n rows, scanRows db.page n (db.scanStart mt) = some rows ∧ rows = [] := by
  refine opensEmpty_iff_of_next (fun n cursor out db hinit => ?_)
    fun m cursor rows out db hinit hrows hnil => ⟨m, ?_⟩
  · unfold seqScanNext
    rw [if_pos hinit]
    refine (ensures_seqScanNextLoop_found n cursor out db).mono_ok
      fun r db' ⟨hsame, _, hnone, _⟩ => ⟨hsame, fun hr => ?_⟩
    obtain ⟨m, hm⟩ := hnone hr
    exact ⟨m, [], hm, rfl⟩
  · subst hnil
    unfold seqScanNext
    rw [if_pos hinit]
    exact (ensures_seqScanNextLoop hrows out).mono_ok fun r db' ⟨hsame, _, hr, _⟩ => ⟨hr, hsame⟩

/-- **A filter without a row**: no row that is reached satisfies it. -/
theorem opensEmpty_filter {table : MetaTable} {condition : Sql.ExprNode} :
    OpensEmpty (filter table condition (seqScan tableName schemaName)) db schema
      ↔ ∃ mt, LooksUp db tableName schemaName mt ∧ schema = schemaOf mt
        ∧ ∃ n rows, scanRows db.page n (db.scanStart mt) = some rows
          ∧ ∀ row ∈ rows, Evaluator.evaluate table row condition = .ok false := by
  refine opensEmpty_iff_of_next (fun n cursor out db hinit => ?_)
    fun m cursor rows out db hinit hrows hall => ⟨max m rows.length, ?_⟩
  · exact ensures_filterLoop_found n n hinit out db
  · exact ensures_filterLoop hinit (cursorRows_mono (le_max_left m rows.length) hrows) hall
      (Nat.lt_succ_of_le (le_max_right m rows.length)) out

/-- How `opened` leaves an index scan. -/
theorem opened_indexScan_eq_ok {indexId : IndexId} {condition : Sql.ExprNode}
    {s : List DataRow × ℕ} {db₁ : StdDbInstance} :
    (indexScan tableName schemaName indexId condition).opened ([], 0) db = .ok s db₁
      ↔ StdDbInstance.indexScan tableName schemaName indexId condition db = .ok s.1 db₁
        ∧ s.2 = 0 := by
  constructor
  · intro h
    obtain ⟨rows, db', hscan, heq⟩ := run_bind_eq_ok.mp h
    cases heq
    exact ⟨hscan, rfl⟩
  · rintro ⟨hscan, hs⟩
    refine run_bind_eq_ok.mpr ⟨s.1, db₁, hscan, ?_⟩
    show EStateM.Result.ok (s.1, 0) db₁ = _
    rw [← hs]

theorem opensWith_indexScan {indexId : IndexId} {condition : Sql.ExprNode} :
    OpensWith (indexScan tableName schemaName indexId condition) db schema
      ↔ ∃ mt, LooksUp db tableName schemaName mt ∧ schema = schemaOf mt
        ∧ ∃ rows, indexRows mt condition db indexId = .ok rows := by
  constructor
  · rintro ⟨s, db₁, db₂, hopen, hschema⟩
    obtain ⟨hscan, -⟩ := opened_indexScan_eq_ok.mp hopen
    obtain ⟨mt, hlook, -⟩ := exists_looksUp hscan
    obtain ⟨hrows, hsame⟩ := (readsAs_indexScan hlook indexId condition).of_ok hscan
    exact ⟨mt, hlook, (tableSchema_eq_ok (hsame.looksUp.mpr hlook)).mp ⟨db₂, hschema⟩, s.1, hrows⟩
  · rintro ⟨mt, hlook, hschema, rows, hrows⟩
    obtain ⟨db₁, hscan, hsame⟩ := (readsAs_indexScan hlook indexId condition).eq_ok_iff.mp hrows
    obtain ⟨db₂, hread⟩ := (tableSchema_eq_ok (hsame.looksUp.mpr hlook)).mpr hschema
    exact ⟨(rows, 0), db₁, db₂, opened_indexScan_eq_ok.mpr ⟨hscan, rfl⟩, hread⟩

theorem opensEmpty_indexScan {indexId : IndexId} {condition : Sql.ExprNode} :
    OpensEmpty (indexScan tableName schemaName indexId condition) db schema
      ↔ ∃ mt, LooksUp db tableName schemaName mt ∧ schema = schemaOf mt
        ∧ indexRows mt condition db indexId = .ok [] := by
  constructor
  · rintro ⟨n, s, db₁, out, s', db₂, db₃, hopen, hnext, hschema⟩
    obtain ⟨hscan, hzero⟩ := opened_indexScan_eq_ok.mp hopen
    obtain ⟨mt, hlook, -⟩ := exists_looksUp hscan
    obtain ⟨hrows, hsame⟩ := (readsAs_indexScan hlook indexId condition).of_ok hscan
    obtain ⟨rows, position⟩ := s
    dsimp only at hzero hrows
    subst hzero
    cases rows with
    | cons row rows => cases hnext
    | nil =>
      cases hnext
      exact ⟨mt, hlook, (tableSchema_eq_ok (hsame.looksUp.mpr hlook)).mp ⟨db₃, hschema⟩, hrows⟩
  · rintro ⟨mt, hlook, hschema, hrows⟩
    obtain ⟨db₁, hscan, hsame⟩ := (readsAs_indexScan hlook indexId condition).eq_ok_iff.mp hrows
    obtain ⟨db₂, hread⟩ := (tableSchema_eq_ok (hsame.looksUp.mpr hlook)).mpr hschema
    exact ⟨0, ([], 0), db₁, .blank, ([], 0), db₁, db₂, opened_indexScan_eq_ok.mpr ⟨hscan, rfl⟩, rfl,
      hread⟩

end Scans

end NodeExecutor

/-! ## What a caller obtains -/

namespace Engine

open NodeExecutor StdDbInstance StdPlanner

variable {db : StdDbInstance} {schema : OutputSchema}

/-- **A streamed result** has no rows, and the schema of an executor that has
not been opened. -/
theorem obtains_streamed_iff {executor : NodeExecutor} (hidle : executor.Idle)
    {result : List DataRow × OutputSchema} :
    Obtains db executor true result
      ↔ ∃ schema db', executor.outputSchema executor.init db = .ok schema db'
        ∧ result = ([], schema) := by
  constructor
  · rintro ⟨rounds, db', h⟩
    obtain ⟨streamed, db₁, hexecute, h⟩ := run_bind_eq_ok.mp h
    cases hexecute
    obtain ⟨⟨rows, streamed⟩, db₂, hdrain, h⟩ := run_bind_eq_ok.mp h
    cases rounds with
    | zero => cases hdrain
    | succ n =>
      obtain ⟨s, hnext, hschema⟩ := hidle n .blank db
      have hdrained : drain (ExecutionResult.next (n + 1)) (n + 1) (.streamed executor.init)
          .blank db = .ok ([], .streamed s) db :=
        run_bind_eq_ok.mpr ⟨_, db, run_bind_eq_ok.mpr ⟨_, db, hnext, rfl⟩, rfl⟩
      cases hdrained.symm.trans hdrain
      obtain ⟨schema, db₃, hread, heq⟩ := run_bind_eq_ok.mp h
      cases heq
      refine ⟨schema, db', ?_, rfl⟩
      rw [← hschema]
      exact hread
  · rintro ⟨schema, db', hread, rfl⟩
    obtain ⟨s, hnext, hschema⟩ := hidle 0 .blank db
    refine ⟨1, db', run_bind_eq_ok.mpr ⟨.streamed executor.init, db, rfl, ?_⟩⟩
    refine run_bind_eq_ok.mpr ⟨([], .streamed s), db, ?_, ?_⟩
    · exact run_bind_eq_ok.mpr ⟨_, db, run_bind_eq_ok.mpr ⟨_, db, hnext, rfl⟩, rfl⟩
    · refine run_bind_eq_ok.mpr ⟨schema, db', ?_, rfl⟩
      show executor.outputSchema s db = _
      rw [hschema]
      exact hread

/-- **A materialized result without rows.** -/
theorem obtains_materialized_nil_iff {executor : NodeExecutor} :
    Obtains db executor false ([], schema) ↔ OpensEmpty executor db schema := by
  constructor
  · rintro ⟨rounds, db', h⟩
    obtain ⟨result, db₁, hexecute, h⟩ := run_bind_eq_ok.mp h
    obtain ⟨s, db₂, hopen, hexecute⟩ := run_bind_eq_ok.mp hexecute
    obtain ⟨⟨rows, s'⟩, db₃, hdrain, hexecute⟩ := run_bind_eq_ok.mp hexecute
    obtain ⟨schema', db₄, hread, heq⟩ := run_bind_eq_ok.mp hexecute
    cases heq
    obtain ⟨⟨rows', result'⟩, db₅, hdrain', h⟩ := run_bind_eq_ok.mp h
    cases rounds with
    | zero => cases hdrain
    | succ n =>
      obtain ⟨⟨found, out, s''⟩, db₆, hnext, hdrain⟩ := run_bind_eq_ok.mp hdrain
      cases found with
      | true =>
        -- a row that was found is in the result
        obtain ⟨⟨rest, _⟩, _, -, heq⟩ := run_bind_eq_ok.mp hdrain
        cases heq
        obtain ⟨_, _, hnext', hdrain'⟩ := run_bind_eq_ok.mp hdrain'
        cases hnext'
        obtain ⟨⟨rest', _⟩, _, -, heq⟩ := run_bind_eq_ok.mp hdrain'
        cases heq
        obtain ⟨_, _, -, heq⟩ := run_bind_eq_ok.mp h
        cases heq
      | false =>
        cases hdrain
        cases hdrain'
        cases h
        exact ⟨n, s, db₂, out, s', db₃, db', hopen, hnext, hread⟩
  · rintro ⟨n, s, db₁, out, s', db₂, db₃, hopen, hnext, hread⟩
    refine ⟨n + 1, db₃, run_bind_eq_ok.mpr ⟨.materialized [] schema 0, db₃, ?_, rfl⟩⟩
    refine run_bind_eq_ok.mpr ⟨s, db₁, hopen, run_bind_eq_ok.mpr ⟨([], s'), db₂, ?_, ?_⟩⟩
    · exact run_bind_eq_ok.mpr ⟨_, db₂, hnext, rfl⟩
    · exact run_bind_eq_ok.mpr ⟨schema, db₃, hread, rfl⟩

/-- **The statement finds nothing** in a state: its scan reaches no row, or
none that satisfies its condition, or its limit is zero. -/
def NothingFound (db : StdDbInstance) (schemaName : Bytes) (stmt : Sql.SelectStatement)
    (table : MetaTable) (chosenIndex : Option IndexId) : Prop :=
  ∃ mt, LooksUp db stmt.table.tableName.value schemaName mt
    ∧ match stmt.where_, chosenIndex with
      | some condition, some indexId =>
        ∃ rows, indexRows mt condition db indexId = .ok rows ∧ (stmt.limit = some 0 ∨ rows = [])
      | some condition, none =>
        stmt.limit = some 0 ∨ ∃ n rows, scanRows db.page n (db.scanStart mt) = some rows
          ∧ ∀ row ∈ rows, Evaluator.evaluate table row condition = .ok false
      | none, _ =>
        stmt.limit = some 0 ∨ ∃ n rows, scanRows db.page n (db.scanStart mt) = some rows
          ∧ rows = []

/-- The two results of an executor agree when it opens without a row and with the
schema it has before. -/
theorem agree_iff_opensEmpty {executor : NodeExecutor} (hidle : executor.Idle) :
    (∃ result, Obtains db executor true result ∧ Obtains db executor false result)
      ↔ ∃ schema, (∃ db', executor.outputSchema executor.init db = .ok schema db')
        ∧ OpensEmpty executor db schema := by
  constructor
  · rintro ⟨result, hstreamed, hmaterialized⟩
    obtain ⟨schema, db', hread, rfl⟩ := (obtains_streamed_iff hidle).mp hstreamed
    exact ⟨schema, ⟨db', hread⟩, obtains_materialized_nil_iff.mp hmaterialized⟩
  · rintro ⟨schema, ⟨db', hread⟩, hempty⟩
    exact ⟨([], schema), (obtains_streamed_iff hidle).mpr ⟨schema, db', hread, rfl⟩,
      obtains_materialized_nil_iff.mpr hempty⟩

section Select

variable {unwritten : Bool} {schemaName : Bytes} {stmt : Sql.SelectStatement} {table : MetaTable}
  {chosenIndex : Option IndexId}

theorem outputSchema_selectScan :
    (fromPlan unwritten (selectScan schemaName stmt table chosenIndex)).outputSchema
        (fromPlan unwritten (selectScan schemaName stmt table chosenIndex)).init
      = tableSchema stmt.table.tableName.value schemaName := by
  unfold selectScan
  split <;> rfl

/-- An executor with the schema of its table has it from the beginning. -/
theorem exists_schema_iff {tableName schemaName : Bytes} {P : MetaTable → Prop}
    {O : OutputSchema → Prop}
    (hO : ∀ schema, O schema
      ↔ ∃ mt, LooksUp db tableName schemaName mt ∧ schema = schemaOf mt ∧ P mt) :
    (∃ schema, (∃ db', tableSchema tableName schemaName db = .ok schema db') ∧ O schema)
      ↔ ∃ mt, LooksUp db tableName schemaName mt ∧ P mt := by
  constructor
  · rintro ⟨schema, -, hschema⟩
    obtain ⟨mt, hlook, -, hP⟩ := (hO schema).mp hschema
    exact ⟨mt, hlook, hP⟩
  · rintro ⟨mt, hlook, hP⟩
    exact ⟨schemaOf mt, (tableSchema_eq_ok hlook).mpr rfl, (hO _).mpr ⟨mt, hlook, rfl, hP⟩⟩

/-- The scan of a statement with a limit of zero is opened and no more. -/
theorem opensWith_selectScan (hlimit : stmt.limit = some 0) :
    (∃ schema, (∃ db', tableSchema stmt.table.tableName.value schemaName db = .ok schema db')
        ∧ OpensWith (fromPlan unwritten (selectScan schemaName stmt table chosenIndex)) db schema)
      ↔ NothingFound db schemaName stmt table chosenIndex := by
  unfold selectScan NothingFound
  have hseq : ∀ schema, OpensWith (seqScan stmt.table.tableName.value schemaName) db schema
      ↔ ∃ mt, LooksUp db stmt.table.tableName.value schemaName mt ∧ schema = schemaOf mt
        ∧ True := by
    intro schema
    rw [opensWith_seqScan]
    simp only [and_true]
  cases stmt.where_ with
  | none =>
    simp only [hlimit, true_or]
    exact exists_schema_iff hseq
  | some condition =>
    cases chosenIndex with
    | none =>
      simp only [hlimit, true_or]
      exact exists_schema_iff hseq
    | some indexId =>
      simp only [hlimit, true_or, and_true]
      exact exists_schema_iff fun schema => opensWith_indexScan

/-- The scan of any other statement is asked for a row. -/
theorem opensEmpty_selectScan (hlimit : stmt.limit ≠ some 0) :
    (∃ schema, (∃ db', tableSchema stmt.table.tableName.value schemaName db = .ok schema db')
        ∧ OpensEmpty (fromPlan unwritten (selectScan schemaName stmt table chosenIndex)) db schema)
      ↔ NothingFound db schemaName stmt table chosenIndex := by
  unfold selectScan NothingFound
  cases stmt.where_ with
  | none =>
    simp only [hlimit, false_or]
    exact exists_schema_iff fun schema => opensEmpty_seqScan
  | some condition =>
    cases chosenIndex with
    | none =>
      simp only [hlimit, false_or]
      exact exists_schema_iff fun schema => opensEmpty_filter
    | some indexId =>
      simp only [hlimit, false_or, exists_eq_right]
      exact exists_schema_iff fun schema => opensEmpty_indexScan

/-- The plan of a statement of all columns is its scan, with the limit if there is
one. -/
theorem selectNodes_all (hcolumns : stmt.columns = []) :
    selectNodes schemaName stmt table chosenIndex
      = stmt.limit.elim (selectScan schemaName stmt table chosenIndex)
        fun k => .limit k (selectScan schemaName stmt table chosenIndex) := by
  unfold selectNodes
  rw [hcolumns]
  cases stmt.limit <;> rfl

/-- The plan of any other statement has a projection. -/
theorem selectNodes_some (hcolumns : stmt.columns ≠ []) :
    selectNodes schemaName stmt table chosenIndex
      = stmt.limit.elim
        (.project table (stmt.columns.map SqlToken.value)
          (selectScan schemaName stmt table chosenIndex))
        fun k => .limit k (.project table (stmt.columns.map SqlToken.value)
          (selectScan schemaName stmt table chosenIndex)) := by
  have hsome : stmt.columns.isEmpty = false := by simpa using hcolumns
  unfold selectNodes
  rw [hsome]
  cases stmt.limit <;> rfl

end Select

/-- **When the two results agree.** The rows and the schema that a caller
obtains are the same from a streamed and from a materialized result exactly
when the statement selects all columns and finds nothing. -/
theorem obtains_agree_iff (unwritten : Bool) (db : StdDbInstance) (schemaName : Bytes)
    (stmt : Sql.SelectStatement) (table : MetaTable) (chosenIndex : Option IndexId) :
    (∃ result,
        Obtains db (.fromPlan unwritten (selectNodes schemaName stmt table chosenIndex)) true result
          ∧ Obtains db (.fromPlan unwritten (selectNodes schemaName stmt table chosenIndex)) false
            result)
      ↔ stmt.columns = [] ∧ NothingFound db schemaName stmt table chosenIndex := by
  rw [agree_iff_opensEmpty (idle_selectNodes unwritten schemaName stmt table chosenIndex)]
  by_cases hcolumns : stmt.columns = []
  · rw [selectNodes_all hcolumns, and_iff_right hcolumns]
    cases hlimit : stmt.limit with
    | none =>
      rw [← opensEmpty_selectScan (by rw [hlimit]; simp)]
      rw [← @outputSchema_selectScan unwritten schemaName stmt table chosenIndex]
      rfl
    | some k =>
      cases k with
      | zero =>
        rw [← opensWith_selectScan hlimit,
          ← @outputSchema_selectScan unwritten schemaName stmt table chosenIndex]
        simp only [Option.elim_some, fromPlan, opensEmpty_limit_zero]
        rfl
      | succ k =>
        rw [← opensEmpty_selectScan (by rw [hlimit]; simp),
          ← @outputSchema_selectScan unwritten schemaName stmt table chosenIndex]
        simp only [Option.elim_some, fromPlan, opensEmpty_limit_succ]
        rfl
  · rw [selectNodes_some hcolumns]
    simp only [hcolumns, false_and, iff_false]
    -- the schema of a projection that has not been opened is empty
    rintro ⟨schema, ⟨db', hread⟩, hempty⟩
    have hlength : schema.length = (stmt.columns.map SqlToken.value).length := by
      cases hlimit : stmt.limit with
      | none =>
        rw [hlimit] at hempty
        exact hempty.length_projection
      | some k =>
        rw [hlimit] at hempty
        cases k with
        | zero => exact (opensEmpty_limit_zero.mp hempty).length_projection
        | succ k => exact ((opensEmpty_limit_succ k).mp hempty).length_projection
    have hnil : schema = [] := by
      cases hlimit : stmt.limit with
      | none =>
        rw [hlimit] at hread
        exact (EStateM.Result.ok.inj hread).1.symm
      | some k =>
        rw [hlimit] at hread
        exact (EStateM.Result.ok.inj hread).1.symm
    rw [hnil, List.length_map] at hlength
    exact hcolumns (List.length_eq_zero_iff.mp hlength.symm)

/-! ## A table that is large enough to be streamed -/

/-- A table of one column with 2048 rows, so many that the planner streams a
scan of all of them. -/
def largeTable : MetaTable :=
  { id := 2, schemaId := 1, name := [116],
    columns := [{ id := 3, tableId := 2, name := [97], type := .integer }],
    lastRid := 2048, totalRows := 2048, liveRows := 2048 }

/-- An instance with that table, whose rows are on one page. -/
def largeInstance (rows : List DataRow) : StdDbInstance where
  pool :=
    { dataPages := fun id => if id = 4 then
        some { value := { DataPage.make ([115], [116]) 2 4 with rows := rows } } else none
      dataPagesPerTable := fun id => if id = 2 then some [4] else none }
  catalog :=
    { schemas := [{ id := 1, name := [115], dbName := [100] }]
      tables := [largeTable] }
  clock := 5

/-- The rows of a table of one column into which that many rows were
inserted. -/
def numberedRows (n : ℕ) : List DataRow :=
  (List.range n).map fun i => { id := i, tokens := [⟨leBytes 4 i, .integer⟩] }

theorem live_numberedRows (n : ℕ) : live (numberedRows n) = numberedRows n := by
  refine List.filter_eq_self.mpr fun row hrow => ?_
  obtain ⟨i, -, rfl⟩ := List.mem_map.mp hrow
  show (!hasFlag 0 obsoleteFlag) = true
  rw [hasFlag_obsolete]
  rfl

theorem live_eq_nil_of_opensEmpty {rows : List DataRow}
    (h : OpensEmpty (seqScan [116] [115]) (largeInstance rows) schema) : live rows = [] := by
  obtain ⟨mt, ⟨ms, hms, hmt⟩, -, n, found, hfound, hnil⟩ := opensEmpty_seqScan.mp h
  cases hms
  cases hmt
  cases n with
  | zero => cases hfound
  | succ n =>
    obtain ⟨rest, -, hall⟩ := Option.map_eq_some_iff.mp hfound
    subst hnil
    exact (List.append_eq_nil_iff.mp hall).1

/-- `SELECT * FROM t`. -/
def selectLarge : Sql.SelectStatement where
  table := { tableName := ⟨[116], 1, 14, .identifier⟩ }
  columns := []
  where_ := none

/-- **A scan of all rows of a large table** obtains nothing when it is
streamed. -/
theorem not_obtains_agree_large : ¬ ∃ result,
    Obtains (largeInstance (numberedRows 2048))
        (.fromPlan false (selectNodes [115] selectLarge largeTable none)) true result
      ∧ Obtains (largeInstance (numberedRows 2048))
        (.fromPlan false (selectNodes [115] selectLarge largeTable none)) false result := by
  rw [agree_iff_opensEmpty (idle_selectNodes false [115] selectLarge largeTable none)]
  rintro ⟨schema, -, hempty⟩
  have hlength := congrArg List.length (live_eq_nil_of_opensEmpty hempty)
  rw [live_numberedRows, numberedRows, List.length_map, List.length_range] at hlength
  cases hlength

end Engine
