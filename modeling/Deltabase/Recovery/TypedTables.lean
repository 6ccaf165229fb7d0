import Deltabase.Executor.ColumnTypes
import Deltabase.Recovery.TableSteps

/-!
# The types of what is stored

Every row of a table has a token for each column, in the order of the columns,
and the token has the type its literal had. This is an invariant of runs for any
relation that the literals of the accepted statements stand in to the types of their
columns (`typed_of_matching`).

What the analyzer sees to is such a relation, but not equality: an integer passes
for a `REAL`, a character for a `STRING`, anything for a column whose type is `NULL`.
Nobody converts these literals, so they are stored with the types they have, and are
then neither equal nor comparable to the values that the column is meant for.
-/

namespace RowView

open StdDbInstance

variable {R : DataType → DataType → Prop} {v v' : RowView}

/-- **Every row of every table** holds values of types that the columns take. -/
def Typed (R : DataType → DataType → Prop) (v : RowView) : Prop :=
  ∀ t mt, v.entry t = some mt → (mt.columns.map MetaColumn.id).Nodup
    ∧ ∀ row ∈ v.rows t, mt.Holds R row.tokens

theorem Typed.steady (h : v.Typed R) (hsteady : Steady v v') : v'.Typed R := by
  unfold Typed
  rw [hsteady.entries, hsteady.rows]
  exact h

/-- Only the rows of the table that is saved need to be looked at again. -/
theorem Typed.saves (h : v.Typed R) {mt : MetaTable} (hsaves : Saves v v' mt)
    (hnodup : (mt.columns.map MetaColumn.id).Nodup)
    (hrows : ∀ row ∈ v'.rows mt.id, mt.Holds R row.tokens) : v'.Typed R := by
  intro t mt' hentry
  rw [hsaves.entries] at hentry
  split_ifs at hentry with hid
  · obtain rfl := Option.some.inj hentry
    rw [← hid]
    exact ⟨hnodup, hrows⟩
  · rw [hsaves.others t fun heq => hid heq.symm]
    exact h t mt' hentry

/-- **A table keeps its columns**: then only rows with other tokens than before need
to be looked at. -/
theorem Typed.keeps (h : v.Typed R) {mt mt' : MetaTable} (hbefore : v.entry mt.id = some mt)
    (hsaves : Saves v v' mt') (hid : mt'.id = mt.id) (hcolumns : mt'.columns = mt.columns)
    (hrows : ∀ row ∈ v'.rows mt.id,
      (∃ old ∈ v.rows mt.id, old.tokens = row.tokens) ∨ mt.Holds R row.tokens) : v'.Typed R := by
  obtain ⟨hnodup, hheld⟩ := h mt.id mt hbefore
  refine h.saves hsaves (hcolumns ▸ hnodup) fun row hrow => ?_
  rw [hid] at hrow
  refine MetaTable.Holds.congr ?_ hcolumns
  rcases hrows row hrow with ⟨old, hold, htokens⟩ | hnew
  · rw [← htokens]
    exact hheld old hold
  · exact hnew

/-- The rows of a list in which one has been marked have the tokens of those
before. -/
theorem exists_tokens_of_marked {row : DataRow} {rows rows' : List DataRow}
    (h : Marked row rows rows') {row' : DataRow} (hmem : row' ∈ rows') :
    ∃ old ∈ rows, old.tokens = row'.tokens := by
  obtain ⟨l₁, l₂, rfl, rfl⟩ := h
  rcases List.mem_append.mp hmem with hmem | hmem
  · exact ⟨row', List.mem_append_left _ hmem, rfl⟩
  · rcases List.mem_cons.mp hmem with rfl | hmem
    · exact ⟨row, List.mem_append_right _ List.mem_cons_self, row.markObsolete_tokens.symm⟩
    · exact ⟨row', List.mem_append_right _ (List.mem_cons_of_mem row hmem), rfl⟩

theorem mem_of_marked {row : DataRow} {rows rows' : List DataRow} (h : Marked row rows rows') :
    row ∈ rows := by
  obtain ⟨l₁, l₂, rfl, -⟩ := h
  exact List.mem_append_right _ List.mem_cons_self

theorem mem_of_added {row row' : DataRow} {rows rows' : List DataRow} (h : Added row rows rows')
    (hmem : row' ∈ rows') : row' = row ∨ row' ∈ rows :=
  List.mem_cons.mp (h.perm.mem_iff.mp hmem)

/-- **A row of an update** keeps the types when its assignments do. -/
theorem Typed.updates {mt : MetaTable} {update : RowUpdate} {unchangedMt : MetaTable}
    {pageId : DataPageId} {i : ℕ} {row : DataRow} {ids : List ℕ} {s s' : LoopState}
    (h : s.1.Typed R) (hok : v.Ok) (hs : Within v mt s.1 s.2.mt) (hmem : pageId ∈ v.ids mt.id)
    (htarget : Target s.1 ids pageId i row)
    (hupdate : ∀ assignment ∈ update, mt.Assigns R assignment)
    (hR : Updates update unchangedMt pageId i row s s') : s'.1.Typed R := by
  obtain ⟨hsaves, tokens, mid, hassign, hmarked, hadded⟩ := hR.saves hok hs hmem htarget
  have hcolumns : (numbered s.2.mt).columns = mt.columns := hs.same.columns
  obtain ⟨hnodup, hheld⟩ := h s.2.mt.id s.2.mt hs.entry_self
  have hassigns : ∀ assignment ∈ update, (numbered s.2.mt).Assigns R assignment :=
    fun assignment hin => (hupdate assignment hin).congr hcolumns
  have hnodup' : ((numbered s.2.mt).columns.map MetaColumn.id).Nodup := hnodup
  have hold : (numbered s.2.mt).Holds R row.tokens :=
    (hheld row (mem_of_marked hmarked)).congr rfl
  have hnew : (numbered s.2.mt).Holds R tokens :=
    MetaTable.holds_assignTokens hnodup' hassigns hold hassign
  refine h.keeps hs.entry_self hsaves rfl rfl fun row' hrow' => ?_
  rcases mem_of_added hadded hrow' with rfl | hmid
  · exact .inr (hnew.congr rfl)
  · exact .inl (exists_tokens_of_marked hmarked hmid)

/-- A row of a delete keeps them. -/
theorem Typed.deletes {mt : MetaTable} {unchangedMt : MetaTable} {pageId : DataPageId} {i : ℕ}
    {row : DataRow} {ids : List ℕ} {s s' : LoopState} (h : s.1.Typed R) (hok : v.Ok)
    (hs : Within v mt s.1 s.2.mt) (hmem : pageId ∈ v.ids mt.id)
    (htarget : Target s.1 ids pageId i row) (hR : Deletes unchangedMt pageId i row s s') :
    s'.1.Typed R := by
  obtain ⟨hsaves, hmarked⟩ := hR.saves hok hs hmem htarget
  exact h.keeps hs.entry_self hsaves rfl rfl fun row' hrow' =>
    .inl (exists_tokens_of_marked hmarked hrow')

/-- **Rows that are found again** have the tokens they had. -/
theorem Typed.reopened (h : v.Typed R) (hreopened : Reopened v v') : v'.Typed R := by
  intro t mt hentry
  rw [hreopened.entries] at hentry
  obtain ⟨hnodup, hheld⟩ := h t mt hentry
  exact ⟨hnodup, fun row hrow => hheld row ((hreopened.rows t).mem_iff.mp hrow)⟩

end RowView

/-! ## Statements -/

/-- **What a statement stores** goes with the columns it is stored in. -/
def Statement.Stores (R : DataType → DataType → Prop) (db : StdDbInstance) : Statement → Prop
  | insert tableName schemaName cols rows => ∀ mt,
    StdDbInstance.LooksUp db tableName schemaName mt →
    ∀ row ∈ rows, mt.Holds R (mt.reorderedTokens cols row)
  | update tableName schemaName assignments _ =>
    ∀ mt, StdDbInstance.LooksUp db tableName schemaName mt →
      ∀ assignment ∈ assignments, mt.Assigns R assignment
  | _ => True

namespace StdDbInstance

open BufferPool Transaction FileIOManager RowView

variable {R : DataType → DataType → Prop} {db db' : StdDbInstance}

/-- **`insert_row`** keeps the types when the row does; the table keeps its
columns. -/
theorem typed_insertRow (h : Running Set.univ db.rowView) (htyped : db.rowView.Typed R)
    {tableName schemaName : Bytes} {cols : Option (List Bytes)} {row : List DataToken}
    (hrow : ∀ mt, LooksUp db tableName schemaName mt → mt.Holds R (mt.reorderedTokens cols row)) :
    Ensures (insertRow tableName schemaName cols row) db
      (fun _ db' => db'.rowView.Typed R ∧ ∃ mt mt', LooksUp db tableName schemaName mt
        ∧ LooksUp db' tableName schemaName mt' ∧ mt'.columns = mt.columns) fun _ _ => True := by
  refine (ensures_insertRow h.active h.logged.pages.ok tableName schemaName cols row).mono
    (fun _ db' hdb' => ?_) fun _ _ _ => trivial
  obtain ⟨mt, hlook, ⟨id, v, hprep, hview⟩, -⟩ := hdb'
  obtain ⟨-, hadded, hothers, hentries⟩ :=
    hprep.inserted h.logged.pages.ok (mt.makeRow cols row).1 mt
  have hpos : 0 < mt.schemaId := h.logged.catalog.schemaId_pos hlook.entry
  obtain ⟨hschemas, hpages⟩ := hprep.pages hpos
  have hcatalog : db'.catalog = db.catalog.saveTable (mt.makeRow cols row).2 := by
    obtain ⟨-, -, -, hcatalog, -⟩ := hprep.rest
    exact (congrArg RowView.catalog hview).trans hcatalog
  have hsame : Recounted mt (mt.makeRow cols row).2 := ⟨rfl, rfl, rfl, rfl, rfl⟩
  refine ⟨?_, mt, _, hlook, hlook.recounted hsame hcatalog, rfl⟩
  rw [hview]
  refine htyped.keeps hlook.entry ⟨hentries, hothers, hpages, hschemas, hprep.clock_le⟩ rfl rfl
    fun row' hrow' => ?_
  rcases mem_of_added hadded hrow' with rfl | hold
  exacts [.inr (hrow mt hlook), .inl ⟨row', hold, rfl⟩]

/-- **The loop of an `INSERT`** keeps them when all its rows do. -/
theorem typed_insertRows (h : Running Set.univ db.rowView) (htyped : db.rowView.Typed R)
    {tableName schemaName : Bytes} {cols : Option (List Bytes)} {rows : List (List DataToken)}
    (hrows : ∀ mt, LooksUp db tableName schemaName mt →
      ∀ row ∈ rows, mt.Holds R (mt.reorderedTokens cols row)) :
    Ensures (rows.forM (insertRow tableName schemaName cols)) db
      (fun _ db' => db'.rowView.Typed R) fun _ _ => True := by
  refine (Ensures.forM (fun rest db₁ => Running Set.univ db₁.rowView ∧ db₁.rowView.Typed R
    ∧ ∀ mt, LooksUp db₁ tableName schemaName mt →
      ∀ row ∈ rest, mt.Holds R (mt.reorderedTokens cols row))
    (fun row rest db₁ ⟨h₁, htyped₁, hrest⟩ => ?_) ⟨h, htyped, hrows⟩).mono_ok fun _ _ h => h.2.1
  have hrunning := running_insertRow h₁ tableName schemaName cols row
  have hinsert := typed_insertRow h₁ htyped₁ fun mt hlook => hrest mt hlook row List.mem_cons_self
  refine ensures_iff.mpr ⟨fun _ db₂ hrun => ?_, fun _ _ _ => trivial⟩
  obtain ⟨htyped₂, mt, mt', hlook, hlook', hcolumns⟩ := hinsert.of_ok hrun
  refine ⟨hrunning.of_ok hrun, htyped₂, fun mt₂ hlook₂ row' hrow' => ?_⟩
  obtain rfl := hlook'.eq hlook₂
  rw [MetaTable.reorderedTokens_congr hcolumns]
  exact (hrest mt hlook row' (List.mem_cons_of_mem row hrow')).congr hcolumns

/-- **`update_row`** keeps the types when its assignments do. -/
theorem typed_updateRow (h : Running Set.univ db.rowView) (htyped : db.rowView.Typed R)
    {tableName schemaName : Bytes} {update : RowUpdate}
    (hupdate : ∀ mt, LooksUp db tableName schemaName mt →
      ∀ assignment ∈ update, mt.Assigns R assignment) (rows : List DataRow) :
    Ensures (updateRow tableName schemaName update rows) db
      (fun _ db' => db'.rowView.Typed R) fun _ _ => True := by
  have hok := h.logged.pages.ok
  refine (ensures_updateRow h.active hok tableName schemaName update rows).mono
    (fun _ db' hdb' => ?_) fun _ _ _ => trivial
  obtain ⟨mt, mt', hlook, hvisited⟩ := hdb'
  refine (hvisited.preserves (P := fun w mw => Within db.rowView mt w mw ∧ w.Typed R)
    (fun pageId hmem i row s s' htarget hR hs => ?_) (fun pageId s hs => ?_)
    ⟨.refl hlook.entry, htyped⟩).2
  · exact ⟨hs.1.updates hok hmem hR, hs.2.updates hok hs.1 hmem htarget (hupdate mt hlook) hR⟩
  · exact ⟨hs.1.leave pageId, hs.2.steady (steady_leave pageId s)⟩

/-- **`delete_rows`** keeps the types. -/
theorem typed_deleteRows (h : Running Set.univ db.rowView) (htyped : db.rowView.Typed R)
    (tableName schemaName : Bytes) (rows : List DataRow) :
    Ensures (deleteRows tableName schemaName rows) db
      (fun _ db' => db'.rowView.Typed R) fun _ _ => True := by
  have hok := h.logged.pages.ok
  refine (ensures_deleteRows h.active hok tableName schemaName rows).mono
    (fun _ db' hdb' => ?_) fun _ _ _ => trivial
  obtain ⟨mt, mt', hlook, hvisited⟩ := hdb'
  refine (hvisited.preserves (P := fun w mw => Within db.rowView mt w mw ∧ w.Typed R)
    (fun pageId hmem i row s s' htarget hR hs => ?_) (fun pageId s hs => ?_)
    ⟨.refl hlook.entry, htyped⟩).2
  · exact ⟨hs.1.deletes hok hmem hR, hs.2.deletes hok hs.1 hmem htarget hR⟩
  · exact ⟨hs.1.leave pageId, hs.2.steady (steady_leave pageId s)⟩

theorem typed_createTable (h : Running Set.univ db.rowView) (htyped : db.rowView.Typed R)
    (tableName schemaName : Bytes) (columns : List ColumnDefinition) :
    Ensures (createTable tableName schemaName columns) db
      (fun _ db' => db'.rowView.Typed R) fun _ _ => True := by
  refine (ensures_createTable h.active tableName schemaName columns).mono_ok fun _ db' hdb' => ?_
  obtain ⟨schema, metaColumns, now, -, hnodup, hclock, hview⟩ := hdb'
  rw [hview]
  set mt : MetaTable :=
    { id := db.clock, schemaId := schema.id, name := tableName, columns := metaColumns }
  have hunused : db.rowView.ids mt.id = [] := h.logged.ids_eq_nil le_rfl
  have hnone : db.rowView.rows mt.id = [] := by
    unfold RowView.rows
    rw [hunused]
    rfl
  refine htyped.saves (.of_eq rfl rfl rfl rfl hclock.le) hnodup fun row hrow => ?_
  change row ∈ db.rowView.rows mt.id at hrow
  rw [hnone] at hrow
  exact absurd hrow List.not_mem_nil

/-- A table that gets other indexes keeps its rows. -/
theorem typed_indexes (htyped : db.rowView.Typed R) {tableName schemaName : Bytes} {mt : MetaTable}
    (hlook : LooksUp db tableName schemaName mt) {v : RowView} {indexes : List MetaIndex}
    (hsaves : Saves db.rowView v { mt with indexes := indexes })
    (hrows : v.rows = db.rowView.rows) : v.Typed R :=
  htyped.keeps hlook.entry hsaves rfl rfl fun row hrow => .inl ⟨row, hrows ▸ hrow, rfl⟩

/-- **The body of a statement** keeps the types when what it stores does. -/
theorem typed_body (st : Statement) (h : Running Set.univ db.rowView)
    (htyped : db.rowView.Typed R) (hstores : st.Stores R db) :
    Ensures st.body db (fun _ db' => db'.rowView.Typed R) fun _ _ => True := by
  cases st with
  | createSchema dbName schemaName =>
    refine (ensures_createSchema h.active dbName schemaName).mono (fun _ db' hview => ?_)
      fun _ _ _ => trivial
    rw [hview]
    exact htyped.steady (.of_eq rfl rfl rfl rfl (UUIDGenerator.le_next _ _))
  | createTable tableName schemaName columns => exact typed_createTable h htyped _ _ _
  | insert tableName schemaName cols rows => exact typed_insertRows h htyped hstores
  | update tableName schemaName assignments rows =>
    show Ensures (liftExcept rows >>= _) db _ _
    rw [ensures_bind, ensures_liftExcept]
    exact ⟨fun rows _ => typed_updateRow h htyped hstores rows, fun _ _ => trivial⟩
  | delete tableName schemaName rows =>
    show Ensures (liftExcept rows >>= _) db _ _
    rw [ensures_bind, ensures_liftExcept]
    exact ⟨fun rows _ => typed_deleteRows h htyped _ _ rows, fun _ _ => trivial⟩
  | createIndex indexName tableName columnName schemaName isUnique =>
    refine (ensures_createIndex h.active h.logged.pages.ok indexName tableName columnName schemaName
      isUnique).mono (fun _ db' hdb' => ?_) fun _ _ _ => trivial
    obtain ⟨table, column, -, hlook, -, -, hview, -⟩ := hdb'
    rw [hview]
    exact typed_indexes htyped hlook (.of_eq rfl rfl rfl rfl (UUIDGenerator.le_next _ _))
      (rows_congr rfl rfl)
  | dropIndex indexName tableName schemaName =>
    refine (ensures_dropIndex h.active indexName tableName schemaName).mono_ok fun _ db' hdb' => ?_
    obtain ⟨table, index, hlook, -, hview⟩ := hdb'
    rw [hview]
    exact typed_indexes htyped hlook (.of_eq rfl rfl rfl rfl le_rfl) (rows_congr rfl rfl)

/-- **A statement that is executed** keeps the types when what it stores does. -/
theorem typed_next (h : Settled db) (htyped : db.rowView.Typed R) {st : Statement}
    (hstores : st.Stores R db) :
    Ensures st.next db (fun _ db' => db'.rowView.Typed R) fun _ _ => True := by
  refine ensures_next (fun _ _ hsteady hv => hv.steady hsteady) h htyped
    fun db₁ hrunning hcatalog htyped₁ => ?_
  have hlook : ∀ tableName schemaName mt,
      LooksUp db₁ tableName schemaName mt → LooksUp db tableName schemaName mt := by
    unfold LooksUp
    rw [hcatalog]
    exact fun _ _ _ h => h
  refine typed_body st hrunning htyped₁ ?_
  cases st with
  | insert => exact fun mt h => hstores mt (hlook _ _ mt h)
  | update => exact fun mt h => hstores mt (hlook _ _ mt h)
  | _ => trivial

end StdDbInstance

/-! ## Runs -/

namespace StdDbInstance

open RowView SemanticAnalyzer

/-- **What happens to a database whose statements come from clients**: rows are
inserted and updated by statements that the analyzer and the planner have been
given, and there are the other statements and clean restarts. -/
inductive Turn where
  | insert (stmt : Sql.InsertStatement)
  | update (stmt : Sql.UpdateStatement)
  | other (e : Event)

/-- Whether something that happens writes the values of a statement. -/
def Event.writesValues : Event → Bool
  | .execute (.insert ..) => true
  | .execute (.update ..) => true
  | _ => false

/-- **A statement that is accepted and succeeds**, or something else. -/
inductive Happens (setup : EngineSetup) (db : StdDbInstance) : Turn → StdDbInstance → Prop
  | insert {stmt : Sql.InsertStatement} {plan : Sql.PlanNode} {rows : Except Exn (List DataRow)}
      {st : Statement} {db' : StdDbInstance}
      (haccepts : (setup.analyzer db).Accepts (.insert stmt))
      (hplan : (setup.planner db).planInsert stmt = .ok plan)
      (hst : Statement.ofPlan rows plan = some st) (hnext : st.next db = .ok () db') :
      Happens setup db (.insert stmt) db'
  | update {stmt : Sql.UpdateStatement} {plan : Sql.PlanNode} {rows : Except Exn (List DataRow)}
      {st : Statement} {db' : StdDbInstance}
      (haccepts : (setup.analyzer db).Accepts (.update stmt))
      (hplan : (setup.planner db).planUpdate stmt = .ok plan)
      (hst : Statement.ofPlan rows plan = some st) (hnext : st.next db = .ok () db') :
      Happens setup db (.update stmt) db'
  | other {e : Event} {db' : StdDbInstance} (he : e.writesValues = false)
      (h : Occurs db e db') : Happens setup db (.other e) db'

/-- The values of a statement are of types that the columns take. -/
def Turn.Matches (R : DataType → DataType → Prop) (setup : EngineSetup) (db : StdDbInstance) :
    Turn → Prop
  | insert stmt => ∀ mt, (setup.analyzer db).getTable stmt.table = some mt → stmt.Matches R mt
  | update stmt => ∀ mt, (setup.analyzer db).getTable stmt.table = some mt → stmt.Matches R mt
  | other _ => True

variable {R : DataType → DataType → Prop} {setup : EngineSetup} {db db' : StdDbInstance}

/-- **The step.** What happens keeps an instance settled, and the types when the
values of the statement do. -/
theorem Happens.step {turn : Turn} (h : Happens setup db turn db') (hs : Settled db)
    (htyped : db.rowView.Typed R) (hmatches : turn.Matches R setup db) :
    Settled db' ∧ db'.rowView.Typed R := by
  cases h with
  | @insert stmt plan rows st _ haccepts hplan hst hnext =>
    obtain ⟨-, mt, htable, -⟩ := accepts_insert_iff.mp haccepts
    obtain ⟨cols, tokens, rfl, hheld⟩ :=
      EngineSetup.holds_of_planInsert haccepts htable (hmatches mt htable) hplan hst
    have hlook := findTable_eq_some_iff.mp htable
    refine ⟨(settled_next hs ?_).of_ok hnext, (typed_next hs htyped ?_).of_ok hnext⟩
    · exact Option.isSome_iff_exists.mpr ⟨mt, htable⟩
    · intro mt' hlook'
      obtain rfl := hlook.eq hlook'
      exact hheld
  | @update stmt plan rows st _ haccepts hplan hst hnext =>
    obtain ⟨-, -, mt, htable, -⟩ := accepts_update_iff.mp haccepts
    obtain ⟨update, rfl, hassigns⟩ :=
      EngineSetup.assigns_of_planUpdate htable (hmatches mt htable) hplan hst
    have hlook := findTable_eq_some_iff.mp htable
    refine ⟨(settled_next hs ?_).of_ok hnext, (typed_next hs htyped ?_).of_ok hnext⟩
    · exact Option.isSome_iff_exists.mpr ⟨mt, htable⟩
    · intro mt' hlook'
      obtain rfl := hlook.eq hlook'
      exact hassigns
  | @other e _ he hoccurs =>
    refine ⟨hs.step hoccurs, ?_⟩
    cases hoccurs with
    | @execute st _ hanalyze hnext =>
      refine (typed_next hs htyped ?_).of_ok hnext
      cases st with
      | insert | update => cases he
      | _ => trivial
    | restart hopens => exact htyped.reopened (hs.reopened hopens)

theorem typed_new (R : DataType → DataType → Prop) (generator : UUIDGenerator) :
    ({ generator } : StdDbInstance).rowView.Typed R :=
  fun _ _ hmt => nomatch hmt

/-- **The types of what is stored** are an invariant of runs in which the values of
every statement are of types that the columns take. -/
theorem typed_of_matching {generator : UUIDGenerator} {turns : List Turn}
    (hrun : Run (fun db turn db' => Happens setup db turn db' ∧ turn.Matches R setup db)
      { generator } turns db) :
    db.rowView.Typed R :=
  (hrun.invariant (P := fun db => Settled db ∧ db.rowView.Typed R)
    (fun _ _ _ hdb ⟨hstep, hmatches⟩ => hstep.step hdb.1 hdb.2 hmatches)
    ⟨settled_new generator, typed_new R generator⟩).2

/-- The analyzer sees to it that the values of a statement are compatible. -/
theorem Happens.matches_compatible {turn : Turn} (h : Happens setup db turn db') :
    turn.Matches Compatible setup db := by
  cases h with
  | insert haccepts => exact fun mt htable => haccepts.matches_insert htable
  | update haccepts => exact fun mt htable => haccepts.matches_update htable
  | other => trivial

/-- **What every run keeps**: a value is `NULL` or of a type that is compatible with
that of its column. -/
theorem typed_compatible {generator : UUIDGenerator} {turns : List Turn}
    (hrun : Run (Happens setup) { generator } turns db) :
    db.rowView.Typed Compatible :=
  typed_of_matching (hrun.mono fun _ _ _ h => ⟨h, h.matches_compatible⟩)

/-- **Every token has the type of its column, or is `NULL`, and every row has one
token for each column**, in a run in which the literals of every statement are
`NULL` or have the types of their columns. -/
theorem tokens_of_exact {generator : UUIDGenerator} {turns : List Turn}
    (hrun : Run (fun db turn db' => Happens setup db turn db' ∧ turn.Matches Eq setup db)
      { generator } turns db)
    {tableName schemaName : Bytes} {mt : MetaTable} (hlook : LooksUp db tableName schemaName mt)
    {row : DataRow} (hrow : row ∈ db.tableRows mt.id) :
    row.tokens.length = mt.columns.length
      ∧ ∀ (i : ℕ) column token, mt.columns[i]? = some column → row.tokens[i]? = some token →
        token.type = .null ∨ token.type = column.type := by
  obtain ⟨-, hheld⟩ := typed_of_matching hrun mt.id mt hlook.entry
  exact ⟨(hheld row hrow).length, (hheld row hrow).takes⟩

/-! ## An integer in a column of reals -/

/-- An engine with a default schema. -/
def plainSetup : EngineSetup where
  defaultSchema := [115]
  existsDb _ := false
  cheaper _ _ _ _ := false

/-- A table `t` with a column `x` of a type. -/
def createColumn (type : DataType) : Statement :=
  .createTable [116] [115] [{ name := [120], type := type }]

/-- `INSERT INTO t (x) VALUES (1)`. -/
def insertInteger : Sql.InsertStatement where
  table := { tableName := ⟨[116], 1, 12, .identifier⟩ }
  columns := [⟨[120], 1, 15, .identifier⟩]
  values := [[⟨[49], 1, 26, .literal .integer⟩]]

/-- What its executor carries out. -/
def insertedInteger : Statement := .insert [116] [115] (some [[120]]) [[⟨[1, 0, 0, 0], .integer⟩]]

/-- The table with the row. -/
def integerIn (type : DataType) : StdDbInstance :=
  insertedInteger.after ((createColumn type).after secondSession)

/-- **The statement is accepted and succeeds** when the column takes integers. -/
theorem run_integerIn {type : DataType} {P : StdDbInstance → Turn → Prop}
    (hother : ∀ db e, P db (.other e))
    (hP : P ((createColumn type).after secondSession) (.insert insertInteger))
    (hcreate : (createColumn type).returns secondSession = true)
    (hverdict : (plainSetup.analyzer ((createColumn type).after secondSession)).analyze
      (.insert insertInteger) = .ok .valid)
    (hinsert : insertedInteger.returns ((createColumn type).after secondSession) = true) :
    Run (fun db turn db' => Happens plainSetup db turn db' ∧ P db turn) {}
      [.other (.execute createSchema₁), .other .restart,
        .other (.execute (createColumn type)), .insert insertInteger] (integerIn type) := by
  have hnext : insertedInteger.next ((createColumn type).after secondSession)
      = .ok () (integerIn type) := by
    cases Statement.occurs_of_returns hinsert with
    | execute _ hnext => exact hnext
  have hschema : createSchema₁.returns {} = true := by decide +kernel
  have hplan : ∃ plan, (plainSetup.planner ((createColumn type).after secondSession)).planInsert
      insertInteger = .ok plan ∧ Statement.ofPlan (.ok []) plan = some insertedInteger :=
    ⟨_, rfl, rfl⟩
  obtain ⟨plan, hplan, hst⟩ := hplan
  exact .cons ⟨.other rfl (Statement.occurs_of_returns hschema), hother _ _⟩
    (.cons ⟨.other rfl occurs_secondSession, hother _ _⟩
      (.cons ⟨.other rfl (Statement.occurs_of_returns hcreate), hother _ _⟩
        (.single ⟨.insert ⟨_, hverdict, rfl⟩ hplan hst hnext, hP⟩)))

/-- The table as it is found afterwards. -/
def integersTable (type : DataType) : MetaTable where
  id := 4
  schemaId := 2
  name := [116]
  columns := [{ id := 5, tableId := 4, name := [120], type := type }]
  lastRid := 1
  totalRows := 1
  liveRows := 1

/-- Its row. -/
def integersRow : DataRow where
  tokens := [⟨[1, 0, 0, 0], .integer⟩]

/-- An integer in a column of integers. -/
theorem tokens_of_exact_integer :
    integersRow.tokens.length = (integersTable .integer).columns.length
      ∧ ∀ (i : ℕ) column token, (integersTable .integer).columns[i]? = some column →
        integersRow.tokens[i]? = some token → token.type = .null ∨ token.type = column.type := by
  have hmatches : Turn.Matches Eq plainSetup ((createColumn .integer).after secondSession)
      (.insert insertInteger) := by
    have htable : ∃ mt : MetaTable, mt.columns = (integersTable .integer).columns ∧
        (plainSetup.analyzer ((createColumn .integer).after secondSession)).getTable
          insertInteger.table = some mt :=
      ⟨{ id := 4, schemaId := 2, name := [116],
         columns := [{ id := 5, tableId := 4, name := [120], type := .integer }] },
        rfl, by decide +kernel⟩
    obtain ⟨mt, hcolumns, htable⟩ := htable
    intro mt' htable' values hvalues i value name column literal hvalue _ hcolumn hliteral
    obtain rfl := Option.some.inj (htable.symm.trans htable')
    obtain rfl := List.mem_singleton.mp hvalues
    have hmem := MetaTable.mem_of_getColumn hcolumn
    rw [hcolumns] at hmem
    obtain rfl := List.mem_singleton.mp hmem
    obtain rfl := List.mem_singleton.mp (List.mem_of_getElem? hvalue)
    cases hliteral
    exact .inr rfl
  have hrun := run_integerIn (P := fun db turn => turn.Matches Eq plainSetup db)
    (fun _ _ => trivial) hmatches (by decide +kernel) (by decide +kernel) (by decide +kernel)
  have hlook : LooksUp (integerIn .integer) [116] [115] (integersTable .integer) :=
    findTable_eq_some_iff.mp (by decide +kernel)
  have hrow : integersRow ∈ (integerIn .integer).tableRows (integersTable .integer).id := by
    decide +kernel
  exact tokens_of_exact hrun hlook hrow

/-- **An integer in a column of reals** is stored as an integer. -/
theorem tokens_not_exact :
    ¬ ∀ (setup : EngineSetup) (turns : List Turn) (db : StdDbInstance),
      Run (Happens setup) {} turns db → ∀ tableName schemaName mt,
        LooksUp db tableName schemaName mt → ∀ row ∈ db.tableRows mt.id,
          row.tokens.length = mt.columns.length
            ∧ ∀ (i : ℕ) column token, mt.columns[i]? = some column →
              row.tokens[i]? = some token → token.type = .null ∨ token.type = column.type := by
  intro h
  have hrun := run_integerIn (P := fun _ _ => True) (fun _ _ => trivial) trivial
    (by decide +kernel : (createColumn .real).returns secondSession = true)
    (by decide +kernel) (by decide +kernel)
  have hlook : LooksUp (integerIn .real) [116] [115] (integersTable .real) :=
    findTable_eq_some_iff.mp (by decide +kernel)
  have hrow : integersRow ∈ (integerIn .real).tableRows (integersTable .real).id := by
    decide +kernel
  obtain ⟨-, htypes⟩ := h plainSetup _ _ (hrun.mono fun _ _ _ h => h.1) [116] [115] _ hlook _ hrow
  rcases htypes 0 _ _ rfl rfl with hnull | hreal
  · cases hnull
  · cases hreal

end StdDbInstance
