import Deltabase.Recovery.CleanRestarts
import Mathlib.Logic.Relation

/-!
# What happens to the tables

A table is its catalog entry, its pages and the list of its row versions.
`TableStep` says once what can happen to the tables of an instance: one of them
is made, gets a row, has a row rewritten or marked obsolete, gets or loses an
index – or nothing happens to any of them, as when a transaction begins. A
statement that succeeds is a sequence of such steps (`steps_next`).

A clean restart is none: the tables are found again with their rows, in another
order of pages, and now their schemas are on disk (`Reopened`). What steps and
restarts preserve, a run preserves (`run_invariant`), without a word about
pools, logs or files.
-/

namespace RowView

open StdDbInstance Relation

variable {v v' : RowView}

/-- The schema of a table is on disk. -/
def SchemaOnDisk (v : RowView) (mt : MetaTable) : Prop := ∃ s ∈ v.ioSchemas, s.id = mt.schemaId

/-- **One table is saved**; the rows and pages of the others stay, and the table
gets a page only if its schema is on disk. -/
structure Saves (v v' : RowView) (mt : MetaTable) : Prop where
  entries : ∀ t, v'.entry t = if mt.id = t then some mt else v.entry t
  others : ∀ t, t ≠ mt.id → v'.rows t = v.rows t
  pages : ∀ t, v'.ids t = v.ids t ∨ t = mt.id ∧ v.SchemaOnDisk mt
  schemas : v'.ioSchemas = v.ioSchemas
  clock : v.clock ≤ v'.clock

/-- **Nothing happens to the tables.** -/
structure Steady (v v' : RowView) : Prop where
  entries : v'.entry = v.entry
  rows : v'.rows = v.rows
  pages : v'.ids = v.ids
  schemas : v'.ioSchemas = v.ioSchemas
  clock : v.clock ≤ v'.clock

theorem Steady.trans {v'' : RowView} (h : Steady v v') (h' : Steady v' v'') : Steady v v'' where
  entries := h'.entries.trans h.entries
  rows := h'.rows.trans h.rows
  pages := h'.pages.trans h.pages
  schemas := h'.schemas.trans h.schemas
  clock := h.clock.trans h'.clock

/-- **What can happen to the tables** in one step. -/
inductive TableStep (v v' : RowView) : Prop
  | idle (steady : Steady v v')
  /-- `create_table` -/
  | create {mt : MetaTable} (saves : Saves v v' mt) (rows : v'.rows = v.rows)
      (pages : v'.ids = v.ids) (unused : v.ids mt.id = []) (indexes : mt.indexes = [])
      (total : mt.totalRows = 0) (live : mt.liveRows = 0)
  /-- `insert_row` -/
  | insert {mt : MetaTable} {cols : Option (List Bytes)} {tokens : List DataToken}
      (before : v.entry mt.id = some mt) (saves : Saves v v' (mt.makeRow cols tokens).2)
      (added : Added (mt.makeRow cols tokens).1 (v.rows mt.id) (v'.rows mt.id))
  /-- one row of `update_row` -/
  | update {mt : MetaTable} {row newRow : DataRow} {mid : List DataRow}
      (before : v.entry mt.id = some mt) (live : row.obsolete = false)
      (newLive : newRow.obsolete = false) (saves : Saves v v' (counted mt))
      (marked : Marked row (v.rows mt.id) mid) (added : Added newRow mid (v'.rows mt.id))
  /-- one row of `delete_rows` -/
  | delete {mt : MetaTable} {row : DataRow} (before : v.entry mt.id = some mt)
      (live : row.obsolete = false) (saves : Saves v v' (discounted mt))
      (marked : Marked row (v.rows mt.id) (v'.rows mt.id))
  /-- `create_index` -/
  | createIndex {mt : MetaTable} {mi : MetaIndex} (before : v.entry mt.id = some mt)
      (saves : Saves v v' { mt with indexes := mt.indexes ++ [mi] }) (rows : v'.rows = v.rows)
      (id : mi.id = v.clock) (clock : v.clock < v'.clock)
  /-- `drop_index` -/
  | dropIndex {mt : MetaTable} {index : MetaIndex} (before : v.entry mt.id = some mt)
      (saves : Saves v v'
        { mt with indexes := mt.indexes.filter fun mi => mi.id ≠ index.id })
      (rows : v'.rows = v.rows)

/-- A sequence of steps. -/
abbrev TableSteps : RowView → RowView → Prop := ReflTransGen TableStep

/-- **The tables are found again** by a new instance. -/
structure Reopened (v v' : RowView) : Prop where
  entries : v'.entry = v.entry
  rows : ∀ t, (v'.rows t).Perm (v.rows t)
  schemas : ∀ t mt, v'.entry t = some mt → v'.SchemaOnDisk mt
  clock : v.clock ≤ v'.clock

/-- What each step preserves, a sequence of steps preserves. -/
theorem TableSteps.preserves {P : RowView → Prop} (h : TableSteps v v')
    (hstep : ∀ v v', P v → TableStep v v' → P v') (hv : P v) : P v' := by
  induction h with
  | refl => exact hv
  | tail _ hone ih => exact hstep _ _ ih hone

theorem TableStep.schemas (h : TableStep v v') : v'.ioSchemas = v.ioSchemas := by
  cases h with
  | idle steady => exact steady.schemas
  | create saves => exact saves.schemas
  | insert _ saves => exact saves.schemas
  | update _ _ _ saves => exact saves.schemas
  | delete _ _ saves => exact saves.schemas
  | createIndex _ saves => exact saves.schemas
  | dropIndex _ saves => exact saves.schemas

/-- **No statement writes a schema** to disk. -/
theorem TableSteps.schemas (h : TableSteps v v') : v'.ioSchemas = v.ioSchemas :=
  h.preserves (P := fun w => w.ioSchemas = v.ioSchemas) (fun _ _ h hstep => hstep.schemas.trans h)
    rfl

/-! ## Steps of the loops -/

theorem ids_congr (hlists : v'.lists = v.lists) : v'.ids = v.ids := by
  unfold ids
  rw [hlists]

theorem rows_congr (hpage : v'.page = v.page) (hlists : v'.lists = v.lists) : v'.rows = v.rows := by
  unfold rows pageRows
  rw [hpage, ids_congr hlists]

/-- The catalog and the pages decide what is seen of the tables. -/
theorem Steady.of_eq (hcatalog : v'.catalog.tables = v.catalog.tables) (hpage : v'.page = v.page)
    (hlists : v'.lists = v.lists) (hschemas : v'.ioSchemas = v.ioSchemas)
    (hclock : v.clock ≤ v'.clock) : Steady v v' where
  entries := by
    unfold entry
    rw [hcatalog]
  rows := rows_congr hpage hlists
  pages := ids_congr hlists
  schemas := hschemas
  clock := hclock

/-- Saving a table, when the pages are left alone. -/
theorem Saves.of_eq {mt : MetaTable} (hcatalog : v'.catalog = v.catalog.saveTable mt)
    (hpage : v'.page = v.page) (hlists : v'.lists = v.lists)
    (hschemas : v'.ioSchemas = v.ioSchemas) (hclock : v.clock ≤ v'.clock) : Saves v v' mt where
  entries t := by
    rw [← entry_save]
    unfold entry
    rw [hcatalog]
    rfl
  others t _ := congrFun (rows_congr hpage hlists) t
  pages t := .inl (congrFun (ids_congr hlists) t)
  schemas := hschemas
  clock := hclock

/-- The table whose rows are gone through is in the catalog as it is at that point. -/
theorem Within.entry_self {mt mw : MetaTable} {w : RowView} (h : Within v mt w mw) :
    w.entry mw.id = some mw := by
  rw [h.entries, if_pos h.same.id.symm]

/-- **A row of an update** is marked, and its new version added. -/
theorem Updates.saves {v : RowView} {mt : MetaTable} {update : RowUpdate}
    {unchangedMt : MetaTable} {pageId : DataPageId} {i : ℕ} {row : DataRow} {ids : List ℕ}
    {s s' : LoopState} (hok : v.Ok) (hs : Within v mt s.1 s.2.mt) (hmem : pageId ∈ v.ids mt.id)
    (htarget : Target s.1 ids pageId i row) (h : Updates update unchangedMt pageId i row s s') :
    Saves s.1 s'.1 (counted s.2.mt)
      ∧ ∃ tokens mid, assignTokens (numbered s.2.mt) update row = .ok tokens
        ∧ Marked row (s.1.rows s.2.mt.id) mid
        ∧ Added { row with id := s.2.mt.lastRid + 1, tokens := tokens } mid
            (s'.1.rows s.2.mt.id) := by
  obtain ⟨p, hpage, hrow, -, -⟩ := htarget
  have hids : pageId ∈ s.1.ids s.2.mt.id := hs.keeps.ids ▸ hs.same.id ▸ hmem
  have hwithin := hs.keeps.ok hok
  cases h with
  | @intro w loop tokens hassign =>
    set newRow : DataRow := { row with id := loop.mt.lastRid + 1, tokens := tokens }
    obtain ⟨mid, hmarked, hadded⟩ :=
      replaced_rows hwithin newRow unchangedMt loop.mt hids hpage hrow
    have hkeeps := keeps_replaced w pageId i row newRow unchangedMt loop.mt
    refine ⟨⟨fun t => entry_replaced w pageId i row newRow unchangedMt loop.mt t, fun t ht => ?_,
      fun t => .inl (by rw [hkeeps.ids]), rfl, hkeeps.clock.ge⟩, tokens, mid, hassign, hmarked,
      hadded⟩
    refine replaced_rows_of_not_mem i row newRow unchangedMt loop.mt fun hin => ht ?_
    exact hwithin.table_eq hin hids

/-- So it is one step. -/
theorem Updates.step {v : RowView} {mt : MetaTable} {update : RowUpdate} {unchangedMt : MetaTable}
    {pageId : DataPageId} {i : ℕ} {row : DataRow} {ids : List ℕ} {s s' : LoopState} (hok : v.Ok)
    (hs : Within v mt s.1 s.2.mt) (hmem : pageId ∈ v.ids mt.id)
    (htarget : Target s.1 ids pageId i row) (h : Updates update unchangedMt pageId i row s s') :
    TableStep s.1 s'.1 := by
  obtain ⟨hsaves, tokens, mid, -, hmarked, hadded⟩ := h.saves hok hs hmem htarget
  obtain ⟨_, _, _, _, hlive⟩ := htarget
  have hnew :
      ({ row with id := s.2.mt.lastRid + 1, tokens := tokens } : DataRow).obsolete = false :=
    hlive
  exact .update hs.entry_self hlive hnew hsaves hmarked hadded

/-- **A row of a delete** is marked. -/
theorem Deletes.saves {v : RowView} {mt : MetaTable} {unchangedMt : MetaTable}
    {pageId : DataPageId} {i : ℕ} {row : DataRow} {ids : List ℕ} {s s' : LoopState} (hok : v.Ok)
    (hs : Within v mt s.1 s.2.mt) (hmem : pageId ∈ v.ids mt.id)
    (htarget : Target s.1 ids pageId i row) (h : Deletes unchangedMt pageId i row s s') :
    Saves s.1 s'.1 (discounted s.2.mt)
      ∧ Marked row (s.1.rows s.2.mt.id) (s'.1.rows s.2.mt.id) := by
  obtain ⟨p, hpage, hrow, -, -⟩ := htarget
  have hids : pageId ∈ s.1.ids s.2.mt.id := hs.keeps.ids ▸ hs.same.id ▸ hmem
  have hwithin := hs.keeps.ok hok
  cases h with
  | @intro w loop =>
    have hkeeps := keeps_superseded w pageId i (discounted loop.mt)
    refine ⟨⟨fun t => entry_superseded w pageId i (discounted loop.mt) t, fun t ht => ?_,
        fun t => .inl (congrFun hkeeps.ids t), rfl, hkeeps.clock.ge⟩,
      marked_superseded hwithin (discounted loop.mt) hids hpage hrow⟩
    refine superseded_rows_of_not_mem i (discounted loop.mt) fun hin => ht ?_
    exact hwithin.table_eq hin hids

/-- So it is one step. -/
theorem Deletes.step {v : RowView} {mt : MetaTable} {unchangedMt : MetaTable}
    {pageId : DataPageId} {i : ℕ} {row : DataRow} {ids : List ℕ} {s s' : LoopState} (hok : v.Ok)
    (hs : Within v mt s.1 s.2.mt) (hmem : pageId ∈ v.ids mt.id)
    (htarget : Target s.1 ids pageId i row) (h : Deletes unchangedMt pageId i row s s') :
    TableStep s.1 s'.1 := by
  obtain ⟨hsaves, hmarked⟩ := h.saves hok hs hmem htarget
  obtain ⟨_, _, _, _, hlive⟩ := htarget
  exact .delete hs.entry_self hlive hsaves hmarked

/-- Leaving a page is idle. -/
theorem steady_leave (pageId : DataPageId) (s : LoopState) : Steady s.1 (leave pageId s) where
  entries := entry_leave pageId s
  rows := rows_leave pageId s
  pages := (keeps_leave pageId s).ids
  schemas := by
    unfold leave
    split_ifs <;> rfl
  clock := (keeps_leave pageId s).clock.ge

/-- There are no pages of a table that is yet to be made. -/
theorem Logged.ids_eq_nil {H : List WalRecord} (h : Logged H Set.univ v)
    {t : TableId} (ht : v.clock ≤ t) : v.ids t = [] := by
  refine List.eq_nil_iff_forall_not_mem.mpr fun id hid => ?_
  obtain ⟨p, hp, htable⟩ := h.pages.ok.listed t id hid
  obtain ⟨t₀, ht₀, hid₀, -⟩ := (h.pages.pages id p hp trivial).placed
  have hlt := h.catalog.tableIds t₀ ht₀
  rw [hid₀, htable] at hlt
  exact absurd ht (Nat.not_le.mpr hlt)

/-- The schema of a table of the catalog has been made. -/
theorem CatalogLogged.exists_schema {H : List WalRecord} {T : Set TableId}
    (h : CatalogLogged H T v) {t : TableId} {mt : MetaTable} (hentry : v.entry t = some mt) :
    ∃ s ∈ v.catalog.schemas, s.id = mt.schemaId := by
  obtain ⟨t₀, ht₀, -, hsame⟩ := h.exists_created hentry
  obtain ⟨s, hs, hid⟩ := h.log.exists_schema t₀ ht₀
  exact ⟨s, (h.schemas s).mpr hs, hid.trans hsame.2.2⟩

theorem CatalogLogged.schemaId_pos {H : List WalRecord} {T : Set TableId}
    (h : CatalogLogged H T v) {t : TableId} {mt : MetaTable} (hentry : v.entry t = some mt) :
    0 < mt.schemaId := by
  obtain ⟨s, hs, hid⟩ := h.exists_schema hentry
  rw [← hid]
  exact (h.schemaIds s ((h.schemas s).mp hs)).1

/-- A schema that is read under an id is on disk, unless the id is null. -/
theorem exists_schema_of_read {id : UUID} {schema : MetaSchema}
    (h : FileIOManager.readSchemaMeta { schemas := v.ioSchemas } id = .ok schema)
    (hid : id ≠ UUID.null) : ∃ s ∈ v.ioSchemas, s.id = id := by
  unfold FileIOManager.readSchemaMeta at h
  cases hfind : v.ioSchemas.reverse.find? (fun s => s.id = id) with
  | some s =>
    have hs := List.mem_reverse.mp (List.mem_of_find?_eq_some hfind)
    have hsome := List.find?_some hfind
    exact ⟨s, hs, of_decide_eq_true hsome⟩
  | none =>
    simp only [hfind, if_neg hid] at h
    cases h

/-- Preparing a page writes no schema, and lists a page only for its table, whose
schema is on disk. -/
theorem Prepared.pages {mt : MetaTable} {size : ℕ} {id : DataPageId}
    (h : Prepared mt size v id v') (hschema : 0 < mt.schemaId) :
    v'.ioSchemas = v.ioSchemas ∧ ∀ t, v'.ids t = v.ids t ∨ t = mt.id ∧ v.SchemaOnDisk mt := by
  cases h with
  | existing => exact ⟨rfl, fun t => .inl rfl⟩
  | @created schema hread =>
    have hkeeps := keeps_link (v.create mt.id (DataPage.make (schema.name, mt.name) mt.id v.clock))
      (StdDbInstance.tailPage (v.pages mt.id)) v.clock
    refine ⟨?_, fun t => ?_⟩
    · unfold link
      split <;> rfl
    · rw [hkeeps.ids, ids_create]
      split_ifs with ht
      · exact .inr ⟨ht, exists_schema_of_read hread hschema.ne'⟩
      · exact .inl rfl

/-- **The loops over the rows of a table** are steps. -/
theorem PagesVisited.steps {R : DataPageId → ℕ → DataRow → LoopState → LoopState → Prop}
    {ids : List ℕ} {mt mt' : MetaTable}
    (hstep : ∀ pageId ∈ v.ids mt.id, ∀ i row s s', Within v mt s.1 s.2.mt →
      Target s.1 ids pageId i row → R pageId i row s s' →
      Within v mt s'.1 s'.2.mt ∧ TableStep s.1 s'.1)
    (h : PagesVisited R ids (v.ids mt.id) v mt v' mt') (hentry : v.entry mt.id = some mt) :
    TableSteps v v' := by
  refine (h.preserves (P := fun w mw => Within v mt w mw ∧ TableSteps v w)
    (fun pageId hmem i row s s' htarget hR hs => ?_) (fun pageId s hs => ?_)
    ⟨.refl hentry, .refl⟩).2
  · obtain ⟨hwithin, hone⟩ := hstep pageId hmem i row s s' hs.1 htarget hR
    exact ⟨hwithin, hs.2.tail hone⟩
  · exact ⟨hs.1.leave pageId, hs.2.tail (.idle (steady_leave pageId s))⟩

end RowView

/-! ## Steps of the statements -/

namespace StdDbInstance

open BufferPool Transaction FileIOManager RowView History Relation

variable {db db' : StdDbInstance}

theorem steps_createSchema (h : Running Set.univ db.rowView) (dbName schemaName : Bytes) :
    Ensures (createSchema dbName schemaName) db
      (fun _ db' => TableSteps db.rowView db'.rowView) fun _ _ => True := by
  refine (ensures_createSchema h.active dbName schemaName).mono (fun _ db' hview => ?_)
    fun _ _ _ => trivial
  rw [hview]
  exact .single (.idle (.of_eq rfl rfl rfl rfl (UUIDGenerator.le_next _ _)))

theorem steps_createTable (h : Running Set.univ db.rowView) (tableName schemaName : Bytes)
    (columns : List ColumnDefinition) :
    Ensures (createTable tableName schemaName columns) db
      (fun _ db' => TableSteps db.rowView db'.rowView) fun _ _ => True := by
  refine (ensures_createTable h.active tableName schemaName columns).mono_ok fun _ db' hdb' => ?_
  obtain ⟨schema, metaColumns, now, -, -, hclock, hview⟩ := hdb'
  rw [hview]
  set mt : MetaTable :=
    { id := db.clock, schemaId := schema.id, name := tableName, columns := metaColumns }
  have hunused : db.rowView.ids mt.id = [] := h.logged.ids_eq_nil le_rfl
  exact .single (.create (.of_eq rfl rfl rfl rfl hclock.le) (rows_congr rfl rfl) (ids_congr rfl)
    hunused rfl rfl rfl)

theorem steps_createIndex (h : Running Set.univ db.rowView)
    (indexName tableName columnName schemaName : Bytes) (isUnique : Bool) :
    Ensures (createIndex indexName tableName columnName schemaName isUnique) db
      (fun _ db' => TableSteps db.rowView db'.rowView) fun _ _ => True := by
  refine (ensures_createIndex h.active h.logged.pages.ok indexName tableName columnName schemaName
    isUnique).mono (fun _ db' hdb' => ?_) fun _ _ _ => trivial
  obtain ⟨table, column, -, hlook, -, -, hview, -⟩ := hdb'
  rw [hview]
  set mi := newIndex db table column indexName isUnique
  exact .single (.createIndex hlook.entry (.of_eq rfl rfl rfl rfl (UUIDGenerator.le_next _ _))
    (rows_congr rfl rfl) (show mi.id = db.clock from rfl) (UUIDGenerator.lt_next _ _))

theorem steps_dropIndex (h : Running Set.univ db.rowView)
    (indexName tableName schemaName : Bytes) :
    Ensures (dropIndex indexName tableName schemaName) db
      (fun _ db' => TableSteps db.rowView db'.rowView) fun _ _ => True := by
  refine (ensures_dropIndex h.active indexName tableName schemaName).mono_ok fun _ db' hdb' => ?_
  obtain ⟨table, index, hlook, -, hview⟩ := hdb'
  rw [hview]
  exact .single (.dropIndex hlook.entry (.of_eq rfl rfl rfl rfl le_rfl) (rows_congr rfl rfl))

theorem steps_insertRow (h : Running Set.univ db.rowView) (tableName schemaName : Bytes)
    (cols : Option (List Bytes)) (tokens : List DataToken) :
    Ensures (insertRow tableName schemaName cols tokens) db
      (fun _ db' => TableSteps db.rowView db'.rowView) fun _ _ => True := by
  refine (ensures_insertRow h.active h.logged.pages.ok tableName schemaName cols tokens).mono
    (fun _ db' hdb' => ?_) fun _ _ _ => trivial
  obtain ⟨mt, hlook, ⟨id, v, hprep, hview⟩, -⟩ := hdb'
  rw [hview]
  obtain ⟨-, hadded, hothers, hentries⟩ :=
    hprep.inserted h.logged.pages.ok (mt.makeRow cols tokens).1 mt
  have hpos : 0 < mt.schemaId := h.logged.catalog.schemaId_pos hlook.entry
  obtain ⟨hschemas, hpages⟩ := hprep.pages hpos
  exact .single (.insert hlook.entry ⟨hentries, hothers, hpages, hschemas, hprep.clock_le⟩ hadded)

theorem steps_updateRow (h : Running Set.univ db.rowView) (tableName schemaName : Bytes)
    (update : RowUpdate) (rows : List DataRow) :
    Ensures (updateRow tableName schemaName update rows) db
      (fun _ db' => TableSteps db.rowView db'.rowView) fun _ _ => True := by
  have hok := h.logged.pages.ok
  refine (ensures_updateRow h.active hok tableName schemaName update rows).mono
    (fun _ db' hdb' => ?_) fun _ _ _ => trivial
  obtain ⟨mt, mt', hlook, hvisited⟩ := hdb'
  refine PagesVisited.steps (fun pageId hmem i row s s' hs htarget hR => ?_) hvisited hlook.entry
  exact ⟨hs.updates hok hmem hR, hR.step hok hs hmem htarget⟩

theorem steps_deleteRows (h : Running Set.univ db.rowView) (tableName schemaName : Bytes)
    (rows : List DataRow) :
    Ensures (deleteRows tableName schemaName rows) db
      (fun _ db' => TableSteps db.rowView db'.rowView) fun _ _ => True := by
  have hok := h.logged.pages.ok
  refine (ensures_deleteRows h.active hok tableName schemaName rows).mono
    (fun _ db' hdb' => ?_) fun _ _ _ => trivial
  obtain ⟨mt, mt', hlook, hvisited⟩ := hdb'
  refine PagesVisited.steps (fun pageId hmem i row s s' hs htarget hR => ?_) hvisited hlook.entry
  exact ⟨hs.deletes hok hmem hR, hR.step hok hs hmem htarget⟩

/-- **What a statement does** to the tables is a sequence of steps. -/
theorem steps_body (st : Statement) (h : Running Set.univ db.rowView)
    (hanalyze : st.analyze db = true) :
    Ensures st.body db (fun _ db' => TableSteps db.rowView db'.rowView) fun _ _ => True := by
  cases st with
  | createSchema dbName schemaName => exact steps_createSchema h dbName schemaName
  | createTable tableName schemaName columns => exact steps_createTable h _ _ _
  | insert tableName schemaName cols rows =>
    refine (Ensures.forM_of_preserves
      (fun db₁ => Running Set.univ db₁.rowView ∧ TableSteps db.rowView db₁.rowView)
      (fun tokens _ db₁ hdb₁ => ?_) ⟨h, .refl⟩).mono_ok fun _ _ h => h.2
    have hrunning := running_insertRow hdb₁.1 tableName schemaName cols tokens
    have hsteps := steps_insertRow hdb₁.1 tableName schemaName cols tokens
    exact ensures_iff.mpr ⟨fun _ _ hrun => ⟨hrunning.of_ok hrun, hdb₁.2.trans (hsteps.of_ok hrun)⟩,
      fun _ _ _ => trivial⟩
  | update tableName schemaName assignments rows =>
    show Ensures (liftExcept rows >>= _) db _ _
    rw [ensures_bind, ensures_liftExcept]
    exact ⟨fun rows _ => steps_updateRow h _ _ _ rows, fun _ _ => trivial⟩
  | delete tableName schemaName rows =>
    show Ensures (liftExcept rows >>= _) db _ _
    rw [ensures_bind, ensures_liftExcept]
    exact ⟨fun rows _ => steps_deleteRows h _ _ rows, fun _ _ => trivial⟩
  | createIndex indexName tableName columnName schemaName isUnique =>
    exact steps_createIndex h _ _ _ _ _
  | dropIndex indexName tableName schemaName => exact steps_dropIndex h _ _ _

/-! ## Steps of a run -/

/-- Beginning a transaction is idle. -/
theorem steady_begin (db : StdDbInstance) :
    Ensures (makeTransaction >>= fun _ => begin) db
      (fun _ db' => Steady db.rowView db'.rowView) fun _ _ => True := by
  unfold makeTransaction begin
  rw [ensures_bind, ensures_bind, ensures_make, ensures_modify, ensures_bind, ensures_get]
  show Ensures (modify _ >>= fun _ => modify _) _ _ _
  rw [ensures_bind, ensures_modify, ensures_modify]
  exact .of_eq rfl rfl rfl rfl (UUIDGenerator.le_next _ _)

theorem steady_commitLog (db : StdDbInstance) :
    Ensures commitLog db (fun _ db' => Steady db.rowView db'.rowView) fun _ _ => True := by
  unfold commitLog
  rw [ensures_bind, ensures_get]
  split_ifs with hstate
  · trivial
  · show Ensures (modify _ >>= fun _ => modify _) _ _ _
    rw [ensures_bind, ensures_modify, ensures_modify]
    exact .of_eq rfl rfl rfl rfl le_rfl

/-- Committing it is idle as well. -/
theorem steady_commit (db : StdDbInstance) :
    Ensures commit db (fun _ db' => Steady db.rowView db'.rowView) fun _ _ => True := by
  unfold commit
  rw [ensures_bind]
  refine (steady_commitLog db).mono_ok fun _ db₁ hsteady => ?_
  show Ensures (modify _ >>= fun _ => modify _) _ _ _
  rw [ensures_bind, ensures_modify, ensures_modify]
  have hview : (flushDirty db₁.txn.lastLsn db₁).rowView
      = db₁.rowView.writePages (db₁.written db₁.txn.lastLsn fun _ => true) :=
    rowView_flushSome db₁.txn.lastLsn (fun _ => true) (fun _ => true) db₁
  have hflush : Steady db₁.rowView (flushDirty db₁.txn.lastLsn db₁).rowView := by
    rw [hview]
    exact .of_eq rfl rfl rfl rfl le_rfl
  exact hsteady.trans ⟨hflush.entries, hflush.rows, hflush.pages, hflush.schemas, hflush.clock⟩

/-- **The rule for statements that are executed**: what holds before and is left
alone by idle steps holds afterwards, when the body sees to that. -/
theorem ensures_next {P : RowView → Prop} (hidle : ∀ v v', Steady v v' → P v → P v')
    (h : Settled db) (hP : P db.rowView) {st : Statement}
    (hbody : ∀ db₁, Running Set.univ db₁.rowView → db₁.catalog = db.catalog → P db₁.rowView →
      Ensures st.body db₁ (fun _ db' => P db'.rowView) fun _ _ => True) :
    Ensures st.next db (fun _ db' => P db'.rowView) fun _ _ => True := by
  have hbegin := running_begin h.resting
  have hsteady := steady_begin db
  have hrest : Ensures (makeTransaction >>= fun _ => begin) db
      (fun _ db₁ => Ensures (st.body >>= fun _ => commit) db₁ (fun _ db' => P db'.rowView)
        fun _ _ => True) fun _ _ => True := by
    refine ensures_iff.mpr ⟨fun _ db₁ hrun => ?_, fun _ _ _ => trivial⟩
    obtain ⟨hrunning, hcatalog⟩ := hbegin.of_ok hrun
    have hP₁ : P db₁.rowView := hidle _ _ (hsteady.of_ok hrun) hP
    rw [ensures_bind]
    refine (hbody db₁ hrunning hcatalog hP₁).mono_ok fun _ db₂ hP₂ => ?_
    exact (steady_commit db₂).mono_ok fun _ db₃ hcommit => hidle _ _ hcommit hP₂
  unfold Statement.next
  rw [ensures_bind] at hrest ⊢
  refine hrest.mono (fun _ db₁ hrest₁ => ?_) fun _ _ _ => trivial
  rw [ensures_bind]
  exact hrest₁

/-- **A statement that is executed** is a sequence of steps. -/
theorem steps_next (h : Settled db) {st : Statement} (hanalyze : st.analyze db = true) :
    Ensures st.next db (fun _ db' => TableSteps db.rowView db'.rowView) fun _ _ => True := by
  refine ensures_next (P := fun v => TableSteps db.rowView v)
    (fun v v' hsteady hsteps => hsteps.tail (.idle hsteady)) h .refl
    fun db₁ hrunning hcatalog hsteps => ?_
  have hanalyze₁ : st.analyze db₁ = true := (analyze_congr st hcatalog).trans hanalyze
  exact (steps_body st hrunning hanalyze₁).mono_ok fun _ _ hbody => hsteps.trans hbody

/-- The schemas in the catalog of an instance that has been opened are those on
disk. -/
theorem Opens.mem_schemas {disk : Disk} {wal : AppendOnlyLog} {clock : ℕ}
    (h : Opens disk wal clock db) {s : MetaSchema} (hs : s ∈ db.catalog.schemas) :
    s ∈ db.io.schemas := by
  obtain ⟨-, -, -, listing, generator⟩ := h
  exact (CatalogCache.mem_of_mem_foldl_emplace hs).resolve_left List.not_mem_nil

/-- **A clean restart** finds the tables, whose schemas are on disk now. -/
theorem Settled.reopened (h : Settled db)
    (hopens : Opens (db.catalog.flush db.io) db.keptLog db.clock db') :
    Reopened db.rowView db'.rowView := by
  obtain ⟨hsettled, hfound⟩ := h.reopen hopens
  refine ⟨hfound.entry, hfound.rows_perm, fun t mt hentry => ?_, ?_⟩
  · obtain ⟨s, hs, hid⟩ := hsettled.resting.logged.catalog.exists_schema hentry
    exact ⟨s, hopens.mem_schemas hs, hid⟩
  · obtain ⟨-, -, hclock, listing, generator⟩ := hopens
    exact hclock

/-- **The invariant rule for runs**: what steps and restarts preserve. -/
theorem run_invariant {generator : UUIDGenerator} {P : RowView → Prop}
    (hnew : P ({ generator } : StdDbInstance).rowView)
    (hstep : ∀ v v', P v → TableStep v v' → P v') (hreopen : ∀ v v', P v → Reopened v v' → P v')
    {es : List Event} (hrun : Run Occurs { generator } es db) : P db.rowView := by
  refine (hrun.invariant (P := fun db => Settled db ∧ P db.rowView) (fun db _ db' h hoccurs => ?_)
    ⟨settled_new generator, hnew⟩).2
  refine ⟨h.1.step hoccurs, ?_⟩
  cases hoccurs with
  | execute hanalyze hnext =>
    exact ((steps_next h.1 hanalyze).of_ok hnext).preserves hstep h.2
  | restart hopens => exact hreopen _ _ h.2 (h.1.reopened hopens)

end StdDbInstance
