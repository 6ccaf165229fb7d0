import Deltabase.Recovery.TableSteps
import Deltabase.Storage.RefusedIndex

/-!
# Schemas of this session and of earlier ones

A schema enters the catalog and the log when it is made. It is written to disk
when the instance is closed, or by the redo pass of the next one: no statement
writes it, whether it succeeds or throws (`respects_next`). The pages of a
table, on the other hand, are made while statements run, and `create_page` looks
the schema up among the files to find the directory.

So `prepare_dp` serves the tables of the schemas that were there when the
session began, and of no others. The default schema of a new database is not
one of them: `set_db_instance` makes it at the beginning of the session that
creates the database, and every insert of that session throws.

An index of a table in such a schema makes the directory of the schema, without
its meta file. From then on no schema can be looked up, and `prepare_dp` serves a
table only with a page that it finds.
-/

/-- Whether a statement makes the file of an index. -/
def Statement.makesIndex : Statement → Bool
  | .createIndex _ _ _ _ _ => true
  | _ => false

namespace StdDbInstance

open BufferPool Transaction FileIOManager RowView Relation

variable {db db' : StdDbInstance} {α : Type}

/-! ## No statement writes a schema -/

/-- The schemas on disk are the same. -/
def SameSchemas (db db' : StdDbInstance) : Prop := db'.io.schemas = db.io.schemas

instance : IsPreorder StdDbInstance SameSchemas where
  refl _ := rfl
  trans _ _ _ h h' := h'.trans h

/-- The files are the same, and index files go on saying what they are. -/
structure SameFiles (db db' : StdDbInstance) : Prop where
  io : db'.io = db.io
  labelled : db.Labelled → db'.Labelled

instance : IsPreorder StdDbInstance SameFiles where
  refl _ := ⟨rfl, fun h => h⟩
  trans _ _ _ h h' := ⟨h'.io.trans h.io, h'.labelled ∘ h.labelled⟩

theorem sameFiles_of_lists {m : Prog α} (h : Respects SameLists m) : Respects SameFiles m :=
  h.mono fun _ _ hlists => ⟨hlists.disk, hlists.labelled⟩

/-- What leaves all files alone leaves the schemas alone. -/
theorem sameSchemas_of_files {m : Prog α} (h : Respects SameFiles m) : Respects SameSchemas m :=
  h.mono fun _ _ hfiles => congrArg Disk.schemas hfiles.io

/-- Index files that are the same say what they said. -/
theorem sameFiles_of_eq (hio : db'.io = db.io)
    (hpool : db'.pool.indexFiles = db.pool.indexFiles) : SameFiles db db' := by
  refine ⟨hio, fun hlabelled => ⟨?_, ?_⟩⟩
  · rw [hpool]
    exact hlabelled.pool
  · rw [hio]
    exact hlabelled.disk

theorem respects_change {f : StdDbInstance → StdDbInstance}
    (hf : ∀ db, (f db).io = db.io ∧ (f db).pool.indexFiles = db.pool.indexFiles) :
    Respects SameFiles (modify f : Prog PUnit) :=
  respects_modify fun db => sameFiles_of_eq (hf db).1 (hf db).2

theorem respects_changeFiles {f : StdDbInstance → StdDbInstance}
    (hf : ∀ db, (f db).io.schemas = db.io.schemas) :
    Respects SameSchemas (modify f : Prog PUnit) := respects_modify hf

theorem respects_make : Respects SameFiles UUID.make := fun _ => sameFiles_of_eq rfl rfl

theorem respects_getSchema (schemaName : Bytes) : Respects SameFiles (getSchema schemaName) := by
  refine respects_get.bind fun db => ?_
  cases db.catalog.getSchema schemaName with
  | none => exact respects_throw _
  | some schema => exact respects_pure schema

theorem respects_getTable (tableName schemaName : Bytes) :
    Respects SameFiles (getTable tableName schemaName) := by
  refine (respects_getSchema schemaName).bind fun schema => respects_get.bind fun db => ?_
  cases db.catalog.getTable tableName schema.id with
  | none => exact respects_throw _
  | some table => exact respects_pure table

theorem respects_saveTable (mt : MetaTable) : Respects SameFiles (saveTable mt) :=
  respects_change fun _ => ⟨rfl, rfl⟩

theorem respects_modifyDp (id : DataPageId) (f : DataPage → DataPage) :
    Respects SameFiles (modifyDp id f) := respects_change fun _ => ⟨rfl, rfl⟩

theorem respects_dirtyDp (id : DataPageId) : Respects SameFiles (dirtyDp id) :=
  respects_change fun _ => ⟨rfl, rfl⟩

theorem respects_setIfLsn (id : IndexId) (lsn : ℕ) : Respects SameFiles (setIfLsn id lsn) :=
  respects_modify fun _ => ⟨rfl, fun h => h.setIfLsn id lsn⟩

/-- A program that is only run in some state. -/
theorem respects_guard {c : Prop} [Decidable c] {e : Exn} {m : Prog α}
    (h : Respects SameFiles m) :
    Respects SameFiles (do
      if c then throw e
      m) := by
  split_ifs
  · exact (respects_throw e).bind fun _ => h
  · exact (respects_pure ()).bind fun _ => h

theorem respects_appendLog (body : WalBody) : Respects SameFiles (appendLog body) :=
  respects_get.bind fun _ => respects_guard (respects_change fun _ => ⟨rfl, rfl⟩)

theorem respects_getLastLsn : Respects SameFiles getLastLsn :=
  respects_get.bind fun _ => respects_pure _

/-! ### Indexes of a row -/

theorem respects_isRowObsolete (rowPtr : RowPtr) : Respects SameFiles (isRowObsolete rowPtr) := by
  refine (sameFiles_of_lists (respects_getDp rowPtr.1)).bind fun found => ?_
  cases found with
  | none => exact respects_pure _
  | some page =>
    dsimp only
    cases page.rows.find? fun row => row.id = rowPtr.2 with
    | none => exact respects_pure _
    | some row => exact respects_pure _

theorem respects_checkUnique (mt : MetaTable) (mi : MetaIndex) (key : DataToken) :
    Respects SameFiles (checkUnique mt mi key) := by
  have hfind : Respects SameFiles (treeFind mt.id mi.id key) :=
    (sameFiles_of_lists (respects_fileOrThrow mt.id mi.id)).bind fun _ => respects_liftExcept _
  refine hfind.bind fun found => ?_
  cases found with
  | none => exact respects_pure _
  | some existing =>
    refine (respects_isRowObsolete existing).bind fun obsolete => ?_
    cases obsolete with
    | true => exact respects_pure _
    | false => exact respects_throw _

theorem respects_insertIntoIndex (mt : MetaTable) (row : DataRow) (pageId : DataPageId)
    (touched : List IndexId) (mi : MetaIndex) :
    Respects SameFiles (insertIntoIndex mt row pageId touched mi) := by
  refine (respects_liftExcept _).bind fun key => ?_
  have hinsert : Respects SameFiles (do
      treeInsert mt.id mi.id key (pageId, row.id)
      pure (touched ++ [mi.id])) :=
    (sameFiles_of_lists (respects_treeInsert _ _ _ _)).bind fun _ => respects_pure _
  show Respects SameFiles (if key.type = .null then _ else _)
  split_ifs
  · exact respects_pure _
  · exact (respects_checkUnique mt mi key).bind fun _ => hinsert
  · exact (respects_pure ()).bind fun _ => hinsert

theorem respects_insertRowIntoIndexes (mt : MetaTable) (row : DataRow) (pageId : DataPageId) :
    Respects SameFiles (insertRowIntoIndexes mt row pageId) :=
  Respects.foldlM (respects_insertIntoIndex mt row pageId) mt.indexes []

/-! ### Rows -/

theorem respects_createDp (mt : MetaTable) : Respects SameFiles (createDp mt) := by
  refine respects_make.bind fun id => respects_get.bind fun _ => (respects_liftExcept _).bind
    fun page => Respects.bind ?_ fun _ => Respects.bind ?_ fun _ => respects_pure page
  · exact respects_change fun _ => ⟨rfl, rfl⟩
  · exact respects_change fun _ => ⟨rfl, rfl⟩

theorem respects_prepareDpLoop (size : ℕ) (mt : MetaTable) (ids : List DataPageId) :
    Respects SameFiles (prepareDpLoop size mt ids) := by
  induction ids with
  | nil => exact respects_createDp mt
  | cons id ids ih =>
    refine (sameFiles_of_lists (respects_getDp id)).bind fun found => ?_
    cases found with
    | none => exact ih
    | some page =>
      show Respects SameFiles (if page.size + size ≤ DataPage.maxSize then pure page else _)
      split_ifs
      · exact respects_pure page
      · exact ih

theorem respects_prepareDp (size : ℕ) (mt : MetaTable) :
    Respects SameFiles (prepareDp size mt) := by
  refine respects_get.bind fun db => ?_
  cases db.pool.dataPagesPerTable mt.id with
  | none => exact respects_createDp mt
  | some ids => exact respects_prepareDpLoop size mt ids

theorem respects_linkPage (pagesBefore : List DataPage) (pageId : DataPageId) :
    Respects SameFiles (linkPage pagesBefore pageId) := by
  unfold linkPage
  split_ifs
  · exact respects_pure _
  · cases tailPage pagesBefore with
    | none => exact respects_pure _
    | some tail => exact (respects_modifyDp _ _).bind fun _ => respects_dirtyDp _

theorem respects_insertRow (tableName schemaName : Bytes) (cols : Option (List Bytes))
    (row : List DataToken) : Respects SameFiles (insertRow tableName schemaName cols row) :=
  (respects_getTable tableName schemaName).bind fun _ => (respects_saveTable _).bind fun _ =>
    (sameFiles_of_lists (respects_getTableData _)).bind fun _ =>
    (respects_prepareDp _ _).bind fun _ => (respects_linkPage _ _).bind fun _ =>
    (respects_insertRowIntoIndexes _ _ _).bind fun touched => (respects_modifyDp _ _).bind fun _ =>
    (respects_appendLog _).bind fun _ => (respects_appendLog _).bind fun _ =>
    respects_getLastLsn.bind fun _ => (respects_modifyDp _ _).bind fun _ =>
    (Respects.forM (fun _ => respects_setIfLsn _ _) touched).bind fun _ => respects_dirtyDp _

theorem respects_updateRowAt (update : RowUpdate) (unchangedMt : MetaTable) (pageId : DataPageId)
    (loop : PageLoop) (i : ℕ) (row : DataRow) :
    Respects SameFiles (updateRowAt update unchangedMt pageId loop i row) :=
  (respects_saveTable _).bind fun _ => (respects_modifyDp _ _).bind fun _ =>
    (respects_liftExcept _).bind fun _ => (respects_saveTable _).bind fun _ =>
    (respects_appendLog _).bind fun _ => respects_getLastLsn.bind fun _ =>
    (respects_appendLog _).bind fun _ => (respects_modifyDp _ _).bind fun _ =>
    (respects_insertRowIntoIndexes _ _ _).bind fun touched =>
    (Respects.forM (fun _ => respects_setIfLsn _ _) touched).bind fun _ => respects_pure _

theorem respects_deleteRowAt (unchangedMt : MetaTable) (pageId : DataPageId) (loop : PageLoop)
    (i : ℕ) (row : DataRow) : Respects SameFiles (deleteRowAt unchangedMt pageId loop i row) :=
  (respects_modifyDp _ _).bind fun _ => (respects_saveTable _).bind fun _ =>
    (respects_appendLog _).bind fun _ => respects_getLastLsn.bind fun _ =>
    (respects_appendLog _).bind fun _ => respects_pure _

theorem respects_derefDp (id : DataPageId) : Respects SameFiles (derefDp id) := by
  refine respects_get.bind fun db => ?_
  cases db.pool.dataPages id with
  | none => exact respects_throw _
  | some entry => exact respects_pure _

theorem respects_targetAt (ids : List ℕ) (pageId : DataPageId) (i : ℕ) :
    Respects SameFiles (targetAt ids pageId i) := by
  refine (respects_derefDp pageId).bind fun page => ?_
  cases page.rows[i]? with
  | none => exact respects_throw _
  | some row =>
    show Respects SameFiles (if row.id ∉ ids then pure none
      else if row.obsolete then pure none else pure (some row))
    split_ifs <;> exact respects_pure _

/-- What each change of a row respects, the loops over a page do. -/
theorem respects_changePage {body : DataPageId → PageLoop → ℕ → DataRow → Prog PageLoop}
    (hbody : ∀ pageId loop i row, Respects SameFiles (body pageId loop i row)) (ids : List ℕ)
    (mt : MetaTable) (pointer : Option DataPage) :
    Respects SameFiles (changePage body ids mt pointer) := by
  cases pointer with
  | none => exact respects_throw _
  | some p =>
    refine (respects_derefDp p.id).bind fun page => ?_
    refine (Respects.foldlM (fun loop i => ?_) _ _).bind fun loop => ?_
    · refine (respects_targetAt ids page.id i).bind fun target => ?_
      cases target with
      | none => exact respects_pure _
      | some row => exact hbody _ _ _ _
    · split_ifs
      · exact ((respects_modifyDp _ _).bind fun _ => respects_dirtyDp _).bind fun _ =>
          respects_pure _
      · exact (respects_pure ()).bind fun _ => respects_pure _

theorem respects_updateRow (tableName schemaName : Bytes) (update : RowUpdate)
    (rows : List DataRow) : Respects SameFiles (updateRow tableName schemaName update rows) :=
  (respects_getTable tableName schemaName).bind fun mt =>
    (sameFiles_of_lists (respects_getTableData _)).bind fun pages =>
    (Respects.foldlM (respects_changePage (respects_updateRowAt update mt) _) pages mt).bind
      fun _ => respects_pure _

theorem respects_deleteRows (tableName schemaName : Bytes) (rows : List DataRow) :
    Respects SameFiles (deleteRows tableName schemaName rows) :=
  (respects_getTable tableName schemaName).bind fun mt =>
    (sameFiles_of_lists (respects_getTableData _)).bind fun pages =>
    (Respects.foldlM (respects_changePage (respects_deleteRowAt mt) _) pages mt).bind
      fun _ => respects_pure _

/-! ### Tables, schemas and indexes -/

theorem respects_makeColumns (tableId : TableId) (definitions : List ColumnDefinition) :
    Respects SameFiles (makeColumns tableId definitions) := by
  induction definitions with
  | nil => exact respects_pure _
  | cons definition definitions ih =>
    exact respects_make.bind fun _ => ih.bind fun _ => respects_pure _

theorem respects_createTable (tableName schemaName : Bytes) (columns : List ColumnDefinition) :
    Respects SameFiles (createTable tableName schemaName columns) :=
  (respects_getSchema schemaName).bind fun _ => respects_make.bind fun id =>
    (respects_makeColumns id columns).bind fun _ => (respects_appendLog _).bind fun _ =>
    respects_saveTable _

/-- The schema goes into the log and into the catalog. -/
theorem respects_createSchema (dbName schemaName : Bytes) :
    Respects SameFiles (createSchema dbName schemaName) :=
  respects_make.bind fun _ => (respects_appendLog _).bind fun _ =>
    respects_change fun _ => ⟨rfl, rfl⟩

theorem respects_dropIndex (indexName tableName schemaName : Bytes) :
    Respects SameFiles (dropIndex indexName tableName schemaName) := by
  refine (respects_getTable tableName schemaName).bind fun table => ?_
  cases table.indexes.find? fun index => index.name = indexName with
  | none => exact respects_throw _
  | some index => exact (respects_saveTable _).bind fun _ => respects_appendLog _

/-- The file of an index is made at once. -/
theorem respects_createTableIndex (schemaName : Bytes) (table : MetaTable) (index : MetaIndex)
    (lsn : ℕ) : Respects SameSchemas (createTableIndex schemaName table index lsn) :=
  (respects_changeFiles fun _ => rfl).bind fun _ => (respects_changeFiles fun _ => rfl).bind
    fun _ => respects_changeFiles fun _ => rfl

/-- Once its file has been made, an index is filled in the pool. -/
theorem respects_afterFile (table table' : MetaTable) (indexId : IndexId) (columnId : ColumnId)
    (lsn : ℕ) (isUnique : Bool) (message : Bytes) :
    Respects SameFiles (do
        let colIdx ← liftExcept (table.getColumnIdx columnId)
        let pages ← getTableData table.id
        if isUnique then
          let _ ← pages.foldlM
            (fun seen pointer => do
              let page ← derefPage pointer
              page.rows.foldlM (checkDuplicate message colIdx) seen) []
        pages.forM fun pointer => do
          let page ← derefPage pointer
          page.rows.forM (indexExistingRow table.id indexId colIdx page.id)
        setIfLsn indexId lsn
        saveTable table') := by
  refine (respects_liftExcept _).bind fun colIdx =>
    (sameFiles_of_lists (respects_getTableData _)).bind fun pages => ?_
  have hrows : Respects SameFiles (pages.forM fun pointer => do
      let page ← derefPage pointer
      page.rows.forM (indexExistingRow table.id indexId colIdx page.id)) :=
    sameFiles_of_lists (Respects.forM (fun pointer => (respects_derefPage pointer).bind
      fun page => Respects.forM (respects_indexExistingRow _ _ _ page.id) page.rows) pages)
  have hfill := hrows.bind fun _ => (respects_setIfLsn indexId lsn).bind fun _ =>
    respects_saveTable table'
  split_ifs
  · exact (sameFiles_of_lists (respects_pages pages
      (fun _ => respects_checkDuplicate _ colIdx) [])).bind fun _ => hfill
  · exact (respects_pure ()).bind fun _ => hfill

theorem respects_createIndex (indexName tableName columnName schemaName : Bytes)
    (isUnique : Bool) :
    Respects SameSchemas (createIndex indexName tableName columnName schemaName isUnique) := by
  refine (sameSchemas_of_files (respects_getTable tableName schemaName)).bind fun table => ?_
  refine (respects_liftExcept _).bind fun column => (sameSchemas_of_files respects_make).bind
    fun id => (sameSchemas_of_files (respects_appendLog _)).bind fun _ => ?_
  exact (sameSchemas_of_files respects_getLastLsn).bind fun lsn =>
    (respects_createTableIndex _ _ _ _).bind fun _ =>
      sameSchemas_of_files (respects_afterFile table _ _ column.id lsn isUnique _)

/-- **No statement writes a file** before it commits, unless it makes an
index. -/
theorem respects_body_of_noIndex {st : Statement} (h : st.makesIndex = false) :
    Respects SameFiles st.body := by
  cases st with
  | createSchema dbName schemaName => exact respects_createSchema _ _
  | createTable tableName schemaName columns => exact respects_createTable _ _ _
  | insert tableName schemaName cols rows =>
    exact Respects.forM (respects_insertRow tableName schemaName cols) rows
  | update tableName schemaName assignments rows =>
    exact (respects_liftExcept _).bind fun _ => respects_updateRow _ _ _ _
  | delete tableName schemaName rows =>
    exact (respects_liftExcept _).bind fun _ => respects_deleteRows _ _ _
  | createIndex indexName tableName columnName schemaName isUnique => cases h
  | dropIndex indexName tableName schemaName => exact respects_dropIndex _ _ _

theorem respects_body (st : Statement) : Respects SameSchemas st.body := by
  cases st with
  | createIndex indexName tableName columnName schemaName isUnique =>
    exact respects_createIndex _ _ _ _ _
  | _ => exact sameSchemas_of_files (respects_body_of_noIndex rfl)

theorem respects_commitLog : Respects SameFiles commitLog := by
  refine respects_get.bind fun _ => respects_guard (Respects.bind ?_ fun _ => ?_)
  · exact respects_change fun _ => ⟨rfl, rfl⟩
  · exact respects_change fun _ => ⟨rfl, rfl⟩

theorem respects_commit : Respects SameSchemas commit :=
  (sameSchemas_of_files respects_commitLog).bind fun _ =>
    (respects_changeFiles fun _ => rfl).bind fun _ => respects_changeFiles fun _ => rfl

theorem respects_beginning : Respects SameFiles (makeTransaction >>= fun _ => begin) := by
  have hmake : Respects SameFiles makeTransaction :=
    respects_make.bind fun _ => respects_change fun _ => ⟨rfl, rfl⟩
  refine hmake.bind fun _ => respects_get.bind fun _ =>
    respects_guard (Respects.bind ?_ fun _ => ?_)
  · exact respects_change fun _ => ⟨rfl, rfl⟩
  · exact respects_change fun _ => ⟨rfl, rfl⟩

/-- **No statement writes a schema to disk**, whether it succeeds or throws. -/
theorem respects_next (st : Statement) : Respects SameSchemas st.next :=
  (sameSchemas_of_files respects_beginning).bind fun _ => (respects_body st).bind fun _ =>
    respects_commit

/-! ## Preparing a page -/

/-- **`prepare_dp` serves a table**: it returns a page that the table then
has. -/
def Serves (db : StdDbInstance) (size : ℕ) (mt : MetaTable) : Prop :=
  ∃ p db', prepareDp size mt db = .ok p db' ∧ ∃ id ∈ db'.pageIds mt.id, db'.page id = some p

/-- A page of the table that has room for a row. -/
def FindsPage (db : StdDbInstance) (size : ℕ) (mt : MetaTable) : Prop :=
  ∃ id ∈ db.pageIds mt.id, ∃ p, db.page id = some p ∧ p.size + size ≤ DataPage.maxSize

theorem readSchemaMeta_of_exists {disk : Disk} {id : UUID} (hheadless : disk.headless = [])
    (h : ∃ s ∈ disk.schemas, s.id = id) : ∃ schema, readSchemaMeta disk id = .ok schema := by
  obtain ⟨s, hs, hid⟩ := h
  unfold readSchemaMeta
  rw [if_neg (not_not.mpr hheadless)]
  cases hfind : disk.schemas.reverse.find? fun s => s.id = id with
  | some schema => exact ⟨schema, rfl⟩
  | none =>
    have hnone := List.find?_eq_none.mp hfind s (List.mem_reverse.mpr hs)
    exact absurd (decide_eq_true hid) hnone

/-- With the schema on disk a page can be made. -/
theorem ensures_createDp_of_schema {mt : MetaTable} (hheadless : db.io.headless = [])
    (h : ∃ s ∈ db.io.schemas, s.id = mt.schemaId) :
    Ensures (createDp mt) db (fun _ _ => True) fun _ _ => False := by
  obtain ⟨schema, hread⟩ := readSchemaMeta_of_exists hheadless h
  have hread' : readSchemaMeta { db with clock := db.generator.next db.clock }.io mt.schemaId
      = .ok schema := hread
  unfold createDp
  rw [ensures_bind, ensures_make, ensures_bind, ensures_get]
  unfold createPage
  rw [hread', ensures_bind, ensures_liftExcept]
  exact ⟨fun _ _ => trivial, fun _ hthrow => nomatch hthrow⟩

/-- The loop of `prepare_dp` does not throw when there is a page with room among
those it goes through, or a page can be made. -/
theorem ensures_prepareDpLoop_of_place (size : ℕ) {mt : MetaTable} (ids : List DataPageId)
    (h : (db.io.headless = [] ∧ ∃ s ∈ db.io.schemas, s.id = mt.schemaId)
      ∨ ∃ id ∈ ids, ∃ p, db.page id = some p ∧ p.size + size ≤ DataPage.maxSize) :
    Ensures (prepareDpLoop size mt ids) db (fun _ _ => True) fun _ _ => False := by
  induction ids generalizing db with
  | nil =>
    rcases h with ⟨hheadless, hschema⟩ | ⟨id, hid, -⟩
    · exact ensures_createDp_of_schema hheadless hschema
    · cases hid
  | cons id ids ih =>
    unfold prepareDpLoop
    rw [ensures_bind]
    refine (ensures_getDp id db).mono (fun found db₁ hfound => ?_) fun _ _ h => h.elim
    obtain ⟨hp, hsame, -⟩ := hfound
    -- the page is passed over when it is missing or has no room
    have hnext : (∀ p, db.page id = some p → ¬ p.size + size ≤ DataPage.maxSize) →
        Ensures (prepareDpLoop size mt ids) db₁ (fun _ _ => True) fun _ _ => False := by
      intro hfull
      refine ih ?_
      rw [hsame.ioHeadless, hsame.ioSchemas, hsame.page]
      refine h.imp_right fun hplace => ?_
      obtain ⟨id', hid', p, hpage, hroom⟩ := hplace
      rcases List.mem_cons.mp hid' with rfl | hid'
      · exact absurd hroom (hfull p hpage)
      · exact ⟨id', hid', p, hpage, hroom⟩
    cases found with
    | none => exact hnext fun p hpage => by rw [← hp] at hpage; cases hpage
    | some page =>
      show Ensures (if page.size + size ≤ DataPage.maxSize then pure page else _) db₁ _ _
      split_ifs with hroom
      · trivial
      · refine hnext fun p hpage => ?_
        rw [← hp] at hpage
        rwa [← Option.some.inj hpage]

/-- **A table is served** when it has a page with room, or a page can be made. -/
theorem serves_of_place {size : ℕ} {mt : MetaTable}
    (h : (db.io.headless = [] ∧ ∃ s ∈ db.io.schemas, s.id = mt.schemaId)
      ∨ FindsPage db size mt) : Serves db size mt := by
  have hensures : Ensures (prepareDp size mt) db (fun _ _ => True) fun _ _ => False := by
    unfold prepareDp
    rw [ensures_bind, ensures_get]
    unfold FindsPage pageIds at h
    cases hlist : db.pool.dataPagesPerTable mt.id with
    | none =>
      rw [hlist] at h
      rcases h with ⟨hheadless, hschema⟩ | ⟨id, hid, -⟩
      · exact ensures_createDp_of_schema hheadless hschema
      · cases hid
    | some ids =>
      rw [hlist] at h
      exact ensures_prepareDpLoop_of_place size ids h
  obtain ⟨p, db', hrun, -⟩ := hensures.exists_ok
  refine ⟨p, db', hrun, ?_⟩
  rcases (ensures_prepareDp size mt db).of_ok hrun with hfound | hmade
  · obtain ⟨id, hid, hpage, -⟩ := hfound.found
    refine ⟨id, ?_, hfound.same.page ▸ hpage⟩
    rw [hfound.same.toSameRows.pageIds]
    exact hid
  · refine ⟨db.clock, ?_, ?_⟩
    · show db.clock ∈ db'.rowView.ids mt.id
      rw [hmade.rowView, ids_create, if_pos rfl]
      exact List.mem_append_right _ List.mem_cons_self
    · show db'.rowView.page db.clock = some p
      rw [hmade.rowView]
      exact Function.update_self _ _ _

/-- A table that is served has a page with room, or a page could be made. -/
theorem Serves.place {size : ℕ} {mt : MetaTable} (h : Serves db size mt)
    (hpos : mt.schemaId ≠ UUID.null) :
    (db.io.headless = [] ∧ ∃ s ∈ db.io.schemas, s.id = mt.schemaId) ∨ FindsPage db size mt := by
  obtain ⟨p, db', hrun, -⟩ := h
  rcases (ensures_prepareDp size mt db).of_ok hrun with hfound | hmade
  · obtain ⟨id, hid, hpage, -⟩ := hfound.found
    exact .inr ⟨id, hid, p, hpage, hfound.room⟩
  · obtain ⟨schema, hread, -⟩ := hmade.schema
    exact .inl ⟨hmade.headless, exists_schema_of_read (v := db.rowView) hread hpos⟩

/-! ## Sessions -/

/-- **A statement is tried**: it succeeds, or it throws and leaves what it has
done. -/
inductive Tried (db : StdDbInstance) (st : Statement) : StdDbInstance → Prop
  | returns {db' : StdDbInstance} (h : st.next db = .ok () db') : Tried db st db'
  | throws {e : Exn} {db' : StdDbInstance} (h : st.next db = .error e db') : Tried db st db'

theorem Tried.sameSchemas {st : Statement} (h : Tried db st db') : SameSchemas db db' := by
  cases h with
  | returns h => exact (respects_next st db).of_ok h
  | throws h => exact (respects_next st db).of_error h

/-- Whatever is tried in a session, no schema gets to disk. -/
theorem sameSchemas_of_tried {sts : List Statement} (hrun : Run Tried db sts db') :
    SameSchemas db db' :=
  hrun.invariant (P := SameSchemas db) (fun _ _ _ h hstep => hstep.sameSchemas.trans h) rfl

/-- A statement is tried that gives directories the names of directories, while the
pool has room. -/
structure TriedHoused (db : StdDbInstance) (st : Statement) (db' : StdDbInstance) : Prop where
  tried : Tried db st db'
  plain : PlainNames st
  room : HasRoom db'

/-- **A session begins** in a new directory or with a clean restart. -/
inductive Begins : StdDbInstance → Prop
  | new (generator : UUIDGenerator) : Begins { generator }
  | restart {generator : UUIDGenerator} {es : List Event} {db db' : StdDbInstance}
      (hrun : Run Housed { generator } es db)
      (hopens : Opens (db.catalog.flush db.io) db.keptLog db.clock db') : Begins db'

theorem Begins.run (h : Begins db) : ∃ generator es, Run Occurs { generator } es db := by
  cases h with
  | new => exact ⟨_, [], .nil _⟩
  | restart hrun hopens =>
    exact ⟨_, _, (hrun.mono fun _ _ _ h => h.occurs).append (.single (.restart hopens))⟩

/-- The schemas of the catalog are on disk when a session begins. -/
theorem Begins.mem_schemas (h : Begins db) {s : MetaSchema} (hs : s ∈ db.catalog.schemas) :
    s ∈ db.io.schemas := by
  cases h with
  | new => cases hs
  | restart hrun hopens => exact hopens.mem_schemas hs

end StdDbInstance

namespace RowView

variable {v v' : RowView}

/-- **A table has pages** only if its schema is on disk. -/
def Shelved (v : RowView) : Prop :=
  ∀ t mt, v.entry t = some mt → v.ids t ≠ [] → v.SchemaOnDisk mt

theorem Shelved.saves (h : Shelved v) {mt : MetaTable} (hsaves : Saves v v' mt)
    (hmt : v.ids mt.id ≠ [] → v.SchemaOnDisk mt) : Shelved v' := by
  intro t mt' hentry hids
  unfold SchemaOnDisk
  rw [hsaves.schemas]
  rw [hsaves.entries] at hentry
  split_ifs at hentry with hid
  · obtain rfl := Option.some.inj hentry
    rcases hsaves.pages t with hsame | ⟨-, hschema⟩
    · rw [hsame, ← hid] at hids
      exact hmt hids
    · exact hschema
  · rcases hsaves.pages t with hsame | ⟨hid', -⟩
    · rw [hsame] at hids
      exact h t mt' hentry hids
    · exact absurd hid'.symm hid

/-- Saving a table again, in the schema that it was in. -/
theorem Shelved.saves_same (h : Shelved v) {mt mt' : MetaTable} (hbefore : v.entry mt.id = some mt)
    (hsaves : Saves v v' mt') (hid : mt'.id = mt.id) (hschema : mt'.schemaId = mt.schemaId) :
    Shelved v' := by
  refine h.saves hsaves fun hids => ?_
  unfold SchemaOnDisk
  rw [hschema]
  exact h mt.id mt hbefore (hid ▸ hids)

/-- **Each step shelves pages** below a schema. -/
theorem Shelved.step (h : Shelved v) (hstep : TableStep v v') : Shelved v' := by
  cases hstep with
  | idle steady =>
    intro t mt hentry hids
    unfold SchemaOnDisk
    rw [steady.schemas]
    exact h t mt (steady.entries ▸ hentry) (steady.pages ▸ hids)
  | create saves rows pages unused => exact h.saves saves fun hids => absurd unused hids
  | insert before saves => exact h.saves_same before saves rfl rfl
  | update before live newLive saves => exact h.saves_same before saves rfl rfl
  | delete before live saves => exact h.saves_same before saves rfl rfl
  | createIndex before saves => exact h.saves_same before saves rfl rfl
  | dropIndex before saves => exact h.saves_same before saves rfl rfl

end RowView

namespace StdDbInstance

open BufferPool FileIOManager RowView

variable {start db : StdDbInstance}

theorem shelved_new (generator : UUIDGenerator) :
    Shelved ({ generator } : StdDbInstance).rowView :=
  fun _ _ hentry => nomatch hentry

/-- A run of statements is one of steps. -/
theorem steps_of_run {sts : List Statement} (h : Settled start)
    (hrun : Run Occurs start (sts.map Event.execute) db) :
    TableSteps start.rowView db.rowView := by
  induction sts generalizing start with
  | nil =>
    cases hrun
    exact .refl
  | cons st sts ih =>
    cases hrun with
    | cons hfirst hrest =>
      have hsettled := h.step hfirst
      cases hfirst with
      | execute hanalyze hnext =>
        exact ((steps_next h hanalyze).of_ok hnext).trans (ih hsettled hrest)

/-- **`prepare_dp` serves the tables of the schemas that were there when the
session began**, with a page that has room or as long as every schema directory
has its meta file. This is so after any statements, successful or not, of an
instance that was opened on any files and any log. When all have succeeded since
the directory was new, no other table of the catalog is served. -/
theorem serves_in_session {sts : List Statement} (mt : MetaTable) (size : ℕ) :
    ((∃ disk wal clock, Opens disk wal clock start) → Run TriedHoused start sts db →
      (∃ s ∈ start.catalog.schemas, s.id = mt.schemaId) →
      db.io.headless = [] ∨ FindsPage db size mt → Serves db size mt)
    ∧ (Begins start → Run Housed start (sts.map Event.execute) db → mt ∈ db.catalog.tables →
      (Serves db size mt ↔ (∃ s ∈ start.catalog.schemas, s.id = mt.schemaId)
        ∧ (db.io.headless = [] ∨ FindsPage db size mt))) := by
  refine ⟨fun ⟨disk, wal, clock, hopens⟩ hrun ⟨s, hs, hid⟩ hplace => ?_,
    fun hbegins hrun hmt => ?_⟩
  · have htried := hrun.mono fun _ _ _ h => h.tried
    refine serves_of_place (hplace.imp_left fun hheadless => ⟨hheadless, s, ?_, hid⟩)
    rw [sameSchemas_of_tried htried]
    exact hopens.mem_schemas hs
  · obtain ⟨generator, es, hstart⟩ := hbegins.run
    have hrun := hrun.mono fun _ _ _ h => h.occurs
    have hsettled := Settled.run hstart
    have hschemas : db.io.schemas = start.io.schemas := (steps_of_run hsettled hrun).schemas
    have hrun' := hstart.append hrun
    have hlogged := (Settled.run hrun').resting.logged.catalog
    have hentry : db.rowView.entry mt.id = some mt := entry_of_mem hmt
    -- what is on disk was in the catalog when the session began
    have hcatalog : (∃ s ∈ db.io.schemas, s.id = mt.schemaId) →
        ∃ s ∈ start.catalog.schemas, s.id = mt.schemaId := by
      rintro ⟨s, hs, hid⟩
      have hcatalog := hsettled.resting.logged.catalog
      rw [hschemas] at hs
      exact ⟨s, (hcatalog.schemas s).mpr (hcatalog.ioSchemas s hs), hid⟩
    constructor
    · intro hserves
      rcases hserves.place (hlogged.schemaId_pos hentry).ne' with ⟨hheadless, hdisk⟩ | hfinds
      · exact ⟨hcatalog hdisk, .inl hheadless⟩
      · have hshelved : Shelved db.rowView :=
          run_invariant (shelved_new generator) (fun _ _ h => h.step)
            (fun _ _ _ hreopened t mt hentry _ => hreopened.schemas t mt hentry) hrun'
        obtain ⟨id, hid, -⟩ := id hfinds
        exact ⟨hcatalog (hshelved mt.id mt hentry (List.ne_nil_of_mem hid)), .inr hfinds⟩
    · rintro ⟨⟨s, hs, hid⟩, hplace⟩
      exact serves_of_place
        (hplace.imp_left fun hheadless => ⟨hheadless, s, hschemas ▸ hbegins.mem_schemas hs, hid⟩)

/-! ## The session that makes the database -/

/-- The first session, after it has made the schema and a table. -/
def firstSession : StdDbInstance := createTable₁.after schemaSession

theorem run_firstSession :
    Run Housed {} ([createSchema₁, createTable₁].map Event.execute) firstSession :=
  .cons (Statement.housed_of_returns (by decide +kernel) plainNames_createSchema₁
      (by decide +kernel))
    (.single (Statement.housed_of_returns (by decide +kernel) plainNames_createTable₁
      (by decide +kernel)))

/-- **The session that makes the database** cannot insert into its tables. -/
theorem not_serves_first :
    ¬ ∀ (es : List Event) (db : StdDbInstance), Run Housed {} es db →
      ∀ mt ∈ db.catalog.tables, ∀ size ≤ DataPage.maxSize - DataPage.headerSize,
        Serves db size mt := by
  intro h
  have hmt : ∃ mt ∈ firstSession.catalog.tables, firstSession.pageIds mt.id = []
      ∧ mt.schemaId ≠ UUID.null ∧ ¬ ∃ s ∈ firstSession.io.schemas, s.id = mt.schemaId := by
    decide +kernel
  obtain ⟨mt, hmem, hids, hpos, hnone⟩ := hmt
  have hserves := h _ _ run_firstSession mt hmem 0 (Nat.zero_le _)
  rcases hserves.place hpos with ⟨-, hschema⟩ | ⟨id, hid, -⟩
  · exact hnone hschema
  · rw [hids] at hid
    cases hid

/-- In the second session a table of the schema is served, in the first it is
not. -/
theorem serves_in_session_second :
    (∀ mt ∈ oneRowSession.catalog.tables, Serves oneRowSession 1 mt)
      ∧ ∀ mt ∈ firstSession.catalog.tables, ¬ Serves firstSession 1 mt := by
  refine ⟨fun mt hmt => ?_, fun mt hmt hserves => ?_⟩
  · have hschema : Run Housed {} [.execute createSchema₁] schemaSession :=
      .single (Statement.housed_of_returns (by decide +kernel) plainNames_createSchema₁
        (by decide +kernel))
    have hbegins : Begins secondSession := by
      cases occurs_secondSession with
      | restart hopens => exact .restart hschema hopens
    have hrun :
        Run Housed secondSession ([createTable₁, insert₁].map Event.execute) oneRowSession :=
      .cons (Statement.housed_of_returns (by decide +kernel) plainNames_createTable₁
          (by decide +kernel))
        (.single (Statement.housed_of_returns (by decide +kernel) trivial (by decide +kernel)))
    have hall : ∀ mt ∈ oneRowSession.catalog.tables,
        ∃ s ∈ secondSession.catalog.schemas, s.id = mt.schemaId := by decide +kernel
    exact ((serves_in_session mt 1).2 hbegins hrun hmt).mpr
      ⟨hall mt hmt, .inl (by decide +kernel)⟩
  · obtain ⟨⟨s, hs, -⟩, -⟩ := ((serves_in_session mt 1).2 (.new _) run_firstSession hmt).mp hserves
    cases hs

end StdDbInstance
