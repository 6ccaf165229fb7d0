import Deltabase.Storage.IndexCreation
import Deltabase.Storage.IndexReload

/-!
# What a refused index leaves behind

A comment in `create_index` says that the rows are checked before the file of
the index is made. It is the other way round: when a duplicate is found, the
record has been written, the file is in the table's directory and in the pool,
and the pool lists it for the table. The exception takes none of this back; only
the table in the catalog does not get the index.

`IndexesUnchanged` is what a caller might expect, and it never holds after a refusal:
from making the file on nothing shortens the table's list again
(`ensures_afterFile`).
-/

namespace StdDbInstance

open BufferPool Transaction FileIOManager

variable {db db' : StdDbInstance}

/-- **The indexes are as they were**: the index files in the pool, the lists of
index files, the files in the directories and the table's own indexes. -/
structure IndexesUnchanged (tableId : TableId) (db db' : StdDbInstance) : Prop where
  pool : db'.pool.indexFiles = db.pool.indexFiles
  lists : db'.pool.indexFilesPerTable = db.pool.indexFilesPerTable
  disk : db'.io.indexFiles = db.io.indexFiles
  indexes : (db'.rowView.entry tableId).map MetaTable.indexes
    = (db.rowView.entry tableId).map MetaTable.indexes

/-! ## After the file has been made -/

/-- **Index files say what they are**, in the pool and in the directories. -/
structure Labelled (db : StdDbInstance) : Prop where
  pool : ∀ id entry, db.pool.indexFiles id = some entry → entry.value.Labelled id
  disk : ∀ id dir file, db.io.indexFiles id = some (dir, file) → file.Labelled id

/-- The lists of index files, the files in the directories and the catalog are
the same, and index files go on saying what they are. -/
structure SameLists (db db' : StdDbInstance) : Prop where
  lists : db'.pool.indexFilesPerTable = db.pool.indexFilesPerTable
  disk : db'.io = db.io
  catalog : db'.catalog = db.catalog
  labelled : db.Labelled → db'.Labelled

instance : IsPreorder StdDbInstance SameLists where
  refl _ := ⟨rfl, rfl, rfl, fun h => h⟩
  trans _ _ _ h h' :=
    ⟨h'.lists.trans h.lists, h'.disk.trans h.disk, h'.catalog.trans h.catalog,
      h'.labelled ∘ h.labelled⟩

/-- A file that is put into the pool, when it says what it is. -/
theorem Labelled.putIf (h : db.Labelled) {id : IndexId} {file : IndexFile}
    (hfile : file.Labelled id) : (BufferPool.putIf id file db).Labelled := by
  refine ⟨fun id' entry hentry => ?_, h.disk⟩
  change Function.update db.pool.indexFiles id _ id' = some entry at hentry
  rw [Function.update_apply] at hentry
  split_ifs at hentry with hid
  · rw [← Option.some.inj hentry, hid]
    cases db.pool.indexFiles id <;> exact hfile
  · exact h.pool id' entry hentry

/-- A change of an entry that leaves the file what it says it is. -/
theorem Labelled.changeIf (h : db.Labelled) (id : IndexId)
    {f : CacheEntry IndexFile → CacheEntry IndexFile}
    (hf : ∀ entry, entry.value.Labelled id → (f entry).value.Labelled id) :
    (BufferPool.changeIf id f db).Labelled := by
  refine ⟨fun id' entry hentry => ?_, h.disk⟩
  change Function.update db.pool.indexFiles id _ id' = some entry at hentry
  rw [Function.update_apply] at hentry
  split_ifs at hentry with hid
  · obtain ⟨entry₀, hpool, rfl⟩ := Option.map_eq_some_iff.mp hentry
    rw [hid]
    exact hf entry₀ (h.pool id entry₀ hpool)
  · exact h.pool id' entry hentry

theorem Labelled.dirtyIf (h : db.Labelled) (id : IndexId) :
    (BufferPool.changeIf id (fun entry => { entry with dirty := true }) db).Labelled :=
  h.changeIf id fun _ hentry => hentry

theorem Labelled.setIfLsn (h : db.Labelled) (id : IndexId) (lsn : ℕ) :
    (BufferPool.changeIf id (fun entry =>
      { entry with value := { entry.value with lastLsn := max entry.value.lastLsn lsn } })
      db).Labelled :=
  h.changeIf id fun _ hentry => ⟨hentry.indexId, hentry.consistent⟩

/-- A file that is read says what it is. -/
theorem Labelled.readIndexFile (h : db.Labelled) {id : IndexId} {file : IndexFile}
    (hread : FileIOManager.readIndexFile db.io id = some file) : file.Labelled id := by
  obtain ⟨⟨dir, file₀⟩, hfile, rfl⟩ := Option.map_eq_some_iff.mp hread
  exact (h.disk id dir file₀ hfile).extend (IndexFile.extends_reread file₀)

theorem respects_getDp (id : DataPageId) : Respects SameLists (getDp id) := by
  intro db
  unfold Ensures getDp
  cases hentry : db.pool.dataPages id with
  | some entry => exact refl_of SameLists db
  | none =>
    simp only
    cases hread : readDataPage db.io id with
    | none => exact refl_of SameLists db
    | some page => exact ⟨rfl, rfl, rfl, fun h => ⟨h.pool, h.disk⟩⟩

theorem respects_getDps (ids : List DataPageId) : Respects SameLists (getDps ids) := by
  induction ids with
  | nil => exact respects_pure _
  | cons id ids ih =>
    exact (respects_getDp id).bind fun _ => ih.bind fun _ => respects_pure _

theorem respects_getTableData (tableId : TableId) : Respects SameLists (getTableData tableId) := by
  refine respects_get.bind fun db => ?_
  cases db.pool.dataPagesPerTable tableId with
  | none => exact respects_pure _
  | some ids => exact respects_getDps ids

theorem respects_derefPage (pointer : Option DataPage) :
    Respects SameLists (derefPage pointer) := by
  cases pointer with
  | none => exact respects_throw _
  | some page => exact respects_pure page

/-- The file of an index is looked up in the pool, and else read. -/
theorem ensures_getTableIndex_file (tableId : TableId) (indexId : IndexId) (db : StdDbInstance) :
    Ensures (getTableIndex tableId indexId) db
      (fun found db' => SameLists db db' ∧ ∀ file ∈ found, db.Labelled → file.Labelled indexId)
      fun _ _ => False := by
  have hnone : SameLists db db ∧ ∀ file ∈ (none : Option IndexFile), db.Labelled →
      file.Labelled indexId := ⟨refl_of SameLists db, fun _ hfile => nomatch hfile⟩
  unfold Ensures getTableIndex
  cases hids : db.pool.indexFilesPerTable tableId with
  | none => exact hnone
  | some ids =>
    simp only
    split_ifs
    · cases hentry : db.pool.indexFiles indexId with
      | some entry =>
        refine ⟨refl_of SameLists db, fun file hfile h => ?_⟩
        obtain rfl := Option.some.inj hfile
        exact h.pool indexId entry hentry
      | none =>
        simp only
        cases hread : readIndexFile db.io indexId with
        | none => exact hnone
        | some file =>
          refine ⟨⟨rfl, rfl, rfl, fun h => h.putIf (h.readIndexFile hread)⟩,
            fun file' hfile h => ?_⟩
          obtain rfl := Option.some.inj hfile
          exact h.readIndexFile hread
    · exact hnone

theorem ensures_fileOrThrow_file (tableId : TableId) (indexId : IndexId) (db : StdDbInstance) :
    Ensures (fileOrThrow tableId indexId) db
      (fun file db' => SameLists db db' ∧ (db.Labelled → file.Labelled indexId))
      fun _ db' => SameLists db db' := by
  unfold fileOrThrow
  rw [ensures_bind]
  refine (ensures_getTableIndex_file tableId indexId db).mono
    (fun found db' ⟨hsame, hfound⟩ => ?_) fun _ _ h => h.elim
  cases found with
  | none => exact hsame
  | some file => exact ⟨hsame, hfound file rfl⟩

theorem respects_fileOrThrow (tableId : TableId) (indexId : IndexId) :
    Respects SameLists (fileOrThrow tableId indexId) := fun db =>
  (ensures_fileOrThrow_file tableId indexId db).mono (fun _ _ h => h.1) fun _ _ h => h

/-- Filling an index changes index files in the pool only. -/
theorem respects_treeInsert (tableId : TableId) (indexId : IndexId) (key : DataToken)
    (rowPtr : RowPtr) : Respects SameLists (treeInsert tableId indexId key rowPtr) := by
  intro db
  unfold treeInsert
  rw [ensures_bind]
  refine (ensures_fileOrThrow_file tableId indexId db).mono (fun file db₁ ⟨hsame, hfile⟩ => ?_)
    fun _ _ h => h
  rw [ensures_bind, ensures_liftExcept]
  refine ⟨fun file' hinsert => ?_, fun _ _ => hsame⟩
  unfold dirtyIf
  rw [ensures_bind, ensures_modify, ensures_modify]
  refine ⟨hsame.lists, hsame.disk, hsame.catalog, fun h => ?_⟩
  have hfile' := (hfile h).extend (IndexBPlusTree.extends_insert hinsert).1
  exact ((hsame.labelled h).putIf hfile').dirtyIf indexId

theorem respects_indexExistingRow (tableId : TableId) (indexId : IndexId) (colIdx : ℕ)
    (pageId : DataPageId) (row : DataRow) :
    Respects SameLists (indexExistingRow tableId indexId colIdx pageId row) := by
  refine (respects_liftExcept _).bind fun found => ?_
  cases found with
  | none => exact respects_pure _
  | some key => exact respects_treeInsert _ _ _ _

theorem respects_checkDuplicate (message : Bytes) (colIdx : ℕ) (seen : List Bytes)
    (row : DataRow) : Respects SameLists (checkDuplicate message colIdx seen row) := by
  refine (respects_liftExcept _).bind fun found => ?_
  cases found with
  | none => exact respects_pure _
  | some key =>
    show Respects SameLists (if key.bytes ∈ seen then _ else _)
    split_ifs
    · exact respects_throw _
    · exact respects_pure _

/-- What the pool and the directories have got when the file of a new index has
been made. -/
structure HasNewIndex (table : MetaTable) (schemaName : Bytes) (db db' : StdDbInstance) : Prop where
  lists : db'.pool.indexFilesPerTable
    = listId db.pool.indexFilesPerTable table.id db.clock
  disk : db'.io.indexFiles = Function.update db.io.indexFiles db.clock
    (some ((schemaName, table.name), IndexFile.create db.clock))
  catalog : db'.catalog = db.catalog

theorem HasNewIndex.sameLists {table : MetaTable} {schemaName : Bytes} {db db₁ db' : StdDbInstance}
    (h : HasNewIndex table schemaName db db₁) (hsame : SameLists db₁ db') :
    HasNewIndex table schemaName db db' :=
  ⟨hsame.lists.trans h.lists, by rw [hsame.disk, h.disk], hsame.catalog.trans h.catalog⟩

/-- Making the file of an index. -/
theorem ensures_newFile (schemaName : Bytes) (table : MetaTable) (index : MetaIndex) (lsn : ℕ)
    (db : StdDbInstance) :
    Ensures (createTableIndex schemaName table index lsn) db
      (fun _ db' => db'.pool.indexFilesPerTable
          = listId db.pool.indexFilesPerTable table.id index.id
        ∧ db'.io.indexFiles = Function.update db.io.indexFiles index.id
          (some ((schemaName, table.name), IndexFile.create index.id))
        ∧ db'.catalog = db.catalog)
      fun _ _ => False := by
  unfold createTableIndex dirtyIf
  simp only [ensures_bind, ensures_modify]
  exact ⟨rfl, rfl, rfl⟩

/-- Going through the rows of a table's pages. -/
theorem respects_pages {α : Type} (pages : List (Option DataPage))
    {f : DataPage → α → DataRow → Prog α} (hf : ∀ page a row, Respects SameLists (f page a row))
    (a : α) :
    Respects SameLists (pages.foldlM
      (fun a pointer => do
        let page ← derefPage pointer
        page.rows.foldlM (f page) a) a) :=
  Respects.foldlM (fun a pointer => (respects_derefPage pointer).bind fun page =>
    Respects.foldlM (hf page) page.rows a) pages a

/-- **From making the file on**, `create_index` leaves the lists and the files
in the directories alone, and until it returns also the catalog. -/
theorem ensures_afterFile (table table' : MetaTable) (indexId : IndexId) (columnId : ColumnId)
    (lsn : ℕ) (isUnique : Bool) (message : Bytes) (db : StdDbInstance) :
    Ensures (do
        let colIdx ← liftExcept (table.getColumnIdx columnId)
        let pages ← getTableData table.id
        if isUnique then
          let _ ← pages.foldlM
            (fun seen pointer => do
              let page ← derefPage pointer
              page.rows.foldlM (checkDuplicate message colIdx) seen) []
        pages.forM fun pointer => do
          let page ← derefPage pointer
          page.rows.forM (indexExistingRow table.id indexId colIdx page.id)
        setIfLsn indexId lsn
        saveTable table') db (fun _ _ => True) fun _ db' => SameLists db db' := by
  rw [ensures_bind]
  refine (respects_liftExcept (R := SameLists) _ db).mono_ok fun colIdx db₁ h₁ => ?_
  rw [ensures_bind]
  refine (respects_getTableData table.id db₁).mono (fun pages db₂ h₂ => ?_)
    fun _ _ h => trans_of SameLists h₁ h
  have hfill : ∀ db₃, SameLists db db₃ → Ensures (do
        pages.forM fun pointer => do
          let page ← derefPage pointer
          page.rows.forM (indexExistingRow table.id indexId colIdx page.id)
        setIfLsn indexId lsn
        saveTable table') db₃ (fun _ _ => True) fun _ db' => SameLists db db' := by
    intro db₃ h₃
    rw [ensures_bind]
    refine (Respects.forM (R := SameLists) (fun pointer => (respects_derefPage pointer).bind
      fun page => Respects.forM (respects_indexExistingRow table.id indexId colIdx page.id)
        page.rows) pages db₃).mono (fun _ db₄ h₄ => ?_) fun _ _ h => trans_of SameLists h₃ h
    unfold setIfLsn saveTable
    rw [ensures_bind, ensures_modify, ensures_modify]
    trivial
  have h := trans_of SameLists h₁ h₂
  split_ifs
  · simp only [ensures_bind]
    refine (respects_pages pages (fun _ => respects_checkDuplicate message colIdx) [] db₂).mono
      (fun _ db₃ h₃ => ?_) fun _ _ h' => trans_of SameLists h h'
    simp only [← ensures_bind]
    exact hfill db₃ (trans_of SameLists h h₃)
  · exact hfill db₂ h

/-- **A duplicate is found too late**: when `create_index` reports one, the
file is there and listed. -/
theorem ensures_createIndex_refused (indexName tableName columnName schemaName : Bytes)
    (isUnique : Bool) (db : StdDbInstance) :
    Ensures (createIndex indexName tableName columnName schemaName isUnique) db
      (fun _ _ => True)
      fun e db' => (∃ constraint, e = .uniqueConstraintViolation constraint) →
        ∃ table, LooksUp db tableName schemaName table ∧ HasNewIndex table schemaName db db' := by
  unfold createIndex
  rw [ensures_bind]
  refine (ensures_getTable tableName schemaName db).mono (fun table db₀ ⟨hdb, hlook⟩ => ?_) ?_
  swap
  · rintro e db' ⟨rfl, -⟩ ⟨constraint, h⟩
    cases h
  subst hdb
  rw [ensures_bind, ensures_liftExcept]
  refine ⟨fun column _ => ?_, ?_⟩
  swap
  · rintro e hcolumn ⟨constraint, rfl⟩
    unfold MetaTable.getColumn at hcolumn
    split at hcolumn <;> cases hcolumn
  rw [ensures_bind]
  show Ensures (appendLog (.createIndex (newIndex db₀ table column indexName isUnique)) >>= _)
    { db₀ with clock := db₀.generator.next db₀.clock } _ _
  set mi := newIndex db₀ table column indexName isUnique with hmi
  rw [ensures_bind]
  by_cases hactive : db₀.txn.state = .active
  · rw [ensures_appendLog (by exact hactive)]
    unfold getLastLsn
    rw [ensures_bind, ensures_bind, ensures_get, ensures_pure, ensures_bind]
    set db₁ := appendRecord (.createIndex mi)
      { db₀ with clock := db₀.generator.next db₀.clock } with hdb₁
    refine (ensures_newFile schemaName table mi db₁.txn.lastLsn db₁).mono (fun _ db₂ hnew => ?_)
      fun _ _ h => h.elim
    refine (ensures_afterFile table _ mi.id column.id db₁.txn.lastLsn isUnique _ db₂).mono
      (fun _ _ _ => trivial) fun e db' h _ => ⟨table, hlook, ?_⟩
    have hnew' : HasNewIndex table schemaName db₀ db₂ := ⟨hnew.1, hnew.2.1, hnew.2.2⟩
    exact hnew'.sameLists h
  · unfold appendLog
    rw [ensures_bind, ensures_get, if_pos (by exact hactive)]
    rintro ⟨constraint, h⟩
    cases h

/-- A list that got a new id is not the one it was. -/
theorem listId_ne {κ : Type} [DecidableEq κ] (ids : κ → Option (List UUID)) (key : κ) (id : UUID) :
    listId ids key id ≠ ids := by
  intro h
  have hkey := congrFun h key
  rw [listId, Function.update_self] at hkey
  cases hids : ids key with
  | none =>
    rw [hids] at hkey
    cases hkey
  | some l =>
    rw [hids, Option.getD_some, Option.some.injEq] at hkey
    exact absurd (congrArg List.length hkey) (by simp)

/-- **An index that is refused is never taken back**: after `create_index` has
reported a duplicate, the pool lists an index file for the table that was not
there before. -/
theorem not_indexesUnchanged_of_violation
    {indexName tableName columnName schemaName constraint : Bytes}
    {isUnique : Bool}
    (hrun : createIndex indexName tableName columnName schemaName isUnique db
      = .error (.uniqueConstraintViolation constraint) db') :
    ∃ mt, LooksUp db tableName schemaName mt ∧ ¬ IndexesUnchanged mt.id db db' := by
  obtain ⟨mt, hlook, hnew⟩ := (ensures_createIndex_refused indexName tableName columnName schemaName
    isUnique db).of_error hrun ⟨constraint, rfl⟩
  refine ⟨mt, hlook, fun hsame => ?_⟩
  exact listId_ne _ _ _ (hnew.lists.symm.trans hsame.lists)

end StdDbInstance

/-! ## A refused index -/

open StdDbInstance

/-- Creating a unique index on the column of the table. -/
def createUnique : TableCall := .createIndex [105] [116] [97] [115] true

/-- The table with the same value in two rows. -/
def twiceOne : StdDbInstance := insertOne.after (insertOne.after oneTable)

/-- Whether a call ends in a report of a duplicate. -/
def TableCall.refused (c : TableCall) (db : StdDbInstance) : Bool :=
  match c.run db with
  | .error (.uniqueConstraintViolation _) _ => true
  | _ => false

theorem TableCall.run_of_refused {c : TableCall} {db : StdDbInstance} (h : c.refused db = true) :
    ∃ constraint db', c.run db = .error (.uniqueConstraintViolation constraint) db' := by
  unfold TableCall.refused at h
  split at h
  · exact ⟨_, _, by assumption⟩
  · cases h

/-- Two rows with the same value: the unique index is refused, and its file
stays. -/
theorem not_indexesUnchanged_twiceOne :
    ∃ constraint db' mt,
      createUnique.run twiceOne = .error (.uniqueConstraintViolation constraint) db'
      ∧ LooksUp twiceOne [116] [115] mt ∧ ¬ IndexesUnchanged mt.id twiceOne db' := by
  have hrefused : createUnique.refused twiceOne = true := by decide +kernel
  obtain ⟨constraint, db', hrun⟩ := TableCall.run_of_refused hrefused
  obtain ⟨mt, hlook, hnot⟩ := not_indexesUnchanged_of_violation hrun
  exact ⟨constraint, db', mt, hrun, hlook, hnot⟩

/-- **A refused index leaves traces.** -/
theorem refusal_changes_indexes :
    ¬ ∀ (db db' : StdDbInstance) (indexName tableName columnName schemaName constraint : Bytes)
      (isUnique : Bool) (mt : MetaTable), LooksUp db tableName schemaName mt →
      createIndex indexName tableName columnName schemaName isUnique db
        = .error (.uniqueConstraintViolation constraint) db' → IndexesUnchanged mt.id db db' := by
  intro h
  have hrefused : createUnique.refused twiceOne = true := by decide +kernel
  obtain ⟨constraint, db', hrun⟩ := TableCall.run_of_refused hrefused
  obtain ⟨mt, hlook, hnew⟩ :=
    (ensures_createIndex_refused [105] [116] [97] [115] true twiceOne).of_error hrun
      ⟨constraint, rfl⟩
  exact listId_ne _ _ _ (hnew.lists.symm.trans (h _ _ _ _ _ _ _ _ mt hlook hrun).lists)
