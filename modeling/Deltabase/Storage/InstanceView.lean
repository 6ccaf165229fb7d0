import Deltabase.Storage.StdDbInstance

/-!
# What an instance sees

A page is what `get_dp` returns for it: the pool's copy, or else what the file
holds. Reading a page changes the pool but not what is seen; `SameRows` relates
two states in which the same pages, tables and log records are seen, whatever
has been loaded or done to the indexes meanwhile.

For each part of the buffer pool and the storage operations, this module says
once what it does in these terms. The operations on rows are then described
without mentioning the pool or the files.
-/

namespace StdDbInstance

open BufferPool Transaction FileIOManager

variable {db db' db'' : StdDbInstance}

/-! ## Views -/

/-- The page that `get_dp` returns. -/
def page (db : StdDbInstance) (id : DataPageId) : Option DataPage :=
  match db.pool.dataPages id with
  | some entry => some entry.value
  | none => readDataPage db.io id

/-- Whether a page is in the pool. -/
def Loaded (db : StdDbInstance) (id : DataPageId) : Prop := (db.pool.dataPages id).isSome

/-- Whether a page is marked to be written. -/
def dirtyPage (db : StdDbInstance) (id : DataPageId) : Bool :=
  ((db.pool.dataPages id).map CacheEntry.dirty).getD false

/-- The index file that `get_table_index` returns for an index it lists. -/
def indexFile (db : StdDbInstance) (id : IndexId) : Option IndexFile :=
  match db.pool.indexFiles id with
  | some entry => some entry.value
  | none => readIndexFile db.io id

/-- The ids of the pages of a table. -/
def pageIds (db : StdDbInstance) (tableId : TableId) : List DataPageId :=
  (db.pool.dataPagesPerTable tableId).getD []

/-- The rows of a page; none when there is no such page. -/
def pageRows (db : StdDbInstance) (id : DataPageId) : List DataRow :=
  ((db.page id).map DataPage.rows).getD []

/-- **The row versions of a table**, live or obsolete, page after page. -/
def tableRows (db : StdDbInstance) (tableId : TableId) : List DataRow :=
  (db.pageIds tableId).flatMap db.pageRows

/-- The same rows are seen: nothing but indexes and what is loaded differs. -/
structure SameRows (db db' : StdDbInstance) : Prop where
  ioPages : db'.io.pages = db.io.pages
  ioSchemas : db'.io.schemas = db.io.schemas
  ioTables : db'.io.tables = db.io.tables
  wal : db'.wal = db.wal
  catalog : db'.catalog = db.catalog
  txn : db'.txn = db.txn
  clock : db'.clock = db.clock
  generator : db'.generator = db.generator
  lists : db'.pool.dataPagesPerTable = db.pool.dataPagesPerTable
  page : db'.page = db.page
  dirty : db'.dirtyPage = db.dirtyPage
  loaded : ∀ id, db.Loaded id → db'.Loaded id

/-- The same is seen: nothing but what is loaded differs. -/
structure SameView (db db' : StdDbInstance) : Prop extends SameRows db db' where
  ioHeadless : db'.io.headless = db.io.headless
  ioIndexFiles : db'.io.indexFiles = db.io.indexFiles
  indexLists : db'.pool.indexFilesPerTable = db.pool.indexFilesPerTable
  indexFile : db'.indexFile = db.indexFile

@[refl] theorem SameRows.refl (db : StdDbInstance) : SameRows db db :=
  ⟨rfl, rfl, rfl, rfl, rfl, rfl, rfl, rfl, rfl, rfl, rfl, fun _ h => h⟩

@[trans] theorem SameRows.trans (h : SameRows db db') (h' : SameRows db' db'') :
    SameRows db db'' where
  ioPages := h'.ioPages.trans h.ioPages
  ioSchemas := h'.ioSchemas.trans h.ioSchemas
  ioTables := h'.ioTables.trans h.ioTables
  wal := h'.wal.trans h.wal
  catalog := h'.catalog.trans h.catalog
  txn := h'.txn.trans h.txn
  clock := h'.clock.trans h.clock
  generator := h'.generator.trans h.generator
  lists := h'.lists.trans h.lists
  page := h'.page.trans h.page
  dirty := h'.dirty.trans h.dirty
  loaded id hid := h'.loaded id (h.loaded id hid)

@[refl] theorem SameView.refl (db : StdDbInstance) : SameView db db :=
  ⟨.refl db, rfl, rfl, rfl, rfl⟩

@[trans] theorem SameView.trans (h : SameView db db') (h' : SameView db' db'') :
    SameView db db'' :=
  ⟨h.toSameRows.trans h'.toSameRows, h'.ioHeadless.trans h.ioHeadless,
    h'.ioIndexFiles.trans h.ioIndexFiles,
    h'.indexLists.trans h.indexLists, h'.indexFile.trans h.indexFile⟩

theorem SameRows.pageIds (h : SameRows db db') : db'.pageIds = db.pageIds := by
  funext tableId
  unfold StdDbInstance.pageIds
  rw [h.lists]

theorem SameRows.pageRows (h : SameRows db db') : db'.pageRows = db.pageRows := by
  funext id
  unfold StdDbInstance.pageRows
  rw [h.page]

theorem SameRows.tableRows (h : SameRows db db') : db'.tableRows = db.tableRows := by
  funext tableId
  unfold StdDbInstance.tableRows
  rw [h.pageIds, h.pageRows]

theorem page_of_loaded {id : DataPageId} (h : db.Loaded id) :
    ∃ entry, db.pool.dataPages id = some entry ∧ db.page id = some entry.value := by
  obtain ⟨entry, hentry⟩ := Option.isSome_iff_exists.mp h
  exact ⟨entry, hentry, by unfold page; rw [hentry]⟩

/-! ## Reading pages -/

/-- Loading a page from its file. -/
theorem sameView_putDp {id : DataPageId} {p : DataPage} (hpool : db.pool.dataPages id = none)
    (hread : readDataPage db.io id = some p) : SameView db (putDp id p db) := by
  refine ⟨⟨rfl, rfl, rfl, rfl, rfl, rfl, rfl, rfl, rfl, ?_, ?_, ?_⟩, rfl, rfl, rfl, rfl⟩
  · funext id'
    by_cases hid : id' = id
    · subst hid
      simp [page, putDp, CacheEntry.put, hpool, hread]
    · simp [page, putDp, Function.update_of_ne hid]
  · funext id'
    by_cases hid : id' = id
    · subst hid
      simp [dirtyPage, putDp, CacheEntry.put, hpool]
    · simp [dirtyPage, putDp, Function.update_of_ne hid]
  · intro id' hid'
    by_cases hid : id' = id
    · subst hid
      simp [Loaded, putDp]
    · simpa [Loaded, putDp, Function.update_of_ne hid] using hid'

/-- **`get_dp`** returns the page that is seen, and loads it. -/
theorem ensures_getDp (id : DataPageId) (db : StdDbInstance) :
    Ensures (getDp id) db
      (fun p db' => p = db.page id ∧ SameView db db' ∧ (p ≠ none → db'.Loaded id))
      fun _ _ => False := by
  unfold Ensures getDp
  cases hpool : db.pool.dataPages id with
  | some entry =>
    refine ⟨?_, .refl db, fun _ => ?_⟩
    · unfold page
      rw [hpool]
    · unfold Loaded
      rw [hpool]
      rfl
  | none =>
    simp only
    cases hread : readDataPage db.io id with
    | none =>
      refine ⟨?_, .refl db, fun h => absurd rfl h⟩
      unfold page
      rw [hpool, hread]
    | some p =>
      refine ⟨?_, sameView_putDp hpool hread, fun _ => ?_⟩
      · unfold page
        rw [hpool, hread]
      · simp [Loaded, putDp]

/-- **A program that only reads**, and ends in what `x` says. -/
def ReadsAs {α : Type} (m : Prog α) (db : StdDbInstance) (x : Except Exn α) : Prop :=
  Ensures m db (fun a db' => x = .ok a ∧ SameView db db')
    fun e db' => x = .error e ∧ SameView db db'

section ReadsAs

variable {α β : Type} {m : Prog α} {x : Except Exn α}

theorem readsAs_pure (a : α) (db : StdDbInstance) : ReadsAs (pure a) db (.ok a) :=
  ⟨rfl, .refl db⟩

theorem readsAs_throw (e : Exn) (db : StdDbInstance) :
    ReadsAs (throw e : Prog α) db (.error e) := ⟨rfl, .refl db⟩

theorem readsAs_liftExcept (x : Except Exn α) (db : StdDbInstance) :
    ReadsAs (liftExcept x) db x := by
  unfold ReadsAs
  rw [ensures_liftExcept]
  exact ⟨fun a ha => ⟨ha, .refl db⟩, fun e he => ⟨he, .refl db⟩⟩

/-- One reads after the other. -/
theorem ReadsAs.bind {f : α → Prog β} {g : α → Except Exn β} (h : ReadsAs m db x)
    (hf : ∀ a db', SameView db db' → ReadsAs (f a) db' (g a)) : ReadsAs (m >>= f) db (x >>= g) := by
  unfold ReadsAs
  rw [ensures_bind]
  refine h.mono (fun a db₁ ⟨ha, hsame⟩ => ?_) fun e db₁ ⟨he, hsame⟩ => ?_
  · subst ha
    exact (hf a db₁ hsame).mono (fun b db₂ ⟨hb, hsame'⟩ => ⟨hb, hsame.trans hsame'⟩)
      fun e db₂ ⟨he, hsame'⟩ => ⟨he, hsame.trans hsame'⟩
  · subst he
    exact ⟨rfl, hsame⟩

/-- Reading something that is there. -/
theorem ReadsAs.bind_ok {a : α} {f : α → Prog β} {y : Except Exn β} (h : ReadsAs m db (.ok a))
    (hf : ∀ db', SameView db db' → ReadsAs (f a) db' y) : ReadsAs (m >>= f) db y := by
  unfold ReadsAs
  rw [ensures_bind]
  refine h.mono (fun b db₁ ⟨hb, hsame⟩ => ?_) fun e db₁ ⟨he, _⟩ => ?_
  · obtain rfl := Except.ok.inj hb
    exact (hf db₁ hsame).mono (fun b db₂ ⟨hb, hsame'⟩ => ⟨hb, hsame.trans hsame'⟩)
      fun e db₂ ⟨he, hsame'⟩ => ⟨he, hsame.trans hsame'⟩
  · cases he

theorem ReadsAs.foldlM {ι : Type} {f : β → ι → Prog β} {g : β → ι → Except Exn β}
    (hf : ∀ b i db', SameView db db' → ReadsAs (f b i) db' (g b i)) (l : List ι) (b : β) :
    ReadsAs (l.foldlM f b) db (l.foldlM g b) := by
  induction l generalizing b db with
  | nil => exact readsAs_pure b db
  | cons i l ih =>
    rw [List.foldlM_cons, List.foldlM_cons]
    exact (hf b i db (.refl db)).bind fun b' db₁ hsame =>
      ih (fun b i db₂ hsame' => hf b i db₂ (hsame.trans hsame')) b'

/-- How a program that only reads ends in a value. -/
theorem ReadsAs.eq_ok_iff (h : ReadsAs m db x) {a : α} :
    x = .ok a ↔ ∃ db', m db = .ok a db' ∧ SameView db db' := by
  unfold ReadsAs Ensures at h
  cases hm : m db with
  | ok b db' =>
    rw [hm] at h
    constructor
    · intro ha
      exact ⟨db', by rw [← Except.ok.inj (h.1.symm.trans ha)], h.2⟩
    · rintro ⟨db₁, hok, -⟩
      rw [h.1, (EStateM.Result.ok.inj hok).1]
  | error e db' =>
    rw [hm] at h
    constructor
    · intro ha
      cases h.1.symm.trans ha
    · rintro ⟨db₁, hok, -⟩
      cases hok

end ReadsAs

theorem readsAs_getDp (id : DataPageId) (db : StdDbInstance) :
    ReadsAs (getDp id) db (.ok (db.page id)) :=
  (ensures_getDp id db).mono (fun _ _ ⟨hp, hsame, _⟩ => ⟨hp ▸ rfl, hsame⟩) fun _ _ h => h.elim

/-- The loop of `get_table_data` returns the pages that are seen, and loads
them. -/
theorem ensures_getDps (ids : List DataPageId) (db : StdDbInstance) :
    Ensures (getDps ids) db
      (fun pages db' => pages = ids.map db.page ∧ SameView db db'
        ∧ ∀ id ∈ ids, db.page id ≠ none → db'.Loaded id)
      fun _ _ => False := by
  induction ids generalizing db with
  | nil => exact ⟨rfl, .refl db, by simp⟩
  | cons id ids ih =>
    unfold getDps
    rw [ensures_bind]
    refine (ensures_getDp id db).mono_ok fun p db₁ ⟨hp, hsame, hload⟩ => ?_
    rw [ensures_bind]
    refine (ih db₁).mono_ok fun pages db₂ ⟨hpages, hsame', hload'⟩ => ?_
    rw [ensures_pure]
    refine ⟨?_, hsame.trans hsame', fun id' hid' hne => ?_⟩
    · rw [hp, hpages, hsame.page, List.map_cons]
    · rcases List.mem_cons.mp hid' with rfl | hid'
      · exact hsame'.loaded _ (hload (hp ▸ hne))
      · exact hload' id' hid' (hsame.page ▸ hne)

/-- **`get_table_data`** returns the pages of the table, and loads them. -/
theorem ensures_getTableData (tableId : TableId) (db : StdDbInstance) :
    Ensures (getTableData tableId) db
      (fun pages db' => pages = (db.pageIds tableId).map db.page ∧ SameView db db'
        ∧ ∀ id ∈ db.pageIds tableId, db.page id ≠ none → db'.Loaded id)
      fun _ _ => False := by
  unfold getTableData pageIds
  rw [ensures_bind, ensures_get]
  cases hlist : db.pool.dataPagesPerTable tableId with
  | none => exact ⟨rfl, .refl db, by simp⟩
  | some ids => exact ensures_getDps ids db

/-- **`is_row_obsolete`** only reads. -/
theorem ensures_isRowObsolete (rowPtr : RowPtr) (db : StdDbInstance) :
    Ensures (isRowObsolete rowPtr) db
      (fun b db' => SameView db db'
        ∧ b = (((db.pageRows rowPtr.1).find? fun row => row.id = rowPtr.2).map
            DataRow.obsolete).getD false)
      fun _ _ => False := by
  unfold isRowObsolete pageRows
  rw [ensures_bind]
  refine (ensures_getDp rowPtr.1 db).mono_ok fun p db₁ hgot => ?_
  obtain ⟨hp, hsame, -⟩ := hgot
  rw [← hp]
  cases p with
  | none => exact ⟨hsame, rfl⟩
  | some page =>
    rw [Option.map_some, Option.getD_some]
    dsimp only
    cases page.rows.find? fun row => row.id = rowPtr.2 with
    | none => exact ⟨hsame, rfl⟩
    | some row => exact ⟨hsame, rfl⟩

/-! ## Indexes -/

/-- Changes of index files leave the rows alone. -/
theorem sameRows_changeIf (id : IndexId) (f : CacheEntry IndexFile → CacheEntry IndexFile)
    (db : StdDbInstance) : SameRows db (changeIf id f db) :=
  ⟨rfl, rfl, rfl, rfl, rfl, rfl, rfl, rfl, rfl, rfl, rfl, fun _ h => h⟩

theorem sameRows_putIf (id : IndexId) (file : IndexFile) (db : StdDbInstance) :
    SameRows db (putIf id file db) :=
  ⟨rfl, rfl, rfl, rfl, rfl, rfl, rfl, rfl, rfl, rfl, rfl, fun _ h => h⟩

theorem indexFile_putIf (id : IndexId) (file : IndexFile) (db : StdDbInstance) :
    (putIf id file db).indexFile = Function.update db.indexFile id (some file) := by
  funext id'
  by_cases hid : id' = id
  · subst hid
    cases hpool : db.pool.indexFiles id' <;> simp [indexFile, putIf, CacheEntry.put, hpool]
  · simp [indexFile, putIf, Function.update_of_ne hid]

/-- Marking a file, or raising its LSN, is not seen in the other files. -/
theorem indexFile_changeIf_of_ne {id id' : IndexId} (h : id' ≠ id)
    (f : CacheEntry IndexFile → CacheEntry IndexFile) (db : StdDbInstance) :
    (changeIf id f db).indexFile id' = db.indexFile id' := by
  simp [indexFile, changeIf, Function.update_of_ne h]

/-- A mark is not seen. -/
theorem indexFile_mark (id : IndexId) (db : StdDbInstance) :
    (changeIf id (fun entry => { entry with dirty := true }) db).indexFile = db.indexFile := by
  funext id'
  by_cases hid : id' = id
  · subst hid
    cases hpool : db.pool.indexFiles id' <;> simp [indexFile, changeIf, hpool]
  · exact indexFile_changeIf_of_ne hid _ db

/-- The file that `file_or_throw` returns. -/
def listedFile (db : StdDbInstance) (tableId : TableId) (indexId : IndexId) :
    Except Exn IndexFile :=
  match db.pool.indexFilesPerTable tableId with
  | none => .error (.runtimeError "BPIndexPager::file_or_throw")
  | some ids =>
    if indexId ∉ ids then .error (.runtimeError "BPIndexPager::file_or_throw")
    else match db.indexFile indexId with
      | some file => .ok file
      | none => .error (.runtimeError "BPIndexPager::file_or_throw")

theorem SameView.listedFile (h : SameView db db') : db'.listedFile = db.listedFile := by
  funext tableId indexId
  unfold StdDbInstance.listedFile
  rw [h.indexLists, h.indexFile]

theorem indexFile_of_listedFile {tableId : TableId} {indexId : IndexId} {file : IndexFile}
    (h : db.listedFile tableId indexId = .ok file) : db.indexFile indexId = some file := by
  unfold listedFile at h
  split at h
  · cases h
  · split_ifs at h
    split at h
    · rename_i heq
      rw [heq, Except.ok.inj h]
    · cases h

/-- **`file_or_throw`** only reads. -/
theorem readsAs_fileOrThrow (tableId : TableId) (indexId : IndexId) (db : StdDbInstance) :
    ReadsAs (fileOrThrow tableId indexId) db (db.listedFile tableId indexId) := by
  unfold ReadsAs fileOrThrow
  rw [ensures_bind]
  unfold Ensures getTableIndex listedFile
  cases db.pool.indexFilesPerTable tableId with
  | none => exact ⟨rfl, .refl db⟩
  | some ids =>
    simp only
    split_ifs with hmem
    · cases hpool : db.pool.indexFiles indexId with
      | some entry =>
        refine ⟨?_, .refl db⟩
        unfold indexFile
        rw [hpool]
      | none =>
        simp only
        cases hread : readIndexFile db.io indexId with
        | none =>
          refine ⟨?_, .refl db⟩
          unfold indexFile
          rw [hpool, hread]
        | some file =>
          have hfile : db.indexFile indexId = some file := by
            unfold indexFile
            rw [hpool, hread]
          refine ⟨?_, ⟨sameRows_putIf indexId file db, rfl, rfl, rfl, ?_⟩⟩
          · rw [hfile]
          · rw [indexFile_putIf, ← hfile, Function.update_eq_self]
    · exact ⟨rfl, .refl db⟩

theorem ensures_fileOrThrow (tableId : TableId) (indexId : IndexId) (db : StdDbInstance) :
    Ensures (fileOrThrow tableId indexId) db
      (fun file db' => SameView db db' ∧ db.indexFile indexId = some file)
      fun _ db' => SameView db db' :=
  (readsAs_fileOrThrow tableId indexId db).mono
    (fun _ _ ⟨hfile, hsame⟩ => ⟨hsame, indexFile_of_listedFile hfile⟩) fun _ _ h => h.2

/-- **`tree.find`** only reads. -/
theorem ensures_treeFind (tableId : TableId) (indexId : IndexId) (key : DataToken)
    (db : StdDbInstance) :
    Ensures (treeFind tableId indexId key) db
      (fun found db' => SameView db db' ∧ ∃ file, db.indexFile indexId = some file
        ∧ IndexBPlusTree.find file key = .ok found)
      fun _ db' => SameView db db' := by
  unfold treeFind
  rw [ensures_bind]
  refine (ensures_fileOrThrow tableId indexId db).mono_ok fun file db₁ ⟨hsame, hfile⟩ => ?_
  rw [ensures_liftExcept]
  exact ⟨fun found hfound => ⟨hsame, file, hfile, hfound⟩, fun _ _ => hsame⟩

/-- **`tree.insert`** changes the one index file. -/
theorem ensures_treeInsert (tableId : TableId) (indexId : IndexId) (key : DataToken)
    (rowPtr : RowPtr) (db : StdDbInstance) :
    Ensures (treeInsert tableId indexId key rowPtr) db
      (fun _ db' => SameRows db db' ∧ db'.io.indexFiles = db.io.indexFiles
        ∧ db'.pool.indexFilesPerTable = db.pool.indexFilesPerTable
        ∧ ∃ file file', db.indexFile indexId = some file
          ∧ IndexBPlusTree.insert {} file key rowPtr = .ok file'
          ∧ db'.indexFile = Function.update db.indexFile indexId (some file'))
      fun _ db' => SameView db db' := by
  unfold treeInsert dirtyIf
  rw [ensures_bind]
  refine (ensures_fileOrThrow tableId indexId db).mono_ok fun file db₁ ⟨hsame, hfile⟩ => ?_
  rw [ensures_bind, ensures_liftExcept]
  refine ⟨fun file' hinsert => ?_, fun _ _ => hsame⟩
  rw [ensures_bind, ensures_modify, ensures_modify]
  refine ⟨hsame.toSameRows.trans ((sameRows_putIf indexId file' db₁).trans
    (sameRows_changeIf indexId _ _)), hsame.ioIndexFiles, hsame.indexLists, file, file', hfile,
    hinsert, ?_⟩
  rw [indexFile_mark, indexFile_putIf, hsame.indexFile]

/-- What the uniqueness check of an index finds in a state: no entry for the
key, or one whose row is obsolete. -/
def KeyFree (db : StdDbInstance) (mi : MetaIndex) (key : DataToken) : Prop :=
  ∃ file found, db.indexFile mi.id = some file ∧ IndexBPlusTree.find file key = .ok found
    ∧ ∀ ptr, found = some ptr →
      (((db.pageRows ptr.1).find? fun row => row.id = ptr.2).map DataRow.obsolete) = some true

/-- **The uniqueness check** only reads, and passes when the key is free. -/
theorem ensures_checkUnique (mt : MetaTable) (mi : MetaIndex) (key : DataToken)
    (db : StdDbInstance) :
    Ensures (checkUnique mt mi key) db (fun _ db' => SameView db db' ∧ KeyFree db mi key)
      fun _ db' => SameView db db' := by
  unfold checkUnique
  rw [ensures_bind]
  refine (ensures_treeFind mt.id mi.id key db).mono_ok
    fun found db₁ ⟨hsame, file, hfile, hfind⟩ => ?_
  cases found with
  | none => exact ⟨hsame, file, none, hfile, hfind, fun ptr h => by cases h⟩
  | some ptr =>
    show Ensures (isRowObsolete ptr >>= _) db₁ _ _
    rw [ensures_bind]
    refine ((ensures_isRowObsolete ptr db₁).mono (fun b db₂ ⟨hsame', hb⟩ => ?_)
      fun _ _ h => h.elim)
    cases b with
    | false => exact hsame.trans hsame'
    | true =>
      refine ⟨hsame.trans hsame', file, some ptr, hfile, hfind, fun ptr' hptr => ?_⟩
      obtain rfl := Option.some.inj hptr
      rw [hsame.pageRows] at hb
      cases hrow : ((db.pageRows ptr.1).find? fun row => row.id = ptr.2).map DataRow.obsolete with
      | none => rw [hrow] at hb; cases hb
      | some b => rw [hrow] at hb; rw [hb]; rfl

/-- What `insert_row_into_indexes` has established for an index when it has
passed it: the row has a value for it, and if that is not `NULL` and the index
is unique, the key was free. -/
def IndexPassed (db : StdDbInstance) (mt : MetaTable) (row : DataRow) (mi : MetaIndex) : Prop :=
  ∃ key, indexKey mt mi row = .ok key
    ∧ (key.type ≠ .null → mi.isUnique = true → KeyFree db mi key)

/-- **Entries of a row** for one index after the other: none when the row has no
value there. -/
inductive EntriesAdded (mt : MetaTable) (row : DataRow) (pageId : DataPageId) :
    List MetaIndex → (IndexId → Option IndexFile) → (IndexId → Option IndexFile) → Prop
  | nil (files : IndexId → Option IndexFile) : EntriesAdded mt row pageId [] files files
  | null {mi : MetaIndex} {mis : List MetaIndex} {files files' : IndexId → Option IndexFile}
      {key : DataToken} (hkey : indexKey mt mi row = .ok key) (hnull : key.type = .null)
      (h : EntriesAdded mt row pageId mis files files') :
      EntriesAdded mt row pageId (mi :: mis) files files'
  | added {mi : MetaIndex} {mis : List MetaIndex} {files files' : IndexId → Option IndexFile}
      {key : DataToken} {file file' : IndexFile} (hkey : indexKey mt mi row = .ok key)
      (hnull : key.type ≠ .null) (hfile : files mi.id = some file)
      (hinsert : IndexBPlusTree.insert {} file key (pageId, row.id) = .ok file')
      (h : EntriesAdded mt row pageId mis (Function.update files mi.id (some file')) files') :
      EntriesAdded mt row pageId (mi :: mis) files files'

/-- The same index files are listed, and the same are on disk. -/
structure SameListing (db db' : StdDbInstance) : Prop where
  ioIndexFiles : db'.io.indexFiles = db.io.indexFiles
  indexLists : db'.pool.indexFilesPerTable = db.pool.indexFilesPerTable

@[refl] theorem SameListing.refl (db : StdDbInstance) : SameListing db db := ⟨rfl, rfl⟩

@[trans] theorem SameListing.trans (h : SameListing db db') (h' : SameListing db' db'') :
    SameListing db db'' :=
  ⟨h'.ioIndexFiles.trans h.ioIndexFiles, h'.indexLists.trans h.indexLists⟩

theorem SameView.listing (h : SameView db db') : SameListing db db' :=
  ⟨h.ioIndexFiles, h.indexLists⟩

/-- The key is free in any state where the same rows are seen and the index's
file is the same. -/
theorem KeyFree.of_same {mi : MetaIndex} {key : DataToken} (h : KeyFree db' mi key)
    (hsame : SameRows db db') (hfile : db'.indexFile mi.id = db.indexFile mi.id) :
    KeyFree db mi key := by
  obtain ⟨file, found, hf, hfind, hptr⟩ := h
  rw [hfile] at hf
  rw [hsame.pageRows] at hptr
  exact ⟨file, found, hf, hfind, hptr⟩

/-- **One round of `insert_row_into_indexes`**: the index is passed and gets its
entry, and no other index file changes. -/
theorem ensures_insertIntoIndex (mt : MetaTable) (row : DataRow) (pageId : DataPageId)
    (touched : List IndexId) (mi : MetaIndex) (db : StdDbInstance) :
    Ensures (insertIntoIndex mt row pageId touched mi) db
      (fun _ db' => SameRows db db' ∧ SameListing db db' ∧ IndexPassed db mt row mi
        ∧ (∀ id, id ≠ mi.id → db'.indexFile id = db.indexFile id)
        ∧ ∀ mis files, EntriesAdded mt row pageId mis db'.indexFile files →
          EntriesAdded mt row pageId (mi :: mis) db.indexFile files)
      fun _ db' => SameRows db db' := by
  unfold insertIntoIndex
  rw [ensures_bind, ensures_liftExcept]
  refine ⟨fun key hkey => ?_, fun _ _ => .refl db⟩
  -- what the insertion into the tree amounts to, after a check that only reads
  have hgot : ∀ db₁ db₂, SameView db db₁ → IndexPassed db mt row mi → ¬ key.type = .null →
      (SameRows db₁ db₂ ∧ db₂.io.indexFiles = db₁.io.indexFiles
        ∧ db₂.pool.indexFilesPerTable = db₁.pool.indexFilesPerTable
        ∧ ∃ file file', db₁.indexFile mi.id = some file
          ∧ IndexBPlusTree.insert {} file key (pageId, row.id) = .ok file'
          ∧ db₂.indexFile = Function.update db₁.indexFile mi.id (some file')) →
      SameRows db db₂ ∧ SameListing db db₂ ∧ IndexPassed db mt row mi
        ∧ (∀ id, id ≠ mi.id → db₂.indexFile id = db.indexFile id)
        ∧ ∀ mis files, EntriesAdded mt row pageId mis db₂.indexFile files →
          EntriesAdded mt row pageId (mi :: mis) db.indexFile files := by
    intro db₁ db₂ hsame hpassed hnull ⟨hrows, hio, hlists, file, file', hfile, hinsert, hfiles⟩
    rw [hsame.indexFile] at hfile hfiles
    refine ⟨hsame.toSameRows.trans hrows, hsame.listing.trans ⟨hio, hlists⟩, hpassed,
      fun id hid => ?_, fun mis files h => ?_⟩
    · rw [hfiles, Function.update_of_ne hid]
    · rw [hfiles] at h
      exact .added hkey hnull hfile hinsert h
  split_ifs with hnull hunique
  · exact ⟨.refl db, .refl db, ⟨key, hkey, fun h => absurd hnull h⟩, fun _ _ => rfl,
      fun _ _ h => .null hkey hnull h⟩
  · rw [ensures_bind]
    refine (ensures_checkUnique mt mi key db).mono (fun _ db₁ ⟨hsame, hfree⟩ => ?_)
      fun _ _ h => h.toSameRows
    rw [ensures_bind]
    exact (ensures_treeInsert mt.id mi.id key (pageId, row.id) db₁).mono
      (fun _ db₂ h => hgot db₁ db₂ hsame ⟨key, hkey, fun _ _ => hfree⟩ hnull h)
      fun _ _ h => hsame.toSameRows.trans h.toSameRows
  · rw [ensures_bind]
    exact (ensures_treeInsert mt.id mi.id key (pageId, row.id) db).mono
      (fun _ db₂ h => hgot db db₂ (.refl db) ⟨key, hkey, fun _ h => absurd h hunique⟩ hnull h)
      fun _ _ h => h.toSameRows

/-- **`insert_row_into_indexes`** leaves the rows alone, and when it returns
every index has been passed and has got its entry. -/
theorem ensures_insertRowIntoIndexes (mt : MetaTable) (row : DataRow) (pageId : DataPageId)
    (db : StdDbInstance) :
    Ensures (insertRowIntoIndexes mt row pageId) db
      (fun _ db' => SameRows db db' ∧ SameListing db db'
        ∧ EntriesAdded mt row pageId mt.indexes db.indexFile db'.indexFile
        ∧ ((mt.indexes.map MetaIndex.id).Nodup → ∀ mi ∈ mt.indexes, IndexPassed db mt row mi))
      fun _ db' => SameRows db db' := by
  unfold insertRowIntoIndexes
  refine (Ensures.foldlM
    (fun rest _ db' => SameRows db db' ∧ SameListing db db'
      ∧ (∀ files, EntriesAdded mt row pageId rest db'.indexFile files →
        EntriesAdded mt row pageId mt.indexes db.indexFile files)
      ∧ ((mt.indexes.map MetaIndex.id).Nodup →
        ∃ done, done ++ rest = mt.indexes ∧ (∀ mi ∈ done, IndexPassed db mt row mi)
          ∧ ∀ mi ∈ rest, db'.indexFile mi.id = db.indexFile mi.id))
    (E := fun _ db' => SameRows db db')
    (fun mi rest touched db₁ ⟨hsame, hlisting, hadded, hdone⟩ => ?_)
    ⟨.refl db, .refl db, fun _ h => h, fun _ => ?_⟩).mono_ok
    fun _ db' ⟨hsame, hlisting, hadded, hdone⟩ =>
      ⟨hsame, hlisting, hadded _ (.nil _), fun hnodup => ?_⟩
  · refine (ensures_insertIntoIndex mt row pageId touched mi db₁).mono
      (fun _ db₂ ⟨hsame', hlisting', hpassed, hother, hround⟩ => ⟨hsame.trans hsame',
        hlisting.trans hlisting', fun files h => hadded files (hround rest files h),
        fun hnodup => ?_⟩)
      fun _ _ h => hsame.trans h
    obtain ⟨done, hall, hpass, hrest⟩ := hdone hnodup
    refine ⟨done ++ [mi], by rw [← hall, List.append_assoc]; rfl, fun mi' hmi' => ?_,
      fun mi' hmi' => ?_⟩
    · rcases List.mem_append.mp hmi' with hmi' | hmi'
      · exact hpass mi' hmi'
      · rw [List.mem_singleton.mp hmi']
        obtain ⟨key, hkey, hfree⟩ := hpassed
        exact ⟨key, hkey, fun hnull hu => (hfree hnull hu).of_same hsame
          (hrest mi List.mem_cons_self)⟩
    · have hne : mi'.id ≠ mi.id := by
        rw [← hall, List.map_append, List.map_cons] at hnodup
        have hcons := (List.nodup_append.mp hnodup).2.1
        intro heq
        exact (List.nodup_cons.mp hcons).1 (heq ▸ List.mem_map_of_mem hmi')
      rw [hother mi'.id hne]
      exact hrest mi' (List.mem_cons_of_mem mi hmi')
  · exact ⟨[], rfl, by simp, fun _ _ => rfl⟩
  · obtain ⟨done, hall, hpass, -⟩ := hdone hnodup
    rw [List.append_nil] at hall
    exact hall ▸ hpass

/-- Index files that differ in their LSNs only. -/
def SameTrees (files files' : IndexId → Option IndexFile) : Prop :=
  ∀ id, ∃ f : ℕ → ℕ, files' id
    = (files id).map fun file => { file with lastLsn := f file.lastLsn }

theorem SameTrees.refl (files : IndexId → Option IndexFile) : SameTrees files files :=
  fun id => ⟨fun lsn => lsn, by cases files id <;> rfl⟩

theorem SameTrees.trans {files files' files'' : IndexId → Option IndexFile}
    (h : SameTrees files files') (h' : SameTrees files' files'') : SameTrees files files'' := by
  intro id
  obtain ⟨f, hf⟩ := h id
  obtain ⟨f', hf'⟩ := h' id
  refine ⟨fun lsn => f' (f lsn), ?_⟩
  rw [hf', hf]
  cases files id <;> rfl

/-- Raising the LSN of an index file leaves its tree alone. -/
theorem sameTrees_setIfLsn (indexId : IndexId) (lsn : ℕ) (db : StdDbInstance) :
    SameTrees db.indexFile (changeIf indexId (fun entry =>
      { entry with value := { entry.value with lastLsn := max entry.value.lastLsn lsn } })
      db).indexFile := by
  intro id
  by_cases hid : id = indexId
  · subst hid
    cases hpool : db.pool.indexFiles id with
    | some entry =>
      refine ⟨fun old => max old lsn, ?_⟩
      simp [indexFile, changeIf, hpool]
    | none =>
      refine ⟨fun old => old, ?_⟩
      simp [indexFile, changeIf, hpool]
  · refine ⟨fun old => old, ?_⟩
    rw [indexFile_changeIf_of_ne hid]
    cases db.indexFile id <;> rfl

/-- Raising the LSNs of index files leaves the rows and the trees alone. -/
theorem ensures_setIfLsns (touched : List IndexId) (lsn : ℕ) (db : StdDbInstance) :
    Ensures (touched.forM fun indexId => setIfLsn indexId lsn) db
      (fun _ db' => SameRows db db' ∧ SameListing db db'
        ∧ SameTrees db.indexFile db'.indexFile) fun _ _ => False :=
  Ensures.forM_of_preserves
    (fun db' => SameRows db db' ∧ SameListing db db' ∧ SameTrees db.indexFile db'.indexFile)
    (fun indexId _ db₁ ⟨hsame, hlisting, htrees⟩ =>
      ⟨hsame.trans (sameRows_changeIf indexId _ db₁), hlisting.trans ⟨rfl, rfl⟩,
        htrees.trans (sameTrees_setIfLsn indexId lsn db₁)⟩)
    ⟨.refl db, .refl db, .refl _⟩

end StdDbInstance
