import Deltabase.Storage.RowIds

/-!
# A buffer pool that evicts

The pool of an instance holds a hundred data pages and a hundred index files.
When one more is put into a full cache, the least recently used entry is
evicted, and written first if it is dirty. `EvictingInstance` is an instance
with such caches; the rest of it is that of `StdDbInstance`.

Statements reach the pool by the calls of `PoolCall`, and a `Script` is a
program that makes such calls: which one it makes next may depend on the
answers. A script runs on either kind of instance (`exec`, `plain`), and the
operations on rows are scripts (`RowCall.script_plain`).

A pointer to an entry that has been evicted dangles. A run that uses one ends
there, like one that uses a null pointer.
-/

/-! ## The cache -/

/-- `misc::Cache`, with `cache::LRUPolicy`. -/
structure Cache (κ α : Type) where
  maxSize : ℕ := 100
  /-- `map_`. -/
  entries : List (κ × CacheEntry α) := []
  /-- `lru_list_`, the most recently used key first. -/
  lruList : List κ := []

namespace Cache

variable {κ α : Type} [DecidableEq κ]

/-- The entry of a key. -/
def find (c : Cache κ α) (key : κ) : Option (CacheEntry α) :=
  (c.entries.find? fun entry => entry.1 = key).map Prod.snd

/-- `LRUPolicy::touch`. -/
def touch (c : Cache κ α) (key : κ) : Cache κ α :=
  { c with lruList := key :: c.lruList.erase key }

/-- Changes the entry of a key. -/
def change (c : Cache κ α) (key : κ) (f : CacheEntry α → CacheEntry α) : Cache κ α :=
  { c with entries := c.entries.map fun entry =>
      if entry.1 = key then (key, f entry.2) else entry }

/-- `mark_dirty`. -/
def markDirty (c : Cache κ α) (key : κ) : Cache κ α :=
  match c.find key with
  | none => c
  | some _ => (c.touch key).change key fun entry => { entry with dirty := true }

/-- **The entry that is evicted next**: the least recently used one. -/
def victim (c : Cache κ α) : Option (CacheEntry α) := c.lruList.getLast?.bind c.find

/-- `evict_one`: the value that the victim's flusher writes, and the cache. -/
def evictOne (c : Cache κ α) : Option α × Cache κ α :=
  match c.lruList.getLast? with
  | none => (none, c)
  | some key =>
    ((c.victim.filter CacheEntry.dirty).map CacheEntry.value,
      { c with
        entries := c.entries.filter fun entry => entry.1 ≠ key
        lruList := c.lruList.dropLast })

/-- `put`: the value that is written because it is evicted, and the cache. -/
def put (c : Cache κ α) (key : κ) (value : α) : Option α × Cache κ α :=
  match c.find key with
  | some _ => (none, (c.change key fun entry => { entry with value := value }).touch key)
  | none =>
    let (written, c) := if c.entries.length ≥ c.maxSize then c.evictOne else (none, c)
    (written, { c with entries := (key, { value := value }) :: c.entries }.touch key)

/-- **There is room for a key, or the victim may be written**: it is clean, or
its LSN is durable. -/
def MayPut (c : Cache κ α) (lsn : α → ℕ) (durable : ℕ) (key : κ) : Prop :=
  c.find key = none → c.maxSize ≤ c.entries.length →
    ∀ entry ∈ c.victim, entry.dirty = true → lsn entry.value ≤ durable

instance (c : Cache κ α) (lsn : α → ℕ) (durable : ℕ) (key : κ) :
    Decidable (c.MayPut lsn durable key) := by
  unfold MayPut
  infer_instance

/-- What `put` writes is the victim of a full cache, and dirty. -/
theorem lsn_le_of_put {c : Cache κ α} {lsn : α → ℕ} {durable : ℕ} {key : κ} {value written : α}
    (h : c.MayPut lsn durable key) (hput : (c.put key value).1 = some written) :
    lsn written ≤ durable := by
  unfold put at hput
  cases hfind : c.find key with
  | some entry =>
    rw [hfind] at hput
    cases hput
  | none =>
    rw [hfind] at hput
    by_cases hfull : c.entries.length ≥ c.maxSize
    · simp only [if_pos hfull, evictOne] at hput
      cases hlast : c.lruList.getLast? with
      | none =>
        rw [hlast] at hput
        cases hput
      | some last =>
        rw [hlast] at hput
        obtain ⟨entry, hentry, rfl⟩ := Option.map_eq_some_iff.mp hput
        obtain ⟨hvictim, hdirty⟩ := Option.filter_eq_some_iff.mp hentry
        exact h hfind hfull entry hvictim hdirty
    · simp only [if_neg hfull] at hput
      cases hput

end Cache

/-! ## The instance -/

/-- **An instance whose pool evicts.** Of the pool of `rest` only the lists of
pages and index files are used. -/
structure EvictingInstance where
  rest : StdDbInstance := {}
  dataPages : Cache DataPageId DataPage := {}
  indexFiles : Cache IndexId IndexFile := {}

namespace EvictingInstance

open FileIOManager

/-- Writes the data page that has been evicted, if one has. -/
def flushDp (written : Option DataPage) (db : EvictingInstance) : EvictingInstance :=
  match written with
  | none => db
  | some page => { db with rest := { db.rest with io := writePage db.rest.io page } }

/-- Puts a data page into the pool. -/
def putDp (id : DataPageId) (page : DataPage) (db : EvictingInstance) : EvictingInstance :=
  flushDp (db.dataPages.put id page).1 { db with dataPages := (db.dataPages.put id page).2 }

/-- Writes over an index file that is there. -/
def overwriteIf (io : Disk) (file : IndexFile) : Disk :=
  match writeIndexFile io file with
  | .ok io => io
  | .error _ => io

/-- Writes the index file that has been evicted, if one has. -/
def flushIf (written : Option IndexFile) (db : EvictingInstance) : EvictingInstance :=
  match written with
  | none => db
  | some file => { db with rest := { db.rest with io := overwriteIf db.rest.io file } }

/-- Puts an index file into the pool. -/
def putIf (id : IndexId) (file : IndexFile) (db : EvictingInstance) : EvictingInstance :=
  flushIf (db.indexFiles.put id file).1 { db with indexFiles := (db.indexFiles.put id file).2 }

/-- Clears the mark of the entries that are written. -/
def clean {κ α : Type} (lsn : α → ℕ) (maxLsn : ℕ) (c : Cache κ α) : Cache κ α :=
  { c with entries := c.entries.map fun entry =>
      if entry.2.due lsn maxLsn then (entry.1, { entry.2 with dirty := false }) else entry }

/-- The values that `flush_dirty(max_lsn)` writes. -/
def dueValues {κ α : Type} (lsn : α → ℕ) (maxLsn : ℕ) (c : Cache κ α) : List α :=
  (c.entries.filter fun entry => entry.2.due lsn maxLsn).map fun entry => entry.2.value

/-- `flush_dirty(max_lsn)`. -/
def flushDirty (maxLsn : ℕ) (db : EvictingInstance) : EvictingInstance where
  rest :=
    { db.rest with
      io := (dueValues IndexFile.lastLsn maxLsn db.indexFiles).foldl overwriteIf
        ((dueValues DataPage.lastLsn maxLsn db.dataPages).foldl writePage db.rest.io) }
  dataPages := clean DataPage.lastLsn maxLsn db.dataPages
  indexFiles := clean IndexFile.lastLsn maxLsn db.indexFiles

end EvictingInstance

/-- A program of an instance whose pool evicts. -/
abbrev EvictingProg (α : Type) := EStateM Exn EvictingInstance α

/-- A program that does not use the caches. -/
def EvictingProg.lift {α : Type} (m : Prog α) : EvictingProg α := fun db =>
  match m db.rest with
  | .ok a rest => .ok a { db with rest := rest }
  | .error e rest => .error e { db with rest := rest }

/-! ## Calls -/

/-- **What a statement asks of its instance.** -/
inductive PoolCall where
  /-- The catalog, to be read. -/
  | catalog
  /-- `catalog_->save_table`, or an assignment through the table's pointer. -/
  | saveTable (mt : MetaTable)
  /-- `UUID::make`. -/
  | makeId
  /-- `TransactionManager::make_transaction` and `Transaction::begin`. -/
  | begin
  /-- `Transaction::append_log`. -/
  | appendLog (body : WalBody)
  /-- `Transaction::get_last_lsn`. -/
  | getLastLsn
  /-- `Transaction::commit`. -/
  | commit
  /-- The list of a table in `data_pages_per_table_`. -/
  | tablePages (tableId : TableId)
  | getDp (id : DataPageId)
  | createDp (mt : MetaTable)
  /-- Reading through a page pointer. -/
  | derefDp (id : DataPageId)
  /-- Writing through a page pointer. -/
  | modifyDp (id : DataPageId) (f : DataPage → DataPage)
  | dirtyDp (id : DataPageId)
  | getTableIndex (tableId : TableId) (indexId : IndexId)
  /-- Writing through the pointer to an index file that has just been got. -/
  | assignIf (indexId : IndexId) (file : IndexFile)
  | dirtyIf (indexId : IndexId)
  | setIfLsn (indexId : IndexId) (lastLsn : ℕ)
  | createTableIndex (schemaName : Bytes) (table : MetaTable) (index : MetaIndex) (lastLsn : ℕ)

namespace PoolCall

/-- What a call returns. -/
abbrev Answer : PoolCall → Type
  | catalog => CatalogCache
  | makeId => UUID
  | getLastLsn => ℕ
  | tablePages _ => Option (List DataPageId)
  | getDp _ => Option DataPage
  | createDp _ => DataPage
  | derefDp _ => DataPage
  | getTableIndex _ _ => Option IndexFile
  | _ => Unit

/-- **A call to an instance whose pool does not evict.** -/
def plain : (c : PoolCall) → Prog c.Answer
  | catalog => do
    let db ← get
    pure db.catalog
  | saveTable mt => StdDbInstance.saveTable mt
  | makeId => UUID.make
  | begin => do
    Transaction.makeTransaction
    Transaction.begin
  | appendLog body => Transaction.appendLog body
  | getLastLsn => Transaction.getLastLsn
  | commit => Transaction.commit
  | tablePages tableId => do
    let db ← get
    pure (db.pool.dataPagesPerTable tableId)
  | getDp id => BufferPool.getDp id
  | createDp mt => BufferPool.createDp mt
  | derefDp id => StdDbInstance.derefDp id
  | modifyDp id f => BufferPool.modifyDp id f
  | dirtyDp id => BufferPool.dirtyDp id
  | getTableIndex tableId indexId => BufferPool.getTableIndex tableId indexId
  | assignIf indexId file => modify (BufferPool.putIf indexId file)
  | dirtyIf indexId => BufferPool.dirtyIf indexId
  | setIfLsn indexId lastLsn => BufferPool.setIfLsn indexId lastLsn
  | createTableIndex schemaName table index lastLsn =>
    BufferPool.createTableIndex schemaName table index lastLsn

section Evicting

open EvictingInstance FileIOManager

/-- `get_dp`. -/
def execGetDp (id : DataPageId) : EvictingProg (Option DataPage) := fun db =>
  match db.dataPages.find id with
  | some entry => .ok (some entry.value) { db with dataPages := db.dataPages.touch id }
  | none =>
    match readDataPage db.rest.io id with
    | none => .ok none db
    | some page => .ok (some page) (putDp id page db)

/-- `create_dp`. -/
def execCreateDp (mt : MetaTable) : EvictingProg DataPage := fun db =>
  let id := db.rest.clock
  let db := { db with rest := { db.rest with clock := db.rest.generator.next id } }
  match createPage db.rest.io mt id with
  | .error e => .error e db
  | .ok page =>
    let db := putDp id page db
    .ok page { db with
      rest := { db.rest with pool := { db.rest.pool with
        dataPagesPerTable := BufferPool.listId db.rest.pool.dataPagesPerTable mt.id id } } }

/-- Reading through a page pointer. -/
def execDerefDp (id : DataPageId) : EvictingProg DataPage := fun db =>
  match db.dataPages.find id with
  | some entry => .ok entry.value db
  | none => .error .nullDereference db

/-- Writing through a page pointer. -/
def execModifyDp (id : DataPageId) (f : DataPage → DataPage) : EvictingProg Unit := fun db =>
  match db.dataPages.find id with
  | some _ => .ok () { db with
      dataPages := db.dataPages.change id fun entry => { entry with value := f entry.value } }
  | none => .error .nullDereference db

/-- `get_table_index`. -/
def execGetTableIndex (tableId : TableId) (indexId : IndexId) :
    EvictingProg (Option IndexFile) := fun db =>
  match db.rest.pool.indexFilesPerTable tableId with
  | none => .ok none db
  | some ids =>
    if indexId ∉ ids then .ok none db
    else match db.indexFiles.find indexId with
      | some entry => .ok (some entry.value) { db with indexFiles := db.indexFiles.touch indexId }
      | none =>
        match readIndexFile db.rest.io indexId with
        | none => .ok none db
        | some file => .ok (some file) (putIf indexId file db)

/-- Writing through the pointer to an index file. -/
def execAssignIf (indexId : IndexId) (file : IndexFile) : EvictingProg Unit := fun db =>
  match db.indexFiles.find indexId with
  | some _ => .ok () { db with
      indexFiles := db.indexFiles.change indexId fun entry => { entry with value := file } }
  | none => .error .nullDereference db

/-- `set_if_lsn`. -/
def execSetIfLsn (indexId : IndexId) (lastLsn : ℕ) : EvictingProg Unit := fun db =>
  match db.indexFiles.find indexId with
  | some _ => .ok () { db with
      indexFiles := (db.indexFiles.touch indexId).change indexId fun entry =>
        { entry with value := { entry.value with lastLsn := max entry.value.lastLsn lastLsn } } }
  | none => .ok () db

/-- `create_table_index`. -/
def execCreateTableIndex (schemaName : Bytes) (table : MetaTable) (index : MetaIndex)
    (lastLsn : ℕ) : EvictingProg Unit := fun db =>
  let (file, io) := createIndexFile db.rest.io schemaName table.name index
  let db :=
    putIf index.id { file with lastLsn := lastLsn } { db with rest := { db.rest with io := io } }
  .ok () { db with
    rest := { db.rest with pool := { db.rest.pool with
      indexFilesPerTable := BufferPool.listId db.rest.pool.indexFilesPerTable table.id index.id } }
    indexFiles := db.indexFiles.markDirty index.id }

/-- `commit`. -/
def execCommit : EvictingProg Unit := fun db =>
  match Transaction.commitLog db.rest with
  | .error e rest => .error e { db with rest := rest }
  | .ok _ rest =>
    let db := flushDirty rest.txn.lastLsn { db with rest := rest }
    .ok () { db with rest := { db.rest with txn := { db.rest.txn with state := .committed } } }

/-- **A call to an instance whose pool evicts.** -/
def exec : (c : PoolCall) → EvictingProg c.Answer
  | catalog => .lift (plain catalog)
  | saveTable mt => .lift (plain (saveTable mt))
  | makeId => .lift (plain makeId)
  | begin => .lift (plain begin)
  | appendLog body => .lift (plain (appendLog body))
  | getLastLsn => .lift (plain getLastLsn)
  | commit => execCommit
  | tablePages tableId => .lift (plain (tablePages tableId))
  | getDp id => execGetDp id
  | createDp mt => execCreateDp mt
  | derefDp id => execDerefDp id
  | modifyDp id f => execModifyDp id f
  | dirtyDp id => modify fun db => { db with dataPages := db.dataPages.markDirty id }
  | getTableIndex tableId indexId => execGetTableIndex tableId indexId
  | assignIf indexId file => execAssignIf indexId file
  | dirtyIf indexId => modify fun db => { db with indexFiles := db.indexFiles.markDirty indexId }
  | setIfLsn indexId lastLsn => execSetIfLsn indexId lastLsn
  | createTableIndex schemaName table index lastLsn =>
    execCreateTableIndex schemaName table index lastLsn

/-- The state after a call. -/
def after (c : PoolCall) (db : EvictingInstance) : EvictingInstance :=
  match c.exec db with
  | .ok _ db' => db'
  | .error _ db' => db'

end Evicting

end PoolCall

/-! ## Scripts -/

/-- **A program that makes calls.** -/
inductive Script (α : Type) where
  | done (a : α)
  | fail (e : Exn)
  | call (c : PoolCall) (k : c.Answer → Script α)

namespace Script

variable {α β : Type}

/-- One script after another. -/
def bind : Script α → (α → Script β) → Script β
  | done a, f => f a
  | fail e, _ => fail e
  | call c k, f => call c fun answer => (k answer).bind f

instance : Monad Script where
  pure := done
  bind := bind

/-- A script of one call. -/
def one (c : PoolCall) : Script c.Answer := call c done

/-- A script that throws, or returns. -/
def ofExcept : Except Exn α → Script α
  | .ok a => done a
  | .error e => fail e

/-- Running a script where the pool does not evict. -/
def plain : Script α → Prog α
  | done a => pure a
  | fail e => throw e
  | call c k => c.plain >>= fun answer => (k answer).plain

/-- Running a script where the pool evicts. -/
def exec : Script α → EvictingProg α
  | done a => pure a
  | fail e => throw e
  | call c k => c.exec >>= fun answer => (k answer).exec

/-- The state in which a script ends. -/
def after (script : Script α) (db : EvictingInstance) : EvictingInstance :=
  match script.exec db with
  | .ok _ db' => db'
  | .error _ db' => db'

/-- **The calls that a script makes**, each with the state before it. -/
def trace : Script α → EvictingInstance → List (EvictingInstance × PoolCall)
  | done _, _ => []
  | fail _, _ => []
  | call c k, db => (db, c) ::
    match c.exec db with
    | .ok answer db' => (k answer).trace db'
    | .error _ _ => []

@[simp] theorem plain_pure (a : α) : plain (pure a : Script α) = pure a := rfl

@[simp] theorem plain_one (c : PoolCall) : (one c).plain = c.plain := by
  show (c.plain >>= fun answer => pure answer) = c.plain
  exact bind_pure c.plain

@[simp] theorem plain_ofExcept (x : Except Exn α) : (ofExcept x).plain = liftExcept x := by
  cases x <;> rfl

@[simp] theorem plain_bind (script : Script α) (f : α → Script β) :
    (script >>= f).plain = script.plain >>= fun a => (f a).plain := by
  induction script with
  | done a => exact (pure_bind a fun a => (f a).plain).symm
  | fail e => rfl
  | call c k ih =>
    show (c.plain >>= fun answer => (k answer >>= f).plain) = _
    simp only [ih]
    exact (bind_assoc c.plain _ _).symm

end Script

/-! ## The operations on rows, as scripts -/

namespace Script

open StdDbInstance (laterTail tailPage PageLoop indexKey assignTokens decLiveRows)

/-- `catalog_->get_table(table_name, ms->id)`, dereferenced. -/
def getTable (tableName schemaName : Bytes) : Script MetaTable := do
  let catalog : CatalogCache ← one .catalog
  match catalog.getSchema schemaName with
  | none => fail .nullDereference
  | some schema =>
    let catalog : CatalogCache ← one .catalog
    match catalog.getTable tableName schema.id with
    | none => fail .nullDereference
    | some table => pure table

/-- The loop of `get_table_data`. -/
def getDps : List DataPageId → Script (List (Option DataPage))
  | [] => pure []
  | id :: ids => do
    let page ← one (.getDp id)
    let pages ← getDps ids
    pure (page :: pages)

/-- `get_table_data`. -/
def getTableData (tableId : TableId) : Script (List (Option DataPage)) := do
  let ids : Option (List DataPageId) ← one (.tablePages tableId)
  match ids with
  | none => pure []
  | some ids => getDps ids

/-- The loop of `prepare_dp`. -/
def prepareDpLoop (size : ℕ) (mt : MetaTable) : List DataPageId → Script DataPage
  | [] => one (.createDp mt)
  | id :: ids => do
    let page : Option DataPage ← one (.getDp id)
    match page with
    | none => prepareDpLoop size mt ids
    | some page =>
      if page.size + size ≤ DataPage.maxSize then pure page else prepareDpLoop size mt ids

/-- `prepare_dp`. -/
def prepareDp (size : ℕ) (mt : MetaTable) : Script DataPage := do
  let ids : Option (List DataPageId) ← one (.tablePages mt.id)
  match ids with
  | none => one (.createDp mt)
  | some ids => prepareDpLoop size mt ids

/-- `is_row_obsolete`. -/
def isRowObsolete (rowPtr : RowPtr) : Script Bool := do
  let page : Option DataPage ← one (.getDp rowPtr.1)
  match page with
  | none => pure false
  | some page =>
    match page.rows.find? fun row => row.id = rowPtr.2 with
    | some row => pure row.obsolete
    | none => pure false

/-- `BPIndexPager::file_or_throw`. -/
def fileOrThrow (tableId : TableId) (indexId : IndexId) : Script IndexFile := do
  let file : Option IndexFile ← one (.getTableIndex tableId indexId)
  match file with
  | some file => pure file
  | none => fail (.runtimeError "BPIndexPager::file_or_throw")

/-- `tree.find(key)`. -/
def treeFind (tableId : TableId) (indexId : IndexId) (key : DataToken) :
    Script (Option RowPtr) := do
  let file ← fileOrThrow tableId indexId
  ofExcept (IndexBPlusTree.find file key)

/-- `tree.insert(key, row_ptr)`. -/
def treeInsert (tableId : TableId) (indexId : IndexId) (key : DataToken) (rowPtr : RowPtr) :
    Script Unit := do
  let file ← fileOrThrow tableId indexId
  let file ← ofExcept (IndexBPlusTree.insert {} file key rowPtr)
  one (.assignIf indexId file)
  one (.dirtyIf indexId)

/-- The uniqueness check of `insert_row_into_indexes`. -/
def checkUnique (mt : MetaTable) (mi : MetaIndex) (key : DataToken) : Script Unit := do
  match ← treeFind mt.id mi.id key with
  | none => pure ()
  | some existing =>
    let obsolete ← isRowObsolete existing
    if obsolete then pure () else fail (.uniqueConstraintViolation mi.name)

/-- The body of the loop of `insert_row_into_indexes`. -/
def insertIntoIndex (mt : MetaTable) (row : DataRow) (pageId : DataPageId)
    (touched : List IndexId) (mi : MetaIndex) : Script (List IndexId) := do
  let key ← ofExcept (indexKey mt mi row)
  if key.type = .null then pure touched
  else
    if mi.isUnique then checkUnique mt mi key
    treeInsert mt.id mi.id key (pageId, row.id)
    pure (touched ++ [mi.id])

/-- `insert_row_into_indexes`. -/
def insertRowIntoIndexes (mt : MetaTable) (row : DataRow) (pageId : DataPageId) :
    Script (List IndexId) :=
  mt.indexes.foldlM (insertIntoIndex mt row pageId) []

/-- Links a page to the chain of the pages that were there before it. -/
def linkPage (pagesBefore : List DataPage) (pageId : DataPageId) : Script Unit :=
  if pagesBefore.any fun page => page.id = pageId then pure ()
  else match tailPage pagesBefore with
    | none => pure ()
    | some tail => do
      one (.modifyDp tail.id fun page => { page with next := pageId })
      one (.dirtyDp tail.id)

/-- `insert_row`. -/
def insertRow (tableName schemaName : Bytes) (cols : Option (List Bytes)) (row : List DataToken) :
    Script Unit := do
  let mtUnchanged ← getTable tableName schemaName
  let (newRow, mt) := mtUnchanged.makeRow cols row
  one (.saveTable mt)
  let pagesBefore ← getTableData mt.id
  let page ← prepareDp (StdStorageSerializer.estimateSize newRow) mt
  linkPage (pagesBefore.filterMap id) page.id
  let touchedIndexes ← insertRowIntoIndexes mt newRow page.id
  one (.modifyDp page.id fun page => { page with rows := page.rows ++ [newRow] })
  one (.appendLog (.insert mt.id page.id newRow))
  one (.appendLog (.updateTable mtUnchanged mt))
  let pageLsn : ℕ ← one .getLastLsn
  one (.modifyDp page.id fun page => { page with lastLsn := pageLsn })
  touchedIndexes.forM fun indexId => one (.setIfLsn indexId pageLsn)
  one (.dirtyDp page.id)

/-- The body of the inner loop of `update_row`. -/
def updateRowAt (update : RowUpdate) (unchangedMt : MetaTable) (pageId : DataPageId)
    (loop : PageLoop) (i : ℕ) (row : DataRow) : Script PageLoop := do
  let mt := { loop.mt with lastRid := loop.mt.lastRid + 1 }
  one (.saveTable mt)
  one (.modifyDp pageId fun page => { page with rows := page.rows.modify i DataRow.markObsolete })
  let tokens ← ofExcept (assignTokens mt update row)
  let newRow := { row with id := mt.lastRid, tokens := tokens }
  let mt := { mt with totalRows := mt.totalRows + 1 }
  one (.saveTable mt)
  one (.appendLog (.update mt.id pageId row.markObsolete newRow))
  let lsn : ℕ ← one .getLastLsn
  let pageLsn := max loop.pageLsn lsn
  one (.appendLog (.updateTable unchangedMt mt))
  one (.modifyDp pageId fun page =>
    { page with rows := page.rows ++ [newRow], maxRid := max page.maxRid newRow.id })
  let touchedIndexes ← insertRowIntoIndexes mt newRow pageId
  touchedIndexes.forM fun indexId => one (.setIfLsn indexId pageLsn)
  pure { mt := mt, pageLsn := pageLsn, changed := true }

/-- The body of the inner loop of `delete_rows`. -/
def deleteRowAt (unchangedMt : MetaTable) (pageId : DataPageId) (loop : PageLoop) (i : ℕ)
    (row : DataRow) : Script PageLoop := do
  one (.modifyDp pageId fun page => { page with rows := page.rows.modify i DataRow.markObsolete })
  let mt := { loop.mt with liveRows := decLiveRows loop.mt.liveRows }
  one (.saveTable mt)
  one (.appendLog (.delete mt.id pageId row.markObsolete))
  let lsn : ℕ ← one .getLastLsn
  one (.appendLog (.updateTable unchangedMt mt))
  pure { mt := mt, pageLsn := max loop.pageLsn lsn, changed := true }

/-- The row at a position of a page, if it is one of those to be changed and
not obsolete. -/
def targetAt (ids : List ℕ) (pageId : DataPageId) (i : ℕ) : Script (Option DataRow) := do
  let page : DataPage ← one (.derefDp pageId)
  match page.rows[i]? with
  | none => fail .outOfRange
  | some row =>
    if row.id ∉ ids then pure none
    else if row.obsolete then pure none
    else pure (some row)

/-- The loops of `update_row` and `delete_rows` over the rows of one page. -/
def changePage (body : DataPageId → PageLoop → ℕ → DataRow → Script PageLoop) (ids : List ℕ)
    (mt : MetaTable) : Option DataPage → Script MetaTable
  | none => fail .nullDereference
  | some p => do
    let page : DataPage ← one (.derefDp p.id)
    let loop ← (List.range page.rows.length).foldlM
      (fun loop i => do
        match ← targetAt ids page.id i with
        | none => pure loop
        | some row => body page.id loop i row)
      { mt := mt, pageLsn := page.lastLsn, changed := false }
    if loop.changed then
      one (.modifyDp page.id fun page => { page with lastLsn := loop.pageLsn })
      one (.dirtyDp page.id)
    pure loop.mt

/-- `update_row`. -/
def updateRow (tableName schemaName : Bytes) (update : RowUpdate) (rows : List DataRow) :
    Script Unit := do
  let mt ← getTable tableName schemaName
  let pages ← getTableData mt.id
  let _ ← pages.foldlM (changePage (updateRowAt update mt) (rows.map DataRow.id)) mt

/-- `delete_rows`. -/
def deleteRows (tableName schemaName : Bytes) (rows : List DataRow) : Script Unit := do
  let mt ← getTable tableName schemaName
  let pages ← getTableData mt.id
  let _ ← pages.foldlM (changePage (deleteRowAt mt) (rows.map DataRow.id)) mt

end Script

/-! ## They are the operations of the model -/

namespace Script

open StdDbInstance (tailPage PageLoop)

variable {α β ι : Type}

@[simp] theorem plain_fail (e : Exn) : (fail e : Script α).plain = throw e := rfl

@[simp] theorem plain_ite (p : Prop) [Decidable p] (script script' : Script α) :
    (if p then script else script').plain = if p then script.plain else script'.plain := by
  split_ifs <;> rfl

theorem plain_foldlM {f : β → ι → Script β} {g : β → ι → Prog β}
    (h : ∀ b i, (f b i).plain = g b i) (l : List ι) (b : β) :
    (l.foldlM f b).plain = l.foldlM g b := by
  induction l generalizing b with
  | nil => rfl
  | cons i l ih =>
    rw [List.foldlM_cons, List.foldlM_cons, plain_bind, h]
    exact bind_congr ih

theorem plain_forM {f : ι → Script PUnit} {g : ι → Prog PUnit} (h : ∀ i, (f i).plain = g i)
    (l : List ι) : (l.forM f).plain = l.forM g := by
  induction l with
  | nil => rfl
  | cons i l ih =>
    show (f i >>= fun _ => l.forM f).plain = (g i >>= fun _ => l.forM g)
    rw [plain_bind, h]
    exact bind_congr fun _ => ih

section Calls

@[simp] theorem plain_catalog : @plain CatalogCache (one .catalog)
    = (get >>= fun db => pure db.catalog : Prog CatalogCache) := plain_one .catalog

@[simp] theorem plain_saveTable (mt : MetaTable) :
    @plain Unit (one (.saveTable mt)) = StdDbInstance.saveTable mt := plain_one (.saveTable mt)

@[simp] theorem plain_appendLog (body : WalBody) :
    @plain Unit (one (.appendLog body)) = Transaction.appendLog body :=
  plain_one (.appendLog body)

@[simp] theorem plain_getLastLsn :
    @plain ℕ (one .getLastLsn) = Transaction.getLastLsn := plain_one .getLastLsn

@[simp] theorem plain_tablePages (tableId : TableId) :
    @plain (Option (List DataPageId)) (one (.tablePages tableId))
      = (get >>= fun db => pure (db.pool.dataPagesPerTable tableId) :
        Prog (Option (List DataPageId))) := plain_one (.tablePages tableId)

@[simp] theorem plain_getDp (id : DataPageId) :
    @plain (Option DataPage) (one (.getDp id)) = BufferPool.getDp id := plain_one (.getDp id)

@[simp] theorem plain_createDp (mt : MetaTable) :
    @plain DataPage (one (.createDp mt)) = BufferPool.createDp mt := plain_one (.createDp mt)

@[simp] theorem plain_derefDp (id : DataPageId) :
    @plain DataPage (one (.derefDp id)) = StdDbInstance.derefDp id := plain_one (.derefDp id)

@[simp] theorem plain_modifyDp (id : DataPageId) (f : DataPage → DataPage) :
    @plain Unit (one (.modifyDp id f)) = BufferPool.modifyDp id f := plain_one (.modifyDp id f)

@[simp] theorem plain_dirtyDp (id : DataPageId) :
    @plain Unit (one (.dirtyDp id)) = BufferPool.dirtyDp id := plain_one (.dirtyDp id)

@[simp] theorem plain_getTableIndex (tableId : TableId) (indexId : IndexId) :
    @plain (Option IndexFile) (one (.getTableIndex tableId indexId))
      = BufferPool.getTableIndex tableId indexId := plain_one (.getTableIndex tableId indexId)

@[simp] theorem plain_assignIf (indexId : IndexId) (file : IndexFile) :
    @plain Unit (one (.assignIf indexId file)) = modify (BufferPool.putIf indexId file) :=
  plain_one (.assignIf indexId file)

@[simp] theorem plain_dirtyIf (indexId : IndexId) :
    @plain Unit (one (.dirtyIf indexId)) = BufferPool.dirtyIf indexId :=
  plain_one (.dirtyIf indexId)

@[simp] theorem plain_setIfLsn (indexId : IndexId) (lastLsn : ℕ) :
    @plain Unit (one (.setIfLsn indexId lastLsn)) = BufferPool.setIfLsn indexId lastLsn :=
  plain_one (.setIfLsn indexId lastLsn)

end Calls

section Operations

variable {tableName schemaName : Bytes}

theorem getTable_plain :
    (getTable tableName schemaName).plain = StdDbInstance.getTable tableName schemaName := by
  unfold getTable StdDbInstance.getTable StdDbInstance.getSchema
  rw [plain_bind, plain_catalog, bind_assoc, bind_assoc]
  refine bind_congr fun db => ?_
  rw [pure_bind]
  cases db.catalog.getSchema schemaName with
  | none => rfl
  | some schema =>
    dsimp only
    rw [pure_bind, plain_bind, plain_catalog, bind_assoc]
    refine bind_congr fun db => ?_
    rw [pure_bind]
    cases db.catalog.getTable tableName schema.id <;> rfl

theorem getDps_plain (ids : List DataPageId) : (getDps ids).plain = BufferPool.getDps ids := by
  induction ids with
  | nil => rfl
  | cons id ids ih =>
    unfold getDps BufferPool.getDps
    simp [ih]

theorem getTableData_plain (tableId : TableId) :
    (getTableData tableId).plain = BufferPool.getTableData tableId := by
  unfold getTableData BufferPool.getTableData
  rw [plain_bind, plain_tablePages, bind_assoc]
  refine bind_congr fun db => ?_
  rw [pure_bind]
  cases db.pool.dataPagesPerTable tableId with
  | none => rfl
  | some ids => exact getDps_plain ids

theorem prepareDpLoop_plain (size : ℕ) (mt : MetaTable) (ids : List DataPageId) :
    (prepareDpLoop size mt ids).plain = BufferPool.prepareDpLoop size mt ids := by
  induction ids with
  | nil => exact plain_createDp mt
  | cons id ids ih =>
    unfold prepareDpLoop BufferPool.prepareDpLoop
    rw [plain_bind, plain_getDp]
    refine bind_congr fun page => ?_
    cases page with
    | none => exact ih
    | some page =>
      show (if page.size + size ≤ DataPage.maxSize then _ else _ : Script DataPage).plain = _
      rw [plain_ite, ih, plain_pure]

theorem prepareDp_plain (size : ℕ) (mt : MetaTable) :
    (prepareDp size mt).plain = BufferPool.prepareDp size mt := by
  unfold prepareDp BufferPool.prepareDp
  rw [plain_bind, plain_tablePages, bind_assoc]
  refine bind_congr fun db => ?_
  rw [pure_bind]
  cases db.pool.dataPagesPerTable mt.id with
  | none => exact plain_createDp mt
  | some ids => exact prepareDpLoop_plain size mt ids

theorem isRowObsolete_plain (rowPtr : RowPtr) :
    (isRowObsolete rowPtr).plain = StdDbInstance.isRowObsolete rowPtr := by
  unfold isRowObsolete StdDbInstance.isRowObsolete
  rw [plain_bind, plain_getDp]
  refine bind_congr fun page => ?_
  cases page with
  | none => rfl
  | some page =>
    show (match page.rows.find? fun row => row.id = rowPtr.2 with
      | some row => pure row.obsolete
      | none => pure false : Script Bool).plain
        = match page.rows.find? fun row => row.id = rowPtr.2 with
          | some row => pure row.obsolete
          | none => pure false
    cases page.rows.find? fun row => row.id = rowPtr.2 <;> rfl

theorem fileOrThrow_plain (tableId : TableId) (indexId : IndexId) :
    (fileOrThrow tableId indexId).plain = StdDbInstance.fileOrThrow tableId indexId := by
  unfold fileOrThrow StdDbInstance.fileOrThrow
  rw [plain_bind, plain_getTableIndex]
  refine bind_congr fun file => ?_
  cases file <;> rfl

theorem treeFind_plain (tableId : TableId) (indexId : IndexId) (key : DataToken) :
    (treeFind tableId indexId key).plain = StdDbInstance.treeFind tableId indexId key := by
  unfold treeFind StdDbInstance.treeFind
  rw [plain_bind, fileOrThrow_plain]
  exact bind_congr fun file => plain_ofExcept _

theorem treeInsert_plain (tableId : TableId) (indexId : IndexId) (key : DataToken)
    (rowPtr : RowPtr) : (treeInsert tableId indexId key rowPtr).plain
      = StdDbInstance.treeInsert tableId indexId key rowPtr := by
  unfold treeInsert StdDbInstance.treeInsert
  rw [plain_bind, fileOrThrow_plain]
  refine bind_congr fun file => ?_
  rw [plain_bind, plain_ofExcept]
  refine bind_congr fun file => ?_
  rw [plain_bind, plain_assignIf, plain_dirtyIf]

theorem checkUnique_plain (mt : MetaTable) (mi : MetaIndex) (key : DataToken) :
    (checkUnique mt mi key).plain = StdDbInstance.checkUnique mt mi key := by
  unfold checkUnique StdDbInstance.checkUnique
  rw [plain_bind, treeFind_plain]
  refine bind_congr fun found => ?_
  cases found with
  | none => rfl
  | some existing =>
    show (isRowObsolete existing >>= _ : Script Unit).plain = _
    rw [plain_bind, isRowObsolete_plain]
    refine bind_congr fun obsolete => ?_
    cases obsolete <;> rfl

theorem insertIntoIndex_plain (mt : MetaTable) (row : DataRow) (pageId : DataPageId)
    (touched : List IndexId) (mi : MetaIndex) : (insertIntoIndex mt row pageId touched mi).plain
      = StdDbInstance.insertIntoIndex mt row pageId touched mi := by
  unfold insertIntoIndex StdDbInstance.insertIntoIndex
  rw [plain_bind, plain_ofExcept]
  refine bind_congr fun key => ?_
  rw [plain_ite]
  refine ite_congr rfl (fun _ => rfl) fun _ => ?_
  cases mi.isUnique with
  | false =>
    show (treeInsert mt.id mi.id key (pageId, row.id) >>= _ : Script (List IndexId)).plain = _
    rw [plain_bind, treeInsert_plain]
    rfl
  | true =>
    show (checkUnique mt mi key >>= _ : Script (List IndexId)).plain = _
    rw [plain_bind, checkUnique_plain]
    refine bind_congr fun _ => ?_
    rw [plain_bind, treeInsert_plain]
    rfl

theorem insertRowIntoIndexes_plain (mt : MetaTable) (row : DataRow) (pageId : DataPageId) :
    (insertRowIntoIndexes mt row pageId).plain
      = StdDbInstance.insertRowIntoIndexes mt row pageId :=
  plain_foldlM (insertIntoIndex_plain mt row pageId) mt.indexes []

theorem linkPage_plain (pagesBefore : List DataPage) (pageId : DataPageId) :
    (linkPage pagesBefore pageId).plain = StdDbInstance.linkPage pagesBefore pageId := by
  unfold linkPage StdDbInstance.linkPage
  rw [plain_ite]
  refine ite_congr rfl (fun _ => rfl) fun _ => ?_
  cases tailPage pagesBefore with
  | none => rfl
  | some tail =>
    show (one (.modifyDp tail.id _) >>= _ : Script Unit).plain = _
    rw [plain_bind, plain_modifyDp, plain_dirtyDp]

theorem stamp_plain (touched : List IndexId) (lsn : ℕ) :
    (touched.forM fun indexId => (one (.setIfLsn indexId lsn) : Script Unit)).plain
      = touched.forM fun indexId => BufferPool.setIfLsn indexId lsn :=
  plain_forM (fun indexId => plain_setIfLsn indexId lsn) touched

/-- **`insert_row`**, as a script, is `insert_row`. -/
theorem insertRow_plain (cols : Option (List Bytes)) (row : List DataToken) :
    (insertRow tableName schemaName cols row).plain
      = StdDbInstance.insertRow tableName schemaName cols row := by
  unfold insertRow StdDbInstance.insertRow
  rw [plain_bind, getTable_plain]
  refine bind_congr fun mt => ?_
  simp only [plain_bind, plain_saveTable, getTableData_plain, prepareDp_plain, linkPage_plain,
    insertRowIntoIndexes_plain, plain_modifyDp, plain_appendLog, plain_getLastLsn, stamp_plain,
    plain_dirtyDp]

theorem updateRowAt_plain (update : RowUpdate) (unchangedMt : MetaTable) (pageId : DataPageId)
    (loop : PageLoop) (i : ℕ) (row : DataRow) :
    (updateRowAt update unchangedMt pageId loop i row).plain
      = StdDbInstance.updateRowAt update unchangedMt pageId loop i row := by
  unfold updateRowAt StdDbInstance.updateRowAt
  simp only [plain_bind, plain_saveTable, plain_ofExcept, insertRowIntoIndexes_plain,
    plain_modifyDp, plain_appendLog, plain_getLastLsn, stamp_plain, plain_pure]

theorem deleteRowAt_plain (unchangedMt : MetaTable) (pageId : DataPageId) (loop : PageLoop) (i : ℕ)
    (row : DataRow) : (deleteRowAt unchangedMt pageId loop i row).plain
      = StdDbInstance.deleteRowAt unchangedMt pageId loop i row := by
  unfold deleteRowAt StdDbInstance.deleteRowAt
  simp only [plain_bind, plain_saveTable, plain_modifyDp, plain_appendLog, plain_getLastLsn,
    plain_pure]

theorem targetAt_plain (ids : List ℕ) (pageId : DataPageId) (i : ℕ) :
    (targetAt ids pageId i).plain = StdDbInstance.targetAt ids pageId i := by
  unfold targetAt StdDbInstance.targetAt
  rw [plain_bind, plain_derefDp]
  refine bind_congr fun page => ?_
  cases page.rows[i]? with
  | none => rfl
  | some row =>
    show (if row.id ∉ ids then pure none else _ : Script (Option DataRow)).plain
      = if row.id ∉ ids then pure none else _
    rw [plain_ite, plain_ite]
    rfl

theorem changePage_plain {body : DataPageId → PageLoop → ℕ → DataRow → Script PageLoop}
    {body' : DataPageId → PageLoop → ℕ → DataRow → Prog PageLoop}
    (hbody : ∀ pageId loop i row, (body pageId loop i row).plain = body' pageId loop i row)
    (ids : List ℕ) (mt : MetaTable) (pointer : Option DataPage) :
    (changePage body ids mt pointer).plain = StdDbInstance.changePage body' ids mt pointer := by
  cases pointer with
  | none => rfl
  | some p =>
    unfold changePage StdDbInstance.changePage
    rw [plain_bind, plain_derefDp]
    refine bind_congr fun page => ?_
    rw [plain_bind, plain_foldlM (g := fun (loop : PageLoop) i => do
      match ← StdDbInstance.targetAt ids page.id i with
      | none => pure loop
      | some row => body' page.id loop i row)]
    · refine bind_congr fun loop => ?_
      cases loop.changed with
      | false => rfl
      | true =>
        show (one (.modifyDp page.id _) >>= _ : Script MetaTable).plain = _
        rw [plain_bind, plain_modifyDp]
        refine bind_congr fun _ => ?_
        rw [plain_bind, plain_dirtyDp]
        rfl
    · intro loop i
      rw [plain_bind, targetAt_plain]
      refine bind_congr fun target => ?_
      cases target with
      | none => rfl
      | some row => exact hbody page.id loop i row

/-- **`update_row`**, as a script, is `update_row`. -/
theorem updateRow_plain (update : RowUpdate) (rows : List DataRow) :
    (updateRow tableName schemaName update rows).plain
      = StdDbInstance.updateRow tableName schemaName update rows := by
  unfold updateRow StdDbInstance.updateRow
  simp only [plain_bind, getTable_plain, getTableData_plain, plain_pure,
    plain_foldlM (changePage_plain (updateRowAt_plain update _) _)]

/-- **`delete_rows`**, as a script, is `delete_rows`. -/
theorem deleteRows_plain (rows : List DataRow) :
    (deleteRows tableName schemaName rows).plain
      = StdDbInstance.deleteRows tableName schemaName rows := by
  unfold deleteRows StdDbInstance.deleteRows
  simp only [plain_bind, getTable_plain, getTableData_plain, plain_pure,
    plain_foldlM (changePage_plain (deleteRowAt_plain _) _)]

end Operations

end Script

/-- A call of one of the operations on rows, as a script. -/
def RowCall.script (c : RowCall) : Script Unit :=
  match c.op with
  | .insert cols row => .insertRow c.tableName c.schemaName cols row
  | .update update rows => .updateRow c.tableName c.schemaName update rows
  | .delete rows => .deleteRows c.tableName c.schemaName rows

/-- **The operations on rows are scripts.** -/
theorem RowCall.script_plain (c : RowCall) : c.script.plain = c.run := by
  unfold script run
  cases c.op with
  | insert cols row => exact Script.insertRow_plain cols row
  | update update rows => exact Script.updateRow_plain update rows
  | delete rows => exact Script.deleteRows_plain rows
