import Deltabase.Lib.Program
import Deltabase.Storage.FileIOManager
import Deltabase.Storage.IndexBPlusTree
import Deltabase.Wal.AppendOnlyLog

/-!
# The state of an instance and its buffer pool

`StdDbInstance` is what a running instance holds: the files, the log, the
buffer pool, the catalog and the transaction of the statement at hand. What the
source does with them by reference is here a program over this state; an
exception leaves the state as it is at the `throw`.

The buffer pool keeps every page it has read or made. A page pointer is the
page's id: reading through it reads the pool, writing through it writes there.
It evicts none, which is what the pool of the source does as long as neither of
its caches is asked for more entries than it has room for (`HasRoom`), and then
pointers stay valid. The files of the pages are read when they are first asked
for (`getDp`).

The log is the append-only list that the log manager refines.

`UUID::make` makes time-based ids, which are numbers here. Which ones the library makes
is a parameter of the instance (`UUIDGenerator`): each is greater than those made before
it. The clock is the next id.
-/

/-- `misc::Cache::CacheEntry`. -/
structure CacheEntry (α : Type) where
  value : α
  dirty : Bool := false

/-- `misc::Cache::put`: an entry that is there keeps its mark. -/
def CacheEntry.put {α : Type} (value : α) : Option (CacheEntry α) → CacheEntry α
  | some entry => { entry with value := value }
  | none => { value := value }

/-- Whether `flush_dirty(max_lsn)` has to write an entry. -/
def CacheEntry.due {α : Type} (lsn : α → ℕ) (maxLsn : ℕ) (entry : CacheEntry α) : Bool :=
  entry.dirty && decide (lsn entry.value ≤ maxLsn)

/-- `storage::BufferPool`. -/
structure BufferPool where
  dataPages : DataPageId → Option (CacheEntry DataPage) := fun _ => none
  indexFiles : IndexId → Option (CacheEntry IndexFile) := fun _ => none
  dataPagesPerTable : TableId → Option (List DataPageId) := fun _ => none
  indexFilesPerTable : TableId → Option (List IndexId) := fun _ => none

/-- `storage::CatalogCache`: its two maps, in the order in which they are gone
through. The key of an entry is its id. -/
structure CatalogCache where
  tables : List MetaTable := []
  schemas : List MetaSchema := []
  tables_nodup : (tables.map MetaTable.id).Nodup := by simp
  schemas_nodup : (schemas.map MetaSchema.id).Nodup := by simp

/-- `txn::TransactionState`. -/
inductive TransactionState where
  | idle
  | active
  | committed
  | aborted
  deriving DecidableEq

/-- `txn::Transaction`. -/
structure Transaction where
  id : TxnId := UUID.null
  state : TransactionState := .idle
  lastLsn : ℕ := 0
  deriving DecidableEq

/-- **The ids that `uuid_generate_time_v6` makes**, each after another: they are in the
order in which they are made. -/
structure UUIDGenerator where
  next : UUID → UUID := Nat.succ
  lt_next : ∀ id, id < next id := by exact Nat.lt_succ_self

theorem UUIDGenerator.le_next (generator : UUIDGenerator) (id : UUID) : id ≤ generator.next id :=
  (generator.lt_next id).le

/-- `storage::StdDbInstance`, with the transaction passed to its operations. -/
structure StdDbInstance where
  io : Disk := {}
  wal : AppendOnlyLog := {}
  pool : BufferPool := {}
  catalog : CatalogCache :=
    { tables := [], schemas := [],
      tables_nodup := List.nodup_nil, schemas_nodup := List.nodup_nil }
  txn : Transaction := {}
  /-- The next id that `UUID::make` makes. -/
  clock : ℕ := 1
  generator : UUIDGenerator := {}

/-- A program of an instance. -/
abbrev Prog (α : Type) := EStateM Exn StdDbInstance α

/-- `UUID::make`. -/
def UUID.make : Prog UUID := fun db => .ok db.clock { db with clock := db.generator.next db.clock }

namespace BufferPool

open FileIOManager

/-! ## Data pages -/

/-- Puts a page under an id. -/
def putDp (id : DataPageId) (page : DataPage) (db : StdDbInstance) : StdDbInstance :=
  { db with pool := { db.pool with
    dataPages := Function.update db.pool.dataPages id
      (some (.put page (db.pool.dataPages id))) } }

/-- `get_dp`. -/
def getDp (id : DataPageId) : Prog (Option DataPage) := fun db =>
  match db.pool.dataPages id with
  | some entry => .ok (some entry.value) db
  | none =>
    match readDataPage db.io id with
    | none => .ok none db
    | some page => .ok (some page) (putDp id page db)

/-- Changes the entry of a page, if the page is in the pool. -/
def changeDp (id : DataPageId) (f : CacheEntry DataPage → CacheEntry DataPage)
    (db : StdDbInstance) : StdDbInstance :=
  { db with pool := { db.pool with
    dataPages := Function.update db.pool.dataPages id ((db.pool.dataPages id).map f) } }

/-- Changes a page in the pool. -/
def assignDp (id : DataPageId) (f : DataPage → DataPage) : StdDbInstance → StdDbInstance :=
  changeDp id fun entry => { entry with value := f entry.value }

/-- Marks a page in the pool. -/
def markDp (id : DataPageId) : StdDbInstance → StdDbInstance :=
  changeDp id fun entry => { entry with dirty := true }

/-- An assignment through a page pointer. -/
def modifyDp (id : DataPageId) (f : DataPage → DataPage) : Prog Unit := modify (assignDp id f)

/-- `dirty_dp`. -/
def dirtyDp (id : DataPageId) : Prog Unit := modify (markDp id)

/-- Adds an id to the list of a table, which is made when there is none. -/
def listId {κ : Type} [DecidableEq κ] (ids : κ → Option (List UUID)) (key : κ) (id : UUID) :
    κ → Option (List UUID) :=
  Function.update ids key (some ((ids key).getD [] ++ [id]))

/-- `create_dp`. -/
def createDp (mt : MetaTable) : Prog DataPage := do
  let id ← UUID.make
  let db ← get
  let page ← liftExcept (createPage db.io mt id)
  modify (putDp id page)
  modify fun db => { db with pool := { db.pool with
    dataPagesPerTable := listId db.pool.dataPagesPerTable mt.id id } }
  pure page

/-- The loop of `prepare_dp`. The size of a page is what it was when the page
was read or made: nothing adds to it. -/
def prepareDpLoop (size : ℕ) (mt : MetaTable) : List DataPageId → Prog DataPage
  | [] => createDp mt
  | id :: ids => do
    match ← getDp id with
    | none => prepareDpLoop size mt ids
    | some page =>
      if page.size + size ≤ DataPage.maxSize then pure page else prepareDpLoop size mt ids

/-- `prepare_dp`. -/
def prepareDp (size : ℕ) (mt : MetaTable) : Prog DataPage := do
  let db ← get
  match db.pool.dataPagesPerTable mt.id with
  | none => createDp mt
  | some ids => prepareDpLoop size mt ids

/-- The loop of `get_table_data`; `none` is the null pointer of a page without
a file. -/
def getDps : List DataPageId → Prog (List (Option DataPage))
  | [] => pure []
  | id :: ids => do
    let page ← getDp id
    let pages ← getDps ids
    pure (page :: pages)

/-- `get_table_data`. -/
def getTableData (tableId : TableId) : Prog (List (Option DataPage)) := do
  let db ← get
  match db.pool.dataPagesPerTable tableId with
  | none => pure []
  | some ids => getDps ids

/-! ## Index files -/

/-- Puts an index file under an id. -/
def putIf (id : IndexId) (file : IndexFile) (db : StdDbInstance) : StdDbInstance :=
  { db with pool := { db.pool with
    indexFiles := Function.update db.pool.indexFiles id
      (some (.put file (db.pool.indexFiles id))) } }

/-- `get_table_index`. -/
def getTableIndex (tableId : TableId) (indexId : IndexId) : Prog (Option IndexFile) := fun db =>
  match db.pool.indexFilesPerTable tableId with
  | none => .ok none db
  | some ids =>
    if indexId ∉ ids then .ok none db
    else match db.pool.indexFiles indexId with
      | some entry => .ok (some entry.value) db
      | none =>
        match readIndexFile db.io indexId with
        | none => .ok none db
        | some file => .ok (some file) (putIf indexId file db)

/-- Changes the entry of an index file, if the file is in the pool. -/
def changeIf (id : IndexId) (f : CacheEntry IndexFile → CacheEntry IndexFile)
    (db : StdDbInstance) : StdDbInstance :=
  { db with pool := { db.pool with
    indexFiles := Function.update db.pool.indexFiles id ((db.pool.indexFiles id).map f) } }

/-- `dirty_if`. -/
def dirtyIf (indexId : IndexId) : Prog Unit :=
  modify (changeIf indexId fun entry => { entry with dirty := true })

/-- `set_if_lsn`. -/
def setIfLsn (indexId : IndexId) (lastLsn : ℕ) : Prog Unit :=
  modify (changeIf indexId fun entry =>
    { entry with value := { entry.value with lastLsn := max entry.value.lastLsn lastLsn } })

/-- `create_table_index`. -/
def createTableIndex (schemaName : Bytes) (table : MetaTable) (index : MetaIndex)
    (lastLsn : ℕ) : Prog Unit := do
  modify fun db =>
    let (file, io) := createIndexFile db.io schemaName table.name index
    putIf index.id { file with lastLsn := lastLsn } { db with io := io }
  dirtyIf index.id
  modify fun db => { db with pool := { db.pool with
    indexFilesPerTable := listId db.pool.indexFilesPerTable table.id index.id } }

/-! ## Flushing -/

/-- The part of `flush_dirty(max_lsn)` that writes the pages and index files
for which `pages` and `files` hold. An index file is on disk before it is in
the pool and is not removed while the instance runs, so there is always a file
to write over. -/
def flushSome (maxLsn : ℕ) (pages : DataPageId → Bool) (files : IndexId → Bool)
    (db : StdDbInstance) : StdDbInstance :=
  let dueDp (id : DataPageId) (entry : CacheEntry DataPage) : Bool :=
    pages id && entry.due DataPage.lastLsn maxLsn
  let dueIf (id : IndexId) (entry : CacheEntry IndexFile) : Bool :=
    files id && entry.due IndexFile.lastLsn maxLsn
  { db with
    io := { db.io with
      pages := fun id => match db.pool.dataPages id with
        | some entry => if dueDp id entry then some entry.value else db.io.pages id
        | none => db.io.pages id
      indexFiles := fun id => match db.pool.indexFiles id with
        | some entry =>
          if dueIf id entry then (db.io.indexFiles id).map fun f => (f.1, entry.value)
          else db.io.indexFiles id
        | none => db.io.indexFiles id }
    pool := { db.pool with
      dataPages := fun id => (db.pool.dataPages id).map fun entry =>
        if dueDp id entry then { entry with dirty := false } else entry
      indexFiles := fun id => (db.pool.indexFiles id).map fun entry =>
        if dueIf id entry then { entry with dirty := false } else entry } }

/-- `flush_dirty(max_lsn)`. -/
def flushDirty (maxLsn : ℕ) (db : StdDbInstance) : StdDbInstance :=
  flushSome maxLsn (fun _ => true) (fun _ => true) db

/-! ## Room -/

/-- `misc::Cache::max_size_`: a cache with as many entries evicts one for each
that is added. -/
def maxSize : ℕ := 100

/-- How many of the ids that have been handed out have an entry. -/
def entries {α : Type} (clock : ℕ) (cache : UUID → Option (CacheEntry α)) : ℕ :=
  ((List.range clock).filter fun id => (cache id).isSome).length

/-- **The pool has had room** for all pages and index files that it was asked
for: neither cache has evicted an entry. -/
def HasRoom (db : StdDbInstance) : Prop :=
  entries db.clock db.pool.dataPages ≤ maxSize ∧ entries db.clock db.pool.indexFiles ≤ maxSize

instance : DecidablePred HasRoom := fun db => by unfold HasRoom; infer_instance

end BufferPool

/-! ## The catalog -/

namespace CatalogCache

/-- `get_schema(name)`. -/
def getSchema (catalog : CatalogCache) (name : Bytes) : Option MetaSchema :=
  catalog.schemas.find? fun schema => schema.name = name

/-- `get_table(name, schema_id)`. -/
def getTable (catalog : CatalogCache) (name : Bytes) (schemaId : UUID) : Option MetaTable :=
  catalog.tables.find? fun table => table.name = name ∧ table.schemaId = schemaId

/-- `save_table`, and every assignment through a pointer to a table. -/
def saveTable (mt : MetaTable) (catalog : CatalogCache) : CatalogCache :=
  { catalog with
    tables := upsert MetaTable.id mt catalog.tables
    tables_nodup := nodup_upsert catalog.tables_nodup }

/-- `save_schema`. -/
def saveSchema (ms : MetaSchema) (catalog : CatalogCache) : CatalogCache :=
  { catalog with
    schemas := upsert MetaSchema.id ms catalog.schemas
    schemas_nodup := nodup_upsert catalog.schemas_nodup }

/-- `unordered_map::emplace`, which keeps an entry that is there. -/
def emplace {α : Type} (key : α → UUID) (entries : List α) (x : α) : List α :=
  if key x ∈ entries.map key then entries else entries ++ [x]

/-- Emplacing keeps the keys distinct. -/
theorem nodup_foldl_emplace {α : Type} (key : α → UUID) (xs entries : List α)
    (h : (entries.map key).Nodup) : ((xs.foldl (emplace key) entries).map key).Nodup := by
  induction xs generalizing entries with
  | nil => exact h
  | cons x xs ih =>
    refine ih _ ?_
    unfold emplace
    split_ifs with hx
    · exact h
    · rw [List.map_append]
      refine List.nodup_append.mpr ⟨h, List.nodup_singleton _, fun a ha b hb hab => hx ?_⟩
      rwa [← List.mem_singleton.mp hb, ← hab]

/-- `hydrate`. -/
def hydrate (io : Disk) : CatalogCache where
  tables := (FileIOManager.readTablesMeta io).foldl (emplace MetaTable.id) []
  schemas := (FileIOManager.readSchemasMeta io).foldl (emplace MetaSchema.id) []
  tables_nodup := nodup_foldl_emplace _ _ _ List.nodup_nil
  schemas_nodup := nodup_foldl_emplace _ _ _ List.nodup_nil

/-- The second loop of `flush`, which ends at the first table that cannot be
written. -/
def flushTables (io : Disk) : List MetaTable → Disk
  | [] => io
  | table :: tables =>
    match FileIOManager.writeMt io table with
    | .ok io => flushTables io tables
    | .error _ => io

/-- `flush`, as the destructor calls it: it keeps an exception to itself. -/
def flush (catalog : CatalogCache) (io : Disk) : Disk :=
  flushTables (catalog.schemas.foldl FileIOManager.writeMs io) catalog.tables

end CatalogCache
