import Deltabase.Lib.Upsert
import Deltabase.Storage.StdStorageSerializer
import Deltabase.Types.IndexFile
import Mathlib.Logic.Function.Basic

/-!
# The files of a database

`storage::FileIOManager` and the directory it works on. A schema is a
directory with a meta file, a table a directory below it with a meta file and
two directories, one with a file for each data page and one with a file for
each index. A file is always written whole, and what is written is taken to
be read back: a file is the value that was last serialized into it.

Two things a value does not survive unchanged. A page read from a file gets
its `size` from the length of the file and its row count from the rows that
were written. An index file is written without the last page id it has handed
out, so a file read back has handed out none.

Files are found the way the source finds them: a meta file by the path it is
stored under when it is written and by the id inside it when it is read, a page
or an index file by its name, in whatever table directory holds it. A file is
named after the page or index that is written into it, so the checks that the
source makes when it reads one, that it holds what it is named after, are left
out.

`create_index_file` makes all directories above the file. If the schema has not
been written yet its directory is then there without its meta file, and as long
as there is such a directory no schema can be read by its id: the loop of
`read_schema_meta` opens the meta file of every schema directory it comes to.
A page is made and read with the path of a directory that is there, so writing
one makes no directory of a schema.
-/

namespace DataPage

/-- What `FileIOManager::read_data_page` makes of a page that was written. -/
def reread (page : DataPage) : DataPage :=
  { page with
    size := (StdStorageSerializer.serializeDp page).size
    rowsCount := page.rows.length }

@[simp] theorem reread_id (page : DataPage) : page.reread.id = page.id := rfl

@[simp] theorem reread_next (page : DataPage) : page.reread.next = page.next := rfl

@[simp] theorem reread_tableId (page : DataPage) : page.reread.tableId = page.tableId := rfl

@[simp] theorem reread_path (page : DataPage) : page.reread.path = page.path := rfl

@[simp] theorem reread_lastLsn (page : DataPage) : page.reread.lastLsn = page.lastLsn := rfl

@[simp] theorem reread_rows (page : DataPage) : page.reread.rows = page.rows := rfl

end DataPage

/-- What `FileIOManager::read_index_file` makes of a file that was written. -/
def IndexFile.reread (file : IndexFile) : IndexFile := { file with lastPage := 0 }

/-- The meta file of a table: the name of the schema directory it is in and
its content. The table's directory and the file are named after the table. -/
structure TableFile where
  schemaName : Bytes
  table : MetaTable
  deriving DecidableEq

/-- The path of a table's directory: the names of the schema and the table. -/
def TableFile.path (file : TableFile) : Bytes × Bytes := (file.schemaName, file.table.name)

/-- **The directory of a database.** -/
structure Disk where
  /-- The meta files of the schemas, in the order the directory lists them. -/
  schemas : List MetaSchema := []
  /-- The names of the schema directories that have no meta file. -/
  headless : List Bytes := []
  /-- The meta files of the tables, in the order the directories list them. -/
  tables : List TableFile := []
  /-- The page files, by name. -/
  pages : DataPageId → Option DataPage := fun _ => none
  /-- The index files, by name, with the table directory they are in. -/
  indexFiles : IndexId → Option ((Bytes × Bytes) × IndexFile) := fun _ => none

/-- The names of the schema directories. -/
def Disk.dirNames (disk : Disk) : List Bytes := disk.schemas.map MetaSchema.name ++ disk.headless

namespace FileIOManager

variable (disk : Disk)

/-! ## Schemas -/

/-- `read_schema_meta(schema_id)`. The loop goes through all schema directories,
so one without its meta file is always come to, and otherwise the last schema
with the id is returned; the null id is also that of the empty schema the loop
starts from. -/
def readSchemaMeta (schemaId : UUID) : Except Exn MetaSchema :=
  if disk.headless ≠ [] then .error (.runtimeError "Cannot open file: ")
  else match disk.schemas.reverse.find? (fun s => s.id = schemaId) with
  | some schema => .ok schema
  | none =>
    if schemaId = UUID.null then .ok { id := UUID.null, name := [], dbName := [] }
    else .error (.runtimeError "FileIOManager::load_schema_meta: Failed to find schema with id")

/-- `write_ms`. -/
def writeMs (ms : MetaSchema) : Disk :=
  { disk with
    schemas := upsert MetaSchema.name ms disk.schemas
    headless := disk.headless.filter fun name => name ≠ ms.name }

/-- `delete_ms`, which removes the schema's directory with all that is in it. -/
def deleteMs (schema : MetaSchema) : Disk :=
  { schemas := disk.schemas.filter fun s => s.name ≠ schema.name
    headless := disk.headless.filter fun name => name ≠ schema.name
    tables := disk.tables.filter fun f => f.schemaName ≠ schema.name
    pages := fun id => (disk.pages id).filter fun p => p.path.1 ≠ schema.name
    indexFiles := fun id => (disk.indexFiles id).filter fun f => f.1.1 ≠ schema.name }

/-- `read_schemas_meta`. -/
def readSchemasMeta : List MetaSchema := disk.schemas

/-! ## Tables -/

/-- `read_table_meta(table_id)`. -/
def readTableMeta (tableId : TableId) : Except Exn MetaTable :=
  match disk.tables.find? (fun f => f.table.id = tableId) with
  | some file => .ok file.table
  | none => .error (.runtimeError "FileIOManager::read_table_meta: table with id not found")

/-- `read_tables_meta`. -/
def readTablesMeta : List MetaTable := disk.tables.map TableFile.table

/-- `write_mt`. -/
def writeMt (table : MetaTable) : Except Exn Disk := do
  let schema ← readSchemaMeta disk table.schemaId
  pure { disk with tables := upsert TableFile.path ⟨schema.name, table⟩ disk.tables }

/-- `delete_mt`, which removes the table's directory with all that is in it. -/
def deleteMt (table : MetaTable) : Except Exn Disk := do
  let schema ← readSchemaMeta disk table.schemaId
  let path := (schema.name, table.name)
  pure
    { schemas := disk.schemas
      headless := disk.headless
      tables := disk.tables.filter fun f => f.path ≠ path
      pages := fun id => (disk.pages id).filter fun p => p.path ≠ path
      indexFiles := fun id => (disk.indexFiles id).filter fun f => f.1 ≠ path }

/-! ## Pages and index files -/

/-- `read_data_page`. -/
def readDataPage (id : DataPageId) : Option DataPage := (disk.pages id).map DataPage.reread

/-- `write_page`. -/
def writePage (page : DataPage) : Disk :=
  { disk with pages := Function.update disk.pages page.id (some page) }

/-- `create_page`, which makes a page in memory; the table's schema is read
for the page's path. -/
def createPage (mt : MetaTable) (pageId : DataPageId) : Except Exn DataPage := do
  let ms ← readSchemaMeta disk mt.schemaId
  pure (DataPage.make (ms.name, mt.name) mt.id pageId)

/-- `read_index_file`. -/
def readIndexFile (indexId : IndexId) : Option IndexFile :=
  (disk.indexFiles indexId).map fun f => f.2.reread

/-- `create_directories` below a schema: the schema directories without a meta
file after it. -/
def createSchemaDirectory (schemaName : Bytes) : List Bytes :=
  if disk.dirNames.contains schemaName then disk.headless else disk.headless ++ [schemaName]

/-- `create_index_file`. -/
def createIndexFile (schemaName tableName : Bytes) (mi : MetaIndex) : IndexFile × Disk :=
  let file := IndexFile.create mi.id
  (file, { disk with
    headless := createSchemaDirectory disk schemaName
    indexFiles := Function.update disk.indexFiles mi.id (some ((schemaName, tableName), file)) })

/-- `write_index_file`, which writes only over a file that is there. -/
def writeIndexFile (file : IndexFile) : Except Exn Disk :=
  match disk.indexFiles file.indexId with
  | some (path, _) => .ok { disk with
      indexFiles := Function.update disk.indexFiles file.indexId (some (path, file)) }
  | none => .error (.runtimeError "FileIOManager::write_index_file: index file with id not found")

/-! ## What the operations leave alone -/

@[simp] theorem writeMs_pages (ms : MetaSchema) : (writeMs disk ms).pages = disk.pages := rfl

@[simp] theorem writeMs_tables (ms : MetaSchema) : (writeMs disk ms).tables = disk.tables := rfl

@[simp] theorem writePage_schemas (page : DataPage) :
    (writePage disk page).schemas = disk.schemas := rfl

@[simp] theorem writePage_tables (page : DataPage) :
    (writePage disk page).tables = disk.tables := rfl

variable {disk}

/-- **What writing a table's meta file does**: the schema is found, and the
file goes below its directory. -/
theorem writeMt_eq_ok {table : MetaTable} {disk' : Disk} (h : writeMt disk table = .ok disk') :
    ∃ schema, readSchemaMeta disk table.schemaId = .ok schema
      ∧ disk' = { disk with tables := upsert TableFile.path ⟨schema.name, table⟩ disk.tables } := by
  unfold writeMt at h
  cases hschema : readSchemaMeta disk table.schemaId with
  | error e => rw [hschema] at h; cases h
  | ok schema =>
    rw [hschema] at h
    exact ⟨schema, rfl, (Except.ok.inj h).symm⟩

/-- A schema is only read where every schema directory has its meta file, and
then the directories alone matter. -/
theorem readSchemaMeta_eq_ok {id : UUID} {schema : MetaSchema}
    (h : readSchemaMeta disk id = .ok schema) :
    disk.headless = [] ∧ readSchemaMeta { schemas := disk.schemas } id = .ok schema := by
  by_cases hheadless : disk.headless = []
  · unfold readSchemaMeta at h
    rw [if_neg (not_not.mpr hheadless)] at h
    exact ⟨hheadless, h⟩
  · unfold readSchemaMeta at h
    rw [if_pos hheadless] at h
    cases h

/-- A schema that is on disk under an id no other schema has is found by it. -/
theorem readSchemaMeta_of_mem {schema : MetaSchema} (hheadless : disk.headless = [])
    (hmem : schema ∈ disk.schemas)
    (huniq : ∀ s ∈ disk.schemas, s.id = schema.id → s = schema) :
    readSchemaMeta disk schema.id = .ok schema := by
  unfold readSchemaMeta
  rw [if_neg (not_not.mpr hheadless)]
  cases hfind : disk.schemas.reverse.find? (fun s => s.id = schema.id) with
  | none =>
    have hnone := List.find?_eq_none.mp hfind schema (List.mem_reverse.mpr hmem)
    exact absurd (decide_eq_true rfl) hnone
  | some s =>
    have hs := List.mem_reverse.mp (List.mem_of_find?_eq_some hfind)
    have hid := List.find?_some hfind
    rw [huniq s hs (of_decide_eq_true hid)]

end FileIOManager
