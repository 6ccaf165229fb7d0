import Deltabase.Lib.FileTree
import Deltabase.Storage.IndexFileSerializer
import Deltabase.Types.UUIDText

/-!
# The directory of a database

`storage::FileIOManager` on a tree of directories and files, with the paths of
`path.hpp` and the bytes of the storage serializer. A name is one component of a
path.

The loops go through what the file system lists, and leave out what the source
leaves out: what is not a directory, the directory of the log, a file that is not
named as it should be. What is thrown by the file system itself is taken as the
`std::runtime_error` of the call that failed.
-/

namespace DatabaseDirectory

open StdStorageSerializer

/-! ## Paths -/

/-- `PATH_DATA`, which is `data`. -/
def pathData : Bytes := [100, 97, 116, 97]

/-- `PATH_WAL`, which is `wal`. -/
def pathWal : Bytes := [119, 97, 108]

/-- `PATH_META`, which is `meta`. -/
def pathMeta : Bytes := [109, 101, 116, 97]

/-- `PATH_INDEX`, which is `index`. -/
def pathIndex : Bytes := [105, 110, 100, 101, 120]

/-- `make_meta_filename`, with a dot between the name and `meta`. -/
def makeMetaFilename (name : Bytes) : Bytes := name ++ 46 :: pathMeta

variable (dbName : Bytes) (fs : FileTree Bytes Bytes)

/-! ## Files -/

/-- `read_file`. -/
def readFile (path : List Bytes) : Except Exn Bytes :=
  match fs.content? path with
  | some content => .ok content
  | none => .error (.runtimeError "Cannot open file: ")

/-- `write_file` and `fsync_file`, of a file in a directory. -/
def writeFile (dir : List Bytes) (name content : Bytes) :
    Except Exn (FileTree Bytes Bytes) :=
  match fs.write dir name content with
  | some fs' => .ok fs'
  | none => .error (.runtimeError "Cannot open file for writing: ")

/-- A file that has to be of a type. -/
def deserialize {α : Type} (what : String) (decoder : Decoder α) (content : Bytes) :
    Except Exn α :=
  match decoder content with
  | some (a, _) => .ok a
  | none => .error (.runtimeError what)

/-- A loop that looks for something, and does nothing more once it has it. -/
def search {α β : Type} (f : α → Except Exn (Option β)) : List α → Except Exn (Option β)
  | [] => .ok none
  | a :: l => do
    match ← f a with
    | some b => pure (some b)
    | none => search f l

/-! ## Directories -/

/-- `init`. -/
def init : Except Exn (FileTree Bytes Bytes) :=
  match fs.createDirectories [dbName] with
  | some fs' => .ok fs'
  | none => .error (.runtimeError "create_directories")

/-- The directories that `for_each_schema` goes through. -/
def schemaDirs : List Bytes :=
  (fs.names [dbName]).filter fun s => fs.isDirectory [dbName, s] && s != pathWal

/-- The directories that `for_each_table` goes through, in each schema's. -/
def tableDirs : List (Bytes × Bytes) :=
  (schemaDirs dbName fs).flatMap fun s =>
    ((fs.names [dbName, s]).filter fun t => fs.isDirectory [dbName, s, t]).map fun t => (s, t)

/-! ## Schemas -/

/-- `read_schemas_meta`. -/
def readSchemasMeta : Except Exn (List MetaSchema) := do
  let schemas ← (schemaDirs dbName fs).mapM fun s =>
    ((fs.names [dbName, s]).filter fun name =>
        !fs.isDirectory [dbName, s, name] && makeMetaFilename s == name).mapM fun name => do
      let content ← readFile fs [dbName, s, name]
      deserialize "FileIOManager::load_schemas: Error deserializing meta file: " deserializeMs
        content
  pure schemas.flatten

/-- `read_schema_meta(schema_id)`. -/
def readSchemaMeta (schemaId : UUID) : Except Exn MetaSchema := do
  let schema ← (schemaDirs dbName fs).foldlM
    (fun schema s => do
      let content ← readFile fs [dbName, s, makeMetaFilename s]
      let deserialized ← deserialize
        "FileIOManager::load_schema_meta: Error deserializing meta file: " deserializeMs content
      pure (if deserialized.id = schemaId then deserialized else schema))
    { id := UUID.null, name := [], dbName := [] }
  if schema.id ≠ schemaId then
    throw (.runtimeError "FileIOManager::load_schema_meta: Failed to find schema with id")
  pure schema

/-- `write_ms`. -/
def writeMs (ms : MetaSchema) : Except Exn (FileTree Bytes Bytes) :=
  writeFile fs [dbName, ms.name] (makeMetaFilename ms.name) (serializeMs ms).buffer

/-- `delete_ms`. -/
def deleteMs (schema : MetaSchema) : FileTree Bytes Bytes := fs.remove [dbName, schema.name]

/-! ## Tables -/

/-- `read_tables_meta`. -/
def readTablesMeta : Except Exn (List MetaTable) := do
  let tables ← (tableDirs dbName fs).mapM fun dir =>
    ((fs.names [dbName, dir.1, dir.2]).filter fun name =>
        !fs.isDirectory [dbName, dir.1, dir.2, name] && makeMetaFilename dir.2 == name).mapM
      fun name => do
        let content ← readFile fs [dbName, dir.1, dir.2, name]
        deserialize "FileIOManager::load_tables: Error deserializing meta file: " deserializeMt
          content
  pure tables.flatten

/-- `read_table_meta(table_id)`. -/
def readTableMeta (tableId : TableId) : Except Exn MetaTable := do
  let result ← search
    (fun dir =>
      match fs.content? [dbName, dir.1, dir.2, makeMetaFilename dir.2] with
      | none => pure none
      | some content => do
        let table ← deserialize "FileIOManager::read_table_meta: failed to deserialize meta table "
          deserializeMt content
        pure (if table.id = tableId then some table else none))
    (tableDirs dbName fs)
  match result with
  | some table => pure table
  | none => throw (.runtimeError "FileIOManager::read_table_meta: table with id not found")

/-- `write_mt`. -/
def writeMt (table : MetaTable) : Except Exn (FileTree Bytes Bytes) := do
  let schema ← readSchemaMeta dbName fs table.schemaId
  writeFile fs [dbName, schema.name, table.name] (makeMetaFilename table.name)
    (serializeMt table).buffer

/-- `delete_mt`. -/
def deleteMt (table : MetaTable) : Except Exn (FileTree Bytes Bytes) := do
  let schema ← readSchemaMeta dbName fs table.schemaId
  pure (fs.remove [dbName, schema.name, table.name])

/-! ## Pages -/

/-- What `read_data_page` makes of a page file that it has found. -/
def readPageFile (id : DataPageId) (dir : Bytes × Bytes) (content : Bytes) :
    Except Exn DataPage := do
  let page ← deserialize "FileIOManager::load_data_page: failed to deserialize data page "
    (deserializeDp
      { id := UUID.null, tableId := UUID.null, size := content.length, path := dir })
    content
  if page.id ≠ id then
    throw (.runtimeError "FileIOManager::load_data_page: page id mismatch for ")
  pure page

/-- The round of `read_data_page` for one table. -/
def readPageIn (id : DataPageId) (dir : Bytes × Bytes) : Except Exn (Option DataPage) :=
  search
    (fun name =>
      match fs.content? [dbName, dir.1, dir.2, pathData, name] with
      | none => pure none
      | some content =>
        if name ≠ UUID.toString id then pure none
        else (readPageFile id dir content).map some)
    (if fs.isDirectory [dbName, dir.1, dir.2, pathData] then
      fs.names [dbName, dir.1, dir.2, pathData] else [])

/-- `read_data_page`. -/
def readDataPage (id : DataPageId) : Except Exn (Option DataPage) :=
  search (readPageIn dbName fs id) (tableDirs dbName fs)

/-- `write_page`. The page's path is that of a file named after it. -/
def writePage (page : DataPage) : Except Exn (FileTree Bytes Bytes) :=
  writeFile fs [dbName, page.path.1, page.path.2, pathData] (UUID.toString page.id)
    (serializeDp page).buffer

/-- `create_page`. -/
def createPage (mt : MetaTable) (pageId : DataPageId) : Except Exn DataPage := do
  let ms ← readSchemaMeta dbName fs mt.schemaId
  pure (DataPage.make (ms.name, mt.name) mt.id pageId)

/-! ## Index files -/

/-- `create_index_file`. -/
def createIndexFile (schemaName tableName : Bytes) (mi : MetaIndex) :
    Except Exn (IndexFile × FileTree Bytes Bytes) := do
  let file := IndexFile.create mi.id
  let fs' ← writeFile fs [dbName, schemaName, tableName, pathIndex] (UUID.toString mi.id)
    (serializeIf file).buffer
  pure (file, fs')

/-- The round of `read_index_file` for one table. -/
def readIndexIn (indexId : IndexId) (dir : Bytes × Bytes) : Except Exn (Option IndexFile) :=
  match fs.content? [dbName, dir.1, dir.2, pathIndex, UUID.toString indexId] with
  | none => pure none
  | some content => do
    let file ← deserialize "FileIOManager::read_index_file: failed to deserialize index file "
      deserializeIf content
    if file.indexId ≠ indexId then
      throw (.runtimeError "FileIOManager::read_index_file: index id mismatch for ")
    pure (some file)

/-- `read_index_file`. -/
def readIndexFile (indexId : IndexId) : Except Exn (Option IndexFile) :=
  search (readIndexIn dbName fs indexId) (tableDirs dbName fs)

/-- `write_index_file`. -/
def writeIndexFile (file : IndexFile) : Except Exn (FileTree Bytes Bytes) := do
  let found := (tableDirs dbName fs).find? fun dir =>
    (fs.content? [dbName, dir.1, dir.2, pathIndex, UUID.toString file.indexId]).isSome
  match found with
  | some dir =>
    writeFile fs [dbName, dir.1, dir.2, pathIndex] (UUID.toString file.indexId)
      (serializeIf file).buffer
  | none => throw (.runtimeError "FileIOManager::write_index_file: index file with id not found")

/-! ## Listing -/

/-- The id that a file is named after. -/
def parseId (name : Bytes) : Except Exn UUID :=
  match UUID.ofString name with
  | some id => pure id
  | none => throw (.invalidArgument "Invalid UUID string: " name)

/-- The ids that the files of a directory are named after. -/
def listIds (path : List Bytes) : Except Exn (List UUID) :=
  ((fs.names path).filter fun name => (fs.content? (path ++ [name])).isSome).mapM parseId

/-- The round of the loops below for one table. -/
def mapFilesIn (sub : Bytes) (ids : TableId → Option (List UUID)) (dir : Bytes × Bytes) :
    Except Exn (TableId → Option (List UUID)) :=
  match fs.content? [dbName, dir.1, dir.2, makeMetaFilename dir.2] with
  | none => pure ids
  | some content => do
    let table ← deserialize "FileIOManager::map_tables_pages: failed to deserialize meta table "
      deserializeMt content
    if fs.isDirectory [dbName, dir.1, dir.2, sub] then do
      let found ← listIds fs [dbName, dir.1, dir.2, sub]
      pure (Function.update ids table.id (some found))
    else pure ids

/-- The loops of `map_data_pages_for_table` and `map_index_files_for_table`, which
differ in the directory that they list. -/
def mapFilesForTable (sub : Bytes) : Except Exn (TableId → Option (List UUID)) :=
  (tableDirs dbName fs).foldlM (mapFilesIn dbName fs sub) fun _ => none

/-- `map_data_pages_for_table`. -/
def mapDataPagesForTable : Except Exn (TableId → Option (List DataPageId)) :=
  mapFilesForTable dbName fs pathData

/-- `map_index_files_for_table`. -/
def mapIndexFilesForTable : Except Exn (TableId → Option (List IndexId)) :=
  mapFilesForTable dbName fs pathIndex

/-! ## The configuration -/

/-- `write_cfg`, of a configuration with a name. -/
def writeCfg (cfg : Config) : Except Exn (FileTree Bytes Bytes) :=
  let name := cfg.dbName.getD []
  writeFile fs [name] (makeMetaFilename name) (serializeCfg cfg).buffer

end DatabaseDirectory
