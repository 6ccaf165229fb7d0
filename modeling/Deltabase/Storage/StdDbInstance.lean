import Deltabase.Transactions.Transaction

/-!
# The storage operations of an instance

`storage::StdDbInstance`: inserting, updating and deleting rows, creating
tables, schemas and indexes, and the beginning of a scan.

A table's rows are spread over pages that are chained by their `next` links. A
deleted row and the old version of an updated row stay where they are, marked
obsolete; an update appends the new version to the page of the old one. Each
operation writes its records to the log as it goes, and none undoes anything
when it throws.

The loop of `update_row` appends to the vector it goes through; it is taken to
visit the rows that were there when it began.
-/

/-- `types::Assignment`. -/
inductive Assignment where
  | literal (columnId : ColumnId) (value : DataToken)
  | column (columnId source : ColumnId)
  deriving DecidableEq

/-- `types::RowUpdate`. -/
abbrev RowUpdate := List Assignment

/-- `types::ColumnDefinition`, converted. -/
structure ColumnDefinition where
  name : Bytes
  type : DataType
  flags : ℕ := 0
  deriving DecidableEq

/-- The bytes of a text. -/
def text (s : String) : Bytes := s.toUTF8.toList

namespace StdDbInstance

open BufferPool Transaction FileIOManager

/-! ## Looking things up -/

/-- `catalog_->get_schema(name)`, dereferenced. -/
def getSchema (schemaName : Bytes) : Prog MetaSchema := do
  let db ← get
  match db.catalog.getSchema schemaName with
  | some schema => pure schema
  | none => throw .nullDereference

/-- `catalog_->get_table(table_name, ms->id)`, dereferenced. -/
def getTable (tableName schemaName : Bytes) : Prog MetaTable := do
  let schema ← getSchema schemaName
  let db ← get
  match db.catalog.getTable tableName schema.id with
  | some table => pure table
  | none => throw .nullDereference

/-- `catalog_->save_table(mt)`, or an assignment through the table's pointer. -/
def saveTable (mt : MetaTable) : Prog Unit :=
  modify fun db => { db with catalog := db.catalog.saveTable mt }

/-- The page behind a page pointer. -/
def derefDp (id : DataPageId) : Prog DataPage := do
  let db ← get
  match db.pool.dataPages id with
  | some entry => pure entry.value
  | none => throw .nullDereference

/-- `is_row_obsolete`. -/
def isRowObsolete (rowPtr : RowPtr) : Prog Bool := do
  match ← getDp rowPtr.1 with
  | none => pure false
  | some page =>
    match page.rows.find? fun row => row.id = rowPtr.2 with
    | some row => pure row.obsolete
    | none => pure false

/-! ## Indexes of a row -/

/-- `BPIndexPager::file_or_throw`. -/
def fileOrThrow (tableId : TableId) (indexId : IndexId) : Prog IndexFile := do
  match ← getTableIndex tableId indexId with
  | some file => pure file
  | none => throw (.runtimeError "BPIndexPager::file_or_throw")

/-- `tree.find(key)`. -/
def treeFind (tableId : TableId) (indexId : IndexId) (key : DataToken) :
    Prog (Option RowPtr) := do
  let file ← fileOrThrow tableId indexId
  liftExcept (IndexBPlusTree.find file key)

/-- `tree.insert(key, row_ptr)`, which marks the file. -/
def treeInsert (tableId : TableId) (indexId : IndexId) (key : DataToken) (rowPtr : RowPtr) :
    Prog Unit := do
  let file ← fileOrThrow tableId indexId
  let file ← liftExcept (IndexBPlusTree.insert {} file key rowPtr)
  modify (putIf indexId file)
  dirtyIf indexId

/-- The uniqueness check of `insert_row_into_indexes`. -/
def checkUnique (mt : MetaTable) (mi : MetaIndex) (key : DataToken) : Prog Unit := do
  match ← treeFind mt.id mi.id key with
  | none => pure ()
  | some existing =>
    let obsolete ← isRowObsolete existing
    if obsolete then pure () else throw (.uniqueConstraintViolation mi.name)

/-- The value a row has in the column of an index. -/
def indexKey (mt : MetaTable) (mi : MetaIndex) (row : DataRow) : Except Exn DataToken := do
  let colIdx ← mt.getColumnIdx mi.columnId
  match row.tokens[colIdx]? with
  | some key => pure key
  | none => .error .outOfRange

/-- The body of the loop of `insert_row_into_indexes`; `touched` are the
indexes that have got an entry. -/
def insertIntoIndex (mt : MetaTable) (row : DataRow) (pageId : DataPageId)
    (touched : List IndexId) (mi : MetaIndex) : Prog (List IndexId) := do
  let key ← liftExcept (indexKey mt mi row)
  -- NULL values are not indexed
  if key.type = .null then pure touched
  else
    if mi.isUnique then checkUnique mt mi key
    treeInsert mt.id mi.id key (pageId, row.id)
    pure (touched ++ [mi.id])

/-- `insert_row_into_indexes`. -/
def insertRowIntoIndexes (mt : MetaTable) (row : DataRow) (pageId : DataPageId) :
    Prog (List IndexId) :=
  mt.indexes.foldlM (insertIntoIndex mt row pageId) []

/-! ## Inserting -/

/-- The loop body of the search for the last page. -/
def laterTail (tail : Option DataPage) (page : DataPage) : Option DataPage :=
  if page.next ≠ UUID.null then tail
  else match tail with
    | none => some page
    | some t => if page.maxRid > t.maxRid then some page else tail

/-- The page a new page is linked to: of those without a next page, the one
with the greatest `max_rid`, the first if there are several. -/
def tailPage (pages : List DataPage) : Option DataPage := pages.foldl laterTail none

/-- Links a page to the chain of the pages that were there before it, unless
it is one of them. -/
def linkPage (pagesBefore : List DataPage) (pageId : DataPageId) : Prog Unit :=
  if pagesBefore.any fun page => page.id = pageId then pure ()
  else match tailPage pagesBefore with
    | none => pure ()
    | some tail => do
      modifyDp tail.id fun page => { page with next := pageId }
      dirtyDp tail.id

/-- `insert_row`. The page's size and `max_rid` stay as they are. -/
def insertRow (tableName schemaName : Bytes) (cols : Option (List Bytes))
    (row : List DataToken) : Prog Unit := do
  let mtUnchanged ← getTable tableName schemaName
  let (newRow, mt) := mtUnchanged.makeRow cols row
  saveTable mt
  let pagesBefore ← getTableData mt.id
  let page ← prepareDp (StdStorageSerializer.estimateSize newRow) mt
  linkPage (pagesBefore.filterMap id) page.id
  let touchedIndexes ← insertRowIntoIndexes mt newRow page.id
  modifyDp page.id fun page => { page with rows := page.rows ++ [newRow] }
  appendLog (.insert mt.id page.id newRow)
  appendLog (.updateTable mtUnchanged mt)
  let pageLsn ← getLastLsn
  modifyDp page.id fun page => { page with lastLsn := pageLsn }
  touchedIndexes.forM fun indexId => setIfLsn indexId pageLsn
  dirtyDp page.id

/-! ## Updating -/

/-- One assignment of an update: the tokens of the new version, from those it
has so far and the old version. -/
def assignToken (mt : MetaTable) (row : DataRow) (tokens : List DataToken) :
    Assignment → Except Exn (List DataToken)
  | .literal columnId value => do
    let colIdx ← mt.getColumnIdx columnId
    if colIdx < tokens.length then pure (tokens.set colIdx value) else .error .outOfRange
  | .column columnId source => do
    let colIdx ← mt.getColumnIdx columnId
    let srcIdx ← mt.getColumnIdx source
    match row.tokens[srcIdx]? with
    | none => .error .outOfRange
    | some value =>
      if colIdx < tokens.length then pure (tokens.set colIdx value) else .error .outOfRange

/-- The tokens of the new version of a row. -/
def assignTokens (mt : MetaTable) (update : RowUpdate) (row : DataRow) :
    Except Exn (List DataToken) :=
  update.foldlM (assignToken mt row) row.tokens

/-- What the loops of `update_row` and `delete_rows` carry from row to row:
the table behind its pointer, the LSN the page will get and whether a row of the
page was changed. -/
structure PageLoop where
  mt : MetaTable
  pageLsn : ℕ
  changed : Bool

/-- The body of the inner loop of `update_row` for a row to be updated, which
stands at position `i` of its page. -/
def updateRowAt (update : RowUpdate) (unchangedMt : MetaTable) (pageId : DataPageId)
    (loop : PageLoop) (i : ℕ) (row : DataRow) : Prog PageLoop := do
  let mt := { loop.mt with lastRid := loop.mt.lastRid + 1 }
  saveTable mt
  modifyDp pageId fun page => { page with rows := page.rows.modify i DataRow.markObsolete }
  let tokens ← liftExcept (assignTokens mt update row)
  let newRow := { row with id := mt.lastRid, tokens := tokens }
  let mt := { mt with totalRows := mt.totalRows + 1 }
  saveTable mt
  appendLog (.update mt.id pageId row.markObsolete newRow)
  let lsn ← getLastLsn
  let pageLsn := max loop.pageLsn lsn
  appendLog (.updateTable unchangedMt mt)
  modifyDp pageId fun page =>
    { page with rows := page.rows ++ [newRow], maxRid := max page.maxRid newRow.id }
  let touchedIndexes ← insertRowIntoIndexes mt newRow pageId
  touchedIndexes.forM fun indexId => setIfLsn indexId pageLsn
  pure { mt := mt, pageLsn := pageLsn, changed := true }

/-- The row at a position of a page, if it is one of those to be changed and
not obsolete. -/
def targetAt (ids : List ℕ) (pageId : DataPageId) (i : ℕ) : Prog (Option DataRow) := do
  let page ← derefDp pageId
  match page.rows[i]? with
  | none => throw .outOfRange
  | some row =>
    if row.id ∉ ids then pure none
    else if row.obsolete then pure none
    else pure (some row)

/-- The loops of `update_row` and `delete_rows` over the rows of one page, and
the stamping of the page that follows. -/
def changePage (body : DataPageId → PageLoop → ℕ → DataRow → Prog PageLoop) (ids : List ℕ)
    (mt : MetaTable) : Option DataPage → Prog MetaTable
  | none => throw .nullDereference
  | some p => do
    let page ← derefDp p.id
    let loop ← (List.range page.rows.length).foldlM
      (fun loop i => do
        match ← targetAt ids page.id i with
        | none => pure loop
        | some row => body page.id loop i row)
      { mt := mt, pageLsn := page.lastLsn, changed := false }
    if loop.changed then
      modifyDp page.id fun page => { page with lastLsn := loop.pageLsn }
      dirtyDp page.id
    pure loop.mt

/-- `update_row`. -/
def updateRow (tableName schemaName : Bytes) (update : RowUpdate) (rows : List DataRow) :
    Prog Unit := do
  let mt ← getTable tableName schemaName
  let pages ← getTableData mt.id
  let _ ← pages.foldlM (changePage (updateRowAt update mt) (rows.map DataRow.id)) mt

/-! ## Deleting -/

/-- `live_rows--`, on 64 bits. -/
def decLiveRows (liveRows : ℕ) : ℕ := if liveRows = 0 then 2 ^ 64 - 1 else liveRows - 1

/-- The body of the inner loop of `delete_rows` for a row to be deleted. -/
def deleteRowAt (unchangedMt : MetaTable) (pageId : DataPageId) (loop : PageLoop) (i : ℕ)
    (row : DataRow) : Prog PageLoop := do
  modifyDp pageId fun page => { page with rows := page.rows.modify i DataRow.markObsolete }
  let mt := { loop.mt with liveRows := decLiveRows loop.mt.liveRows }
  saveTable mt
  appendLog (.delete mt.id pageId row.markObsolete)
  let lsn ← getLastLsn
  appendLog (.updateTable unchangedMt mt)
  pure { mt := mt, pageLsn := max loop.pageLsn lsn, changed := true }

/-- `delete_rows`. -/
def deleteRows (tableName schemaName : Bytes) (rows : List DataRow) : Prog Unit := do
  let mt ← getTable tableName schemaName
  let pages ← getTableData mt.id
  let _ ← pages.foldlM (changePage (deleteRowAt mt) (rows.map DataRow.id)) mt

/-! ## Tables, schemas and indexes -/

/-- The columns of a new table. -/
def makeColumns (tableId : TableId) : List ColumnDefinition → Prog (List MetaColumn)
  | [] => pure []
  | definition :: definitions => do
    let id ← UUID.make
    let columns ← makeColumns tableId definitions
    pure ({ id := id, tableId := tableId, name := definition.name, type := definition.type,
            flags := definition.flags } :: columns)

/-- `create_table`. -/
def createTable (tableName schemaName : Bytes) (columns : List ColumnDefinition) :
    Prog Unit := do
  let schema ← getSchema schemaName
  let id ← UUID.make
  let metaColumns ← makeColumns id columns
  let mt : MetaTable :=
    { id := id, schemaId := schema.id, name := tableName, columns := metaColumns }
  appendLog (.createTable mt)
  saveTable mt

/-- `create_schema`. -/
def createSchema (dbName schemaName : Bytes) : Prog Unit := do
  let id ← UUID.make
  let ms : MetaSchema := { id := id, name := schemaName, dbName := dbName }
  appendLog (.createSchema ms)
  modify fun db => { db with catalog := db.catalog.saveSchema ms }

/-- The key an existing row gets in an index on a column: none when the row is
obsolete or has no value there. -/
def liveKey (colIdx : ℕ) (row : DataRow) : Except Exn (Option DataToken) :=
  if row.obsolete then .ok none
  else match row.tokens[colIdx]? with
    | none => .error .outOfRange
    | some key => .ok (if key.type = .null then none else some key)

/-- The body of the uniqueness check of `create_index`, which compares bytes;
`seen` are the bytes of the rows before. -/
def checkDuplicate (message : Bytes) (colIdx : ℕ) (seen : List Bytes) (row : DataRow) :
    Prog (List Bytes) := do
  match ← liftExcept (liveKey colIdx row) with
  | none => pure seen
  | some key =>
    if key.bytes ∈ seen then throw (.uniqueConstraintViolation message)
    else pure (key.bytes :: seen)

/-- The body of the loop of `create_index` that fills the new index. -/
def indexExistingRow (tableId : TableId) (indexId : IndexId) (colIdx : ℕ) (pageId : DataPageId)
    (row : DataRow) : Prog Unit := do
  match ← liftExcept (liveKey colIdx row) with
  | none => pure ()
  | some key => treeInsert tableId indexId key (pageId, row.id)

/-- The page behind a pointer that `get_table_data` returned. -/
def derefPage : Option DataPage → Prog DataPage
  | none => throw .nullDereference
  | some page => pure page

/-- `create_index`. -/
def createIndex (indexName tableName columnName schemaName : Bytes) (isUnique : Bool) :
    Prog Unit := do
  let table ← getTable tableName schemaName
  let column ← liftExcept (table.getColumn columnName)
  let id ← UUID.make
  let mi : MetaIndex :=
    { id := id, tableId := table.id, columnId := column.id, name := indexName,
      keyType := column.type, isUnique := isUnique }
  appendLog (.createIndex mi)
  let lsn ← getLastLsn
  createTableIndex schemaName table mi lsn
  let colIdx ← liftExcept (table.getColumnIdx column.id)
  let pages ← getTableData table.id
  if isUnique then
    let message := text "Cannot create unique index '" ++ indexName ++ text "' on column '"
      ++ columnName ++ text "': table '" ++ tableName ++ text "' contains duplicate values"
    let _ ← pages.foldlM
      (fun seen pointer => do
        let page ← derefPage pointer
        page.rows.foldlM (checkDuplicate message colIdx) seen) []
  pages.forM fun pointer => do
    let page ← derefPage pointer
    page.rows.forM (indexExistingRow table.id mi.id colIdx page.id)
  setIfLsn mi.id lsn
  saveTable { table with indexes := table.indexes ++ [mi] }

/-- `drop_index`. The predicate of `erase_if` reads the id through a pointer
into the vector that is being compacted; with distinct ids it erases the one
index. -/
def dropIndex (indexName tableName schemaName : Bytes) : Prog Unit := do
  let table ← getTable tableName schemaName
  match table.indexes.find? fun index => index.name = indexName with
  | none => throw (.runtimeError "StdDbInstance::drop_index")
  | some index =>
    saveTable { table with indexes := table.indexes.filter fun mi => mi.id ≠ index.id }
    appendLog (.dropIndex index)

/-! ## Scanning -/

/-- The page a scan begins at: the first that no page links to; if there is
none, the first page. -/
def scanHead (pages : List DataPage) : DataPageId :=
  let referenced := (pages.map DataPage.next).filter fun next => next ≠ UUID.null
  match pages.find? fun page => page.id ∉ referenced with
  | some page => page.id
  | none => (pages.head?.map DataPage.id).getD UUID.null

/-- `seq_scan_begin`. -/
def seqScanBegin (tableName schemaName : Bytes) : Prog DataPageId := do
  let mt ← getTable tableName schemaName
  let pages ← getTableData mt.id
  pure (scanHead (pages.filterMap id))

end StdDbInstance
