import Deltabase.Storage.StdDbInstance

/-!
# Executing statements

The statements that change a database, as `exq::SemanticAnalyzer` lets them
pass and the node executors carry them out. Every executor makes a transaction,
begins it, calls the storage and commits; one that inserts calls the storage
once for each row. An exception goes through to the caller and nobody ends the
transaction.

The rows that an update or a delete is given come from a child executor, which
reads the table; it can throw, and then the storage is not called at all.
Reading changes nothing that an instance sees, so the rows are taken as data of
the statement.

Of the analyzer there is what it checks against the catalog. Its checks of
column names, literals and conditions keep further statements out and are not
needed for what is said about those that run.
-/

/-- A statement, with the values its executor was made from. -/
inductive Statement where
  /-- `Engine::set_db_instance` creates the default schema like a statement. -/
  | createSchema (dbName schemaName : Bytes)
  | createTable (tableName schemaName : Bytes) (columns : List ColumnDefinition)
  | insert (tableName schemaName : Bytes) (cols : Option (List Bytes))
      (rows : List (List DataToken))
  | update (tableName schemaName : Bytes) (assignments : RowUpdate)
      (rows : Except Exn (List DataRow))
  | delete (tableName schemaName : Bytes) (rows : Except Exn (List DataRow))
  | createIndex (indexName tableName columnName schemaName : Bytes) (isUnique : Bool)
  | dropIndex (indexName tableName schemaName : Bytes)

namespace StdDbInstance

/-- `get_table(table_name, schema_name)`. -/
def findTable (db : StdDbInstance) (tableName schemaName : Bytes) : Option MetaTable :=
  match db.catalog.getSchema schemaName with
  | none => none
  | some schema => db.catalog.getTable tableName schema.id

/-- `exists_table`. -/
def existsTable (db : StdDbInstance) (tableName schemaName : Bytes) : Bool :=
  (db.findTable tableName schemaName).isSome

end StdDbInstance

namespace Statement

open StdDbInstance Transaction

/-- `SemanticAnalyzer::analyze`, and the check before the default schema is
made. -/
def analyze (db : StdDbInstance) : Statement → Bool
  | createSchema _ schemaName => (db.catalog.getSchema schemaName).isNone
  | createTable tableName schemaName _ => !db.existsTable tableName schemaName
  | insert tableName schemaName _ _ => db.existsTable tableName schemaName
  | update tableName schemaName _ _ => db.existsTable tableName schemaName
  | delete tableName schemaName _ => db.existsTable tableName schemaName
  | createIndex indexName tableName columnName schemaName _ =>
    (db.findTable tableName schemaName).any fun table =>
      table.indexes.all (fun index => index.name ≠ indexName)
        && table.columns.any (fun column => column.name = columnName)
  | dropIndex indexName tableName schemaName =>
    (db.findTable tableName schemaName).any fun table =>
      table.indexes.any fun index => index.name = indexName

/-- What an executor does between `begin` and `commit`. -/
def body : Statement → Prog Unit
  | createSchema dbName schemaName => StdDbInstance.createSchema dbName schemaName
  | createTable tableName schemaName columns =>
    StdDbInstance.createTable tableName schemaName columns
  | insert tableName schemaName cols rows => rows.forM (insertRow tableName schemaName cols)
  | update tableName schemaName assignments rows => do
    let rows ← liftExcept rows
    updateRow tableName schemaName assignments rows
  | delete tableName schemaName rows => do
    let rows ← liftExcept rows
    deleteRows tableName schemaName rows
  | createIndex indexName tableName columnName schemaName isUnique =>
    StdDbInstance.createIndex indexName tableName columnName schemaName isUnique
  | dropIndex indexName tableName schemaName =>
    StdDbInstance.dropIndex indexName tableName schemaName

/-- `next` of an executor, up to the point where the log is durable. -/
def nextLog (st : Statement) : Prog Unit := do
  makeTransaction
  begin
  st.body
  commitLog

/-- `next` of an executor. -/
def next (st : Statement) : Prog Unit := do
  makeTransaction
  begin
  st.body
  commit

end Statement
