import Deltabase.Types.MetaTable

/-!
# Log records

The twenty-five alternatives of `types::WALRecord`. Every record carries its
own LSN, the LSN its transaction wrote before it and the transaction's id;
these three fields are the same in all alternatives and are kept beside the
alternative, so that what the transaction and the log manager overwrite is one
field of one structure.

A compensation record (`CLR…`) is written by undo and carries, besides the
image it compensates, the LSN undo continues at.
-/

/-- `txn::TxnId`. -/
abbrev TxnId := UUID

/-- The alternatives of `types::WALRecord`, without the three fields they
share. -/
inductive WalBody where
  | insert (tableId : TableId) (pageId : DataPageId) (after : DataRow)
  | clrInsert (tableId : TableId) (pageId : DataPageId) (undoNextLsn : ℕ)
      (after : DataRow)
  | update (tableId : TableId) (pageId : DataPageId) (before after : DataRow)
  | clrUpdate (tableId : TableId) (pageId : DataPageId) (undoNextLsn : ℕ)
      (before after : DataRow)
  | delete (tableId : TableId) (pageId : DataPageId) (before : DataRow)
  | clrDelete (tableId : TableId) (pageId : DataPageId) (undoNextLsn : ℕ)
      (before : DataRow)
  | createSchema (schema : MetaSchema)
  | clrCreateSchema (undoNextLsn : ℕ) (schema : MetaSchema)
  | updateSchema (before after : MetaSchema)
  | clrUpdateSchema (undoNextLsn : ℕ) (before after : MetaSchema)
  | deleteSchema (before : MetaSchema)
  | clrDeleteSchema (undoNextLsn : ℕ) (before : MetaSchema)
  | createTable (after : MetaTable)
  | clrCreateTable (undoNextLsn : ℕ) (after : MetaTable)
  | updateTable (before after : MetaTable)
  | clrUpdateTable (undoNextLsn : ℕ) (before after : MetaTable)
  | deleteTable (before : MetaTable)
  | clrDeleteTable (undoNextLsn : ℕ) (before : MetaTable)
  | createIndex (after : MetaIndex)
  | clrCreateIndex (undoNextLsn : ℕ) (after : MetaIndex)
  | dropIndex (before : MetaIndex)
  | clrDropIndex (undoNextLsn : ℕ) (before : MetaIndex)
  | beginTxn
  | commitTxn
  | rollbackTxn
  deriving DecidableEq

/-- `types::WALRecord`. -/
structure WalRecord where
  lsn : ℕ := 0
  prevLsn : ℕ := 0
  txnId : TxnId := UUID.null
  body : WalBody
  deriving DecidableEq

/-- `types::WALRecordType`, as the underlying integer of each alternative. -/
def WalBody.type : WalBody → ℕ
  | insert .. => 1
  | update .. => 2
  | delete .. => 3
  | createTable .. => 4
  | updateTable .. => 5
  | deleteTable .. => 6
  | createSchema .. => 7
  | updateSchema .. => 8
  | deleteSchema .. => 9
  | beginTxn => 10
  | commitTxn => 11
  | rollbackTxn => 12
  | clrInsert .. => 13
  | clrUpdate .. => 14
  | clrDelete .. => 15
  | clrCreateSchema .. => 16
  | clrUpdateSchema .. => 17
  | clrDeleteSchema .. => 18
  | clrCreateTable .. => 19
  | clrUpdateTable .. => 20
  | clrDeleteTable .. => 21
  | createIndex .. => 22
  | clrCreateIndex .. => 23
  | dropIndex .. => 24
  | clrDropIndex .. => 25
