import Deltabase.Storage.BufferPool

/-!
# Transactions

`txn::Transaction`. A transaction writes a begin record, then the records of
the statement, then a commit record; it is only while it is active that it
writes any. There is no operation that ends a transaction without committing
it: a statement that throws leaves its transaction behind.

Committing waits until the log is durable and then writes the dirty pages. A
crash can come between the two or in the middle of the second, so the three
parts of `commit` have names of their own.
-/

namespace Transaction

/-- `Transaction::append_log`, past the check: the record gets the
transaction's id and its last LSN, and the log gives it an LSN. -/
def appendRecord (body : WalBody) (db : StdDbInstance) : StdDbInstance :=
  { db with
    wal := db.wal.push { prevLsn := db.txn.lastLsn, txnId := db.txn.id, body := body }
    txn := { db.txn with lastLsn := db.wal.nextLsn } }

/-- `TransactionManager::make_transaction`. -/
def makeTransaction : Prog Unit := do
  let id ← UUID.make
  modify fun db => { db with txn := { id := id } }

/-- `begin`. -/
def begin : Prog Unit := do
  let db ← get
  if db.txn.state ≠ .idle then
    throw (.runtimeError "Transaction::begin: transaction state not idle")
  modify (appendRecord .beginTxn)
  modify fun db => { db with txn := { db.txn with state := .active } }

/-- `append_log`. -/
def appendLog (body : WalBody) : Prog Unit := do
  let db ← get
  if db.txn.state ≠ .active then
    throw (.runtimeError "Transaction::append_log: transaction state not active")
  modify (appendRecord body)

/-- `get_last_lsn`. -/
def getLastLsn : Prog ℕ := do
  let db ← get
  pure db.txn.lastLsn

/-- `wait_for_durable`, of the abstract log. -/
def waitForDurable (lsn : ℕ) (db : StdDbInstance) : StdDbInstance :=
  { db with wal := { db.wal with
    durable := if lsn ≤ db.wal.durable then db.wal.durable else db.wal.kept.length } }

/-- `commit` up to the point where the log is durable. -/
def commitLog : Prog Unit := do
  let db ← get
  if db.txn.state ≠ .active then
    throw (.runtimeError "Transaction::commit: transaction state not active")
  modify (appendRecord .commitTxn)
  modify fun db => waitForDurable db.txn.lastLsn db

/-- `commit`. -/
def commit : Prog Unit := do
  commitLog
  modify fun db => BufferPool.flushDirty db.txn.lastLsn db
  modify fun db => { db with txn := { db.txn with state := .committed } }

end Transaction
