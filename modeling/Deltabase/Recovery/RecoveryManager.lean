import Deltabase.Storage.FileIOManager
import Deltabase.Wal.AppendOnlyLog

/-!
# Recovery

`recovery::RecoveryManager`, which runs each time a database is opened. It
reads the whole log, repeats the records of the committed transactions in log
order (*redo*), and then takes back, last record first, what the transactions
without an end did (*undo*), writing a compensation record for each record it
takes back.

A page is only changed by a record younger than the LSN stamped on it. Records
of metadata carry no such guard: they are written over whatever is there.

Undo goes through the unfinished transactions in the order of an
`unordered_map`, which is not specified; `recover` takes it as an argument.
-/

namespace WalBody

/-- `wal_log::has_page_id`, with the table and the page: the alternatives of
`WALDataRecord`. -/
def dataRef : WalBody → Option (TableId × DataPageId)
  | insert tableId pageId _ => some (tableId, pageId)
  | update tableId pageId _ _ => some (tableId, pageId)
  | delete tableId pageId _ => some (tableId, pageId)
  | clrInsert tableId pageId _ _ => some (tableId, pageId)
  | clrUpdate tableId pageId _ _ _ => some (tableId, pageId)
  | clrDelete tableId pageId _ _ => some (tableId, pageId)
  | _ => none

/-- `undo_next_lsn`, which the alternatives of `WALCLRRecord` have. -/
def undoNext : WalBody → Option ℕ
  | clrInsert _ _ undoNextLsn _ => some undoNextLsn
  | clrUpdate _ _ undoNextLsn _ _ => some undoNextLsn
  | clrDelete _ _ undoNextLsn _ => some undoNextLsn
  | clrCreateSchema undoNextLsn _ => some undoNextLsn
  | clrUpdateSchema undoNextLsn _ _ => some undoNextLsn
  | clrDeleteSchema undoNextLsn _ => some undoNextLsn
  | clrCreateTable undoNextLsn _ => some undoNextLsn
  | clrUpdateTable undoNextLsn _ _ => some undoNextLsn
  | clrDeleteTable undoNextLsn _ => some undoNextLsn
  | clrCreateIndex undoNextLsn _ => some undoNextLsn
  | clrDropIndex undoNextLsn _ => some undoNextLsn
  | _ => none

end WalBody

namespace RecoveryManager

open FileIOManager

/-! ## Redo -/

/-- The loop that looks for the row with an id, changes it and leaves. -/
def modifyRow (id : ℕ) (f : DataRow → DataRow) (rows : List DataRow) : List DataRow :=
  rows.modify (rows.findIdx fun row => row.id = id) f

/-- The tokens and the flag an undone update gives back to a row. -/
def restore (before row : DataRow) : DataRow := { row.clearMark with tokens := before.tokens }

/-- `redo(record, page)`, on the page's rows. -/
def redoRows : WalBody → List DataRow → List DataRow
  | .insert _ _ after, rows => rows ++ [after]
  | .update _ _ before after, rows => modifyRow before.id .markObsolete rows ++ [after]
  | .delete _ _ before, rows => modifyRow before.id .markObsolete rows
  | .clrInsert _ _ _ after, rows => modifyRow after.id .markObsolete rows
  | .clrUpdate _ _ _ before after, rows => modifyRow after.id (restore before) rows
  | .clrDelete _ _ _ before, rows => modifyRow before.id .clearMark rows
  | _, rows => rows

/-- The page a data record is about, made when there is no file for it. -/
def readOrCreatePage (disk : Disk) (mt : MetaTable) (pageId : DataPageId) : Except Exn DataPage :=
  match readDataPage disk pageId with
  | some page => pure page
  | none => createPage disk mt pageId

/-- `redo_data`. -/
def redoData (disk : Disk) (record : WalRecord) (tableId : TableId) (pageId : DataPageId) :
    Except Exn Disk := do
  let mt ← readTableMeta disk tableId
  let page ← readOrCreatePage disk mt pageId
  if page.lastLsn < record.lsn then
    pure (writePage disk
      { page with rows := redoRows record.body page.rows, lastLsn := record.lsn })
  else pure disk

/-- `table.indexes.push_back(index)` on the stored table. -/
def addIndex (disk : Disk) (index : MetaIndex) : Except Exn Disk := do
  let table ← readTableMeta disk index.tableId
  writeMt disk { table with indexes := table.indexes ++ [index] }

/-- `std::erase_if` by id on the indexes of the stored table. -/
def eraseIndex (disk : Disk) (index : MetaIndex) : Except Exn Disk := do
  let table ← readTableMeta disk index.tableId
  writeMt disk { table with indexes := table.indexes.filter fun mi => mi.id ≠ index.id }

/-- `redo_meta`. -/
def redoMeta (disk : Disk) : WalBody → Except Exn Disk
  | .createSchema schema => pure (writeMs disk schema)
  | .updateSchema _ after => pure (writeMs disk after)
  | .deleteSchema before => pure (deleteMs disk before)
  | .clrCreateSchema _ schema => pure (deleteMs disk schema)
  | .clrUpdateSchema _ before _ => pure (writeMs disk before)
  | .clrDeleteSchema _ before => pure (writeMs disk before)
  | .createTable after => writeMt disk after
  | .updateTable _ after => writeMt disk after
  | .deleteTable before => deleteMt disk before
  | .clrCreateTable _ after => deleteMt disk after
  | .clrUpdateTable _ before _ => writeMt disk before
  | .clrDeleteTable _ before => writeMt disk before
  | .createIndex after => addIndex disk after
  | .clrCreateIndex _ after => eraseIndex disk after
  | .dropIndex before => eraseIndex disk before
  | .clrDropIndex _ before => addIndex disk before
  | _ => pure disk

/-- What redo does with a record it does not skip: data records go to their
page, the others to the metadata. -/
def redoRecord (disk : Disk) (record : WalRecord) : Except Exn Disk :=
  match record.body.dataRef with
  | some (tableId, pageId) => redoData disk record tableId pageId
  | none => redoMeta disk record.body

/-- `redo`. A compensation record is repeated whatever became of its
transaction; any other record only when its transaction is committed, up to the
commit record. -/
def redo (lastCheckpointLsn : ℕ) (commitLsns : TxnId → Option ℕ) (disk : Disk)
    (record : WalRecord) : Except Exn Disk :=
  match record.body.undoNext with
  | some _ => if record.lsn ≤ lastCheckpointLsn then pure disk else redoRecord disk record
  | none =>
    match commitLsns record.txnId with
    | none => pure disk
    | some commitLsn =>
      if record.lsn ≤ lastCheckpointLsn then pure disk
      else if record.lsn > commitLsn then pure disk
      else redoRecord disk record

/-- The loop of `get_commit_lsns` and `get_rollback_lsns`: the LSN of the last
record of a kind, for each transaction. -/
def lsnsOf (kind : WalBody) (wal : List WalRecord) : TxnId → Option ℕ :=
  wal.foldl
    (fun lsns record =>
      if record.body = kind then Function.update lsns record.txnId (some record.lsn) else lsns)
    fun _ => none

/-- `get_commit_lsns`. -/
def getCommitLsns (wal : List WalRecord) : TxnId → Option ℕ := lsnsOf .commitTxn wal

/-- `get_rollback_lsns`. -/
def getRollbackLsns (wal : List WalRecord) : TxnId → Option ℕ := lsnsOf .rollbackTxn wal

/-- `get_last_lsns`. -/
def getLastLsns (wal : List WalRecord) : List (TxnId × ℕ) :=
  wal.foldl (fun last record => upsert Prod.fst (record.txnId, record.lsn) last) []

/-- `get_active_txns`. -/
def getActiveTxns (last : List (TxnId × ℕ)) (commit rollback : TxnId → Option ℕ) :
    List (TxnId × ℕ) :=
  last.filter fun entry => (commit entry.1).isNone && (rollback entry.1).isNone

/-- The redo loop of `recover`. -/
def redoPass (lastCheckpointLsn : ℕ) (wal : List WalRecord) (disk : Disk) : Except Exn Disk :=
  wal.foldlM (redo lastCheckpointLsn (getCommitLsns wal)) disk

/-! ## Undo -/

/-- `undo_record(record, page)`, on the page's rows. -/
def undoRows : WalBody → List DataRow → List DataRow
  | .insert _ _ after, rows => modifyRow after.id .markObsolete rows
  | .update _ _ before after, rows => modifyRow after.id (restore before) rows
  | .delete _ _ before, rows => modifyRow before.id .clearMark rows
  | _, rows => rows

/-- `undo_record` of a metadata record. -/
def undoMeta (disk : Disk) : WalBody → Except Exn Disk
  | .createSchema schema => pure (deleteMs disk schema)
  | .updateSchema before _ => pure (writeMs disk before)
  | .deleteSchema before => pure (writeMs disk before)
  | .createTable after => deleteMt disk after
  | .updateTable before _ => writeMt disk before
  | .deleteTable before => writeMt disk before
  | .createIndex after => eraseIndex disk after
  | .dropIndex before => addIndex disk before
  | _ => pure disk

/-- `make_clr`, for the records that have one. -/
def makeClr (undoNextLsn : ℕ) : WalBody → Option WalBody
  | .insert tableId pageId after => some (.clrInsert tableId pageId undoNextLsn after)
  | .update tableId pageId before after => some (.clrUpdate tableId pageId undoNextLsn before after)
  | .delete tableId pageId before => some (.clrDelete tableId pageId undoNextLsn before)
  | .createSchema schema => some (.clrCreateSchema undoNextLsn schema)
  | .updateSchema before after => some (.clrUpdateSchema undoNextLsn before after)
  | .deleteSchema before => some (.clrDeleteSchema undoNextLsn before)
  | .createTable after => some (.clrCreateTable undoNextLsn after)
  | .updateTable before after => some (.clrUpdateTable undoNextLsn before after)
  | .deleteTable before => some (.clrDeleteTable undoNextLsn before)
  | .createIndex after => some (.clrCreateIndex undoNextLsn after)
  | .dropIndex before => some (.clrDropIndex undoNextLsn before)
  | _ => none

/-- **Taking a data record back is repeating its compensation record.** The
source has the two loops twice. -/
theorem undoRows_eq_redoRows {undoNextLsn : ℕ} {body clr : WalBody} (rows : List DataRow)
    (hclr : makeClr undoNextLsn body = some clr) : undoRows body rows = redoRows clr rows := by
  cases body <;> cases hclr <;> rfl

/-- **Taking a metadata record back is repeating its compensation record.** -/
theorem undoMeta_eq_redoMeta {undoNextLsn : ℕ} {body clr : WalBody} (disk : Disk)
    (hclr : makeClr undoNextLsn body = some clr) : undoMeta disk body = redoMeta disk clr := by
  cases body <;> cases hclr <;> rfl

/-- What undo works on. -/
structure UndoState where
  disk : Disk
  wal : AppendOnlyLog
  /-- `txn_prev_lsn`. -/
  txnPrevLsn : ℕ

/-- Appends a compensation record and flushes. The record's `lsn` is set to
the LSN before it in its transaction, which the log manager overwrites; its
`prev_lsn` stays `0`. -/
def UndoState.appendClr (s : UndoState) (txnId : TxnId) (clr : WalBody) : UndoState :=
  let record : WalRecord := { lsn := s.txnPrevLsn, prevLsn := 0, txnId := txnId, body := clr }
  { s with wal := (s.wal.push record).flush, txnPrevLsn := s.wal.nextLsn }

/-- The body of undo's loop for a record that is not a compensation record:
the state after it. A data record whose page has no file is passed over. -/
def undoRecord (s : UndoState) (record : WalRecord) : Except Exn UndoState :=
  match makeClr record.prevLsn record.body with
  | none => pure s
  | some clr =>
    match record.body.dataRef with
    | some (_, pageId) =>
      match readDataPage s.disk pageId with
      | none => pure s
      | some page =>
        let page := { page with
          rows := undoRows record.body page.rows, lastLsn := s.wal.nextLsn }
        pure { s.appendClr record.txnId clr with disk := writePage s.disk page }
    | none => do
      let disk ← undoMeta s.disk record.body
      pure { s.appendClr record.txnId clr with disk := disk }

/-- The loop of `undo` over the records of one transaction, from `current`
back; also whether it met a rollback record. A loop that goes round more often
than the log has records does not end. -/
def undoLoop : ℕ → UndoState → ℕ → Except Exn (UndoState × Bool)
  | 0, _, _ => .error .divergence
  | rounds + 1, s, current =>
    if current = 0 then pure (s, false)
    else do
      let record ← s.wal.readLog current
      if record.body = .rollbackTxn then pure ({ s with txnPrevLsn := record.lsn }, true)
      else match record.body.undoNext with
        | some undoNextLsn => undoLoop rounds { s with txnPrevLsn := record.lsn } undoNextLsn
        | none => do
          let s ← undoRecord s record
          undoLoop rounds s record.prevLsn

/-- What undo does for one transaction. -/
def undoTxn (disk : Disk) (wal : AppendOnlyLog) (txnId : TxnId) (lastLsn : ℕ) :
    Except Exn (Disk × AppendOnlyLog) := do
  let (s, rollbackMarkerSeen) ← undoLoop (wal.kept.length + 1) ⟨disk, wal, lastLsn⟩ lastLsn
  if rollbackMarkerSeen then pure (s.disk, s.wal)
  else
    let marker : WalRecord :=
      { lsn := s.txnPrevLsn, prevLsn := 0, txnId := txnId, body := .rollbackTxn }
    pure (s.disk, (s.wal.push marker).flush)

/-- `undo`. -/
def undo (disk : Disk) (wal : AppendOnlyLog) (active : List (TxnId × ℕ)) :
    Except Exn (Disk × AppendOnlyLog) :=
  active.foldlM (fun s entry => undoTxn s.1 s.2 entry.1 entry.2) (disk, wal)

/-- `recover`; `visit` is the order in which the unfinished transactions come. -/
def recover (lastCheckpointLsn : ℕ) (visit : List (TxnId × ℕ) → List (TxnId × ℕ))
    (disk : Disk) (wal : AppendOnlyLog) : Except Exn (Disk × AppendOnlyLog) := do
  let disk ← redoPass lastCheckpointLsn wal.kept disk
  let active := getActiveTxns (getLastLsns wal.kept) (getCommitLsns wal.kept)
    (getRollbackLsns wal.kept)
  undo disk wal (visit active)

end RecoveryManager
