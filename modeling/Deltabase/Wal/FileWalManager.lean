import Deltabase.Lib.Transition
import Deltabase.Wal.StdWalSerializer
import Mathlib.Data.List.Sort

/-!
# The log manager

`wal::FileWalManager` numbers log records and keeps them in files of
`MAX_RECORDS_PER_LOGFILE` records each. Records are appended to an in-memory
list, `dirty`, and move to `flushed` when they have been written; a new
manager on the same directory reads every file back.

A log file is named by the range of LSNs it is for. Each record in it is
preceded by its size, which the reader checks against what is left of the file
but does not use to delimit the record.

The manager is the only writer of the directory, and writes are taken to be
whole and to succeed. The directory is a list of files because the order in
which `directory_iterator` yields them is not specified: a reopen takes any
permutation of it.
-/

/-- A log file: the LSN range of its name and its bytes. -/
structure LogFile where
  firstLsn : ℕ
  lastLsn : ℕ
  content : Bytes := []
  deriving DecidableEq

/-- `wal::FileWalManager`, with the directory it writes to. -/
structure FileWalManager where
  dir : List LogFile := []
  nextLsn : ℕ := 1
  flushedLsn : ℕ := 0
  flushed : List WalRecord := []
  dirty : List WalRecord := []

namespace FileWalManager

open StdWalSerializer

/-- `MAX_RECORDS_PER_LOGFILE`. -/
def maxRecordsPerLogfile : ℕ := 1000

/-! ## Writing -/

/-- The first LSN of the file a record belongs to. -/
def fileFirstLsn (lsn : ℕ) : ℕ :=
  (lsn - 1) / maxRecordsPerLogfile * maxRecordsPerLogfile + 1

/-- The last LSN of the file a record belongs to. -/
def fileLastLsn (lsn : ℕ) : ℕ := fileFirstLsn lsn + maxRecordsPerLogfile - 1

/-- `open(path, O_WRONLY | O_CREAT | O_APPEND)`: the file is created when it
is not there. -/
def openLogfile (dir : List LogFile) (firstLsn lastLsn : ℕ) : List LogFile :=
  if dir.any fun f => f.firstLsn = firstLsn ∧ f.lastLsn = lastLsn then dir
  else dir ++ [⟨firstLsn, lastLsn, []⟩]

/-- `write(fd, …)` on a file opened for appending. -/
def appendToLogfile (dir : List LogFile) (firstLsn lastLsn : ℕ) (bs : Bytes) :
    List LogFile :=
  dir.map fun f =>
    if f.firstLsn = firstLsn ∧ f.lastLsn = lastLsn then { f with content := f.content ++ bs }
    else f

/-- The bytes of a record in a log file: its size, then the record. -/
def logfileEntry (record : WalRecord) : Bytes :=
  leBytes 8 (serialize record).size ++ (serialize record).buffer

/-- The loop of `write_logs`; `opened` is the first LSN of the open file, if
one is open. -/
def writeLogsLoop (dir : List LogFile) (opened : Option ℕ) : List WalRecord → List LogFile
  | [] => dir
  | record :: logs =>
    let first := fileFirstLsn record.lsn
    let last := fileLastLsn record.lsn
    let dir := if opened = some first then dir else openLogfile dir first last
    writeLogsLoop (appendToLogfile dir first last (logfileEntry record)) (some first) logs

/-- `write_logs`. -/
def writeLogs (dir : List LogFile) (logs : List WalRecord) : List LogFile :=
  writeLogsLoop dir none logs

/-- The record with the LSN it was given. -/
def stamp (record : WalRecord) (lsn : ℕ) : WalRecord := { record with lsn := lsn }

/-- `append_log` of one record: the LSN it was given. -/
def appendLog (m : FileWalManager) (record : WalRecord) : ℕ × FileWalManager :=
  let lsn := m.nextLsn
  (lsn, { m with nextLsn := m.nextLsn + 1, dirty := m.dirty ++ [stamp record lsn] })

/-- The loop of the batched `append_log`. -/
def appendLogsLoop (m : FileWalManager) (lastLsn : ℕ) : List WalRecord → ℕ × FileWalManager
  | [] => (lastLsn, m)
  | record :: records =>
    let r := m.appendLog record
    appendLogsLoop r.2 r.1 records

/-- `append_log` of a batch. -/
def appendLogs (m : FileWalManager) (records : List WalRecord) : ℕ × FileWalManager :=
  m.appendLogsLoop 0 records

/-- `flush`. -/
def flush (m : FileWalManager) : FileWalManager :=
  match m.dirty.getLast? with
  | none => m
  | some last =>
    { m with
      dir := writeLogs m.dir m.dirty
      flushed := m.flushed ++ m.dirty
      flushedLsn := if last.lsn > m.flushedLsn then last.lsn else m.flushedLsn
      dirty := [] }

/-- `sync`. -/
def sync (m : FileWalManager) : FileWalManager := m.flush

/-- The loop of `wait_for_durable`, with no other thread flushing. The second
round already finds nothing to flush, so a third would do what it did. -/
def waitForDurableLoop : ℕ → FileWalManager → ℕ → Except Exn FileWalManager
  | 0, m, lsn => if m.flushedLsn < lsn then .error .divergence else .ok m
  | rounds + 1, m, lsn =>
    if m.flushedLsn < lsn then waitForDurableLoop rounds m.flush lsn else .ok m

/-- `wait_for_durable`. -/
def waitForDurable (m : FileWalManager) (lsn : ℕ) : Except Exn FileWalManager :=
  waitForDurableLoop 2 m lsn

/-! ## Reading -/

/-- `read_log`. -/
def readLog (m : FileWalManager) (lsn : ℕ) : Except Exn WalRecord :=
  match m.dirty.find? fun r => r.lsn = lsn with
  | some r => .ok r
  | none =>
    match m.flushed.find? fun r => r.lsn = lsn with
    | some r => .ok r
    | none => .error (.runtimeError ("WAL record not found: LSN " ++ toString lsn))

/-- `read_all_logs`. -/
def readAllLogs (m : FileWalManager) : List WalRecord := m.flushed ++ m.dirty

/-- `get_next_lsn`. -/
def getNextLsn (m : FileWalManager) : ℕ := m.nextLsn

section Open

variable (uninit : ℕ → UInt8)

/-- The loop of `read_logs_from_file`. Every round consumes at least one byte,
so there are no more rounds than bytes. -/
def readLogsLoop : ℕ → Bytes → Except Exn (List WalRecord)
  | 0, _ => .ok []
  | rounds + 1, bs =>
    if bs.length = 0 then .ok []
    else
      match readU64Some uninit bs with
      | none => .ok []
      | some (recordSize, rest) =>
        if rest.length < recordSize then .ok []
        else
          match deserialize uninit rest with
          | none => .error (.runtimeError
              "FileWalManager::read_logs_from_file: failed to deserialize a record")
          | some (record, rest) =>
            match readLogsLoop rounds rest with
            | .ok logs => .ok (record :: logs)
            | .error e => .error e

/-- `read_logs_from_file`. -/
def readLogsFromFile (file : LogFile) : Except Exn (List WalRecord) :=
  readLogsLoop uninit file.content.length file.content

/-- The loop of `hydrate_cache` over the files. -/
def hydrateLoop (m : FileWalManager) : List LogFile → Except Exn FileWalManager
  | [] => .ok m
  | file :: files =>
    match readLogsFromFile uninit file with
    | .error e => .error e
    | .ok logs =>
      hydrateLoop
        { m with
          flushed := m.flushed ++ logs
          nextLsn := logs.foldl (fun n r => if r.lsn ≥ n then r.lsn + 1 else n) m.nextLsn }
        files

/-- `hydrate_cache`. -/
def hydrateCache (m : FileWalManager) : Except Exn FileWalManager :=
  match hydrateLoop uninit m (m.dir.mergeSort fun f g => f.firstLsn ≤ g.firstLsn) with
  | .error e => .error e
  | .ok m =>
    let flushed := m.flushed.mergeSort fun r r' => r.lsn ≤ r'.lsn
    .ok { m with
      flushed := flushed
      flushedLsn :=
        match flushed.getLast? with
        | none => m.flushedLsn
        | some r => r.lsn }

/-- The constructor, on a directory that lists its files in the given order. -/
def make (dir : List LogFile) : Except Exn FileWalManager :=
  let dir := if dir.isEmpty then openLogfile dir 1 maxRecordsPerLogfile else dir
  hydrateCache uninit { dir := dir }

end Open

end FileWalManager
