import Deltabase.Storage.EvictingPool

/-!
# The write-ahead rule

A page or an index file is to be written only when the log is durable up to the
LSN it is stamped with. `flush_dirty(max_lsn)` keeps to this: it is called when
the log is durable up to `max_lsn`, and passes over what is stamped later. An
eviction does not: the flusher of the victim asks whether it is dirty and does
not ask for its LSN.

So the rule holds in every run in which no victim is dirty and stamped with an
LSN that is not durable yet (`writeAhead_of_careful`), and a table with more
indexes than the cache holds breaks it with two rows.
-/

/-! ## The rule -/

/-- **Everything on disk is stamped with an LSN of at most `lsn`.** -/
structure Disk.StampedUpTo (io : Disk) (lsn : ℕ) : Prop where
  pages : ∀ id page, io.pages id = some page → page.lastLsn ≤ lsn
  indexFiles : ∀ id file, io.indexFiles id = some file → file.2.lastLsn ≤ lsn

/-- **The write-ahead rule**: nothing on disk is stamped with an LSN that is
not durable. The `flushed_lsn_` of the log manager is the number of durable
records. -/
def EvictingInstance.WriteAhead (db : EvictingInstance) : Prop :=
  db.rest.io.StampedUpTo db.rest.wal.durable

/-- **A call that evicts only what may be written.** Four calls put an entry
into a cache: when the cache is full, its least recently used entry is clean, or
stamped with an LSN that is durable. -/
def PoolCall.Careful (db : EvictingInstance) : PoolCall → Prop
  | getDp id => (db.rest.io.pages id).isSome = true →
      db.dataPages.MayPut DataPage.lastLsn db.rest.wal.durable id
  | createDp _ => db.dataPages.MayPut DataPage.lastLsn db.rest.wal.durable db.rest.clock
  | getTableIndex _ indexId => (db.rest.io.indexFiles indexId).isSome = true →
      db.indexFiles.MayPut IndexFile.lastLsn db.rest.wal.durable indexId
  | createTableIndex _ _ index _ =>
      db.indexFiles.MayPut IndexFile.lastLsn db.rest.wal.durable index.id
  | _ => True

instance (db : EvictingInstance) (c : PoolCall) : Decidable (c.Careful db) := by
  unfold PoolCall.Careful
  cases c <;> infer_instance

/-! ## Writing -/

namespace Disk.StampedUpTo

variable {io : Disk} {lsn lsn' : ℕ}

theorem mono (h : io.StampedUpTo lsn) (hle : lsn ≤ lsn') : io.StampedUpTo lsn' where
  pages id page hpage := (h.pages id page hpage).trans hle
  indexFiles id file hfile := (h.indexFiles id file hfile).trans hle

theorem writePage (h : io.StampedUpTo lsn) {page : DataPage} (hpage : page.lastLsn ≤ lsn) :
    (FileIOManager.writePage io page).StampedUpTo lsn where
  pages id page' hpage' := by
    change Function.update io.pages page.id (some page) id = some page' at hpage'
    rw [Function.update_apply] at hpage'
    split_ifs at hpage' with hid
    · rwa [← Option.some.inj hpage']
    · exact h.pages id page' hpage'
  indexFiles := h.indexFiles

/-- An index file is written, in a directory that is there or is made. -/
theorem updateIf (h : io.StampedUpTo lsn) {headless : List Bytes} {id : IndexId}
    {path : Bytes × Bytes} {file : IndexFile} (hfile : file.lastLsn ≤ lsn) :
    ({ io with
      headless := headless
      indexFiles := Function.update io.indexFiles id (some (path, file)) } :
      Disk).StampedUpTo lsn where
  pages := h.pages
  indexFiles id' file' hfile' := by
    change Function.update io.indexFiles id (some (path, file)) id' = some file' at hfile'
    rw [Function.update_apply] at hfile'
    split_ifs at hfile' with hid
    · rwa [← Option.some.inj hfile']
    · exact h.indexFiles id' file' hfile'

theorem overwriteIf (h : io.StampedUpTo lsn) {file : IndexFile} (hfile : file.lastLsn ≤ lsn) :
    (EvictingInstance.overwriteIf io file).StampedUpTo lsn := by
  unfold EvictingInstance.overwriteIf FileIOManager.writeIndexFile
  cases io.indexFiles file.indexId with
  | none => exact h
  | some old => exact h.updateIf hfile

/-- Writing one value after another. -/
theorem foldl {α : Type} {write : Disk → α → Disk} (stamp : α → ℕ)
    (hwrite : ∀ {io : Disk} {x}, io.StampedUpTo lsn → stamp x ≤ lsn → (write io x).StampedUpTo lsn)
    {xs : List α} (hxs : ∀ x ∈ xs, stamp x ≤ lsn) (h : io.StampedUpTo lsn) :
    (xs.foldl write io).StampedUpTo lsn := by
  induction xs generalizing io with
  | nil => exact h
  | cons x xs ih =>
    exact ih (fun y hy => hxs y (List.mem_cons_of_mem x hy)) (hwrite h (hxs x List.mem_cons_self))

end Disk.StampedUpTo

namespace EvictingInstance

variable {db : EvictingInstance}

/-- `flush_dirty(max_lsn)` passes over what is stamped later. -/
theorem le_of_mem_dueValues {κ α : Type} {lsn : α → ℕ} {maxLsn : ℕ} {c : Cache κ α} {x : α}
    (h : x ∈ dueValues lsn maxLsn c) : lsn x ≤ maxLsn := by
  obtain ⟨entry, hentry, rfl⟩ := List.mem_map.mp h
  have hdue := (List.mem_filter.mp hentry).2
  unfold CacheEntry.due at hdue
  exact of_decide_eq_true (Bool.and_eq_true_iff.mp hdue).2

/-- **`flush_dirty(max_lsn)`** keeps to the rule when the log is durable up to
`max_lsn`. -/
theorem WriteAhead.flushDirty (h : db.WriteAhead) {maxLsn : ℕ}
    (hmax : maxLsn ≤ db.rest.wal.durable) : (flushDirty maxLsn db).WriteAhead := by
  have hpages := Disk.StampedUpTo.foldl DataPage.lastLsn (fun h hx => h.writePage hx)
    (fun page hpage => (le_of_mem_dueValues (c := db.dataPages) hpage).trans hmax) h
  exact Disk.StampedUpTo.foldl IndexFile.lastLsn (fun h hx => h.overwriteIf hx)
    (fun file hfile => (le_of_mem_dueValues (c := db.indexFiles) hfile).trans hmax) hpages

/-- Putting a page into the pool. -/
theorem WriteAhead.putDp (h : db.WriteAhead) {id : DataPageId} (page : DataPage)
    (hput : db.dataPages.MayPut DataPage.lastLsn db.rest.wal.durable id) :
    (putDp id page db).WriteAhead := by
  unfold EvictingInstance.putDp flushDp
  cases hwritten : (db.dataPages.put id page).1 with
  | none => exact h
  | some written => exact Disk.StampedUpTo.writePage h (Cache.lsn_le_of_put hput hwritten)

/-- Putting an index file into the pool. -/
theorem WriteAhead.putIf (h : db.WriteAhead) {id : IndexId} (file : IndexFile)
    (hput : db.indexFiles.MayPut IndexFile.lastLsn db.rest.wal.durable id) :
    (putIf id file db).WriteAhead := by
  unfold EvictingInstance.putIf flushIf
  cases hwritten : (db.indexFiles.put id file).1 with
  | none => exact h
  | some written => exact Disk.StampedUpTo.overwriteIf h (Cache.lsn_le_of_put hput hwritten)

/-- What a call changes outside the caches. -/
theorem WriteAhead.of_rest {db' : EvictingInstance} (h : db.WriteAhead)
    (hio : db'.rest.io = db.rest.io) (hdurable : db.rest.wal.durable ≤ db'.rest.wal.durable) :
    db'.WriteAhead := by
  unfold WriteAhead
  rw [hio]
  exact h.mono hdurable

/-- The calls that leave the caches alone. -/
theorem WriteAhead.lift (h : db.WriteAhead) {α : Type} (m : Prog α)
    (hm : ∀ rest : StdDbInstance,
      Ensures m rest (fun _ rest' => rest'.io = rest.io ∧ rest.wal.durable ≤ rest'.wal.durable)
        fun _ rest' => rest'.io = rest.io ∧ rest.wal.durable ≤ rest'.wal.durable) :
    Ensures (EvictingProg.lift m) db (fun _ db' => db'.WriteAhead) fun _ db' => db'.WriteAhead := by
  have hrest := hm db.rest
  unfold Ensures EvictingProg.lift at *
  cases hrun : m db.rest with
  | ok a rest =>
    rw [hrun] at hrest
    exact h.of_rest hrest.1 hrest.2
  | error e rest =>
    rw [hrun] at hrest
    exact h.of_rest hrest.1 hrest.2

theorem WriteAhead.execGetDp (h : db.WriteAhead) {id : DataPageId}
    (hcareful : (PoolCall.getDp id).Careful db) :
    Ensures (PoolCall.execGetDp id) db (fun _ db' => db'.WriteAhead)
      fun _ db' => db'.WriteAhead := by
  unfold Ensures PoolCall.execGetDp
  cases db.dataPages.find id with
  | some entry => exact h
  | none =>
    unfold FileIOManager.readDataPage
    cases hpage : db.rest.io.pages id with
    | none => exact h
    | some page => exact h.putDp page.reread (hcareful (by rw [hpage]; rfl))

theorem WriteAhead.execCreateDp (h : db.WriteAhead) {mt : MetaTable}
    (hcareful : (PoolCall.createDp mt).Careful db) :
    Ensures (PoolCall.execCreateDp mt) db (fun _ db' => db'.WriteAhead)
      fun _ db' => db'.WriteAhead := by
  unfold Ensures PoolCall.execCreateDp
  cases hpage : FileIOManager.createPage db.rest.io mt db.rest.clock with
  | error e =>
    simp only [hpage]
    exact h
  | ok page =>
    simp only [hpage]
    have hclock : ({ db with
        rest := { db.rest with clock := db.rest.generator.next db.rest.clock } } :
        EvictingInstance).WriteAhead := h
    exact hclock.putDp page hcareful

theorem WriteAhead.execGetTableIndex (h : db.WriteAhead) {tableId : TableId} {indexId : IndexId}
    (hcareful : (PoolCall.getTableIndex tableId indexId).Careful db) :
    Ensures (PoolCall.execGetTableIndex tableId indexId) db (fun _ db' => db'.WriteAhead)
      fun _ db' => db'.WriteAhead := by
  unfold Ensures PoolCall.execGetTableIndex
  cases db.rest.pool.indexFilesPerTable tableId with
  | none => exact h
  | some ids =>
    by_cases hlisted : indexId ∉ ids
    · simp only [if_pos hlisted]
      exact h
    · simp only [if_neg hlisted]
      cases db.indexFiles.find indexId with
      | some entry => exact h
      | none =>
        unfold FileIOManager.readIndexFile
        cases hfile : db.rest.io.indexFiles indexId with
        | none => exact h
        | some file => exact h.putIf file.2.reread (hcareful (by rw [hfile]; rfl))

theorem WriteAhead.execCreateTableIndex (h : db.WriteAhead) {schemaName : Bytes}
    {table : MetaTable} {index : MetaIndex} {lastLsn : ℕ}
    (hcareful : (PoolCall.createTableIndex schemaName table index lastLsn).Careful db) :
    Ensures (PoolCall.execCreateTableIndex schemaName table index lastLsn) db
      (fun _ db' => db'.WriteAhead) fun _ db' => db'.WriteAhead := by
  have hcreate : ({ db with rest := { db.rest with
      io := (FileIOManager.createIndexFile db.rest.io schemaName table.name index).2 } } :
      EvictingInstance).WriteAhead :=
    Disk.StampedUpTo.updateIf h (Nat.zero_le _)
  exact WriteAhead.putIf hcreate _ hcareful

/-- **`commit`** waits for the log before it writes anything. -/
theorem WriteAhead.execCommit (h : db.WriteAhead) :
    Ensures PoolCall.execCommit db (fun _ db' => db'.WriteAhead) fun _ db' => db'.WriteAhead := by
  have hlog : Ensures Transaction.commitLog db.rest
      (fun _ rest => rest.io = db.rest.io ∧ db.rest.wal.durable ≤ rest.wal.durable
        ∧ rest.txn.lastLsn ≤ rest.wal.durable)
      fun _ rest => rest = db.rest := by
    unfold Transaction.commitLog
    rw [ensures_bind]
    show Ensures (if db.rest.txn.state ≠ .active then _ else _) db.rest _ _
    split_ifs with hactive
    · rfl
    · -- the LSN of the commit record is the number of records
      set lsn := db.rest.wal.kept.length + 1 with hlsn
      have hkept : (db.rest.wal.kept ++ [FileWalManager.stamp
          { prevLsn := db.rest.txn.lastLsn, txnId := db.rest.txn.id, body := .commitTxn }
          lsn]).length = lsn := by
        rw [List.length_append]
        rfl
      refine ⟨rfl, ?_, ?_⟩
      · show db.rest.wal.durable ≤ if lsn ≤ db.rest.wal.durable then db.rest.wal.durable else _
        split_ifs with hle
        · exact le_rfl
        · exact (not_le.mp hle).le.trans hkept.ge
      · show lsn ≤ if lsn ≤ db.rest.wal.durable then db.rest.wal.durable else _
        split_ifs with hle
        · exact hle
        · exact hkept.ge
  unfold Ensures PoolCall.execCommit
  unfold Ensures at hlog
  cases hrun : Transaction.commitLog db.rest with
  | error e rest =>
    rw [hrun] at hlog
    change rest = db.rest at hlog
    subst hlog
    exact h
  | ok a rest =>
    rw [hrun] at hlog
    obtain ⟨hio, hdurable, hlsn⟩ := hlog
    have hwaited : ({ db with rest := rest } : EvictingInstance).WriteAhead :=
      h.of_rest hio hdurable
    exact hwaited.flushDirty hlsn

/-- **A careful call keeps to the rule.** -/
theorem WriteAhead.after (h : db.WriteAhead) {c : PoolCall} (hcareful : c.Careful db) :
    (c.after db).WriteAhead := by
  have hexec : Ensures c.exec db (fun _ db' => db'.WriteAhead) fun _ db' => db'.WriteAhead := by
    cases c with
    | catalog => exact h.lift (PoolCall.plain .catalog) fun rest => ⟨rfl, le_rfl⟩
    | saveTable mt => exact h.lift (StdDbInstance.saveTable mt) fun rest => ⟨rfl, le_rfl⟩
    | makeId => exact h.lift (PoolCall.plain .makeId) fun rest => ⟨rfl, le_rfl⟩
    | begin => exact h.lift (PoolCall.plain .begin) fun rest => ⟨rfl, le_rfl⟩
    | appendLog body =>
      refine h.lift (Transaction.appendLog body) fun rest => ?_
      unfold Transaction.appendLog
      rw [ensures_bind]
      show Ensures (if rest.txn.state ≠ .active then _ else _) rest _ _
      split_ifs
      · exact ⟨rfl, le_rfl⟩
      · exact ⟨rfl, le_rfl⟩
    | getLastLsn => exact h.lift (PoolCall.plain .getLastLsn) fun rest => ⟨rfl, le_rfl⟩
    | commit => exact h.execCommit
    | tablePages tableId =>
      exact h.lift (PoolCall.plain (.tablePages tableId)) fun rest => ⟨rfl, le_rfl⟩
    | getDp id => exact h.execGetDp hcareful
    | createDp mt => exact h.execCreateDp hcareful
    | derefDp id =>
      show Ensures (PoolCall.execDerefDp id) db _ _
      unfold Ensures PoolCall.execDerefDp
      cases db.dataPages.find id <;> exact h
    | modifyDp id f =>
      show Ensures (PoolCall.execModifyDp id f) db _ _
      unfold Ensures PoolCall.execModifyDp
      cases db.dataPages.find id <;> exact h
    | dirtyDp id => exact h
    | getTableIndex tableId indexId => exact h.execGetTableIndex hcareful
    | assignIf indexId file =>
      show Ensures (PoolCall.execAssignIf indexId file) db _ _
      unfold Ensures PoolCall.execAssignIf
      cases db.indexFiles.find indexId <;> exact h
    | dirtyIf indexId => exact h
    | setIfLsn indexId lastLsn =>
      show Ensures (PoolCall.execSetIfLsn indexId lastLsn) db _ _
      unfold Ensures PoolCall.execSetIfLsn
      cases db.indexFiles.find indexId <;> exact h
    | createTableIndex schemaName table index lastLsn => exact h.execCreateTableIndex hcareful
  unfold Ensures at hexec
  unfold PoolCall.after
  cases hrun : c.exec db with
  | ok a db' =>
    rw [hrun] at hexec
    exact hexec
  | error e db' =>
    rw [hrun] at hexec
    exact hexec

end EvictingInstance

/-! ## Runs -/

/-- The calls of scripts that are run one after another, each from the state in
which the one before it has ended, with a result or an exception. -/
def sessionTrace : List (Script Unit) → EvictingInstance → List (EvictingInstance × PoolCall)
  | [], _ => []
  | script :: scripts, db => script.trace db ++ sessionTrace scripts (script.after db)

namespace Script

variable {α : Type} {db : EvictingInstance}

theorem run_call_ok {c : PoolCall} {k : c.Answer → Script α} {answer : c.Answer}
    {db' : EvictingInstance} (hrun : c.exec db = .ok answer db') :
    (call c k).trace db = (db, c) :: (k answer).trace db'
      ∧ (call c k).after db = (k answer).after db' ∧ c.after db = db' := by
  have hexec : (call c k).exec db = (k answer).exec db' := by
    show EStateM.bind c.exec (fun answer => (k answer).exec) db = _
    unfold EStateM.bind
    rw [hrun]
  unfold after PoolCall.after
  rw [hexec, trace, hrun]
  exact ⟨rfl, rfl, rfl⟩

theorem run_call_error {c : PoolCall} {k : c.Answer → Script α} {e : Exn} {db' : EvictingInstance}
    (hrun : c.exec db = .error e db') :
    (call c k).trace db = [(db, c)] ∧ (call c k).after db = db' ∧ c.after db = db' := by
  have hexec : (call c k).exec db = .error e db' := by
    show EStateM.bind c.exec (fun answer => (k answer).exec) db = _
    unfold EStateM.bind
    rw [hrun]
  unfold after PoolCall.after
  rw [hexec, trace, hrun]
  exact ⟨rfl, rfl, rfl⟩

/-- **A script whose calls are careful** keeps to the rule, at every call and in
the end. -/
theorem writeAhead_trace (script : Script α) (h : db.WriteAhead)
    (hcareful : ∀ step ∈ script.trace db, step.2.Careful step.1) :
    (∀ step ∈ script.trace db, (step.2.after step.1).WriteAhead)
      ∧ (script.after db).WriteAhead := by
  induction script generalizing db with
  | done a => exact ⟨fun step hstep => (List.not_mem_nil hstep).elim, h⟩
  | fail e => exact ⟨fun step hstep => (List.not_mem_nil hstep).elim, h⟩
  | call c k ih =>
    cases hrun : c.exec db with
    | error e db' =>
      obtain ⟨htrace, hend, hafter⟩ := run_call_error (k := k) hrun
      rw [htrace] at hcareful ⊢
      have hcall := h.after (hcareful (db, c) (List.mem_singleton_self _))
      refine ⟨fun step hstep => List.mem_singleton.mp hstep ▸ hcall, ?_⟩
      rw [hend, ← hafter]
      exact hcall
    | ok answer db' =>
      obtain ⟨htrace, hend, hafter⟩ := run_call_ok (k := k) hrun
      rw [htrace] at hcareful ⊢
      have hcall := h.after (hcareful (db, c) List.mem_cons_self)
      obtain ⟨hrest, hend'⟩ := ih answer (hafter ▸ hcall)
        fun step hstep => hcareful step (List.mem_cons_of_mem _ hstep)
      refine ⟨fun step hstep => ?_, hend ▸ hend'⟩
      rcases List.mem_cons.mp hstep with rfl | hstep
      · exact hcall
      · exact hrest step hstep

end Script

/-- **The write-ahead rule holds in every run in which no call evicts a dirty
entry whose LSN is not durable.** -/
theorem writeAhead_of_careful {db : EvictingInstance} (scripts : List (Script Unit))
    (h : db.WriteAhead) (hcareful : ∀ step ∈ sessionTrace scripts db, step.2.Careful step.1) :
    ∀ step ∈ sessionTrace scripts db, (step.2.after step.1).WriteAhead := by
  induction scripts generalizing db with
  | nil => exact fun step hstep => (List.not_mem_nil hstep).elim
  | cons script scripts ih =>
    obtain ⟨hfirst, hend⟩ := script.writeAhead_trace h
      fun step hstep => hcareful step (List.mem_append_left _ hstep)
    intro step hstep
    rcases List.mem_append.mp hstep with hstep | hstep
    · exact hfirst step hstep
    · exact ih hend (fun step hstep => hcareful step (List.mem_append_right _ hstep)) step hstep

/-! ## A table with more indexes than the cache holds -/

/-- A statement: its operations on rows, in a transaction. -/
def statement (calls : List RowCall) : Script Unit := do
  Script.one .begin
  calls.forM RowCall.script
  Script.one .commit

/-- The ids of a hundred and one indexes. -/
def manyIds : List IndexId := (List.range 101).map fun i => i + 10

/-- An instance that has been opened on a table with a hundred and one indexes;
its log is durable up to LSN 310. -/
def manyIndexes : EvictingInstance where
  rest :=
    { oneTable with
      io := { oneTable.io with
        indexFiles := fun id =>
          if id ∈ manyIds then some (([115], [116]), { IndexFile.create id with lastLsn := 310 })
          else none }
      wal :=
        { kept := (List.range 310).map fun i =>
            { lsn := i + 1, prevLsn := 0, txnId := 0, body := .commitTxn }
          durable := 310 }
      pool := { indexFilesPerTable := fun id => if id = 2 then some manyIds else none }
      catalog :=
        { schemas := oneTable.catalog.schemas
          tables := oneTable.catalog.tables.map fun mt => { mt with
            indexes := manyIds.map fun id =>
              { id := id, tableId := 2, columnId := 3, name := [105], keyType := .integer,
                isUnique := false } }
          tables_nodup := by simp [oneTable]
          schemas_nodup := by simp [oneTable] }
      clock := 200 }

theorem writeAhead_manyIndexes : manyIndexes.WriteAhead where
  pages _ _ hpage := nomatch hpage
  indexFiles id file hfile := by
    change (if id ∈ manyIds then _ else none) = some file at hfile
    split_ifs at hfile
    rw [← Option.some.inj hfile]
    exact le_rfl

/-- Whether an index file is on disk with an LSN that is not durable. -/
def tooEarly (indexId : IndexId) (db : EvictingInstance) : Bool :=
  (db.rest.io.indexFiles indexId).any fun file => decide (db.rest.wal.durable < file.2.lastLsn)

theorem not_writeAhead_of_tooEarly {indexId : IndexId} {db : EvictingInstance}
    (h : tooEarly indexId db = true) : ¬ db.WriteAhead := by
  intro hrule
  unfold tooEarly at h
  cases hfile : db.rest.io.indexFiles indexId with
  | none =>
    rw [hfile] at h
    cases h
  | some file =>
    rw [hfile] at h
    exact absurd (hrule.indexFiles indexId file hfile) (not_le.mpr (of_decide_eq_true h))

/-- **The second row of an insert breaks the rule.** The first one leaves all
index files in the cache dirty and stamped; loading the first index again for
the second row evicts one of them. -/
theorem writeAhead_broken :
    ¬ ∀ (db : EvictingInstance) (statements : List (List RowCall)), db.WriteAhead →
      ∀ step ∈ sessionTrace (statements.map statement) db, (step.2.after step.1).WriteAhead := by
  intro h
  have hrun := h manyIndexes [[insertOne, insertOne]] writeAhead_manyIndexes
  have hany : ((sessionTrace ([[insertOne, insertOne]].map statement) manyIndexes).any
      fun step => tooEarly 11 (step.2.after step.1)) = true := by
    set_option maxRecDepth 100000 in decide +kernel
  obtain ⟨step, hstep, hearly⟩ := List.any_eq_true.mp hany
  exact not_writeAhead_of_tooEarly hearly (hrun step hstep)

/-- With one row the entries that are evicted carry the LSN of an earlier
statement. -/
theorem writeAhead_insertOne : (sessionTrace [statement [insertOne]] manyIndexes).Forall
    fun step => (step.2.after step.1).WriteAhead := by
  refine List.forall_iff_forall_mem.mpr ?_
  refine writeAhead_of_careful [statement [insertOne]] writeAhead_manyIndexes ?_
  have hall : ((sessionTrace [statement [insertOne]] manyIndexes).all
      fun step => decide (step.2.Careful step.1)) = true := by
    set_option maxRecDepth 100000 in decide +kernel
  exact fun step hstep => of_decide_eq_true (List.all_eq_true.mp hall step hstep)
