import Deltabase.Recovery.CleanRestarts
import Deltabase.Recovery.PageRoom
import Deltabase.Recovery.SessionSchemas

/-!
# Crashes in a commit

When `wait_for_durable` has returned, the records of a transaction are kept and
its pages are still to be written. A crash then leaves some of them written and
others not, in any combination, and recovery is to make up for the difference.

It does so for the rows, which are in the log, and not for the links between
pages, which are not. A page that was linked to a new one and has not been
written ends the chain where it ended before; recovery makes both pages, and a
scan reaches one of the two ends of the chain only. Redo selects a row by its
id, too, and takes the first row that has it. And redo ends with an exception at
a table when the directory of a schema is still without its meta file, which an
index of a table in a new schema has made.

A crash that leaves no such page and no such directory behind is harmless
(`HarmlessCrash`), and the instance that is opened afterwards sees every table as
it was. Nothing it has is marked, so what has been said of clean restarts goes on
from there.
-/

namespace StdDbInstance

open BufferPool Transaction FileIOManager RecoveryManager RowView History

variable {db db₁ db' : StdDbInstance}

/-! ## The crash -/

/-- **What a crash leaves** when the commit is durable: of the pages and index
files that `flush_dirty` would write, some have been written. -/
def crashed (pages : DataPageId → Bool) (files : IndexId → Bool) (db : StdDbInstance) :
    StdDbInstance :=
  flushSome db.txn.lastLsn pages files db

/-- **A crash that is harmless**, in the state in which the commit is durable:
every page that is marked and not written has the link its file has, none if it
has no file, and rows with distinct ids; and every schema directory without its
meta file is mended before a table is created. -/
structure HarmlessCrash (pages : DataPageId → Bool) (db : StdDbInstance) : Prop where
  links : ∀ id p, db.page id = some p → db.dirtyPage id = true → pages id = false →
    ((db.io.pages id).map DataPage.next).getD UUID.null = p.next
      ∧ (p.rows.map DataRow.id).Nodup
  mended : Mended db.wal.kept db.io

/-- **The database is opened again** after a crash: there was no time to write
the catalog. -/
def Reopens (db db' : StdDbInstance) : Prop := Opens db.io db.keptLog db.clock db'

/-- **The commit is durable**, and its pages are still to be written. -/
structure Committed (db : StdDbInstance) : Prop where
  resting : Resting db.rowView
  durable : db.wal.kept.length ≤ db.wal.durable
  lastLsn : db.wal.kept.length = db.txn.lastLsn

/-- A statement of an instance that is settled gets that far. -/
theorem Settled.committed (h : Settled db) {st : Statement} (hanalyze : st.analyze db = true)
    (hnext : st.nextLog db = .ok () db₁) : Committed db₁ := by
  have hensures : Ensures st.nextLog db (fun _ db' => Committed db') fun _ _ => True :=
    h.ensures_statement hanalyze fun db₂ hrunning =>
      (resting_commitLog hrunning).mono_ok fun _ db₃ ⟨hrest, hdurable, hlsn⟩ =>
        ⟨hrest, hdurable, hlsn⟩
  exact hensures.of_ok hnext

/-- **Recovery can restore the pages** that a harmless crash leaves. -/
theorem Committed.redoable (h : Committed db) {pages : DataPageId → Bool} {files : IndexId → Bool}
    (hharmless : HarmlessCrash pages db) : (crashed pages files db).rowView.Redoable := by
  unfold crashed
  rw [rowView_flushSome]
  intro id p hp hdirty
  change (if db.written db.txn.lastLsn pages id then false else db.dirtyPage id) = true at hdirty
  show ((if db.written db.txn.lastLsn pages id then db.page id else db.io.pages id).map
    DataPage.next).getD UUID.null = p.next ∧ _
  split_ifs at hdirty ⊢ with hwritten
  have hpages : pages id = false := by
    rw [← written_of_dirty h.resting h.lastLsn hdirty pages]
    exact Bool.eq_false_iff.mpr hwritten
  exact hharmless.links id p hp hdirty hpages

/-- The files that a crash leaves come of the log. -/
theorem Committed.leaves (h : Committed db) (pages : DataPageId → Bool) (files : IndexId → Bool) :
    Resting (crashed pages files db).rowView ∧ (crashed pages files db).keptLog = db.wal
      ∧ FilesOf db.wal.kept (crashed pages files db).io := by
  have hrest : Resting (crashed pages files db).rowView := by
    unfold crashed
    rw [rowView_flushSome]
    exact h.resting.writePages _
  exact ⟨hrest, keptLog_eq h.durable, filesOf_io hrest⟩

/-- What is in the pool has not changed. -/
theorem tableRows_crashed (pages : DataPageId → Bool) (files : IndexId → Bool)
    (db : StdDbInstance) (t : TableId) :
    (crashed pages files db).tableRows t = db.tableRows t := by
  show (crashed pages files db).rowView.rows t = _
  unfold crashed
  rw [rowView_flushSome]
  rfl

/-- **Recovery redoes the log** over the files, and goes through where every schema
directory is mended in time. -/
theorem Committed.recovers (h : Committed db) (hmended : Mended db.wal.kept db.io)
    (pages : DataPageId → Bool) (files : IndexId → Bool) :
    ∃ disk, db.wal.kept.foldlM redoRecord (crashed pages files db).io = .ok disk
      ∧ Redone db.wal.kept db.wal.kept (crashed pages files db).io disk
      ∧ ∀ visit : List (TxnId × ℕ) → List (TxnId × ℕ), (∀ active, (visit active).Perm active) →
        recover 0 visit (crashed pages files db).io
          (crashed pages files db).keptLog = .ok (disk, db.wal) := by
  obtain ⟨hrest, hkept, hfiles⟩ := h.leaves pages files
  have hlog : InstanceLog db.wal.kept := h.resting.logged.catalog.log
  obtain ⟨disk, hfold, hredone⟩ := Redone.foldlM ⟨hfiles, hmended⟩ hlog hlog List.prefix_rfl
  refine ⟨disk, hfold, hredone, fun visit hvisit => ?_⟩
  rw [hkept]
  exact (recover_eq_ok hvisit hlog h.resting.committed).mpr ⟨hfold, rfl⟩

/-- **A harmless crash loses nothing.** -/
theorem Committed.reopen (h : Committed db) {pages : DataPageId → Bool} {files : IndexId → Bool}
    (hharmless : HarmlessCrash pages db)
    (hopens : Reopens (crashed pages files db) db') :
    Settled db' ∧ Found (crashed pages files db).rowView db'.rowView := by
  obtain ⟨hrest, hkept, hleft⟩ := h.leaves pages files
  unfold Reopens at hopens
  rw [hkept] at hopens
  obtain ⟨hrest', hfound⟩ := hrest.reopen (h.redoable hharmless) rfl hleft le_rfl hopens
  have hwal : db'.wal = db.wal := hfound.wal
  exact ⟨⟨hrest', hwal ▸ h.durable, hfound.clean⟩, hfound⟩

/-! ## What is found -/

/-- **A table is looked up as before** in an instance that found the tables. -/
theorem LooksUp.found {tableName schemaName : Bytes} {mt : MetaTable}
    (hlook : LooksUp db tableName schemaName mt) (h : Logged db.wal.kept Set.univ db.rowView)
    (h' : Logged db'.wal.kept Set.univ db'.rowView) (hfound : Found db.rowView db'.rowView) :
    LooksUp db' tableName schemaName mt := by
  have hwal : db'.wal = db.wal := hfound.wal
  rw [hwal] at h'
  have hlog := h.catalog.log
  obtain ⟨ms, hms, hmt⟩ := id hlook
  have hname := List.find?_some hms
  have hkeys := List.find?_some hmt
  rw [decide_eq_true_eq] at hname hkeys
  obtain ⟨htable, hschema⟩ := hkeys
  have hcreated : ms ∈ createdSchemas db.wal.kept :=
    (h.catalog.schemas ms).mp (List.mem_of_find?_eq_some hms)
  refine ⟨ms, ?_, ?_⟩
  · unfold CatalogCache.getSchema
    cases hfind : db'.catalog.schemas.find? fun schema => schema.name = schemaName with
    | none =>
      refine absurd (decide_eq_true hname) (List.find?_eq_none.mp hfind ms ?_)
      exact (h'.catalog.schemas ms).mpr hcreated
    | some ms' =>
      have hcreated' := (h'.catalog.schemas ms').mp (List.mem_of_find?_eq_some hfind)
      have hname' := List.find?_some hfind
      rw [decide_eq_true_eq] at hname'
      rw [(hlog.schema_unique ms' hcreated' ms hcreated).2 (hname'.trans hname.symm)]
  · have hentry : db'.rowView.entry mt.id = some mt := by
      rw [hfound.entry]
      exact hlook.entry
    unfold CatalogCache.getTable
    cases hfind : db'.catalog.tables.find? fun table =>
        table.name = tableName ∧ table.schemaId = ms.id with
    | none =>
      refine absurd (decide_eq_true ⟨htable, hschema⟩) (List.find?_eq_none.mp hfind mt ?_)
      exact List.mem_of_find?_eq_some hentry
    | some mt' =>
      have hkeys' := List.find?_some hfind
      rw [decide_eq_true_eq] at hkeys'
      obtain ⟨htable', hschema'⟩ := hkeys'
      have hentry' : db'.rowView.entry mt'.id = some mt' :=
        entry_of_mem (v := db'.rowView) (List.mem_of_find?_eq_some hfind)
      obtain ⟨t, ht, hid, hsame⟩ := h'.catalog.exists_created hentry
      obtain ⟨t', ht', hid', hsame'⟩ := h'.catalog.exists_created hentry'
      have heq : t' = t := (hlog.table_unique t' ht' t ht).2
        (by rw [hsame'.2.2, hsame.2.2, hschema', hschema])
        (by rw [hsame'.2.1, hsame.2.1, htable', htable])
      have hids : mt'.id = mt.id := by rw [← hid', ← hid, heq]
      rw [hids, hentry] at hentry'
      exact hentry'.symm

/-- **A scan finds the rows** that were there before the database was opened
again. -/
theorem seqScan_of_found {tableName schemaName : Bytes} {mt : MetaTable}
    (hlook : LooksUp db tableName schemaName mt) (h : Logged db.wal.kept Set.univ db.rowView)
    (h' : Settled db') (hfound : Found db.rowView db'.rowView) :
    ∃ enough, ∀ rounds ≥ enough, ∃ rows db'',
      seqScan rounds tableName schemaName db' = .ok rows db''
        ∧ rows.Perm (live (db.tableRows mt.id)) := by
  have hlogged := h'.resting.logged
  have hlook' := hlook.found h hlogged hfound
  obtain ⟨enough, hscan⟩ := seqScan_of_chained hlogged.pages.ok
    (fun _ hid => hlogged.pages.pos trivial hid) (hlogged.pages.chains mt.id trivial) hlook'
  refine ⟨enough, fun rounds hrounds => ?_⟩
  obtain ⟨rows, db'', hok, hrows⟩ := hscan rounds hrounds
  refine ⟨rows, db'', hok, hrows.trans ?_⟩
  exact (hfound.rows_perm mt.id).filter _

/-! ## Runs -/

/-- **What happens to a database**, with crashes: in the commit of a statement,
when these pages and index files have been written. -/
inductive CrashEvent where
  | calm (e : Event)
  | crash (st : Statement) (pages : DataPageId → Bool) (files : IndexId → Bool)

/-- **The commit of a statement is durable**; the statement gives directories the
names of directories, and the pool has had room. -/
structure HousedCommit (db : StdDbInstance) (st : Statement) (db₁ : StdDbInstance) : Prop where
  analyze : st.analyze db = true
  plain : PlainNames st
  next : st.nextLog db = .ok () db₁
  room : HasRoom db₁

/-- A statement or a clean restart, or a crash that is harmless and is followed by a
recovery. -/
inductive OccursHarmlessly (db : StdDbInstance) : CrashEvent → StdDbInstance → Prop
  | calm {e : Event} {db' : StdDbInstance} (h : Housed db e db') :
      OccursHarmlessly db (.calm e) db'
  | crash {st : Statement} {pages : DataPageId → Bool} {files : IndexId → Bool}
      {db₁ db' : StdDbInstance} (hcommit : HousedCommit db st db₁)
      (hharmless : HarmlessCrash pages db₁) (hopens : Reopens (crashed pages files db₁) db') :
      OccursHarmlessly db (.crash st pages files) db'

theorem Settled.crash_step (h : Settled db) {e : CrashEvent} (hstep : OccursHarmlessly db e db') :
    Settled db' := by
  cases hstep with
  | calm hstep => exact h.step hstep.occurs
  | crash hcommit hharmless hopens =>
    exact ((h.committed hcommit.analyze hcommit.next).reopen hharmless hopens).1

/-- **Runs with harmless crashes** leave an instance at rest. -/
theorem Settled.crash_run {generator : UUIDGenerator} {es : List CrashEvent}
    (hrun : Run OccursHarmlessly { generator } es db) : Settled db :=
  hrun.invariant (fun _ _ _ h hstep => h.crash_step hstep) (settled_new generator)

/-- **Every committed row is found after a crash**: recovery returns, and a scan
of a table of the instance that crashed returns its live rows, each once. -/
def RowsSurvive (pages : DataPageId → Bool) (files : IndexId → Bool) (db₁ : StdDbInstance) :
    Prop :=
  (∀ visit : List (TxnId × ℕ) → List (TxnId × ℕ), (∀ active, (visit active).Perm active) →
    ∃ s, recover 0 visit (crashed pages files db₁).io (crashed pages files db₁).keptLog = .ok s)
  ∧ ∀ db', Reopens (crashed pages files db₁) db' → ∀ tableName schemaName mt,
    LooksUp db₁ tableName schemaName mt → ∃ enough, ∀ rounds ≥ enough, ∃ rows db'',
      seqScan rounds tableName schemaName db' = .ok rows db''
        ∧ rows.Perm (live (db₁.tableRows mt.id))

/-- **Rows survive crashes that are harmless.** In every run of statements,
clean restarts and harmless crashes, and for every crash after it that is
harmless. -/
theorem rowsSurvive_of_harmless {generator : UUIDGenerator} {es : List CrashEvent}
    (hrun : Run OccursHarmlessly { generator } es db)
    {st : Statement} (hcommit : HousedCommit db st db₁) {pages : DataPageId → Bool}
    (files : IndexId → Bool) (hharmless : HarmlessCrash pages db₁) :
    RowsSurvive pages files db₁ := by
  have hcommitted := (Settled.crash_run hrun).committed hcommit.analyze hcommit.next
  obtain ⟨disk, -, -, hrecover⟩ := hcommitted.recovers hharmless.mended pages files
  refine ⟨fun visit hvisit => ⟨_, hrecover visit hvisit⟩,
    fun db' hopens tableName schemaName mt hlook => ?_⟩
  obtain ⟨hsettled, hfound⟩ := hcommitted.reopen hharmless hopens
  rw [← tableRows_crashed pages files db₁ mt.id]
  have hlook' : LooksUp (crashed pages files db₁) tableName schemaName mt := hlook
  exact seqScan_of_found hlook' (hcommitted.leaves pages files).1.logged hsettled hfound

/-! ## A commit that is redone -/

/-- The first row is committed, and its page is still to be written. -/
def oneRowCommitted : StdDbInstance := ran insert₁.nextLog (createTable₁.after secondSession)

/-- Nothing has been written. -/
theorem rowsSurvive_oneRow :
    RowsSurvive (fun _ => false) (fun _ => false) oneRowCommitted := by
  have hrun : Run OccursHarmlessly {}
      [.calm (.execute createSchema₁), .calm .restart, .calm (.execute createTable₁)]
      (createTable₁.after secondSession) :=
    .cons (.calm (Statement.housed_of_returns (by decide +kernel) plainNames_createSchema₁
        (by decide +kernel)))
      (.cons (.calm ⟨occurs_secondSession, trivial, by decide +kernel⟩)
        (.single (.calm (Statement.housed_of_returns (by decide +kernel) plainNames_createTable₁
          (by decide +kernel)))))
  have hcommit : HousedCommit (createTable₁.after secondSession) insert₁ oneRowCommitted :=
    ⟨by decide +kernel, trivial, eq_ok_of_succeeds (by decide +kernel), by decide +kernel⟩
  have hcommitted := (Settled.crash_run hrun).committed hcommit.analyze hcommit.next
  have hlinks : ∀ id < oneRowCommitted.clock, ∀ p ∈ oneRowCommitted.page id,
      ((oneRowCommitted.io.pages id).map DataPage.next).getD UUID.null = p.next
        ∧ (p.rows.map DataRow.id).Nodup := by
    decide +kernel
  exact rowsSurvive_of_harmless hrun hcommit _
    ⟨fun id p hp _ _ => hlinks id (hcommitted.resting.logged.pages.ok.older id p hp) p hp,
      mended_of_nil (by decide +kernel)⟩

/-! ## What there is to list

A directory is listed when the database is opened, and a listing is of what is
there: pages whose ids have been handed out, and no index file as long as no
index has been made.
-/

/-- The pages that recovery leaves have ids that have been handed out. -/
theorem Committed.lt_clock (h : Committed db) {pages : DataPageId → Bool} {files : IndexId → Bool}
    {disk : Disk}
    (hredone : Redone db.wal.kept db.wal.kept (crashed pages files db).io disk)
    {id : DataPageId} {page : DataPage} (hpage : disk.pages id = some page) : id < db.clock := by
  have hrest := (h.leaves pages files).1
  by_contra hge
  have hnone : (crashed pages files db).rowView.page id = none := by
    cases hp : (crashed pages files db).rowView.page id with
    | none => rfl
    | some p => exact absurd (hrest.logged.pages.ok.older id p hp) hge
  obtain ⟨hio, hrecords⟩ := hrest.logged.pages.missing id hnone
  change (crashed pages files db).io.pages id = none at hio
  change dataRecords id db.wal.kept = [] at hrecords
  obtain ⟨-, -, hmissing⟩ | ⟨base, d, hfound | ⟨-, -, -, -, -, -, -, r, hr, -⟩, -⟩ :=
    hredone.pages id
  · rw [hmissing] at hpage
    cases hpage
  · rw [hio] at hfound
    cases hfound
  · rw [hrecords] at hr
    cases hr

/-- **Redo makes no index file** and writes none. -/
theorem indexFiles_redoRecord {disk disk' : Disk} {r : WalRecord} {id : IndexId}
    {found : (Bytes × Bytes) × IndexFile} (h : redoRecord disk r = .ok disk')
    (hfound : disk'.indexFiles id = some found) : disk.indexFiles id = some found := by
  have hwrite : ∀ {disk disk' : Disk} {mt : MetaTable}, writeMt disk mt = .ok disk' →
      disk'.indexFiles id = some found → disk.indexFiles id = some found := by
    intro disk disk' mt h hfound
    obtain ⟨schema, -, h⟩ := bind_eq_ok.mp h
    cases h
    exact hfound
  have hdelete : ∀ {disk disk' : Disk} {mt : MetaTable}, deleteMt disk mt = .ok disk' →
      disk'.indexFiles id = some found → disk.indexFiles id = some found := by
    intro disk disk' mt h hfound
    obtain ⟨schema, -, h⟩ := bind_eq_ok.mp h
    cases h
    exact Option.eq_some_of_filter_eq_some hfound
  unfold redoRecord at h
  cases href : r.body.dataRef with
  | some ref =>
    rw [href] at h
    obtain ⟨mt, -, h⟩ := bind_eq_ok.mp (show redoData disk r ref.1 ref.2 = .ok disk' from h)
    obtain ⟨page, -, h⟩ := bind_eq_ok.mp h
    split_ifs at h <;> cases h <;> exact hfound
  | none =>
    rw [href] at h
    change redoMeta disk r.body = .ok disk' at h
    cases hbody : r.body <;> rw [hbody] at h
    case createTable => exact hwrite h hfound
    case updateTable => exact hwrite h hfound
    case clrUpdateTable => exact hwrite h hfound
    case clrDeleteTable => exact hwrite h hfound
    case deleteTable => exact hdelete h hfound
    case clrCreateTable => exact hdelete h hfound
    case createIndex => exact hwrite (bind_eq_ok.mp h).choose_spec.2 hfound
    case clrCreateIndex => exact hwrite (bind_eq_ok.mp h).choose_spec.2 hfound
    case dropIndex => exact hwrite (bind_eq_ok.mp h).choose_spec.2 hfound
    case clrDropIndex => exact hwrite (bind_eq_ok.mp h).choose_spec.2 hfound
    case deleteSchema => cases h; exact Option.eq_some_of_filter_eq_some hfound
    case clrCreateSchema => cases h; exact Option.eq_some_of_filter_eq_some hfound
    all_goals
      cases h
      exact hfound

/-- Nor does the redo pass. -/
theorem indexFiles_foldlM {rs : List WalRecord} {disk disk' : Disk} {id : IndexId}
    {found : (Bytes × Bytes) × IndexFile} (h : rs.foldlM redoRecord disk = .ok disk')
    (hfound : disk'.indexFiles id = some found) : disk.indexFiles id = some found := by
  induction rs generalizing disk with
  | nil =>
    cases h
    exact hfound
  | cons r rs ih =>
    rw [List.foldlM_cons] at h
    obtain ⟨disk₁, hredo, h⟩ := bind_eq_ok.mp h
    exact indexFiles_redoRecord hredo (ih h)

/-- What is missing before the pass is missing after it. -/
theorem indexFiles_foldlM_eq_none {rs : List WalRecord} {disk disk' : Disk} {id : IndexId}
    (h : rs.foldlM redoRecord disk = .ok disk') (hnone : disk.indexFiles id = none) :
    disk'.indexFiles id = none := by
  refine Option.eq_none_iff_forall_ne_some.mpr fun found hfound => ?_
  rw [indexFiles_foldlM h hfound] at hnone
  cases hnone

/-- A flush makes no index file. -/
theorem indexFiles_flushSome {maxLsn : ℕ} {pages : DataPageId → Bool} {files : IndexId → Bool}
    {id : IndexId} (hnone : db.io.indexFiles id = none) :
    (flushSome maxLsn pages files db).io.indexFiles id = none := by
  unfold flushSome
  dsimp only
  rw [hnone]
  cases db.pool.indexFiles id with
  | none => rfl
  | some entry => exact ite_self none

/-- No index file with this id is made. -/
def MakesNone (id : IndexId) (db db' : StdDbInstance) : Prop :=
  db.io.indexFiles id = none → db'.io.indexFiles id = none

instance (id : IndexId) : IsPreorder StdDbInstance (MakesNone id) where
  refl _ h := h
  trans _ _ _ h h' hnone := h' (h hnone)

theorem makesNone_of_files {m : Prog Unit} (h : Respects SameFiles m) (id : IndexId) :
    Respects (MakesNone id) m :=
  h.mono fun _ _ hfiles hnone => (congrArg (fun disk => disk.indexFiles id) hfiles.io).trans hnone

/-- **A statement makes no index file** when it makes no index. -/
theorem respects_next_of_noIndex {st : Statement} (h : st.makesIndex = false) (id : IndexId) :
    Respects (MakesNone id) st.next := by
  have hflush : Respects (MakesNone id)
      (modify fun db => flushDirty db.txn.lastLsn db : Prog PUnit) :=
    respects_modify fun db hnone => indexFiles_flushSome hnone
  have hlast : Respects (MakesNone id)
      (modify fun db => { db with txn := { db.txn with state := .committed } } : Prog PUnit) :=
    respects_modify fun db hnone => hnone
  exact (makesNone_of_files respects_beginning id).bind fun _ =>
    (makesNone_of_files (respects_body_of_noIndex h) id).bind fun _ =>
    (makesNone_of_files respects_commitLog id).bind fun _ => hflush.bind fun _ => hlast

/-- It writes nothing at all before its pages are flushed. -/
theorem respects_nextLog_of_noIndex {st : Statement} (h : st.makesIndex = false) :
    Respects SameFiles st.nextLog :=
  respects_beginning.bind fun _ => (respects_body_of_noIndex h).bind fun _ => respects_commitLog

/-- Where there is no index file there is none after the statement. -/
theorem Occurs.indexFiles {st : Statement} {id : IndexId} (h : Occurs db (.execute st) db')
    (hst : st.makesIndex = false) (hnone : db.io.indexFiles id = none) :
    db'.io.indexFiles id = none := by
  cases h with
  | execute _ hnext => exact (respects_next_of_noIndex hst id).of_ok hnext hnone

/-- No index file is there after a crash when there was none before the
statement. -/
theorem indexFiles_crashed {st : Statement} {id : IndexId} (hnext : st.nextLog db = .ok () db₁)
    (hst : st.makesIndex = false) (hnone : db.io.indexFiles id = none)
    (pages : DataPageId → Bool) (files : IndexId → Bool) :
    (crashed pages files db₁).io.indexFiles id = none := by
  refine indexFiles_flushSome ?_
  rw [show db₁.io = db.io from ((respects_nextLog_of_noIndex hst).of_ok hnext).io]
  exact hnone

/-! ## What is seen of a scan -/

/-- If the rows survive, there are as many as before. -/
theorem RowsSurvive.length_eq {pages : DataPageId → Bool} {files : IndexId → Bool}
    (h : RowsSurvive pages files db₁) (hopens : Reopens (crashed pages files db₁) db')
    {tableName schemaName : Bytes} {mt mt' : MetaTable}
    (hlook : LooksUp db₁ tableName schemaName mt)
    (hlook' : LooksUp db' tableName schemaName mt') {m n : ℕ}
    (hscan : (scanRows db'.page m (db'.scanStart mt')).map List.length = some n) :
    n = (live (db₁.tableRows mt.id)).length := by
  obtain ⟨rows', hrows', rfl⟩ := Option.map_eq_some_iff.mp hscan
  obtain ⟨enough, hround⟩ := h.2 db' hopens tableName schemaName mt hlook
  have hrounds : enough ≤ max enough (m + rows'.length + 1) := le_max_left _ _
  obtain ⟨rows, db'', hok, hperm⟩ := hround _ hrounds
  have hmax := le_max_right enough (m + rows'.length + 1)
  obtain ⟨rfl, -⟩ := (ensures_seqScan hlook' hrows' (by omega) (by omega)).of_ok hok
  exact hperm.length_eq

/-! ## A link that is lost -/

/-- A table of 64 strings. -/
def broadTable : Statement := .createTable [116] [115]
  ((List.range 64).map fun i => { name := [UInt8.ofNat i], type := .string })

/-- A row for it, of strings of one length. -/
def insertStrings (length : ℕ) : Statement :=
  .insert [116] [115] none [List.replicate 64 ⟨List.replicate length 0, .string⟩]

/-- The table with a row of empty strings, on page 70. -/
def onePageSession : StdDbInstance := (insertStrings 0).after (broadTable.after secondSession)

/-- A second row, on page 72, is committed; the pages are still to be written. -/
def twoPagesCommitted : StdDbInstance := ran (insertStrings 512).nextLog onePageSession

theorem run_onePageSession :
    Run Housed {} [.execute createSchema₁, .restart, .execute broadTable,
      .execute (insertStrings 0)] onePageSession :=
  .cons (Statement.housed_of_returns (by decide +kernel) plainNames_createSchema₁
      (by decide +kernel))
    (.cons ⟨occurs_secondSession, trivial, by decide +kernel⟩
      (.cons (Statement.housed_of_returns (by decide +kernel) (show PlainName [116] by decide)
          (by decide +kernel))
        (.single (Statement.housed_of_returns (by decide +kernel) trivial (by decide +kernel)))))

theorem commit_onePageSession :
    HousedCommit onePageSession (insertStrings 512) twoPagesCommitted :=
  ⟨by decide +kernel, trivial, eq_ok_of_succeeds (by decide +kernel), by decide +kernel⟩

/-- The second page has been written and the first has not. -/
def lastPageOnly (id : DataPageId) : Bool := id = 72

/-- The files after recovery. -/
def lostLinkDisk : Disk :=
  match recover 0 id (crashed lastPageOnly (fun _ => false) twoPagesCommitted).io
    (crashed lastPageOnly (fun _ => false) twoPagesCommitted).keptLog with
  | .ok s => s.1
  | .error _ => {}

/-- There are no index files. -/
theorem indexFiles_onePageSession (id : IndexId) : onePageSession.io.indexFiles id = none := by
  have htable : Occurs secondSession (.execute broadTable) (broadTable.after secondSession) :=
    Statement.occurs_of_returns (by decide +kernel)
  have hrow : Occurs (broadTable.after secondSession) (.execute (insertStrings 0))
      onePageSession := Statement.occurs_of_returns (by decide +kernel)
  exact hrow.indexFiles rfl (htable.indexFiles rfl rfl)

/-- The commit is durable. -/
theorem committed_twoPages : Committed twoPagesCommitted :=
  (Settled.run (run_onePageSession.mono fun _ _ _ h => h.occurs)).committed
    commit_onePageSession.analyze commit_onePageSession.next

/-- The files after the crash, and after recovery. -/
theorem recover_lostLinkDisk :
    recover 0 id (crashed lastPageOnly (fun _ => false) twoPagesCommitted).io
        (crashed lastPageOnly (fun _ => false) twoPagesCommitted).keptLog
      = .ok (lostLinkDisk, twoPagesCommitted.wal)
    ∧ (∀ id page, lostLinkDisk.pages id = some page → id < 73)
    ∧ ∀ id file, lostLinkDisk.indexFiles id = some file → id < 73 := by
  obtain ⟨disk, hfold, hredone, hrecover⟩ := committed_twoPages.recovers
    (mended_of_nil (by decide +kernel)) lastPageOnly fun _ => false
  have hdisk : lostLinkDisk = disk := by
    unfold lostLinkDisk
    rw [hrecover id fun active => .refl active]
  rw [hdisk]
  refine ⟨hrecover id fun active => .refl active, fun id page hpage => ?_, fun id file hfile => ?_⟩
  · have hclock : twoPagesCommitted.clock = 73 := by decide +kernel
    rw [← hclock]
    exact committed_twoPages.lt_clock hredone hpage
  · have hnone := indexFiles_foldlM_eq_none hfold (indexFiles_crashed commit_onePageSession.next rfl
      (indexFiles_onePageSession id) lastPageOnly fun _ => false)
    rw [hnone] at hfile
    cases hfile

/-- The instance that is opened then. -/
def lostLinkSession : StdDbInstance :=
  init {} 73 lostLinkDisk twoPagesCommitted.wal
    (.upTo lostLinkDisk 73 recover_lostLinkDisk.2.1 recover_lostLinkDisk.2.2)

theorem reopens_lostLinkSession :
    Reopens (crashed lastPageOnly (fun _ => false) twoPagesCommitted) lostLinkSession := by
  have hclock : (crashed lastPageOnly (fun _ => false) twoPagesCommitted).clock ≤ 73 := by
    decide +kernel
  exact .intro (fun active => .refl active) recover_lostLinkDisk.1 hclock _ _

/-- **A committed row is lost**: the first page ends the chain, as it did before
the second was made, and a scan returns one row of two. -/
theorem not_rowsSurvive_lastPage :
    ¬ RowsSurvive lastPageOnly (fun _ => false) twoPagesCommitted := by
  intro hsurvive
  have htable : (twoPagesCommitted.findTable [116] [115]).isSome = true := by decide +kernel
  have htable' : (lostLinkSession.findTable [116] [115]).isSome = true := by decide +kernel
  obtain ⟨mt, hmt⟩ := Option.isSome_iff_exists.mp htable
  obtain ⟨mt', hmt'⟩ := Option.isSome_iff_exists.mp htable'
  have hlook := findTable_eq_some_iff.mp hmt
  have hlook' := findTable_eq_some_iff.mp hmt'
  have hrows : ∀ mt ∈ twoPagesCommitted.catalog.tables,
      (live (twoPagesCommitted.tableRows mt.id)).length = 2 := by decide +kernel
  have hscan : ∀ mt ∈ lostLinkSession.catalog.tables,
      (scanRows lostLinkSession.page 5 (lostLinkSession.scanStart mt)).map List.length
        = some 1 := by
    decide +kernel
  have hlengths := hsurvive.length_eq reopens_lostLinkSession hlook hlook' (hscan mt' hlook'.mem)
  rw [hrows mt hlook.mem] at hlengths
  exact absurd hlengths (by decide)

/-- **Not every committed row is found after a crash.** -/
theorem not_rowsSurvive_lostLink :
    ¬ ∀ (es : List Event) (db : StdDbInstance), Run Housed {} es db →
      ∀ (st : Statement) (db₁ : StdDbInstance), HousedCommit db st db₁ →
        ∀ pages files, RowsSurvive pages files db₁ :=
  fun h => not_rowsSurvive_lastPage (h _ _ run_onePageSession _ _ commit_onePageSession _ _)

end StdDbInstance
