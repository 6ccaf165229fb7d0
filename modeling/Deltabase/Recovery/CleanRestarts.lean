import Deltabase.Recovery.Reopening
import Deltabase.Storage.DirectoryLayout
import Deltabase.Storage.SeqScan

/-!
# Scans across clean restarts

A commit writes every marked page that its log entry covers, and with no other
transaction there is no marked page it leaves behind. So when an instance is
closed its files hold everything, and the next one, which redoes the log over
them, finds every table as it was. Hence the pages of a table are one chain
after any run of statements and clean restarts, and a scan follows it from its
beginning to its end.
-/

/-! ## Scanning a chain -/

/-- **The rows reached from the beginning of a chain** are those of its pages. -/
theorem scanRows_linked {page : DataPageId → Option DataPage} {next : DataPageId → DataPageId}
    {order : List DataPageId} (hlinked : Linked next UUID.null order) (hnil : UUID.null ∉ order)
    (hpage : ∀ id ∈ order, ∃ p, page id = some p ∧ p.next = next id) :
    scanRows page (order.length + 1) (order.headD UUID.null)
      = some (order.flatMap fun id => live (((page id).map DataPage.rows).getD [])) := by
  induction order with
  | nil => rfl
  | cons a order ih =>
    obtain ⟨p, hp, hnext⟩ := hpage a List.mem_cons_self
    have hrest := ih hlinked.2 (fun h => hnil (List.mem_cons_of_mem a h))
      fun id hid => hpage id (List.mem_cons_of_mem a hid)
    rw [← hlinked.1, ← hnext] at hrest
    have hne : a ≠ UUID.null := fun heq => hnil (heq ▸ List.mem_cons_self)
    show scanRows page (order.length + 1 + 1) a = _
    unfold scanRows
    rw [if_neg hne, hp, List.flatMap_cons, hp]
    show (scanRows page (order.length + 1) p.next).map _ = _
    rw [hrest]
    rfl

namespace RowView

open StdDbInstance

variable {v : RowView} {t : TableId}

/-- **A scan begins at the beginning of the chain.** -/
theorem scanHead_eq (hok : v.Ok) {order : List DataPageId} (hperm : order.Perm (v.ids t))
    (hlinked : Linked v.nextOf UUID.null order) (hnil : UUID.null ∉ order) :
    scanHead (v.pages t) = order.headD UUID.null := by
  have hnodup : order.Nodup := hperm.nodup_iff.mpr (hok.nodup t)
  have hmem : ∀ p, p ∈ v.pages t ↔ p.id ∈ order ∧ v.page p.id = some p := fun p => by
    rw [hok.mem_pages, hperm.mem_iff]
  have hreferenced : ∀ id ∈ order,
      id ∈ ((v.pages t).map DataPage.next).filter (fun next => next ≠ UUID.null)
        ↔ ∃ b ∈ order, v.nextOf b = id := by
    intro id hid
    rw [List.mem_filter, List.mem_map]
    constructor
    · rintro ⟨⟨p, hp, hnext⟩, -⟩
      obtain ⟨hpid, hpage⟩ := (hmem p).mp hp
      exact ⟨p.id, hpid, (nextOf_eq hpage).trans hnext⟩
    · rintro ⟨b, hb, hnext⟩
      obtain ⟨p, hp, -⟩ := hok.listed t b (hperm.mem_iff.mp hb)
      have hpid := hok.named b p hp
      refine ⟨⟨p, (hmem p).mpr ⟨hpid ▸ hb, hpid ▸ hp⟩, (nextOf_eq hp).symm.trans hnext⟩, ?_⟩
      exact decide_eq_true fun heq => hnil (heq ▸ hid)
  unfold scanHead
  cases hfind : (v.pages t).find? fun page =>
      page.id ∉ ((v.pages t).map DataPage.next).filter fun next => next ≠ UUID.null with
  | some p =>
    obtain ⟨hpid, -⟩ := (hmem p).mp (List.mem_of_find?_eq_some hfind)
    have hsome := List.find?_some hfind
    have hnot : p.id ∉ _ := of_decide_eq_true hsome
    rw [hreferenced p.id hpid] at hnot
    have hhead := (hlinked.unreferenced_iff hnil hnodup hpid).mp
      fun b hb hnext => hnot ⟨b, hb, hnext⟩
    simp only [hfind]
    rw [List.headD_eq_head?_getD, hhead]
    rfl
  | none =>
    cases order with
    | nil =>
      have hempty : v.pages t = [] := List.eq_nil_iff_forall_not_mem.mpr fun p hp =>
        absurd ((hmem p).mp hp).1 List.not_mem_nil
      rw [hempty]
      rfl
    | cons a order =>
      -- the first page of the chain would have been found
      obtain ⟨p, hp, -⟩ := hok.listed t a (hperm.mem_iff.mp List.mem_cons_self)
      have hpid := hok.named a p hp
      have hnot := List.find?_eq_none.mp hfind p
        ((hmem p).mpr ⟨hpid ▸ List.mem_cons_self, hpid ▸ hp⟩)
      refine absurd (decide_eq_true ?_) hnot
      intro hin
      rw [hpid, hreferenced a List.mem_cons_self] at hin
      obtain ⟨b, hb, hnext⟩ := hin
      exact (hlinked.unreferenced_iff hnil hnodup List.mem_cons_self).mpr rfl b hb hnext

end RowView

/-! ## Writing meta files -/

namespace History

open FileIOManager RowView

variable {H : List WalRecord} {io io' : Disk} {t mt : MetaTable}

/-- Writing a schema of the history. -/
theorem FilesOf.writeMs (h : FilesOf H io) {s : MetaSchema} (hs : s ∈ createdSchemas H) :
    FilesOf H (FileIOManager.writeMs io s) := by
  refine ⟨fun s' hs' => ?_, h.tables, h.pages⟩
  rcases mem_of_mem_upsert hs' with rfl | hs'
  exacts [hs, h.schemas s' hs']

/-- Writing a table of the history, whose schema has been found. -/
theorem FilesOf.of_writeMt (h : FilesOf H io) (hH : InstanceLog H)
    (hpos : ∀ s ∈ createdSchemas H, 0 < s.id) (ht : t ∈ createdTables H) (hsame : t.SameTable mt)
    (hwrite : FileIOManager.writeMt io mt = .ok io') : FilesOf H io' ∧ io'.pages = io.pages := by
  obtain ⟨schema, hread, rfl⟩ := writeMt_eq_ok hwrite
  rw [← hsame.2.2] at hread
  obtain ⟨hmem, hid⟩ := schema_of_read hH hpos ht hread
  refine ⟨⟨h.schemas, fun file hfile => ?_, h.pages⟩, rfl⟩
  rcases mem_of_mem_upsert hfile with rfl | hfile
  exacts [⟨t, ht, hsame, schema, h.schemas schema hmem, hid, rfl⟩, h.tables file hfile]

end History

namespace StdDbInstance

open BufferPool Transaction FileIOManager RowView History

variable {db db' : StdDbInstance}

/-- **A scan of a table whose pages form a chain** comes to an end and returns
the live rows of the table, each once. -/
theorem seqScan_of_chained {tableName schemaName : Bytes} {mt : MetaTable} (hok : db.rowView.Ok)
    (hpos : ∀ id ∈ db.pageIds mt.id, 0 < id) (hchain : Chained db.rowView mt.id)
    (hlook : LooksUp db tableName schemaName mt) :
    ∃ enough, ∀ rounds ≥ enough, ∃ rows db', seqScan rounds tableName schemaName db = .ok rows db'
      ∧ rows.Perm (live (db.tableRows mt.id)) := by
  obtain ⟨order, hperm, hlinked⟩ := hchain
  have hnil : UUID.null ∉ order := fun hin => (hpos _ (hperm.mem_iff.mp hin)).ne rfl
  have hpages : ∀ id ∈ order, ∃ p, db.page id = some p ∧ p.next = db.rowView.nextOf id := by
    intro id hid
    obtain ⟨p, hp, -⟩ := hok.listed mt.id id (hperm.mem_iff.mp hid)
    exact ⟨p, hp, (nextOf_eq (v := db.rowView) hp).symm⟩
  have hrows := scanRows_linked hlinked hnil hpages
  rw [← scanHead_eq hok hperm hlinked hnil] at hrows
  set rows := order.flatMap fun id => live (((db.page id).map DataPage.rows).getD []) with hdef
  refine ⟨order.length + 1 + rows.length + 1, fun rounds hrounds => ?_⟩
  obtain ⟨r, db', hscan, rfl, -⟩ := (ensures_seqScan hlook hrows
    (show order.length + 1 ≤ rounds by omega) (show rows.length < rounds by omega)).exists_ok
  refine ⟨_, db', hscan, ?_⟩
  have hlive : live (db.tableRows mt.id)
      = (db.pageIds mt.id).flatMap fun id => live (db.pageRows id) := by
    unfold live tableRows
    rw [List.filter_flatMap]
  rw [hlive]
  exact hperm.flatMap_right _

/-! ## Shutting down -/

/-- **The meta files that the catalog leaves** when an instance is closed. -/
theorem filesOf_flush {v : RowView} (h : Resting v) {catalog : CatalogCache}
    (hcatalog : catalog = v.catalog) {io : Disk} (hleft : FilesOf v.wal.kept io) :
    FilesOf v.wal.kept (catalog.flush io) ∧ (catalog.flush io).pages = io.pages := by
  subst hcatalog
  have hschemas : ∀ (schemas : List MetaSchema) (io : Disk), FilesOf v.wal.kept io →
      schemas ⊆ v.catalog.schemas →
      FilesOf v.wal.kept (schemas.foldl writeMs io)
        ∧ (schemas.foldl writeMs io).pages = io.pages := by
    intro schemas
    induction schemas with
    | nil => exact fun io hio _ => ⟨hio, rfl⟩
    | cons schema schemas ih =>
      intro io hio hsub
      have hs := (h.logged.catalog.schemas schema).mp (hsub List.mem_cons_self)
      exact ih (writeMs io schema) (hio.writeMs hs) fun x hx =>
        hsub (List.mem_cons_of_mem schema hx)
  have htables : ∀ (tables : List MetaTable) (io : Disk), FilesOf v.wal.kept io →
      tables ⊆ v.catalog.tables → FilesOf v.wal.kept (CatalogCache.flushTables io tables)
        ∧ (CatalogCache.flushTables io tables).pages = io.pages := by
    intro tables
    induction tables with
    | nil => exact fun io hio _ => ⟨hio, rfl⟩
    | cons table tables ih =>
      intro io hio hsub
      unfold CatalogCache.flushTables
      cases hwrite : writeMt io table with
      | error e => exact ⟨hio, rfl⟩
      | ok io' =>
        obtain ⟨t₀, ht₀, -, hsame⟩ :=
          h.logged.catalog.exists_created (entry_of_mem (hsub List.mem_cons_self))
        obtain ⟨hio', hpages⟩ := hio.of_writeMt h.logged.catalog.log
          (fun s hs => (h.logged.catalog.schemaIds s hs).1) ht₀ hsame hwrite
        rw [← hpages]
        exact ih io' hio' fun x hx => hsub (List.mem_cons_of_mem table hx)
  obtain ⟨hleft', hpages'⟩ := hschemas v.catalog.schemas io hleft (List.Subset.refl _)
  obtain ⟨hleft'', hpages''⟩ := htables v.catalog.tables _ hleft' (List.Subset.refl _)
  exact ⟨hleft'', hpages''.trans hpages'⟩

/-- What is on disk while an instance is at rest. -/
theorem filesOf_io (h : Resting db.rowView) : FilesOf db.wal.kept db.io :=
  ⟨h.logged.catalog.ioSchemas, h.logged.catalog.ioTables, h.logged.pages.named⟩

/-! ## Runs -/

/-- **An instance at rest with everything written.** -/
structure Settled (db : StdDbInstance) : Prop where
  resting : Resting db.rowView
  durable : db.wal.kept.length ≤ db.wal.durable
  clean : ∀ id, db.dirtyPage id = false

/-- All of the log is found again. -/
theorem keptLog_eq (h : db.wal.kept.length ≤ db.wal.durable) : db.keptLog = db.wal := by
  unfold keptLog
  rw [List.take_of_length_le h]

/-- Whose transaction it was does not matter between transactions. -/
theorem Resting.withTxn {v : RowView} (h : Resting v) (txn : Transaction) :
    Resting { v with txn := txn } :=
  ⟨⟨h.logged.catalog.congr rfl rfl rfl le_rfl le_rfl,
    h.logged.pages.congr rfl rfl rfl rfl le_rfl le_rfl⟩, h.committed, h.owned.congr rfl, h.recorded⟩

/-- **Every page that is marked is due** when the last record is that of the
commit. -/
theorem written_of_dirty (h : Resting db.rowView) (hlsn : db.wal.kept.length = db.txn.lastLsn)
    {id : DataPageId} (hdirty : db.dirtyPage id = true) (pages : DataPageId → Bool) :
    db.written db.txn.lastLsn pages id = pages id := by
  unfold dirtyPage at hdirty
  cases hpool : db.pool.dataPages id with
  | none =>
    rw [hpool] at hdirty
    cases hdirty
  | some entry =>
    have hpage : db.page id = some entry.value := by
      unfold page
      rw [hpool]
    have hlt := (h.logged.pages.pages id entry.value hpage trivial).lsn
    have hle : entry.value.lastLsn ≤ db.txn.lastLsn := hlsn ▸ Nat.le_of_lt_succ hlt
    rw [hpool] at hdirty
    unfold written CacheEntry.due
    rw [hpool, Option.any_some, show entry.dirty = true from hdirty, Bool.true_and,
      decide_eq_true hle, Bool.and_true]

/-- **A commit** writes every page that is marked. -/
theorem settled_commit (h : Running Set.univ db.rowView) :
    Ensures commit db (fun _ db' => Settled db') fun _ _ => False := by
  unfold commit
  rw [ensures_bind]
  refine (resting_commitLog h).mono_ok fun _ db₁ ⟨hrest, hdurable, hlsn⟩ => ?_
  show Ensures (modify _ >>= fun _ => modify _) _ _ _
  rw [ensures_bind, ensures_modify, ensures_modify]
  have hview := rowView_flushSome db₁.txn.lastLsn (fun _ => true) (fun _ => true) db₁
  have hrest' := hrest.writePages (db₁.written db₁.txn.lastLsn fun _ => true)
  rw [← hview] at hrest'
  refine ⟨Resting.withTxn hrest' _, hdurable, fun id => ?_⟩
  show (flushDirty db₁.txn.lastLsn db₁).rowView.dirty id = false
  unfold flushDirty
  rw [hview]
  show (if db₁.written db₁.txn.lastLsn (fun _ => true) id then false else db₁.dirtyPage id) = false
  cases hdirty : db₁.dirtyPage id with
  | false => exact ite_self false
  | true => rw [written_of_dirty hrest hlsn hdirty, if_pos rfl]

/-- The table that the analyzer finds is the one that a call looks up. -/
theorem findTable_eq_some_iff {tableName schemaName : Bytes} {mt : MetaTable} :
    db.findTable tableName schemaName = some mt ↔ LooksUp db tableName schemaName mt := by
  unfold findTable LooksUp
  cases db.catalog.getSchema schemaName with
  | none => exact iff_of_false (fun h => nomatch h) fun ⟨_, h, _⟩ => nomatch h
  | some ms => exact ⟨fun h => ⟨ms, rfl, h⟩, fun ⟨_, h, hmt⟩ => Option.some.inj h ▸ hmt⟩

/-- The analyzer looks at the catalog only. -/
theorem analyze_congr (st : Statement) (h : db'.catalog = db.catalog) :
    st.analyze db' = st.analyze db := by
  have htable : db'.findTable = db.findTable := by
    unfold findTable
    rw [h]
  cases st <;> simp only [Statement.analyze, existsTable, htable, h]

/-- **The transaction of a statement**, whatever is done at its end. -/
theorem Settled.ensures_statement (h : Settled db) {st : Statement}
    (hanalyze : st.analyze db = true) {last : Prog Unit} {Q : StdDbInstance → Prop}
    (hlast : ∀ db₁, Running Set.univ db₁.rowView →
      Ensures last db₁ (fun _ db' => Q db') fun _ _ => False) :
    Ensures (do makeTransaction; begin; st.body; last) db (fun _ db' => Q db') fun _ _ => True := by
  have hbegin := running_begin h.resting
  rw [ensures_bind] at hbegin ⊢
  refine hbegin.mono (fun _ db₁ hbegin₁ => ?_) fun _ _ h => h.elim
  rw [ensures_bind]
  refine hbegin₁.mono (fun _ db₂ ⟨hrunning, hcatalog⟩ => ?_) fun _ _ h => h.elim
  rw [ensures_bind]
  refine (st.running_body hrunning ?_).mono (fun _ db₃ hrunning₃ => ?_) fun _ _ _ => trivial
  · rw [analyze_congr st hcatalog]
    exact hanalyze
  · exact (hlast db₃ hrunning₃).mono (fun _ _ h => h) fun _ _ h => h.elim

/-- **A statement** that is executed. -/
theorem settled_next (h : Settled db) {st : Statement} (hanalyze : st.analyze db = true) :
    Ensures st.next db (fun _ db' => Settled db') fun _ _ => True :=
  h.ensures_statement hanalyze fun _ hrunning => settled_commit hrunning

/-- **What happens to a database**: statements are executed, and the instance is
closed and another opened. -/
inductive Event where
  | execute (st : Statement)
  | restart

/-- A statement that succeeds, or a clean restart: the destructor writes the
catalog, and the files and the log are opened again. -/
inductive Occurs (db : StdDbInstance) : Event → StdDbInstance → Prop
  | execute {st : Statement} {db' : StdDbInstance} (hanalyze : st.analyze db = true)
      (h : st.next db = .ok () db') : Occurs db (.execute st) db'
  | restart {db' : StdDbInstance} (h : Opens (db.catalog.flush db.io) db.keptLog db.clock db') :
      Occurs db .restart db'

/-- **The names of directories** that a statement gives: one component of a path
each, and no schema in the place of the log. -/
def PlainNames : Statement → Prop
  | .createSchema _ schemaName => PlainName schemaName ∧ schemaName ≠ DatabaseDirectory.pathWal
  | .createTable tableName _ _ => PlainName tableName
  | _ => True

/-- The names that an event brings. -/
def Event.PlainNames : Event → Prop
  | .execute st => StdDbInstance.PlainNames st
  | .restart => True

/-- **An event of a database** whose tables have directories of their own, while
the pool of the instance has room. -/
structure Housed (db : StdDbInstance) (e : Event) (db' : StdDbInstance) : Prop where
  occurs : Occurs db e db'
  plain : e.PlainNames
  room : HasRoom db'

/-- **A clean restart** finds everything again. -/
theorem Settled.reopen (h : Settled db)
    (hopens : Opens (db.catalog.flush db.io) db.keptLog db.clock db') :
    Settled db' ∧ Found db.rowView db'.rowView := by
  obtain ⟨hleft, hpages⟩ := filesOf_flush h.resting rfl (filesOf_io h.resting)
  rw [keptLog_eq h.durable] at hopens
  have hredo : db.rowView.Redoable := fun id p _ hdirty => by
    rw [show db.rowView.dirty id = false from h.clean id] at hdirty
    cases hdirty
  obtain ⟨hrest, hfound⟩ := h.resting.reopen hredo hpages hleft le_rfl hopens
  have hwal : db'.wal = db.wal := hfound.wal
  exact ⟨⟨hrest, hwal ▸ h.durable, hfound.clean⟩, hfound⟩

theorem Settled.step (h : Settled db) {e : Event} (hstep : Occurs db e db') : Settled db' := by
  cases hstep with
  | execute hanalyze hnext => exact (settled_next h hanalyze).of_ok hnext
  | restart hopens => exact (h.reopen hopens).1

/-- A directory that has just been made, and its first instance. -/
theorem settled_new (generator : UUIDGenerator) : Settled { generator } := by
  have hnil : ∀ {α : Type} {P : α → Prop}, ∀ a ∈ ([] : List α), P a := fun a ha => by cases ha
  have hcatalog : CatalogLogged [] Set.univ ({ generator } : StdDbInstance).rowView :=
    ⟨.nil, hnil, hnil, hnil, hnil, fun s => Iff.rfl, fun t => .none, fun _ _ => rfl, hnil, hnil⟩
  have hpage : ∀ id, ({ generator } : StdDbInstance).rowView.page id = none := fun _ => rfl
  have hok : ({ generator } : StdDbInstance).rowView.Ok :=
    ⟨fun id p hp => absurd hp (by rw [hpage]; simp), fun id p hp => absurd hp (by rw [hpage]; simp),
      Nat.one_pos, fun _ => hnil, fun _ => List.nodup_nil⟩
  have hpages : PagesLogged [] Set.univ ({ generator } : StdDbInstance).rowView :=
    ⟨hok, fun id p hp => absurd hp (by rw [hpage]; simp), fun _ _ => ⟨rfl, rfl⟩,
      fun t _ => ⟨[], .refl _, trivial⟩, fun id d hd => (by cases hd)⟩
  exact ⟨⟨⟨hcatalog, hpages⟩, hnil, fun _ _ hmt => (by cases hmt),
    fun id hsome => absurd hsome (by rw [hpage]; simp)⟩, le_rfl, fun _ => rfl⟩

/-- **Every run** leaves an instance at rest with everything written. -/
theorem Settled.run {generator : UUIDGenerator} {es : List Event}
    (hrun : Run Occurs { generator } es db) : Settled db :=
  hrun.invariant (fun _ _ _ h hstep => h.step hstep) (settled_new generator)

end StdDbInstance

/-! ## A row in the second session -/

namespace Statement

open StdDbInstance BufferPool

/-- The state after a statement. -/
def after (st : Statement) (db : StdDbInstance) : StdDbInstance :=
  match st.next db with
  | .ok _ db' => db'
  | .error _ db' => db'

/-- Whether a statement is let through and succeeds. -/
def returns (st : Statement) (db : StdDbInstance) : Bool :=
  st.analyze db && match st.next db with
    | .ok _ _ => true
    | .error _ _ => false

theorem occurs_of_returns {st : Statement} {db : StdDbInstance} (h : st.returns db = true) :
    Occurs db (.execute st) (st.after db) := by
  unfold returns at h
  obtain ⟨hanalyze, hnext⟩ := Bool.and_eq_true_iff.mp h
  refine .execute hanalyze ?_
  unfold after
  cases hrun : st.next db with
  | ok a db' => rfl
  | error e db' =>
    rw [hrun] at hnext
    cases hnext

theorem housed_of_returns {st : Statement} {db : StdDbInstance} (h : st.returns db = true)
    (hplain : PlainNames st) (hroom : HasRoom (st.after db)) :
    Housed db (.execute st) (st.after db) := ⟨occurs_of_returns h, hplain, hroom⟩

end Statement

namespace StdDbInstance

open FileIOManager

/-- A schema. -/
def createSchema₁ : Statement := .createSchema [100] [115]

theorem plainNames_createSchema₁ : PlainNames createSchema₁ :=
  show PlainName [115] ∧ [115] ≠ DatabaseDirectory.pathWal by decide

/-- The first session, in which it is made. -/
def schemaSession : StdDbInstance := createSchema₁.after {}

/-- The files it leaves. -/
def schemaDisk : Disk where
  schemas := [{ id := 2, name := [115], dbName := [100] }]

/-- The beginning of the second session. -/
def secondSession : StdDbInstance :=
  init {} 3 schemaDisk schemaSession.wal
    (.upTo schemaDisk 0 (fun _ _ h => by cases h) fun _ _ h => by cases h)

theorem occurs_secondSession : Occurs schemaSession .restart secondSession :=
  .restart (.intro (fun active => .refl active) rfl le_rfl _ _)

/-- A table with one column. -/
def createTable₁ : Statement := .createTable [116] [115] [{ name := [97], type := .integer }]

theorem plainNames_createTable₁ : PlainNames createTable₁ := show PlainName [116] by decide

/-- A row for it. -/
def insert₁ : Statement :=
  .insert [116] [115] none [[⟨[1, 0, 0, 0], .integer⟩]]

/-- The table with the row. -/
def oneRowSession : StdDbInstance := insert₁.after (createTable₁.after secondSession)

end StdDbInstance
