import Deltabase.Recovery.CrashedCommits
import Deltabase.Storage.DirectoryCalls

/-!
# The directory tree of a run

What has been proved of an instance is about the files that the model has, which are
those of a disk: a schema, a table or a page is there under an id. In the source they
are files in a tree of directories, under names.

The two agree as long as every call of the `FileIOManager` is one that its callers may
make (`Disk.Change.Permitted`). Here it is shown that a run of statements and clean
restarts makes no others: a commit writes pages where they have been read, a shutdown
writes the tables of its catalog under the names they have on disk, and so does redo. All
that is asked for is that names are those of directories and that nothing is too large
for its field (`Storable`). So there is a directory tree in which the same calls have been
made, all of which have returned, and what is read from it is what is read from the disk
of the instance (`readsAlike_of_run`).
-/

namespace History

open Disk RecoveryManager FileIOManager

variable {H A : List WalRecord} {disk₀ disk disk' : Disk} {r : WalRecord} {t mt : MetaTable}

/-- **What a log puts into meta files** has the names of directories and fits its
fields, every version of a table that there is on the way. -/
structure Fileable (H : List WalRecord) : Prop where
  schemas : ∀ s ∈ createdSchemas H, s.Fits ∧ PlainName s.name ∧ s.name ≠ DatabaseDirectory.pathWal
  tables : ∀ A ∈ H.inits, ∀ t ∈ createdTables A, ∀ mt ∈ tableAfter t.id A,
    mt.Fits ∧ PlainName mt.name

instance : DecidablePred Fileable := fun _ =>
  decidable_of_iff (_ ∧ _) ⟨fun h => ⟨h.1, h.2⟩, fun h => ⟨h.schemas, h.tables⟩⟩

/-- A version of a table is one of a table that has been created. -/
theorem Fileable.table (h : Fileable H) (hA : InstanceLog A) (hpast : A <+: H) {id : TableId}
    (hafter : tableAfter id A = some mt) : mt.Fits ∧ PlainName mt.name := by
  obtain ⟨t, ht, rfl, -⟩ := hA.created_of_tableAfter hafter
  exact h.tables A ((List.mem_inits A H).mpr hpast) t ht mt hafter

/-- A schema of the history may be written. -/
theorem FilesOf.permitted_writeMs (h : FilesOf H disk) (hH : InstanceLog H) (hf : Fileable H)
    {s : MetaSchema} (hs : s ∈ createdSchemas H) : (Change.writeMs s).Permitted disk := by
  obtain ⟨hfits, hplain, hwal⟩ := hf.schemas s hs
  refine ⟨hfits, hplain, hwal, fun s' hs' hid => ?_⟩
  rw [(hH.schema_unique s' (h.schemas s' hs') s hs).1 hid]

/-- A version of a table of the history may be written. -/
theorem FilesOf.permitted_writeMt (h : FilesOf H disk) (hH : InstanceLog H)
    (hpos : ∀ s ∈ createdSchemas H, 0 < s.id) (ht : t ∈ createdTables H) (hsame : t.SameTable mt)
    (hmt : mt.Fits ∧ PlainName mt.name) : (Change.writeMt mt).Permitted disk := by
  obtain ⟨s, hs, hsid⟩ := hH.exists_schema t ht
  refine ⟨hmt.1, hmt.2, ?_, fun s' hs' hid f hfile hfid => ?_⟩
  · rw [← hsame.2.2, ← hsid]
    exact (hpos s hs).ne'
  · have hplaced : Placed H ⟨s'.name, mt⟩ :=
      ⟨t, ht, hsame, s', h.schemas s' hs', hid.trans hsame.2.2.symm, rfl⟩
    exact ((h.tables f hfile).path_iff hH hplaced).mpr hfid

/-- A page that has seen every record is left alone. -/
theorem Redone.redoData_eq (h : Redone H A disk₀ disk) {d : DataPage} {pageId : DataPageId}
    (hd : disk₀.pages pageId = some d) (hseen : r.lsn ≤ d.lastLsn) {tableId : TableId}
    (hredo : RecoveryManager.redoData disk r tableId pageId = .ok disk') : disk' = disk := by
  rcases h.pages pageId with ⟨hnone, -, -⟩ | ⟨base, page, hstart, hpage, hgrown⟩
  · rw [hd] at hnone
    cases hnone
  · have hbase : base = d := by
      rcases hstart with hstart | ⟨hnone, -⟩
      · exact Option.some.inj (hstart.symm.trans hd)
      · rw [hd] at hnone
        cases hnone
    have hle : r.lsn ≤ page.reread.lastLsn := hseen.trans (hbase ▸ hgrown.base_le)
    obtain ⟨mt, -, hrest⟩ := bind_eq_ok.mp hredo
    obtain ⟨page', hread, hwrite⟩ := bind_eq_ok.mp hrest
    rw [readOrCreatePage, readDataPage, hpage, Option.map_some] at hread
    obtain rfl := Except.ok.inj hread
    rw [if_neg hle.not_gt] at hwrite
    exact (Except.ok.inj hwrite).symm

/-- What a log has created, a longer one has. -/
theorem mem_createdTables_later (hpast : A <+: H) (ht : t ∈ createdTables A) :
    t ∈ createdTables H := by
  obtain ⟨a, ha, hbody⟩ := mem_createdTables.mp ht
  exact mem_createdTables.mpr ⟨a, hpast.subset ha, hbody⟩

/-- A record with a whole image of a table. -/
theorem Redone.leads_image (h : Redone H A disk₀ disk) (hH : InstanceLog H)
    (hA : InstanceLog (A ++ [r])) (hpast : A ++ [r] <+: H) (hf : Fileable H)
    (hpos : ∀ s ∈ createdSchemas H, 0 < s.id) (hw : writtenImage r.body = some mt)
    (hafter : tableImage mt.id r.body (tableAfter mt.id A) = some mt)
    (hwrite : FileIOManager.writeMt disk mt = .ok disk') : Leads disk disk' := by
  obtain ⟨-, -, -, -, hadm⟩ := hA.of_snoc
  obtain ⟨t, ht, hsame⟩ := exists_created_of_written hadm rfl hw
  exact .single (c := .writeMt mt) (h.left.permitted_writeMt hH hpos
    (mem_createdTables_later hpast ht) hsame
    (hf.table hA hpast (tableAfter_snoc mt.id A r ▸ hafter))) hwrite

/-- A record with a change of a table's indexes. -/
theorem Redone.leads_change (h : Redone H A disk₀ disk) (hH : InstanceLog H)
    (hA : InstanceLog (A ++ [r])) (hpast : A ++ [r] <+: H) (hf : Fileable H)
    (hpos : ∀ s ∈ createdSchemas H, 0 < s.id) (ht : t ∈ createdTables A)
    {f : MetaTable → MetaTable} (hchanges : ∀ mt, MetaTable.SameTable mt (f mt))
    (hafter : ∀ image, tableImage t.id r.body image = image.map f)
    (hwrite : (do
      let table ← readTableMeta disk t.id
      FileIOManager.writeMt disk (f table)) = Except.ok disk') : Leads disk disk' := by
  obtain ⟨hA', -, -, -, -⟩ := hA.of_snoc
  obtain ⟨mt, hmt, hread, hsame, -⟩ := h.exists_table hA' ht
  rw [hread] at hwrite
  have hsnoc : tableAfter t.id (A ++ [r]) = some (f mt) := by
    rw [tableAfter_snoc, hafter, hmt, Option.map_some]
  obtain ⟨hid, hname, hschema⟩ := hchanges mt
  exact .single (c := .writeMt (f mt)) (h.left.permitted_writeMt hH hpos
    (mem_createdTables_later ((List.prefix_append A [r]).trans hpast) ht)
    ⟨hsame.1.trans hid, hsame.2.1.trans hname, hsame.2.2.trans hschema⟩
    (hf.table hA hpast hsnoc)) hwrite

/-- **Each record that redo repeats** is a call that may be made, on files whose pages
have seen their records. -/
theorem Redone.leads (h : Redone H A disk₀ disk) (hH : InstanceLog H)
    (hA : InstanceLog (A ++ [r])) (hpast : A ++ [r] <+: H) (hf : Fileable H)
    (hpos : ∀ s ∈ createdSchemas H, 0 < s.id)
    (hseen : ∀ pageId, r ∈ dataRecords pageId H →
      ∃ d, disk₀.pages pageId = some d ∧ r.lsn ≤ d.lastLsn)
    (hredo : redoRecord disk r = .ok disk') : Leads disk disk' := by
  obtain ⟨-, -, -, -, hadm⟩ := hA.of_snoc
  have hr : r ∈ H := hpast.subset (List.mem_append_right _ List.mem_cons_self)
  cases hbody : r.body with
  | createSchema s =>
    have hs : s ∈ createdSchemas H := mem_createdSchemas.mpr ⟨r, hr, hbody⟩
    have hwrite : disk' = writeMs disk s := by
      simp only [redoRecord, hbody, WalBody.dataRef, redoMeta] at hredo
      exact (Except.ok.inj hredo).symm
    exact .single (c := .writeMs s) (h.left.permitted_writeMs hH hf hs)
      (congrArg Except.ok hwrite.symm)
  | createTable mt | updateTable _ mt | clrUpdateTable _ mt _ =>
    simp only [redoRecord, hbody, WalBody.dataRef, redoMeta] at hredo
    have hw : writtenImage r.body = some mt := by rw [hbody]; rfl
    refine h.leads_image hH hA hpast hf hpos hw ?_ hredo
    rw [hbody]
    exact if_pos rfl
  | createIndex mi | clrDropIndex _ mi =>
    rw [hbody] at hadm
    obtain ⟨t, ht, hid⟩ := hadm
    simp only [redoRecord, hbody, WalBody.dataRef, redoMeta, addIndex, ← hid] at hredo
    refine h.leads_change hH hA hpast hf hpos ht
      (f := fun mt => { mt with indexes := mt.indexes ++ [mi] }) (fun _ => ⟨rfl, rfl, rfl⟩)
      (fun image => ?_) hredo
    rw [hbody]
    exact if_pos hid.symm
  | dropIndex mi | clrCreateIndex _ mi =>
    rw [hbody] at hadm
    obtain ⟨t, ht, hid⟩ := hadm
    simp only [redoRecord, hbody, WalBody.dataRef, redoMeta, eraseIndex, ← hid] at hredo
    refine h.leads_change hH hA hpast hf hpos ht
      (f := fun mt => { mt with indexes := mt.indexes.filter fun i => i.id ≠ mi.id })
      (fun _ => ⟨rfl, rfl, rfl⟩) (fun image => ?_) hredo
    rw [hbody]
    exact if_pos hid.symm
  | insert tableId pageId _ | update tableId pageId _ _ | delete tableId pageId _
  | clrInsert tableId pageId _ _ | clrUpdate tableId pageId _ _ _
  | clrDelete tableId pageId _ _ =>
    have href : r.body.dataRef = some (tableId, pageId) := by rw [hbody]; rfl
    obtain ⟨d, hd, hle⟩ := hseen pageId (mem_dataRecords.mpr ⟨hr, tableId, href⟩)
    simp only [redoRecord, hbody, WalBody.dataRef] at hredo
    rw [h.redoData_eq hd hle hredo]
  | beginTxn | commitTxn | rollbackTxn =>
    simp only [redoRecord, hbody, WalBody.dataRef, redoMeta] at hredo
    rw [← Except.ok.inj hredo]
  | _ =>
    rw [hbody] at hadm
    exact hadm.elim

/-- **The redo pass** is a sequence of calls. -/
theorem leads_foldlM (hH : InstanceLog H) (hleft : FilesOf H disk₀) (hf : Fileable H)
    (hpos : ∀ s ∈ createdSchemas H, 0 < s.id)
    (hseen : ∀ pageId, ∀ r ∈ dataRecords pageId H,
      ∃ d, disk₀.pages pageId = some d ∧ r.lsn ≤ d.lastLsn)
    (hA : InstanceLog A) (hpast : A <+: H) (hfold : A.foldlM redoRecord disk₀ = .ok disk) :
    Leads disk₀ disk := by
  induction hA generalizing disk with
  | nil => rw [← Except.ok.inj hfold]
  | @snoc A r hA hlsn hlt hsilent hadm ih =>
    rw [List.foldlM_append] at hfold
    obtain ⟨disk₁, hfirst, hrest⟩ := bind_eq_ok.mp hfold
    rw [List.foldlM_cons] at hrest
    obtain ⟨disk₂, hredo, hlast⟩ := bind_eq_ok.mp hrest
    obtain rfl := Except.ok.inj hlast
    have hpast' : A <+: H := (List.prefix_append A [r]).trans hpast
    have hredone := Redone.of_foldlM hleft hH hA hpast'.subset hfirst
    exact (ih hpast' hfirst).trans (hredone.leads hH (.snoc hA hlsn hlt hsilent hadm) hpast hf
      hpos (fun pageId => hseen pageId r) hredo)

end History

namespace StdDbInstance

open Disk History BufferPool Transaction RowView

variable {db db' : StdDbInstance}

/-- **Closing an instance** is a sequence of calls. -/
theorem leads_flush (h : Resting db.rowView) (hf : Fileable db.wal.kept) :
    Leads db.io (db.catalog.flush db.io) := by
  have hlog := h.logged.catalog.log
  have hpos : ∀ s ∈ createdSchemas db.wal.kept, 0 < s.id := fun s hs =>
    (h.logged.catalog.schemaIds s hs).1
  have hschemas : ∀ (schemas : List MetaSchema) (io : Disk), FilesOf db.wal.kept io →
      schemas ⊆ db.catalog.schemas → Leads io (schemas.foldl FileIOManager.writeMs io)
        ∧ FilesOf db.wal.kept (schemas.foldl FileIOManager.writeMs io) := by
    intro schemas
    induction schemas with
    | nil => exact fun io hio _ => ⟨.refl io, hio⟩
    | cons s schemas ih =>
      intro io hio hsub
      have hs : s ∈ createdSchemas db.wal.kept :=
        (h.logged.catalog.schemas s).mp (hsub List.mem_cons_self)
      obtain ⟨hrest, hfiles⟩ := ih (FileIOManager.writeMs io s) (hio.writeMs hs) fun x hx =>
        hsub (List.mem_cons_of_mem s hx)
      exact ⟨(Leads.single (c := .writeMs s) (hio.permitted_writeMs hlog hf hs) rfl).trans hrest,
        hfiles⟩
  have htables : ∀ (tables : List MetaTable) (io : Disk), FilesOf db.wal.kept io →
      tables ⊆ db.catalog.tables → Leads io (CatalogCache.flushTables io tables) := by
    intro tables
    induction tables with
    | nil => exact fun io _ _ => .refl io
    | cons table tables ih =>
      intro io hio hsub
      unfold CatalogCache.flushTables
      cases hwrite : FileIOManager.writeMt io table with
      | error e => exact .refl io
      | ok io' =>
        have hentry := entry_of_mem (v := db.rowView) (hsub List.mem_cons_self)
        obtain ⟨t, ht, -, hsame⟩ := h.logged.catalog.exists_created hentry
        have hafter : tableAfter table.id db.wal.kept = some table :=
          (h.logged.catalog.entries table.id trivial).symm.trans hentry
        have hcall := hio.permitted_writeMt hlog hpos ht hsame
          (hf.table hlog List.prefix_rfl hafter)
        exact (Leads.single (c := .writeMt table) hcall hwrite).trans
          (ih io' (hio.of_writeMt hlog hpos ht hsame hwrite).1 fun x hx =>
            hsub (List.mem_cons_of_mem table hx))
  obtain ⟨hfirst, hfiles⟩ := hschemas db.catalog.schemas db.io (filesOf_io h) (List.Subset.refl _)
  exact hfirst.trans (htables db.catalog.tables _ hfiles (List.Subset.refl _))

/-- Every page has seen the records of the log, and its file has too. -/
theorem Settled.seen (h : Settled db) (pageId : DataPageId) {r : WalRecord}
    (hr : r ∈ dataRecords pageId db.wal.kept) :
    ∃ d, db.io.pages pageId = some d ∧ r.lsn ≤ d.lastLsn := by
  have hpages := h.resting.logged.pages
  cases hpage : db.rowView.page pageId with
  | none =>
    have hnil := (hpages.missing pageId hpage).2
    rw [show db.rowView.wal.kept = db.wal.kept from rfl] at hnil
    rw [hnil] at hr
    cases hr
  | some p =>
    have hlogged := hpages.pages pageId p hpage trivial
    obtain ⟨d, hd, -, -, hlsn⟩ := hlogged.clean (h.clean pageId)
    exact ⟨d, hd, (hlogged.seen r hr).trans hlsn.ge⟩

/-- **A clean restart** is a sequence of calls. -/
theorem Settled.leads_reopen (h : Settled db) (hf : Fileable db.wal.kept)
    (hopens : Opens (db.catalog.flush db.io) db.keptLog db.clock db') : Leads db.io db'.io := by
  have hlog := h.resting.logged.catalog.log
  obtain ⟨hleft, hpages⟩ := filesOf_flush h.resting rfl (filesOf_io h.resting)
  have hpages : (db.catalog.flush db.io).pages = db.io.pages := hpages
  rw [keptLog_eq h.durable] at hopens
  obtain ⟨hvisit, hrecover, -, listing, generator⟩ := hopens
  obtain ⟨hfold, -⟩ := (recover_eq_ok hvisit hlog h.resting.committed).mp hrecover
  refine (leads_flush h.resting hf).trans (leads_foldlM hlog hleft hf
    (fun s hs => (h.resting.logged.catalog.schemaIds s hs).1) (fun pageId r hr => ?_) hlog
    List.prefix_rfl hfold)
  rw [hpages]
  exact h.seen pageId hr


/-! ## Statements -/

/-- The file of a new index says what it is. -/
theorem Labelled.createIndexFile (h : db.Labelled) (schemaName tableName : Bytes)
    (mi : MetaIndex) :
    Labelled { db with
      io := (FileIOManager.createIndexFile db.io schemaName tableName mi).2 } := by
  refine ⟨h.pool, fun id dir file hfile => ?_⟩
  change Function.update db.io.indexFiles mi.id _ id = some (dir, file) at hfile
  rw [Function.update_apply] at hfile
  split_ifs at hfile with hid
  · rw [← (Prod.mk.inj (Option.some.inj hfile)).2, hid]
    exact IndexFile.labelled_create mi.id
  · exact h.disk id dir file hfile

/-- What is written of the index files says what it is. -/
theorem Labelled.flushSome (h : db.Labelled) (maxLsn : ℕ) (pages : DataPageId → Bool)
    (files : IndexId → Bool) : (BufferPool.flushSome maxLsn pages files db).Labelled := by
  constructor
  · intro id entry hentry
    obtain ⟨entry₀, hpool, rfl⟩ := Option.map_eq_some_iff.mp hentry
    have hfile := h.pool id entry₀ hpool
    dsimp only
    split_ifs
    · exact hfile
    · exact hfile
  · intro id dir file hfile
    simp only [BufferPool.flushSome] at hfile
    cases hpool : db.pool.indexFiles id with
    | none =>
      rw [hpool] at hfile
      exact h.disk id dir file hfile
    | some entry =>
      rw [hpool] at hfile
      dsimp only at hfile
      split_ifs at hfile
      · obtain ⟨found, -, hwritten⟩ := Option.map_eq_some_iff.mp hfile
        rw [← (Prod.mk.inj hwritten).2]
        exact h.pool id entry hpool
      · exact h.disk id dir file hfile

/-- **The one file that `create_index` makes.** -/
theorem ensures_createIndex_io (indexName tableName columnName schemaName : Bytes)
    (isUnique : Bool) (db : StdDbInstance) :
    Ensures (createIndex indexName tableName columnName schemaName isUnique) db
      (fun _ db' => (∃ table mi, LooksUp db tableName schemaName table ∧ mi.id = db.clock
          ∧ db'.io = (FileIOManager.createIndexFile db.io schemaName table.name mi).2)
        ∧ (db.Labelled → db'.Labelled))
      fun _ _ => True := by
  unfold createIndex
  rw [ensures_bind]
  refine (ensures_getTable tableName schemaName db).mono (fun table db₀ hfound => ?_)
    fun _ _ _ => trivial
  obtain ⟨rfl, hlook⟩ := hfound
  rw [ensures_bind, ensures_liftExcept]
  refine ⟨fun column _ => ?_, fun _ _ => trivial⟩
  rw [ensures_bind]
  show Ensures (appendLog (.createIndex (newIndex db₀ table column indexName isUnique)) >>= _)
    { db₀ with clock := db₀.generator.next db₀.clock } _ _
  set mi := newIndex db₀ table column indexName isUnique
  rw [ensures_bind]
  refine (respects_appendLog (.createIndex mi) _).mono (fun _ db₁ h₁ => ?_) fun _ _ _ => trivial
  rw [ensures_bind]
  refine (respects_getLastLsn db₁).mono (fun lsn db₂ h₂ => ?_) fun _ _ _ => trivial
  have hclock : SameFiles db₀ { db₀ with clock := db₀.generator.next db₀.clock } :=
    sameFiles_of_eq rfl rfl
  have hsame : SameFiles db₀ db₂ := trans_of SameFiles (trans_of SameFiles hclock h₁) h₂
  rw [ensures_bind]
  unfold createTableIndex dirtyIf
  simp only [ensures_bind, ensures_modify]
  simp only [← ensures_bind]
  refine (respects_afterFile table _ mi.id column.id lsn isUnique _ _).mono
    (fun _ db₃ h₃ => ⟨⟨table, mi, hlook, rfl, ?_⟩, fun h => h₃.labelled ?_⟩) fun _ _ _ => trivial
  · rw [← hsame.io]
    exact h₃.io
  · -- the file is made, put into the pool with its LSN, and marked
    have hmade := (hsame.labelled h).createIndexFile schemaName table.name mi
    have hfile : ({ IndexFile.create mi.id with lastLsn := lsn } : IndexFile).Labelled mi.id :=
      ⟨rfl, (IndexFile.labelled_create mi.id).consistent⟩
    have hput := (hmade.putIf hfile).dirtyIf mi.id
    exact ⟨hput.pool, hput.disk⟩

/-! ## What is written at a commit -/

/-- **What an instance writes** has the names of directories and fits its fields. -/
structure Storable (db : StdDbInstance) : Prop where
  ids : db.clock ≤ 256 ^ 16
  log : Fileable db.wal.kept
  pages : ∀ id < db.clock, ∀ p ∈ db.io.pages id, p.Fits
  indexFiles : ∀ id < db.clock, ∀ file ∈ db.io.indexFiles id, file.2.Fits

instance : DecidablePred Storable := fun _ =>
  decidable_of_iff (_ ∧ _ ∧ _ ∧ _) ⟨fun h => ⟨h.1, h.2.1, h.2.2.1, h.2.2.2⟩,
    fun h => ⟨h.ids, h.log, h.pages, h.indexFiles⟩⟩

/-- **Index files have names**: they were made under ids of the past, and say what they
are. -/
structure NamesFiles (db : StdDbInstance) : Prop where
  older : ∀ id, db.clock ≤ id → db.io.indexFiles id = none
  labelled : db.Labelled

theorem NamesFiles.same (h : NamesFiles db) (hsame : SameFiles db db')
    (hclock : db.clock ≤ db'.clock) : NamesFiles db' := by
  refine ⟨fun id hid => ?_, hsame.labelled h.labelled⟩
  rw [hsame.io]
  exact h.older id (hclock.trans hid)

theorem NamesFiles.flushSome (h : NamesFiles db) (maxLsn : ℕ) (pages : DataPageId → Bool)
    (files : IndexId → Bool) : NamesFiles (BufferPool.flushSome maxLsn pages files db) :=
  ⟨fun id hid => indexFiles_flushSome (h.older id hid), h.labelled.flushSome maxLsn pages files⟩

/-- **A page that is seen may be written**, under the path that it has on disk. -/
theorem permitted_writePage {H : List WalRecord} (h : Logged H Set.univ db.rowView)
    (hshelved : Shelved db.rowView) (hf : Fileable H) {id : DataPageId} {p : DataPage}
    (hp : db.page id = some p) (hfits : p.Fits) : (Change.writePage p).Permitted db.io := by
  have hid : p.id = id := h.pages.ok.named id p hp
  have hlogged := h.pages.pages id p hp trivial
  obtain ⟨t, ht, htid, s, hs, hsid, hpath⟩ := hlogged.placed
  obtain ⟨mt, hmt⟩ := h.catalog.log.exists_tableAfter ht
  obtain ⟨t', ht', hid', hsame⟩ := h.catalog.log.created_of_tableAfter hmt
  obtain rfl := (h.catalog.log.table_unique t' ht' t ht).1 hid'
  have hentry : db.rowView.entry t'.id = some mt := (h.catalog.entries t'.id trivial).trans hmt
  -- the schema of the table's directory is on disk
  obtain ⟨s', hs', hsid'⟩ := hshelved t'.id mt hentry
    (List.ne_nil_of_mem (htid ▸ hlogged.listed))
  have hs'H := h.catalog.ioSchemas s' hs'
  obtain rfl := (h.catalog.log.schema_unique s' hs'H s hs).1
    (hsid'.trans (hsame.2.2.symm.trans hsid.symm))
  refine ⟨hfits, ?_, ?_, fun q hq => ?_⟩
  · rw [hpath]
    show PlainName t'.name
    rw [hsame.2.1]
    exact (hf.table h.catalog.log List.prefix_rfl hmt).2
  · rw [hpath]
    exact List.mem_append_left _ (List.mem_map_of_mem hs')
  · obtain ⟨base, hbase, -⟩ := hlogged.base
    rcases hbase.found with hfound | ⟨hnone, -⟩
    · rw [hid] at hq
      rw [Option.some.inj (hq.symm.trans hfound), hbase.path]
    · rw [hid] at hq
      exact absurd (hnone.symm.trans hq) (Option.some_ne_none q).symm

/-- The pages that a flush writes. -/
theorem leads_flushedPages {H : List WalRecord} (h : Logged H Set.univ db.rowView)
    (hshelved : Shelved db.rowView) (hf : Fileable H) {maxLsn : ℕ}
    (hfits : ∀ id < db.clock, ∀ p ∈ (flushDirty maxLsn db).io.pages id, p.Fits) :
    Leads db.io { db.io with pages := (flushDirty maxLsn db).io.pages } := by
  -- what is in the pool has an id of the past
  have hpool : ∀ id entry, db.pool.dataPages id = some entry →
      db.page id = some entry.value ∧ id < db.clock := by
    intro id entry hentry
    have hpage : db.page id = some entry.value := by
      unfold page
      rw [hentry]
    exact ⟨hpage, h.pages.ok.older id entry.value hpage⟩
  refine leads_pages (n := db.clock) (fun id hid => ?_) fun id hne => ?_
  · cases hentry : db.pool.dataPages id with
    | none => simp only [flushDirty, flushSome, hentry]
    | some entry => exact absurd (hpool id entry hentry).2 (Nat.not_lt.mpr hid)
  · cases hentry : db.pool.dataPages id with
    | none => exact absurd (by simp only [flushDirty, flushSome, hentry]) hne
    | some entry =>
      obtain ⟨hpage, hlt⟩ := hpool id entry hentry
      have hwritten : (flushDirty maxLsn db).io.pages id = some entry.value := by
        simp only [flushDirty, flushSome, hentry] at hne ⊢
        split_ifs at hne ⊢ with hdue
        · rfl
        · exact absurd rfl hne
      exact ⟨entry.value, hwritten, h.pages.ok.named id entry.value hpage,
        permitted_writePage h hshelved hf hpage (hfits id hlt entry.value hwritten)⟩

/-- The index files that a flush writes over. -/
theorem leads_flushedFiles (hnamed : NamesFiles db) {maxLsn : ℕ}
    (hfits : ∀ id < db.clock, ∀ file ∈ (flushDirty maxLsn db).io.indexFiles id, file.2.Fits)
    {disk : Disk} (hdisk : disk.indexFiles = db.io.indexFiles) :
    Leads disk { disk with indexFiles := (flushDirty maxLsn db).io.indexFiles } := by
  have hlater := hnamed.flushSome maxLsn (fun _ => true) fun _ => true
  refine leads_indexFiles (n := db.clock) (fun id hid => ?_) fun id hne => ?_
  · rw [hdisk]
    exact (hlater.older id hid).trans (hnamed.older id hid).symm
  · rw [hdisk] at hne ⊢
    cases hfile : db.io.indexFiles id with
    | none => exact absurd ((indexFiles_flushSome hfile).trans hfile.symm) hne
    | some found =>
      cases hentry : db.pool.indexFiles id with
      | none => exact absurd (by simp only [flushDirty, flushSome, hentry]) hne
      | some entry =>
        have hwritten : (flushDirty maxLsn db).io.indexFiles id = some (found.1, entry.value) := by
          simp only [flushDirty, flushSome, hentry, hfile] at hne ⊢
          split_ifs at hne ⊢ with hdue
          · rfl
          · exact absurd rfl hne
        have hlt : id < db.clock := by
          by_contra hid
          rw [hnamed.older id (Nat.not_lt.mp hid)] at hfile
          cases hfile
        have hsays := hlater.labelled.disk id _ _ hwritten
        exact ⟨found.1, found.2, entry.value, rfl, hwritten, hsays.indexId,
          hfits id hlt _ hwritten, hsays.consistent⟩

/-- **A flush** is a sequence of calls. -/
theorem leads_flushDirty {H : List WalRecord} (h : Logged H Set.univ db.rowView)
    (hshelved : Shelved db.rowView) (hnamed : NamesFiles db) (hf : Fileable H) {maxLsn : ℕ}
    (hpages : ∀ id < db.clock, ∀ p ∈ (flushDirty maxLsn db).io.pages id, p.Fits)
    (hfiles : ∀ id < db.clock, ∀ file ∈ (flushDirty maxLsn db).io.indexFiles id, file.2.Fits) :
    Leads db.io (flushDirty maxLsn db).io :=
  (leads_flushedPages h hshelved hf hpages).trans (leads_flushedFiles hnamed hfiles rfl)

/-! ## Runs -/

/-- **An instance whose files have been written by calls**, each of which its callers
may make. -/
structure Filed (db : StdDbInstance) : Prop where
  settled : Settled db
  shelved : Shelved db.rowView
  named : NamesFiles db
  storable : Storable db
  led : Leads {} db.io

theorem TableStep.clock_le {v v' : RowView} (h : TableStep v v') : v.clock ≤ v'.clock := by
  cases h with
  | idle steady => exact steady.clock
  | create saves | insert _ saves | update _ _ _ saves | delete _ _ saves | createIndex _ saves
  | dropIndex _ saves => exact saves.clock

theorem TableSteps.clock_le {v v' : RowView} (h : TableSteps v v') : v.clock ≤ v'.clock :=
  h.preserves (P := fun w => v.clock ≤ w.clock)
    (fun _ _ hle hstep => hle.trans (TableStep.clock_le hstep)) le_rfl

/-- The names of what is looked up are those of directories. -/
theorem Filed.plainNames (h : Filed db) {tableName schemaName : Bytes} {mt : MetaTable}
    (hlook : LooksUp db tableName schemaName mt) :
    PlainName mt.name ∧ PlainName schemaName ∧ schemaName ≠ DatabaseDirectory.pathWal := by
  have hcatalog := h.settled.resting.logged.catalog
  have hafter : tableAfter mt.id db.wal.kept = some mt :=
    (hcatalog.entries mt.id trivial).symm.trans hlook.entry
  obtain ⟨s, hs, -⟩ := hlook
  have hs : (db.catalog.schemas.find? fun s => s.name = schemaName) = some s := hs
  have hmem := (hcatalog.schemas s).mp (List.mem_of_find?_eq_some hs)
  have hname : s.name = schemaName := by simpa using List.find?_some hs
  rw [← hname]
  exact ⟨(h.storable.log.table hcatalog.log List.prefix_rfl hafter).2,
    (h.storable.log.schemas s hmem).2⟩

/-- What the body of a statement does to the files. -/
theorem Filed.ensures_body (h : Filed db) {db₁ : StdDbInstance}
    (hrunning : Running Set.univ db₁.rowView) (hcatalog : db₁.catalog = db.catalog)
    (hio : db₁.io = db.io) (hnamed : NamesFiles db₁) {st : Statement}
    (hanalyze : st.analyze db₁ = true) :
    Ensures st.body db₁ (fun _ db₂ => (db₂.clock ≤ 256 ^ 16 → Leads db.io db₂.io)
      ∧ NamesFiles db₂) fun _ _ => True := by
  refine ensures_iff.mpr ⟨fun _ db₂ hrun => ?_, fun _ _ _ => trivial⟩
  have hle : db₁.clock ≤ db₂.clock :=
    TableSteps.clock_le ((steps_body st hrunning hanalyze).of_ok hrun)
  cases hindex : st.makesIndex with
  | false =>
    have hsame := (respects_body_of_noIndex hindex).of_ok hrun
    rw [hsame.io, hio]
    exact ⟨fun _ => .refl _, hnamed.same hsame hle⟩
  | true =>
    cases st with
    | createIndex indexName tableName columnName schemaName isUnique =>
      obtain ⟨⟨table, mi, hlook, hid, hmade⟩, hlabelled⟩ := (ensures_createIndex_io indexName
        tableName columnName schemaName isUnique db₁).of_ok hrun
      obtain ⟨_, _, _, -, -, -, hview, -⟩ := (ensures_createIndex hrunning.active
        hrunning.logged.pages.ok indexName tableName columnName schemaName isUnique).of_ok hrun
      have hlt : db₁.clock < db₂.clock := by
        rw [show db₂.clock = _ from congrArg RowView.clock hview]
        exact UUIDGenerator.lt_next _ _
      have hlook' : LooksUp db tableName schemaName table := by
        unfold LooksUp at hlook ⊢
        rwa [← hcatalog]
      obtain ⟨htable, hschema⟩ := h.plainNames hlook'
      refine ⟨fun hids => ?_, fun id hid' => ?_, hlabelled hnamed.labelled⟩
      · rw [hmade, hio]
        refine .single (c := .createIndexFile schemaName table.name mi)
          ⟨?_, htable, hschema, fun dir file hfile => ?_⟩ rfl
        · rw [hid]
          exact hlt.trans_le hids
        · rw [hid, ← hio, hnamed.older _ le_rfl] at hfile
          cases hfile
      · rw [hmade]
        show Function.update db₁.io.indexFiles mi.id _ id = none
        rw [hid, Function.update_of_ne (hlt.trans_le hid').ne']
        exact hnamed.older id (hle.trans hid')
    | _ => cases hindex

/-- What a commit does to the files. -/
theorem ensures_commit_leads (hrunning : Running Set.univ db.rowView)
    (hshelved : Shelved db.rowView) (hnamed : NamesFiles db) :
    Ensures commit db (fun _ db' => (Storable db' → Leads db.io db'.io) ∧ NamesFiles db'
      ∧ db.clock ≤ db'.clock) fun _ _ => True := by
  unfold commit
  rw [ensures_bind]
  refine ensures_iff.mpr ⟨fun _ db₁ hcommit => ?_, fun _ _ _ => trivial⟩
  obtain ⟨hresting, -, -⟩ := (resting_commitLog hrunning).of_ok hcommit
  have hsteady := (steady_commitLog db).of_ok hcommit
  have hsame := respects_commitLog.of_ok hcommit
  have hnamed₁ := hnamed.same hsame hsteady.clock
  have hlater := hnamed₁.flushSome db₁.txn.lastLsn (fun _ => true) fun _ => true
  show Ensures (modify _ >>= fun _ => modify _) _ _ _
  rw [ensures_bind, ensures_modify, ensures_modify]
  refine ⟨fun hstorable => ?_, ⟨hlater.older, hlater.labelled.pool, hlater.labelled.disk⟩,
    hsteady.clock⟩
  rw [← hsame.io]
  exact leads_flushDirty hresting.logged (hshelved.step (.idle hsteady)) hnamed₁ hstorable.log
    hstorable.pages hstorable.indexFiles

/-- **A statement** writes its index file and, when it commits, its pages. -/
theorem Filed.next (h : Filed db) {st : Statement} (hanalyze : st.analyze db = true) :
    Ensures st.next db (fun _ db' => (Storable db' → Leads db.io db'.io) ∧ NamesFiles db')
      fun _ _ => True := by
  have hbegin : Ensures (makeTransaction >>= fun _ => begin) db
      (fun _ db₁ => Ensures (st.body >>= fun _ => commit) db₁
        (fun _ db' => (Storable db' → Leads db.io db'.io) ∧ NamesFiles db') fun _ _ => True)
      fun _ _ => True := by
    refine ensures_iff.mpr ⟨fun _ db₁ hrun => ?_, fun _ _ _ => trivial⟩
    obtain ⟨hrunning, hcatalog⟩ := (running_begin h.settled.resting).of_ok hrun
    have hsteady := (steady_begin db).of_ok hrun
    have hsame := respects_beginning.of_ok hrun
    have hanalyze₁ : st.analyze db₁ = true := (analyze_congr st hcatalog).trans hanalyze
    rw [ensures_bind]
    refine ensures_iff.mpr ⟨fun _ db₂ hbody => ?_, fun _ _ _ => trivial⟩
    obtain ⟨hled, hnamed⟩ := (h.ensures_body hrunning hcatalog hsame.io
      (h.named.same hsame hsteady.clock) hanalyze₁).of_ok hbody
    have hshelved : Shelved db₂.rowView :=
      ((steps_body st hrunning hanalyze₁).of_ok hbody).preserves (fun _ _ h => h.step)
        (h.shelved.step (.idle hsteady))
    have hrunning₂ := (st.running_body hrunning hanalyze₁).of_ok hbody
    refine (ensures_commit_leads hrunning₂ hshelved hnamed).mono (fun _ db₃ hcommit => ?_)
      fun _ _ _ => trivial
    obtain ⟨hflush, hlater, hclock⟩ := hcommit
    exact ⟨fun hstorable => (hled (hclock.trans hstorable.ids)).trans (hflush hstorable), hlater⟩
  unfold Statement.next
  rw [ensures_bind] at hbegin ⊢
  refine hbegin.mono (fun _ db₁ hrest => ?_) fun _ _ _ => trivial
  rw [ensures_bind]
  exact hrest

/-- Closing an instance writes no index file. -/
theorem indexFiles_flush (catalog : CatalogCache) (io : Disk) :
    (catalog.flush io).indexFiles = io.indexFiles := by
  have htables : ∀ (tables : List MetaTable) (io : Disk),
      (CatalogCache.flushTables io tables).indexFiles = io.indexFiles := by
    intro tables
    induction tables with
    | nil => exact fun io => rfl
    | cons table tables ih =>
      intro io
      unfold CatalogCache.flushTables
      cases hwrite : FileIOManager.writeMt io table with
      | error e => rfl
      | ok io' =>
        obtain ⟨schema, -, rfl⟩ := FileIOManager.writeMt_eq_ok hwrite
        exact ih _
  have hschemas : ∀ (schemas : List MetaSchema) (io : Disk),
      (schemas.foldl FileIOManager.writeMs io).indexFiles = io.indexFiles := by
    intro schemas
    induction schemas with
    | nil => exact fun io => rfl
    | cons schema schemas ih => exact fun io => ih (FileIOManager.writeMs io schema)
  exact (htables catalog.tables _).trans (hschemas catalog.schemas io)

/-- **A clean restart** finds the index files of the past. -/
theorem Settled.namesFiles_reopen (h : Settled db) (hnamed : NamesFiles db)
    (hopens : Opens (db.catalog.flush db.io) db.keptLog db.clock db') : NamesFiles db' := by
  rw [keptLog_eq h.durable] at hopens
  obtain ⟨hvisit, hrecover, hclock, listing, generator⟩ := hopens
  obtain ⟨hfold, -⟩ := (recover_eq_ok hvisit h.resting.logged.catalog.log
    h.resting.committed).mp hrecover
  refine ⟨fun id hid => ?_, fun id entry hentry => (nomatch hentry), fun id dir file hfile => ?_⟩
  · refine indexFiles_foldlM_eq_none hfold ?_
    rw [indexFiles_flush]
    exact hnamed.older id (hclock.trans hid)
  · have hbefore := indexFiles_foldlM hfold hfile
    rw [indexFiles_flush] at hbefore
    exact hnamed.labelled.disk id dir file hbefore

/-- **One event.** -/
theorem Filed.step (h : Filed db) {e : Event} (hstep : Occurs db e db')
    (hstorable : Storable db') : Filed db' := by
  cases hstep with
  | execute hanalyze hnext =>
    obtain ⟨hled, hnamed⟩ := (h.next hanalyze).of_ok hnext
    exact ⟨(settled_next h.settled hanalyze).of_ok hnext,
      ((steps_next h.settled hanalyze).of_ok hnext).preserves (fun _ _ h => h.step) h.shelved,
      hnamed, hstorable, h.led.trans (hled hstorable)⟩
  | restart hopens =>
    exact ⟨(h.settled.reopen hopens).1,
      fun t mt hentry _ => (h.settled.reopened hopens).schemas t mt hentry,
      h.settled.namesFiles_reopen h.named hopens, hstorable,
      h.led.trans (h.settled.leads_reopen h.storable.log hopens)⟩

theorem filed_new (generator : UUIDGenerator) : Filed { generator } where
  settled := settled_new generator
  shelved := shelved_new generator
  named := ⟨fun _ _ => rfl, fun _ _ h => (nomatch h), fun _ _ _ h => (nomatch h)⟩
  storable := ⟨Nat.one_le_pow _ _ (by decide), show Fileable [] by decide,
    fun _ _ _ h => (nomatch h), fun _ _ _ h => (nomatch h)⟩
  led := .refl _

/-- **The directory tree of a run.** In a tree in which the database is new, calls of the
`FileIOManager` can be made one after the other that all return, from the beginning of a
run of statements and clean restarts to its end, and leave a directory from which is read
what is read from the disk of the instance, and everything else as it was. -/
theorem readsAlike_of_run {generator : UUIDGenerator} {es : List Event}
    (hrun : Run (fun db e db' => Occurs db e db' ∧ Storable db') { generator } es db)
    {dbName : Bytes} {fs : FileTree Bytes Bytes} (hnone : fs.node [dbName] = none) :
    ∃ fs₀, DatabaseDirectory.init dbName fs = .ok fs₀ ∧ ∃ changes : List Change,
      runOnDisk {} (changes.map .change) = (db.io, changes.map fun _ => none)
        ∧ (runOnTree dbName fs₀ (changes.map .change)).2 = changes.map (fun _ => none)
        ∧ ReadsAlike dbName (runOnTree dbName fs₀ (changes.map .change)).1 db.io
        ∧ ∀ path, Elsewhere dbName path → path ≠ [dbName] →
          (runOnTree dbName fs₀ (changes.map .change)).1.node path = fs.node path := by
  have hfiled : Filed db := hrun.invariant (fun _ _ _ h hstep => h.step hstep.1 hstep.2)
    (filed_new generator)
  obtain ⟨changes, hpermitted, hends⟩ := hfiled.led.exists_run dbName
  obtain ⟨fs₀, hinit, hrep, hsame₀⟩ := represents_init hnone
  obtain ⟨halike, hlast, horderly, hsame⟩ := hrep.run orderly_empty hpermitted
  rw [hends] at halike hlast horderly
  refine ⟨fs₀, hinit, changes, hends, halike, hlast.readsAlike horderly, fun path hpath hne => ?_⟩
  rw [hsame path hpath fun e he => ?_, hsame₀ path hne]
  obtain ⟨c, -, rfl⟩ := List.mem_map.mp he
  exact fun htouches => htouches

/-- The files of the session with a row, in an empty tree. -/
theorem readsAlike_oneRow : ∃ fs₀, DatabaseDirectory.init [100] FileTree.empty = .ok fs₀ ∧
    ∃ changes : List Change,
      runOnDisk {} (changes.map .change) = (oneRowSession.io, changes.map fun _ => none)
        ∧ (runOnTree [100] fs₀ (changes.map .change)).2 = changes.map (fun _ => none)
        ∧ ReadsAlike [100] (runOnTree [100] fs₀ (changes.map .change)).1 oneRowSession.io
        ∧ ∀ path, Elsewhere [100] path → path ≠ [[100]] →
          (runOnTree [100] fs₀ (changes.map .change)).1.node path = FileTree.empty.node path := by
  have hrun : Run (fun db e db' => Occurs db e db' ∧ Storable db') {}
      [.execute createSchema₁, .restart, .execute createTable₁, .execute insert₁] oneRowSession :=
    .cons ⟨Statement.occurs_of_returns (by decide +kernel), by decide +kernel⟩
      (.cons ⟨occurs_secondSession, by decide +kernel⟩
        (.cons ⟨Statement.occurs_of_returns (by decide +kernel), by decide +kernel⟩
          (.single ⟨Statement.occurs_of_returns (by decide +kernel), by decide +kernel⟩)))
  exact readsAlike_of_run hrun (by simp)

end StdDbInstance
