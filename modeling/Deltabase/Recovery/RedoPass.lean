import Deltabase.Lib.Program
import Deltabase.Recovery.History

/-!
# The redo pass

What the redo loop of `RecoveryManager::recover` leaves on disk, for a log of
one instance and whatever part of its effects had reached the disk before.

The argument is an induction along the log. `Redone` says where the pass stands
after a part `A` of the log `H`: the schemas and tables `A` creates are on disk
as `A` leaves them, and each page has been brought from where it was to where
`A` takes it. The page-LSN guard is what makes the second half work: a page
that had already seen a record has an LSN that is not smaller, so the records
that are applied are exactly those the page had not seen.
-/

namespace History

open RecoveryManager FileIOManager

variable {H A logs : List WalRecord} {disk disk₀ : Disk} {r : WalRecord}

/-- A meta file that the history `H` puts where it is: the file of a table it
creates, in the directory of that table's schema. -/
def Placed (H : List WalRecord) (file : TableFile) : Prop :=
  ∃ t ∈ createdTables H, t.SameTable file.table
    ∧ ∃ s ∈ createdSchemas H, s.id = t.schemaId ∧ file.schemaName = s.name

/-- **The files of a history**: no metadata file, older or newer, that the
history does not put there, and every page file named after its page. -/
structure FilesOf (H : List WalRecord) (disk : Disk) : Prop where
  schemas : ∀ s ∈ disk.schemas, s ∈ createdSchemas H
  tables : ∀ file ∈ disk.tables, Placed H file
  pages : ∀ id page, disk.pages id = some page → page.id = id

/-- **Every schema directory gets its meta file in time**: where one has none,
the record that creates its schema is older than every record that creates a
table. A table's meta file can only be written when each directory has one. -/
def Mended (H : List WalRecord) (disk : Disk) : Prop :=
  ∀ name ∈ disk.headless, ∀ r ∈ H, ∀ mt, r.body = .createTable mt →
    ∃ c ∈ H, ∃ s, c.body = .createSchema s ∧ s.name = name ∧ c.lsn < r.lsn

/-- **The files of a history that can be redone over.** -/
structure LeftBy (H : List WalRecord) (disk : Disk) : Prop extends FilesOf H disk where
  mended : Mended H disk

/-- With fewer directories to mend there is less to ask. -/
theorem Mended.mono (h : Mended H disk) {disk' : Disk} (hsub : disk'.headless ⊆ disk.headless) :
    Mended H disk' := fun name hname => h name (hsub hname)

/-- Where every schema directory has its meta file, nothing is to be mended. -/
theorem mended_of_nil (h : disk.headless = []) : Mended H disk := by
  intro name hname
  rw [h] at hname
  cases hname

/-- Two files of one history are at the same path exactly when they are files
of the same table. -/
theorem Placed.path_iff (hH : InstanceLog H) {f g : TableFile} (hf : Placed H f)
    (hg : Placed H g) : f.path = g.path ↔ f.table.id = g.table.id := by
  obtain ⟨t, ht, ⟨hid, hname, hschema⟩, s, hs, hsid, hsname⟩ := hf
  obtain ⟨t', ht', ⟨hid', hname', hschema'⟩, s', hs', hsid', hsname'⟩ := hg
  unfold TableFile.path
  rw [Prod.mk.injEq, hsname, hsname', ← hname, ← hname', ← hid, ← hid']
  constructor
  · rintro ⟨hs_eq, hn_eq⟩
    have hsch : s = s' := (hH.schema_unique s hs s' hs').2 hs_eq
    rw [(hH.table_unique t ht t' ht').2 (by rw [← hsid, ← hsid', hsch]) hn_eq]
  · intro hid_eq
    have htab : t = t' := (hH.table_unique t ht t' ht').1 hid_eq
    have hsch : s = s' := (hH.schema_unique s hs s' hs').1 (by rw [hsid, hsid', htab])
    rw [htab, hsch]
    exact ⟨rfl, rfl⟩

/-- A schema of the history that is on disk is found by its id. -/
theorem FilesOf.readSchemaMeta (hleft : FilesOf H disk) (hH : InstanceLog H)
    (hheadless : disk.headless = []) {s : MetaSchema} (hs : s ∈ disk.schemas) :
    FileIOManager.readSchemaMeta disk s.id = .ok s :=
  readSchemaMeta_of_mem hheadless hs fun s' hs' hid =>
    (hH.schema_unique s' (hleft.schemas s' hs') s (hleft.schemas s hs)).1 hid

/-- **Writing the meta file of a table**: it is read back by the table's id,
and every other table's file stays. -/
theorem FilesOf.writeMt (hleft : FilesOf H disk) (hH : InstanceLog H)
    (hheadless : disk.headless = []) {t mt : MetaTable} (ht : t ∈ createdTables H)
    (hsame : t.SameTable mt) {s : MetaSchema} (hs : s ∈ disk.schemas) (hsid : s.id = mt.schemaId) :
    ∃ disk', FileIOManager.writeMt disk mt = .ok disk' ∧ disk'.schemas = disk.schemas
      ∧ disk'.headless = [] ∧ disk'.pages = disk.pages ∧ FilesOf H disk'
      ∧ ∀ id, readTableMeta disk' id = if mt.id = id then .ok mt else readTableMeta disk id := by
  have hread := hleft.readSchemaMeta hH hheadless hs
  rw [hsid] at hread
  have hplaced : Placed H ⟨s.name, mt⟩ :=
    ⟨t, ht, hsame, s, hleft.schemas s hs, hsid.trans hsame.2.2.symm, rfl⟩
  have hkey : upsert TableFile.path ⟨s.name, mt⟩ disk.tables
      = upsert (fun f => f.table.id) ⟨s.name, mt⟩ disk.tables :=
    upsert_congr fun f hf => (hleft.tables f hf).path_iff hH hplaced
  refine ⟨{ disk with tables := upsert TableFile.path ⟨s.name, mt⟩ disk.tables }, ?_, rfl,
    hheadless, rfl, ⟨hleft.schemas, fun f hf => ?_, hleft.pages⟩, fun id => ?_⟩
  · unfold FileIOManager.writeMt
    rw [hread]
    rfl
  · rcases mem_of_mem_upsert hf with rfl | hf
    exacts [hplaced, hleft.tables f hf]
  · unfold readTableMeta
    rw [hkey, find?_upsert]
    split_ifs <;> rfl

/-! ## One page -/

/-- The page redo starts from: the page that was on disk, or, when there was
none, the empty page that the first record makes below its table's directory. -/
def StartsFrom (H : List WalRecord) (pageId : DataPageId) (records : List WalRecord)
    (found : Option DataPage) (base : DataPage) : Prop :=
  found = some base ∨ found = none ∧ ∃ t ∈ createdTables H, ∃ s ∈ createdSchemas H,
    s.id = t.schemaId ∧ base = DataPage.make (s.name, t.name) t.id pageId
      ∧ ∃ r ∈ records, r.body.dataRef = some (t.id, pageId)

/-- **A page brought forward by its records**: those younger than the page
have been applied, one after the other, and nothing but the rows and the LSN
has changed. -/
structure Grown (base : DataPage) (records : List WalRecord) (page : DataPage) : Prop where
  rows : page.rows = replayRows base.rows (records.filter fun r => base.lastLsn < r.lsn)
  next : page.next = base.next
  id : page.id = base.id
  tableId : page.tableId = base.tableId
  path : page.path = base.path
  le_lastLsn : ∀ r ∈ records, r.lsn ≤ page.lastLsn
  lastLsn : page.lastLsn = base.lastLsn ∨ base.lastLsn ≤ page.lastLsn
    ∧ ∃ r ∈ records, r.lsn = page.lastLsn

/-- Where redo stands with a page after some of its records. -/
def PageRedone (H : List WalRecord) (pageId : DataPageId) (records : List WalRecord)
    (found after : Option DataPage) : Prop :=
  found = none ∧ records = [] ∧ after = none
    ∨ ∃ base page, StartsFrom H pageId records found base ∧ after = some page
      ∧ Grown base records page

theorem Grown.refl (base : DataPage) : Grown base [] base :=
  ⟨rfl, rfl, rfl, rfl, rfl, by simp, .inl rfl⟩

theorem PageRedone.refl (H : List WalRecord) (pageId : DataPageId) (found : Option DataPage) :
    PageRedone H pageId [] found found := by
  cases found with
  | none => exact .inl ⟨rfl, rfl, rfl⟩
  | some base => exact .inr ⟨base, base, .inl rfl, rfl, .refl base⟩

theorem Grown.base_le {base page : DataPage} {records : List WalRecord}
    (h : Grown base records page) : base.lastLsn ≤ page.lastLsn := by
  rcases h.lastLsn with h | ⟨h, -⟩
  exacts [h.ge, h]

theorem Grown.reread {base page : DataPage} {records : List WalRecord}
    (h : Grown base records page) : Grown base records page.reread :=
  ⟨h.rows, h.next, h.id, h.tableId, h.path, h.le_lastLsn, h.lastLsn⟩

/-- A record the page had not seen is applied. -/
theorem Grown.apply {base page : DataPage} {records : List WalRecord}
    (h : Grown base records page) (hlt : page.lastLsn < r.lsn) :
    Grown base (records ++ [r])
      { page with rows := redoRows r.body page.rows, lastLsn := r.lsn } where
  rows := by
    have hbase : base.lastLsn < r.lsn := lt_of_le_of_lt h.base_le hlt
    rw [List.filter_append, List.filter_singleton, decide_eq_true hbase, cond_true,
      replayRows_append, ← h.rows]
    rfl
  next := h.next
  id := h.id
  tableId := h.tableId
  path := h.path
  le_lastLsn r' hr' := by
    rcases List.mem_append.mp hr' with hr' | hr'
    · exact (h.le_lastLsn r' hr').trans hlt.le
    · rw [List.mem_singleton.mp hr']
  lastLsn := .inr ⟨h.base_le.trans hlt.le, r, by simp, rfl⟩

/-- A record the page had seen is skipped. -/
theorem Grown.skip {base page : DataPage} {records : List WalRecord}
    (h : Grown base records page) (hnew : ∀ r' ∈ records, r'.lsn < r.lsn)
    (hle : ¬ page.lastLsn < r.lsn) : Grown base (records ++ [r]) page where
  rows := by
    have hlast : page.lastLsn = base.lastLsn := by
      rcases h.lastLsn with h | ⟨-, r', hr', hlsn⟩
      · exact h
      · exact absurd (hlsn ▸ hnew r' hr') hle
    have hbase : ¬ base.lastLsn < r.lsn := hlast ▸ hle
    rw [List.filter_append, List.filter_singleton, decide_eq_false hbase, cond_false,
      List.append_nil, ← h.rows]
  next := h.next
  id := h.id
  tableId := h.tableId
  path := h.path
  le_lastLsn r' hr' := by
    rcases List.mem_append.mp hr' with hr' | hr'
    · exact h.le_lastLsn r' hr'
    · rw [List.mem_singleton.mp hr']
      exact not_lt.mp hle
  lastLsn := h.lastLsn.imp_right fun ⟨hle, r', hr', hlsn⟩ =>
    ⟨hle, r', List.mem_append_left _ hr', hlsn⟩

theorem StartsFrom.append {pageId : DataPageId} {records : List WalRecord}
    {found : Option DataPage} {base : DataPage} (h : StartsFrom H pageId records found base) :
    StartsFrom H pageId (records ++ [r]) found base := by
  rcases h with h | ⟨h, t, ht, s, hs, hsid, hbase, r', hr', href⟩
  · exact .inl h
  · exact .inr ⟨h, t, ht, s, hs, hsid, hbase, r', List.mem_append_left _ hr', href⟩

/-! ## The whole disk -/

/-- **Where the redo pass stands** after the part `A` of the log `H`, started
on `disk₀`. -/
structure Redone (H A : List WalRecord) (disk₀ disk : Disk) : Prop where
  left : FilesOf H disk
  schemas : ∀ s ∈ createdSchemas A, s ∈ disk.schemas
  headless : ∀ t ∈ createdTables A, disk.headless = []
  tables : ∀ id mt, tableAfter id A = some mt → readTableMeta disk id = .ok mt
  pages : ∀ pageId, PageRedone H pageId (dataRecords pageId A) (disk₀.pages pageId)
    (disk.pages pageId)

theorem Redone.nil (hleft : FilesOf H disk₀) : Redone H [] disk₀ disk₀ where
  left := hleft
  schemas s hs := by cases hs
  headless t ht := by cases ht
  tables id mt h := by cases h
  pages pageId := .refl H pageId _

namespace Redone

/-- A table created so far has its metadata and its schema on disk. -/
theorem exists_table (h : Redone H A disk₀ disk) (hA : InstanceLog A) {t : MetaTable}
    (ht : t ∈ createdTables A) :
    ∃ mt, tableAfter t.id A = some mt ∧ readTableMeta disk t.id = .ok mt ∧ t.SameTable mt
      ∧ ∃ s ∈ disk.schemas, s ∈ createdSchemas A ∧ s.id = mt.schemaId := by
  obtain ⟨mt, hmt⟩ := hA.exists_tableAfter ht
  obtain ⟨t', ht', hid, hsame⟩ := hA.created_of_tableAfter hmt
  obtain rfl : t' = t := (hA.table_unique t' ht' t ht).1 hid
  obtain ⟨s, hs, hsid⟩ := hA.exists_schema t' ht
  exact ⟨mt, hmt, h.tables _ _ hmt, hsame, s, h.schemas s hs, hs, hsid.trans hsame.2.2⟩

/-- What a record without a page does leaves the pages where they are. -/
theorem pages_of_not_data (h : Redone H A disk₀ disk) (hr : r.body.dataRef = none)
    (pageId : DataPageId) :
    PageRedone H pageId (dataRecords pageId (A ++ [r])) (disk₀.pages pageId)
      (disk.pages pageId) := by
  have hnone : dataRecords pageId [r] = [] := by simp [dataRecords, hr]
  rw [dataRecords_append, hnone, List.append_nil]
  exact h.pages pageId

/-- **The page a data record is applied to**: the one on disk, or the one that
is made for it. -/
theorem exists_page (h : Redone H A disk₀ disk) (hH : InstanceLog H) (hsub : A ⊆ H)
    (hheadless : disk.headless = []) (hpos : 0 < r.lsn) {t mt : MetaTable}
    (ht : t ∈ createdTables A) (hsame : t.SameTable mt) {pageId : DataPageId}
    (href : r.body.dataRef = some (t.id, pageId)) {s : MetaSchema} (hs : s ∈ disk.schemas)
    (hsA : s ∈ createdSchemas A) (hsid : s.id = mt.schemaId) :
    ∃ base page, readOrCreatePage disk mt pageId = .ok page ∧ page.id = pageId
      ∧ StartsFrom H pageId (dataRecords pageId A ++ [r]) (disk₀.pages pageId) base
      ∧ Grown base (dataRecords pageId A) page
      ∧ (¬ page.lastLsn < r.lsn → ∃ d, disk.pages pageId = some d
          ∧ Grown base (dataRecords pageId A) d ∧ d.lastLsn = page.lastLsn) := by
  rcases h.pages pageId with ⟨hfound, hrecs, hafter⟩ | ⟨base, page, hstart, hafter, hgrown⟩
  · refine ⟨_, DataPage.make (s.name, t.name) t.id pageId, ?_, rfl, .inr ⟨hfound, t, ?_, s, ?_,
      hsid.trans hsame.2.2.symm, rfl, r, by simp, href⟩, ?_, fun hle => absurd hpos hle⟩
    · have hread := h.left.readSchemaMeta hH hheadless hs
      rw [hsid] at hread
      rw [readOrCreatePage, readDataPage, hafter, Option.map_none]
      show createPage disk mt pageId = _
      unfold createPage
      rw [hread, hsame.1, hsame.2.1]
      rfl
    · obtain ⟨a, ha, hbody⟩ := mem_createdTables.mp ht
      exact mem_createdTables.mpr ⟨a, hsub ha, hbody⟩
    · obtain ⟨a, ha, hbody⟩ := mem_createdSchemas.mp hsA
      exact mem_createdSchemas.mpr ⟨a, hsub ha, hbody⟩
    · rw [hrecs]
      exact .refl _
  · refine ⟨base, page.reread, ?_, h.left.pages pageId page hafter, hstart.append, hgrown.reread,
      fun _ => ⟨page, hafter, hgrown, rfl⟩⟩
    rw [readOrCreatePage, readDataPage, hafter, Option.map_some]
    rfl

/-- **A data record** goes to its page: it is applied when the page had not
seen it, and no other page changes. -/
theorem redoData (h : Redone H A disk₀ disk) (hH : InstanceLog H) (hA : InstanceLog A)
    (hsub : A ⊆ H) (hheadless : disk.headless = []) (hlt : ∀ r' ∈ A, r'.lsn < r.lsn)
    (hpos : 0 < r.lsn) {t : MetaTable} (ht : t ∈ createdTables A) {pageId : DataPageId}
    (href : r.body.dataRef = some (t.id, pageId)) :
    ∃ disk', RecoveryManager.redoData disk r t.id pageId = .ok disk'
      ∧ disk'.schemas = disk.schemas ∧ disk'.headless = [] ∧ disk'.tables = disk.tables
      ∧ (∀ id page, disk'.pages id = some page → page.id = id)
      ∧ ∀ id, PageRedone H id (dataRecords id (A ++ [r])) (disk₀.pages id) (disk'.pages id) := by
  obtain ⟨mt, -, hread, hsame, s, hs, hsA, hsid⟩ := h.exists_table hA ht
  obtain ⟨base, page, hpage, hid, hstart, hgrown, hskip⟩ :=
    h.exists_page hH hsub hheadless hpos ht hsame href hs hsA hsid
  have hmine : dataRecords pageId (A ++ [r]) = dataRecords pageId A ++ [r] := by
    rw [dataRecords_append]
    simp [dataRecords, href]
  have hother : ∀ id, id ≠ pageId → dataRecords id (A ++ [r]) = dataRecords id A := by
    intro id hid
    rw [dataRecords_append]
    simp [dataRecords, href, Ne.symm hid]
  unfold RecoveryManager.redoData
  simp only [hread, hpage, bind, Except.bind]
  by_cases hnew : page.lastLsn < r.lsn
  · rw [if_pos hnew]
    refine ⟨_, rfl, rfl, hheadless, rfl, fun id q hq => ?_, fun id => ?_⟩
    · change Function.update disk.pages page.id _ id = _ at hq
      rw [hid, Function.update_apply] at hq
      split_ifs at hq with hid'
      · rw [← Option.some.inj hq, hid', ← hid]
      · exact h.left.pages id q hq
    by_cases hid' : id = pageId
    · subst hid'
      rw [hmine]
      refine .inr ⟨base, _, hstart, ?_, hgrown.apply hnew⟩
      show Function.update disk.pages page.id _ id = _
      rw [hid, Function.update_self]
    · rw [hother id hid']
      show PageRedone H id _ _ (Function.update disk.pages page.id _ id)
      rw [hid, Function.update_of_ne hid']
      exact h.pages id
  · rw [if_neg hnew]
    obtain ⟨d, hd, hdgrown, hdlsn⟩ := hskip hnew
    refine ⟨disk, rfl, rfl, hheadless, rfl, h.left.pages, fun id => ?_⟩
    by_cases hid' : id = pageId
    · subst hid'
      rw [hmine]
      refine .inr ⟨base, d, hstart, hd, hdgrown.skip (fun r' hr' => ?_) (hdlsn ▸ hnew)⟩
      exact hlt r' (mem_dataRecords.mp hr').1
    · rw [hother id hid']
      exact h.pages id

/-- A step that leaves the pages alone. -/
theorem of_meta (h : Redone H A disk₀ disk) {disk' : Disk} (hr : r.body.dataRef = none)
    (hleft : FilesOf H disk') (hpages : disk'.pages = disk.pages)
    (hschemas : ∀ s ∈ createdSchemas (A ++ [r]), s ∈ disk'.schemas)
    (hheadless : ∀ t ∈ createdTables (A ++ [r]), disk'.headless = [])
    (htables : ∀ id mt, tableImage id r.body (tableAfter id A) = some mt →
      readTableMeta disk' id = .ok mt) : Redone H (A ++ [r]) disk₀ disk' where
  left := hleft
  schemas := hschemas
  headless := hheadless
  tables id mt hmt := htables id mt (tableAfter_snoc id A r ▸ hmt)
  pages pageId := hpages ▸ h.pages_of_not_data hr pageId

/-- A record that creates no schema. -/
theorem schemas_of_not_schema (h : Redone H A disk₀ disk) (hr : createdSchemas [r] = []) :
    ∀ s ∈ createdSchemas (A ++ [r]), s ∈ disk.schemas := by
  rw [createdSchemas_append, hr, List.append_nil]
  exact h.schemas

/-- Where the log creates no further table, the files can be redone over again. -/
theorem leftBy (h : Redone H A disk₀ disk) (htables : createdTables H = createdTables A) :
    LeftBy H disk := by
  refine ⟨h.left, fun name hname r hr mt hbody => ?_⟩
  have ht : mt ∈ createdTables H := mem_createdTables.mpr ⟨r, hr, hbody⟩
  rw [h.headless mt (htables ▸ ht)] at hname
  cases hname

theorem headless_of_not_table (h : Redone H A disk₀ disk) (hr : createdTables [r] = []) :
    ∀ t ∈ createdTables (A ++ [r]), disk.headless = [] := by
  rw [createdTables_append, hr, List.append_nil]
  exact h.headless

/-- **A record with a whole image of a table** puts it on disk. -/
theorem writeMt (h : Redone H A disk₀ disk) (hH : InstanceLog H) (hA : InstanceLog (A ++ [r]))
    (hsub : A ++ [r] ⊆ H) (hheadless : disk.headless = []) {mt : MetaTable}
    (hw : writtenImage r.body = some mt)
    (hr : r.body.dataRef = none) (hschema : createdSchemas [r] = [])
    (himage : ∀ id image, tableImage id r.body image = if mt.id = id then some mt else image) :
    ∃ disk', FileIOManager.writeMt disk mt = .ok disk' ∧ Redone H (A ++ [r]) disk₀ disk' := by
  obtain ⟨-, -, -, -, hadm⟩ := hA.of_snoc
  obtain ⟨t, ht, hsame⟩ := exists_created_of_written hadm rfl hw
  obtain ⟨s, hs, hsid⟩ := hA.exists_schema t ht
  have hs' := h.schemas_of_not_schema hschema s hs
  obtain ⟨a, ha, hbody⟩ := mem_createdTables.mp ht
  obtain ⟨disk', hwrite, hsch, hheadless', hpages, hleft, hread⟩ := h.left.writeMt hH hheadless
    (mem_createdTables.mpr ⟨a, hsub ha, hbody⟩) hsame hs' (hsid.trans hsame.2.2)
  refine ⟨disk', hwrite, h.of_meta hr hleft hpages ?_ (fun _ _ => hheadless')
    fun id mt' hmt' => ?_⟩
  · rw [hsch]
    exact h.schemas_of_not_schema hschema
  · rw [himage] at hmt'
    rw [hread]
    split_ifs at hmt' ⊢ with hid
    · rw [Option.some.inj hmt']
    · exact h.tables id mt' hmt'

/-- **A record that changes the indexes of a table** changes those of the
stored table. -/
theorem changeIndexes (h : Redone H A disk₀ disk) (hH : InstanceLog H) (hA : InstanceLog A)
    (hsub : A ⊆ H) (hheadless : disk.headless = []) {t : MetaTable} (ht : t ∈ createdTables A)
    (f : MetaTable → MetaTable)
    (hf : ∀ mt, MetaTable.SameTable mt (f mt)) (hr : r.body.dataRef = none)
    (hschema : createdSchemas [r] = [])
    (himage : ∀ id image, tableImage id r.body image = if t.id = id then image.map f else image) :
    ∃ disk', (do
        let table ← readTableMeta disk t.id
        FileIOManager.writeMt disk (f table)) = Except.ok disk'
      ∧ Redone H (A ++ [r]) disk₀ disk' := by
  obtain ⟨mt, hafter, hread, hsame, s, hs, -, hsid⟩ := h.exists_table hA ht
  obtain ⟨h₁, h₂, h₃⟩ := hf mt
  obtain ⟨a, ha, hbody⟩ := mem_createdTables.mp ht
  obtain ⟨disk', hwrite, hsch, hheadless', hpages, hleft, hread'⟩ := h.left.writeMt hH hheadless
    (mem_createdTables.mpr ⟨a, hsub ha, hbody⟩)
    ⟨hsame.1.trans h₁, hsame.2.1.trans h₂, hsame.2.2.trans h₃⟩ hs (hsid.trans h₃)
  refine ⟨disk', ?_, h.of_meta hr hleft hpages ?_ (fun _ _ => hheadless') fun id mt' hmt' => ?_⟩
  · rw [hread]
    exact hwrite
  · rw [hsch]
    exact h.schemas_of_not_schema hschema
  · rw [himage] at hmt'
    rw [hread', ← h₁, ← hsame.1]
    split_ifs at hmt' ⊢ with hid
    · rw [← hid, hafter, Option.map_some] at hmt'
      rw [Option.some.inj hmt']
    · exact h.tables id mt' hmt'

/-- **A record that creates a schema.** -/
theorem createSchema (h : Redone H A disk₀ disk) {schema : MetaSchema}
    (hbody : r.body = .createSchema schema) (hmem : schema ∈ createdSchemas H)
    (hadm : Admissible A r.body) : Redone H (A ++ [r]) disk₀ (writeMs disk schema) := by
  rw [hbody] at hadm
  refine h.of_meta (by rw [hbody]; rfl)
    ⟨fun s hs => ?_, h.left.tables, h.left.pages⟩ rfl (fun s hs => ?_) (fun t ht => ?_)
    fun id mt hmt => ?_
  · rcases mem_of_mem_upsert hs with rfl | hs
    exacts [hmem, h.left.schemas s hs]
  · rw [createdSchemas_append] at hs
    rcases List.mem_append.mp hs with hs | hs
    · exact mem_upsert_of_ne (h.schemas s hs) (hadm s hs).2
    · obtain ⟨a, ha, hs⟩ := mem_createdSchemas.mp hs
      rw [List.mem_singleton.mp ha, hbody] at hs
      obtain rfl := WalBody.createSchema.inj hs
      exact mem_upsert_self ..
  · have hnil := h.headless_of_not_table (by simp [createdTables, hbody]) t ht
    show disk.headless.filter _ = []
    rw [hnil]
    rfl
  · rw [hbody] at hmt
    exact h.tables id mt hmt

/-- **A record of the log can be redone**, as long as every schema directory has its
meta file when there is a table, and the pass stands after it where it should. -/
theorem step (h : Redone H A disk₀ disk) (hH : InstanceLog H) (hA : InstanceLog (A ++ [r]))
    (hsub : A ++ [r] ⊆ H) (hheadless : ∀ t ∈ createdTables (A ++ [r]), disk.headless = []) :
    ∃ disk', redoRecord disk r = .ok disk' ∧ Redone H (A ++ [r]) disk₀ disk' := by
  obtain ⟨hA', hpos, hlt, -, hadm⟩ := hA.of_snoc
  have hsub' : A ⊆ H := fun x hx => hsub (List.mem_append_left _ hx)
  have hdata : ∀ t ∈ createdTables A, ∀ pageId, r.body.dataRef = some (t.id, pageId) →
      (∀ id image, tableImage id r.body image = image) → createdSchemas [r] = [] →
      ∃ disk', redoRecord disk r = .ok disk' ∧ Redone H (A ++ [r]) disk₀ disk' := by
    intro t ht pageId href himage hschema
    obtain ⟨disk', hredo, hsch, hheadless', htab, hnamed, hpages⟩ :=
      h.redoData hH hA' hsub' (h.headless t ht) hlt hpos ht href
    refine ⟨disk', ?_, ?_⟩
    · unfold redoRecord
      rw [href]
      exact hredo
    · exact {
        left := ⟨hsch ▸ h.left.schemas, htab ▸ h.left.tables, hnamed⟩
        schemas := hsch ▸ h.schemas_of_not_schema hschema
        headless := fun _ _ => hheadless'
        tables := fun id mt hmt => by
          rw [tableAfter_snoc, himage] at hmt
          rw [← h.tables id mt hmt]
          unfold readTableMeta
          rw [htab]
        pages := hpages }
  have hredo : r.body.dataRef = none → redoRecord disk r = redoMeta disk r.body := by
    intro hnone
    unfold redoRecord
    rw [hnone]
  cases hbody : r.body with
  | insert tableId pageId | update tableId pageId | delete tableId pageId
  | clrInsert tableId pageId | clrUpdate tableId pageId | clrDelete tableId pageId =>
    rw [hbody] at hadm
    obtain ⟨t, ht, rfl⟩ := hadm
    exact hdata t ht pageId (by rw [hbody]; rfl) (fun id image => by rw [hbody]; rfl)
      (by simp [createdSchemas, hbody])
  | createSchema schema =>
    refine ⟨writeMs disk schema, by rw [hredo (by rw [hbody]; rfl), hbody]; rfl,
      h.createSchema hbody ?_ hadm⟩
    exact mem_createdSchemas.mpr ⟨r, hsub (by simp), hbody⟩
  | createTable mt | updateTable _ mt | clrUpdateTable _ mt _ =>
    rw [hredo (by rw [hbody]; rfl)]
    have hw : writtenImage r.body = some mt := by rw [hbody]; rfl
    rw [hbody]
    obtain ⟨t, ht, -⟩ := exists_created_of_written hadm rfl hw
    exact h.writeMt hH hA hsub (hheadless t ht) hw (by rw [hbody]; rfl)
      (by simp [createdSchemas, hbody]) fun id image => by rw [hbody]; rfl
  | createIndex mi | clrDropIndex _ mi =>
    rw [hbody] at hadm
    obtain ⟨t, ht, hid⟩ := hadm
    rw [hredo (by rw [hbody]; rfl), hbody]
    have hstep := h.changeIndexes hH hA' hsub' (h.headless t ht) ht
      (fun mt => { mt with indexes := mt.indexes ++ [mi] }) (fun _ => ⟨rfl, rfl, rfl⟩)
      (by rw [hbody]; rfl) (by simp [createdSchemas, hbody])
      (fun id image => by rw [hbody, hid]; rfl)
    rw [hid] at hstep
    exact hstep
  | dropIndex mi | clrCreateIndex _ mi =>
    rw [hbody] at hadm
    obtain ⟨t, ht, hid⟩ := hadm
    rw [hredo (by rw [hbody]; rfl), hbody]
    have hstep := h.changeIndexes hH hA' hsub' (h.headless t ht) ht
      (fun mt => { mt with indexes := mt.indexes.filter fun i => i.id ≠ mi.id })
      (fun _ => ⟨rfl, rfl, rfl⟩)
      (by rw [hbody]; rfl) (by simp [createdSchemas, hbody])
      (fun id image => by rw [hbody, hid]; rfl)
    rw [hid] at hstep
    exact hstep
  | beginTxn | commitTxn | rollbackTxn =>
    refine ⟨disk, by rw [hredo (by rw [hbody]; rfl), hbody]; rfl,
      h.of_meta (by rw [hbody]; rfl) h.left rfl
        (h.schemas_of_not_schema (by simp [createdSchemas, hbody]))
        (h.headless_of_not_table (by simp [createdTables, hbody])) fun id mt hmt => ?_⟩
    rw [hbody] at hmt
    exact h.tables id mt hmt
  | _ =>
    rw [hbody] at hadm
    exact hadm.elim

end Redone

/-! ## Directories without meta files -/

theorem mem_headless_writeMs {ms : MetaSchema} {name : Bytes} :
    name ∈ (writeMs disk ms).headless ↔ name ∈ disk.headless ∧ ms.name ≠ name := by
  show name ∈ disk.headless.filter _ ↔ _
  rw [List.mem_filter, decide_eq_true_eq, ne_comm]

/-- A table's meta file is written when every schema directory has one, and no other
directory is touched. -/
theorem headless_of_writeMt {mt : MetaTable} {disk' : Disk}
    (h : FileIOManager.writeMt disk mt = .ok disk') : disk.headless = [] ∧ disk'.headless = [] := by
  obtain ⟨schema, hread, rfl⟩ := writeMt_eq_ok h
  have hnil := (readSchemaMeta_eq_ok hread).1
  exact ⟨hnil, hnil⟩

/-- **What redoing a record does to the directories without meta files**: a schema that
is created gets its file, and a record that creates a table goes through only when there
are none left. -/
theorem mem_headless_redoRecord {disk' : Disk} (hadm : Admissible A r.body)
    (hredo : redoRecord disk r = .ok disk') (name : Bytes) :
    (name ∈ disk'.headless ↔ name ∈ disk.headless ∧ ∀ s ∈ createdSchemas [r], s.name ≠ name)
      ∧ ∀ t ∈ createdTables [r], disk.headless = [] := by
  have hwrite : ∀ {mt : MetaTable} {disk' : Disk}, FileIOManager.writeMt disk mt = .ok disk' →
      createdSchemas [r] = [] →
      (name ∈ disk'.headless ↔ name ∈ disk.headless ∧ ∀ s ∈ createdSchemas [r], s.name ≠ name)
        ∧ ∀ t ∈ createdTables [r], disk.headless = [] := by
    intro mt disk' h hschema
    obtain ⟨hnil, hnil'⟩ := headless_of_writeMt h
    rw [hnil, hnil', hschema]
    exact ⟨by simp, fun _ _ => rfl⟩
  have hsame : ∀ {disk' : Disk}, disk'.headless = disk.headless → createdSchemas [r] = [] →
      createdTables [r] = [] →
      (name ∈ disk'.headless ↔ name ∈ disk.headless ∧ ∀ s ∈ createdSchemas [r], s.name ≠ name)
        ∧ ∀ t ∈ createdTables [r], disk.headless = [] := by
    intro disk' h hschema htable
    rw [h, hschema, htable]
    exact ⟨by simp, fun t ht => by cases ht⟩
  have hdata : ∀ {tableId : TableId} {pageId : DataPageId} {disk' : Disk},
      RecoveryManager.redoData disk r tableId pageId = .ok disk' →
      disk'.headless = disk.headless := by
    intro tableId pageId disk' h
    obtain ⟨mt, -, h⟩ := bind_eq_ok.mp h
    obtain ⟨page, -, h⟩ := bind_eq_ok.mp h
    split_ifs at h <;> (cases h; rfl)
  unfold redoRecord at hredo
  cases hbody : r.body with
  | insert tableId pageId | update tableId pageId | delete tableId pageId
  | clrInsert tableId pageId | clrUpdate tableId pageId | clrDelete tableId pageId =>
    rw [hbody] at hredo
    exact hsame (hdata hredo) (by simp [createdSchemas, hbody]) (by simp [createdTables, hbody])
  | createSchema schema =>
    rw [hbody] at hredo
    obtain rfl := Except.ok.inj hredo
    rw [mem_headless_writeMs]
    simp [createdSchemas, createdTables, hbody]
  | createTable mt | updateTable _ mt | clrUpdateTable _ mt _ =>
    rw [hbody] at hredo
    exact hwrite hredo (by simp [createdSchemas, hbody])
  | createIndex mi | clrDropIndex _ mi | dropIndex mi | clrCreateIndex _ mi =>
    rw [hbody] at hredo
    obtain ⟨mt, -, hredo⟩ := bind_eq_ok.mp hredo
    exact hwrite hredo (by simp [createdSchemas, hbody])
  | beginTxn | commitTxn | rollbackTxn =>
    rw [hbody] at hredo
    obtain rfl := Except.ok.inj hredo
    exact hsame rfl (by simp [createdSchemas, hbody]) (by simp [createdTables, hbody])
  | _ =>
    rw [hbody] at hadm
    exact hadm.elim

/-- **What is left of the directories without meta files** after a part of the log. -/
theorem mem_headless_foldlM (hA : InstanceLog A) {disk' : Disk}
    (hfold : A.foldlM redoRecord disk = .ok disk') {name : Bytes} :
    name ∈ disk'.headless ↔ name ∈ disk.headless ∧ ∀ s ∈ createdSchemas A, s.name ≠ name := by
  induction hA generalizing disk' with
  | nil =>
    obtain rfl := Except.ok.inj hfold
    simp [createdSchemas]
  | @snoc A r hA hpos hlt hsilent hadm ih =>
    rw [List.foldlM_append] at hfold
    obtain ⟨disk₁, hfirst, hrest⟩ := bind_eq_ok.mp hfold
    rw [List.foldlM_cons] at hrest
    obtain ⟨disk₂, hredo, hlast⟩ := bind_eq_ok.mp hrest
    obtain rfl := Except.ok.inj hlast
    rw [(mem_headless_redoRecord hadm hredo _).1, ih hfirst, createdSchemas_append, and_assoc]
    simp only [List.mem_append, or_imp, forall_and]

/-- A record older than one of a beginning of a log is in the beginning, too. -/
theorem InstanceLog.mem_of_older (hH : InstanceLog H) (hpre : A ++ [r] <+: H) {r' c : WalRecord}
    (hr' : r' ∈ A ++ [r]) (hc : c ∈ H) (hlt : c.lsn < r'.lsn) : c ∈ A := by
  obtain ⟨B, rfl⟩ := hpre
  obtain ⟨hsorted, -, hafter⟩ := List.pairwise_append.mp hH.sorted
  rcases List.mem_append.mp hc with hc | hc
  · rcases List.mem_append.mp hc with hc | hc
    · exact hc
    · have hlast : r'.lsn ≤ r.lsn := by
        rcases List.mem_append.mp hr' with hr' | hr'
        · exact ((List.pairwise_append.mp hsorted).2.2 r' hr' r List.mem_cons_self).le
        · rw [List.mem_singleton.mp hr']
      rw [List.mem_singleton.mp hc] at hlt
      exact absurd hlast hlt.not_ge
  · exact absurd (hafter r' hr' c hc) hlt.asymm

/-- **Mended in time**: when a table is created there is no directory left without its
meta file. -/
theorem Mended.headless_nil (hmended : Mended H disk₀) (hH : InstanceLog H)
    (hpre : A ++ [r] <+: H) (hfold : A.foldlM redoRecord disk₀ = .ok disk) {t : MetaTable}
    (ht : t ∈ createdTables (A ++ [r])) : disk.headless = [] := by
  have hA : InstanceLog A := by
    obtain ⟨B, rfl⟩ := hpre
    exact hH.of_append.of_append
  refine List.eq_nil_iff_forall_not_mem.mpr fun name hname => ?_
  obtain ⟨hname₀, hnot⟩ := (mem_headless_foldlM hA hfold).mp hname
  obtain ⟨r', hr', hbody⟩ := mem_createdTables.mp ht
  obtain ⟨c, hc, s, hcbody, hsname, hlt⟩ := hmended name hname₀ r' (hpre.subset hr') t hbody
  have hcA : c ∈ A := hH.mem_of_older hpre hr' hc hlt
  exact hnot s (mem_createdSchemas.mpr ⟨c, hcA, hcbody⟩) hsname

/-- **A redo pass that has gone through** found every directory mended in time. -/
theorem mended_of_foldlM (hH : InstanceLog H) (hfold : H.foldlM redoRecord disk₀ = .ok disk) :
    Mended H disk₀ := by
  intro name hname r hr mt hbody
  obtain ⟨A, B, rfl⟩ := List.append_of_mem hr
  rw [List.foldlM_append] at hfold
  obtain ⟨disk₁, hfirst, hrest⟩ := bind_eq_ok.mp hfold
  rw [List.foldlM_cons] at hrest
  obtain ⟨disk₂, hredo, -⟩ := bind_eq_ok.mp hrest
  have hA : InstanceLog (A ++ [r]) := by
    rw [List.append_cons] at hH
    exact hH.of_append
  obtain ⟨hA', -, hlt, -, hadm⟩ := hA.of_snoc
  have hnil := (mem_headless_redoRecord hadm hredo name).2 mt
    (mem_createdTables.mpr ⟨r, List.mem_singleton_self r, hbody⟩)
  by_contra hnone
  have hmem : name ∈ disk₁.headless := by
    refine (mem_headless_foldlM hA' hfirst).mpr ⟨hname, fun s hs hsname => hnone ?_⟩
    obtain ⟨c, hc, hcbody⟩ := mem_createdSchemas.mp hs
    exact ⟨c, List.mem_append_left _ hc, s, hcbody, hsname, hlt c hc⟩
  rw [hnil] at hmem
  cases hmem

namespace Redone

/-- **What a redo pass that has gone through leaves.** -/
theorem of_foldlM (hleft : FilesOf H disk₀) (hH : InstanceLog H) (hA : InstanceLog A)
    (hsub : A ⊆ H) (hfold : A.foldlM redoRecord disk₀ = .ok disk) : Redone H A disk₀ disk := by
  induction hA generalizing disk with
  | nil =>
    obtain rfl := Except.ok.inj hfold
    exact .nil hleft
  | @snoc A r hA hpos hlt hsilent hadm ih =>
    rw [List.foldlM_append] at hfold
    obtain ⟨disk₁, hfirst, hrest⟩ := bind_eq_ok.mp hfold
    rw [List.foldlM_cons] at hrest
    obtain ⟨disk₂, hredo, hlast⟩ := bind_eq_ok.mp hrest
    obtain rfl := Except.ok.inj hlast
    have h := ih (fun x hx => hsub (List.mem_append_left _ hx)) hfirst
    have hheadless : ∀ t ∈ createdTables (A ++ [r]), disk₁.headless = [] := by
      intro t ht
      rw [createdTables_append] at ht
      rcases List.mem_append.mp ht with ht | ht
      · exact h.headless t ht
      · exact (mem_headless_redoRecord hadm hredo []).2 t ht
    obtain ⟨disk', hstep, h'⟩ := h.step hH (.snoc hA hpos hlt hsilent hadm) hsub hheadless
    obtain rfl := Except.ok.inj (hredo.symm.trans hstep)
    exact h'

/-- **The redo pass goes through** and stands where the log ends. -/
theorem foldlM (hleft : LeftBy H disk₀) (hH : InstanceLog H) (hA : InstanceLog A)
    (hpre : A <+: H) :
    ∃ disk, A.foldlM redoRecord disk₀ = .ok disk ∧ Redone H A disk₀ disk := by
  induction hA with
  | nil => exact ⟨disk₀, rfl, .nil hleft.toFilesOf⟩
  | @snoc A r hA hpos hlt hsilent hadm ih =>
    obtain ⟨disk, hfold, hredone⟩ := ih ((List.prefix_append A [r]).trans hpre)
    obtain ⟨disk', hstep, hredone'⟩ := hredone.step hH (.snoc hA hpos hlt hsilent hadm)
      hpre.subset fun t ht => hleft.mended.headless_nil hH hpre hfold ht
    refine ⟨disk', ?_, hredone'⟩
    rw [List.foldlM_append, hfold]
    show [r].foldlM redoRecord disk = _
    rw [List.foldlM_cons, hstep]
    rfl

end Redone

/-! ## Committed transactions -/

theorem lsnsOf_snoc (kind : WalBody) (logs : List WalRecord) (r : WalRecord) :
    lsnsOf kind (logs ++ [r])
      = if r.body = kind then Function.update (lsnsOf kind logs) r.txnId (some r.lsn)
        else lsnsOf kind logs :=
  List.foldl_concat ..

/-- A record of the kind is found, or a younger one of its transaction. -/
theorem exists_lsnsOf {kind : WalBody} (hsorted : logs.Pairwise fun r r' => r.lsn < r'.lsn)
    {c : WalRecord} (hc : c ∈ logs) (hkind : c.body = kind) :
    ∃ lsn, lsnsOf kind logs c.txnId = some lsn ∧ c.lsn ≤ lsn := by
  induction logs using List.reverseRecOn with
  | nil => cases hc
  | append_singleton logs r ih =>
    rw [lsnsOf_snoc]
    obtain ⟨hlogs, -, hlt⟩ := List.pairwise_append.mp hsorted
    rcases List.mem_append.mp hc with hc | hc
    · split_ifs with hr
      · rw [Function.update_apply]
        split_ifs with htxn
        · exact ⟨r.lsn, rfl, (hlt c hc r (by simp)).le⟩
        · exact ih hlogs hc
      · exact ih hlogs hc
    · rw [← List.mem_singleton.mp hc, if_pos hkind, Function.update_self]
      exact ⟨c.lsn, rfl, le_rfl⟩

/-- Every transaction with a record in the log has its commit record. -/
def AllCommitted (logs : List WalRecord) : Prop :=
  ∀ r ∈ logs, ∃ c ∈ logs, c.body = .commitTxn ∧ c.txnId = r.txnId

instance : DecidablePred AllCommitted := fun logs => by unfold AllCommitted; infer_instance

/-- **The filter on committed transactions lets every record through** when
all are committed. -/
theorem redo_eq_redoRecord (hlog : InstanceLog logs) (hall : AllCommitted logs) (hr : r ∈ logs)
    (disk : Disk) : redo 0 (getCommitLsns logs) disk r = redoRecord disk r := by
  have hpos : ¬ r.lsn ≤ 0 := not_le.mpr (hlog.pos r hr)
  obtain ⟨c, hc, hcommit, htxn⟩ := hall r hr
  obtain ⟨lsn, hlsn, hle⟩ := exists_lsnsOf hlog.sorted hc hcommit
  have hle' : ¬ r.lsn > lsn := not_lt.mpr ((hlog.lsn_le_commit hr hc hcommit htxn).trans hle)
  rw [htxn] at hlsn
  unfold redo getCommitLsns
  cases r.body.undoNext with
  | some _ => exact if_neg hpos
  | none => simp only [hlsn, if_neg hpos, if_neg hle']

/-- The redo pass over a log of committed transactions redoes record after
record. -/
theorem redoPass_eq_foldlM (hlog : InstanceLog logs) (hall : AllCommitted logs) (disk : Disk) :
    redoPass 0 logs disk = logs.foldlM redoRecord disk := by
  unfold redoPass
  have hcongr : ∀ (rs : List WalRecord) (d : Disk), rs ⊆ logs →
      rs.foldlM (redo 0 (getCommitLsns logs)) d = rs.foldlM redoRecord d := by
    intro rs
    induction rs with
    | nil => intro d _; rfl
    | cons r rs ih =>
      intro d hsub
      rw [List.foldlM_cons, List.foldlM_cons,
        redo_eq_redoRecord hlog hall (hsub List.mem_cons_self)]
      exact bind_congr fun d' => ih d' fun x hx => hsub (List.mem_cons_of_mem r hx)
  exact hcongr logs disk fun _ hr => hr

end History
