import Deltabase.Storage.InstanceView

/-!
# What the row operations do

`RowView` is everything an instance sees except its indexes and the directories
that are made for them. The operations on rows are described by how they change
it: `insert_row` prepares a page and appends a row to it, `update_row` goes from
row to row and replaces the live ones it is given, `delete_rows` marks them. Each
description covers every way the operation can end, since what a failed operation
leaves behind stays.

The descriptions are for a transaction that is active, which is what the
callers pass.
-/

/-- What an instance sees of tables, pages and the log. -/
structure RowView where
  ioPages : DataPageId → Option DataPage
  ioSchemas : List MetaSchema
  ioTables : List TableFile
  wal : AppendOnlyLog
  catalog : CatalogCache
  txn : Transaction
  clock : ℕ
  generator : UUIDGenerator
  lists : TableId → Option (List DataPageId)
  page : DataPageId → Option DataPage
  dirty : DataPageId → Bool

namespace RowView

/-- The ids of the pages of a table. -/
def ids (v : RowView) (tableId : TableId) : List DataPageId := (v.lists tableId).getD []

/-- The pages of a table. -/
def pages (v : RowView) (tableId : TableId) : List DataPage := (v.ids tableId).filterMap v.page

/-- **A view as the buffer pool keeps it**: a page is stored under its id, which
is older than the clock; the pages listed for a table are there, and are listed
once. -/
structure Ok (v : RowView) : Prop where
  named : ∀ id p, v.page id = some p → p.id = id
  older : ∀ id p, v.page id = some p → id < v.clock
  clock_pos : 0 < v.clock
  listed : ∀ tableId, ∀ id ∈ v.ids tableId, ∃ p, v.page id = some p ∧ p.tableId = tableId
  nodup : ∀ tableId, (v.ids tableId).Nodup

/-- Changes a page. -/
def assign (v : RowView) (id : DataPageId) (f : DataPage → DataPage) : RowView :=
  { v with page := Function.update v.page id ((v.page id).map f) }

/-- Marks a page. -/
def mark (v : RowView) (id : DataPageId) : RowView :=
  { v with dirty := Function.update v.dirty id true }

/-- Appends a record of the transaction at hand to the log. -/
def log (v : RowView) (body : WalBody) : RowView :=
  { v with
    wal := v.wal.push { prevLsn := v.txn.lastLsn, txnId := v.txn.id, body := body }
    txn := { v.txn with lastLsn := v.wal.nextLsn } }

/-- Saves a table in the catalog. -/
def save (v : RowView) (mt : MetaTable) : RowView :=
  { v with catalog := v.catalog.saveTable mt }

/-- Adds a new page to a table. -/
def create (v : RowView) (tableId : TableId) (page : DataPage) : RowView :=
  { v with
    clock := v.generator.next v.clock
    lists := BufferPool.listId v.lists tableId v.clock
    page := Function.update v.page v.clock (some page) }

/-- Links a page to the last page of its table. -/
def link (v : RowView) (tail : Option DataPage) (id : DataPageId) : RowView :=
  match tail with
  | none => v
  | some t => (v.assign t.id fun p => { p with next := id }).mark t.id

/-- **The page a row is inserted into**: one that is there and has room, or a
new one, which becomes the last page of the table. -/
inductive Prepared (mt : MetaTable) (size : ℕ) (v : RowView) : DataPageId → RowView → Prop
  | existing {id : DataPageId} {p : DataPage} (hmem : id ∈ v.ids mt.id)
      (hpage : v.page id = some p) (hroom : p.size + size ≤ DataPage.maxSize) :
      Prepared mt size v id v
  | created {schema : MetaSchema}
      (hschema : FileIOManager.readSchemaMeta { schemas := v.ioSchemas } mt.schemaId = .ok schema) :
      Prepared mt size v v.clock
        ((v.create mt.id (DataPage.make (schema.name, mt.name) mt.id v.clock)).link
          (StdDbInstance.tailPage (v.pages mt.id)) v.clock)

/-- Preparing a page is not the transaction's business. -/
theorem Prepared.txn {mt : MetaTable} {size : ℕ} {v v' : RowView} {id : DataPageId}
    (h : Prepared mt size v id v') : v'.txn = v.txn := by
  cases h with
  | existing => rfl
  | created =>
    unfold link
    split <;> rfl

/-- What is seen after a row has been inserted into a page that is ready for
it. -/
def inserted (v : RowView) (id : DataPageId) (row : DataRow) (mtUnchanged mt : MetaTable) :
    RowView :=
  let v := v.assign id fun p => { p with rows := p.rows ++ [row] }
  let v := (v.log (.insert mt.id id row)).log (.updateTable mtUnchanged mt)
  (v.assign id fun p => { p with lastLsn := v.txn.lastLsn }).mark id

end RowView

namespace StdDbInstance

open BufferPool Transaction FileIOManager

variable {db db' : StdDbInstance}

/-- What an instance sees. -/
def rowView (db : StdDbInstance) : RowView where
  ioPages := db.io.pages
  ioSchemas := db.io.schemas
  ioTables := db.io.tables
  wal := db.wal
  catalog := db.catalog
  txn := db.txn
  clock := db.clock
  generator := db.generator
  lists := db.pool.dataPagesPerTable
  page := db.page
  dirty := db.dirtyPage

theorem SameRows.rowView (h : SameRows db db') : db'.rowView = db.rowView := by
  unfold StdDbInstance.rowView
  rw [h.ioPages, h.ioSchemas, h.ioTables, h.wal, h.catalog, h.txn, h.clock, h.generator,
    h.lists, h.page, h.dirty]

/-! ## Writing to pages -/

theorem loaded_changeDp {id id' : DataPageId} (f : CacheEntry DataPage → CacheEntry DataPage) :
    (changeDp id f db).Loaded id' ↔ db.Loaded id' := by
  unfold Loaded changeDp
  by_cases hid : id' = id
  · subst hid
    simp
  · simp [Function.update_of_ne hid]

@[simp] theorem loaded_assignDp {id id' : DataPageId} {f : DataPage → DataPage} :
    (assignDp id f db).Loaded id' ↔ db.Loaded id' := loaded_changeDp _

@[simp] theorem loaded_markDp {id id' : DataPageId} :
    (markDp id db).Loaded id' ↔ db.Loaded id' := loaded_changeDp _

/-- **An assignment through a page pointer** changes the page that is seen. -/
theorem rowView_assign {id : DataPageId} (h : db.Loaded id) (f : DataPage → DataPage) :
    (assignDp id f db).rowView = db.rowView.assign id f := by
  obtain ⟨entry, hentry, hpage⟩ := page_of_loaded h
  unfold rowView RowView.assign
  congr 1
  · funext id'
    by_cases hid : id' = id
    · subst hid
      simp [page, assignDp, changeDp, hentry]
    · simp [page, assignDp, changeDp, Function.update_of_ne hid]
  · funext id'
    by_cases hid : id' = id
    · subst hid
      simp [dirtyPage, assignDp, changeDp, hentry]
    · simp [dirtyPage, assignDp, changeDp, Function.update_of_ne hid]

/-- **Marking a page** is seen only in the marks. -/
theorem rowView_mark {id : DataPageId} (h : db.Loaded id) :
    (markDp id db).rowView = db.rowView.mark id := by
  obtain ⟨entry, hentry, hpage⟩ := page_of_loaded h
  unfold rowView RowView.mark
  congr 1
  · funext id'
    by_cases hid : id' = id
    · subst hid
      simp [page, markDp, changeDp, hentry]
    · simp [page, markDp, changeDp, Function.update_of_ne hid]
  · funext id'
    by_cases hid : id' = id
    · subst hid
      simp [dirtyPage, markDp, changeDp, hentry]
    · simp [dirtyPage, markDp, changeDp, Function.update_of_ne hid]

/-- Appending to the log while the transaction is active. -/
theorem ensures_appendLog (hactive : db.txn.state = .active) (body : WalBody)
    {Q : Unit → StdDbInstance → Prop} {E : Exn → StdDbInstance → Prop} :
    Ensures (appendLog body) db Q E ↔ Q () (appendRecord body db) := by
  unfold appendLog
  rw [ensures_bind, ensures_get, if_neg (by rw [hactive]; simp)]
  rfl

/-! ## Preparing a page -/

/-- A page that is put into the pool is seen there. -/
theorem rowView_putDp (id : DataPageId) (p : DataPage) (db : StdDbInstance) :
    (putDp id p db).rowView
      = { db.rowView with page := Function.update db.page id (some p) } := by
  unfold rowView
  congr 1
  · funext id'
    by_cases hid : id' = id
    · subst hid
      cases hpool : db.pool.dataPages id' <;> simp [page, putDp, CacheEntry.put, hpool]
    · simp [page, putDp, Function.update_of_ne hid]
  · funext id'
    by_cases hid : id' = id
    · subst hid
      cases hpool : db.pool.dataPages id' <;> simp [dirtyPage, putDp, CacheEntry.put, hpool]
    · simp [dirtyPage, putDp, Function.update_of_ne hid]

/-- What `prepare_dp` has done when it returns a page that was there. -/
structure FoundPage (size : ℕ) (ids : List DataPageId) (db : StdDbInstance) (p : DataPage)
    (db' : StdDbInstance) : Prop where
  found : ∃ id ∈ ids, db.page id = some p ∧ db'.Loaded id
  room : p.size + size ≤ DataPage.maxSize
  same : SameView db db'

/-- What `create_dp` has done when it returns a page: every schema directory had
its meta file, and the page is empty and below the directory of the table's
schema. -/
structure MadePage (mt : MetaTable) (db : StdDbInstance) (p : DataPage) (db' : StdDbInstance) :
    Prop where
  headless : db.io.headless = []
  schema : ∃ schema, readSchemaMeta { schemas := db.io.schemas } mt.schemaId = .ok schema
    ∧ p = DataPage.make (schema.name, mt.name) mt.id db.clock
  rowView : db'.rowView = db.rowView.create mt.id p
  indexFile : db'.indexFile = db.indexFile
  listing : SameListing db db'
  loaded : db'.Loaded db.clock
  loaded_of : ∀ id, db.Loaded id → db'.Loaded id

theorem MadePage.of_same {mt : MetaTable} {p : DataPage} {db₁ : StdDbInstance}
    (h : MadePage mt db₁ p db') (hsame : SameView db db₁) : MadePage mt db p db' where
  headless := hsame.ioHeadless ▸ h.headless
  schema := hsame.ioSchemas ▸ hsame.clock ▸ h.schema
  rowView := by rw [h.rowView, hsame.rowView]
  indexFile := h.indexFile.trans hsame.indexFile
  listing := hsame.listing.trans h.listing
  loaded := hsame.clock ▸ h.loaded
  loaded_of id hid := h.loaded_of id (hsame.loaded id hid)

/-- **`create_dp`** makes a page; without the table's schema on disk it
throws. -/
theorem ensures_createDp (mt : MetaTable) (db : StdDbInstance) :
    Ensures (createDp mt) db (MadePage mt db)
      fun _ db' => db'.rowView = { db.rowView with clock := db.generator.next db.clock } := by
  unfold createDp
  rw [ensures_bind]
  show Ensures (get >>= _) { db with clock := db.generator.next db.clock } _ _
  rw [ensures_bind, ensures_get, ensures_bind, ensures_liftExcept]
  refine ⟨fun p hp => ?_, fun _ _ => rfl⟩
  unfold createPage at hp
  cases hschema : readSchemaMeta db.io mt.schemaId with
  | error e => rw [hschema] at hp; cases hp
  | ok schema =>
    rw [hschema] at hp
    obtain rfl := Except.ok.inj hp
    rw [ensures_bind, ensures_modify, ensures_bind, ensures_modify, ensures_pure]
    obtain ⟨hheadless, hread⟩ := readSchemaMeta_eq_ok hschema
    refine ⟨hheadless, ⟨schema, hread, rfl⟩, ?_, rfl, ⟨rfl, rfl⟩, ?_, fun id hid => ?_⟩
    · have hput := rowView_putDp db.clock (DataPage.make (schema.name, mt.name) mt.id db.clock)
        { db with clock := db.generator.next db.clock }
      show { (putDp db.clock _ { db with clock := db.generator.next db.clock }).rowView with
        lists := listId db.pool.dataPagesPerTable mt.id db.clock } = _
      rw [hput]
      rfl
    · simp [Loaded, putDp]
    · by_cases heq : id = db.clock
      · subst heq
        simp [Loaded, putDp]
      · simpa [Loaded, putDp, Function.update_of_ne heq] using hid

/-- **The loop of `prepare_dp`** finds a page with room or makes one. -/
theorem ensures_prepareDpLoop (size : ℕ) (mt : MetaTable) (ids : List DataPageId)
    (db : StdDbInstance) :
    Ensures (prepareDpLoop size mt ids) db
      (fun p db' => FoundPage size ids db p db' ∨ MadePage mt db p db')
      fun _ db' => db'.rowView = { db.rowView with clock := db.generator.next db.clock } := by
  induction ids generalizing db with
  | nil =>
    unfold prepareDpLoop
    exact (ensures_createDp mt db).mono_ok fun _ _ h => .inr h
  | cons id ids ih =>
    unfold prepareDpLoop
    rw [ensures_bind]
    refine (ensures_getDp id db).mono (fun p db₁ ⟨hp, hsame, hload⟩ => ?_) fun _ _ h => h.elim
    have hnext : Ensures (prepareDpLoop size mt ids) db₁
        (fun p db' => FoundPage size (id :: ids) db p db' ∨ MadePage mt db p db')
        fun _ db' => db'.rowView = { db.rowView with clock := db.generator.next db.clock } := by
      refine (ih db₁).mono (fun p db' h => ?_) fun _ db' h => by
        rw [h, hsame.rowView, hsame.clock, hsame.generator]
      rcases h with ⟨⟨id', hmem, hpage, hload'⟩, hroom, hsame'⟩ | hmade
      · exact .inl ⟨⟨id', List.mem_cons_of_mem id hmem, hsame.page ▸ hpage, hload'⟩, hroom,
          hsame.trans hsame'⟩
      · exact .inr (hmade.of_same hsame)
    cases p with
    | none => exact hnext
    | some page =>
      show Ensures (if page.size + size ≤ DataPage.maxSize then pure page
        else prepareDpLoop size mt ids) db₁ _ _
      split_ifs with hroom
      · exact .inl ⟨⟨id, List.mem_cons_self, hp.symm, hload (by simp)⟩, hroom, hsame⟩
      · exact hnext

/-- **`prepare_dp`** finds a page of the table with room or makes one. -/
theorem ensures_prepareDp (size : ℕ) (mt : MetaTable) (db : StdDbInstance) :
    Ensures (prepareDp size mt) db
      (fun p db' => FoundPage size (db.pageIds mt.id) db p db' ∨ MadePage mt db p db')
      fun _ db' => db'.rowView = { db.rowView with clock := db.generator.next db.clock } := by
  unfold prepareDp pageIds
  rw [ensures_bind, ensures_get]
  cases db.pool.dataPagesPerTable mt.id with
  | none => exact (ensures_createDp mt db).mono_ok fun _ _ h => .inr h
  | some ids => exact ensures_prepareDpLoop size mt ids db

/-- The tail is one of the pages without a next page. -/
theorem mem_of_tailPage {pages : List DataPage} {tail : DataPage}
    (h : tailPage pages = some tail) : tail ∈ pages ∧ tail.next = UUID.null := by
  have hfold : ∀ (rest : List DataPage) (acc : Option DataPage), rest ⊆ pages →
      (∀ t, acc = some t → t ∈ pages ∧ t.next = UUID.null) →
      ∀ t, rest.foldl laterTail acc = some t → t ∈ pages ∧ t.next = UUID.null := by
    intro rest
    induction rest with
    | nil => intro acc _ hacc t ht; exact hacc t ht
    | cons page rest ih =>
      intro acc hsub hacc t ht
      refine ih (laterTail acc page) (fun x hx => hsub (List.mem_cons_of_mem page hx))
        (fun t' ht' => ?_) t ht
      unfold laterTail at ht'
      by_cases hnext : page.next ≠ UUID.null
      · rw [if_pos hnext] at ht'
        exact hacc t' ht'
      · rw [if_neg hnext] at ht'
        have hpage : page ∈ pages ∧ page.next = UUID.null :=
          ⟨hsub List.mem_cons_self, not_not.mp hnext⟩
        cases acc with
        | none => exact Option.some.inj ht' ▸ hpage
        | some t₀ =>
          simp only at ht'
          split_ifs at ht' with hlt
          · exact Option.some.inj ht' ▸ hpage
          · exact hacc t' ht'
  exact hfold pages none (fun _ h => h) (fun t ht => by cases ht) tail h

/-- **Linking a new page.** -/
theorem ensures_linkPage {pagesBefore : List DataPage} {id : DataPageId}
    (hnew : ∀ p ∈ pagesBefore, p.id ≠ id) (hloaded : ∀ p ∈ pagesBefore, db.Loaded p.id) :
    Ensures (linkPage pagesBefore id) db
      (fun _ db' => db'.rowView = db.rowView.link (tailPage pagesBefore) id
        ∧ db'.indexFile = db.indexFile ∧ SameListing db db'
        ∧ ∀ id', db.Loaded id' → db'.Loaded id')
      fun _ _ => False := by
  unfold linkPage
  have hany : ¬ (pagesBefore.any fun page => page.id = id) = true := by
    rw [List.any_eq_true]
    rintro ⟨p, hp, hid⟩
    exact hnew p hp (of_decide_eq_true hid)
  rw [if_neg hany]
  cases htail : tailPage pagesBefore with
  | none => exact ⟨rfl, rfl, .refl db, fun _ h => h⟩
  | some tail =>
    have hload := hloaded tail (mem_of_tailPage htail).1
    unfold modifyDp dirtyDp
    simp only [ensures_bind, ensures_modify]
    refine ⟨?_, rfl, ⟨rfl, rfl⟩, fun id' h => loaded_markDp.mpr (loaded_assignDp.mpr h)⟩
    rw [rowView_mark (loaded_assignDp.mpr hload), rowView_assign hload]
    rfl

/-! ## Inserting -/

/-- **`get_table`** looks the schema and the table up, and only that. -/
theorem ensures_getTable (tableName schemaName : Bytes) (db : StdDbInstance) :
    Ensures (getTable tableName schemaName) db
      (fun mt db' => db' = db ∧ ∃ ms, db.catalog.getSchema schemaName = some ms
        ∧ db.catalog.getTable tableName ms.id = some mt)
      fun e db' => e = .nullDereference ∧ db' = db := by
  unfold getTable getSchema
  simp only [ensures_bind, ensures_get]
  cases db.catalog.getSchema schemaName with
  | none => exact ⟨rfl, rfl⟩
  | some ms =>
    simp only [ensures_pure]
    cases htable : db.catalog.getTable tableName ms.id with
    | none => exact ⟨rfl, rfl⟩
    | some mt => exact ⟨rfl, ms, rfl, htable⟩

/-- The table that an operation is about. -/
def LooksUp (db : StdDbInstance) (tableName schemaName : Bytes) (mt : MetaTable) : Prop :=
  ∃ ms, db.catalog.getSchema schemaName = some ms ∧ db.catalog.getTable tableName ms.id = some mt

theorem SameRows.looksUp {tableName schemaName : Bytes} {mt : MetaTable} (h : SameRows db db') :
    LooksUp db' tableName schemaName mt ↔ LooksUp db tableName schemaName mt := by
  unfold LooksUp
  rw [h.catalog]

/-- `get_table` returns the table that is there. -/
theorem readsAs_getTable {tableName schemaName : Bytes} {mt : MetaTable}
    (h : LooksUp db tableName schemaName mt) :
    ReadsAs (getTable tableName schemaName) db (.ok mt) := by
  obtain ⟨ms, hms, hmt⟩ := h
  unfold ReadsAs getTable getSchema
  simp only [ensures_bind, ensures_get, hms, ensures_pure, hmt]
  exact ⟨trivial, .refl db⟩

/-- The last part of `insert_row`, once the indexes have been passed. -/
theorem ensures_insertRow_end {P : DataPageId} {row : DataRow} {mtUnchanged mt : MetaTable}
    {touched : List IndexId} (hactive : db.txn.state = .active) (hload : db.Loaded P) :
    Ensures (do
        modifyDp P fun page => { page with rows := page.rows ++ [row] }
        appendLog (.insert mt.id P row)
        appendLog (.updateTable mtUnchanged mt)
        let pageLsn ← getLastLsn
        modifyDp P fun page => { page with lastLsn := pageLsn }
        touched.forM fun indexId => setIfLsn indexId pageLsn
        dirtyDp P) db
      (fun _ db' => db'.rowView = db.rowView.inserted P row mtUnchanged mt
        ∧ SameListing db db' ∧ SameTrees db.indexFile db'.indexFile)
      fun _ _ => False := by
  set db₁ := assignDp P (fun p => { p with rows := p.rows ++ [row] }) db
  have hview₁ : db₁.rowView = _ := rowView_assign hload _
  have hload₁ : db₁.Loaded P := loaded_assignDp.mpr hload
  unfold modifyDp dirtyDp getLastLsn
  rw [ensures_bind, ensures_modify, ensures_bind, ensures_appendLog (by exact hactive),
    ensures_bind,
    ensures_appendLog (by exact hactive)]
  simp only [ensures_bind, ensures_get, ensures_pure, ensures_modify]
  set db₂ := appendRecord (.updateTable mtUnchanged mt) (appendRecord (.insert mt.id P row) db₁)
  have hload₂ : db₂.Loaded P := hload₁
  have hview₂ : db₂.rowView
      = (db₁.rowView.log (.insert mt.id P row)).log (.updateTable mtUnchanged mt) := rfl
  refine (ensures_setIfLsns touched db₂.txn.lastLsn _).mono (fun _ db₃ hstamped => ?_)
    fun _ _ h => h
  obtain ⟨hsame, hlisting, htrees⟩ := hstamped
  refine ⟨?_, ⟨hlisting.1, hlisting.2⟩, htrees⟩
  have hload₃ : db₃.Loaded P := hsame.loaded P (loaded_assignDp.mpr hload₂)
  rw [rowView_mark hload₃, hsame.rowView, rowView_assign hload₂, hview₂, hview₁]
  rfl

/-- The pages before the insert, as `insert_row` has them. -/
theorem filterMap_pages (db : StdDbInstance) (tableId : TableId) :
    ((db.pageIds tableId).map db.page).filterMap id = db.rowView.pages tableId := by
  rw [List.filterMap_map]
  rfl

/-- A new page has no rows, so preparing a page changes nobody's rows. -/
theorem pageRows_create {tableId : TableId} {p : DataPage} (hok : db.rowView.Ok)
    (hp : p.rows = []) (hview : db'.rowView = db.rowView.create tableId p) :
    db'.pageRows = db.pageRows := by
  have hpage : db'.page = Function.update db.page db.clock (some p) := congrArg RowView.page hview
  funext id
  unfold pageRows
  rw [hpage, Function.update_apply]
  split_ifs with hid
  · have hnone : db.page id = none := by
      rw [Option.eq_none_iff_forall_ne_some]
      intro q hq
      exact absurd (hok.older id q hq) (by rw [hid]; exact lt_irrefl _)
    rw [hnone]
    exact hp
  · rfl

/-- Linking changes nobody's rows. -/
theorem pageRows_link {tail : Option DataPage} {id : DataPageId}
    (hview : db'.rowView = db.rowView.link tail id) : db'.pageRows = db.pageRows := by
  cases tail with
  | none =>
    have hpage : db'.page = db.page := congrArg RowView.page hview
    funext id'
    unfold pageRows
    rw [hpage]
  | some t =>
    have hpage : db'.page
        = Function.update db.page t.id ((db.page t.id).map fun p => { p with next := id }) :=
      congrArg RowView.page hview
    funext id'
    unfold pageRows
    rw [hpage, Function.update_apply]
    split_ifs with hid
    · rw [hid]
      cases db.page t.id <;> rfl
    · rfl

/-- **Preparing a page for a row** of a table: `get_table_data`, `prepare_dp`
and the linking of a new page, as `insert_row` does them. -/
theorem ensures_prepare {β : Type} {Q : β → StdDbInstance → Prop}
    {E : Exn → StdDbInstance → Prop} (hok : db.rowView.Ok) (size : ℕ) (mt : MetaTable)
    {k : DataPage → Prog β}
    (hk : ∀ p db', RowView.Prepared mt size db.rowView p.id db'.rowView → db'.Loaded p.id →
      db'.pageRows = db.pageRows → db'.indexFile = db.indexFile → SameListing db db' →
      Ensures (k p) db' Q E)
    (hE : ∀ e db', db'.rowView = { db.rowView with clock := db.generator.next db.clock } →
      E e db') :
    Ensures (do
      let pagesBefore ← getTableData mt.id
      let page ← prepareDp size mt
      linkPage (pagesBefore.filterMap id) page.id
      k page) db Q E := by
  rw [ensures_bind]
  refine (ensures_getTableData mt.id db).mono (fun pages db₁ ⟨hpages, hsame, hload⟩ => ?_)
    fun _ _ h => h.elim
  rw [ensures_bind]
  refine (ensures_prepareDp size mt db₁).mono (fun p db₂ hprep => ?_)
    fun e db' h => hE e db' (by rw [h, hsame.rowView, hsame.clock, hsame.generator])
  rw [ensures_bind, hpages, filterMap_pages]
  have hbefore : ∀ q ∈ db.rowView.pages mt.id,
      q.id ∈ db.pageIds mt.id ∧ db.page q.id = some q := by
    intro q hq
    obtain ⟨id, hid, hq⟩ := List.mem_filterMap.mp hq
    rw [hok.named id q hq]
    exact ⟨hid, hq⟩
  rcases hprep with ⟨⟨id, hid, hp, hloaded⟩, hroom, hsame'⟩ | hmade
  · -- the page is one of those before, and nothing is linked
    rw [hsame.pageIds] at hid
    rw [hsame.page] at hp
    have hpid : p.id = id := hok.named id p hp
    have hany : ((db.rowView.pages mt.id).any fun page => page.id = p.id) = true := by
      rw [List.any_eq_true]
      exact ⟨p, List.mem_filterMap.mpr ⟨id, hid, hp⟩, by simp⟩
    unfold linkPage
    rw [if_pos hany, ensures_pure]
    have hall := hsame.trans hsame'
    refine hk p db₂ ?_ (hpid ▸ hloaded) hall.pageRows hall.indexFile hall.listing
    rw [hall.rowView]
    exact .existing (hpid ▸ hid) (hpid ▸ hp) hroom
  · -- the page is new
    have hmade' := hmade.of_same hsame
    obtain ⟨schema, hschema, hp⟩ := hmade'.schema
    have hpid : p.id = db.clock := by rw [hp]; rfl
    have hnew : ∀ q ∈ db.rowView.pages mt.id, q.id ≠ p.id := by
      intro q hq
      rw [hpid]
      exact (hok.older q.id q (hbefore q hq).2).ne
    have hloaded : ∀ q ∈ db.rowView.pages mt.id, db₂.Loaded q.id := by
      intro q hq
      obtain ⟨hmem, hq'⟩ := hbefore q hq
      exact hmade.loaded_of q.id (hload q.id hmem (by rw [hq']; simp))
    refine (ensures_linkPage hnew hloaded).mono (fun _ db₃ ⟨hlink, hfile, hlisting, hmono⟩ => ?_)
      fun _ _ h => h.elim
    refine hk p db₃ ?_ (hmono p.id (hpid ▸ hmade'.loaded)) ?_ (hfile.trans hmade'.indexFile)
      (hmade'.listing.trans hlisting)
    · rw [hlink, hmade'.rowView, hpid, hp]
      exact .created hschema
    · rw [pageRows_link hlink, pageRows_create hok (by rw [hp]; rfl) hmade'.rowView]

/-- The key is free in any state with the same rows and index files. -/
theorem KeyFree.congr {mi : MetaIndex} {key : DataToken} (h : KeyFree db' mi key)
    (hrows : db'.pageRows = db.pageRows) (hfile : db'.indexFile = db.indexFile) :
    KeyFree db mi key := by
  obtain ⟨file, found, hf, hfind, hptr⟩ := h
  rw [hfile] at hf
  rw [hrows] at hptr
  exact ⟨file, found, hf, hfind, hptr⟩

/-- What `insert_row` has done to a table when it returns: the table's counters
have advanced, a page has been prepared and the row is in it; every index was
passed and has got its entry. -/
structure InsertedRow (db : StdDbInstance) (mt₀ mt : MetaTable) (row : DataRow) (id : DataPageId)
    (v : RowView) (db' : StdDbInstance) : Prop where
  prepared : RowView.Prepared mt (StdStorageSerializer.estimateSize row) (db.rowView.save mt) id v
  rowView : db'.rowView = v.inserted id row mt₀ mt
  passed : (mt.indexes.map MetaIndex.id).Nodup → ∀ mi ∈ mt.indexes, IndexPassed db mt row mi
  listing : SameListing db db'
  entries : ∃ files, EntriesAdded mt row id mt.indexes db.indexFile files
    ∧ SameTrees files db'.indexFile

/-- **What `insert_row` does.** When it throws, either there is no such table,
or the counters have advanced and a page may have been prepared. -/
theorem ensures_insertedRow (hactive : db.txn.state = .active) (hok : db.rowView.Ok)
    (tableName schemaName : Bytes) (cols : Option (List Bytes)) (tokens : List DataToken) :
    Ensures (insertRow tableName schemaName cols tokens) db
      (fun _ db' => ∃ mt₀, LooksUp db tableName schemaName mt₀
        ∧ ∃ id v,
          InsertedRow db mt₀ (mt₀.makeRow cols tokens).2 (mt₀.makeRow cols tokens).1 id v db')
      fun e db' => (e = .nullDereference ∧ db'.rowView = db.rowView)
        ∨ ∃ mt₀, LooksUp db tableName schemaName mt₀
        ∧ let (row, mt) := mt₀.makeRow cols tokens
          db'.rowView = { db.rowView.save mt with clock := db.generator.next db.clock }
          ∨ ∃ id, RowView.Prepared mt (StdStorageSerializer.estimateSize row)
              (db.rowView.save mt) id db'.rowView := by
  unfold insertRow
  rw [ensures_bind]
  refine (ensures_getTable tableName schemaName db).mono (fun mt₀ db₀ ⟨hdb, hlook⟩ => ?_)
    fun _ db' h => .inl ⟨h.1, by rw [h.2]⟩
  subst hdb
  cases hmake : mt₀.makeRow cols tokens with
  | mk row mt =>
    have hsaved : ({ db₀ with catalog := db₀.catalog.saveTable mt } : StdDbInstance).rowView.Ok :=
      ⟨hok.named, hok.older, hok.clock_pos, hok.listed, hok.nodup⟩
    unfold saveTable
    rw [ensures_bind, ensures_modify]
    refine ensures_prepare hsaved _ mt (fun p db₁ hprep hload hrows hfile hlisting => ?_)
      fun _ db' hdb' => ?_
    · rw [ensures_bind]
      refine (ensures_insertRowIntoIndexes mt row p.id db₁).mono
        (fun touched db₂ ⟨hsame, hlisting₂, hadded, hpassed⟩ => ?_) fun _ db' hsame => ?_
      · have hact : db₂.txn.state = .active := by
          rw [hsame.txn]
          exact (congrArg Transaction.state hprep.txn).trans hactive
        refine (ensures_insertRow_end hact (hsame.loaded p.id hload)).mono
          (fun _ db' ⟨hdb', hlisting₃, htrees⟩ => ?_) fun _ _ h => h.elim
        refine ⟨mt₀, hlook, ?_⟩
        rw [hmake]
        refine ⟨p.id, db₁.rowView, hprep, by rw [hdb', hsame.rowView], fun hnodup mi hmi => ?_,
          ?_, db₂.indexFile, ?_, htrees⟩
        · obtain ⟨key, hkey, hfree⟩ := hpassed hnodup mi hmi
          exact ⟨key, hkey, fun hnull hunique => (hfree hnull hunique).congr hrows hfile⟩
        · have hall := hlisting.trans (hlisting₂.trans hlisting₃)
          exact ⟨hall.1, hall.2⟩
        · rw [hfile] at hadded
          exact hadded
      · refine .inr ⟨mt₀, hlook, ?_⟩
        rw [hmake]
        refine .inr ⟨p.id, ?_⟩
        rw [hsame.rowView]
        exact hprep
    · refine .inr ⟨mt₀, hlook, ?_⟩
      rw [hmake]
      exact .inl hdb'

/-- What `insert_row` does to the rows. -/
theorem ensures_insertRow (hactive : db.txn.state = .active) (hok : db.rowView.Ok)
    (tableName schemaName : Bytes) (cols : Option (List Bytes)) (tokens : List DataToken) :
    Ensures (insertRow tableName schemaName cols tokens) db
      (fun _ db' => ∃ mt₀, LooksUp db tableName schemaName mt₀
        ∧ let (row, mt) := mt₀.makeRow cols tokens
          (∃ id v, RowView.Prepared mt (StdStorageSerializer.estimateSize row)
            (db.rowView.save mt) id v ∧ db'.rowView = v.inserted id row mt₀ mt)
          ∧ ((mt.indexes.map MetaIndex.id).Nodup → ∀ mi ∈ mt.indexes, IndexPassed db mt row mi))
      fun e db' => (e = .nullDereference ∧ db'.rowView = db.rowView)
        ∨ ∃ mt₀, LooksUp db tableName schemaName mt₀
        ∧ let (row, mt) := mt₀.makeRow cols tokens
          db'.rowView = { db.rowView.save mt with clock := db.generator.next db.clock }
          ∨ ∃ id, RowView.Prepared mt (StdStorageSerializer.estimateSize row)
              (db.rowView.save mt) id db'.rowView :=
  (ensures_insertedRow hactive hok tableName schemaName cols tokens).mono_ok
    fun _ _ ⟨mt₀, hlook, pageId, v, h⟩ => ⟨mt₀, hlook, ⟨pageId, v, h.prepared, h.rowView⟩, h.passed⟩

end StdDbInstance
