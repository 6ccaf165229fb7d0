import Deltabase.Recovery.CleanRestarts
import Deltabase.Storage.EncodedSize

/-!
# Room on a page

A page is written as one file, and `MAX_SIZE` is meant to bound it. Two things
are to see to that. `insert_row` puts a row on the first page of the table whose
`size`, with an estimate of the row, stays below the bound. And a row version
that `update_row` appends stays on the page of the old one.

Neither does. The `size` of a page is what it was when the page was made or
read; rows that have been added since do not count. The estimate leaves out the
eight bytes of the length of every token that is not a string. And `update_row`
does not look at sizes at all.

What the bytes of a page come to is decided by its rows alone, so what an
operation does to the sizes can be read off what it does to the rows of each
page. `RowCall.Roomy` says when a call keeps every page within the bound, in
terms of the state before it: when the page that it trusts has room for the row
as it is encoded, and each page has room for the versions it will get.
-/

namespace RowView

open StdStorageSerializer

variable {v v' : RowView}

/-- **Every page is within the bound.** -/
def PagesFit (v : RowView) : Prop :=
  ∀ id p, v.page id = some p → (serializeDp p).size ≤ DataPage.maxSize

/-- A page that is not there has no rows, and the header fits. -/
theorem pagesFit_iff :
    v.PagesFit ↔ ∀ id, DataPage.headerSize + rowsSize (v.pageRows id) ≤ DataPage.maxSize := by
  refine forall_congr' fun id => ?_
  unfold pageRows
  cases v.page id with
  | none => exact ⟨fun _ => by decide, fun _ p hp => (nomatch hp)⟩
  | some p =>
    show (∀ q, some p = some q → _) ↔ DataPage.headerSize + rowsSize p.rows ≤ DataPage.maxSize
    rw [← size_serializeDp]
    exact ⟨fun h => h p rfl, fun h q hq => Option.some.inj hq ▸ h⟩

/-- The rows of the pages decide. -/
theorem pagesFit_congr (h : v'.pageRows = v.pageRows) : v'.PagesFit ↔ v.PagesFit := by
  rw [pagesFit_iff, pagesFit_iff, h]

theorem pagesFit_of_page_eq (h : v'.page = v.page) : v'.PagesFit ↔ v.PagesFit := by
  unfold PagesFit
  rw [h]

/-! ## Inserting -/

/-- **The page that is trusted** with a row: the first whose `size` leaves room
for so many bytes. -/
def trusted (v : RowView) (tableId : TableId) (size : ℕ) : Option DataPage :=
  (v.pages tableId).find? fun p => p.size + size ≤ DataPage.maxSize

/-- In a table without pages none is trusted. -/
theorem trusted_of_nil {tableId : TableId} (h : v.ids tableId = []) (size : ℕ) :
    v.trusted tableId size = none := by
  unfold trusted pages
  rw [h]
  rfl

/-- Preparing a page changes nobody's rows. -/
theorem Prepared.keepsRows {mt : MetaTable} {size : ℕ} {id : DataPageId}
    (h : Prepared mt size v id v') (hok : v.Ok) : v'.pageRows = v.pageRows := by
  cases h with
  | existing => rfl
  | created => rw [pageRows_link, pageRows_create hok rfl]

/-- A row that is inserted goes to the end of its page. -/
theorem Prepared.pageRows_inserted {mt : MetaTable} {size : ℕ} {id : DataPageId}
    (h : Prepared mt size (v.save mt) id v') (hok : v.Ok) (row : DataRow)
    (mtUnchanged : MetaTable) :
    (v'.inserted id row mtUnchanged mt).pageRows
      = Function.update v.pageRows id (v.pageRows id ++ [row]) := by
  have hsaved : (v.save mt).Ok := (keeps_save v mt).ok hok
  obtain ⟨hok', hmem, -, -⟩ := h.spec hsaved
  obtain ⟨p, hp, -⟩ := hok'.listed mt.id id hmem
  have hrows : v'.pageRows = v.pageRows := h.keepsRows hsaved
  set w := v'.assign id fun p => { p with rows := p.rows ++ [row] }
  have hstamp : (v'.inserted id row mtUnchanged mt).pageRows = w.pageRows :=
    pageRows_assign_of_rows (v := (w.log (.insert mt.id id row)).log (.updateTable mtUnchanged mt))
      fun _ => rfl
  rw [hstamp, pageRows_assign, hp, ← hrows, pageRows_eq hp]
  rfl

/-! ## Going through the rows of a table -/

/-- What the rows to be changed come to. -/
def gained (gain : DataRow → ℕ) (ids : List ℕ) (rows : List DataRow) : ℕ :=
  (rows.map fun row => if row.id ∈ ids ∧ row.obsolete = false then gain row else 0).sum

theorem gained_cons (gain : DataRow → ℕ) (ids : List ℕ) (row : DataRow) (rows : List DataRow) :
    gained gain ids (row :: rows)
      = (if row.id ∈ ids ∧ row.obsolete = false then gain row else 0) + gained gain ids rows := by
  unfold gained
  rw [List.map_cons, List.sum_cons]

/-- **What the loops over the rows of a table do to its pages**, when every
change of a row adds so much to its page. -/
theorem PagesVisited.rowsSize_eq
    {R : DataPageId → ℕ → DataRow → LoopState → LoopState → Prop} {ids : List ℕ}
    {mt mw mw' : MetaTable} {gain : DataRow → ℕ} (hR : OnPage R)
    (hchange : ∀ pageId i row s s', Target s.1 ids pageId i row → R pageId i row s s' →
      Recounted mt s.2.mt → Recounted mt s'.2.mt
        ∧ rowsSize (s'.1.pageRows pageId) = rowsSize (s.1.pageRows pageId) + gain row)
    {pageIds : List DataPageId} (h : PagesVisited R ids pageIds v mw v' mw')
    (hnodup : pageIds.Nodup) (hmw : Recounted mt mw) :
    ∀ id ∈ pageIds, rowsSize (v'.pageRows id)
      = rowsSize (v.pageRows id) + gained gain ids (v.pageRows id) := by
  induction h with
  | nil => exact fun id hid => absurd hid List.not_mem_nil
  | @cons pageId rest p v v' mw mw' s hpage hvisits hrest ih =>
    obtain ⟨hnot, hnodup'⟩ := List.nodup_cons.mp hnodup
    have henter : Unvisited pageId (List.range p.rows.length ++ []) p.rows v := by
      rw [List.append_nil]
      exact unvisited_enter hpage
    have hpageRows : rowsSize (v.pageRows pageId) + gained gain ids (p.rows ++ [])
        = rowsSize p.rows + gained gain ids p.rows := by
      rw [pageRows_eq hpage, List.append_nil]
    -- on the page, what is yet to come goes over into what is there
    have hloop : ∃ rest', Unvisited pageId [] rest' s.1 ∧ Recounted mt s.2.mt
        ∧ rowsSize (s.1.pageRows pageId) + gained gain ids (rest' ++ [])
          = rowsSize p.rows + gained gain ids p.rows := by
      refine hvisits.rows_rule hR
        (P := fun rows w mw => Recounted mt mw ∧ rowsSize (w.pageRows pageId)
          + gained gain ids rows = rowsSize p.rows + gained gain ids p.rows) henter
        (fun row rest w mw hskip hP => ⟨hP.1, ?_⟩)
        (fun i row rest s s' htarget hrow hP => ?_) ⟨hmw, hpageRows⟩
      · rw [← hP.2, gained_cons, if_neg, Nat.zero_add]
        rintro ⟨hin, hlive⟩
        rcases hskip with hskip | hskip
        · exact hskip hin
        · rw [hlive] at hskip
          cases hskip
      · obtain ⟨q, hq, hget, hin, hlive⟩ := htarget
        obtain ⟨hrec, hrows⟩ := hchange pageId i row s s' ⟨q, hq, hget, hin, hlive⟩ hrow hP.1
        refine ⟨hrec, ?_⟩
        rw [← hP.2, gained_cons, if_pos ⟨hin, hlive⟩, hrows, Nat.add_assoc]
    obtain ⟨rest', hrest', hrecounted, hsize⟩ := hloop
    rw [hrest'.eq_nil] at hsize
    have hother : ∀ id, id ≠ pageId → (leave pageId s).pageRows id = v.pageRows id := by
      intro id hne
      unfold pageRows
      rw [leave_page_of_ne s hne, hvisits.page_of_ne hR hne]
      rfl
    intro id hid
    rcases List.mem_cons.mp hid with rfl | hid
    · have hpage' : v'.pageRows id = s.1.pageRows id := by
        rw [← pageRows_leave id s]
        unfold pageRows
        rw [hrest.page_of_not_mem hR hnot]
      rw [hpage', pageRows_eq hpage]
      exact hsize
    · rw [ih hnodup' hrecounted id hid, hother id fun heq => hnot (heq ▸ hid)]

/-- The bytes of the new version of a row, which an assignment that throws does
not make. -/
def newSize (mt : MetaTable) (update : RowUpdate) (row : DataRow) : ℕ :=
  match StdDbInstance.assignTokens mt update row with
  | .ok tokens => rowSize { row with tokens := tokens }
  | .error _ => 0

/-- **A row of an update** adds its new version to its page. -/
theorem Updates.rowsSize_eq {mt : MetaTable} {update : RowUpdate} {unchangedMt : MetaTable}
    {ids : List ℕ} (pageId : DataPageId) (i : ℕ) (row : DataRow) (s s' : LoopState)
    (htarget : Target s.1 ids pageId i row) (h : Updates update unchangedMt pageId i row s s')
    (hmt : Recounted mt s.2.mt) :
    Recounted mt s'.2.mt ∧ rowsSize (s'.1.pageRows pageId)
      = rowsSize (s.1.pageRows pageId) + newSize mt update row := by
  obtain ⟨p, hpage, -, -, -⟩ := htarget
  cases h with
  | @intro w loop tokens hassign =>
    refine ⟨hmt.trans (recounted_counted loop.mt), ?_⟩
    have hcolumns : mt.columns = (numbered loop.mt).columns := hmt.columns.symm
    have hnew : newSize mt update row = rowSize { row with tokens := tokens } := by
      unfold newSize
      rw [assignTokens_congr hcolumns, hassign]
    rw [pageRows_eq (replaced_page hpage _ _ _ _ _), pageRows_eq hpage, rowsSize_append,
      rowsSize_modify, rowsSize_singleton, hnew]
    exact congrArg _ (rowSize_congr rfl)

/-- A row of a delete adds nothing. -/
theorem Deletes.rowsSize_eq {mt : MetaTable} {unchangedMt : MetaTable} {ids : List ℕ}
    (pageId : DataPageId) (i : ℕ) (row : DataRow) (s s' : LoopState)
    (htarget : Target s.1 ids pageId i row) (h : Deletes unchangedMt pageId i row s s')
    (hmt : Recounted mt s.2.mt) :
    Recounted mt s'.2.mt
      ∧ rowsSize (s'.1.pageRows pageId) = rowsSize (s.1.pageRows pageId) + 0 := by
  obtain ⟨p, hpage, -, -, -⟩ := htarget
  cases h with
  | @intro w loop =>
    refine ⟨hmt.trans (recounted_discounted loop.mt), ?_⟩
    have hpage' : (w.superseded pageId i (discounted loop.mt)).page pageId
        = some { p with rows := p.rows.modify i DataRow.markObsolete } :=
      assign_page (v := w.save (discounted loop.mt)) hpage _
    show rowsSize ((w.superseded pageId i (discounted loop.mt)).pageRows pageId) = _
    rw [pageRows_eq hpage', pageRows_eq hpage, rowsSize_modify, Nat.add_zero]

end RowView

namespace StdDbInstance

open BufferPool Transaction FileIOManager RowView StdStorageSerializer

variable {db db' : StdDbInstance}

/-! ## The page that is trusted -/

theorem ensures_prepareDpLoop_trusted (size : ℕ) (mt : MetaTable) (ids : List DataPageId)
    (db : StdDbInstance) :
    Ensures (prepareDpLoop size mt ids) db
      (fun p _ => ∀ q, (ids.filterMap db.page).find? (fun p => p.size + size ≤ DataPage.maxSize)
        = some q → p = q) fun _ _ => True := by
  induction ids generalizing db with
  | nil => exact ensures_iff.mpr ⟨fun _ _ _ q hq => (by cases hq), fun _ _ _ => trivial⟩
  | cons id ids ih =>
    unfold prepareDpLoop
    rw [ensures_bind]
    refine (ensures_getDp id db).mono (fun p db₁ hgot => ?_) fun _ _ _ => trivial
    obtain ⟨hp, hsame, -⟩ := hgot
    have hnext := ih db₁
    rw [hsame.page] at hnext
    cases p with
    | none =>
      rw [List.filterMap_cons_none hp.symm]
      exact hnext
    | some page =>
      rw [List.filterMap_cons_some hp.symm]
      show Ensures (if page.size + size ≤ DataPage.maxSize then pure page
        else prepareDpLoop size mt ids) db₁ _ _
      split_ifs with hroom
      · simp only [List.find?_cons, decide_eq_true hroom]
        exact fun q hq => Option.some.inj hq
      · simp only [List.find?_cons, decide_eq_false hroom]
        exact hnext

/-- **`prepare_dp` returns the page that is trusted**, when there is one. -/
theorem ensures_prepareDp_trusted (size : ℕ) (mt : MetaTable) (db : StdDbInstance) :
    Ensures (prepareDp size mt) db
      (fun p _ => ∀ q, db.rowView.trusted mt.id size = some q → p = q) fun _ _ => True := by
  have hpages : db.rowView.pages mt.id
      = ((db.pool.dataPagesPerTable mt.id).getD []).filterMap db.page := rfl
  unfold prepareDp trusted
  rw [hpages, ensures_bind, ensures_get]
  cases db.pool.dataPagesPerTable mt.id with
  | none => exact ensures_iff.mpr ⟨fun _ _ _ q hq => (nomatch hq), fun _ _ _ => trivial⟩
  | some ids => exact ensures_prepareDpLoop_trusted size mt ids db

/-- The last record but one of the log is that of a row on this page. -/
def LogsRowOn (id : DataPageId) (db : StdDbInstance) : Prop :=
  ∃ before tableId row r r', db.wal.kept = before ++ [r, r'] ∧ r.body = .insert tableId id row

theorem exists_kept_appendRecord (body : WalBody) (db : StdDbInstance) :
    ∃ r, (appendRecord body db).wal.kept = db.wal.kept ++ [r] ∧ r.body = body := ⟨_, rfl, rfl⟩

/-- Appending two records, the first of which is that of a row. -/
theorem ensures_logsRowOn (id : DataPageId) (mtUnchanged mt : MetaTable) (row : DataRow)
    (touched : List IndexId) (db : StdDbInstance) :
    Ensures (do
        appendLog (.insert mt.id id row)
        appendLog (.updateTable mtUnchanged mt)
        let pageLsn ← getLastLsn
        modifyDp id fun page => { page with lastLsn := pageLsn }
        touched.forM fun indexId => setIfLsn indexId pageLsn
        dirtyDp id) db (fun _ db' => LogsRowOn id db') fun _ _ => True := by
  by_cases hactive : db.txn.state = .active
  · unfold modifyDp dirtyDp getLastLsn
    rw [ensures_bind, ensures_appendLog hactive, ensures_bind, ensures_appendLog (by exact hactive)]
    simp only [ensures_bind, ensures_get, ensures_pure, ensures_modify]
    refine (ensures_setIfLsns touched _ _).mono (fun _ db' hstamped => ?_) fun _ _ _ => trivial
    obtain ⟨r, hkept, hbody⟩ := exists_kept_appendRecord (.insert mt.id id row) db
    obtain ⟨r', hkept', -⟩ := exists_kept_appendRecord (.updateTable mtUnchanged mt)
      (appendRecord (.insert mt.id id row) db)
    refine ⟨db.wal.kept, mt.id, row, r, r', ?_, hbody⟩
    show db'.wal.kept = _
    rw [hstamped.1.wal, show db.wal.kept ++ [r, r'] = db.wal.kept ++ [r] ++ [r'] from
      (List.append_assoc db.wal.kept [r] [r']).symm, ← hkept]
    exact hkept'
  · unfold appendLog
    rw [ensures_bind, ensures_bind, ensures_get, if_pos hactive]
    trivial

/-- **`insert_row` puts the row on the page that is trusted**, when there is
one. -/
theorem ensures_insertRow_trusted (tableName schemaName : Bytes) (cols : Option (List Bytes))
    (tokens : List DataToken) (db : StdDbInstance) :
    Ensures (insertRow tableName schemaName cols tokens) db
      (fun _ db' => ∃ mt, LooksUp db tableName schemaName mt ∧ ∃ id, LogsRowOn id db'
        ∧ ∀ q, db.rowView.trusted mt.id (estimateSize (mt.makeRow cols tokens).1) = some q →
          id = q.id) fun _ _ => True := by
  unfold insertRow
  rw [ensures_bind]
  refine (ensures_getTable tableName schemaName db).mono (fun mt db₀ ⟨hdb, hlook⟩ => ?_)
    fun _ _ _ => trivial
  subst hdb
  unfold saveTable
  rw [ensures_bind, ensures_modify, ensures_bind]
  refine (ensures_getTableData _ _).mono (fun pages db₁ ⟨_, hsame, _⟩ => ?_) fun _ _ h => h.elim
  rw [ensures_bind]
  refine (ensures_prepareDp_trusted _ _ db₁).mono (fun p db₂ htrusted => ?_) fun _ _ _ => trivial
  rw [hsame.rowView] at htrusted
  have hlogs : Ensures (do
      linkPage (pages.filterMap id) p.id
      let touchedIndexes ← insertRowIntoIndexes (mt.makeRow cols tokens).2
        (mt.makeRow cols tokens).1 p.id
      modifyDp p.id fun page => { page with rows := page.rows ++ [(mt.makeRow cols tokens).1] }
      appendLog (.insert (mt.makeRow cols tokens).2.id p.id (mt.makeRow cols tokens).1)
      appendLog (.updateTable mt (mt.makeRow cols tokens).2)
      let pageLsn ← getLastLsn
      modifyDp p.id fun page => { page with lastLsn := pageLsn }
      touchedIndexes.forM fun indexId => setIfLsn indexId pageLsn
      dirtyDp p.id) db₂ (fun _ db' => LogsRowOn p.id db') fun _ _ => True := by
    rw [ensures_bind]
    refine ensures_iff.mpr ⟨fun _ db₃ _ => ?_, fun _ _ _ => trivial⟩
    rw [ensures_bind]
    refine ensures_iff.mpr ⟨fun touched db₄ _ => ?_, fun _ _ _ => trivial⟩
    rw [ensures_bind]
    exact ensures_logsRowOn _ _ _ _ _ _
  refine hlogs.mono_ok fun _ db' hdb' => ⟨mt, hlook, p.id, hdb', fun q hq => ?_⟩
  exact congrArg DataPage.id (htrusted q hq)

end StdDbInstance

/-! ## Calls -/

namespace RowCall

open StdDbInstance RowView StdStorageSerializer

variable {db db' : StdDbInstance}

/-- **Every row version that a call makes fits on a page of its own.** -/
def FitsAlone (c : RowCall) (db : StdDbInstance) : Prop :=
  ∀ mt, LooksUp db c.tableName c.schemaName mt →
    match c.op with
    | .insert cols tokens =>
      DataPage.headerSize + rowSize (mt.makeRow cols tokens).1 ≤ DataPage.maxSize
    | .update update rows => ∀ row ∈ db.tableRows mt.id, row.id ∈ rows.map DataRow.id →
      row.obsolete = false → DataPage.headerSize + newSize mt update row ≤ DataPage.maxSize
    | .delete _ => True

/-- **A call for which there is room**, in the state before it.

* For an insert: the page that is trusted has room for the row as it will be
  encoded.
* For an update: each page of the table has room for the new versions of its
  rows. -/
def Roomy (c : RowCall) (db : StdDbInstance) : Prop :=
  ∀ mt, LooksUp db c.tableName c.schemaName mt →
    match c.op with
    | .insert cols tokens => ∀ p,
      db.rowView.trusted mt.id (estimateSize (mt.makeRow cols tokens).1) = some p →
        (serializeDp p).size + rowSize (mt.makeRow cols tokens).1 ≤ DataPage.maxSize
    | .update update rows => ∀ id ∈ db.pageIds mt.id, ∀ p, db.page id = some p →
      (serializeDp p).size + gained (newSize mt update) (rows.map DataRow.id) p.rows
        ≤ DataPage.maxSize
    | .delete _ => True

end RowCall

namespace StdDbInstance

open BufferPool Transaction FileIOManager RowView StdStorageSerializer

variable {db db' : StdDbInstance}

/-- The page whose row has been logged is the page it has been put on. -/
theorem LogsRowOn.eq {id id' : DataPageId} {v : RowView} {row : DataRow}
    {mtUnchanged mt : MetaTable} (h : LogsRowOn id db)
    (hview : db.rowView = v.inserted id' row mtUnchanged mt) : id' = id := by
  obtain ⟨before, tableId, row', r, r', hkept, hbody⟩ := h
  have hwal : db.wal = (v.inserted id' row mtUnchanged mt).wal := congrArg RowView.wal hview
  have hkept' : ∃ s s', db.wal.kept = v.wal.kept ++ [s, s'] ∧ s.body = .insert mt.id id' row := by
    rw [hwal]
    exact ⟨_, _, List.append_assoc _ [_] [_], rfl⟩
  obtain ⟨s, s', hkept', hbody'⟩ := hkept'
  rw [hkept] at hkept'
  have hlast : [r, r'] = [s, s'] := (List.append_inj' hkept' rfl).2
  obtain rfl := (List.cons.inj hlast).1
  rw [hbody] at hbody'
  cases hbody'
  rfl

/-- Rows added to one page leave every page within the bound when they do so for
that page. -/
theorem pagesFit_update_iff {v v' : RowView} {id : DataPageId} {rows : List DataRow}
    (hfit : v.PagesFit) (hrows : v'.pageRows = Function.update v.pageRows id rows) :
    v'.PagesFit ↔ DataPage.headerSize + rowsSize rows ≤ DataPage.maxSize := by
  rw [pagesFit_iff, hrows]
  constructor
  · intro h
    have hid := h id
    rwa [Function.update_self] at hid
  · intro h id'
    rw [Function.update_apply]
    split_ifs
    · exact h
    · exact pagesFit_iff.mp hfit id'

/-- **An insert keeps every page within the bound exactly when there is room.** -/
theorem pagesFit_insertRow_iff (hactive : db.txn.state = .active) (hok : db.rowView.Ok)
    (hfit : db.rowView.PagesFit) {tableName schemaName : Bytes} {cols : Option (List Bytes)}
    {tokens : List DataToken}
    (halone : RowCall.FitsAlone ⟨tableName, schemaName, .insert cols tokens⟩ db)
    (h : insertRow tableName schemaName cols tokens db = .ok () db') :
    db'.rowView.PagesFit ↔ RowCall.Roomy ⟨tableName, schemaName, .insert cols tokens⟩ db := by
  obtain ⟨mt, hlook, ⟨id, v, hprep, hview⟩, -⟩ :=
    (ensures_insertRow hactive hok tableName schemaName cols tokens).of_ok h
  obtain ⟨mt', hlook', id', hlogs, htrusted⟩ :=
    (ensures_insertRow_trusted tableName schemaName cols tokens db).of_ok h
  obtain rfl := hlook.eq hlook'
  obtain rfl := hlogs.eq hview
  set row := (mt.makeRow cols tokens).1
  have hrows : db'.rowView.pageRows
      = Function.update db.rowView.pageRows id (db.rowView.pageRows id ++ [row]) :=
    (congrArg RowView.pageRows hview).trans (hprep.pageRows_inserted hok row mt)
  rw [pagesFit_update_iff hfit hrows, rowsSize_append, rowsSize_singleton, ← Nat.add_assoc]
  have hroomy : RowCall.Roomy ⟨tableName, schemaName, .insert cols tokens⟩ db
      ↔ ∀ p, db.rowView.trusted mt.id (estimateSize row) = some p →
        (serializeDp p).size + rowSize row ≤ DataPage.maxSize :=
    ⟨fun h => h mt hlook, fun h mt₁ hlook₁ => hlook.eq hlook₁ ▸ h⟩
  rw [hroomy]
  cases hfound : db.rowView.trusted mt.id (estimateSize row) with
  | some q =>
    obtain rfl : id = q.id := htrusted q hfound
    obtain ⟨id₀, -, hq⟩ := List.mem_filterMap.mp (List.mem_of_find?_eq_some hfound)
    have hpage : db.rowView.pageRows q.id = q.rows := by
      rw [hok.named id₀ q hq]
      exact pageRows_eq hq
    rw [hpage, ← size_serializeDp]
    exact ⟨fun h p hp => Option.some.inj hp ▸ h, fun h => h q rfl⟩
  | none =>
    refine iff_of_true ?_ fun p hp => nomatch hp
    have hempty : db.rowView.pageRows id = [] := by
      cases hprep with
      | @existing id p hmem hpage hroom =>
        have hin : p ∈ db.rowView.pages mt.id := List.mem_filterMap.mpr ⟨id, hmem, hpage⟩
        exact absurd (decide_eq_true hroom) (List.find?_eq_none.mp hfound p hin)
      | created => exact pageRows_clock hok
    rw [hempty]
    exact halone mt hlook

/-- **An update keeps every page within the bound exactly when there is room.** -/
theorem pagesFit_updateRow_iff (hactive : db.txn.state = .active) (hok : db.rowView.Ok)
    (hfit : db.rowView.PagesFit) {tableName schemaName : Bytes} {update : RowUpdate}
    {rows : List DataRow} (h : updateRow tableName schemaName update rows db = .ok () db') :
    db'.rowView.PagesFit ↔ RowCall.Roomy ⟨tableName, schemaName, .update update rows⟩ db := by
  obtain ⟨mt, mt', hlook, hvisited⟩ :=
    (ensures_updateRow hactive hok tableName schemaName update rows).of_ok h
  have hsame : Recounted mt mt := ⟨rfl, rfl, rfl, rfl, rfl⟩
  have hsize := hvisited.rowsSize_eq (onPage_updates update mt)
    (fun pageId i row s s' => Updates.rowsSize_eq pageId i row s s') (hok.nodup mt.id) hsame
  have hroomy : RowCall.Roomy ⟨tableName, schemaName, .update update rows⟩ db
      ↔ ∀ id ∈ db.pageIds mt.id, ∀ p, db.page id = some p →
        (serializeDp p).size + gained (newSize mt update) (rows.map DataRow.id) p.rows
          ≤ DataPage.maxSize :=
    ⟨fun h => h mt hlook, fun h mt₁ hlook₁ => hlook.eq hlook₁ ▸ h⟩
  rw [hroomy, pagesFit_iff]
  constructor
  · intro hall id hid p hp
    have hbound := hall id
    rwa [hsize id hid, pageRows_eq (v := db.rowView) hp, ← Nat.add_assoc,
      ← size_serializeDp] at hbound
  · intro hall id
    by_cases hid : id ∈ db.pageIds mt.id
    · obtain ⟨p, hp, -⟩ := hok.listed mt.id id hid
      rw [hsize id hid, pageRows_eq hp, ← Nat.add_assoc, ← size_serializeDp]
      exact hall id hid p hp
    · have hpage : db'.rowView.pageRows id = db.rowView.pageRows id := by
        unfold RowView.pageRows
        rw [hvisited.page_of_not_mem (onPage_updates update mt) hid]
      rw [hpage]
      exact pagesFit_iff.mp hfit id

/-- A delete keeps every page within the bound. -/
theorem pagesFit_deleteRows (hactive : db.txn.state = .active) (hok : db.rowView.Ok)
    (hfit : db.rowView.PagesFit) {tableName schemaName : Bytes} {rows : List DataRow}
    (h : deleteRows tableName schemaName rows db = .ok () db') : db'.rowView.PagesFit := by
  obtain ⟨mt, mt', -, hvisited⟩ :=
    (ensures_deleteRows hactive hok tableName schemaName rows).of_ok h
  have hsame : Recounted mt mt := ⟨rfl, rfl, rfl, rfl, rfl⟩
  have hnothing : ∀ rows' : List DataRow, gained (fun _ => 0) (rows.map DataRow.id) rows' = 0 := by
    intro rows'
    unfold gained
    simp
  have hsize : ∀ id ∈ db.rowView.ids mt.id, rowsSize (db'.rowView.pageRows id)
      = rowsSize (db.rowView.pageRows id)
        + gained (fun _ => 0) (rows.map DataRow.id) (db.rowView.pageRows id) :=
    hvisited.rowsSize_eq (onPage_deletes mt)
      (fun pageId i row s s' => Deletes.rowsSize_eq pageId i row s s') (hok.nodup mt.id) hsame
  refine pagesFit_iff.mpr fun id => ?_
  by_cases hid : id ∈ db.pageIds mt.id
  · rw [hsize id hid, hnothing]
    exact pagesFit_iff.mp hfit id
  · have hpage : db'.rowView.pageRows id = db.rowView.pageRows id := by
      unfold RowView.pageRows
      rw [hvisited.page_of_not_mem (onPage_deletes mt) hid]
    rw [hpage]
    exact pagesFit_iff.mp hfit id

/-- **A call that succeeds** keeps every page within the bound exactly when there
is room for it. -/
theorem pagesFit_call_iff (hactive : db.txn.state = .active) (hok : db.rowView.Ok)
    (hfit : db.rowView.PagesFit) {c : RowCall} (halone : c.FitsAlone db)
    (h : c.run db = .ok () db') : db'.rowView.PagesFit ↔ c.Roomy db := by
  obtain ⟨tableName, schemaName, op⟩ := c
  cases op with
  | insert cols tokens => exact pagesFit_insertRow_iff hactive hok hfit halone h
  | update update rows => exact pagesFit_updateRow_iff hactive hok hfit h
  | delete rows =>
    exact iff_of_true (pagesFit_deleteRows hactive hok hfit h) fun _ _ => trivial

end StdDbInstance

/-! ## Runs -/

/-- Whether a statement changes rows. -/
def Statement.changesRows : Statement → Bool
  | .insert .. | .update .. | .delete .. => true
  | _ => false

/-- **What is done to a database, call by call**: transactions begin and commit,
in between rows are inserted, updated and deleted and tables and indexes made and
dropped, and between transactions the instance is closed and another opened. -/
inductive Work where
  | begin
  | call (c : RowCall)
  | define (st : Statement)
  | commit
  | restart

namespace StdDbInstance

open BufferPool Transaction FileIOManager RowView StdStorageSerializer

variable {db db' : StdDbInstance}

/-- **A call that succeeds**, or a clean restart. -/
inductive Works (db : StdDbInstance) : Work → StdDbInstance → Prop
  | begin {db' : StdDbInstance} (hidle : db.txn.state ≠ .active)
      (h : (makeTransaction >>= fun _ => Transaction.begin) db = .ok () db') : Works db .begin db'
  | call {c : RowCall} {db' : StdDbInstance} (hactive : db.txn.state = .active)
      (h : c.run db = .ok () db') : Works db (.call c) db'
  | define {st : Statement} {db' : StdDbInstance} (hactive : db.txn.state = .active)
      (hrows : st.changesRows = false) (hanalyze : st.analyze db = true)
      (h : st.body db = .ok () db') : Works db (.define st) db'
  | commit {db' : StdDbInstance} (hactive : db.txn.state = .active)
      (h : Transaction.commit db = .ok () db') : Works db .commit db'
  | restart {db' : StdDbInstance} (hidle : db.txn.state ≠ .active)
      (h : Opens (db.catalog.flush db.io) db.keptLog db.clock db') : Works db .restart db'

/-- In a transaction the instance is in step with its log, between transactions
it is at rest with everything written. -/
structure InStep (db : StdDbInstance) : Prop where
  running : db.txn.state = .active → Running Set.univ db.rowView
  settled : db.txn.state ≠ .active → Settled db

theorem InStep.of_running (h : Running Set.univ db.rowView) : InStep db :=
  ⟨fun _ => h, fun hidle => absurd h.active hidle⟩

/-- A transaction that has committed is not active. -/
theorem ensures_commit_state (db : StdDbInstance) :
    Ensures Transaction.commit db (fun _ db' => db'.txn.state ≠ .active) fun _ _ => True := by
  unfold Transaction.commit
  rw [ensures_bind]
  refine ensures_iff.mpr ⟨fun _ db₁ _ => ?_, fun _ _ _ => trivial⟩
  show Ensures (modify _ >>= fun _ => modify _) _ _ _
  rw [ensures_bind, ensures_modify, ensures_modify]
  exact fun h => nomatch h

/-- **Every step** keeps an instance in step. -/
theorem InStep.step (h : InStep db) {w : Work} (hstep : Works db w db') : InStep db' := by
  cases hstep with
  | begin hidle hrun => exact .of_running ((running_begin (h.settled hidle).resting).of_ok hrun).1
  | @call c _ hactive hrun =>
    have hrunning := h.running hactive
    obtain ⟨tableName, schemaName, op⟩ := c
    cases op with
    | insert cols tokens => exact .of_running ((running_insertRow hrunning _ _ _ _).of_ok hrun)
    | update update rows => exact .of_running ((running_updateRow hrunning _ _ _ _).of_ok hrun)
    | delete rows => exact .of_running ((running_deleteRows hrunning _ _ _).of_ok hrun)
  | define hactive _ hanalyze hrun =>
    exact .of_running ((Statement.running_body _ (h.running hactive) hanalyze).of_ok hrun)
  | commit hactive hrun =>
    exact ⟨fun hact => absurd hact ((ensures_commit_state db).of_ok hrun),
      fun _ => (settled_commit (h.running hactive)).of_ok hrun⟩
  | restart hidle hopens =>
    refine ⟨fun hact => ?_, fun _ => ((h.settled hidle).reopen hopens).1⟩
    cases hopens
    cases hact

/-- Beginning a transaction leaves the pages alone. -/
theorem page_begin (db : StdDbInstance) :
    Ensures (makeTransaction >>= fun _ => Transaction.begin) db
      (fun _ db' => db'.rowView.page = db.rowView.page) fun _ _ => True := by
  unfold makeTransaction Transaction.begin
  rw [ensures_bind, ensures_bind, ensures_make, ensures_modify, ensures_bind, ensures_get]
  show Ensures (modify _ >>= fun _ => modify _) _ _ _
  rw [ensures_bind, ensures_modify, ensures_modify]
  rfl

/-- So does committing it. -/
theorem page_commit (db : StdDbInstance) :
    Ensures Transaction.commit db (fun _ db' => db'.rowView.page = db.rowView.page)
      fun _ _ => True := by
  unfold Transaction.commit commitLog
  rw [ensures_bind, ensures_bind, ensures_get]
  split_ifs with hstate
  · trivial
  · show Ensures (modify _ >>= fun _ => modify _) _ _ _
    rw [ensures_bind, ensures_modify, ensures_modify]
    show Ensures (modify _ >>= fun _ => modify _) _ _ _
    rw [ensures_bind, ensures_modify, ensures_modify]
    set db₁ := waitForDurable _ _
    have hview : (flushDirty db₁.txn.lastLsn db₁).rowView
        = db₁.rowView.writePages (db₁.written db₁.txn.lastLsn fun _ => true) :=
      rowView_flushSome db₁.txn.lastLsn (fun _ => true) (fun _ => true) db₁
    exact (show (flushDirty db₁.txn.lastLsn db₁).rowView.page = _ from
      congrArg RowView.page hview).trans rfl

/-- So do the statements that change no rows. -/
theorem page_define (h : Running Set.univ db.rowView) {st : Statement}
    (hrows : st.changesRows = false) :
    Ensures st.body db (fun _ db' => db'.rowView.page = db.rowView.page) fun _ _ => True := by
  cases st with
  | createSchema dbName schemaName =>
    exact (ensures_createSchema h.active dbName schemaName).mono
      (fun _ _ hview => (congrArg RowView.page hview).trans rfl) fun _ _ _ => trivial
  | createTable tableName schemaName columns =>
    exact (ensures_createTable h.active tableName schemaName columns).mono_ok
      fun _ _ ⟨_, _, _, _, _, _, hview⟩ => (congrArg RowView.page hview).trans rfl
  | insert => cases hrows
  | update => cases hrows
  | delete => cases hrows
  | createIndex indexName tableName columnName schemaName isUnique =>
    exact (ensures_createIndex h.active h.logged.pages.ok indexName tableName columnName schemaName
      isUnique).mono (fun _ _ ⟨_, _, _, _, _, _, hview, _⟩ =>
        (congrArg RowView.page hview).trans rfl) fun _ _ _ => trivial
  | dropIndex indexName tableName schemaName =>
    exact (ensures_dropIndex h.active indexName tableName schemaName).mono_ok
      fun _ _ ⟨_, _, _, _, hview⟩ => (congrArg RowView.page hview).trans rfl

end StdDbInstance

namespace Work

/-- Every row version that is made fits on a page of its own. -/
def FitsAlone (db : StdDbInstance) : Work → Prop
  | call c => c.FitsAlone db
  | _ => True

/-- There is room for the row versions that are made. -/
def Roomy (db : StdDbInstance) : Work → Prop
  | call c => c.Roomy db
  | _ => True

end Work

namespace StdDbInstance

open RowView

variable {db db' : StdDbInstance}

/-- **A step** keeps every page within the bound exactly when there is room for
the row versions it makes. -/
theorem InStep.pagesFit_iff (h : InStep db) (hfit : db.rowView.PagesFit) {w : Work}
    (hstep : Works db w db') (halone : w.FitsAlone db) : db'.rowView.PagesFit ↔ w.Roomy db := by
  cases hstep with
  | begin _ hrun =>
    exact iff_of_true ((pagesFit_of_page_eq ((page_begin db).of_ok hrun)).mpr hfit) trivial
  | call hactive hrun =>
    exact pagesFit_call_iff hactive (h.running hactive).logged.pages.ok hfit halone hrun
  | define hactive hrows _ hrun =>
    exact iff_of_true ((pagesFit_of_page_eq
      ((page_define (h.running hactive) hrows).of_ok hrun)).mpr hfit) trivial
  | commit _ hrun =>
    exact iff_of_true ((pagesFit_of_page_eq ((page_commit db).of_ok hrun)).mpr hfit) trivial
  | restart hidle hopens =>
    have hfound := ((h.settled hidle).reopen hopens).2
    exact iff_of_true ((pagesFit_congr hfound.pageRows).mpr hfit) trivial

theorem inStep_new (generator : UUIDGenerator) : InStep { generator } :=
  ⟨fun hact => (nomatch hact), fun _ => settled_new generator⟩

/-- **No page outgrows the bound** in a run in which every row version that is
made fits on a page of its own and there is room for it where it is put; and in
a state such a run has reached, the next step keeps every page within the bound
exactly when there is room for what it makes. -/
theorem pagesFit_of_roomy {generator : UUIDGenerator} {works : List Work}
    (hrun : Run (fun db w db' => Works db w db' ∧ w.FitsAlone db ∧ w.Roomy db) { generator }
      works db) :
    db.rowView.PagesFit ∧ ∀ w db', Works db w db' → w.FitsAlone db →
      (db'.rowView.PagesFit ↔ w.Roomy db) := by
  have hnew : ({ generator } : StdDbInstance).rowView.PagesFit := fun id p hp => nomatch hp
  have h : InStep db ∧ db.rowView.PagesFit :=
    hrun.invariant (P := fun db => InStep db ∧ db.rowView.PagesFit)
      (fun _ _ _ hdb ⟨hstep, halone, hroomy⟩ =>
        ⟨hdb.1.step hstep, (hdb.1.pagesFit_iff hdb.2 hstep halone).mpr hroomy⟩)
      ⟨inStep_new generator, hnew⟩
  exact ⟨h.2, fun w db' hstep halone => h.1.pagesFit_iff h.2 hstep halone⟩

end StdDbInstance

/-! ## Two rows that do not fit on one page -/

namespace StdDbInstance

open BufferPool Transaction FileIOManager RowView StdStorageSerializer

/-- The state in which a program ends. -/
def ran (m : Prog Unit) (db : StdDbInstance) : StdDbInstance :=
  match m db with
  | .ok _ db' => db'
  | .error _ db' => db'

/-- Whether a program succeeds. -/
def succeeds (m : Prog Unit) (db : StdDbInstance) : Bool :=
  match m db with
  | .ok _ _ => true
  | .error _ _ => false

theorem eq_ok_of_succeeds {m : Prog Unit} {db : StdDbInstance} (h : succeeds m db = true) :
    m db = .ok () (ran m db) := by
  unfold succeeds at h
  unfold ran
  cases hrun : m db with
  | ok _ db' => rfl
  | error _ _ =>
    rw [hrun] at h
    cases h

/-- A transaction has begun. -/
def started (db : StdDbInstance) : StdDbInstance :=
  ran (makeTransaction >>= fun _ => Transaction.begin) db

/-- A table of 32 strings. -/
def wideTable : Statement := .createTable [116] [115]
  ((List.range 32).map fun i => { name := [UInt8.ofNat (97 + i)], type := .string })

/-- A row for it, of more than half a page. -/
def wideRow : List DataToken := List.replicate 32 ⟨List.replicate 512 0, .string⟩

def insertWide : RowCall := ⟨[116], [115], .insert none wideRow⟩

/-- The first session, before its transaction commits. -/
def schemaMade : StdDbInstance := ran createSchema₁.body (started {})

/-- The second session, when the table has been made. -/
def wideSession : StdDbInstance := ran wideTable.body (started secondSession)

/-- The row fits on a page of its own. -/
theorem fitsAlone_insertWide {db : StdDbInstance}
    (h : ∀ mt ∈ db.catalog.tables,
      DataPage.headerSize + rowSize (mt.makeRow none wideRow).1 ≤ DataPage.maxSize) :
    insertWide.FitsAlone db := fun mt hlook => h mt hlook.mem

theorem works_restart : Works (ran Transaction.commit schemaMade) .restart secondSession :=
  .restart (by decide +kernel) (.intro (fun active => .refl active) rfl le_rfl _ _)

/-- A step that is no call makes no row. -/
theorem fitsAlone_and_roomy {w : Work} (h : ∀ c, w ≠ .call c) (db : StdDbInstance) :
    w.FitsAlone db ∧ w.Roomy db := by
  cases w with
  | call c => exact absurd rfl (h c)
  | begin => exact ⟨trivial, trivial⟩
  | define st => exact ⟨trivial, trivial⟩
  | commit => exact ⟨trivial, trivial⟩
  | restart => exact ⟨trivial, trivial⟩

/-- **What is done until the table has been made** is no call. -/
theorem run_makingWide {P : StdDbInstance → Work → Prop}
    (hP : ∀ db w, (∀ c, w ≠ .call c) → P db w) :
    Run (fun db w db' => Works db w db' ∧ P db w) {}
      [.begin, .define createSchema₁, .commit, .restart, .begin, .define wideTable]
      wideSession := by
  have hbegin : Works {} .begin (started {}) :=
    .begin (by decide) (eq_ok_of_succeeds (by decide +kernel))
  have hschema : Works (started {}) (.define createSchema₁) schemaMade :=
    .define (by decide +kernel) rfl (by decide +kernel) (eq_ok_of_succeeds (by decide +kernel))
  have hcommit : Works schemaMade .commit (ran Transaction.commit schemaMade) :=
    .commit (by decide +kernel) (eq_ok_of_succeeds (by decide +kernel))
  have hbegin' : Works secondSession .begin (started secondSession) :=
    .begin (by decide +kernel) (eq_ok_of_succeeds (by decide +kernel))
  have htable : Works (started secondSession) (.define wideTable) wideSession :=
    .define (by decide +kernel) rfl (by decide +kernel) (eq_ok_of_succeeds (by decide +kernel))
  exact .cons ⟨hbegin, hP _ _ fun c => Work.noConfusion⟩
    (.cons ⟨hschema, hP _ _ fun c => Work.noConfusion⟩
      (.cons ⟨hcommit, hP _ _ fun c => Work.noConfusion⟩
        (.cons ⟨works_restart, hP _ _ fun c => Work.noConfusion⟩
          (.cons ⟨hbegin', hP _ _ fun c => Work.noConfusion⟩
            (.single ⟨htable, hP _ _ fun c => Work.noConfusion⟩)))))

theorem works_insertWide {db : StdDbInstance} (hactive : db.txn.state = .active)
    (h : succeeds insertWide.run db = true) :
    Works db (.call insertWide) (ran insertWide.run db) :=
  .call hactive (eq_ok_of_succeeds h)

/-- There is room for the first row, and the second keeps the page within the
bound only if there is room for it as well. -/
theorem pagesFit_of_roomy_insertWide :
    (ran insertWide.run wideSession).rowView.PagesFit
      ∧ ((ran insertWide.run (ran insertWide.run wideSession)).rowView.PagesFit
        ↔ insertWide.Roomy (ran insertWide.run wideSession)) := by
  have hempty : ∀ mt ∈ wideSession.catalog.tables, wideSession.rowView.ids mt.id = [] := by
    decide +kernel
  have hroomy : insertWide.Roomy wideSession := by
    intro mt hlook p hp
    rw [trusted_of_nil (hempty mt hlook.mem)] at hp
    exact nomatch hp
  have hmaking := run_makingWide fun db w hw => fitsAlone_and_roomy hw db
  have hrun := hmaking.append (.single ⟨works_insertWide (by decide +kernel) (by decide +kernel),
    fitsAlone_insertWide (by decide +kernel), hroomy⟩)
  obtain ⟨hfit, hnext⟩ := pagesFit_of_roomy hrun
  exact ⟨hfit, hnext (.call insertWide) _ (works_insertWide (by decide +kernel) (by decide +kernel))
    (fitsAlone_insertWide (by decide +kernel))⟩

/-- **A page outgrows the bound** although every row fits on a page of its own:
two rows of more than half a page are inserted, and both go to the first page. -/
theorem not_pagesFit_insertWide :
    ¬ ∀ (works : List Work) (db : StdDbInstance),
      Run (fun db w db' => Works db w db' ∧ w.FitsAlone db) {} works db →
        db.rowView.PagesFit := by
  intro h
  have hmaking := run_makingWide fun db w hw => (fitsAlone_and_roomy hw db).1
  have hfirst : Works wideSession (.call insertWide) (ran insertWide.run wideSession) :=
    works_insertWide (by decide +kernel) (by decide +kernel)
  have hsecond : Works (ran insertWide.run wideSession) (.call insertWide)
      (ran insertWide.run (ran insertWide.run wideSession)) :=
    works_insertWide (by decide +kernel) (by decide +kernel)
  have hfit := pagesFit_iff.mp (h _ _ (hmaking.append
    (.cons ⟨hfirst, fitsAlone_insertWide (by decide +kernel)⟩
      (.single ⟨hsecond, fitsAlone_insertWide (by decide +kernel)⟩)))) 37
  have hsize : rowsSize ((ran insertWide.run (ran insertWide.run wideSession)).rowView.pageRows 37)
      = 33832 := by decide +kernel
  rw [hsize] at hfit
  exact absurd hfit (by decide)

end StdDbInstance
