import Deltabase.Storage.IndexEntries
import Deltabase.Storage.IndexScan

/-!
# Index scans find the live rows

An index of a table covers its rows: it has an entry for each live row with a
value in its column, and no entries but those of row versions, each at most
once. Inserting, deleting and creating indexes keep this (`Covered.step`); a
deletion leaves entries behind, and a scan passes over them because it looks up
the rows they point to.
-/

namespace RowView

variable {v v' : RowView} {mt : MetaTable} {columnId : ColumnId}

/-- The entries of the live rows of a table in an index on a column. -/
def liveEntries (v : RowView) (mt : MetaTable) (columnId : ColumnId) : List IndexEntry :=
  v.gather mt.id fun id rows => (live rows).filterMap (entryOf mt columnId id)

/-- The entries of all row versions of a table. -/
def versionEntries (v : RowView) (mt : MetaTable) (columnId : ColumnId) : List IndexEntry :=
  v.gather mt.id fun id rows => rows.filterMap (entryOf mt columnId id)

theorem entryOf_congr {mt' : MetaTable} (h : mt'.columns = mt.columns) :
    entryOf mt' columnId = entryOf mt columnId := by
  funext id row
  unfold entryOf
  rw [columnValue_congr h]

theorem liveEntries_congr {mt' : MetaTable} (hid : mt'.id = mt.id) (h : mt'.columns = mt.columns) :
    v.liveEntries mt' columnId = v.liveEntries mt columnId := by
  unfold liveEntries
  rw [hid, entryOf_congr h]

theorem versionEntries_congr {mt' : MetaTable} (hid : mt'.id = mt.id)
    (h : mt'.columns = mt.columns) :
      v.versionEntries mt' columnId = v.versionEntries mt columnId := by
  unfold versionEntries
  rw [hid, entryOf_congr h]

theorem liveEntries_sublist (v : RowView) (mt : MetaTable) (columnId : ColumnId) :
    (v.liveEntries mt columnId).Sublist (v.versionEntries mt columnId) := by
  unfold liveEntries versionEntries gather
  induction v.ids mt.id with
  | nil => exact .refl _
  | cons id ids ih =>
    rw [List.flatMap_cons, List.flatMap_cons]
    exact (List.filter_sublist.filterMap _).append ih

/-- The entries that `create_index` makes. -/
theorem liveEntries_pages (hok : v.Ok) :
    StdDbInstance.liveEntriesOf mt columnId (v.pages mt.id) = v.liveEntries mt columnId := by
  unfold StdDbInstance.liveEntriesOf liveEntries gather pages
  induction v.ids mt.id with
  | nil => rfl
  | cons id rest ih =>
    rw [List.flatMap_cons, ← ih]
    unfold pageRows
    cases hpage : v.page id with
    | none => rw [List.filterMap_cons_none hpage]; rfl
    | some p =>
      rw [List.filterMap_cons_some hpage, List.flatMap_cons, hok.named id p hpage]
      rfl

/-! ## What the operations do to the entries -/

theorem live_append (rows rows' : List DataRow) : live (rows ++ rows') = live rows ++ live rows' :=
  List.filter_append ..

/-- **A new row** brings its entry. -/
theorem entries_inserted (hok : v.Ok) {pageId : DataPageId} (hmem : pageId ∈ v.ids mt.id)
    {row : DataRow} (hlive : row.obsolete = false) (mtUnchanged mt' : MetaTable)
    (columnId : ColumnId) :
    ((v.inserted pageId row mtUnchanged mt').liveEntries mt columnId).Perm
        ((entryOf mt columnId pageId row).toList ++ v.liveEntries mt columnId)
      ∧ ((v.inserted pageId row mtUnchanged mt').versionEntries mt columnId).Perm
        ((entryOf mt columnId pageId row).toList ++ v.versionEntries mt columnId) := by
  obtain ⟨p, hpage, -⟩ := hok.listed mt.id pageId hmem
  have hold : v.pageRows pageId = p.rows := by
    unfold pageRows
    rw [hpage]
    rfl
  have hrows : (v.inserted pageId row mtUnchanged mt').pageRows
      = Function.update v.pageRows pageId (p.rows ++ [row]) := by
    have hpush := pageRows_assign v pageId fun p => { p with rows := p.rows ++ [row] }
    rw [hpage] at hpush
    refine Eq.trans ?_ hpush
    exact pageRows_assign_of_rows
      (v := ((v.assign pageId fun p => { p with rows := p.rows ++ [row] }).log
        (.insert mt'.id pageId row)).log (.updateTable mtUnchanged mt')) fun _ => rfl
  have hids : (v.inserted pageId row mtUnchanged mt').ids mt.id = v.ids mt.id := rfl
  have hone : ∀ G : DataRow → Option IndexEntry, [row].filterMap G = (G row).toList := by
    intro G
    cases h : G row with
    | none => rw [List.filterMap_cons_none h]; rfl
    | some e => rw [List.filterMap_cons_some h]; rfl
  have hmiddle : ∀ l₁ l l₂ e : List IndexEntry,
      (l₁ ++ (l ++ e) ++ l₂).Perm (e ++ (l₁ ++ l ++ l₂)) := by
    intro l₁ l l₂ e
    rw [← List.append_assoc, List.append_assoc _ e l₂]
    exact (List.perm_append_comm_assoc _ _ _)
  constructor
  · obtain ⟨l₁, l₂, h, h'⟩ := gather_change (hok.nodup mt.id) hmem hids hrows
      fun id rows => (live rows).filterMap (entryOf mt columnId id)
    have hrow : live [row] = [row] := List.filter_cons_of_pos (by simp [hlive])
    rw [live_append, hrow, List.filterMap_append, hone] at h'
    rw [hold] at h
    unfold liveEntries
    rw [h, h']
    exact hmiddle _ _ _ _
  · obtain ⟨l₁, l₂, h, h'⟩ := gather_change (hok.nodup mt.id) hmem hids hrows
      fun id rows => rows.filterMap (entryOf mt columnId id)
    rw [List.filterMap_append, hone] at h'
    rw [hold] at h
    unfold versionEntries
    rw [h, h']
    exact hmiddle _ _ _ _

/-- **Marking a row** keeps its entry among those of the versions. -/
theorem entries_superseded (hok : v.Ok) {pageId : DataPageId} {p : DataPage} {i : ℕ}
    {row : DataRow} (mt' : MetaTable) (hmem : pageId ∈ v.ids mt.id)
    (hpage : v.page pageId = some p) (hrow : p.rows[i]? = some row) (columnId : ColumnId) :
    ((v.superseded pageId i mt').liveEntries mt columnId).Sublist (v.liveEntries mt columnId)
      ∧ (v.superseded pageId i mt').versionEntries mt columnId = v.versionEntries mt columnId := by
  have hold : v.pageRows pageId = p.rows := by
    unfold pageRows
    rw [hpage]
    rfl
  have hrows : (v.superseded pageId i mt').pageRows
      = Function.update v.pageRows pageId (p.rows.modify i DataRow.markObsolete) := by
    have hassign := pageRows_assign (v.save mt') pageId
      fun p => { p with rows := p.rows.modify i DataRow.markObsolete }
    rw [show (v.save mt').page pageId = some p from hpage] at hassign
    exact hassign
  have hids : (v.superseded pageId i mt').ids mt.id = v.ids mt.id := rfl
  obtain ⟨k₁, k₂, hsplit, hmarked⟩ := marked_modify hrow
  rw [hmarked] at hrows
  rw [hsplit] at hold
  constructor
  · obtain ⟨l₁, l₂, h, h'⟩ := gather_change (hok.nodup mt.id) hmem hids hrows
      fun id rows => (live rows).filterMap (entryOf mt columnId id)
    rw [hold] at h
    unfold liveEntries
    rw [h, h']
    refine ((List.Sublist.refl l₁).append (List.Sublist.filterMap _ ?_)).append (.refl l₂)
    have hmark : live (row.markObsolete :: k₂) = live k₂ := List.filter_cons_of_neg (by simp)
    rw [live_append, live_append, hmark]
    exact (List.Sublist.refl _).append ((List.sublist_cons_self row k₂).filter _)
  · obtain ⟨l₁, l₂, h, h'⟩ := gather_change (hok.nodup mt.id) hmem hids hrows
      fun id rows => rows.filterMap (entryOf mt columnId id)
    rw [hold] at h
    unfold versionEntries
    rw [h, h', List.filterMap_append, List.filterMap_append]
    rfl

theorem entries_leave (pageId : DataPageId) (s : LoopState) (mt : MetaTable) (columnId : ColumnId) :
    (leave pageId s).liveEntries mt columnId = s.1.liveEntries mt columnId
      ∧ (leave pageId s).versionEntries mt columnId = s.1.versionEntries mt columnId := by
  have hids : (leave pageId s).ids mt.id = s.1.ids mt.id := by rw [(keeps_leave pageId s).ids]
  exact ⟨gather_congr hids (pageRows_leave pageId s) _,
    gather_congr hids (pageRows_leave pageId s) _⟩

theorem Marked.map_tokens {row : DataRow} {rows rows' : List DataRow} (h : Marked row rows rows') :
    rows'.map DataRow.tokens = rows.map DataRow.tokens := by
  obtain ⟨l₁, l₂, rfl, rfl⟩ := h
  simp

/-- **A deletion** leaves the tokens of the rows and the entries of the versions
as they are. -/
theorem entries_deleted {unchangedMt mt mt' : MetaTable} {rowIds : List ℕ} (hok : v.Ok)
    (hentry : v.entry mt.id = some mt)
    (h : PagesVisited (Deletes unchangedMt) rowIds (v.ids mt.id) v mt v' mt') :
    Within v mt v' mt' ∧ (v'.rows mt.id).map DataRow.tokens = (v.rows mt.id).map DataRow.tokens
      ∧ ∀ columnId, (v'.liveEntries mt columnId).Sublist (v.liveEntries mt columnId)
        ∧ v'.versionEntries mt columnId = v.versionEntries mt columnId := by
  refine h.preserves
    (P := fun w mw => Within v mt w mw
      ∧ (w.rows mt.id).map DataRow.tokens = (v.rows mt.id).map DataRow.tokens
      ∧ ∀ columnId, (w.liveEntries mt columnId).Sublist (v.liveEntries mt columnId)
        ∧ w.versionEntries mt columnId = v.versionEntries mt columnId)
    (fun pageId hmem i row s s' htarget hdelete ⟨hw, htokens, hentries⟩ => ?_)
    (fun pageId s ⟨hw, htokens, hentries⟩ => ?_) ⟨.refl hentry, rfl, fun _ => ⟨.refl _, rfl⟩⟩
  · have hw' := hw.deletes hok hmem hdelete
    obtain ⟨p, hpage, hrow, _⟩ := htarget
    have hok' := hw.keeps.ok hok
    have hmem' := hw.keeps.ids ▸ hmem
    cases hdelete with
    | @intro w loop =>
      refine ⟨hw', ?_, fun columnId => ?_⟩
      · exact
          (Marked.map_tokens (marked_superseded hok' (discounted loop.mt) hmem' hpage hrow)).trans
          htokens
      · obtain ⟨hsub, heq⟩ := entries_superseded hok' (discounted loop.mt) hmem' hpage hrow columnId
        exact ⟨hsub.trans (hentries columnId).1, heq.trans (hentries columnId).2⟩
  · refine ⟨hw.leave pageId, ?_, fun columnId => ?_⟩
    · rw [rows_leave]
      exact htokens
    · obtain ⟨hlive, hversions⟩ := entries_leave pageId s mt columnId
      rw [hlive, hversions]
      exact hentries columnId

end RowView

namespace StdDbInstance

open BufferPool RowView

variable {db db' : StdDbInstance} {mt : MetaTable}

/-! ## Indexes that cover their tables -/

/-- **An index covers its table**: it has an entry for each live row with a value
in its column, and no entries but those of row versions. -/
def Covers (db : StdDbInstance) (mt : MetaTable) (mi : MetaIndex) : Prop :=
  ∃ es, Contains db.indexFile mi.id es ∧ (db.rowView.liveEntries mt mi.columnId).Subperm es
    ∧ es.Subperm (db.rowView.versionEntries mt mi.columnId)

/-- An index that has been made in this session. -/
structure IndexOk (db : StdDbInstance) (mt : MetaTable) (mi : MetaIndex) : Prop where
  older : mi.id < db.clock
  listed : ∃ ids, db.pool.indexFilesPerTable mt.id = some ids ∧ mi.id ∈ ids
  column : ∃ column, mt.getColumn column.name = .ok column ∧ column.id = mi.columnId
  covers : db.Covers mt mi

/-- **A table whose indexes cover it.** -/
structure IndexedTable (db : StdDbInstance) (mt : MetaTable) : Prop where
  entry : db.rowView.entry mt.id = some mt
  columns : (mt.columns.map MetaColumn.id).Nodup
  tokens : ∀ row ∈ db.tableRows mt.id, row.tokens.length = mt.columns.length
    ∧ ∀ token ∈ row.tokens, token.WellFormed
  nodup : (mt.indexes.map MetaIndex.id).Nodup
  index : ∀ mi ∈ mt.indexes, db.IndexOk mt mi

/-- The invariant of a session with a table. -/
def Covered (tableId : TableId) (db : StdDbInstance) : Prop :=
  Tracked tableId .fresh db.rowView ∧ ∃ mt, mt.id = tableId ∧ db.IndexedTable mt

/-- The tokens of a new row are well-formed. -/
theorem wellFormed_reorderedTokens (mt : MetaTable) (cols : Option (List Bytes))
    {values : List DataToken} (hwf : ∀ token ∈ values, token.WellFormed) :
    ∀ token ∈ mt.reorderedTokens cols values, token.WellFormed := by
  have hnull : MetaTable.nullToken.WellFormed := by decide
  cases cols with
  | none =>
    intro token htoken
    unfold MetaTable.reorderedTokens at htoken
    rcases List.mem_append.mp htoken with htoken | htoken
    · exact hwf token (List.mem_of_mem_take htoken)
    · rw [List.eq_of_mem_replicate htoken]
      exact hnull
  | some names =>
    refine MetaTable.reorderedTokens_some_rec
      (P := fun tokens => ∀ token ∈ tokens, token.WellFormed) (fun token htoken => ?_)
      fun tokens htokens pair hpair i _ token htoken => ?_
    · rw [List.eq_of_mem_replicate htoken]
      exact hnull
    · rcases List.mem_or_eq_of_mem_set htoken with htoken | rfl
      · exact htokens token htoken
      · exact hwf pair.2 (List.of_mem_zip hpair).2

/-- An index stays as it is when it has the entries of the rows as they are
now, or more of the versions. -/
theorem IndexOk.of_same {mt' : MetaTable} {mi : MetaIndex} (h : db.IndexOk mt mi)
    (hid : mt'.id = mt.id) (hcolumns : mt'.columns = mt.columns) (hclock : db.clock ≤ db'.clock)
    (hlisted : ∀ ids, db.pool.indexFilesPerTable mt.id = some ids → ∃ ids',
      db'.pool.indexFilesPerTable mt.id = some ids' ∧ ids ⊆ ids')
    (hcovers : db'.Covers mt mi) : db'.IndexOk mt' mi where
  older := h.older.trans_le hclock
  listed := by
    obtain ⟨ids, hids, hmem⟩ := h.listed
    obtain ⟨ids', hids', hsub⟩ := hlisted ids hids
    exact ⟨ids', hid ▸ hids', hsub hmem⟩
  column := by
    unfold MetaTable.getColumn
    rw [hcolumns]
    exact h.column
  covers := by
    unfold Covers
    rw [liveEntries_congr hid hcolumns, versionEntries_congr hid hcolumns]
    exact hcovers

/-- The same tables and rows are seen by any transaction. -/
theorem Covered.withTxn {tableId : TableId} (h : Covered tableId db) (txn : Transaction) :
    Covered tableId { db with txn := txn } := by
  obtain ⟨⟨hok, hids⟩, mt, hid, htable⟩ := h
  exact ⟨⟨⟨hok.named, hok.older, hok.clock_pos, hok.listed, hok.nodup⟩, hids⟩, mt, hid,
    ⟨htable.entry, htable.columns, htable.tokens, htable.nodup, fun mi hmi =>
      ⟨(htable.index mi hmi).older, (htable.index mi hmi).listed, (htable.index mi hmi).column,
        (htable.index mi hmi).covers⟩⟩⟩

section Steps

variable {tableId : TableId} {tableName schemaName : Bytes}

/-- The table of a session is the one that is looked up. -/
theorem IndexedTable.eq_of_looksUp {mt₀ : MetaTable} (h : db.IndexedTable mt)
    (hlook : LooksUp db tableName schemaName mt₀) (hid : mt₀.id = mt.id) : mt₀ = mt := by
  have hentry := hlook.entry
  rw [hid, h.entry] at hentry
  exact (Option.some.inj hentry).symm

/-- **An insert.** -/
theorem IndexedTable.insert (h : db.IndexedTable mt) (hok : db.rowView.Ok)
    (hactive : db.txn.state = .active) {cols : Option (List Bytes)} {values : List DataToken}
    (hwf : ∀ token ∈ values, token.WellFormed)
    (hon : ∀ mt₀, LooksUp db tableName schemaName mt₀ → mt₀.id = mt.id)
    (hrun : insertRow tableName schemaName cols values db = .ok () db') :
    db'.IndexedTable (mt.makeRow cols values).2 := by
  obtain ⟨mt₀, hlook, pageId, v, hins⟩ :=
    (ensures_insertedRow hactive hok tableName schemaName cols values).of_ok hrun
  obtain rfl := h.eq_of_looksUp hlook (hon mt₀ hlook)
  set row := (mt₀.makeRow cols values).1 with hrow
  set mt' := (mt₀.makeRow cols values).2 with hmt'
  have hsame : Recounted mt₀ mt' := ⟨rfl, rfl, rfl, rfl, rfl⟩
  have hsave : (db.rowView.save mt').Ok := (keeps_save _ _).ok hok
  obtain ⟨hok', hadd, -, hentries⟩ := hins.prepared.inserted hok row mt₀
  obtain ⟨hokv, hmem, -, -⟩ := hins.prepared.spec hsave
  have htokens : row.tokens.length = mt'.columns.length
      ∧ ∀ token ∈ row.tokens, token.WellFormed :=
    ⟨mt₀.length_reorderedTokens cols values, wellFormed_reorderedTokens mt₀ cols hwf⟩
  refine ⟨?_, h.columns, fun r hr => ?_, h.nodup, fun mi hmi => ?_⟩
  · rw [hins.rowView, hentries, if_pos rfl]
  · change r ∈ db'.rowView.rows mt'.id at hr
    rw [hins.rowView, hadd.perm.mem_iff] at hr
    rcases List.mem_cons.mp hr with rfl | hr
    · exact htokens
    · exact h.tokens r hr
  · obtain ⟨es, hes, hlive, hversions⟩ := (h.index mi hmi).covers
    obtain ⟨files, hadded, htrees⟩ := hins.entries
    obtain ⟨hlive', hversions'⟩ := entries_inserted hokv hmem
      (show row.obsolete = false from (by decide : hasFlag 0 obsoleteFlag = false)) mt₀ mt'
      mi.columnId
    rw [← hins.rowView] at hlive' hversions'
    have hliveV : v.liveEntries mt' mi.columnId = db.rowView.liveEntries mt' mi.columnId :=
      hins.prepared.gather hsave mt'.id fun _ => rfl
    have hversionsV :
        v.versionEntries mt' mi.columnId = db.rowView.versionEntries mt' mi.columnId :=
      hins.prepared.gather hsave mt'.id fun _ => rfl
    rw [hliveV] at hlive'
    rw [hversionsV] at hversions'
    refine (h.index mi hmi).of_same hsame.id hsame.columns ?_
      (fun ids hids => ⟨ids, ?_, fun _ h => h⟩) ?_
    · have hclock := hins.prepared.clock_le
      have hview := congrArg RowView.clock hins.rowView
      exact hclock.trans hview.ge
    · rw [hins.listing.indexLists, hids]
    · refine ⟨_, (hadded.contains h.nodup htokens.2 hmi hes).of_sameTrees htrees, ?_, ?_⟩
      · exact hlive'.subperm.trans ((List.subperm_append_left _).mpr hlive)
      · exact ((List.subperm_append_left _).mpr hversions).trans hversions'.symm.subperm

/-- **A deletion.** -/
theorem IndexedTable.delete (h : db.IndexedTable mt) (hok : db.rowView.Ok)
    (hactive : db.txn.state = .active) {rows : List DataRow}
    (hon : ∀ mt₀, LooksUp db tableName schemaName mt₀ → mt₀.id = mt.id)
    (hrun : deleteRows tableName schemaName rows db = .ok () db') :
    ∃ mt', mt'.id = mt.id ∧ db'.IndexedTable mt' := by
  obtain ⟨mt₀, mt', hlook, hpages⟩ :=
    (ensures_deleteRows hactive hok tableName schemaName rows).of_ok hrun
  have hindexes := (leavesIndexes_deleteRows tableName schemaName rows db).of_ok hrun
  obtain rfl := h.eq_of_looksUp hlook (hon mt₀ hlook)
  obtain ⟨hw, htokens, hentries⟩ := entries_deleted hok h.entry hpages
  refine ⟨mt', hw.same.id, ?_, ?_, fun row hrow => ?_, ?_, fun mi hmi => ?_⟩
  · rw [hw.entries, if_pos hw.same.id.symm]
  · rw [hw.same.columns]
    exact h.columns
  · change row ∈ db'.rowView.rows mt'.id at hrow
    rw [hw.same.id] at hrow
    have hmem : row.tokens ∈ (db.rowView.rows mt₀.id).map DataRow.tokens :=
      htokens ▸ List.mem_map_of_mem hrow
    obtain ⟨old, hold, heq⟩ := List.mem_map.mp hmem
    rw [← heq, hw.same.columns]
    exact h.tokens old hold
  · rw [hw.same.indexes]
    exact h.nodup
  · rw [hw.same.indexes] at hmi
    obtain ⟨es, hes, hlive, hversions⟩ := (h.index mi hmi).covers
    refine (h.index mi hmi).of_same hw.same.id hw.same.columns hw.keeps.clock.ge
      (fun ids hids => ⟨ids, ?_, fun _ h => h⟩) ⟨es, ?_, ?_, ?_⟩
    · rw [hindexes.indexLists, hids]
    · rw [hindexes.indexFile]
      exact hes
    · exact (hentries mi.columnId).1.subperm.trans hlive
    · rw [(hentries mi.columnId).2]
      exact hversions

/-- The first column with a name is found by that name. -/
theorem getColumn_of_getColumn {columnName : Bytes} {column : MetaColumn}
    (h : mt.getColumn columnName = .ok column) : mt.getColumn column.name = .ok column := by
  unfold MetaTable.getColumn at h ⊢
  cases hfind : mt.columns.find? fun c => c.name == columnName with
  | none =>
    rw [hfind] at h
    cases h
  | some c =>
    rw [hfind] at h
    obtain rfl := Except.ok.inj h
    have hname : c.name = columnName := by simpa using List.find?_some hfind
    rw [hname, hfind]

/-- **A new index.** -/
theorem IndexedTable.createIndex (h : db.IndexedTable mt) (hok : db.rowView.Ok)
    (hactive : db.txn.state = .active) {indexName columnName : Bytes} {isUnique : Bool}
    (hon : ∀ mt₀, LooksUp db tableName schemaName mt₀ → mt₀.id = mt.id)
    (hrun : createIndex indexName tableName columnName schemaName isUnique db = .ok () db') :
    ∃ mt', mt'.id = mt.id ∧ mt'.lastRid = mt.lastRid ∧ db'.rowView.rows = db.rowView.rows
      ∧ db'.rowView.Ok ∧ db'.IndexedTable mt' := by
  have hwf : ∀ mt₀, LooksUp db tableName schemaName mt₀ → ∀ row ∈ db.tableRows mt₀.id,
      ∀ token ∈ row.tokens, token.WellFormed := by
    intro mt₀ hlook row hrow
    rw [hon mt₀ hlook] at hrow
    exact (h.tokens row hrow).2
  obtain ⟨mt₀, column, colIdx, hlook, hcolumn, -, hview, -⟩ :=
    (ensures_createIndex hactive hok indexName tableName columnName schemaName isUnique).of_ok hrun
  obtain ⟨mt₁, column₁, hlook₁, hcolumn₁, hmade⟩ :=
    (ensures_createIndex_entries hactive hok indexName tableName columnName schemaName isUnique
      hwf).of_ok hrun
  obtain rfl := h.eq_of_looksUp hlook (hon mt₀ hlook)
  obtain rfl := h.eq_of_looksUp hlook₁ (hon mt₁ hlook₁)
  obtain rfl := Except.ok.inj (hcolumn.symm.trans hcolumn₁)
  set mi := newIndex db mt₁ column indexName isUnique with hmi
  set mt' : MetaTable := { mt₁ with indexes := mt₁.indexes ++ [mi] } with hmt'
  have hrows : db'.rowView.rows = db.rowView.rows := by rw [hview]; rfl
  have hclock : db'.clock = db.generator.next db.clock := congrArg RowView.clock hview
  have hok' : db'.rowView.Ok := by
    rw [hview]
    exact ((keeps_log _ _).trans (keeps_save _ _)).ok ⟨hok.named,
      fun id p hp => (hok.older id p hp).trans (UUIDGenerator.lt_next _ _),
      hok.clock_pos.trans (UUIDGenerator.lt_next _ _), hok.listed, hok.nodup⟩
  have hgather : db'.rowView.liveEntries mt₁ = db.rowView.liveEntries mt₁
      ∧ db'.rowView.versionEntries mt₁ = db.rowView.versionEntries mt₁ := by
    rw [hview]
    exact ⟨rfl, rfl⟩
  have hlists : ∃ ids', db'.pool.indexFilesPerTable mt₁.id = some ids' ∧ mi.id ∈ ids'
      ∧ ∀ ids, db.pool.indexFilesPerTable mt₁.id = some ids → ids ⊆ ids' := by
    rw [hmade.lists]
    refine ⟨_, Function.update_self _ _ _, List.mem_append_right _ (List.mem_singleton_self _),
      fun ids hids => ?_⟩
    rw [hids]
    exact List.subset_append_left _ _
  obtain ⟨ids', hids', hmem', hsub⟩ := hlists
  refine ⟨mt', rfl, rfl, hrows, hok', ?_, h.columns, fun row hrow => ?_, ?_, fun mi' hmi' => ?_⟩
  · rw [hview, entry_save, if_pos rfl]
  · change row ∈ db'.rowView.rows mt₁.id at hrow
    rw [hrows] at hrow
    exact h.tokens row hrow
  · rw [List.map_append]
    refine List.nodup_append.mpr ⟨h.nodup, List.nodup_singleton _, fun a ha b hb hab => ?_⟩
    obtain ⟨mi', hmi', rfl⟩ := List.mem_map.mp ha
    have hlt := (h.index mi' hmi').older
    rw [hab, List.mem_singleton.mp hb] at hlt
    exact lt_irrefl _ hlt
  · rcases List.mem_append.mp hmi' with hmi' | hmi'
    · -- an index that was there
      obtain ⟨es, hes, hlive, hversions⟩ := (h.index mi' hmi').covers
      refine (h.index mi' hmi').of_same rfl rfl (hclock ▸ UUIDGenerator.le_next _ _)
        (fun ids hids => ⟨ids', hids', hsub ids hids⟩) ⟨es, ?_, ?_, ?_⟩
      · exact hes.congr (hmade.others mi'.id ((h.index mi' hmi').older.ne))
      · rw [hgather.1]
        exact hlive
      · rw [hgather.2]
        exact hversions
    · -- the new one
      rw [List.mem_singleton.mp hmi']
      refine ⟨hclock ▸ UUIDGenerator.lt_next _ _, ⟨ids', hids', hmem'⟩,
        ⟨column, getColumn_of_getColumn hcolumn, rfl⟩, _, hmade.contains, ?_, ?_⟩
      · rw [liveEntries_pages hok]
        show (db'.rowView.liveEntries mt₁ mi.columnId).Subperm _
        rw [hgather.1]
      · rw [liveEntries_pages hok]
        show List.Subperm _ (db'.rowView.versionEntries mt₁ mi.columnId)
        rw [hgather.2]
        exact (liveEntries_sublist _ _ _).subperm

end Steps

/-! ## What a scan finds -/

/-- A live row with a value in a column that compares so with a literal. -/
def Selected (mt : MetaTable) (columnId : ColumnId) (compare : DataToken → DataToken → Bool)
    (value : DataToken) (row : DataRow) : Bool :=
  !row.obsolete && (columnValue mt columnId row.tokens).any fun key => compare key value

/-- A scan along the leaves looks at the entries in their order. -/
theorem leafRowsLoop_of_leavesLoop {condition : Sql.ExprNode} {seen : DataPageId → List DataRow}
    {file : IndexFile} {rounds cur : ℕ} {nodes : List (ℕ × LeafIndexNode)}
    (h : IndexBPlusTree.leavesLoop file rounds cur = .ok nodes) (rows : List DataRow) :
    leafRowsLoop mt condition seen file rounds cur rows
      = (nodes.flatMap fun node => node.2.rows).foldlM (pickRow mt condition seen) rows := by
  induction rounds generalizing cur nodes rows with
  | zero => cases h
  | succ rounds ih =>
    unfold IndexBPlusTree.leavesLoop at h
    unfold leafRowsLoop
    obtain ⟨page, hpage, h⟩ := bind_eq_ok.mp h
    obtain ⟨leaf, hleaf, h⟩ := bind_eq_ok.mp h
    rw [hpage]
    show (page.data.getLeaf >>= _) = _
    rw [hleaf]
    show (leaf.rows.foldlM (pickRow mt condition seen) rows >>= _) = _
    split_ifs at h with hlast
    · cases h
      rw [List.flatMap_singleton]
      cases leaf.rows.foldlM (pickRow mt condition seen) rows with
      | error e => rfl
      | ok rows =>
        show (if leaf.nextLeaf = 0 then _ else _) = _
        rw [if_pos hlast]
        rfl
    · obtain ⟨next, hnext, h⟩ := bind_eq_ok.mp h
      obtain ⟨rest, hrest, h⟩ := bind_eq_ok.mp h
      cases h
      rw [List.flatMap_cons, List.foldlM_append]
      cases leaf.rows.foldlM (pickRow mt condition seen) rows with
      | error e => rfl
      | ok rows =>
        show (if leaf.nextLeaf = 0 then _ else _) = _
        rw [if_neg hlast, hnext]
        exact ih hrest rows

/-- The rows that the leaves point to. -/
theorem rows_leafNodes (leaves : List LeafBlock) :
    (leafNodes leaves).flatMap (fun node => node.2.rows) = (leafEntries leaves).map Prod.snd := by
  induction leaves with
  | nil => rfl
  | cons l ls ih =>
    rw [leafNodes, List.flatMap_cons, ih, leafEntries, leafEntries, List.flatMap_cons,
      List.map_append]
    rfl

/-- **A scan of a tree** goes through its entries. -/
theorem leafRows_of_represents {condition : Sql.ExprNode} {seen : DataPageId → List DataRow}
    {tree : IndexBPlusTree} {file : IndexFile} {leaves : List LeafBlock}
    {Ls : List (List IndexBlock)} (h : Represents tree file leaves Ls) :
    leafRows mt condition seen file
      = ((leafEntries leaves).map Prod.snd).foldlM (pickRow mt condition seen) [] := by
  have hscan := h.scanLeaves_spec
  have hptrs := rows_leafNodes leaves
  unfold IndexBPlusTree.scanLeaves at hscan
  unfold leafRows
  cases hroot : BPIndexPager.getPage file file.rootPage with
  | none =>
    rw [hroot] at hscan
    rw [← hptrs, ← Except.ok.inj hscan]
    rfl
  | some cur =>
    rw [hroot] at hscan
    obtain ⟨found, hfound, hscan⟩ := bind_eq_ok.mp hscan
    show (IndexBPlusTree.leftmostLeafLoop file (file.pages.length + 1) cur >>= _) = _
    rw [hfound]
    cases found with
    | none =>
      rw [← hptrs, ← Except.ok.inj hscan]
      rfl
    | some first =>
      rw [← hptrs]
      exact leafRowsLoop_of_leavesLoop hscan []

end StdDbInstance
