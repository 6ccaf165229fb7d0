import Deltabase.Storage.IndexCoverage

/-!
# What an index scan returns

In a session with a new table, `insert_row`, `delete_rows` and `create_index`
leave every index covering the table (`Covered.run`). A scan with a condition
`column op literal` on the indexed column then returns the live rows whose
value compares so, each of them once: an entry leads to one row, since row ids
are distinct, and no row has two entries.
-/

namespace TableCall

open StdDbInstance

/-- A call on a table. -/
def OnTable (tableId : TableId) (db : StdDbInstance) : TableCall → Prop
  | row call => ∀ mt, LooksUp db call.tableName call.schemaName mt → mt.id = tableId
  | createIndex _ tableName _ schemaName _ =>
    ∀ mt, LooksUp db tableName schemaName mt → mt.id = tableId

/-- A call that is not an update. The tokens that are inserted are such as the
constructors of `DataToken` make of literals. -/
def Plain : TableCall → Prop
  | row ⟨_, _, .insert _ values⟩ => ∀ token ∈ values, token.WellFormed
  | row ⟨_, _, .update _ _⟩ => False
  | row ⟨_, _, .delete _⟩ => True
  | createIndex _ _ _ _ _ => True

/-- **A call on a table that succeeds**, an insert, a deletion or a new index,
in a transaction that is active. -/
def SucceedsOn (tableId : TableId) (db : StdDbInstance) (c : TableCall) (db' : StdDbInstance) :
    Prop :=
  c.OnTable tableId db ∧ c.Plain
    ∧ ∃ txn : Transaction, txn.state = .active ∧ c.run { db with txn := txn } = .ok () db'

/-- **The trees of the indexes of a table are leaves**, and the pool has had room: no leaf
has been split, which happens at its 65th entry. -/
structure InPlace (tableId : TableId) (db : StdDbInstance) : Prop where
  room : BufferPool.HasRoom db
  leaves : ((db.rowView.entry tableId).all fun mt => mt.indexes.all fun mi =>
    (db.indexFile mi.id).all fun file => file.pages.length ≤ 1) = true

/-- **A call that succeeds in place.** -/
structure SucceedsInPlace (tableId : TableId) (db : StdDbInstance) (c : TableCall)
    (db' : StdDbInstance) : Prop where
  succeeds : c.SucceedsOn tableId db db'
  inPlace : InPlace tableId db'

end TableCall

/-- **A table that has just been created**, with its entry in the catalog: no
indexes yet, and columns with ids of their own. -/
structure NewTable (db : StdDbInstance) (mt : MetaTable) : Prop extends FreshTable db mt.id where
  entry_eq : db.rowView.entry mt.id = some mt
  columns : (mt.columns.map MetaColumn.id).Nodup
  indexes : mt.indexes = []

namespace StdDbInstance

open BufferPool RowView

variable {db db' : StdDbInstance} {mt : MetaTable} {tableId : TableId}

/-! ## Runs -/

theorem covered_of_newTable (h : NewTable db mt) : Covered mt.id db := by
  refine ⟨h.toFreshTable.tracked, mt, rfl, h.entry_eq, h.columns, fun row hrow => ?_, ?_,
    fun mi hmi => ?_⟩
  · unfold tableRows at hrow
    rw [h.pages] at hrow
    cases hrow
  · rw [h.indexes]
    exact List.nodup_nil
  · rw [h.indexes] at hmi
    cases hmi

/-- **One call** leaves the indexes covering the table. -/
theorem Covered.step (h : Covered tableId db) {c : TableCall}
    (hstep : TableCall.SucceedsOn tableId db c db') : Covered tableId db' := by
  obtain ⟨hon, hplain, txn, hactive, hrun⟩ := hstep
  obtain ⟨htracked, mt, hid, htable⟩ := h.withTxn txn
  have hon' :
    ∀ tableName schemaName, (∀ mt₀, LooksUp db tableName schemaName mt₀ → mt₀.id = tableId) →
      ∀ mt₀, LooksUp { db with txn := txn } tableName schemaName mt₀ → mt₀.id = mt.id :=
    fun _ _ hon mt₀ hlook => (hon mt₀ hlook).trans hid.symm
  cases c with
  | createIndex indexName tableName columnName schemaName isUnique =>
    obtain ⟨mt', hid', hrid, hrows, hok, htable'⟩ :=
      htable.createIndex htracked.1 hactive (hon' _ _ hon) hrun
    refine ⟨⟨hok, mt', ?_, ?_⟩, mt', hid'.trans hid, htable'⟩
    · rw [← hid, ← hid']
      exact htable'.entry
    · obtain ⟨-, mt₀, hentry, hids⟩ := htracked
      obtain rfl : mt = mt₀ := Option.some.inj (htable.entry.symm.trans (hid ▸ hentry))
      rw [hrows, hrid]
      exact hids
  | row call =>
    obtain ⟨tableName, schemaName, op⟩ := call
    cases op with
    | update update rows => exact hplain.elim
    | insert cols values =>
      refine ⟨?_, (mt.makeRow cols values).2, hid,
        htable.insert htracked.1 hactive hplain (hon' _ _ hon) hrun⟩
      obtain ⟨mt₀, -, htracked'⟩ := htracked.insert hactive hrun
      rw [show Phase.next .fresh .appends = .fresh from rfl, ite_self] at htracked'
      exact htracked'
    | delete rows =>
      obtain ⟨mt', hid', htable'⟩ := htable.delete htracked.1 hactive (hon' _ _ hon) hrun
      exact ⟨htracked.delete hactive hrun, mt', hid'.trans hid, htable'⟩

/-- **A run of calls** leaves the indexes covering the table. -/
theorem Covered.run (h : Covered tableId db) {cs : List TableCall}
    (hrun : Run (TableCall.SucceedsOn tableId) db cs db') : Covered tableId db' :=
  hrun.invariant (fun _ _ _ hcovered hstep => hcovered.step hstep) h

/-! ## Entries and rows -/

section Pointed

variable {columnId : ColumnId} {compare : DataToken → DataToken → Bool} {value : DataToken}

/-- The row an entry leads to, if it is one that is selected. -/
def pointed (seen : DataPageId → List DataRow) (mt : MetaTable) (columnId : ColumnId)
    (compare : DataToken → DataToken → Bool) (value : DataToken) (rowPtr : RowPtr) :
    Option DataRow :=
  ((seen rowPtr.1).find? fun row => row.id = rowPtr.2).filter (Selected mt columnId compare value)

/-- The rows of a page have distinct ids when those of the table have. -/
theorem nodup_pageRows {pageId : DataPageId} (hmem : pageId ∈ db.pageIds tableId)
    (hnodup : ((db.tableRows tableId).map DataRow.id).Nodup) :
    ((db.pageRows pageId).map DataRow.id).Nodup := by
  refine hnodup.sublist (List.Sublist.map _ ?_)
  obtain ⟨before, after, hsplit⟩ := List.append_of_mem hmem
  unfold tableRows
  rw [hsplit, List.flatMap_append, List.flatMap_cons]
  exact (List.sublist_append_left _ _).trans (List.sublist_append_right _ _)

/-- **The entry of a row leads to the row.** -/
theorem pointed_of_mem {pageId : DataPageId} (hmem : pageId ∈ db.pageIds tableId)
    (hnodup : ((db.tableRows tableId).map DataRow.id).Nodup) {row : DataRow}
    (hrow : row ∈ db.pageRows pageId) :
    pointed db.pageRows mt columnId compare value (pageId, row.id)
      = (some row).filter (Selected mt columnId compare value) := by
  unfold pointed
  rw [find?_key_of_nodup (nodup_pageRows hmem hnodup) hrow]

/-- What is picked by way of the entries of some rows of a page. -/
theorem filterMap_pointed {pageId : DataPageId} (hmem : pageId ∈ db.pageIds tableId)
    (hnodup : ((db.tableRows tableId).map DataRow.id).Nodup) {rows : List DataRow}
    (hrows : rows ⊆ db.pageRows pageId) :
    (rows.filterMap (entryOf mt columnId pageId)).filterMap
        (fun e => pointed db.pageRows mt columnId compare value e.2)
      = rows.filter (Selected mt columnId compare value) := by
  rw [List.filterMap_filterMap, ← List.filterMap_eq_filter]
  refine List.filterMap_congr fun row hrow => ?_
  have hpointed : pointed db.pageRows mt columnId compare value (pageId, row.id)
      = (some row).filter (Selected mt columnId compare value) :=
    pointed_of_mem hmem hnodup (hrows hrow)
  unfold entryOf
  cases hkey : columnValue mt columnId row.tokens with
  | none =>
    show none = if Selected mt columnId compare value row then some row else none
    unfold Selected
    rw [hkey]
    simp
  | some key =>
    show pointed db.pageRows mt columnId compare value (pageId, row.id) = _
    rw [hpointed]
    simp [Option.filter, Option.guard]

variable (columnId compare value) in
/-- **The selected rows** are what the entries of all versions lead to, and also
what those of the live rows lead to. -/
theorem filterMap_entries (hnodup : ((db.tableRows mt.id).map DataRow.id).Nodup) :
    (db.rowView.versionEntries mt columnId).filterMap
        (fun e => pointed db.pageRows mt columnId compare value e.2)
      = (db.tableRows mt.id).filter (Selected mt columnId compare value)
    ∧ (db.rowView.liveEntries mt columnId).filterMap
        (fun e => pointed db.pageRows mt columnId compare value e.2)
      = (db.tableRows mt.id).filter (Selected mt columnId compare value) := by
  have hlive : ∀ rows, (live rows).filter (Selected mt columnId compare value)
      = rows.filter (Selected mt columnId compare value) := by
    intro rows
    unfold live
    rw [List.filter_filter]
    refine List.filter_congr fun row _ => ?_
    unfold Selected
    cases row.obsolete <;> simp
  unfold tableRows RowView.versionEntries RowView.liveEntries RowView.gather
  rw [List.filter_flatMap, List.filterMap_flatMap, List.filterMap_flatMap]
  constructor
  · exact List.flatMap_congr fun pageId hmem => filterMap_pointed hmem hnodup (fun _ h => h)
  · refine List.flatMap_congr fun pageId hmem => ?_
    rw [← hlive]
    exact filterMap_pointed hmem hnodup fun _ h => List.mem_of_mem_filter h

end Pointed

/-! ## The scan -/

/-- A live row with a value in a column that compares so with that of a literal. -/
def SelectedBy (mt : MetaTable) (columnId : ColumnId) (op : AstOperator) (value : SqlToken)
    (row : DataRow) : Bool :=
  match op.compare, DataToken.ofSqlToken value with
  | some compare, .ok token => Selected mt columnId compare token row
  | _, _ => false

/-- **A column is in one place**, by its name and by its id. -/
theorem exists_getColumnIdx {columnName : Bytes} {column : MetaColumn}
    (hcolumn : mt.getColumn columnName = .ok column)
    (hnodup : (mt.columns.map MetaColumn.id).Nodup) :
    ∃ i, mt.getColumnIdxByName columnName = some i ∧ mt.getColumnIdx column.id = .ok i := by
  unfold MetaTable.getColumn at hcolumn
  cases hfind : mt.columns.find? fun c => c.name == columnName with
  | none =>
    rw [hfind] at hcolumn
    cases hcolumn
  | some c =>
    rw [hfind] at hcolumn
    obtain rfl := Except.ok.inj hcolumn
    obtain ⟨hname, i, hi, hc, hfirst⟩ := List.find?_eq_some_iff_getElem.mp hfind
    have hbyName : mt.getColumnIdxByName columnName = some i :=
      List.findIdx?_eq_some_iff_getElem.mpr
        ⟨hi, by rw [hc]; exact hname, fun j hj => by simpa using hfirst j hj⟩
    have hbyId : mt.columns.findIdx? (fun c' => c'.id == c.id) = some i := by
      refine List.findIdx?_eq_some_iff_getElem.mpr ⟨hi, by rw [hc]; exact beq_self_eq_true c.id,
        fun j hj heq => hj.ne ?_⟩
      have hlen : (mt.columns.map MetaColumn.id).length = mt.columns.length := List.length_map ..
      have hi' : i < (mt.columns.map MetaColumn.id).length := hlen ▸ hi
      have hj' : j < (mt.columns.map MetaColumn.id).length := hj.trans hi'
      have hinj : (mt.columns.map MetaColumn.id)[j] = (mt.columns.map MetaColumn.id)[i] → j = i :=
        hnodup.getElem_inj_iff.mp
      refine hinj ?_
      rw [List.getElem_map, List.getElem_map, hc]
      exact beq_iff_eq.mp heq
    refine ⟨i, hbyName, ?_⟩
    unfold MetaTable.getColumnIdx
    rw [hbyId]

section Scan

variable {columnId : ColumnId} {op : AstOperator} {compare : DataToken → DataToken → Bool}
  {columnToken value : SqlToken} {column : MetaColumn}

/-- What a condition `column op literal` says of a row with a value in the
column. -/
theorem matchesCondition_of_columnValue (hop : op.compare = some compare)
    (hname : columnToken.value = column.name) (hcolumn : mt.getColumn column.name = .ok column)
    (hnodup : (mt.columns.map MetaColumn.id).Nodup) {row : DataRow} {key : DataToken}
    (hkey : columnValue mt column.id row.tokens = some key) :
    matchesCondition mt row (.binaryExpr op (.identifier columnToken) (.literal value)) = (do
      let token ← DataToken.ofSqlToken value
      pure (compare key token)) := by
  obtain ⟨i, hbyName, hbyId⟩ := exists_getColumnIdx hcolumn hnodup
  unfold columnValue at hkey
  rw [hbyId] at hkey
  have htoken : row.tokens[i]? = some key := (Option.filter_eq_some_iff.mp hkey).1
  have hleft : valueOfNode mt row (.identifier columnToken) = .ok key := by
    simp only [valueOfNode, hname, hbyName, htoken]
  simp only [matchesCondition, hleft, hop]
  rfl

/-- **What a row that is found adds to the result.** -/
theorem pickRow_of_find (hop : op.compare = some compare)
    (hname : columnToken.value = column.name) (hcolumn : mt.getColumn column.name = .ok column)
    (hnodup : (mt.columns.map MetaColumn.id).Nodup) {seen : DataPageId → List DataRow}
    {rowPtr : RowPtr} {row : DataRow} {key : DataToken}
    (hfind : (seen rowPtr.1).find? (fun r => r.id = rowPtr.2) = some row)
    (hkey : columnValue mt column.id row.tokens = some key) (rows : List DataRow) :
    pickRow mt (.binaryExpr op (.identifier columnToken) (.literal value)) seen rows rowPtr
      = if row.obsolete then .ok rows else (do
          let token ← DataToken.ofSqlToken value
          pure (if compare key token then rows ++ [row] else rows)) := by
  unfold pickRow
  simp only [hfind]
  rw [matchesCondition_of_columnValue hop hname hcolumn hnodup hkey]
  cases DataToken.ofSqlToken value <;> rfl

/-- The row that an entry leads to has the value of the entry. -/
theorem exists_row_of_entry (hnodup : ((db.tableRows mt.id).map DataRow.id).Nodup) {e : IndexEntry}
    (he : e ∈ db.rowView.versionEntries mt columnId) :
    ∃ row ∈ db.tableRows mt.id, (db.pageRows e.2.1).find? (fun r => r.id = e.2.2) = some row
      ∧ columnValue mt columnId row.tokens = some e.1 := by
  obtain ⟨pageId, hmem, he⟩ := List.mem_flatMap.mp he
  obtain ⟨row, hrow, hentry⟩ := List.mem_filterMap.mp he
  obtain ⟨key, hkey, rfl⟩ := Option.map_eq_some_iff.mp hentry
  exact ⟨row, List.mem_flatMap.mpr ⟨pageId, hmem, hrow⟩,
    find?_key_of_nodup (nodup_pageRows hmem hnodup) hrow, hkey⟩

/-- **What an entry adds to the result**, if the literal has a value. -/
theorem pickRow_of_mem {token : DataToken} (hvalue : DataToken.ofSqlToken value = .ok token)
    (hop : op.compare = some compare) (hname : columnToken.value = column.name)
    (hcolumn : mt.getColumn column.name = .ok column)
    (hcolumns : (mt.columns.map MetaColumn.id).Nodup)
    (hnodup : ((db.tableRows mt.id).map DataRow.id).Nodup) {e : IndexEntry}
    (he : e ∈ db.rowView.versionEntries mt column.id) (rows : List DataRow) :
    pickRow mt (.binaryExpr op (.identifier columnToken) (.literal value)) db.pageRows rows e.2
      = .ok (rows ++ (pointed db.pageRows mt column.id compare token e.2).toList) := by
  obtain ⟨row, -, hfind, hkey⟩ := exists_row_of_entry hnodup he
  rw [pickRow_of_find hop hname hcolumn hcolumns hfind hkey, hvalue]
  unfold pointed
  rw [hfind]
  cases hobsolete : row.obsolete with
  | true => simp [Option.filter, Selected, hobsolete]
  | false =>
    cases hcompare : compare e.1 token <;>
      simp
        [Option.filter, Selected, hobsolete, hkey, hcompare, bind, Except.bind, pure, Except.pure]

/-- The loop over entries, each of which adds what it leads to. -/
theorem foldlM_pickRow {condition : Sql.ExprNode} {seen : DataPageId → List DataRow}
    {f : RowPtr → Option DataRow} {es : List IndexEntry}
    (h : ∀ e ∈ es, ∀ rows, pickRow mt condition seen rows e.2 = .ok (rows ++ (f e.2).toList))
    (rows : List DataRow) :
    (es.map Prod.snd).foldlM (pickRow mt condition seen) rows
      = .ok (rows ++ es.filterMap fun e => f e.2) := by
  induction es generalizing rows with
  | nil =>
    rw [List.filterMap_nil, List.append_nil]
    rfl
  | cons e es ih =>
    rw [List.map_cons, List.foldlM_cons, h e List.mem_cons_self]
    refine (ih (fun e' he' => h e' (List.mem_cons_of_mem e he')) _).trans ?_
    rw [List.append_assoc]
    cases hf : f e.2 with
    | none =>
      rw [List.filterMap_cons_none (f := fun e : IndexEntry => f e.2) hf]
      rfl
    | some row =>
      rw [List.filterMap_cons_some (f := fun e : IndexEntry => f e.2) hf]
      rfl

/-- The loop ends in an error when some entry does. -/
theorem foldlM_pickRow_ne_ok {condition : Sql.ExprNode} {seen : DataPageId → List DataRow}
    {es : List IndexEntry} {e : IndexEntry} (he : e ∈ es)
    (h : ∀ rows rows', pickRow mt condition seen rows e.2 ≠ .ok rows') (rows rows' : List DataRow) :
    (es.map Prod.snd).foldlM (pickRow mt condition seen) rows ≠ .ok rows' := by
  intro hfold
  obtain ⟨before, after, rfl⟩ := List.append_of_mem he
  rw [List.map_append, List.map_cons, List.foldlM_append] at hfold
  obtain ⟨rows₁, -, hfold⟩ := bind_eq_ok.mp hfold
  rw [List.foldlM_cons] at hfold
  obtain ⟨rows₂, hpick, -⟩ := bind_eq_ok.mp hfold
  exact h rows₁ rows₂ hpick

theorem subperm_filterMap {α β : Type*} (f : α → Option β) {l l' : List α} (h : l.Subperm l') :
    (l.filterMap f).Subperm (l'.filterMap f) := by
  obtain ⟨m, hperm, hsub⟩ := h
  exact ⟨m.filterMap f, hperm.filterMap f, hsub.filterMap f⟩

/-- **A scan by an index that covers its table** goes through entries of row versions,
and those of all live rows are among them. -/
theorem exists_entries_of_indexedTable (h : db.IndexedTable mt) {mi : MetaIndex}
    (hmi : mi ∈ mt.indexes) (hmem : column ∈ mt.columns) (hcolumnId : column.id = mi.columnId)
    (op : AstOperator) (columnToken value : SqlToken) :
    mt.getColumn column.name = .ok column ∧ ∃ es : List IndexEntry,
      indexRows mt (.binaryExpr op (.identifier columnToken) (.literal value)) db mi.id
        = (es.map Prod.snd).foldlM (pickRow mt
            (.binaryExpr op (.identifier columnToken) (.literal value)) db.pageRows) []
      ∧ (db.rowView.liveEntries mt column.id).Subperm es
      ∧ es.Subperm (db.rowView.versionEntries mt column.id) := by
  have hfind : (mt.indexes.find? fun index => index.id = mi.id) = some mi :=
    find?_key_of_nodup h.nodup hmi
  obtain ⟨-, ⟨ids, hids, hlisted⟩, ⟨column', hgetColumn, hcolumn'⟩, es, hes, hlive, hversions⟩ :=
    h.index mi hmi
  obtain ⟨file, leaves, Ls, hfile, hrep, hperm⟩ := hes
  obtain rfl : column' = column := by
    unfold MetaTable.getColumn at hgetColumn
    cases hfind' : mt.columns.find? fun c => c.name == column'.name with
    | none =>
      rw [hfind'] at hgetColumn
      cases hgetColumn
    | some c =>
      rw [hfind'] at hgetColumn
      obtain rfl := Except.ok.inj hgetColumn
      exact List.inj_on_of_nodup_map h.columns (List.mem_of_find?_eq_some hfind') hmem
        (hcolumn'.trans hcolumnId.symm)
  have hlistedFile : db.listedFile mt.id mi.id = .ok file := by
    unfold listedFile
    rw [hids]
    simp only [hlisted, not_true_eq_false, if_false, hfile]
  rw [← hcolumnId] at hlive hversions
  refine ⟨hgetColumn, leafEntries leaves, ?_, hlive.trans hperm.symm.subperm,
    hperm.subperm.trans hversions⟩
  unfold indexRows
  rw [hfind]
  show (eqKey mt mi (.binaryExpr op (.identifier columnToken) (.literal value)) >>= _) = _
  rw [show eqKey mt mi (.binaryExpr op (.identifier columnToken) (.literal value)) = .ok none from
    by cases op <;> rfl]
  show (db.listedFile mt.id mi.id >>= _) = _
  rw [hlistedFile]
  exact leafRows_of_represents hrep

/-- **The rows found by way of an index that covers its table** are those that are
selected, unless a live row with a value is met and the literal has none. -/
theorem indexRows_of_indexedTable (h : db.IndexedTable mt)
    (hnodup : ((db.tableRows mt.id).map DataRow.id).Nodup) {mi : MetaIndex} (hmi : mi ∈ mt.indexes)
    (hmem : column ∈ mt.columns) (hcolumnId : column.id = mi.columnId)
    (hname : columnToken.value = column.name) (hop : op.compare = some compare) :
    (∃ rows, indexRows mt (.binaryExpr op (.identifier columnToken) (.literal value)) db mi.id
          = .ok rows
        ∧ rows.Perm ((db.tableRows mt.id).filter (SelectedBy mt mi.columnId op value)))
      ↔ (∃ token, DataToken.ofSqlToken value = .ok token)
        ∨ ∀ row ∈ live (db.tableRows mt.id), columnValue mt mi.columnId row.tokens = none := by
  obtain ⟨hgetColumn, es, hrows, hlive, hversions⟩ :=
    exists_entries_of_indexedTable h hmi hmem hcolumnId op columnToken value
  rw [hrows, ← hcolumnId]
  cases hvalue : DataToken.ofSqlToken value with
  | ok token =>
    have hselectedBy : SelectedBy mt column.id op value = Selected mt column.id compare token := by
      funext row
      unfold SelectedBy
      rw [hop, hvalue]
    have hpicked := foldlM_pickRow (f := pointed db.pageRows mt column.id compare token)
      (fun e he rows => pickRow_of_mem hvalue hop hname hgetColumn h.columns hnodup
        (hversions.subset he) rows) []
    rw [List.nil_append] at hpicked
    refine iff_of_true ⟨_, hpicked, ?_⟩ (Or.inl ⟨token, rfl⟩)
    -- what the entries lead to is between the selected rows and the selected rows
    rw [hselectedBy]
    have hselected := filterMap_entries column.id compare token hnodup
    refine List.Subperm.antisymm ?_ ?_
    · exact hselected.1 ▸ subperm_filterMap _ hversions
    · exact hselected.2 ▸ subperm_filterMap _ hlive
  | error exn =>
    have hpick : ∀ {rowPtr : RowPtr} {row : DataRow} {key : DataToken},
        (db.pageRows rowPtr.1).find? (fun r => r.id = rowPtr.2) = some row →
        columnValue mt column.id row.tokens = some key → ∀ rows,
        pickRow mt (.binaryExpr op (.identifier columnToken) (.literal value)) db.pageRows rows
          rowPtr = if row.obsolete then .ok rows else .error exn := by
      intro rowPtr row key hfind hkey rows
      rw [pickRow_of_find hop hname hgetColumn h.columns hfind hkey, hvalue]
      rfl
    constructor
    · rintro ⟨rows, hfold, -⟩
      refine Or.inr fun row hrow => Option.eq_none_iff_forall_ne_some.mpr fun key hkey => ?_
      obtain ⟨hrow, hnot⟩ := List.mem_filter.mp hrow
      obtain ⟨pageId, hpage, hrow⟩ := List.mem_flatMap.mp hrow
      have hentry : (key, (pageId, row.id)) ∈ db.rowView.liveEntries mt column.id := by
        refine List.mem_flatMap.mpr ⟨pageId, hpage, List.mem_filterMap.mpr ⟨row, ?_, ?_⟩⟩
        · exact List.mem_filter.mpr ⟨hrow, hnot⟩
        · unfold entryOf
          rw [hkey]
          rfl
      refine foldlM_pickRow_ne_ok (hlive.subset hentry) (fun rows rows' hok => ?_) [] rows hfold
      rw [hpick (find?_key_of_nodup (nodup_pageRows hpage hnodup) hrow) hkey] at hok
      rw [if_neg (by simpa using hnot)] at hok
      cases hok
    · rintro (⟨token, htoken⟩ | hnone)
      · cases htoken
      · refine ⟨[], ?_, ?_⟩
        · refine (foldlM_pickRow (f := fun _ => none) (fun e he rows => ?_) []).trans ?_
          · obtain ⟨row, hrow, hfind, hkey⟩ := exists_row_of_entry hnodup (hversions.subset he)
            rw [hpick hfind hkey, if_pos, Option.toList_none, List.append_nil]
            by_contra hobsolete
            have hrow' : row ∈ live (db.tableRows mt.id) :=
              List.mem_filter.mpr ⟨hrow, by simpa using hobsolete⟩
            rw [hnone row hrow'] at hkey
            cases hkey
          · simp
        · have hnil : (db.tableRows mt.id).filter (SelectedBy mt column.id op value) = [] := by
            refine List.filter_eq_nil_iff.mpr fun row _ => ?_
            unfold SelectedBy
            rw [hop, hvalue]
            exact Bool.false_ne_true
          rw [hnil]

/-- **A scan returns the rows that are selected**: the live rows whose value in the
column of the index compares so with that of the literal, each of them once. -/
def ReturnsSelected (db : StdDbInstance) (tableName schemaName : Bytes) (mt : MetaTable)
    (mi : MetaIndex) (op : AstOperator) (columnToken value : SqlToken) : Prop :=
  ∃ rows db', indexScan tableName schemaName mi.id
      (.binaryExpr op (.identifier columnToken) (.literal value)) db = .ok rows db'
    ∧ rows.Perm ((db.tableRows mt.id).filter (SelectedBy mt mi.columnId op value))

/-- **An index scan returns what it selects** in a session in which a table has been
created, after any run of successful inserts, deletions and new indexes on it, for every
index and every comparison of the indexed column with a literal: exactly if the literal has
a value or there is no live row with one. The pool has room, and the tree of each index is
one leaf. -/
theorem returnsSelected_iff {mt₀ : MetaTable} {cs : List TableCall} (hnew : NewTable db mt₀)
    (hrun : Run (TableCall.SucceedsInPlace mt₀.id) db cs db') {tableName schemaName : Bytes}
    (hlook : LooksUp db' tableName schemaName mt) (hid : mt.id = mt₀.id) {mi : MetaIndex}
    (hmi : mi ∈ mt.indexes) (hcolumn : column ∈ mt.columns) (hcolumnId : column.id = mi.columnId)
    (hname : columnToken.value = column.name) (hop : op.compare.isSome = true)
    (value : SqlToken) :
    ReturnsSelected db' tableName schemaName mt mi op columnToken value
      ↔ (∃ token, DataToken.ofSqlToken value = .ok token)
        ∨ ∀ row ∈ live (db'.tableRows mt.id), columnValue mt mi.columnId row.tokens = none := by
  obtain ⟨compare, hcompare⟩ := Option.isSome_iff_exists.mp hop
  obtain ⟨htracked, mt', hid', htable⟩ := (covered_of_newTable hnew).run
    (hrun.mono fun _ _ _ hstep => hstep.succeeds)
  obtain rfl := htable.eq_of_looksUp hlook (hid.trans hid'.symm)
  obtain ⟨_, _, _, hids⟩ := htracked
  rw [← hid'] at hids
  rw [← indexRows_of_indexedTable htable hids.1 hmi hcolumn hcolumnId hname hcompare]
  constructor
  · rintro ⟨rows, db'', hrows, hperm⟩
    exact ⟨rows, (readsAs_indexScan hlook mi.id _).of_ok hrows |>.1, hperm⟩
  · rintro ⟨rows, hrows, hperm⟩
    obtain ⟨db'', hscan, -⟩ := (readsAs_indexScan hlook mi.id _).eq_ok_iff.mp hrows
    exact ⟨rows, db'', hscan, hperm⟩

end Scan

end StdDbInstance

/-! ## A scan past a deleted row -/

namespace TableCall

/-- The state after a call in the transaction at hand. -/
def after (c : TableCall) (db : StdDbInstance) : StdDbInstance :=
  match c.run db with
  | .ok _ db' => db'
  | .error _ db' => db'

/-- Whether a call succeeds in the transaction at hand. -/
def returns (c : TableCall) (db : StdDbInstance) : Bool :=
  match c.run db with
  | .ok _ _ => decide (db.txn.state = .active)
  | .error _ _ => false

theorem succeedsInPlace_of_returns {c : TableCall} {db : StdDbInstance} {tableId : TableId}
    (h : c.returns db = true) (hplain : c.Plain)
    (hall : (db.catalog.tables.all fun mt => mt.id = tableId) = true)
    (hplace : InPlace tableId (c.after db)) : SucceedsInPlace tableId db c (c.after db) := by
  have hon : ∀ tableName schemaName mt, StdDbInstance.LooksUp db tableName schemaName mt →
      mt.id = tableId := by
    rintro tableName schemaName mt ⟨ms, -, htable⟩
    exact of_decide_eq_true (List.all_eq_true.mp hall mt (List.mem_of_find?_eq_some htable))
  refine ⟨⟨?_, hplain, db.txn, ?_⟩, hplace⟩
  · cases c with
    | row call => exact hon _ _
    | createIndex => exact hon _ _
  · unfold returns at h
    unfold after
    show _ ∧ c.run db = _
    cases hrun : c.run db with
    | ok a db' =>
      rw [hrun] at h
      exact ⟨of_decide_eq_true h, rfl⟩
    | error e db' =>
      rw [hrun] at h
      cases h

end TableCall

/-- Deleting the first row. -/
def deleteFirst : RowCall := ⟨[116], [115], .delete [{ id := 0 }]⟩

/-- Creating an index on the column of the table. -/
def createOne : TableCall := .createIndex [105] [116] [97] [115] false

/-- The table with a row from before the index, which is deleted, and one from
after it. -/
def indexedSession : StdDbInstance :=
  (TableCall.row deleteFirst).after ((TableCall.row insertTwo).after
    (createOne.after ((TableCall.row insertOne).after oneTable)))

/-- The table as it is then. -/
def indexedSessionTable : MetaTable where
  id := 2
  schemaId := 1
  name := [116]
  columns := [{ id := 3, tableId := 2, name := [97], type := .integer }]
  indexes := [{ id := 6, tableId := 2, columnId := 3, rootPageId := 0, name := [105],
                keyType := .integer, isUnique := false }]
  lastRid := 2
  totalRows := 2
  liveRows := 1

theorem newTable_oneTable : NewTable oneTable
    { id := 2, schemaId := 1, name := [116],
      columns := [{ id := 3, tableId := 2, name := [97], type := .integer }] } where
  toFreshTable := freshTable_oneTable
  entry_eq := rfl
  columns := by decide
  indexes := rfl

theorem run_indexedSession : Run (TableCall.SucceedsInPlace 2) oneTable
    [.row insertOne, createOne, .row insertTwo, .row deleteFirst] indexedSession := by
  have hwf : ∀ value : UInt8, ∀ token ∈ [(⟨[value, 0, 0, 0], .integer⟩ : DataToken)],
      token.WellFormed := by
    intro value token htoken
    rw [List.mem_singleton.mp htoken]
    rfl
  have hstep : ∀ (c : TableCall) db, c.returns db = true → c.Plain →
      (db.catalog.tables.all fun mt => mt.id = 2) = true → BufferPool.HasRoom (c.after db) →
      (((c.after db).rowView.entry 2).all fun mt => mt.indexes.all fun mi =>
        ((c.after db).indexFile mi.id).all fun file => file.pages.length ≤ 1) = true →
      TableCall.SucceedsInPlace 2 db c (c.after db) :=
    fun c db h hplain hall hroom hleaves =>
      TableCall.succeedsInPlace_of_returns h hplain hall ⟨hroom, hleaves⟩
  refine .cons (hstep (.row insertOne) oneTable ?_ (hwf 1) ?_ ?_ ?_)
    (.cons (hstep createOne _ ?_ trivial ?_ ?_ ?_)
      (.cons (hstep (.row insertTwo) _ ?_ (hwf 2) ?_ ?_ ?_)
        (.single (hstep (.row deleteFirst) _ ?_ trivial ?_ ?_ ?_)))) <;> decide +kernel

theorem looksUp_indexedSession :
    StdDbInstance.LooksUp indexedSession [116] [115] indexedSessionTable :=
  ⟨{ id := 1, name := [115], dbName := [100] }, by decide +kernel, by decide +kernel⟩

/-- `a`, `0` and `3000000000`. -/
def scannedColumn : SqlToken := ⟨[97], 1, 22, .identifier⟩

def zeroLiteral : SqlToken := ⟨[48], 1, 26, .literal .integer⟩

def largeLiteral : SqlToken := ⟨[51, 48, 48, 48, 48, 48, 48, 48, 48, 48], 1, 26, .literal .integer⟩

/-- A scan for positive values passes over the entry of the deleted row. -/
theorem returnsSelected_indexedSession :
    indexedSession.ReturnsSelected [116] [115] indexedSessionTable
        { id := 6, tableId := 2, columnId := 3, rootPageId := 0, name := [105],
          keyType := .integer, isUnique := false } .gr scannedColumn zeroLiteral
      ↔ (∃ token, DataToken.ofSqlToken zeroLiteral = .ok token)
        ∨ ∀ row ∈ live (indexedSession.tableRows 2),
          columnValue indexedSessionTable 3 row.tokens = none :=
  StdDbInstance.returnsSelected_iff newTable_oneTable run_indexedSession looksUp_indexedSession rfl
    (List.mem_singleton_self _) (List.mem_singleton_self _) rfl rfl rfl zeroLiteral

/-- A scan for values above `3000000000`, which is no `int`, throws at the live row. -/
theorem not_returnsSelected_large : ¬ ∀ (db db' : StdDbInstance) (mt₀ mt : MetaTable)
    (cs : List TableCall) (tableName schemaName : Bytes) (mi : MetaIndex) (column : MetaColumn)
    (op : AstOperator) (columnToken value : SqlToken) (literal : SqlLiteral),
    NewTable db mt₀ → Run (TableCall.SucceedsOn mt₀.id) db cs db' →
    StdDbInstance.LooksUp db' tableName schemaName mt → mt.id = mt₀.id → mi ∈ mt.indexes →
    column ∈ mt.columns → column.id = mi.columnId → columnToken.detail = .identifier →
    columnToken.value = column.name → op.compare.isSome = true →
    value.detail = .literal literal →
      db'.ReturnsSelected tableName schemaName mt mi op columnToken value := by
  intro h
  have hrun : Run (TableCall.SucceedsOn 2) oneTable
      [.row insertOne, createOne, .row insertTwo, .row deleteFirst] indexedSession :=
    run_indexedSession.mono fun _ _ _ hstep => hstep.succeeds
  obtain ⟨rows, db', hscan, -⟩ := h oneTable indexedSession _ indexedSessionTable _ [116] [115]
    { id := 6, tableId := 2, columnId := 3, rootPageId := 0, name := [105],
      keyType := .integer, isUnique := false } _ .gr scannedColumn largeLiteral .integer
    newTable_oneTable hrun looksUp_indexedSession rfl (List.mem_singleton_self _)
    (List.mem_singleton_self _) rfl rfl rfl rfl rfl
  have hrows := ((StdDbInstance.readsAs_indexScan looksUp_indexedSession 6 _).of_ok hscan).1
  have hthrows : (StdDbInstance.indexRows indexedSessionTable
      (.binaryExpr .gr (.identifier scannedColumn) (.literal largeLiteral)) indexedSession 6).isOk
        = false := by
    decide +kernel
  rw [hrows] at hthrows
  cases hthrows
