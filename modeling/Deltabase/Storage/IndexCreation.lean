import Deltabase.Storage.UniqueKeys

/-!
# Creating an index

`create_index` makes the file, checks the rows that are there when the index is
to be unique, fills the file and then enters the index in the table. The rows
are only read. When it throws, the table has no new index.

With it the calls that unique indexes depend on are complete, and the module
ends in what a run of them keeps.
-/

namespace StdDbInstance

open BufferPool Transaction FileIOManager RowView

variable {db db' : StdDbInstance}

/-- The bytes that the uniqueness check of `create_index` compares. -/
def liveBytes (colIdx : ℕ) (row : DataRow) : Option Bytes :=
  match liveKey colIdx row with
  | .ok (some key) => some key.bytes
  | _ => none

/-- The uniqueness check on the rows of a page. -/
theorem ensures_checkDuplicates (message : Bytes) (colIdx : ℕ) (rows : List DataRow)
    (seen : List Bytes) (db : StdDbInstance) :
    Ensures (rows.foldlM (checkDuplicate message colIdx) seen) db
      (fun seen' db' => db' = db ∧ seen' = (rows.filterMap (liveBytes colIdx)).reverse ++ seen
        ∧ (seen.Nodup → seen'.Nodup))
      fun _ db' => db' = db := by
  induction rows generalizing seen with
  | nil => exact ⟨rfl, rfl, fun h => h⟩
  | cons row rows ih =>
    rw [List.foldlM_cons, ensures_bind]
    unfold checkDuplicate
    rw [ensures_bind, ensures_liftExcept]
    refine ⟨fun found hfound => ?_, fun _ _ => rfl⟩
    cases found with
    | none =>
      have hnone : liveBytes colIdx row = none := by
        unfold liveBytes
        rw [hfound]
      rw [ensures_pure, List.filterMap_cons_none hnone]
      exact ih seen
    | some key =>
      have hsome : liveBytes colIdx row = some key.bytes := by
        unfold liveBytes
        rw [hfound]
      show Ensures (if key.bytes ∈ seen then _ else _) db _ _
      split_ifs with hmem
      · rfl
      · rw [ensures_pure, List.filterMap_cons_some hsome, List.reverse_cons, List.append_assoc]
        refine (ih (key.bytes :: seen)).mono_ok fun seen' db₁ ⟨hdb, hseen, hnodup⟩ => ?_
        exact ⟨hdb, hseen, fun h => hnodup (List.nodup_cons.mpr ⟨hmem, h⟩)⟩

/-- The uniqueness check on the pages of a table. -/
theorem ensures_checkPages (message : Bytes) (colIdx : ℕ) (pages : List DataPage)
    (seen : List Bytes) (db : StdDbInstance) :
    Ensures ((pages.map some).foldlM
        (fun seen pointer => do
          let page ← derefPage pointer
          page.rows.foldlM (checkDuplicate message colIdx) seen) seen) db
      (fun seen' db' => db' = db
        ∧ seen' = ((pages.flatMap DataPage.rows).filterMap (liveBytes colIdx)).reverse ++ seen
        ∧ (seen.Nodup → seen'.Nodup))
      fun _ db' => db' = db := by
  induction pages generalizing seen with
  | nil => exact ⟨rfl, rfl, fun h => h⟩
  | cons p pages ih =>
    rw [List.map_cons, List.foldlM_cons, ensures_bind]
    refine (ensures_checkDuplicates message colIdx p.rows seen db).mono_ok
      fun seen₁ db₁ ⟨hdb, hseen, hnodup⟩ => ?_
    subst hdb
    refine (ih seen₁).mono_ok fun seen' db₂ ⟨hdb, hseen', hnodup'⟩ => ?_
    refine ⟨hdb, ?_, fun h => hnodup' (hnodup h)⟩
    rw [hseen', hseen, List.flatMap_cons, List.filterMap_append, List.reverse_append,
      List.append_assoc]

/-- Filling the index leaves the rows alone. -/
theorem ensures_indexRows (tableId : TableId) (indexId : IndexId) (colIdx : ℕ)
    (pages : List (Option DataPage)) (db : StdDbInstance) :
    Ensures (pages.forM fun pointer => do
        let page ← derefPage pointer
        page.rows.forM (indexExistingRow tableId indexId colIdx page.id)) db
      (fun _ db' => SameRows db db') fun _ db' => SameRows db db' := by
  refine Ensures.forM_of_preserves (fun db' => SameRows db db') (fun pointer _ db₁ hsame => ?_)
    (.refl db)
  rw [ensures_bind]
  cases pointer with
  | none => exact hsame
  | some page =>
    show Ensures (page.rows.forM _) db₁ _ _
    refine Ensures.forM_of_preserves (fun db' => SameRows db db') (fun row _ db₂ hsame₂ => ?_) hsame
    unfold indexExistingRow
    rw [ensures_bind, ensures_liftExcept]
    refine ⟨fun found _ => ?_, fun _ _ => hsame₂⟩
    cases found with
    | none => exact hsame₂
    | some key =>
      exact (ensures_treeInsert tableId indexId key (page.id, row.id) db₂).mono
        (fun _ db₃ h => hsame₂.trans h.1) fun _ db₃ h => hsame₂.trans h.toSameRows

/-- Making the file of an index leaves the rows alone. -/
theorem ensures_createTableIndex (schemaName : Bytes) (table : MetaTable) (index : MetaIndex)
    (lsn : ℕ) (db : StdDbInstance) :
    Ensures (createTableIndex schemaName table index lsn) db (fun _ db' => SameRows db db')
      fun _ _ => False := by
  unfold createTableIndex dirtyIf
  simp only [ensures_bind, ensures_modify]
  exact ⟨rfl, rfl, rfl, rfl, rfl, rfl, rfl, rfl, rfl, rfl, rfl, fun _ h => h⟩

/-- The part of `create_index` after the uniqueness check. -/
theorem ensures_fillIndex (table table' : MetaTable) (indexId : IndexId) (colIdx lsn : ℕ)
    (pages : List (Option DataPage)) (db : StdDbInstance) :
    Ensures (do
        pages.forM fun pointer => do
          let page ← derefPage pointer
          page.rows.forM (indexExistingRow table.id indexId colIdx page.id)
        setIfLsn indexId lsn
        saveTable table') db
      (fun _ db' => db'.rowView = db.rowView.save table') fun _ db' => SameRows db db' := by
  rw [ensures_bind]
  refine (ensures_indexRows table.id indexId colIdx pages db).mono_ok fun _ db₁ hsame => ?_
  unfold setIfLsn saveTable
  rw [ensures_bind, ensures_modify, ensures_modify]
  rw [← (hsame.trans (sameRows_changeIf indexId _ db₁)).rowView]
  rfl

/-- The rows of a table are those of its pages. -/
theorem rows_eq_pages (v : RowView) (tableId : TableId) :
    v.rows tableId = (v.pages tableId).flatMap DataPage.rows := by
  unfold RowView.rows RowView.pages
  induction v.ids tableId with
  | nil => rfl
  | cons id rest ih =>
    rw [List.flatMap_cons, ih]
    unfold RowView.pageRows
    cases hpage : v.page id with
    | none => rw [List.filterMap_cons_none hpage]; rfl
    | some p => rw [List.filterMap_cons_some hpage]; rfl

/-- The index that `create_index` makes. -/
def newIndex (db : StdDbInstance) (table : MetaTable) (column : MetaColumn) (indexName : Bytes)
    (isUnique : Bool) : MetaIndex :=
  { id := db.clock, tableId := table.id, columnId := column.id, name := indexName,
    keyType := column.type, isUnique := isUnique }

/-- **What `create_index` does.** When it returns, the table has the new index,
and if that is unique, the live rows differ in the bytes of the column. When it
throws, at most an id has been made and a record been written. -/
theorem ensures_createIndex (hactive : db.txn.state = .active) (hok : db.rowView.Ok)
    (indexName tableName columnName schemaName : Bytes) (isUnique : Bool) :
    Ensures (createIndex indexName tableName columnName schemaName isUnique) db
      (fun _ db' => ∃ table column colIdx, LooksUp db tableName schemaName table
        ∧ table.getColumn columnName = .ok column ∧ table.getColumnIdx column.id = .ok colIdx
        ∧ db'.rowView = ({ db.rowView with clock := db.generator.next db.clock }.log
            (.createIndex (newIndex db table column indexName isUnique))).save
            { table with
              indexes := table.indexes ++ [newIndex db table column indexName isUnique] }
        ∧ (isUnique = true →
          ((db.rowView.rows table.id).filterMap (liveBytes colIdx)).Nodup))
      fun _ db' => db'.rowView = db.rowView
        ∨ ∃ mi, db'.rowView
            = { db.rowView with clock := db.generator.next db.clock }.log (.createIndex mi) := by
  unfold createIndex
  rw [ensures_bind]
  refine (ensures_getTable tableName schemaName db).mono (fun table db₀ hfound => ?_)
    fun _ db' h => .inl (by rw [h.2])
  obtain ⟨hdb, hlook⟩ := hfound
  subst hdb
  rw [ensures_bind, ensures_liftExcept]
  refine ⟨fun column hcolumn => ?_, fun _ _ => .inl rfl⟩
  rw [ensures_bind]
  show Ensures (appendLog (.createIndex (newIndex db₀ table column indexName isUnique)) >>= _)
    { db₀ with clock := db₀.generator.next db₀.clock } _ _
  set mi := newIndex db₀ table column indexName isUnique with hmi
  rw [ensures_bind, ensures_appendLog (by exact hactive)]
  unfold getLastLsn
  simp only [ensures_bind, ensures_get, ensures_pure]
  set db₁ := appendRecord (.createIndex mi)
    { db₀ with clock := db₀.generator.next db₀.clock } with hdb₁
  have hview₁ : db₁.rowView
      = { db₀.rowView with clock := db₀.generator.next db₀.clock }.log (.createIndex mi) := rfl
  have hfail : ∀ db', SameRows db₁ db' → db'.rowView = db₀.rowView
      ∨ ∃ mi, db'.rowView
          = { db₀.rowView with clock := db₀.generator.next db₀.clock }.log (.createIndex mi) :=
    fun db' h => .inr ⟨mi, by rw [h.rowView, hview₁]⟩
  refine (ensures_createTableIndex schemaName table mi db₁.txn.lastLsn db₁).mono
    (fun _ db₂ hsame₂ => ?_) fun _ _ h => h.elim
  rw [ensures_liftExcept]
  refine ⟨fun colIdx hcolIdx => ?_, fun _ _ => hfail db₂ hsame₂⟩
  refine (ensures_getTableData table.id db₂).mono (fun found db₃ hdata => ?_) fun _ _ h => h.elim
  obtain ⟨hfound, hsame₃, -⟩ := hdata
  have hsame := hsame₂.trans hsame₃.toSameRows
  have hpages : found = (db₀.rowView.pages table.id).map some := by
    rw [hfound, hsame₂.pageIds, hsame₂.page]
    exact (pages_of_ok hok table.id).1
  split_ifs with hunique
  · simp only [ensures_bind]
    rw [hpages]
    refine (ensures_checkPages _ colIdx _ [] db₃).mono (fun seen db₄ hchecked => ?_)
      fun _ db' h => hfail db' (h ▸ hsame)
    obtain ⟨hdb, hseen, hnodup⟩ := hchecked
    subst hdb
    have hnodup' := hnodup List.nodup_nil
    rw [hseen, List.append_nil, List.nodup_reverse, ← rows_eq_pages] at hnodup'
    simp only [← ensures_bind]
    exact (ensures_fillIndex table _ mi.id colIdx _ _ db₄).mono
      (fun _ db' h => ⟨table, column, colIdx, hlook, hcolumn, hcolIdx,
        by rw [h, hsame.rowView, hview₁]; rfl, fun _ => hnodup'⟩)
      fun _ db' h => hfail db' (hsame.trans h)
  · exact (ensures_fillIndex table _ mi.id colIdx _ found db₃).mono
      (fun _ db' h => ⟨table, column, colIdx, hlook, hcolumn, hcolIdx,
        by rw [h, hsame.rowView, hview₁]; rfl, fun h => absurd h hunique⟩)
      fun _ db' h => hfail db' (hsame.trans h)

end StdDbInstance

/-! ## Calls that unique indexes depend on -/

/-- A call of one of the operations on the rows of a table, or of
`create_index`. -/
inductive TableCall where
  | row (call : RowCall)
  | createIndex (indexName tableName columnName schemaName : Bytes) (isUnique : Bool)

namespace TableCall

open StdDbInstance RowView

/-- What is executed. -/
def run : TableCall → Prog Unit
  | row call => call.run
  | .createIndex indexName tableName columnName schemaName isUnique =>
    StdDbInstance.createIndex indexName tableName columnName schemaName isUnique

/-- **A call whose uniqueness checks are right**, in terms of the state before
it.

* For an insert: if a live row holds the new value, the entry that the index
  finds for the value is one of a live row.
* For an update: each row it comes to is apart from the rows as they are then.
* For a new unique index: live rows with equal values have equal bytes. -/
def Careful (db : StdDbInstance) : TableCall → Prop
  | row ⟨tableName, schemaName, op⟩ => ∀ mt, LooksUp db tableName schemaName mt →
      match op with
      | .insert cols values => ∀ mi ∈ mt.indexes, mi.isUnique = true →
          ∀ key ∈ columnValue mt mi.columnId (mt.reorderedTokens cols values),
          ∀ tokens ∈ liveTokens (db.tableRows mt.id), ∀ key' ∈ columnValue mt mi.columnId tokens,
            key.eq key' = true → ¬ KeyFree db mi key
      | .update update rows => ∀ mi ∈ mt.indexes, mi.isUnique = true →
          UpdateFree mt update (rows.map DataRow.id) mi.columnId (db.tableRows mt.id)
      | .delete _ => True
  | .createIndex _ tableName columnName schemaName isUnique => isUnique = true →
      ∀ mt column, LooksUp db tableName schemaName mt → mt.getColumn columnName = .ok column →
        ∀ a ∈ liveTokens (db.tableRows mt.id), ∀ b ∈ liveTokens (db.tableRows mt.id),
        ∀ k ∈ columnValue mt column.id a, ∀ k' ∈ columnValue mt column.id b,
          k.eq k' = true → k.bytes = k'.bytes

/-- **A careful call**, in a transaction that is active; it may succeed or
throw. -/
def Completes (db : StdDbInstance) (c : TableCall) (db' : StdDbInstance) : Prop :=
  c.Careful db ∧ ∃ txn : Transaction, txn.state = .active
    ∧ (c.run { db with txn := txn } = .ok () db'
      ∨ ∃ e, c.run { db with txn := txn } = .error e db')

/-- A call in a transaction that is active, which succeeds or is refused by a
unique index. -/
def Attempts (db : StdDbInstance) (c : TableCall) (db' : StdDbInstance) : Prop :=
  ∃ txn : Transaction, txn.state = .active
    ∧ (c.run { db with txn := txn } = .ok () db'
      ∨ ∃ constraint, c.run { db with txn := txn }
          = .error (.uniqueConstraintViolation constraint) db')

end TableCall

section Calls

open StdDbInstance RowView

variable {db db' : StdDbInstance} {tableName schemaName : Bytes}

/-- Whoever is asked, it is the same transaction that is asked about. -/
theorem RowView.Sound.withTxn (h : db.rowView.Sound) (txn : Transaction) :
    ({ db with txn := txn } : StdDbInstance).rowView.Sound :=
  ⟨⟨h.ok.named, h.ok.older, h.ok.clock_pos, h.ok.listed, h.ok.nodup⟩, h.indexes, h.unique⟩

/-- An id that is made keeps a state sound. -/
theorem RowView.Sound.tick {v : RowView} (h : v.Sound) :
    ({ v with clock := v.generator.next v.clock } : RowView).Sound where
  ok := ⟨h.ok.named, fun id p hp => (h.ok.older id p hp).trans (UUIDGenerator.lt_next _ _),
    h.ok.clock_pos.trans (UUIDGenerator.lt_next _ _), h.ok.listed, h.ok.nodup⟩
  indexes t mt hmt :=
    ⟨(h.indexes t mt hmt).1, fun mi hmi =>
      ((h.indexes t mt hmt).2 mi hmi).trans (UUIDGenerator.lt_next _ _)⟩
  unique := h.unique

theorem RowView.Sound.log {v : RowView} (h : v.Sound) (body : WalBody) : (v.log body).Sound :=
  ⟨(keeps_log v body).ok h.ok, h.indexes, h.unique⟩

/-- **A careful insert** keeps a state sound. -/
theorem sound_insertRow {cols : Option (List Bytes)} {row : List DataToken}
    (h : db.rowView.Sound) (hactive : db.txn.state = .active)
    (hcareful : (TableCall.row ⟨tableName, schemaName, .insert cols row⟩).Careful db) :
    Ensures (insertRow tableName schemaName cols row) db (fun _ db' => db'.rowView.Sound)
      fun _ db' => db'.rowView.Sound := by
  refine (ensures_insertRow hactive h.ok tableName schemaName cols row).mono (fun _ db' hend => ?_)
    fun _ db' hend => ?_
  · obtain ⟨mt, hlook, ⟨id, v, hprep, hview⟩, hpassed⟩ := hend
    have hsame : Recounted mt (mt.makeRow cols row).2 := ⟨rfl, rfl, rfl, rfl, rfl⟩
    have hlive : (mt.makeRow cols row).1.obsolete = false :=
      (by decide : hasFlag 0 obsoleteFlag = false)
    rw [hview]
    refine h.inserted hlook.entry hsame hprep hlive fun mi hmi hu tokens htokens key hkey key'
      hkey' =>
      ?_
    obtain ⟨k, hk, hfree⟩ := hpassed (h.indexes mt.id mt hlook.entry).1 mi hmi
    have hkey₁ : key ∈ columnValue (mt.makeRow cols row).2 mi.columnId
        (mt.makeRow cols row).1.tokens := by
      rw [columnValue_congr hsame.columns]
      exact hkey
    obtain ⟨rfl, hnull⟩ := columnValue_of_indexKey hk hkey₁
    by_contra heq
    exact hcareful mt hlook mi hmi hu key hkey tokens htokens key' hkey' (by simpa using heq)
      (hfree hnull hu)
  · rcases hend with ⟨_, hview⟩ | ⟨mt, hlook, hend⟩
    · rw [hview]
      exact h
    have hsame : Recounted mt (mt.makeRow cols row).2 := ⟨rfl, rfl, rfl, rfl, rfl⟩
    rcases hend with hview | ⟨id, hprep⟩
    · rw [hview]
      have hsaved : (db.rowView.save (mt.makeRow cols row).2).Sound :=
        h.of_table hlook.entry ((keeps_save _ _).ok h.ok) le_rfl hsame
          (fun t => entry_save _ (mt.makeRow cols row).2 t) (fun _ _ => rfl)
          (h.unique mt.id mt hlook.entry)
      exact hsaved.tick
    · exact h.prepared hlook.entry hsame hprep

/-- **A careful update** keeps a state sound, also when it throws. -/
theorem sound_updateRow {update : RowUpdate} {rows : List DataRow} (h : db.rowView.Sound)
    (hactive : db.txn.state = .active)
    (hcareful : (TableCall.row ⟨tableName, schemaName, .update update rows⟩).Careful db) :
    Ensures (updateRow tableName schemaName update rows) db (fun _ db' => db'.rowView.Sound)
      fun _ db' => db'.rowView.Sound := by
  refine (ensures_updateRow hactive h.ok tableName schemaName update rows).mono
    (fun _ db' hend => ?_) fun _ db' hend => ?_
  · obtain ⟨mt, mt', hlook, hpages⟩ := hend
    exact (h.updated hlook.entry (hcareful mt hlook)).1 _ _ hpages
  · rcases hend with ⟨_, hview⟩ | ⟨mt, hlook, hthrow⟩
    · rw [hview]
      exact h
    · exact (h.updated hlook.entry (hcareful mt hlook)).2 _ hthrow

/-- **A delete** keeps a state sound. -/
theorem sound_deleteRows {rows : List DataRow} (h : db.rowView.Sound)
    (hactive : db.txn.state = .active) :
    Ensures (deleteRows tableName schemaName rows) db (fun _ db' => db'.rowView.Sound)
      fun _ db' => db'.rowView.Sound := by
  refine (ensures_deleteRows hactive h.ok tableName schemaName rows).mono
    (fun _ db' hend => ?_) fun _ db' hend => ?_
  · obtain ⟨mt, mt', hlook, hpages⟩ := hend
    exact h.deleted hlook.entry hpages
  · rw [hend.2]
    exact h

/-- The bytes that `create_index` compares are those of the values in the
column. -/
theorem liveBytes_eq {mt : MetaTable} {columnId : ColumnId} {colIdx : ℕ}
    (hidx : mt.getColumnIdx columnId = .ok colIdx) (rows : List DataRow) :
    rows.filterMap (liveBytes colIdx)
      = (liveTokens rows).filterMap fun tokens =>
        (columnValue mt columnId tokens).map DataToken.bytes := by
  induction rows with
  | nil => rfl
  | cons row rows ih =>
    have hrow : liveBytes colIdx row
        = if row.obsolete then none
          else (columnValue mt columnId row.tokens).map DataToken.bytes := by
      unfold liveBytes liveKey columnValue
      rw [hidx]
      by_cases hobsolete : row.obsolete = true
      · rw [if_pos hobsolete, if_pos hobsolete]
      · rw [if_neg hobsolete, if_neg hobsolete]
        show _ = ((row.tokens[colIdx]?).filter _).map DataToken.bytes
        cases row.tokens[colIdx]? with
        | none => rfl
        | some key =>
          by_cases hnull : key.type = .null
          · simp [hnull, Option.filter]
          · simp [hnull, Option.filter]
    by_cases hobsolete : row.obsolete = true
    · rw [if_pos hobsolete] at hrow
      rw [List.filterMap_cons_none hrow, liveTokens_cons_obsolete hobsolete, ih]
    · rw [if_neg hobsolete] at hrow
      rw [liveTokens_cons_live (by simpa using hobsolete), List.filterMap_cons, List.filterMap_cons,
        hrow, ih]

/-- Values with distinct bytes are apart, when equal values have equal bytes. -/
theorem pairwise_apart_of_bytes {mt : MetaTable} {columnId : ColumnId}
    {live : List (List DataToken)}
    (hnodup : (live.filterMap fun tokens =>
      (columnValue mt columnId tokens).map DataToken.bytes).Nodup)
    (hbytes : ∀ a ∈ live, ∀ b ∈ live, ∀ k ∈ columnValue mt columnId a,
      ∀ k' ∈ columnValue mt columnId b, k.eq k' = true → k.bytes = k'.bytes) :
    live.Pairwise (Apart mt columnId) := by
  rw [List.Nodup, List.pairwise_filterMap] at hnodup
  refine hnodup.imp_of_mem fun {a b} ha hb hne k hk k' hk' => ?_
  by_contra heq
  refine hne k.bytes ?_ k'.bytes ?_ (hbytes a ha b hb k hk k' hk' (by simpa using heq))
  · rw [Option.mem_def.mp hk]
    rfl
  · rw [Option.mem_def.mp hk']
    rfl

/-- **A careful `create_index`** keeps a state sound. -/
theorem sound_createIndex {indexName columnName : Bytes} {isUnique : Bool} (h : db.rowView.Sound)
    (hactive : db.txn.state = .active)
    (hcareful : (TableCall.createIndex indexName tableName columnName schemaName isUnique).Careful
      db) :
    Ensures (createIndex indexName tableName columnName schemaName isUnique) db
      (fun _ db' => db'.rowView.Sound) fun _ db' => db'.rowView.Sound := by
  refine (ensures_createIndex hactive h.ok indexName tableName columnName schemaName isUnique).mono
    (fun _ db' hend => ?_) fun _ db' hend => ?_
  · obtain ⟨mt, column, colIdx, hlook, hcolumn, hidx, hview, hnodup⟩ := hend
    set mi := newIndex db mt column indexName isUnique with hmi
    have hlogged := h.tick.log (.createIndex mi)
    rw [hview]
    refine ⟨(keeps_save _ _).ok hlogged.ok, fun t m hm => ?_, fun t m hm mi' hmi' hu => ?_⟩
    · rw [entry_save] at hm
      split_ifs at hm with ht
      · obtain rfl := Option.some.inj hm
        obtain ⟨hids, hlt⟩ := h.indexes mt.id mt hlook.entry
        refine ⟨?_, fun mi' hmi' => ?_⟩
        · rw [List.map_append]
          refine List.nodup_append.mpr ⟨hids, List.nodup_singleton _, fun a ha b hb hab => ?_⟩
          obtain ⟨mi', hmi', rfl⟩ := List.mem_map.mp ha
          have hlt' := hlt mi' hmi'
          rw [hab, List.mem_singleton.mp hb] at hlt'
          exact lt_irrefl _ hlt'
        · rcases List.mem_append.mp hmi' with hmi' | hmi'
          · exact (hlt mi' hmi').trans (UUIDGenerator.lt_next _ _)
          · rw [List.mem_singleton.mp hmi']
            exact UUIDGenerator.lt_next _ _
      · exact hlogged.indexes t m hm
    · rw [entry_save] at hm
      split_ifs at hm with ht
      · obtain rfl := Option.some.inj hm
        have hrows : ∀ t', ((({ db.rowView with clock := db.generator.next db.clock }.log
            (.createIndex mi)).save { mt with indexes := mt.indexes ++ [mi] }).rows t')
            = db.rowView.rows t' := fun _ => rfl
        obtain rfl : mt.id = t := ht
        have hcolumns : Apart { mt with indexes := mt.indexes ++ [mi] } mi'.columnId
            = Apart mt mi'.columnId := apart_congr rfl _
        rw [hrows, hcolumns]
        rcases List.mem_append.mp hmi' with hmi' | hmi'
        · exact h.unique mt.id mt hlook.entry mi' hmi' hu
        · obtain rfl := List.mem_singleton.mp hmi'
          have hu' : isUnique = true := hu
          have hbytes := hnodup hu'
          rw [liveBytes_eq hidx] at hbytes
          exact pairwise_apart_of_bytes hbytes (hcareful hu' mt column hlook hcolumn)
      · exact h.unique t m hm mi' hmi' hu
  · rcases hend with hview | ⟨mi, hview⟩
    · rw [hview]
      exact h
    · rw [hview]
      exact h.tick.log (.createIndex mi)

/-- **A careful call** keeps a state sound. -/
theorem sound_completes {c : TableCall} (h : db.rowView.Sound)
    (hstep : TableCall.Completes db c db') :
    db'.rowView.Sound := by
  obtain ⟨hcareful, txn, hactive, hrun⟩ := hstep
  have hstart := h.withTxn txn
  have hends : Ensures c.run { db with txn := txn } (fun _ db' => db'.rowView.Sound)
      fun _ db' => db'.rowView.Sound := by
    cases c with
    | row call =>
      obtain ⟨tableName, schemaName, op⟩ := call
      cases op with
      | insert cols row => exact sound_insertRow hstart hactive hcareful
      | update update rows => exact sound_updateRow hstart hactive hcareful
      | delete rows => exact sound_deleteRows hstart hactive
    | createIndex indexName tableName columnName schemaName isUnique =>
      exact sound_createIndex hstart hactive hcareful
  rcases hrun with hrun | ⟨e, hrun⟩
  · exact hends.of_ok hrun
  · exact hends.of_error hrun

/-- **Unique indexes keep live rows apart in careful runs.** From any state in
which they do, after any run of calls that may succeed or throw and whose
uniqueness checks are right, no two live rows of a table hold equal values in
the column of one of its unique indexes. -/
theorem uniqueKeys_of_careful {cs : List TableCall} (h : db.rowView.Sound)
    (hrun : Run TableCall.Completes db cs db') : db'.rowView.UniqueKeys :=
  (hrun.invariant (P := fun db : StdDbInstance => db.rowView.Sound)
    (fun _ _ _ hs hstep => sound_completes hs hstep)
    h).unique

end Calls

/-! ## A refused update -/

/-- Inserting another value. -/
def insertTwo : RowCall := ⟨[116], [115], .insert none [⟨[2, 0, 0, 0], .integer⟩]⟩

/-- Updating the row with an id to hold one. -/
def setOne (rid : ℕ) : RowCall :=
  ⟨[116], [115], .update [.literal 3 ⟨[1, 0, 0, 0], .integer⟩] [{ id := rid }]⟩

theorem RowCall.attempts_of_returns {c : RowCall} {db : StdDbInstance}
    (h : c.returns db = true) : TableCall.Attempts db (.row c) (c.after db) := by
  obtain ⟨_, txn, hactive, hrun⟩ := RowCall.succeeds_of_returns h (rfl : c.effect db 0 = _)
  exact ⟨txn, hactive, .inl hrun⟩

theorem RowCall.attempts_of_refused {c : RowCall} {db : StdDbInstance}
    (hactive : db.txn.state = .active) (h : c.refused db = true) :
    TableCall.Attempts db (.row c) (c.after db) := by
  obtain ⟨constraint, hrun⟩ := RowCall.run_of_refused h
  exact ⟨db.txn, hactive, .inr ⟨constraint, hrun⟩⟩

theorem sound_oneIndexed : oneIndexed.rowView.Sound where
  ok := freshTable_oneIndexed.ok
  indexes t mt hmt := by
    have hmem : mt ∈ oneIndexed.catalog.tables := List.mem_of_find?_eq_some hmt
    rw [List.mem_singleton.mp hmem]
    exact ⟨by decide, by decide⟩
  unique _ _ _ _ _ _ := List.Pairwise.nil

/-- **A refused update leaves two rows with the same value.** -/
theorem uniqueKeys_broken :
    ¬ ∀ (db db' : StdDbInstance) (cs : List TableCall), db.rowView.Sound →
      Run TableCall.Attempts db cs db' → db'.rowView.UniqueKeys := by
  intro h
  set db := insertTwo.after (insertOne.after oneIndexed) with hdb
  have hrun : Run TableCall.Attempts oneIndexed [.row insertOne, .row insertTwo, .row (setOne 1)]
      ((setOne 1).after db) :=
    .cons (RowCall.attempts_of_returns (by decide +kernel))
      (.cons (RowCall.attempts_of_returns (by decide +kernel))
        (.single (RowCall.attempts_of_refused (by decide +kernel) (by decide +kernel))))
  have hunique := h _ _ _ sound_oneIndexed hrun
  obtain ⟨mt, hmt, hcolumns, mi, hmi, hu, hcolumn⟩ : ∃ mt,
      ((setOne 1).after db).rowView.entry 2 = some mt
        ∧ mt.columns = [{ id := 3, tableId := 2, name := [97], type := .integer }]
        ∧ ∃ mi ∈ mt.indexes, mi.isUnique = true ∧ mi.columnId = 3 := by
    cases hentry : ((setOne 1).after db).rowView.entry 2 with
    | none =>
      have hsome : (((setOne 1).after db).rowView.entry 2).isSome = true := by
        rw [hdb]
        decide +kernel
      rw [hentry] at hsome
      cases hsome
    | some mt =>
      have hall : (((setOne 1).after db).rowView.entry 2).map (fun mt => (mt.columns, mt.indexes))
          = some ([{ id := 3, tableId := 2, name := [97], type := .integer }],
            [{ id := 4, tableId := 2, columnId := 3, name := [105], keyType := .integer,
               isUnique := true }]) := by
        rw [hdb]
        decide +kernel
      rw [hentry] at hall
      obtain ⟨hcolumns, hindexes⟩ := Prod.mk.inj (Option.some.inj hall)
      exact ⟨mt, rfl, hcolumns, _, by rw [hindexes]; exact List.mem_singleton_self _, rfl, rfl⟩
  have hpair := hunique 2 mt hmt mi hmi hu
  have hlive : liveTokens (((setOne 1).after db).rowView.rows 2)
      = [[⟨[1, 0, 0, 0], .integer⟩], [⟨[1, 0, 0, 0], .integer⟩]] := by
    rw [hdb]
    decide +kernel
  have hvalue : columnValue mt mi.columnId [⟨[1, 0, 0, 0], .integer⟩]
      = some ⟨[1, 0, 0, 0], .integer⟩ := by
    unfold columnValue MetaTable.getColumnIdx
    rw [hcolumns, hcolumn]
    rfl
  rw [hlive] at hpair
  have heq := (List.pairwise_cons.mp hpair).1 _ (List.mem_singleton_self _) _ hvalue _ hvalue
  exact absurd heq (by decide)

theorem TableCall.Attempts.completes {db db' : StdDbInstance} {c : TableCall}
    (h : TableCall.Attempts db c db') (hcareful : c.Careful db) :
    TableCall.Completes db c db' := by
  obtain ⟨txn, hactive, hrun⟩ := h
  exact ⟨hcareful, txn, hactive, hrun.imp_right fun ⟨_, h⟩ => ⟨_, h⟩⟩

/-- An insert, and an update whose value is free. -/
theorem uniqueKeys_insertTwo_setOne :
    ((setOne 0).after (insertTwo.after oneIndexed)).rowView.UniqueKeys := by
  set db := insertTwo.after oneIndexed with hdb
  have hinsert : TableCall.Completes oneIndexed (.row insertTwo) db := by
    refine (RowCall.attempts_of_returns (by decide +kernel)).completes ?_
    intro mt _ mi _ _ key _ tokens htokens
    cases htokens
  have hset : TableCall.Completes db (.row (setOne 0)) ((setOne 0).after db) := by
    refine (RowCall.attempts_of_returns (by rw [hdb]; decide +kernel)).completes ?_
    intro mt hlook mi _ _
    have hid : mt.id = 2 := by
      have hentry := hlook.entry
      have hmem : mt ∈ db.catalog.tables := List.mem_of_find?_eq_some hentry
      have hids : db.catalog.tables.map MetaTable.id = [2] := by
        rw [hdb]
        decide +kernel
      have hin := List.mem_map_of_mem (f := MetaTable.id) hmem
      rw [hids] at hin
      exact List.mem_singleton.mp hin
    have hlive : (RowView.liveRows (db.tableRows 2)).length = 1 := by
      rw [hdb]
      decide +kernel
    unfold RowView.UpdateFree
    rw [hid]
    obtain ⟨row, hrow⟩ := List.length_eq_one_iff.mp hlive
    rw [hrow]
    exact List.pairwise_singleton _ _
  exact uniqueKeys_of_careful sound_oneIndexed (.cons hinsert (.single hset))
