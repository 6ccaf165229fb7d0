import Deltabase.Recovery.LoggedStatements

/-!
# Runs of statements

What the statements do between the begin and the commit of their transaction
keeps the instance in step with its log: the log, redone over the files, gives
the catalog and the pages the instance has. Between transactions the log ends
with a commit and nothing is left to undo, so an instance at rest stays at rest
through every statement that succeeds.
-/

namespace StdDbInstance

open BufferPool Transaction FileIOManager RowView History

variable {db db' : StdDbInstance}

/-! ## Creating -/

/-- The schema that `create_schema` makes. -/
def newSchema (db : StdDbInstance) (dbName schemaName : Bytes) : MetaSchema where
  id := db.clock
  name := schemaName
  dbName := dbName

/-- **`create_schema`** takes an id, logs the schema and saves it. -/
theorem ensures_createSchema (hactive : db.txn.state = .active) (dbName schemaName : Bytes) :
    Ensures (createSchema dbName schemaName) db
      (fun _ db' => db'.rowView = { { db.rowView with clock := db.generator.next db.clock }.log
          (.createSchema (newSchema db dbName schemaName)) with
          catalog := db.catalog.saveSchema (newSchema db dbName schemaName) })
      fun _ _ => False := by
  unfold createSchema
  rw [ensures_bind]
  show Ensures _ { db with clock := db.generator.next db.clock } _ _
  rw [ensures_bind, ensures_appendLog (by exact hactive), ensures_modify]
  rfl

/-- **`create_schema`** keeps an instance in step when the name is new. -/
theorem running_createSchema (h : Running Set.univ db.rowView) {dbName schemaName : Bytes}
    (hnew : db.catalog.getSchema schemaName = none) :
    Ensures (createSchema dbName schemaName) db (fun _ db' => Running Set.univ db'.rowView)
      fun _ _ => False := by
  refine (ensures_createSchema h.active dbName schemaName).mono_ok fun _ db' hview => ?_
  rw [hview]
  set ms := newSchema db dbName schemaName
  set v : RowView := { db.rowView with clock := db.generator.next db.clock } with hv
  have hcat : CatalogLogged db.wal.kept Set.univ v :=
    h.logged.catalog.congr rfl rfl rfl le_rfl (UUIDGenerator.le_next _ _)
  have hfresh : ∀ s ∈ createdSchemas db.wal.kept, s.id ≠ ms.id ∧ s.name ≠ ms.name := by
    intro s hs
    refine ⟨(h.logged.catalog.schemaIds s hs).2.ne, fun hname => ?_⟩
    have hmem : s ∈ db.catalog.schemas := (h.logged.catalog.schemas s).mpr hs
    have hnot := List.find?_eq_none.mp hnew s hmem
    exact hnot (decide_eq_true hname)
  have hschemas : createdSchemas [v.record (.createSchema ms)] = [ms] := rfl
  refine h.of_append (R := [v.record (.createSchema ms)]) rfl ⟨?_, ?_⟩ rfl rfl rfl rfl
    (UUIDGenerator.le_next _ _)
    (fun r hr => ?_) (h.owned.congr rfl)
  · refine hcat.append hfresh h.silent (h.txn.trans (UUIDGenerator.lt_next _ _))
      (log_nextLsn v _) le_rfl rfl rfl (fun s hs => ?_) (fun t ht => ?_) (fun s => ?_) fun t => rfl
    · rw [hschemas] at hs
      rw [List.mem_singleton.mp hs]
      exact ⟨h.logged.pages.ok.clock_pos, UUIDGenerator.lt_next _ _⟩
    · cases ht
    · rw [hschemas, List.mem_singleton]
      exact mem_upsert_iff_of_new fun z hz =>
        (hfresh z ((h.logged.catalog.schemas z).mp hz)).1
  · exact h.logged.pages.append (fun _ => rfl) rfl rfl rfl rfl (log_nextLsn v _ ▸ Nat.le_succ _)
      (UUIDGenerator.le_next _ _)
  · rw [List.mem_singleton.mp hr]
    exact ⟨rfl, by simp [record]⟩

/-- Making columns takes ids, a new one for each, and nothing else. -/
theorem ensures_makeColumns (tableId : TableId) (definitions : List ColumnDefinition)
    (db : StdDbInstance) :
    Ensures (makeColumns tableId definitions) db
      (fun columns db' => (columns.map MetaColumn.id).Nodup
        ∧ (∀ id ∈ columns.map MetaColumn.id, db.clock ≤ id)
        ∧ ∃ now, db.clock ≤ now ∧ db' = { db with clock := now }) fun _ _ => False := by
  induction definitions generalizing db with
  | nil => exact ⟨List.nodup_nil, fun id hid => absurd hid List.not_mem_nil, _, le_rfl, rfl⟩
  | cons definition definitions ih =>
    unfold makeColumns
    rw [ensures_bind]
    show Ensures _ { db with clock := db.generator.next db.clock } _ _
    rw [ensures_bind]
    refine (ih _).mono_ok fun columns db' ⟨hnodup, holder, now, hnow, hdb'⟩ => ?_
    have hlt : db.clock < db.generator.next db.clock := db.generator.lt_next _
    rw [ensures_pure, List.map_cons, List.nodup_cons]
    refine ⟨⟨fun hmem => absurd (holder _ hmem) hlt.not_ge, hnodup⟩,
      fun id hid => ?_, now, hlt.le.trans hnow, hdb'⟩
    rcases List.mem_cons.mp hid with rfl | hid
    exacts [le_rfl, hlt.le.trans (holder id hid)]

/-- **`create_table`** makes an empty table of the schema, logs it and saves it. -/
theorem ensures_createTable (hactive : db.txn.state = .active) (tableName schemaName : Bytes)
    (columns : List ColumnDefinition) :
    Ensures (createTable tableName schemaName columns) db
      (fun _ db' => ∃ schema metaColumns now, db.catalog.getSchema schemaName = some schema
        ∧ (metaColumns.map MetaColumn.id).Nodup ∧ db.clock < now
        ∧ let mt : MetaTable :=
            { id := db.clock, schemaId := schema.id, name := tableName, columns := metaColumns }
          db'.rowView
            = ({ db.rowView with clock := now }.log (.createTable mt)).save mt)
      fun _ _ => True := by
  unfold createTable getSchema
  rw [ensures_bind, ensures_bind, ensures_get]
  cases hschema : db.catalog.getSchema schemaName with
  | none => trivial
  | some schema =>
    rw [ensures_pure, ensures_bind]
    show Ensures _ { db with clock := db.generator.next db.clock } _ _
    rw [ensures_bind]
    refine (ensures_makeColumns _ _ _).mono (fun metaColumns db₁ ⟨hnodup, _, now, hnow, hdb₁⟩ => ?_)
      fun _ _ h => h.elim
    subst hdb₁
    rw [ensures_bind, ensures_appendLog (by exact hactive)]
    unfold saveTable
    rw [ensures_modify]
    exact ⟨schema, metaColumns, now, rfl, hnodup, (db.generator.lt_next _).trans_le hnow, rfl⟩

/-- **`create_table`** keeps an instance in step when the name is new. -/
theorem running_createTable (h : Running Set.univ db.rowView) {tableName schemaName : Bytes}
    {columns : List ColumnDefinition} (hnew : db.existsTable tableName schemaName = false) :
    Ensures (createTable tableName schemaName columns) db
      (fun _ db' => Running Set.univ db'.rowView) fun _ _ => True := by
  refine (ensures_createTable h.active tableName schemaName columns).mono_ok fun _ db' hdb' => ?_
  obtain ⟨schema, metaColumns, now, hschema, -, hclock, hview⟩ := hdb'
  rw [hview]
  set mt : MetaTable :=
    { id := db.clock, schemaId := schema.id, name := tableName, columns := metaColumns } with hmt
  set v : RowView := { db.rowView with clock := now } with hv
  have hcat : CatalogLogged db.wal.kept Set.univ v :=
    h.logged.catalog.congr rfl rfl rfl le_rfl hclock.le
  have hmem : schema ∈ createdSchemas db.wal.kept :=
    (h.logged.catalog.schemas schema).mp (List.mem_of_find?_eq_some hschema)
  have hadm : Admissible db.wal.kept (.createTable mt) := by
    refine ⟨⟨schema, hmem, rfl⟩, fun t ht => ⟨(h.logged.catalog.tableIds t ht).ne, fun heq => ?_⟩⟩
    obtain ⟨mt', hentry, hsame⟩ := h.logged.catalog.exists_entry ht
    unfold existsTable findTable at hnew
    rw [hschema] at hnew
    have hnone : db.catalog.getTable tableName schema.id = none :=
      Option.not_isSome_iff_eq_none.mp (Bool.eq_false_iff.mp hnew)
    refine List.find?_eq_none.mp hnone mt' (List.mem_of_find?_eq_some hentry) ?_
    exact decide_eq_true ⟨hsame.2.1.symm.trans (congrArg Prod.snd heq),
      hsame.2.2.symm.trans (congrArg Prod.fst heq)⟩
  have htables : createdTables [v.record (.createTable mt)] = [mt] := rfl
  refine h.of_append (R := [v.record (.createTable mt)]) rfl ⟨?_, ?_⟩ rfl rfl rfl rfl hclock.le
    (fun r hr => ?_) fun t mt' hmt' mi hmi => ?_
  · refine hcat.append hadm h.silent (h.txn.trans hclock) (log_nextLsn v _) le_rfl
      rfl rfl (fun s hs => ?_) (fun t ht => ?_) (fun s => ?_) fun t => entry_save v mt t
    · cases hs
    · rw [htables] at ht
      rw [List.mem_singleton.mp ht]
      exact hclock
    · exact ⟨.inl, fun hs => hs.resolve_right List.not_mem_nil⟩
  · exact h.logged.pages.append (fun _ => rfl) rfl rfl rfl rfl
      (log_nextLsn v _ ▸ Nat.le_succ _) hclock.le
  · rw [List.mem_singleton.mp hr]
    exact ⟨rfl, by simp [record]⟩
  · change (v.save mt).entry t = some mt' at hmt'
    rw [entry_save] at hmt'
    split_ifs at hmt' with hid
    · rw [← Option.some.inj hmt'] at hmi
      cases hmi
    · exact h.owned t mt' hmt' mi hmi

/-! ## Indexes -/

/-- **`create_index`** keeps an instance in step. -/
theorem running_createIndex (h : Running Set.univ db.rowView)
    (indexName tableName columnName schemaName : Bytes) (isUnique : Bool) :
    Ensures (createIndex indexName tableName columnName schemaName isUnique) db
      (fun _ db' => Running Set.univ db'.rowView) fun _ _ => True := by
  refine (ensures_createIndex h.active h.logged.pages.ok indexName tableName columnName schemaName
    isUnique).mono (fun _ db' hdb' => ?_) fun _ _ _ => trivial
  obtain ⟨table, column, -, hlook, -, -, hview, -⟩ := hdb'
  set mi := newIndex db table column indexName isUnique
  set v : RowView := { db.rowView with clock := db.generator.next db.clock } with hv
  have hentry : db.rowView.entry table.id = some table := hlook.entry
  obtain ⟨t₀, ht₀, hid₀, -⟩ := h.logged.catalog.exists_created hentry
  have hcat : CatalogLogged db.wal.kept Set.univ v :=
    h.logged.catalog.congr rfl rfl rfl le_rfl (UUIDGenerator.le_next _ _)
  rw [hview]
  refine h.of_append (R := [v.record (.createIndex mi)]) rfl ⟨?_, ?_⟩ rfl rfl rfl rfl
    (UUIDGenerator.le_next _ _)
    (fun r hr => ?_) fun t mt hmt i hi => ?_
  · refine hcat.append ⟨t₀, ht₀, hid₀⟩ h.silent (h.txn.trans (UUIDGenerator.lt_next _ _))
      (log_nextLsn v _) le_rfl rfl rfl (fun s hs => ?_) (fun t ht => ?_) (fun s => ?_) fun t => ?_
    · cases hs
    · cases ht
    · exact ⟨.inl, fun hs => hs.resolve_right List.not_mem_nil⟩
    · rw [entry_save]
      show (if table.id = t then _ else db.rowView.entry t)
        = if table.id = t then (db.rowView.entry t).map _ else db.rowView.entry t
      split_ifs with hid
      · rw [← hid, hentry]
        rfl
      · rfl
  · exact h.logged.pages.append (fun _ => rfl) rfl rfl rfl rfl (log_nextLsn v _ ▸ Nat.le_succ _)
      (UUIDGenerator.le_next _ _)
  · rw [List.mem_singleton.mp hr]
    exact ⟨rfl, by simp [record]⟩
  · rw [entry_save] at hmt
    split_ifs at hmt with hid
    · obtain rfl := Option.some.inj hmt
      rw [← hid]
      rcases List.mem_append.mp hi with hi | hi
      · exact h.owned table.id table hentry i hi
      · rw [List.mem_singleton.mp hi]
        rfl
    · exact h.owned t mt hmt i hi

/-- **`drop_index`** saves the table without the index and logs that. -/
theorem ensures_dropIndex (hactive : db.txn.state = .active)
    (indexName tableName schemaName : Bytes) :
    Ensures (dropIndex indexName tableName schemaName) db
      (fun _ db' => ∃ table index, LooksUp db tableName schemaName table ∧ index ∈ table.indexes
        ∧ db'.rowView = (db.rowView.save
            { table with indexes := table.indexes.filter fun mi => mi.id ≠ index.id }).log
              (.dropIndex index))
      fun _ _ => True := by
  unfold dropIndex
  rw [ensures_bind]
  refine (ensures_getTable tableName schemaName db).mono (fun table db₀ ⟨hdb, hlook⟩ => ?_)
    fun _ _ _ => trivial
  subst hdb
  cases hfind : table.indexes.find? fun index => index.name = indexName with
  | none => trivial
  | some index =>
    unfold saveTable
    simp only [ensures_bind, ensures_modify]
    rw [ensures_appendLog (by exact hactive)]
    exact ⟨table, index, hlook, List.mem_of_find?_eq_some hfind, rfl⟩

/-- **`drop_index`** keeps an instance in step. -/
theorem running_dropIndex (h : Running Set.univ db.rowView)
    (indexName tableName schemaName : Bytes) :
    Ensures (dropIndex indexName tableName schemaName) db
      (fun _ db' => Running Set.univ db'.rowView) fun _ _ => True := by
  refine (ensures_dropIndex h.active indexName tableName schemaName).mono_ok fun _ db' hdb' => ?_
  obtain ⟨table, index, hlook, hindex, hview⟩ := hdb'
  rw [hview]
  have hentry : db.rowView.entry table.id = some table := hlook.entry
  have htable : index.tableId = table.id := h.owned table.id table hentry index hindex
  set mt : MetaTable :=
    { table with indexes := table.indexes.filter fun mi => mi.id ≠ index.id } with hmt
  set v : RowView := db.rowView with hv
  obtain ⟨t₀, ht₀, hid₀, -⟩ := h.logged.catalog.exists_created hentry
  have hbefore : v.entry mt.id = some table := hentry
  have howned : Owned (v.save mt) :=
    h.owned.save hbefore (List.filter_subset_self _) fun t => entry_save v mt t
  refine h.of_append (R := [v.record (.dropIndex index)]) rfl ⟨?_, ?_⟩ rfl rfl rfl rfl le_rfl
    (fun r hr => ?_) (howned.congr rfl)
  · refine h.logged.catalog.append ⟨t₀, ht₀, hid₀.trans htable.symm⟩ h.silent h.txn
      (log_nextLsn v _) le_rfl rfl rfl (fun s hs => ?_) (fun t ht => ?_) (fun s => ?_) fun t => ?_
    · cases hs
    · cases ht
    · exact ⟨.inl, fun hs => hs.resolve_right List.not_mem_nil⟩
    · show (v.save mt).entry t = if index.tableId = t then (v.entry t).map _ else v.entry t
      rw [entry_save, htable]
      show (if table.id = t then _ else v.entry t) = _
      split_ifs with hid
      · rw [← hid, hentry]
        rfl
      · rfl
  · exact h.logged.pages.append (fun _ => rfl) rfl rfl rfl rfl (log_nextLsn v _ ▸ Nat.le_succ _)
      le_rfl
  · rw [List.mem_singleton.mp hr]
    exact ⟨rfl, by simp [record]⟩

/-! ## Rows -/

/-- **`insert_row`** keeps an instance in step. -/
theorem running_insertRow (h : Running Set.univ db.rowView) (tableName schemaName : Bytes)
    (cols : Option (List Bytes)) (row : List DataToken) :
    Ensures (insertRow tableName schemaName cols row) db
      (fun _ db' => Running Set.univ db'.rowView) fun _ _ => True := by
  refine (ensures_insertRow h.active h.logged.pages.ok tableName schemaName cols row).mono
    (fun _ db' hdb' => ?_) fun _ _ _ => trivial
  obtain ⟨mt₀, hlook, ⟨id, v, hprep, hview⟩, -⟩ := hdb'
  rw [hview]
  have hbefore : db.rowView.entry (mt₀.makeRow cols row).2.id = some mt₀ := hlook.entry
  exact h.insert hbefore ⟨rfl, rfl, rfl⟩ rfl hprep _

/-- **`update_row`** keeps an instance in step. -/
theorem running_updateRow (h : Running Set.univ db.rowView) (tableName schemaName : Bytes)
    (update : RowUpdate) (rows : List DataRow) :
    Ensures (updateRow tableName schemaName update rows) db
      (fun _ db' => Running Set.univ db'.rowView) fun _ _ => True := by
  refine (ensures_updateRow h.active h.logged.pages.ok tableName schemaName update rows).mono
    (fun _ db' hdb' => ?_) fun _ _ _ => trivial
  obtain ⟨mt, mt', hlook, hvisited⟩ := hdb'
  refine hvisited.running (fun _ _ _ _ _ htarget hrow hs => hs.updates htarget hrow)
    (fun _ _ _ _ _ hrow => hrow.keeps) (fun _ _ _ _ _ hrow => ?_) h hlook.entry trivial
    fun _ hid => hid
  cases hrow
  rfl

/-- **`delete_rows`** keeps an instance in step. -/
theorem running_deleteRows (h : Running Set.univ db.rowView) (tableName schemaName : Bytes)
    (rows : List DataRow) :
    Ensures (deleteRows tableName schemaName rows) db
      (fun _ db' => Running Set.univ db'.rowView) fun _ _ => True := by
  refine (ensures_deleteRows h.active h.logged.pages.ok tableName schemaName rows).mono
    (fun _ db' hdb' => ?_) fun _ _ _ => trivial
  obtain ⟨mt, mt', hlook, hvisited⟩ := hdb'
  refine hvisited.running (fun _ _ _ _ _ htarget hrow hs => hs.deletes htarget hrow)
    (fun _ _ _ _ _ hrow => hrow.keeps) (fun _ _ _ _ _ hrow => ?_) h hlook.entry trivial
    fun _ hid => hid
  cases hrow
  rfl

end StdDbInstance

namespace Statement

open StdDbInstance Transaction RowView History

variable {db db' : StdDbInstance}

/-- **What a statement does** keeps an instance in step. Of what the analyzer
checks, it matters that a new schema and a new table have new names. -/
theorem running_body (st : Statement) (h : Running Set.univ db.rowView)
    (hanalyze : st.analyze db = true) :
    Ensures st.body db (fun _ db' => Running Set.univ db'.rowView) fun _ _ => True := by
  cases st with
  | createSchema dbName schemaName =>
    exact (running_createSchema h (Option.isNone_iff_eq_none.mp hanalyze)).mono
      (fun _ _ h => h) fun _ _ _ => trivial
  | createTable tableName schemaName columns =>
    exact running_createTable h (by simpa [analyze] using hanalyze)
  | insert tableName schemaName cols rows =>
    exact Ensures.forM_of_preserves _ (fun row _ db hdb =>
      running_insertRow hdb tableName schemaName cols row) h
  | update tableName schemaName assignments rows =>
    show Ensures (liftExcept rows >>= _) db _ _
    rw [ensures_bind, ensures_liftExcept]
    exact ⟨fun rows _ => running_updateRow h _ _ _ rows, fun _ _ => trivial⟩
  | delete tableName schemaName rows =>
    show Ensures (liftExcept rows >>= _) db _ _
    rw [ensures_bind, ensures_liftExcept]
    exact ⟨fun rows _ => running_deleteRows h _ _ rows, fun _ _ => trivial⟩
  | createIndex indexName tableName columnName schemaName isUnique =>
    exact running_createIndex h _ _ _ _ _
  | dropIndex indexName tableName schemaName => exact running_dropIndex h _ _ _

end Statement

/-! ## Transactions from begin to commit -/

namespace RowView

open History

variable {v v' : RowView}

/-- **Between transactions**: the view is in step with its log, in which every
transaction is committed. -/
structure Resting (v : RowView) : Prop where
  logged : Logged v.wal.kept Set.univ v
  committed : AllCommitted v.wal.kept
  owned : Owned v
  recorded : ∀ id, RecordedAt v id

/-- Some pages are written to their files and lose their marks. -/
def writePages (v : RowView) (w : DataPageId → Bool) : RowView :=
  { v with
    ioPages := fun id => if w id then v.page id else v.ioPages id
    dirty := fun id => if w id then false else v.dirty id }

/-- A page that has been written is where redo would start from. -/
theorem PageLogged.written {H : List WalRecord} {id : DataPageId} {p : DataPage}
    (h : PageLogged H v id p) (hp : v.page id = some p) {w : DataPageId → Bool} (hw : w id = true) :
    PageLogged H (v.writePages w) id p := by
  have hio : (v.writePages w).ioPages id = some p := (if_pos hw).trans hp
  refine ⟨h.pos, h.placed, h.listed, h.owner, h.seen, h.lsn, ⟨p, ⟨.inl hio, rfl, rfl, le_rfl⟩,
    fun _ => ?_⟩, fun _ => ⟨p, hio, rfl, rfl, rfl⟩⟩
  have hnone : (dataRecords id H).filter (fun r => p.lastLsn < r.lsn) = [] :=
    List.filter_eq_nil_iff.mpr fun r hr hlt => absurd (of_decide_eq_true hlt) (h.seen r hr).not_gt
  rw [hnone]
  rfl

/-- **Writing pages** leaves a view in step. -/
theorem Logged.writePages {H : List WalRecord} (h : Logged H Set.univ v) (w : DataPageId → Bool) :
    Logged H Set.univ (v.writePages w) := by
  refine ⟨h.catalog.congr rfl rfl rfl le_rfl le_rfl, h.pages.ok.congr rfl rfl le_rfl,
    fun id p hp ht => ?_, fun id hid => ⟨?_, (h.pages.missing id hid).2⟩,
    fun t ht => chained_congr (h.pages.chains t ht) rfl rfl, fun id d hd => ?_⟩
  · have hlogged := h.pages.pages id p hp ht
    by_cases hw : w id = true
    · exact hlogged.written hp hw
    · refine hlogged.relink rfl rfl rfl rfl (fun _ => List.Subset.refl _) rfl (if_neg hw)
        fun hd => ?_
      exact ⟨(if_neg hw).symm.trans hd, rfl⟩
  · show (if w id then v.page id else v.ioPages id) = none
    split_ifs
    exacts [hid, (h.pages.missing id hid).1]
  · change (if w id then v.page id else v.ioPages id) = some d at hd
    split_ifs at hd
    exacts [h.pages.ok.named id d hd, h.pages.named id d hd]

theorem Resting.writePages (h : Resting v) (w : DataPageId → Bool) : Resting (v.writePages w) :=
  ⟨h.logged.writePages w, h.committed, h.owned.congr rfl, fun id hsome hnone => by
    change (if w id then v.page id else v.ioPages id) = none at hnone
    split_ifs at hnone
    · rw [show (v.writePages w).page id = v.page id from rfl, hnone] at hsome
      cases hsome
    · exact h.recorded id hsome hnone⟩

end RowView

namespace StdDbInstance

open BufferPool Transaction FileIOManager RowView History

variable {db db' : StdDbInstance}

theorem ensures_make {Q : UUID → StdDbInstance → Prop} {E : Exn → StdDbInstance → Prop} :
    Ensures UUID.make db Q E ↔ Q db.clock { db with clock := db.generator.next db.clock } := Iff.rfl

/-- **A transaction begins.** -/
theorem running_begin (h : Resting db.rowView) :
    Ensures (makeTransaction >>= fun _ => begin) db
      (fun _ db' => Running Set.univ db'.rowView ∧ db'.catalog = db.catalog) fun _ _ => False := by
  unfold makeTransaction begin
  rw [ensures_bind, ensures_bind]
  rw [ensures_make, ensures_modify, ensures_bind, ensures_get]
  show Ensures (modify _ >>= fun _ => modify _) _ _ _
  rw [ensures_bind, ensures_modify, ensures_modify]
  set v : RowView :=
    { db.rowView with clock := db.generator.next db.clock, txn := { id := db.clock } } with hv
  have hsilent : ∀ c ∈ db.wal.kept, c.body = .commitTxn → c.txnId ≠ v.txn.id :=
    fun c hc _ => (h.logged.catalog.txns c hc).ne
  have hcat : CatalogLogged db.wal.kept Set.univ v :=
    h.logged.catalog.congr rfl rfl rfl le_rfl (UUIDGenerator.le_next _ _)
  refine ⟨⟨⟨⟨?_, ?_⟩, rfl, UUIDGenerator.lt_next _ _, fun c hc hcommit => ?_, fun r hr hne => ?_,
    h.owned.congr rfl⟩, fun id => (h.recorded id).mono (fun hsome => hsome) rfl rfl⟩, rfl⟩
  · have hbegin := hcat.append_log (b := .beginTxn) trivial hsilent (UUIDGenerator.lt_next _ _)
      rfl rfl fun _ _ => rfl
    exact hbegin.congr rfl rfl rfl le_rfl le_rfl
  · exact h.logged.pages.append (R := [v.record .beginTxn]) (fun _ => rfl) rfl rfl rfl rfl
      (log_nextLsn v .beginTxn ▸ Nat.le_succ _) (UUIDGenerator.le_next _ _)
  · rcases List.mem_append.mp hc with hc | hc
    · exact hsilent c hc hcommit
    · rw [List.mem_singleton.mp hc] at hcommit
      cases hcommit
  · rcases List.mem_append.mp hr with hr | hr
    · obtain ⟨c, hc, hcommit, htxn⟩ := h.committed r hr
      exact ⟨c, List.mem_append_left _ hc, hcommit, htxn⟩
    · rw [List.mem_singleton.mp hr] at hne
      exact absurd rfl hne

/-- **A transaction is committed**, as far as the log is concerned: all of it is
durable, and its last record is that of the commit. -/
theorem resting_commitLog (h : Running Set.univ db.rowView) :
    Ensures commitLog db
      (fun _ db' => Resting db'.rowView ∧ db'.wal.kept.length ≤ db'.wal.durable
        ∧ db'.wal.kept.length = db'.txn.lastLsn) fun _ _ => False := by
  unfold commitLog
  rw [ensures_bind, ensures_get, if_neg (by rw [show db.txn.state = .active from h.active]; simp)]
  show Ensures (modify _ >>= fun _ => modify _) _ _ _
  rw [ensures_bind, ensures_modify, ensures_modify]
  set v := db.rowView with hv
  have hlen : (v.wal.kept ++ [v.record .commitTxn]).length = v.wal.nextLsn := by
    rw [List.length_append]
    rfl
  refine ⟨⟨⟨?_, ?_⟩, fun r hr => ?_, h.owned.congr rfl,
    fun id => (h.recorded id).mono (fun hsome => hsome) rfl rfl⟩, ?_, hlen⟩
  · have hcommit := h.logged.catalog.append_log (b := .commitTxn) trivial h.silent h.txn rfl rfl
      fun _ _ => rfl
    exact hcommit.congr rfl rfl rfl le_rfl le_rfl
  · exact h.logged.pages.append (R := [v.record .commitTxn]) (fun _ => rfl) rfl rfl rfl rfl
      (log_nextLsn v .commitTxn ▸ Nat.le_succ _) le_rfl
  · change r ∈ v.wal.kept ++ [v.record .commitTxn] at hr
    show ∃ c ∈ v.wal.kept ++ [v.record .commitTxn], _
    by_cases htxn : r.txnId = v.txn.id
    · exact ⟨_, List.mem_append_right _ (List.mem_singleton_self _), rfl, htxn.symm⟩
    · rcases List.mem_append.mp hr with hr | hr
      · obtain ⟨c, hc, hcommit, hid⟩ := h.others r hr htxn
        exact ⟨c, List.mem_append_left _ hc, hcommit, hid⟩
      · rw [List.mem_singleton.mp hr] at htxn
        exact absurd rfl htxn
  · show (v.wal.kept ++ [v.record .commitTxn]).length
      ≤ if v.wal.nextLsn ≤ v.wal.durable then v.wal.durable
        else (v.wal.kept ++ [v.record .commitTxn]).length
    split_ifs with hle
    exacts [hlen.trans_le hle, le_rfl]

/-- Whether a page is written by a flush of some pages. -/
def written (db : StdDbInstance) (maxLsn : ℕ) (pages : DataPageId → Bool) (id : DataPageId) :
    Bool :=
  (db.pool.dataPages id).any fun entry => pages id && entry.due DataPage.lastLsn maxLsn

/-- **A flush** writes pages that are seen and unmarks them. -/
theorem rowView_flushSome (maxLsn : ℕ) (pages : DataPageId → Bool) (files : IndexId → Bool)
    (db : StdDbInstance) :
    (flushSome maxLsn pages files db).rowView
      = db.rowView.writePages (db.written maxLsn pages) := by
  unfold rowView RowView.writePages
  congr 1
  · funext id
    unfold written page flushSome
    dsimp only
    cases db.pool.dataPages id with
    | none => rfl
    | some entry => rfl
  · funext id
    unfold page flushSome
    cases hpool : db.pool.dataPages id with
    | none =>
      simp only [hpool, Option.map_none]
      unfold readDataPage
      simp only [hpool]
    | some entry =>
      simp only [hpool, Option.map_some]
      split_ifs <;> rfl
  · funext id
    unfold dirtyPage written flushSome
    cases hpool : db.pool.dataPages id with
    | none => simp [hpool]
    | some entry =>
      simp only [hpool, Option.map_some, Option.any_some, Option.getD_some]
      split_ifs <;> rfl

end StdDbInstance
