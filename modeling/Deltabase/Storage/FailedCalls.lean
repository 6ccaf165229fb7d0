import Deltabase.Storage.RowIds

/-!
# What a failed call leaves behind

A unique index can refuse a row. `insert_row` has then already advanced the
table's counters and may have added a page and entries to other indexes;
`update_row` has in addition marked the old version and appended the new one.
Nothing takes any of this back. Recovery would undo the transaction of the
statement at the next start, but the instance goes on with what is left behind.

`SameTable` is what a caller might expect, that the table is as it was. It never
is: a row is given its id before the indexes are asked, so `last_rid` has always
moved.
-/

/-- The entries of an index file. -/
def IndexFile.entries (file : IndexFile) : List (DataToken × RowPtr) :=
  file.pages.flatMap fun page => match page.data with
    | .leaf node => node.keys.zip node.rows
    | .internal _ => []

namespace StdDbInstance

open RowView

/-- **A table is as it was**: its metadata, the list of its pages, their links
and rows, and the entries of its indexes. -/
structure SameTable (tableId : TableId) (db db' : StdDbInstance) : Prop where
  entry : db'.rowView.entry tableId = db.rowView.entry tableId
  pageIds : db'.pageIds tableId = db.pageIds tableId
  pages : ∀ id ∈ db.pageIds tableId, (db'.page id).map (fun p => (p.next, p.rows))
    = (db.page id).map fun p => (p.next, p.rows)
  indexes : ∀ mt, db.rowView.entry tableId = some mt → ∀ mi ∈ mt.indexes,
    (db'.indexFile mi.id).map IndexFile.entries = (db.indexFile mi.id).map IndexFile.entries

/-- A table whose `last_rid` has moved is not as it was. -/
theorem not_sameTable {tableId : TableId} {db db' : StdDbInstance} {mt mt' : MetaTable}
    (hmt : db.rowView.entry tableId = some mt) (hmt' : db'.rowView.entry tableId = some mt')
    (hlt : mt.lastRid < mt'.lastRid) : ¬ SameTable tableId db db' := by
  intro h
  rw [h.entry, hmt] at hmt'
  rw [Option.some.inj hmt'] at hlt
  exact lt_irrefl _ hlt

end StdDbInstance

namespace RowView

variable {v v' : RowView}

/-- An update in which a row throws has moved `last_rid`. -/
theorem PagesThrow.lastRid_lt {update : RowUpdate} {unchangedMt mt : MetaTable} {rowIds : List ℕ}
    {pageIds : List DataPageId} (hentry : v.entry mt.id = some mt)
    (h : PagesThrow (Updates update unchangedMt) (UpdateThrows update unchangedMt) rowIds pageIds
      v mt v') : ∃ mt', v'.entry mt.id = some mt' ∧ mt.lastRid < mt'.lastRid := by
  -- as long as rows are updated the counter only goes up
  have hrow : ∀ pageId i row (s s' : LoopState), Updates update unchangedMt pageId i row s s' →
      (s.1.entry mt.id = some s.2.mt ∧ s.2.mt.id = mt.id ∧ mt.lastRid ≤ s.2.mt.lastRid) →
      s'.1.entry mt.id = some s'.2.mt ∧ s'.2.mt.id = mt.id ∧ mt.lastRid ≤ s'.2.mt.lastRid := by
    rintro pageId i row s s' hupdate ⟨_, hid, hle⟩
    cases hupdate with
    | intro _ => exact ⟨(entry_replaced _ _ _ _ _ _ _ _).trans (if_pos hid), hid,
        hle.trans (Nat.le_succ _)⟩
  obtain ⟨done, pageId, rest, w, mtw, p, _, hdone, _, hthrow⟩ := h
  obtain ⟨done', i, rest', row, t, _, hvisits, _, hfail⟩ := hthrow
  have hw := hdone.preserves
    (P := fun w mw => w.entry mt.id = some mw ∧ mw.id = mt.id ∧ mt.lastRid ≤ mw.lastRid)
    (fun pageId _ i row s s' _ => hrow pageId i row s s')
    (fun pageId s hs => by rw [entry_leave]; exact hs) ⟨hentry, rfl, le_rfl⟩
  obtain ⟨_, hid, hle⟩ := hvisits.preserves
    (P := fun w mw => w.entry mt.id = some mw ∧ mw.id = mt.id ∧ mt.lastRid ≤ mw.lastRid)
    (fun i row s s' _ => hrow pageId i row s s') hw
  cases hfail with
  | @assignment w loop e _ =>
    exact ⟨numbered loop.mt, (entry_superseded _ _ _ _ _).trans (if_pos hid),
      Nat.lt_succ_of_le hle⟩
  | @index w loop tokens _ =>
    exact ⟨counted loop.mt, (entry_replaced _ _ _ _ _ _ _ _).trans (if_pos hid),
      Nat.lt_succ_of_le hle⟩

end RowView

open StdDbInstance in
/-- **A call that a unique index refuses has moved `last_rid`.** -/
theorem RowCall.lastRid_lt_of_violation {c : RowCall} {db db' : StdDbInstance}
    {constraint : Bytes} (hactive : db.txn.state = .active) (hok : db.rowView.Ok)
    (hrun : c.run db = .error (.uniqueConstraintViolation constraint) db') :
    ∃ mt mt', LooksUp db c.tableName c.schemaName mt ∧ db'.rowView.entry mt.id = some mt'
      ∧ mt.lastRid < mt'.lastRid := by
  unfold RowCall.run at hrun
  cases hop : c.op with
  | insert cols row =>
    rw [hop] at hrun
    rcases (ensures_insertRow hactive hok _ _ cols row).of_error hrun with h | ⟨mt, hlook, h⟩
    · cases h.1
    refine ⟨mt, (mt.makeRow cols row).2, hlook, ?_, Nat.lt_succ_self _⟩
    have hsaved : ((db.rowView.save (mt.makeRow cols row).2)).entry mt.id
        = some (mt.makeRow cols row).2 := (RowView.entry_save _ _ _).trans (if_pos rfl)
    rcases h with h | ⟨id, h⟩
    · rw [h]
      exact hsaved
    · rw [(h.spec ((RowView.keeps_save _ _).ok hok)).2.2.2]
      exact hsaved
  | update update rows =>
    rw [hop] at hrun
    rcases (ensures_updateRow hactive hok _ _ update rows).of_error hrun with h | ⟨mt, hlook, h⟩
    · cases h.1
    obtain ⟨mt', hentry, hlt⟩ := h.lastRid_lt hlook.entry
    exact ⟨mt, mt', hlook, hentry, hlt⟩
  | delete rows =>
    rw [hop] at hrun
    have h := (ensures_deleteRows hactive hok _ _ rows).of_error hrun
    cases h.1

open StdDbInstance in
/-- **A call that a unique index refuses never leaves its table as it was.** -/
theorem not_sameTable_of_violation {c : RowCall} {db db' : StdDbInstance} {constraint : Bytes}
    (hactive : db.txn.state = .active) (hok : db.rowView.Ok)
    (hrun : c.run db = .error (.uniqueConstraintViolation constraint) db') :
    ∃ mt, LooksUp db c.tableName c.schemaName mt ∧ ¬ SameTable mt.id db db' := by
  obtain ⟨mt, mt', hlook, hentry, hlt⟩ := RowCall.lastRid_lt_of_violation hactive hok hrun
  exact ⟨mt, hlook, not_sameTable hlook.entry hentry hlt⟩

/-! ## A table with a unique index -/

/-- The table of one column with a unique index on it, which is empty. -/
def oneIndexed : StdDbInstance :=
  { oneTable with
    pool :=
      { indexFiles := fun id => if id = 4 then some { value := IndexFile.create 4 } else none
        indexFilesPerTable := fun id => if id = 2 then some [4] else none }
    catalog :=
      { schemas := [{ id := 1, name := [115], dbName := [100] }]
        tables :=
          [{ id := 2, schemaId := 1, name := [116],
             columns := [{ id := 3, tableId := 2, name := [97], type := .integer }]
             indexes := [{ id := 4, tableId := 2, columnId := 3, name := [105], keyType := .integer,
                           isUnique := true }] }]
        tables_nodup := by simp
        schemas_nodup := List.pairwise_singleton _ 1 } }

theorem freshTable_oneIndexed : FreshTable oneIndexed 2 where
  ok :=
    { named := fun _ _ h => by cases h
      older := fun _ _ h => by cases h
      clock_pos := by decide
      listed := fun _ _ h => by cases h
      nodup := fun _ => List.nodup_nil }
  entry := ⟨_, rfl, rfl⟩
  pages := rfl

/-- The row is there once. -/
theorem ok_insertOne_oneIndexed : (insertOne.after oneIndexed).rowView.Ok := by
  have hstep : RowCall.Succeeds 2 oneIndexed (insertOne, .appends) (insertOne.after oneIndexed) :=
    RowCall.succeeds_of_returns (by decide +kernel) (by decide +kernel)
  exact (freshTable_oneIndexed.tracked.step hstep).1

/-- Whether a call is refused by a unique index. -/
def RowCall.refused (c : RowCall) (db : StdDbInstance) : Bool :=
  match c.run db with
  | .error (.uniqueConstraintViolation _) _ => true
  | _ => false

theorem RowCall.run_of_refused {c : RowCall} {db : StdDbInstance} (h : c.refused db = true) :
    ∃ constraint, c.run db = .error (.uniqueConstraintViolation constraint) (c.after db) := by
  unfold RowCall.refused at h
  unfold RowCall.after
  split at h
  · rename_i constraint db' hrun
    exact ⟨constraint, by rw [hrun]⟩
  · cases h

/-- The same value again is refused, and the table has changed. -/
theorem not_sameTable_insertOne_twice :
    ¬ StdDbInstance.SameTable 2 (insertOne.after oneIndexed)
      (insertOne.after (insertOne.after oneIndexed)) := by
  obtain ⟨constraint, hrun⟩ :=
    RowCall.run_of_refused (c := insertOne)
      (show insertOne.refused (insertOne.after oneIndexed) = true by
      decide +kernel)
  obtain ⟨mt, hlook, hnot⟩ := not_sameTable_of_violation (by decide +kernel)
    ok_insertOne_oneIndexed hrun
  have hid : mt.id = 2 := by
    have htable : insertOne.table (insertOne.after oneIndexed) = some mt := by
      obtain ⟨ms, hschema, htable⟩ := hlook
      unfold RowCall.table
      rw [hschema]
      exact htable
    have hids : (insertOne.table (insertOne.after oneIndexed)).map MetaTable.id = some 2 := by
      decide +kernel
    rw [htable] at hids
    exact Option.some.inj hids
  rwa [hid] at hnot

/-- **A failed insert leaves traces.** -/
theorem violation_changes_table :
    ¬ ∀ (c : RowCall) (db db' : StdDbInstance) (constraint : Bytes) (mt : MetaTable),
      db.txn.state = .active → db.rowView.Ok →
      StdDbInstance.LooksUp db c.tableName c.schemaName mt →
      c.run db = .error (.uniqueConstraintViolation constraint) db' →
      StdDbInstance.SameTable mt.id db db' := by
  intro h
  obtain ⟨constraint, hrun⟩ :=
    RowCall.run_of_refused (c := insertOne)
      (show insertOne.refused (insertOne.after oneIndexed) = true by
      decide +kernel)
  obtain ⟨mt, mt', hlook, hentry, hlt⟩ := RowCall.lastRid_lt_of_violation (by decide +kernel)
    ok_insertOne_oneIndexed hrun
  exact StdDbInstance.not_sameTable hlook.entry hentry hlt
    (h insertOne _ _ constraint mt (by decide +kernel) ok_insertOne_oneIndexed hlook hrun)
