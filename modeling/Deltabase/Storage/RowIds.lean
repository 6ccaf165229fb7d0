import Deltabase.Lib.Transition
import Deltabase.Storage.TableRows

/-!
# Row ids

Redo, undo, indexes, updates and deletes all select a row by its id, so a
table's row versions should have distinct ids. `insert_row` gives a new row the
value of `last_rid` *before* it is advanced, `update_row` gives a new version
the value *after*. Each is fine by itself. After an update has rewritten a row,
`last_rid` is the id of a row that is there, and the next insert gives it out
again.

A run of calls is therefore in one of three phases, and `Phase.Ids` says what
the ids look like in each. The ids are distinct exactly as long as no insert follows
an update that rewrote a row.
-/

/-- The operations on the rows of a table. -/
inductive RowOp where
  | insert (cols : Option (List Bytes)) (row : List DataToken)
  | update (update : RowUpdate) (rows : List DataRow)
  | delete (rows : List DataRow)

/-- A call of one of the operations. -/
structure RowCall where
  tableName : Bytes
  schemaName : Bytes
  op : RowOp

namespace RowCall

/-- What is executed. -/
def run (c : RowCall) : Prog Unit :=
  match c.op with
  | .insert cols row => StdDbInstance.insertRow c.tableName c.schemaName cols row
  | .update update rows => StdDbInstance.updateRow c.tableName c.schemaName update rows
  | .delete rows => StdDbInstance.deleteRows c.tableName c.schemaName rows

/-- What a call means for the row ids of a table. -/
inductive Effect where
  | appends
  | rewrites
  | neither
  deriving DecidableEq

/-- The table a call is about. -/
def table (c : RowCall) (db : StdDbInstance) : Option MetaTable :=
  (db.catalog.getSchema c.schemaName).bind fun ms => db.catalog.getTable c.tableName ms.id

/-- What an operation on a table with these rows means for the row ids: an
insert appends a row, and an update rewrites rows when one of those it is given
is there and not obsolete. -/
def opEffect (tableRows : List DataRow) : RowOp → Effect
  | .insert _ _ => .appends
  | .update _ rows =>
    if tableRows.any fun row => decide (row.id ∈ rows.map DataRow.id) && !row.obsolete
    then .rewrites else .neither
  | .delete _ => .neither

/-- **What a call means for the row ids of a table**, in the state before it. -/
def effect (c : RowCall) (db : StdDbInstance) (tableId : TableId) : Effect :=
  if (c.table db).map MetaTable.id = some tableId then opEffect (db.tableRows tableId) c.op
  else .neither

/-- **A call that succeeds**, in a transaction that is active, together with
what it means for the row ids of a table. -/
def Succeeds (tableId : TableId) (db : StdDbInstance) (l : RowCall × Effect)
    (db' : StdDbInstance) : Prop :=
  l.2 = l.1.effect db tableId
    ∧ ∃ txn : Transaction, txn.state = .active ∧ l.1.run { db with txn := txn } = .ok () db'

end RowCall

/-- **A table that has just been created**: it has no pages, and no row id has
been given out. -/
structure FreshTable (db : StdDbInstance) (tableId : TableId) : Prop where
  ok : db.rowView.Ok
  entry : ∃ mt, db.rowView.entry tableId = some mt ∧ mt.lastRid = 0
  pages : db.pageIds tableId = []

/-! ## Phases -/

/-- The phases of a run. -/
inductive Phase where
  /-- Every id is below `last_rid`. -/
  | fresh
  /-- `last_rid` is an id. -/
  | rewritten
  /-- Two rows have the same id. -/
  | repeated
  deriving DecidableEq

/-- How a call changes the phase. -/
def Phase.next : Phase → RowCall.Effect → Phase
  | .fresh, .rewrites => .rewritten
  | .rewritten, .appends => .repeated
  | phase, _ => phase

/-- **What the ids look like** in a phase. -/
def Phase.Ids (phase : Phase) (ids : List ℕ) (lastRid : ℕ) : Prop :=
  match phase with
  | .fresh => ids.Nodup ∧ ∀ id ∈ ids, id < lastRid
  | .rewritten => ids.Nodup ∧ (∀ id ∈ ids, id ≤ lastRid) ∧ lastRid ∈ ids
  | .repeated => ¬ ids.Nodup

theorem Phase.Ids.nodup_iff {phase : Phase} {ids : List ℕ} {lastRid : ℕ}
    (h : phase.Ids ids lastRid) : ids.Nodup ↔ phase ≠ .repeated := by
  cases phase with
  | fresh => exact ⟨fun _ h => Phase.noConfusion h, fun _ => h.1⟩
  | rewritten => exact ⟨fun _ h => Phase.noConfusion h, fun _ => h.1⟩
  | repeated => exact ⟨fun hn => absurd hn h, fun hne => absurd rfl hne⟩

/-- A row that gets the id `last_rid`, as an insert does it. -/
theorem Phase.Ids.append {phase : Phase} {ids ids' : List ℕ} {lastRid : ℕ}
    (h : phase.Ids ids lastRid) (hperm : ids'.Perm (lastRid :: ids)) :
    (phase.next .appends).Ids ids' (lastRid + 1) := by
  cases phase with
  | fresh =>
    refine ⟨hperm.nodup_iff.mpr (List.nodup_cons.mpr ⟨fun hin => (h.2 _ hin).false, h.1⟩),
      fun id hid => ?_⟩
    rcases List.mem_cons.mp (hperm.mem_iff.mp hid) with rfl | hid
    · exact Nat.lt_succ_self _
    · exact (h.2 id hid).trans (Nat.lt_succ_self _)
  | rewritten => exact fun hn => (List.nodup_cons.mp (hperm.nodup_iff.mp hn)).1 h.2.2
  | repeated => exact fun hn => h (List.nodup_cons.mp (hperm.nodup_iff.mp hn)).2

/-- A row that gets the id after `last_rid`, as an update does it. -/
theorem Phase.Ids.rewrite {phase : Phase} {ids ids' : List ℕ} {lastRid : ℕ}
    (h : phase.Ids ids lastRid) (hperm : ids'.Perm ((lastRid + 1) :: ids)) :
    (phase.next .rewrites).Ids ids' (lastRid + 1) := by
  have hle : phase ≠ .repeated → ids.Nodup ∧ ∀ id ∈ ids, id ≤ lastRid := by
    intro hne
    cases phase with
    | fresh => exact ⟨h.1, fun id hid => (h.2 id hid).le⟩
    | rewritten => exact ⟨h.1, h.2.1⟩
    | repeated => exact absurd rfl hne
  have hgood : phase ≠ .repeated → Phase.Ids .rewritten ids' (lastRid + 1) := by
    intro hne
    obtain ⟨hnodup, hle⟩ := hle hne
    refine ⟨hperm.nodup_iff.mpr (List.nodup_cons.mpr
      ⟨fun hin => Nat.not_succ_le_self _ (hle _ hin), hnodup⟩), fun id hid => ?_,
      hperm.mem_iff.mpr List.mem_cons_self⟩
    rcases List.mem_cons.mp (hperm.mem_iff.mp hid) with rfl | hid
    · exact le_rfl
    · exact (hle id hid).trans (Nat.le_succ _)
  cases phase with
  | fresh => exact hgood (by simp)
  | rewritten => exact hgood (by simp)
  | repeated => exact fun hn => h (List.nodup_cons.mp (hperm.nodup_iff.mp hn)).2

/-- Rewriting twice is rewriting once. -/
theorem Phase.next_rewrites_rewrites (phase : Phase) :
    (phase.next .rewrites).next .rewrites = phase.next .rewrites := by
  cases phase <;> rfl

/-- The phase at the end of a run. -/
theorem Phase.foldl_next_ne_repeated (effects : List RowCall.Effect) :
    (effects.foldl Phase.next .fresh ≠ .repeated
        ↔ effects.Pairwise fun a b => a = .rewrites → b ≠ .appends)
      ∧ (effects.foldl Phase.next .rewritten ≠ .repeated ↔ .appends ∉ effects)
      ∧ effects.foldl Phase.next .repeated = .repeated := by
  induction effects with
  | nil => exact ⟨by simp, by simp, rfl⟩
  | cons e effects ih =>
    obtain ⟨hfresh, hrewritten, hrepeated⟩ := ih
    simp only [List.foldl_cons, List.pairwise_cons, List.mem_cons]
    cases e with
    | appends => exact ⟨by simpa [Phase.next] using hfresh, by simp [Phase.next, hrepeated],
        hrepeated⟩
    | rewrites =>
      refine ⟨?_, by simpa [Phase.next] using hrewritten, hrepeated⟩
      show effects.foldl Phase.next .rewritten ≠ .repeated ↔ _
      rw [hrewritten]
      constructor
      · refine fun h => ⟨fun b hb _ heq => h (heq ▸ hb), ?_⟩
        exact List.pairwise_of_forall_mem_list fun a _ b hb _ heq => h (heq ▸ hb)
      · exact fun h hin => h.1 _ hin rfl rfl
    | neither => exact ⟨by simpa [Phase.next] using hfresh, by simpa [Phase.next] using hrewritten,
        hrepeated⟩

/-! ## One call -/

namespace RowView

variable {v v' : RowView}

/-- **One row of an update** gives out the next id. -/
theorem Updates.ids {update : RowUpdate} {unchangedMt : MetaTable} {pageId : DataPageId} {i : ℕ}
    {row : DataRow} {s s' : LoopState} {rowIds : List ℕ}
    (h : Updates update unchangedMt pageId i row s s') (hok : s.1.Ok)
    (htarget : Target s.1 rowIds pageId i row) (hmem : pageId ∈ s.1.ids s.2.mt.id) :
    ((s'.1.rows s.2.mt.id).map DataRow.id).Perm
        ((s.2.mt.lastRid + 1) :: (s.1.rows s.2.mt.id).map DataRow.id)
      ∧ s'.2.mt = counted s.2.mt ∧ s'.1.entry s.2.mt.id = some s'.2.mt := by
  obtain ⟨p, hpage, hrow, _⟩ := htarget
  cases h with
  | @intro v loop tokens hassign =>
    refine ⟨?_, rfl, ?_⟩
    · obtain ⟨mid, hmark, hadd⟩ := replaced_rows hok
        { row with id := loop.mt.lastRid + 1, tokens := tokens } unchangedMt loop.mt hmem hpage hrow
      refine (hadd.perm.map DataRow.id).trans ?_
      rw [List.map_cons, hmark.map_id]
    · rw [entry_replaced, if_pos rfl]

/-- **An update** of the table whose ids are looked at. -/
theorem ids_of_updated {update : RowUpdate} {unchangedMt mt mt' : MetaTable} {rowIds : List ℕ}
    {phase : Phase} (hok : v.Ok) (hentry : v.entry mt.id = some mt)
    (h : PagesVisited (Updates update unchangedMt) rowIds (v.ids mt.id) v mt v' mt')
    (hids : phase.Ids ((v.rows mt.id).map DataRow.id) mt.lastRid)
    (hsome : ∃ row ∈ v.rows mt.id, row.id ∈ rowIds ∧ row.obsolete = false) :
    v'.entry mt.id = some mt'
      ∧ (phase.next .rewrites).Ids ((v'.rows mt.id).map DataRow.id) mt'.lastRid := by
  refine (And.imp_left (fun hI => hI.2.2.1) <| h.reaches
    (I := fun w mw => Keeps v w ∧ mw.id = mt.id ∧ w.entry mt.id = some mw
      ∧ (phase.Ids ((w.rows mt.id).map DataRow.id) mw.lastRid
        ∨ (phase.next .rewrites).Ids ((w.rows mt.id).map DataRow.id) mw.lastRid))
    (P := fun w mw => (phase.next .rewrites).Ids ((w.rows mt.id).map DataRow.id) mw.lastRid)
    (fun pageId hmem i row s s' htarget hupdate ⟨hkeeps, hid, hentry, hids⟩ => ?_)
    (fun pageId s ⟨⟨hkeeps, hid, hentry, hids⟩, hrewritten⟩ => ?_)
    ((exists_target_iff hok).mpr hsome) ⟨.refl v, rfl, hentry, .inl hids⟩)
  · obtain ⟨hperm, hmt, hentry'⟩ := hupdate.ids (hkeeps.ok hok) htarget
      (by rw [hid, hkeeps.ids]; exact hmem)
    rw [hid] at hperm hentry'
    have hnext : (phase.next .rewrites).Ids ((s'.1.rows mt.id).map DataRow.id) s'.2.mt.lastRid := by
      rw [hmt]
      rcases hids with hids | hids
      · exact hids.rewrite hperm
      · rw [← phase.next_rewrites_rewrites]
        exact hids.rewrite hperm
    exact ⟨⟨hkeeps.trans hupdate.keeps, by rw [hmt]; exact hid, hentry', .inr hnext⟩, hnext⟩
  · rw [entry_leave, rows_leave]
    exact ⟨⟨hkeeps.trans (keeps_leave pageId s), hid, hentry, hids⟩, hrewritten⟩

/-- A delete keeps the ids and `last_rid`. -/
theorem ids_of_deleted {unchangedMt mt mt' : MetaTable} {rowIds : List ℕ} (hok : v.Ok)
    (hentry : v.entry mt.id = some mt)
    (h : PagesVisited (Deletes unchangedMt) rowIds (v.ids mt.id) v mt v' mt') :
    v'.entry mt.id = some mt' ∧ mt'.lastRid = mt.lastRid
      ∧ (v'.rows mt.id).map DataRow.id = (v.rows mt.id).map DataRow.id := by
  refine And.right <| And.right <| h.preserves
    (P := fun w mw => Keeps v w ∧ mw.id = mt.id ∧ w.entry mt.id = some mw
      ∧ mw.lastRid = mt.lastRid
      ∧ (w.rows mt.id).map DataRow.id = (v.rows mt.id).map DataRow.id)
    (fun pageId hmem i row s s' htarget hdelete ⟨hkeeps, hid, hentry, hrid, hrows⟩ => ?_)
    (fun pageId s ⟨hkeeps, hid, hentry, hrid, hrows⟩ => ?_) ⟨.refl v, rfl, hentry, rfl, rfl⟩
  · have hkeeps' := hkeeps.trans hdelete.keeps
    obtain ⟨p, hpage, hrow, _⟩ := htarget
    cases hdelete with
    | @intro w loop =>
      refine ⟨hkeeps', hid, ?_, hrid, ?_⟩
      · show (w.superseded pageId i (discounted loop.mt)).entry mt.id = some (discounted loop.mt)
        rw [entry_superseded]
        exact if_pos hid
      · rw [← hrows]
        exact (marked_superseded (hkeeps.ok hok) (discounted loop.mt)
          (hkeeps.ids ▸ hmem) hpage hrow).map_id
  · rw [entry_leave, rows_leave]
    exact ⟨hkeeps.trans (keeps_leave pageId s), hid, hentry, hrid, hrows⟩

/-- **Another table is left alone** by the loops over the rows of one. -/
theorem PagesVisited.frame {R : DataPageId → ℕ → DataRow → LoopState → LoopState → Prop}
    {rowIds : List ℕ} {mt mt' : MetaTable} {t : TableId} (hok : v.Ok)
    (h : PagesVisited R rowIds (v.ids mt.id) v mt v' mt') (ht : t ≠ mt.id)
    (hR : ∀ pageId i row s s', pageId ∉ s.1.ids t → s.2.mt.id ≠ t → R pageId i row s s' →
      Keeps s.1 s'.1 ∧ s'.2.mt.id = s.2.mt.id ∧ s'.1.entry t = s.1.entry t
        ∧ s'.1.rows t = s.1.rows t) :
    v'.entry t = v.entry t ∧ v'.rows t = v.rows t := by
  refine And.right <| And.right <| h.preserves
    (P := fun w mw => Keeps v w ∧ mw.id = mt.id ∧ w.entry t = v.entry t ∧ w.rows t = v.rows t)
    (fun pageId hmem i row s s' _ hrow ⟨hkeeps, hid, hentry, hrows⟩ => ?_)
    (fun pageId s ⟨hkeeps, hid, hentry, hrows⟩ => ?_) ⟨.refl v, rfl, rfl, rfl⟩
  · have hnot : pageId ∉ s.1.ids t := by
      rw [hkeeps.ids]
      exact fun h => ht (hok.table_eq h hmem)
    obtain ⟨hkeeps', hid', hentry', hrows'⟩ :=
      hR pageId i row s s' hnot (by rw [hid]; exact ht.symm)
      hrow
    exact ⟨hkeeps.trans hkeeps', hid'.trans hid, hentry'.trans hentry, hrows'.trans hrows⟩
  · rw [entry_leave, rows_leave]
    exact ⟨hkeeps.trans (keeps_leave pageId s), hid, hentry, hrows⟩

theorem Updates.frame {update : RowUpdate} {unchangedMt : MetaTable} {t : TableId}
    (pageId : DataPageId) (i : ℕ) (row : DataRow) (s s' : LoopState) (hnot : pageId ∉ s.1.ids t)
    (hid : s.2.mt.id ≠ t) (h : Updates update unchangedMt pageId i row s s') :
    Keeps s.1 s'.1 ∧ s'.2.mt.id = s.2.mt.id ∧ s'.1.entry t = s.1.entry t
      ∧ s'.1.rows t = s.1.rows t := by
  refine ⟨h.keeps, ?_⟩
  cases h with
  | @intro w loop tokens _ =>
    refine ⟨rfl, ?_, replaced_rows_of_not_mem _ _ _ _ _ hnot⟩
    rw [entry_replaced]
    exact if_neg hid

theorem Deletes.frame {unchangedMt : MetaTable} {t : TableId}
    (pageId : DataPageId) (i : ℕ) (row : DataRow) (s s' : LoopState) (hnot : pageId ∉ s.1.ids t)
    (hid : s.2.mt.id ≠ t) (h : Deletes unchangedMt pageId i row s s') :
    Keeps s.1 s'.1 ∧ s'.2.mt.id = s.2.mt.id ∧ s'.1.entry t = s.1.entry t
      ∧ s'.1.rows t = s.1.rows t := by
  refine ⟨h.keeps, ?_⟩
  cases h with
  | @intro w loop =>
    refine ⟨rfl, ?_, superseded_rows_of_not_mem i (discounted loop.mt) hnot⟩
    show (w.superseded pageId i (discounted loop.mt)).entry t = _
    rw [entry_superseded]
    exact if_neg hid

end RowView

section Tracking

open StdDbInstance RowView

/-- A call is about the table that its operation looks up. -/
theorem RowCall.effect_of_looksUp {c : RowCall} {db : StdDbInstance} {mt : MetaTable}
    (h : LooksUp db c.tableName c.schemaName mt) (tableId : TableId) :
    c.effect db tableId
      = if mt.id = tableId then RowCall.opEffect (db.tableRows tableId) c.op else .neither := by
  obtain ⟨ms, hschema, htable⟩ := h
  have heq : c.table db = some mt := by
    unfold RowCall.table
    rw [hschema]
    exact htable
  unfold RowCall.effect
  rw [heq]
  simp

/-- An update rewrites when it is given a row that is there and not obsolete. -/
theorem RowCall.opEffect_update (tableRows : List DataRow) (update : RowUpdate)
    (rows : List DataRow) : RowCall.opEffect tableRows (.update update rows)
      = if ∃ row ∈ tableRows, row.id ∈ rows.map DataRow.id ∧ row.obsolete = false
        then .rewrites else .neither := by
  unfold RowCall.opEffect
  refine if_congr ?_ rfl rfl
  simp [List.any_eq_true]

/-- The ids of a table are as they are in a phase. -/
def Tracked (tableId : TableId) (phase : Phase) (v : RowView) : Prop :=
  v.Ok ∧ ∃ mt, v.entry tableId = some mt
    ∧ phase.Ids ((v.rows tableId).map DataRow.id) mt.lastRid

/-- A call that leaves a table alone leaves its ids alone. -/
theorem Tracked.of_frame {tableId : TableId} {phase : Phase} {v v' : RowView}
    (h : Tracked tableId phase v) (hok : v'.Ok) (hentry : v'.entry tableId = v.entry tableId)
    (hrows : v'.rows tableId = v.rows tableId) : Tracked tableId phase v' := by
  obtain ⟨_, mt, hmt, hids⟩ := h
  exact ⟨hok, mt, hentry.trans hmt, hrows ▸ hids⟩

section Calls

variable {tableId : TableId} {phase : Phase} {db db' : StdDbInstance} {tableName schemaName : Bytes}

/-- **An insert** that succeeds. -/
theorem Tracked.insert (h : Tracked tableId phase db.rowView) (hactive : db.txn.state = .active)
    {cols : Option (List Bytes)} {row : List DataToken}
    (hrun : insertRow tableName schemaName cols row db = .ok () db') :
    ∃ mt, LooksUp db tableName schemaName mt
      ∧ Tracked tableId (if mt.id = tableId then phase.next .appends else phase) db'.rowView := by
  obtain ⟨hok, mt', hentry, hids⟩ := h
  obtain ⟨mt, hlook, hmake⟩ := (ensures_insertRow hactive hok tableName schemaName cols row).of_ok
    hrun
  obtain ⟨⟨id, v, hprep, hview⟩, _⟩ := hmake
  obtain ⟨hok', hadd, hother, hentries⟩ := hprep.inserted hok (mt.makeRow cols row).1 mt
  refine ⟨mt, hlook, ?_⟩
  rw [hview]
  split_ifs with hid
  · obtain rfl := hid
    obtain rfl : mt' = mt := Option.some.inj (hentry.symm.trans hlook.entry)
    refine ⟨hok', _, (hentries mt'.id).trans (if_pos rfl), ?_⟩
    refine hids.append ?_
    exact hadd.perm.map DataRow.id
  · exact Tracked.of_frame ⟨hok, mt', hentry, hids⟩ hok' ((hentries tableId).trans (if_neg hid))
      (hother tableId fun heq => hid heq.symm)

/-- **An update** that succeeds. -/
theorem Tracked.update (h : Tracked tableId phase db.rowView) (hactive : db.txn.state = .active)
    {update : RowUpdate} {rows : List DataRow}
    (hrun : updateRow tableName schemaName update rows db = .ok () db') :
    ∃ mt, LooksUp db tableName schemaName mt
      ∧ Tracked tableId (if mt.id = tableId
          ∧ (∃ row ∈ db.tableRows tableId, row.id ∈ rows.map DataRow.id ∧ row.obsolete = false)
        then phase.next .rewrites else phase) db'.rowView := by
  obtain ⟨hok, mt', hentry, hids⟩ := h
  obtain ⟨mt, mt'', hlook, hpages⟩ :=
    (ensures_updateRow hactive hok tableName schemaName update rows).of_ok hrun
  have hok' := (hpages.keeps fun _ _ _ _ _ h => h.keeps).ok hok
  refine ⟨mt, hlook, ?_⟩
  by_cases hid : mt.id = tableId
  · obtain rfl := hid
    obtain rfl : mt' = mt := Option.some.inj (hentry.symm.trans hlook.entry)
    split_ifs with hsome
    · obtain ⟨hentry', hids'⟩ := ids_of_updated hok hentry hpages hids hsome.2
      exact ⟨hok', mt'', hentry', hids'⟩
    · obtain ⟨hview, _⟩ := hpages.eq_of_no_target fun pageId hmem i row htarget =>
        hsome ⟨rfl, (exists_target_iff hok).mp ⟨pageId, hmem, i, row, htarget⟩⟩
      rw [hview]
      exact ⟨hok, mt', hentry, hids⟩
  · rw [if_neg fun h => hid h.1]
    obtain ⟨hentry', hrows'⟩ := hpages.frame hok (fun heq => hid heq.symm) Updates.frame
    exact Tracked.of_frame ⟨hok, mt', hentry, hids⟩ hok' hentry' hrows'

/-- **A delete** that succeeds. -/
theorem Tracked.delete (h : Tracked tableId phase db.rowView) (hactive : db.txn.state = .active)
    {rows : List DataRow} (hrun : deleteRows tableName schemaName rows db = .ok () db') :
    Tracked tableId phase db'.rowView := by
  obtain ⟨hok, mt', hentry, hids⟩ := h
  obtain ⟨mt, mt'', hlook, hpages⟩ :=
    (ensures_deleteRows hactive hok tableName schemaName rows).of_ok hrun
  have hok' := (hpages.keeps fun _ _ _ _ _ h => h.keeps).ok hok
  by_cases hid : mt.id = tableId
  · obtain rfl := hid
    obtain rfl : mt' = mt := Option.some.inj (hentry.symm.trans hlook.entry)
    obtain ⟨hentry', hrid, hrows⟩ := ids_of_deleted hok hentry hpages
    refine ⟨hok', mt'', hentry', ?_⟩
    rw [hrows, hrid]
    exact hids
  · obtain ⟨hentry', hrows'⟩ := hpages.frame hok (fun heq => hid heq.symm) Deletes.frame
    exact Tracked.of_frame ⟨hok, mt', hentry, hids⟩ hok' hentry' hrows'

end Calls

/-- **One call** moves a table to the next phase. -/
theorem Tracked.step {tableId : TableId} {phase : Phase} {db db' : StdDbInstance}
    {l : RowCall × RowCall.Effect} (h : Tracked tableId phase db.rowView)
    (hstep : RowCall.Succeeds tableId db l db') :
    Tracked tableId (phase.next l.2) db'.rowView := by
  obtain ⟨heffect, txn, hactive, hrun⟩ := hstep
  obtain ⟨c, e⟩ := l
  have hstart : Tracked tableId phase ({ db with txn := txn } : StdDbInstance).rowView :=
    ⟨⟨h.1.named, h.1.older, h.1.clock_pos, h.1.listed, h.1.nodup⟩, h.2⟩
  have hnext : phase.next .neither = phase := by cases phase <;> rfl
  change e = c.effect db tableId at heffect
  change c.run _ = _ at hrun
  show Tracked tableId (phase.next e) db'.rowView
  unfold RowCall.run at hrun
  cases hop : c.op with
  | insert cols row =>
    rw [hop] at hrun
    obtain ⟨mt, hlook, htracked⟩ := hstart.insert hactive hrun
    have hlook : LooksUp db c.tableName c.schemaName mt := hlook
    rw [heffect, RowCall.effect_of_looksUp hlook, hop, apply_ite (Phase.next phase), hnext]
    exact htracked
  | update update rows =>
    rw [hop] at hrun
    obtain ⟨mt, hlook, htracked⟩ := hstart.update hactive hrun
    have hlook : LooksUp db c.tableName c.schemaName mt := hlook
    rw [heffect, RowCall.effect_of_looksUp hlook, hop, RowCall.opEffect_update,
      apply_ite (Phase.next phase), apply_ite (Phase.next phase), hnext]
    rw [ite_and] at htracked
    exact htracked
  | delete rows =>
    rw [hop] at hrun
    have hneither : e = .neither := by
      rw [heffect]
      unfold RowCall.effect
      rw [hop]
      split_ifs <;> rfl
    rw [hneither, hnext]
    exact hstart.delete hactive hrun

/-- **A run of calls** moves a table through the phases. -/
theorem Tracked.run {tableId : TableId} {phase : Phase} {db db' : StdDbInstance}
    {ls : List (RowCall × RowCall.Effect)} (h : Tracked tableId phase db.rowView)
    (hrun : Run (RowCall.Succeeds tableId) db ls db') :
    Tracked tableId ((ls.map Prod.snd).foldl Phase.next phase) db'.rowView := by
  induction hrun generalizing phase with
  | nil => exact h
  | cons hstep _ ih => exact ih (h.step hstep)

/-- A table that has just been created has no ids. -/
theorem FreshTable.tracked {tableId : TableId} {db : StdDbInstance} (h : FreshTable db tableId) :
    Tracked tableId .fresh db.rowView := by
  have hrows : db.rowView.rows tableId = [] := by
    show (db.pageIds tableId).flatMap _ = []
    rw [h.pages]
    rfl
  obtain ⟨mt, hentry, _⟩ := h.entry
  refine ⟨h.ok, mt, hentry, ?_⟩
  rw [hrows]
  exact ⟨List.nodup_nil, by simp⟩

/-- **Row ids are distinct exactly as long as no insert follows a rewrite.** In
every run of successful calls from a state in which a table has just been
created, the row versions of the table have distinct ids if and only if no
`insert_row` on it comes after an `update_row` that rewrote one of its rows. -/
theorem rowIds_nodup_iff {tableId : TableId} {db db' : StdDbInstance}
    {ls : List (RowCall × RowCall.Effect)} (hfresh : FreshTable db tableId)
    (hrun : Run (RowCall.Succeeds tableId) db ls db') :
    ((db'.tableRows tableId).map DataRow.id).Nodup
      ↔ (ls.map Prod.snd).Pairwise fun a b => a = .rewrites → b ≠ .appends := by
  obtain ⟨_, mt', _, hids⟩ := hfresh.tracked.run hrun
  rw [← (Phase.foldl_next_ne_repeated (ls.map Prod.snd)).1]
  exact hids.nodup_iff

end Tracking

/-! ## A table of one column -/

/-- An instance with one table, which has just been created; its schema is on
disk. -/
def oneTable : StdDbInstance where
  io := { schemas := [{ id := 1, name := [115], dbName := [100] }] }
  catalog :=
    { schemas := [{ id := 1, name := [115], dbName := [100] }]
      tables := [{ id := 2, schemaId := 1, name := [116],
                   columns := [{ id := 3, tableId := 2, name := [97], type := .integer }] }]
      tables_nodup := by simp
      schemas_nodup := List.nodup_singleton 1 }
  txn := { id := 4, state := .active }
  clock := 5

theorem freshTable_oneTable : FreshTable oneTable 2 where
  ok :=
    { named := fun _ _ h => by cases h
      older := fun _ _ h => by cases h
      clock_pos := by decide
      listed := fun _ _ h => by cases h
      nodup := fun _ => List.nodup_nil }
  entry := ⟨_, rfl, rfl⟩
  pages := rfl

namespace RowCall

/-- The state after a call in the transaction at hand. -/
def after (c : RowCall) (db : StdDbInstance) : StdDbInstance :=
  match c.run db with
  | .ok _ db' => db'
  | .error _ db' => db'

/-- Whether a call succeeds in the transaction at hand. -/
def returns (c : RowCall) (db : StdDbInstance) : Bool :=
  match c.run db with
  | .ok _ _ => decide (db.txn.state = .active)
  | .error _ _ => false

theorem succeeds_of_returns {c : RowCall} {db : StdDbInstance} (h : c.returns db = true)
    {tableId : TableId} {e : Effect} (he : c.effect db tableId = e) :
    Succeeds tableId db (c, e) (c.after db) := by
  unfold returns at h
  unfold after
  refine ⟨he.symm, db.txn, ?_⟩
  show _ ∧ c.run db = _
  cases hrun : c.run db with
  | ok a db' =>
    rw [hrun] at h
    exact ⟨of_decide_eq_true h, rfl⟩
  | error e db' =>
    rw [hrun] at h
    cases h

end RowCall

/-- Inserting one value. -/
def insertOne : RowCall := ⟨[116], [115], .insert none [⟨[1, 0, 0, 0], .integer⟩]⟩

/-- Updating the first row without changing it. -/
def touchFirst : RowCall := ⟨[116], [115], .update [] [{ id := 0 }]⟩

/-- An insert and an update that rewrites its row. -/
theorem run_insert_touch :
    Run (RowCall.Succeeds 2) oneTable [(insertOne, .appends), (touchFirst, .rewrites)]
      (touchFirst.after (insertOne.after oneTable)) :=
  .cons (RowCall.succeeds_of_returns (by decide +kernel) (by decide +kernel))
    (.single (RowCall.succeeds_of_returns (by decide +kernel) (by decide +kernel)))

/-- **Ids repeat.** The insert after the update gives its row the id of the new
version. -/
theorem rowIds_not_nodup :
    ¬ ∀ (tableId : TableId) (db db' : StdDbInstance) (ls : List (RowCall × RowCall.Effect)),
      FreshTable db tableId → Run (RowCall.Succeeds tableId) db ls db' →
      ((db'.tableRows tableId).map DataRow.id).Nodup := by
  intro h
  have hrun := run_insert_touch.append
    (.single (RowCall.succeeds_of_returns (c := insertOne) (by decide +kernel) rfl))
  have hnodup := h 2 oneTable _ _ freshTable_oneTable hrun
  exact absurd hnodup (by decide +kernel)

/-- An insert followed by an update keeps the ids apart. -/
theorem rowIds_nodup_insert_touch :
    (((touchFirst.after (insertOne.after oneTable)).tableRows 2).map DataRow.id).Nodup :=
  (rowIds_nodup_iff freshTable_oneTable run_insert_touch).mpr (by decide)
