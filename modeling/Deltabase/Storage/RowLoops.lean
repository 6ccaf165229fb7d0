import Deltabase.Storage.RowOperations

/-!
# What the loops over rows do

`update_row` and `delete_rows` go through the pages of a table and, on each,
through the rows that were there when they came to the page; a row that is
among those they were given and not obsolete is changed. The two share their
loops and differ in what they do with a row.

`Visits` and `PagesVisited` are the loops as relations between views, for
whatever is done with a row: a relation for the case that it succeeds and one
for the case that it throws. The operations are then described by these
(`ensures_updateRow`, `ensures_deleteRows`), and what they preserve is shown by
going through the relations.
-/

namespace RowView

open StdDbInstance (PageLoop assignTokens decLiveRows)

/-! ## What stays -/

/-- **Pages stay where they are**: a step changes neither which pages there are,
nor to which table they belong, and no page loses rows. -/
structure Keeps (v v' : RowView) : Prop where
  pages : ∀ id, Option.Rel
    (fun p p' : DataPage => p'.id = p.id ∧ p'.tableId = p.tableId
      ∧ p.rows.length ≤ p'.rows.length) (v.page id) (v'.page id)
  lists : v'.lists = v.lists
  clock : v'.clock = v.clock
  state : v'.txn.state = v.txn.state

theorem Keeps.of_page_eq {v v' : RowView} (hpage : v'.page = v.page) (hlists : v'.lists = v.lists)
    (hclock : v'.clock = v.clock) (hstate : v'.txn.state = v.txn.state) : Keeps v v' := by
  refine ⟨fun id => ?_, hlists, hclock, hstate⟩
  rw [hpage]
  cases v.page id with
  | none => exact .none
  | some p => exact .some ⟨rfl, rfl, le_rfl⟩

theorem Keeps.refl (v : RowView) : Keeps v v := .of_page_eq rfl rfl rfl rfl

theorem Keeps.trans {v v' v'' : RowView} (h : Keeps v v') (h' : Keeps v' v'') : Keeps v v'' := by
  refine ⟨fun id => ?_, h'.lists.trans h.lists, h'.clock.trans h.clock, h'.state.trans h.state⟩
  have h₁ := h.pages id
  have h₂ := h'.pages id
  revert h₁ h₂
  generalize v.page id = x, v'.page id = y, v''.page id = z
  rintro (⟨hid, htable, hlen⟩ | _) (⟨hid', htable', hlen'⟩ | _)
  · exact .some ⟨hid'.trans hid, htable'.trans htable, hlen.trans hlen'⟩
  · exact .none

/-- A change of a page that keeps its id and table and drops no row. -/
theorem keeps_assign (v : RowView) (id : DataPageId) {f : DataPage → DataPage}
    (hf : ∀ p, (f p).id = p.id ∧ (f p).tableId = p.tableId
      ∧ p.rows.length ≤ (f p).rows.length) : Keeps v (v.assign id f) := by
  refine ⟨fun id' => ?_, rfl, rfl, rfl⟩
  show Option.Rel _ _ (Function.update v.page id ((v.page id).map f) id')
  rw [Function.update_apply]
  split_ifs with hid
  · subst hid
    cases v.page id' with
    | none => exact .none
    | some p => exact .some (hf p)
  · cases v.page id' with
    | none => exact .none
    | some p => exact .some ⟨rfl, rfl, le_rfl⟩

theorem keeps_mark (v : RowView) (id : DataPageId) : Keeps v (v.mark id) :=
  .of_page_eq rfl rfl rfl rfl

theorem keeps_log (v : RowView) (body : WalBody) : Keeps v (v.log body) :=
  .of_page_eq rfl rfl rfl rfl

theorem keeps_save (v : RowView) (mt : MetaTable) : Keeps v (v.save mt) :=
  .of_page_eq rfl rfl rfl rfl

theorem Keeps.exists_page {v v' : RowView} (h : Keeps v v') {id : DataPageId} {p : DataPage}
    (hp : v.page id = some p) : ∃ p', v'.page id = some p' ∧ p'.id = p.id
      ∧ p'.tableId = p.tableId ∧ p.rows.length ≤ p'.rows.length := by
  have hrel := h.pages id
  rw [hp] at hrel
  cases hp' : v'.page id with
  | none => rw [hp'] at hrel; cases hrel
  | some p' =>
    rw [hp'] at hrel
    cases hrel with
    | some hrel => exact ⟨p', rfl, hrel⟩

theorem Keeps.exists_page_of {v v' : RowView} (h : Keeps v v') {id : DataPageId} {p' : DataPage}
    (hp' : v'.page id = some p') : ∃ p, v.page id = some p ∧ p'.id = p.id
      ∧ p'.tableId = p.tableId ∧ p.rows.length ≤ p'.rows.length := by
  have hrel := h.pages id
  rw [hp'] at hrel
  cases hp : v.page id with
  | none => rw [hp] at hrel; cases hrel
  | some p =>
    rw [hp] at hrel
    cases hrel with
    | some hrel => exact ⟨p, rfl, hrel⟩

theorem Keeps.ids {v v' : RowView} (h : Keeps v v') : v'.ids = v.ids := by
  funext tableId
  unfold RowView.ids
  rw [h.lists]

/-- A view stays as the buffer pool keeps it. -/
theorem Keeps.ok {v v' : RowView} (h : Keeps v v') (hok : v.Ok) : v'.Ok where
  named id p' hp' := by
    obtain ⟨p, hp, hid, _⟩ := h.exists_page_of hp'
    rw [hid, hok.named id p hp]
  older id p' hp' := by
    obtain ⟨p, hp, _⟩ := h.exists_page_of hp'
    rw [h.clock]
    exact hok.older id p hp
  clock_pos := h.clock ▸ hok.clock_pos
  listed tableId id hid := by
    rw [h.ids] at hid
    obtain ⟨p, hp, htable⟩ := hok.listed tableId id hid
    obtain ⟨p', hp', _, htable', _⟩ := h.exists_page hp
    exact ⟨p', hp', htable'.trans htable⟩
  nodup tableId := h.ids ▸ hok.nodup tableId

/-! ## The loops -/

/-- A state of the loops over the rows of a page. -/
abbrev LoopState := RowView × PageLoop

/-- The row at a position of a page is one to be changed. -/
def Target (v : RowView) (ids : List ℕ) (pageId : DataPageId) (i : ℕ) (row : DataRow) : Prop :=
  ∃ p, v.page pageId = some p ∧ p.rows[i]? = some row ∧ row.id ∈ ids ∧ row.obsolete = false

/-- The row at a position of a page is passed over. -/
def Skipped (v : RowView) (ids : List ℕ) (pageId : DataPageId) (i : ℕ) : Prop :=
  ∃ p row, v.page pageId = some p ∧ p.rows[i]? = some row
    ∧ (row.id ∉ ids ∨ row.obsolete = true)

/-- **The inner loop** over positions of a page, when it comes to its end; `R`
is what is done with a row to be changed. -/
inductive Visits (R : DataPageId → ℕ → DataRow → LoopState → LoopState → Prop) (ids : List ℕ)
    (pageId : DataPageId) : List ℕ → LoopState → LoopState → Prop
  | nil (s : LoopState) : Visits R ids pageId [] s s
  | skip {i : ℕ} {rest : List ℕ} {s t : LoopState} (hskip : Skipped s.1 ids pageId i)
      (h : Visits R ids pageId rest s t) : Visits R ids pageId (i :: rest) s t
  | change {i : ℕ} {rest : List ℕ} {row : DataRow} {s s' t : LoopState}
      (htarget : Target s.1 ids pageId i row) (hrow : R pageId i row s s')
      (h : Visits R ids pageId rest s' t) : Visits R ids pageId (i :: rest) s t

/-- The inner loop when it throws: at a row to be changed, after it has dealt
with those before. `F` is what is left behind there. -/
def VisitThrows (R : DataPageId → ℕ → DataRow → LoopState → LoopState → Prop)
    (F : DataPageId → ℕ → DataRow → LoopState → RowView → Prop) (ids : List ℕ)
    (pageId : DataPageId) (positions : List ℕ) (s : LoopState) (v' : RowView) : Prop :=
  ∃ done i rest row t, positions = done ++ i :: rest ∧ Visits R ids pageId done s t
    ∧ Target t.1 ids pageId i row ∧ F pageId i row t v'

/-- The state in which the inner loop begins on a page. -/
def enter (mt : MetaTable) (p : DataPage) (v : RowView) : LoopState :=
  (v, { mt := mt, pageLsn := p.lastLsn, changed := false })

/-- A page after its rows have been gone through: if one was changed, the page
gets its LSN and is marked. -/
def leave (pageId : DataPageId) (s : LoopState) : RowView :=
  if s.2.changed then
    (s.1.assign pageId fun p => { p with lastLsn := s.2.pageLsn }).mark pageId
  else s.1

/-- **The outer loop** over pages, when it comes to its end. -/
inductive PagesVisited (R : DataPageId → ℕ → DataRow → LoopState → LoopState → Prop)
    (ids : List ℕ) : List DataPageId → RowView → MetaTable → RowView → MetaTable → Prop
  | nil (v : RowView) (mt : MetaTable) : PagesVisited R ids [] v mt v mt
  | cons {pageId : DataPageId} {rest : List DataPageId} {p : DataPage} {v v' : RowView}
      {mt mt' : MetaTable} {s : LoopState} (hpage : v.page pageId = some p)
      (hvisits : Visits R ids pageId (List.range p.rows.length) (enter mt p v) s)
      (h : PagesVisited R ids rest (leave pageId s) s.2.mt v' mt') :
      PagesVisited R ids (pageId :: rest) v mt v' mt'

/-- The outer loop when it throws. -/
def PagesThrow (R : DataPageId → ℕ → DataRow → LoopState → LoopState → Prop)
    (F : DataPageId → ℕ → DataRow → LoopState → RowView → Prop) (ids : List ℕ)
    (pageIds : List DataPageId) (v : RowView) (mt : MetaTable) (v' : RowView) : Prop :=
  ∃ done pageId rest w mtw p, pageIds = done ++ pageId :: rest
    ∧ PagesVisited R ids done v mt w mtw ∧ w.page pageId = some p
    ∧ VisitThrows R F ids pageId (List.range p.rows.length) (enter mtw p w) v'

section Loops

variable {R : DataPageId → ℕ → DataRow → LoopState → LoopState → Prop} {ids : List ℕ}

/-- What every change of a row keeps, the inner loop keeps. -/
theorem Visits.keeps (hR : ∀ pageId i row s s', R pageId i row s s' → Keeps s.1 s'.1)
    {pageId : DataPageId} {positions : List ℕ} {s t : LoopState}
    (h : Visits R ids pageId positions s t) : Keeps s.1 t.1 := by
  induction h with
  | nil s => exact .refl s.1
  | skip _ _ ih => exact ih
  | change _ hrow _ ih => exact (hR _ _ _ _ _ hrow).trans ih

theorem keeps_leave (pageId : DataPageId) (s : LoopState) : Keeps s.1 (leave pageId s) := by
  unfold leave
  split_ifs
  · refine Keeps.trans ?_ (keeps_mark _ pageId)
    exact keeps_assign s.1 pageId fun _ => ⟨rfl, rfl, le_rfl⟩
  · exact .refl s.1

/-- What every change of a row keeps, the outer loop keeps. -/
theorem PagesVisited.keeps (hR : ∀ pageId i row s s', R pageId i row s s' → Keeps s.1 s'.1)
    {pageIds : List DataPageId} {v v' : RowView} {mt mt' : MetaTable}
    (h : PagesVisited R ids pageIds v mt v' mt') : Keeps v v' := by
  induction h with
  | nil v mt => exact .refl v
  | cons _ hvisits _ ih => exact ((hvisits.keeps hR).trans (keeps_leave _ _)).trans ih

end Loops

/-! ## Updating a row -/

/-- The table while a row is updated: the new version has got its id. -/
def numbered (mt : MetaTable) : MetaTable := { mt with lastRid := mt.lastRid + 1 }

/-- The table when a row has been updated. -/
def counted (mt : MetaTable) : MetaTable :=
  { numbered mt with totalRows := mt.totalRows + 1 }

/-- What is seen when the old version has been marked. -/
def superseded (v : RowView) (pageId : DataPageId) (i : ℕ) (mt : MetaTable) : RowView :=
  (v.save mt).assign pageId fun p => { p with rows := p.rows.modify i DataRow.markObsolete }

/-- What is seen when the new version has been appended. -/
def appended (v : RowView) (pageId : DataPageId) (row newRow : DataRow)
    (unchangedMt mt : MetaTable) : RowView :=
  let v := (v.save mt).log (.update mt.id pageId row.markObsolete newRow)
  let v := v.log (.updateTable unchangedMt mt)
  v.assign pageId fun p => { p with rows := p.rows ++ [newRow], maxRid := max p.maxRid newRow.id }

/-- What is seen when a row has been updated. -/
def replaced (v : RowView) (pageId : DataPageId) (i : ℕ) (row newRow : DataRow)
    (unchangedMt mt : MetaTable) : RowView :=
  (v.superseded pageId i (numbered mt)).appended pageId row newRow unchangedMt (counted mt)

/-- **One row of an update.** -/
inductive Updates (update : RowUpdate) (unchangedMt : MetaTable) (pageId : DataPageId) (i : ℕ)
    (row : DataRow) : LoopState → LoopState → Prop
  | intro {v : RowView} {loop : PageLoop} {tokens : List DataToken}
      (hassign : assignTokens (numbered loop.mt) update row = .ok tokens) :
      Updates update unchangedMt pageId i row (v, loop)
        (v.replaced pageId i row { row with id := loop.mt.lastRid + 1, tokens := tokens }
            unchangedMt loop.mt,
          { mt := counted loop.mt, pageLsn := max loop.pageLsn v.wal.nextLsn, changed := true })

/-- What a row leaves behind whose update throws: an assignment that cannot be
made leaves the old version marked, an index that cannot take the new version
leaves both. -/
inductive UpdateThrows (update : RowUpdate) (unchangedMt : MetaTable) (pageId : DataPageId)
    (i : ℕ) (row : DataRow) : LoopState → RowView → Prop
  | assignment {v : RowView} {loop : PageLoop} {e : Exn}
      (hassign : assignTokens (numbered loop.mt) update row = .error e) :
      UpdateThrows update unchangedMt pageId i row (v, loop)
        (v.superseded pageId i (numbered loop.mt))
  | index {v : RowView} {loop : PageLoop} {tokens : List DataToken}
      (hassign : assignTokens (numbered loop.mt) update row = .ok tokens) :
      UpdateThrows update unchangedMt pageId i row (v, loop)
        (v.replaced pageId i row { row with id := loop.mt.lastRid + 1, tokens := tokens }
          unchangedMt loop.mt)

theorem keeps_superseded (v : RowView) (pageId : DataPageId) (i : ℕ) (mt : MetaTable) :
    Keeps v (v.superseded pageId i mt) :=
  (keeps_save v mt).trans (keeps_assign _ _ fun p => ⟨rfl, rfl, by simp⟩)

theorem keeps_replaced (v : RowView) (pageId : DataPageId) (i : ℕ) (row newRow : DataRow)
    (unchangedMt mt : MetaTable) : Keeps v (v.replaced pageId i row newRow unchangedMt mt) :=
  (keeps_superseded v pageId i _).trans <| (keeps_save _ _).trans <| (keeps_log _ _).trans <|
    (keeps_log _ _).trans (keeps_assign _ _ fun p => ⟨rfl, rfl, by simp⟩)

theorem Updates.keeps {update : RowUpdate} {unchangedMt : MetaTable} {pageId : DataPageId}
    {i : ℕ} {row : DataRow} {s s' : LoopState} (h : Updates update unchangedMt pageId i row s s') :
    Keeps s.1 s'.1 := by
  cases h with
  | intro => exact keeps_replaced _ _ _ _ _ _ _

theorem UpdateThrows.keeps {update : RowUpdate} {unchangedMt : MetaTable} {pageId : DataPageId}
    {i : ℕ} {row : DataRow} {s : LoopState} {v' : RowView}
    (h : UpdateThrows update unchangedMt pageId i row s v') : Keeps s.1 v' := by
  cases h with
  | assignment => exact keeps_superseded _ _ _ _
  | index => exact keeps_replaced _ _ _ _ _ _ _

/-! ## Deleting a row -/

/-- The table when a row has been deleted. -/
def discounted (mt : MetaTable) : MetaTable :=
  { mt with liveRows := decLiveRows mt.liveRows }

/-- **One row of a delete.** -/
inductive Deletes (unchangedMt : MetaTable) (pageId : DataPageId) (i : ℕ) (row : DataRow) :
    LoopState → LoopState → Prop
  | intro {v : RowView} {loop : PageLoop} :
      Deletes unchangedMt pageId i row (v, loop)
        (((v.superseded pageId i (discounted loop.mt)).log
              (.delete loop.mt.id pageId row.markObsolete)).log
            (.updateTable unchangedMt (discounted loop.mt)),
          { mt := discounted loop.mt, pageLsn := max loop.pageLsn v.wal.nextLsn, changed := true })

theorem Deletes.keeps {unchangedMt : MetaTable} {pageId : DataPageId} {i : ℕ} {row : DataRow}
    {s s' : LoopState} (h : Deletes unchangedMt pageId i row s s') : Keeps s.1 s'.1 := by
  cases h with
  | intro =>
    exact (keeps_superseded _ _ _ _).trans ((keeps_log _ _).trans (keeps_log _ _))

end RowView

namespace StdDbInstance

open BufferPool Transaction FileIOManager RowView

variable {db db' : StdDbInstance}

/-! ## The operations -/

/-- Looking at the row at a position of a page. -/
theorem ensures_targetAt {ids : List ℕ} {pageId : DataPageId} {i : ℕ} {p : DataPage}
    (hload : db.Loaded pageId) (hpage : db.page pageId = some p) (hi : i < p.rows.length) :
    Ensures (targetAt ids pageId i) db
      (fun found db' => db' = db ∧ (match found with
        | none => Skipped db.rowView ids pageId i
        | some row => Target db.rowView ids pageId i row))
      fun _ _ => False := by
  obtain ⟨entry, hentry, hvalue⟩ := page_of_loaded hload
  obtain rfl : p = entry.value := Option.some.inj (hpage.symm.trans hvalue)
  obtain ⟨row, hrow⟩ : ∃ row, entry.value.rows[i]? = some row :=
    ⟨_, List.getElem?_eq_getElem hi⟩
  unfold targetAt derefDp
  simp only [ensures_bind, ensures_get, hentry, ensures_pure, hrow]
  split_ifs with hmem hobsolete
  · exact ⟨rfl, entry.value, row, hpage, hrow, .inr hobsolete⟩
  · exact ⟨rfl, entry.value, hpage, hrow, hmem, by simpa using hobsolete⟩
  · exact ⟨rfl, entry.value, row, hpage, hrow, .inl hmem⟩

/-- **What is done with a row**: `R` when it succeeds and `F` when it throws,
and no page is dropped from the pool. -/
def RowBody (body : DataPageId → PageLoop → ℕ → DataRow → Prog PageLoop)
    (R : DataPageId → ℕ → DataRow → LoopState → LoopState → Prop)
    (F : DataPageId → ℕ → DataRow → LoopState → RowView → Prop) : Prop :=
  ∀ (pageId : DataPageId) (loop : PageLoop) (i : ℕ) (row : DataRow) (db : StdDbInstance),
    db.txn.state = .active → db.Loaded pageId →
    Ensures (body pageId loop i row) db
      (fun loop' db' => R pageId i row (db.rowView, loop) (db'.rowView, loop')
        ∧ ∀ id, db.Loaded id → db'.Loaded id)
      fun _ db' => F pageId i row (db.rowView, loop) db'.rowView

/-- When the pages of a list of ids are there, reading them gives a page for
each. -/
theorem pages_of_listed {page : DataPageId → Option DataPage} {ids : List DataPageId}
    (h : ∀ id ∈ ids, ∃ p, page id = some p ∧ p.id = id) :
    ids.map page = (ids.filterMap page).map some
      ∧ (ids.filterMap page).map DataPage.id = ids := by
  induction ids with
  | nil => exact ⟨rfl, rfl⟩
  | cons id rest ih =>
    obtain ⟨p, hp, hid⟩ := h id List.mem_cons_self
    obtain ⟨hsome, hids⟩ := ih fun id' hid' => h id' (List.mem_cons_of_mem id hid')
    rw [List.map_cons, List.filterMap_cons, hp, List.map_cons, List.map_cons, hid, ← hsome, hids]
    exact ⟨rfl, rfl⟩

/-- The pages of a table are all there, under their ids. -/
theorem pages_of_ok (hok : db.rowView.Ok) (t : TableId) :
    (db.pageIds t).map db.page = (db.rowView.pages t).map some
      ∧ (db.rowView.pages t).map DataPage.id = db.pageIds t := by
  refine pages_of_listed fun id hid => ?_
  obtain ⟨p, hp, _⟩ := hok.listed t id hid
  exact ⟨p, hp, hok.named id p hp⟩

section Loops

variable {body : DataPageId → PageLoop → ℕ → DataRow → Prog PageLoop}
variable {R : DataPageId → ℕ → DataRow → LoopState → LoopState → Prop}
variable {F : DataPageId → ℕ → DataRow → LoopState → RowView → Prop}
variable (hbody : RowBody body R F)
variable (hR : ∀ pageId i row s s', R pageId i row s s' → Keeps s.1 s'.1)
include hbody hR

/-- The inner loop. -/
theorem ensures_visits {ids : List ℕ} {pageId : DataPageId} {p : DataPage} (positions : List ℕ)
    (loop : PageLoop) (hactive : db.txn.state = .active) (hload : db.Loaded pageId)
    (hpage : db.page pageId = some p) (hlt : ∀ i ∈ positions, i < p.rows.length) :
    Ensures (positions.foldlM
        (fun loop i => do
          match ← targetAt ids pageId i with
          | none => pure loop
          | some row => body pageId loop i row) loop) db
      (fun loop' db' => Visits R ids pageId positions (db.rowView, loop) (db'.rowView, loop')
        ∧ ∀ id, db.Loaded id → db'.Loaded id)
      fun _ db' => VisitThrows R F ids pageId positions (db.rowView, loop) db'.rowView := by
  induction positions generalizing db p loop with
  | nil => exact ⟨.nil _, fun _ h => h⟩
  | cons i rest ih =>
    rw [List.foldlM_cons, ensures_bind, ensures_bind]
    refine (ensures_targetAt hload hpage (hlt i List.mem_cons_self)).mono
      (fun found db₁ ⟨hdb, hfound⟩ => ?_) fun _ _ h => h.elim
    subst hdb
    have hrest : ∀ j ∈ rest, j < p.rows.length := fun j hj => hlt j (List.mem_cons_of_mem i hj)
    cases found with
    | none =>
      rw [ensures_pure]
      refine (ih loop hactive hload hpage hrest).mono
        (fun loop' db' ⟨hvisits, hmono⟩ => ⟨.skip hfound hvisits, hmono⟩) fun _ db' h => ?_
      obtain ⟨done, j, rest', row, t, rfl, hvisits, htarget, hthrow⟩ := h
      exact ⟨i :: done, j, rest', row, t, rfl, .skip hfound hvisits, htarget, hthrow⟩
    | some row =>
      refine (hbody pageId loop i row db₁ hactive hload).mono
        (fun loop₁ db₂ ⟨hrow, hmono⟩ => ?_)
        fun _ db' h => ⟨[], i, rest, row, _, rfl, .nil _, hfound, h⟩
      have hkeeps := hR _ _ _ _ _ hrow
      obtain ⟨p', hpage', _, _, hlen⟩ := hkeeps.exists_page (v := db₁.rowView) hpage
      refine (ih loop₁ (hkeeps.state.trans hactive) (hmono pageId hload) hpage'
        fun j hj => (hrest j hj).trans_le hlen).mono
        (fun loop' db' ⟨hvisits, hmono'⟩ =>
          ⟨.change hfound hrow hvisits, fun id hid => hmono' id (hmono id hid)⟩) fun _ db' h => ?_
      obtain ⟨done, j, rest', row', t, rfl, hvisits, htarget, hthrow⟩ := h
      exact ⟨i :: done, j, rest', row', t, rfl, .change hfound hrow hvisits, htarget, hthrow⟩

/-- The loops over one page, and its stamping. -/
theorem ensures_changePage {ids : List ℕ} {p q : DataPage} (mt : MetaTable)
    (hactive : db.txn.state = .active) (hload : db.Loaded p.id) (hpage : db.page p.id = some q)
    (hq : q.id = p.id) :
    Ensures (changePage body ids mt (some p)) db
      (fun mt' db' => (∃ s, Visits R ids p.id (List.range q.rows.length) (enter mt q db.rowView) s
          ∧ db'.rowView = leave p.id s ∧ mt' = s.2.mt)
        ∧ ∀ id, db.Loaded id → db'.Loaded id)
      fun _ db' => VisitThrows R F ids p.id (List.range q.rows.length) (enter mt q db.rowView)
        db'.rowView := by
  obtain ⟨entry, hentry, hvalue⟩ := page_of_loaded hload
  obtain rfl : q = entry.value := Option.some.inj (hpage.symm.trans hvalue)
  unfold changePage derefDp
  simp only [ensures_bind, ensures_get, hentry, ensures_pure, hq]
  refine (ensures_visits hbody hR (List.range entry.value.rows.length) _ hactive hload hpage
    fun i hi => List.mem_range.mp hi).mono_ok fun loop db₁ hvisited => ?_
  obtain ⟨hvisits, hmono⟩ := hvisited
  have hload₁ := hmono p.id hload
  unfold modifyDp dirtyDp
  split_ifs with hchanged
  · simp only [ensures_bind, ensures_modify, ensures_pure]
    refine ⟨⟨_, hvisits, ?_, rfl⟩,
      fun id hid => loaded_markDp.mpr (loaded_assignDp.mpr (hmono id hid))⟩
    rw [rowView_mark (loaded_assignDp.mpr hload₁), rowView_assign hload₁]
    unfold leave
    rw [if_pos hchanged]
  · simp only [ensures_pure]
    refine ⟨⟨_, hvisits, ?_, rfl⟩, hmono⟩
    unfold leave
    rw [if_neg hchanged]

/-- The loops over the pages of a table. -/
theorem ensures_changePages {ids : List ℕ} (pages : List DataPage) (mt : MetaTable)
    (hactive : db.txn.state = .active) (hok : db.rowView.Ok)
    (hpages : ∀ p ∈ pages, db.Loaded p.id) :
    Ensures ((pages.map some).foldlM (changePage body ids) mt) db
      (fun mt' db' => PagesVisited R ids (pages.map DataPage.id) db.rowView mt db'.rowView mt')
      fun _ db' => PagesThrow R F ids (pages.map DataPage.id) db.rowView mt db'.rowView := by
  induction pages generalizing db mt with
  | nil => exact .nil _ _
  | cons p pages ih =>
    have hload := hpages p List.mem_cons_self
    obtain ⟨entry, _, hpage⟩ := page_of_loaded hload
    rw [List.map_cons, List.foldlM_cons, ensures_bind]
    refine (ensures_changePage hbody hR mt hactive hload hpage (hok.named p.id _ hpage)).mono
      (fun mt₁ db₁ h => ?_)
      fun _ db' h => ⟨[], p.id, pages.map DataPage.id, _, mt, _, rfl, .nil _ _, hpage, h⟩
    obtain ⟨⟨s, hvisits, hview, rfl⟩, hmono⟩ := h
    have hkeeps : Keeps db.rowView db₁.rowView :=
      hview ▸ (hvisits.keeps hR).trans (keeps_leave p.id s)
    refine (ih s.2.mt (hkeeps.state.trans hactive) (hkeeps.ok hok)
      fun q hq => hmono q.id (hpages q (List.mem_cons_of_mem p hq))).mono
      (fun mt' db' h => ?_) fun _ db' h => ?_
    · rw [hview] at h
      exact .cons hpage hvisits h
    · obtain ⟨done, pageId, rest, w, mtw, r, heq, hdone, hr, hthrow⟩ := h
      rw [hview] at hdone
      exact ⟨p.id :: done, pageId, rest, w, mtw, r, by rw [List.map_cons, heq]; rfl,
        .cons hpage hvisits hdone, hr, hthrow⟩

/-- The loops of an operation over the pages that `get_table_data` returns. -/
theorem ensures_tableLoop {ids : List ℕ} (mt : MetaTable) (hactive : db.txn.state = .active)
    (hok : db.rowView.Ok) :
    Ensures (do
        let pages ← getTableData mt.id
        let _ ← pages.foldlM (changePage body ids) mt) db
      (fun _ db' => ∃ mt', PagesVisited R ids (db.pageIds mt.id) db.rowView mt db'.rowView mt')
      fun _ db' => PagesThrow R F ids (db.pageIds mt.id) db.rowView mt db'.rowView := by
  rw [ensures_bind]
  refine (ensures_getTableData mt.id db).mono (fun found db₁ ⟨hfound, hsame, hload⟩ => ?_)
    fun _ _ h => h.elim
  obtain ⟨hsome, hids⟩ := pages_of_ok hok mt.id
  have hview := hsame.rowView
  have hloaded : ∀ p ∈ db.rowView.pages mt.id, db₁.Loaded p.id := by
    intro p hp
    obtain ⟨id, hid, hp'⟩ := List.mem_filterMap.mp hp
    rw [hok.named id p hp']
    exact hload id hid (by rw [show db.page id = some p from hp']; simp)
  rw [hfound, hsome, ensures_bind]
  refine (ensures_changePages hbody hR (db.rowView.pages mt.id) mt
    ((congrArg Transaction.state hsame.txn).trans hactive) (hview ▸ hok) hloaded).mono
    (fun mt' db' h => ?_) fun _ db' h => ?_
  · rw [hids, hview] at h
    exact ⟨mt', h⟩
  · rwa [hids, hview] at h

end Loops

/-- The second part of the update of a row, once the assignments have been
made. -/
theorem ensures_appendVersion {pageId : DataPageId} {row newRow : DataRow} {loop : PageLoop}
    {unchangedMt mt : MetaTable} (hactive : db.txn.state = .active) (hload : db.Loaded pageId) :
    Ensures (do
        saveTable mt
        appendLog (.update mt.id pageId row.markObsolete newRow)
        let lsn ← getLastLsn
        let pageLsn := max loop.pageLsn lsn
        appendLog (.updateTable unchangedMt mt)
        modifyDp pageId fun page =>
          { page with rows := page.rows ++ [newRow], maxRid := max page.maxRid newRow.id }
        let touchedIndexes ← insertRowIntoIndexes mt newRow pageId
        touchedIndexes.forM fun indexId => setIfLsn indexId pageLsn
        pure ({ mt := mt, pageLsn := pageLsn, changed := true } : PageLoop)) db
      (fun loop' db' => db'.rowView = db.rowView.appended pageId row newRow unchangedMt mt
        ∧ loop' = { mt := mt, pageLsn := max loop.pageLsn db.wal.nextLsn, changed := true }
        ∧ ∀ id, db.Loaded id → db'.Loaded id)
      fun _ db' => db'.rowView = db.rowView.appended pageId row newRow unchangedMt mt := by
  unfold saveTable modifyDp getLastLsn
  simp only [ensures_bind, ensures_modify]
  rw [ensures_appendLog (by exact hactive)]
  simp only [ensures_get, ensures_pure]
  rw [ensures_appendLog (by exact hactive)]
  set db₁ := appendRecord (.updateTable unchangedMt mt) (appendRecord
    (.update mt.id pageId row.markObsolete newRow)
    { db with catalog := db.catalog.saveTable mt }) with hdb₁
  have hload₁ : ∀ id, db.Loaded id → db₁.Loaded id := fun _ h => h
  have hview₁ : db₁.rowView = ((db.rowView.save mt).log
      (.update mt.id pageId row.markObsolete newRow)).log (.updateTable unchangedMt mt) := rfl
  clear_value db₁
  refine (ensures_insertRowIntoIndexes mt newRow pageId _).mono
    (fun touched db₂ hindexed => ?_) fun _ db' hsame => ?_
  · refine (ensures_setIfLsns touched _ db₂).mono (fun _ db₃ hstamped => ?_) fun _ _ h => h.elim
    have hall := hindexed.1.trans hstamped.1
    refine ⟨?_, rfl, fun id hid => hall.loaded id (loaded_assignDp.mpr (hload₁ id hid))⟩
    rw [hall.rowView, rowView_assign (hload₁ pageId hload), hview₁]
    rfl
  · rw [hsame.rowView, rowView_assign (hload₁ pageId hload), hview₁]
    rfl

/-- One row of `update_row`. -/
theorem rowBody_update (update : RowUpdate) (unchangedMt : MetaTable) :
    RowBody (updateRowAt update unchangedMt) (Updates update unchangedMt)
      (UpdateThrows update unchangedMt) := by
  intro pageId loop i row db hactive hload
  unfold updateRowAt
  rw [ensures_bind]
  show Ensures _ { db with catalog := db.catalog.saveTable (numbered loop.mt) } _ _
  rw [ensures_bind]
  set db₀ : StdDbInstance := { db with catalog := db.catalog.saveTable (numbered loop.mt) }
  show Ensures _
    (assignDp pageId (fun p => { p with rows := p.rows.modify i DataRow.markObsolete }) db₀) _ _
  have hload₀ : ∀ id, db.Loaded id → db₀.Loaded id := fun _ h => h
  have hview := rowView_assign (hload₀ pageId hload)
    fun p => { p with rows := p.rows.modify i DataRow.markObsolete }
  rw [ensures_bind, ensures_liftExcept]
  refine ⟨fun tokens htokens => ?_, fun e he => ?_⟩
  · refine (ensures_appendVersion (by exact hactive)
      (loaded_assignDp.mpr (hload₀ pageId hload))).mono (fun loop' db' h => ?_) fun _ db' h => ?_
    · obtain ⟨hview', rfl, hmono⟩ := h
      refine ⟨?_, fun id hid => hmono id (loaded_assignDp.mpr (hload₀ id hid))⟩
      rw [hview', hview]
      exact .intro htokens
    · rw [h, hview]
      exact .index htokens
  · rw [hview]
    exact .assignment he

/-- One row of `delete_rows`. -/
theorem rowBody_delete (unchangedMt : MetaTable) :
    RowBody (deleteRowAt unchangedMt) (Deletes unchangedMt) fun _ _ _ _ _ => False := by
  intro pageId loop i row db hactive hload
  have hview := rowView_assign hload
    fun p => { p with rows := p.rows.modify i DataRow.markObsolete }
  have hmono : ∀ id, db.Loaded id → (assignDp pageId (fun p =>
      { p with rows := p.rows.modify i DataRow.markObsolete }) db).Loaded id :=
    fun _ h => loaded_assignDp.mpr h
  have hactive₁ : (assignDp pageId (fun p =>
      { p with rows := p.rows.modify i DataRow.markObsolete }) db).txn.state = .active := hactive
  unfold deleteRowAt
  rw [ensures_bind]
  show Ensures _ (assignDp pageId (fun p =>
      { p with rows := p.rows.modify i DataRow.markObsolete }) db) _ _
  generalize assignDp pageId _ db = db₁ at hview hmono hactive₁ ⊢
  unfold saveTable getLastLsn
  simp only [ensures_bind, ensures_modify]
  rw [ensures_appendLog (by exact hactive₁)]
  simp only [ensures_get, ensures_pure]
  rw [ensures_appendLog (by exact hactive₁)]
  refine ⟨?_, hmono⟩
  show Deletes unchangedMt pageId i row (db.rowView, loop)
    (((db₁.rowView.save (discounted loop.mt)).log
        (.delete loop.mt.id pageId row.markObsolete)).log
      (.updateTable unchangedMt (discounted loop.mt)),
      { mt := discounted loop.mt, pageLsn := max loop.pageLsn db₁.rowView.wal.nextLsn,
        changed := true })
  rw [hview]
  exact .intro

/-- **What `update_row` does.** -/
theorem ensures_updateRow (hactive : db.txn.state = .active) (hok : db.rowView.Ok)
    (tableName schemaName : Bytes) (update : RowUpdate) (rows : List DataRow) :
    Ensures (updateRow tableName schemaName update rows) db
      (fun _ db' => ∃ mt mt', LooksUp db tableName schemaName mt
        ∧ PagesVisited (Updates update mt) (rows.map DataRow.id) (db.pageIds mt.id) db.rowView mt
            db'.rowView mt')
      fun e db' => (e = .nullDereference ∧ db'.rowView = db.rowView)
        ∨ ∃ mt, LooksUp db tableName schemaName mt
          ∧ PagesThrow (Updates update mt) (UpdateThrows update mt)
            (rows.map DataRow.id) (db.pageIds mt.id) db.rowView mt db'.rowView := by
  unfold updateRow
  rw [ensures_bind]
  refine (ensures_getTable tableName schemaName db).mono (fun mt db₁ ⟨hdb, hlook⟩ => ?_)
    fun _ db' h => .inl ⟨h.1, by rw [h.2]⟩
  subst hdb
  refine (ensures_tableLoop (rowBody_update update mt) (fun _ _ _ _ _ h => h.keeps) mt hactive
    hok).mono (fun _ db' h => ?_) fun _ db' h => .inr ⟨mt, hlook, h⟩
  obtain ⟨mt', h⟩ := h
  exact ⟨mt, mt', hlook, h⟩

/-- **What `delete_rows` does**: it throws only when there is no such table. -/
theorem ensures_deleteRows (hactive : db.txn.state = .active) (hok : db.rowView.Ok)
    (tableName schemaName : Bytes) (rows : List DataRow) :
    Ensures (deleteRows tableName schemaName rows) db
      (fun _ db' => ∃ mt mt', LooksUp db tableName schemaName mt
        ∧ PagesVisited (Deletes mt) (rows.map DataRow.id) (db.pageIds mt.id) db.rowView mt
            db'.rowView mt')
      fun e db' => e = .nullDereference ∧ db'.rowView = db.rowView := by
  unfold deleteRows
  rw [ensures_bind]
  refine (ensures_getTable tableName schemaName db).mono (fun mt db₁ ⟨hdb, hlook⟩ => ?_)
    fun _ db' h => ⟨h.1, by rw [h.2]⟩
  subst hdb
  refine (ensures_tableLoop (rowBody_delete mt) (fun _ _ _ _ _ h => h.keeps) mt hactive
    hok).mono (fun _ db' h => ?_) fun _ db' h => ?_
  · obtain ⟨mt', h⟩ := h
    exact ⟨mt, mt', hlook, h⟩
  · obtain ⟨_, _, _, _, _, _, _, _, _, _, _, _, _, _, _, _, _, h⟩ := h
    exact h.elim

end StdDbInstance
