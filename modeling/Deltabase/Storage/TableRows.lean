import Deltabase.Storage.RowLoops

/-!
# The rows of a table

What the operations do to the rows of a table, seen as one list: a row of it is
marked (`Marked`), or a row is added somewhere (`Added`). Where in the pages
this happens does not matter to the results about tables, and the rows of other
tables stay as they are.

`PagesVisited.preserves` is the rule for the loops over rows: what each change
of a row and each stamping of a page preserves, an operation preserves.
-/

/-- A row of a list is marked obsolete. -/
def Marked (row : DataRow) (rows rows' : List DataRow) : Prop :=
  ∃ l₁ l₂, rows = l₁ ++ row :: l₂ ∧ rows' = l₁ ++ row.markObsolete :: l₂

/-- A row is added to a list. -/
def Added (row : DataRow) (rows rows' : List DataRow) : Prop :=
  ∃ l₁ l₂, rows = l₁ ++ l₂ ∧ rows' = l₁ ++ row :: l₂

theorem Added.perm {row : DataRow} {rows rows' : List DataRow} (h : Added row rows rows') :
    rows'.Perm (row :: rows) := by
  obtain ⟨l₁, l₂, rfl, rfl⟩ := h
  exact List.perm_middle

theorem Marked.map_id {row : DataRow} {rows rows' : List DataRow} (h : Marked row rows rows') :
    rows'.map DataRow.id = rows.map DataRow.id := by
  obtain ⟨l₁, l₂, rfl, rfl⟩ := h
  simp

theorem Marked.mem {row : DataRow} {rows rows' : List DataRow} (h : Marked row rows rows') :
    row ∈ rows := by
  obtain ⟨l₁, l₂, rfl, rfl⟩ := h
  simp

/-- Changing the element after a given beginning. -/
theorem modify_append_cons {α : Type} (f : α → α) (l₁ l₂ : List α) (x : α) :
    (l₁ ++ x :: l₂).modify l₁.length f = l₁ ++ f x :: l₂ := by
  induction l₁ with
  | nil => rfl
  | cons a l₁ ih => exact congrArg (List.cons a) ih

/-- Marking the row at a position. -/
theorem marked_modify {rows : List DataRow} {i : ℕ} {row : DataRow} (h : rows[i]? = some row) :
    Marked row rows (rows.modify i DataRow.markObsolete) := by
  induction rows generalizing i with
  | nil => cases h
  | cons r rows ih =>
    cases i with
    | zero =>
      obtain rfl := Option.some.inj h
      exact ⟨[], rows, rfl, rfl⟩
    | succ i =>
      obtain ⟨l₁, l₂, heq, heq'⟩ := ih h
      refine ⟨r :: l₁, l₂, by rw [heq]; rfl, ?_⟩
      rw [List.modify_succ_cons, heq']
      rfl

theorem Marked.append {row : DataRow} {rows rows' : List DataRow} (h : Marked row rows rows')
    (l₁ l₂ : List DataRow) : Marked row (l₁ ++ rows ++ l₂) (l₁ ++ rows' ++ l₂) := by
  obtain ⟨k₁, k₂, rfl, rfl⟩ := h
  exact ⟨l₁ ++ k₁, k₂ ++ l₂, by simp, by simp⟩

theorem added_append (row : DataRow) (l₁ rows l₂ : List DataRow) :
    Added row (l₁ ++ rows ++ l₂) (l₁ ++ (rows ++ [row]) ++ l₂) :=
  ⟨l₁ ++ rows, l₂, rfl, by simp⟩

namespace RowView

variable {v v' : RowView}

/-- The rows of a page; none when there is no such page. -/
def pageRows (v : RowView) (id : DataPageId) : List DataRow :=
  ((v.page id).map DataPage.rows).getD []

/-- The row versions of a table. -/
def rows (v : RowView) (tableId : TableId) : List DataRow := (v.ids tableId).flatMap v.pageRows

/-- The table with an id, in the catalog. -/
def entry (v : RowView) (tableId : TableId) : Option MetaTable :=
  v.catalog.tables.find? fun mt => mt.id = tableId

@[simp] theorem entry_save (v : RowView) (mt : MetaTable) (tableId : TableId) :
    (v.save mt).entry tableId = if mt.id = tableId then some mt else v.entry tableId :=
  find?_upsert MetaTable.id mt v.catalog.tables tableId

/-- A table that is in the catalog is found by its id. -/
theorem entry_of_mem {mt : MetaTable} (h : mt ∈ v.catalog.tables) : v.entry mt.id = some mt :=
  find?_key_of_nodup v.catalog.tables_nodup h

theorem entry_id {tableId : TableId} {mt : MetaTable} (h : v.entry tableId = some mt) :
    mt.id = tableId := by
  simpa using List.find?_some h

/-! ## Writing to one page -/

theorem assign_page {id : DataPageId} {p : DataPage} (h : v.page id = some p)
    (f : DataPage → DataPage) : (v.assign id f).page id = some (f p) := by
  show Function.update v.page id ((v.page id).map f) id = _
  rw [Function.update_self, h]
  rfl

/-- What is made of the rows of the pages of a table, page after page. -/
def gather {β : Type} (v : RowView) (tableId : TableId)
    (G : DataPageId → List DataRow → List β) : List β :=
  (v.ids tableId).flatMap fun id => G id (v.pageRows id)

/-- **When the rows of one page change**, what is made of them changes in one
place. -/
theorem gather_change {β : Type} {tableId : TableId} {pageId : DataPageId} {rows : List DataRow}
    (hnodup : (v.ids tableId).Nodup) (hmem : pageId ∈ v.ids tableId)
    (hids : v'.ids tableId = v.ids tableId)
    (hrows : v'.pageRows = Function.update v.pageRows pageId rows)
    (G : DataPageId → List DataRow → List β) :
    ∃ l₁ l₂, v.gather tableId G = l₁ ++ G pageId (v.pageRows pageId) ++ l₂
      ∧ v'.gather tableId G = l₁ ++ G pageId rows ++ l₂ := by
  obtain ⟨before, after, hsplit⟩ := List.append_of_mem hmem
  rw [hsplit] at hnodup
  have hother : ∀ ids : List DataPageId, pageId ∉ ids →
      ids.flatMap (fun id => G id (v'.pageRows id))
        = ids.flatMap fun id => G id (v.pageRows id) := by
    intro ids hids
    refine List.flatMap_congr fun id hid => ?_
    have hne : id ≠ pageId := fun heq => hids (heq ▸ hid)
    rw [hrows, Function.update_of_ne hne]
  have hparts := List.nodup_append.mp hnodup
  have hbefore : pageId ∉ before := fun h => hparts.2.2 pageId h pageId List.mem_cons_self rfl
  have hafter : pageId ∉ after := (List.nodup_cons.mp hparts.2.1).1
  refine ⟨before.flatMap fun id => G id (v.pageRows id),
    after.flatMap fun id => G id (v.pageRows id),
    ?_, ?_⟩
  · unfold gather
    rw [hsplit, List.flatMap_append, List.flatMap_cons, List.append_assoc]
  · unfold gather
    rw [hids, hsplit, List.flatMap_append, List.flatMap_cons, hother before hbefore,
      hother after hafter, hrows, Function.update_self, List.append_assoc]

theorem pageRows_assign (v : RowView) (pageId : DataPageId) (f : DataPage → DataPage) :
    (v.assign pageId f).pageRows
      = Function.update v.pageRows pageId
        (((v.page pageId).map f).map DataPage.rows |>.getD []) := by
  funext id
  show ((Function.update v.page pageId _ id).map DataPage.rows).getD [] = _
  rw [Function.update_apply, Function.update_apply]
  split_ifs <;> rfl

/-- The rows of the table that a page belongs to. -/
theorem rows_assign (hok : v.Ok) {tableId : TableId} {pageId : DataPageId} {p : DataPage}
    (hmem : pageId ∈ v.ids tableId) (hpage : v.page pageId = some p) (f : DataPage → DataPage) :
    ∃ l₁ l₂, v.rows tableId = l₁ ++ p.rows ++ l₂
      ∧ (v.assign pageId f).rows tableId = l₁ ++ (f p).rows ++ l₂ := by
  have hrows : v.pageRows pageId = p.rows := by
    unfold pageRows
    rw [hpage]
    rfl
  have hids : (v.assign pageId f).ids tableId = v.ids tableId := rfl
  obtain ⟨l₁, l₂, hold, hnew⟩ := gather_change (hok.nodup tableId) hmem hids
    (pageRows_assign v pageId f) fun _ rows => rows
  rw [hpage] at hnew
  rw [hrows] at hold
  exact ⟨l₁, l₂, hold, hnew⟩

/-- The rows of a table that a page does not belong to. -/
theorem rows_assign_of_not_mem {tableId : TableId} {pageId : DataPageId}
    (hmem : pageId ∉ v.ids tableId) (f : DataPage → DataPage) :
    (v.assign pageId f).rows tableId = v.rows tableId := by
  refine List.flatMap_congr fun id hid => ?_
  have hne : id ≠ pageId := fun heq => hmem (heq ▸ hid)
  show ((Function.update v.page pageId _ id).map _).getD [] = _
  rw [Function.update_of_ne hne]
  rfl

/-- A page belongs to one table. -/
theorem Ok.table_eq (hok : v.Ok) {t t' : TableId} {pageId : DataPageId}
    (h : pageId ∈ v.ids t) (h' : pageId ∈ v.ids t') : t = t' := by
  obtain ⟨p, hp, ht⟩ := hok.listed t pageId h
  obtain ⟨p', hp', ht'⟩ := hok.listed t' pageId h'
  obtain rfl := Option.some.inj (hp.symm.trans hp')
  exact ht.symm.trans ht'

/-- A change of a page that keeps its rows keeps everybody's. -/
theorem pageRows_assign_of_rows {pageId : DataPageId} {f : DataPage → DataPage}
    (hf : ∀ p, (f p).rows = p.rows) : (v.assign pageId f).pageRows = v.pageRows := by
  rw [pageRows_assign]
  refine Function.update_eq_self_iff.mpr ?_
  unfold pageRows
  cases v.page pageId with
  | none => rfl
  | some p => exact hf p

theorem gather_congr {β : Type} {tableId : TableId} (hids : v'.ids tableId = v.ids tableId)
    (hrows : v'.pageRows = v.pageRows) (G : DataPageId → List DataRow → List β) :
    v'.gather tableId G = v.gather tableId G := by
  unfold gather
  rw [hids, hrows]

theorem rows_assign_of_rows {pageId : DataPageId} {f : DataPage → DataPage}
    (hf : ∀ p, (f p).rows = p.rows) : (v.assign pageId f).rows = v.rows := by
  funext tableId
  have hids : (v.assign pageId f).ids tableId = v.ids tableId := rfl
  exact gather_congr hids (pageRows_assign_of_rows hf) fun _ rows => rows

theorem pageRows_leave (pageId : DataPageId) (s : LoopState) :
    (leave pageId s).pageRows = s.1.pageRows := by
  unfold leave
  split_ifs
  · exact pageRows_assign_of_rows fun _ => rfl
  · rfl

@[simp] theorem rows_leave (pageId : DataPageId) (s : LoopState) :
    (leave pageId s).rows = s.1.rows := by
  unfold leave
  split_ifs
  · show (s.1.assign pageId _).rows = _
    exact rows_assign_of_rows fun _ => rfl
  · rfl

@[simp] theorem entry_leave (pageId : DataPageId) (s : LoopState) :
    (leave pageId s).entry = s.1.entry := by
  unfold leave
  split_ifs <;> rfl

/-- **Marking a row of a page** marks it in its table. -/
theorem marked_superseded (hok : v.Ok) {tableId : TableId} {pageId : DataPageId} {p : DataPage}
    {i : ℕ} {row : DataRow} (mt : MetaTable) (hmem : pageId ∈ v.ids tableId)
    (hpage : v.page pageId = some p) (hrow : p.rows[i]? = some row) :
    Marked row (v.rows tableId) ((v.superseded pageId i mt).rows tableId) := by
  obtain ⟨l₁, l₂, hrows, hrows'⟩ := rows_assign hok hmem hpage
    fun p => { p with rows := p.rows.modify i DataRow.markObsolete }
  show Marked row _ ((v.assign pageId _).rows tableId)
  rw [hrows, hrows']
  exact (marked_modify hrow).append l₁ l₂

/-- **Appending a version to a page** adds it to its table. -/
theorem added_appended (hok : v.Ok) {tableId : TableId} {pageId : DataPageId} {p : DataPage}
    {row newRow : DataRow} (unchangedMt mt : MetaTable) (hmem : pageId ∈ v.ids tableId)
    (hpage : v.page pageId = some p) :
    Added newRow (v.rows tableId)
      ((v.appended pageId row newRow unchangedMt mt).rows tableId) := by
  obtain ⟨l₁, l₂, hrows, hrows'⟩ := rows_assign hok hmem hpage
    fun p => { p with rows := p.rows ++ [newRow], maxRid := max p.maxRid newRow.id }
  show Added newRow _ ((v.assign pageId _).rows tableId)
  rw [hrows, hrows']
  exact added_append newRow l₁ p.rows l₂

/-- **Updating a row** marks the old version and adds the new one. -/
theorem replaced_rows (hok : v.Ok) {tableId : TableId} {pageId : DataPageId} {p : DataPage} {i : ℕ}
    {row : DataRow} (newRow : DataRow) (unchangedMt mt : MetaTable)
    (hmem : pageId ∈ v.ids tableId) (hpage : v.page pageId = some p)
    (hrow : p.rows[i]? = some row) :
    ∃ mid, Marked row (v.rows tableId) mid
      ∧ Added newRow mid ((v.replaced pageId i row newRow unchangedMt mt).rows tableId) := by
  have hkeeps := keeps_superseded v pageId i (numbered mt)
  obtain ⟨p', hpage', _⟩ := hkeeps.exists_page hpage
  refine ⟨_, marked_superseded hok (numbered mt) hmem hpage hrow, ?_⟩
  exact added_appended (hkeeps.ok hok) unchangedMt (counted mt) (hkeeps.ids ▸ hmem) hpage'

/-- The rows of other tables stay. -/
theorem superseded_rows_of_not_mem {tableId : TableId} {pageId : DataPageId} (i : ℕ)
    (mt : MetaTable) (hmem : pageId ∉ v.ids tableId) :
    (v.superseded pageId i mt).rows tableId = v.rows tableId :=
  rows_assign_of_not_mem (v := v.save mt) hmem _

theorem replaced_rows_of_not_mem {tableId : TableId} {pageId : DataPageId} (i : ℕ)
    (row newRow : DataRow) (unchangedMt mt : MetaTable) (hmem : pageId ∉ v.ids tableId) :
    (v.replaced pageId i row newRow unchangedMt mt).rows tableId = v.rows tableId := by
  have hsuper := superseded_rows_of_not_mem i (numbered mt) hmem
  rw [← hsuper]
  exact rows_assign_of_not_mem
    (v := (((v.superseded pageId i (numbered mt)).save (counted mt)).log _).log _) hmem _

@[simp] theorem entry_replaced (v : RowView) (pageId : DataPageId) (i : ℕ) (row newRow : DataRow)
    (unchangedMt mt : MetaTable) (tableId : TableId) :
    (v.replaced pageId i row newRow unchangedMt mt).entry tableId
      = if mt.id = tableId then some (counted mt) else v.entry tableId := by
  show ((v.save (numbered mt)).save (counted mt)).entry tableId = _
  rw [entry_save, entry_save]
  show (if mt.id = tableId then _ else if mt.id = tableId then _ else _) = _
  split_ifs <;> rfl

@[simp] theorem entry_superseded (v : RowView) (pageId : DataPageId) (i : ℕ) (mt : MetaTable)
    (tableId : TableId) : (v.superseded pageId i mt).entry tableId
      = if mt.id = tableId then some mt else v.entry tableId :=
  entry_save v mt tableId

/-! ## Inserting -/

/-- The pages of tables after a page has been added. -/
theorem ids_create (v : RowView) (tableId t : TableId) (p : DataPage) :
    (v.create tableId p).ids t = if t = tableId then v.ids t ++ [v.clock] else v.ids t := by
  show ((Function.update v.lists tableId (some ((v.lists tableId).getD [] ++ [v.clock]))) t).getD []
    = _
  rw [Function.update_apply]
  split_ifs with ht
  · rw [ht]
    rfl
  · rfl

theorem keeps_link (v : RowView) (tail : Option DataPage) (id : DataPageId) :
    Keeps v (v.link tail id) := by
  unfold link
  split
  · exact .refl v
  · refine Keeps.trans ?_ (keeps_mark _ _)
    exact keeps_assign v _ fun _ => ⟨rfl, rfl, le_rfl⟩

theorem pageRows_link (v : RowView) (tail : Option DataPage) (id : DataPageId) :
    (v.link tail id).pageRows = v.pageRows := by
  unfold link
  split
  · rfl
  · exact pageRows_assign_of_rows (v := v) fun _ => rfl

theorem rows_link (v : RowView) (tail : Option DataPage) (id : DataPageId) :
    (v.link tail id).rows = v.rows := by
  funext tableId
  exact gather_congr (by rw [(keeps_link v tail id).ids]) (pageRows_link v tail id) fun _ rows =>
    rows

/-- A new page keeps the view as the buffer pool keeps it. -/
theorem Ok.create (hok : v.Ok) {tableId : TableId} {p : DataPage} (hid : p.id = v.clock)
    (htable : p.tableId = tableId) : (v.create tableId p).Ok where
  named id q hq := by
    change Function.update v.page v.clock (some p) id = some q at hq
    rw [Function.update_apply] at hq
    split_ifs at hq with h
    · rw [← Option.some.inj hq, hid, h]
    · exact hok.named id q hq
  older id q hq := by
    change Function.update v.page v.clock (some p) id = some q at hq
    show id < v.generator.next v.clock
    rw [Function.update_apply] at hq
    split_ifs at hq with h
    · rw [h]
      exact UUIDGenerator.lt_next _ _
    · exact (hok.older id q hq).trans (UUIDGenerator.lt_next _ _)
  clock_pos := hok.clock_pos.trans (UUIDGenerator.lt_next _ _)
  listed t id hmem := by
    show ∃ q, Function.update v.page v.clock (some p) id = some q ∧ q.tableId = t
    rw [ids_create] at hmem
    by_cases hclock : id = v.clock
    · subst hclock
      rw [Function.update_self]
      refine ⟨p, rfl, ?_⟩
      split_ifs at hmem with ht
      · rw [htable, ht]
      · obtain ⟨q, hq, _⟩ := hok.listed t v.clock hmem
        exact absurd (hok.older v.clock q hq) (lt_irrefl _)
    · rw [Function.update_of_ne hclock]
      refine hok.listed t id ?_
      split_ifs at hmem with ht
      · exact (List.mem_append.mp hmem).resolve_right fun h => hclock (List.mem_singleton.mp h)
      · exact hmem
  nodup t := by
    rw [ids_create]
    split_ifs with ht
    · refine List.nodup_append.mpr ⟨hok.nodup t, List.nodup_singleton _, fun a ha b hb hab => ?_⟩
      obtain ⟨q, hq, _⟩ := hok.listed t a ha
      rw [hab, List.mem_singleton.mp hb] at hq
      exact absurd (hok.older v.clock q hq) (lt_irrefl _)
    · exact hok.nodup t

/-- There is nothing under a new id. -/
theorem pageRows_clock (hok : v.Ok) : v.pageRows v.clock = [] := by
  have hnone : v.page v.clock = none := by
    rw [Option.eq_none_iff_forall_ne_some]
    intro q hq
    exact lt_irrefl _ (hok.older v.clock q hq)
  unfold pageRows
  rw [hnone]
  rfl

theorem pageRows_create (hok : v.Ok) {tableId : TableId} {p : DataPage} (hp : p.rows = []) :
    (v.create tableId p).pageRows = v.pageRows := by
  have hupdate : (v.create tableId p).pageRows = Function.update v.pageRows v.clock [] := by
    funext id
    show ((Function.update v.page v.clock (some p) id).map DataPage.rows).getD [] = _
    rw [Function.update_apply, Function.update_apply]
    split_ifs
    · exact hp
    · rfl
  rw [hupdate, ← pageRows_clock hok, Function.update_eq_self]

/-- An empty page brings nothing. -/
theorem gather_create {β : Type} (hok : v.Ok) {tableId : TableId} {p : DataPage} (hp : p.rows = [])
    (t : TableId) {G : DataPageId → List DataRow → List β} (hG : ∀ id, G id [] = []) :
    (v.create tableId p).gather t G = v.gather t G := by
  unfold gather
  rw [pageRows_create hok hp, ids_create]
  split_ifs
  · rw [List.flatMap_append, List.flatMap_singleton, pageRows_clock hok, hG, List.append_nil]
  · rfl

theorem rows_create (hok : v.Ok) {tableId : TableId} {p : DataPage} (hp : p.rows = []) :
    (v.create tableId p).rows = v.rows := by
  funext t
  exact gather_create hok hp t (G := fun _ rows => rows) fun _ => rfl

/-- **A prepared page** belongs to the table; preparing it changes nobody's
rows and no table. -/
theorem Prepared.spec {mt : MetaTable} {size : ℕ} {id : DataPageId}
    (h : Prepared mt size v id v') (hok : v.Ok) :
    v'.Ok ∧ id ∈ v'.ids mt.id ∧ v'.rows = v.rows ∧ v'.entry = v.entry := by
  cases h with
  | existing hmem hpage hroom => exact ⟨hok, hmem, rfl, rfl⟩
  | @created schema hschema =>
    set p := DataPage.make (schema.name, mt.name) mt.id v.clock with hp
    have hcreate : (v.create mt.id p).Ok := hok.create rfl rfl
    have hkeeps := keeps_link (v.create mt.id p) (StdDbInstance.tailPage (v.pages mt.id)) v.clock
    refine ⟨hkeeps.ok hcreate, ?_, ?_, ?_⟩
    · rw [hkeeps.ids, ids_create, if_pos rfl]
      exact List.mem_append_right _ (List.mem_singleton_self _)
    · rw [rows_link, rows_create hok rfl]
    · unfold link
      split <;> rfl

/-- Preparing a page changes nothing that is made of the rows. -/
theorem Prepared.gather {β : Type} {mt : MetaTable} {size : ℕ} {id : DataPageId}
    (h : Prepared mt size v id v') (hok : v.Ok) (t : TableId)
    {G : DataPageId → List DataRow → List β} (hG : ∀ id, G id [] = []) :
    v'.gather t G = v.gather t G := by
  cases h with
  | existing => rfl
  | @created schema hschema =>
    set p := DataPage.make (schema.name, mt.name) mt.id v.clock
    rw [gather_congr (by rw [(keeps_link _ _ _).ids]) (pageRows_link _ _ _),
      gather_create hok rfl t hG]

theorem Prepared.clock_le {mt : MetaTable} {size : ℕ} {id : DataPageId}
    (h : Prepared mt size v id v') : v.clock ≤ v'.clock := by
  cases h with
  | existing => exact le_rfl
  | created =>
    rw [(keeps_link _ _ _).clock]
    exact UUIDGenerator.le_next _ _

/-- **Inserting a row into a page** adds it to the table. -/
theorem inserted_spec (hok : v.Ok) {tableId : TableId} {id : DataPageId} (row : DataRow)
    (mtUnchanged mt : MetaTable) (hmem : id ∈ v.ids tableId) :
    Keeps v (v.inserted id row mtUnchanged mt)
      ∧ Added row (v.rows tableId) ((v.inserted id row mtUnchanged mt).rows tableId)
      ∧ (∀ t, t ≠ tableId → (v.inserted id row mtUnchanged mt).rows t = v.rows t)
      ∧ (v.inserted id row mtUnchanged mt).entry = v.entry := by
  obtain ⟨p, hpage, _⟩ := hok.listed tableId id hmem
  set w := v.assign id fun p => { p with rows := p.rows ++ [row] } with hw
  have hstamp : (v.inserted id row mtUnchanged mt).rows = w.rows :=
    rows_assign_of_rows (v := (w.log (.insert mt.id id row)).log (.updateTable mtUnchanged mt))
      fun _ => rfl
  refine ⟨?_, ?_, fun t ht => ?_, rfl⟩
  · have hpush : Keeps v w := keeps_assign v id fun p => ⟨rfl, rfl, by simp⟩
    have hlog : Keeps w ((w.log (.insert mt.id id row)).log (.updateTable mtUnchanged mt)) :=
      (keeps_log _ _).trans (keeps_log _ _)
    refine hpush.trans (hlog.trans (Keeps.trans ?_ (keeps_mark _ id)))
    exact keeps_assign _ id fun _ => ⟨rfl, rfl, le_rfl⟩
  · obtain ⟨l₁, l₂, hrows, hrows'⟩ := rows_assign hok hmem hpage
      fun p => { p with rows := p.rows ++ [row] }
    rw [hstamp, hrows, hrows']
    exact added_append row l₁ p.rows l₂
  · rw [hstamp, hw, rows_assign_of_not_mem fun h => ht (hok.table_eq h hmem)]

/-- **An insert** seen from the tables: the table is saved, the row is added to
it, and the others are left alone. -/
theorem Prepared.inserted {mt : MetaTable} {size : ℕ} {id : DataPageId}
    (h : Prepared mt size (v.save mt) id v') (hok : v.Ok) (row : DataRow)
    (mtUnchanged : MetaTable) :
    (v'.inserted id row mtUnchanged mt).Ok
      ∧ Added row (v.rows mt.id) ((v'.inserted id row mtUnchanged mt).rows mt.id)
      ∧ (∀ t, t ≠ mt.id → (v'.inserted id row mtUnchanged mt).rows t = v.rows t)
      ∧ ∀ t, (v'.inserted id row mtUnchanged mt).entry t
        = if mt.id = t then some mt else v.entry t := by
  obtain ⟨hok', hmem, hrows, hentry⟩ := h.spec ((keeps_save v mt).ok hok)
  obtain ⟨hkeeps, hadd, hother, hentry'⟩ := inserted_spec hok' row mtUnchanged mt hmem
  refine ⟨hkeeps.ok hok', ?_, fun t ht => ?_, fun t => ?_⟩
  · rw [hrows] at hadd
    exact hadd
  · rw [hother t ht, hrows]
    rfl
  · rw [hentry', hentry, entry_save]

/-! ## Going through the rows of a table -/

section Loops

variable {R : DataPageId → ℕ → DataRow → LoopState → LoopState → Prop} {ids : List ℕ}

/-- What each change of a row preserves, the inner loop preserves. -/
theorem Visits.preserves {P : RowView → MetaTable → Prop} {pageId : DataPageId}
    {positions : List ℕ} {s t : LoopState} (h : Visits R ids pageId positions s t)
    (hrow : ∀ i row s s', Target s.1 ids pageId i row → R pageId i row s s' →
      P s.1 s.2.mt → P s'.1 s'.2.mt) (hs : P s.1 s.2.mt) : P t.1 t.2.mt := by
  induction h with
  | nil s => exact hs
  | skip _ _ ih => exact ih hs
  | change htarget hR _ ih => exact ih (hrow _ _ _ _ htarget hR hs)

/-- **The rule for the loops over rows.** -/
theorem PagesVisited.preserves {P : RowView → MetaTable → Prop} {pageIds : List DataPageId}
    {mt mt' : MetaTable} (h : PagesVisited R ids pageIds v mt v' mt')
    (hrow : ∀ pageId ∈ pageIds, ∀ i row s s', Target s.1 ids pageId i row →
      R pageId i row s s' → P s.1 s.2.mt → P s'.1 s'.2.mt)
    (hleave : ∀ pageId s, P s.1 s.2.mt → P (leave pageId s) s.2.mt) (hv : P v mt) :
    P v' mt' := by
  induction h with
  | nil v mt => exact hv
  | cons hpage hvisits _ ih =>
    refine ih (fun pageId hpageId => hrow pageId (List.mem_cons_of_mem _ hpageId))
      (hleave _ _ ?_)
    exact hvisits.preserves (hrow _ List.mem_cons_self) hv

/-- Without a row to be changed the inner loop does nothing. -/
theorem Visits.eq_of_no_target {pageId : DataPageId} {positions : List ℕ} {s t : LoopState}
    (h : Visits R ids pageId positions s t)
    (hnone : ∀ i row, ¬ Target s.1 ids pageId i row) : t = s := by
  induction h with
  | nil s => rfl
  | skip _ _ ih => exact ih hnone
  | change htarget _ _ _ => exact absurd htarget (hnone _ _)

/-- **Without a row to be changed an operation does nothing.** -/
theorem PagesVisited.eq_of_no_target {pageIds : List DataPageId} {mt mt' : MetaTable}
    (h : PagesVisited R ids pageIds v mt v' mt')
    (hnone : ∀ pageId ∈ pageIds, ∀ i row, ¬ Target v ids pageId i row) :
    v' = v ∧ mt' = mt := by
  induction h with
  | nil v mt => exact ⟨rfl, rfl⟩
  | cons hpage hvisits _ ih =>
    have hs := hvisits.eq_of_no_target (hnone _ List.mem_cons_self)
    subst hs
    exact ih fun pageId hpageId => hnone pageId (List.mem_cons_of_mem _ hpageId)

/-- The inner loop passes over all rows or changes one of them first. -/
theorem Visits.first_change {pageId : DataPageId} {positions : List ℕ} {s t : LoopState}
    (h : Visits R ids pageId positions s t) :
    (t = s ∧ ∀ i ∈ positions, Skipped s.1 ids pageId i)
      ∨ ∃ i row s' rest, Target s.1 ids pageId i row ∧ R pageId i row s s'
        ∧ Visits R ids pageId rest s' t := by
  induction h with
  | nil s => exact .inl ⟨rfl, by simp⟩
  | skip hskip _ ih =>
    rcases ih with ⟨heq, hall⟩ | hfirst
    · exact .inl ⟨heq, fun i hi => (List.mem_cons.mp hi).elim (fun h => h ▸ hskip) (hall i)⟩
    · exact .inr hfirst
  | change htarget hR hrest _ => exact .inr ⟨_, _, _, _, htarget, hR, hrest⟩

/-- **An operation reaches the rows to be changed**: when there is one, what
each change brings about holds in the end. -/
theorem PagesVisited.reaches {I P : RowView → MetaTable → Prop} {pageIds : List DataPageId}
    {mt mt' : MetaTable} (h : PagesVisited R ids pageIds v mt v' mt')
    (hrow : ∀ pageId ∈ pageIds, ∀ i row s s', Target s.1 ids pageId i row →
      R pageId i row s s' → I s.1 s.2.mt → I s'.1 s'.2.mt ∧ P s'.1 s'.2.mt)
    (hleave : ∀ pageId s, I s.1 s.2.mt ∧ P s.1 s.2.mt →
      I (leave pageId s) s.2.mt ∧ P (leave pageId s) s.2.mt)
    (hsome : ∃ pageId ∈ pageIds, ∃ i row, Target v ids pageId i row) (hv : I v mt) :
    I v' mt' ∧ P v' mt' := by
  induction h with
  | nil v mt =>
    obtain ⟨pageId, hmem, _⟩ := hsome
    cases hmem
  | @cons pageId rest p v v' mt mt' s hpage hvisits hpages ih =>
    have htail : ∀ id ∈ rest, id ∈ pageId :: rest := fun _ => List.mem_cons_of_mem pageId
    rcases hvisits.first_change with ⟨heq, hall⟩ | ⟨i, row, s', rest', htarget, hR, hvisits'⟩
    · subst heq
      refine ih (fun id hid => hrow id (htail id hid)) ?_ hv
      obtain ⟨id, hid, i, row, htarget⟩ := hsome
      rcases List.mem_cons.mp hid with rfl | hid
      · obtain ⟨q, hq, hrowq, hin, hlive⟩ := htarget
        obtain rfl := Option.some.inj (hpage.symm.trans hq)
        have hi : i ∈ List.range p.rows.length :=
          List.mem_range.mpr (List.getElem?_eq_some_iff.mp hrowq).1
        obtain ⟨q', row', hq', hrowq', hskip⟩ := hall i hi
        obtain rfl := Option.some.inj (hpage.symm.trans hq')
        obtain rfl := Option.some.inj (hrowq.symm.trans hrowq')
        rcases hskip with h | h
        · exact absurd hin h
        · rw [hlive] at h
          cases h
      · exact ⟨id, hid, i, row, htarget⟩
    · have hvisit : I s.1 s.2.mt ∧ P s.1 s.2.mt :=
        hvisits'.preserves (P := fun w mw => I w mw ∧ P w mw)
          (fun i' row' u u' ht hu hI => hrow pageId List.mem_cons_self i' row' u u' ht hu hI.1)
          (hrow pageId List.mem_cons_self i row _ s' htarget hR hv)
      exact hpages.preserves (P := fun w mw => I w mw ∧ P w mw)
        (fun id hid i' row' u u' ht hu hI => hrow id (htail id hid) i' row' u u' ht hu hI.1)
        hleave (hleave pageId s hvisit)

/-- **A change stays on its page**: there it marks the row at its position, and
what it adds comes at the end. -/
def OnPage (R : DataPageId → ℕ → DataRow → LoopState → LoopState → Prop) : Prop :=
  ∀ pageId i row s s', R pageId i row s s' →
    (∀ id, id ≠ pageId → s'.1.page id = s.1.page id)
      ∧ ∀ p, s.1.page pageId = some p → ∃ p' extra, s'.1.page pageId = some p'
        ∧ p'.rows = p.rows.modify i DataRow.markObsolete ++ extra

/-- The part of a page's rows that the inner loop has yet to come to is as it
was when the loop began. -/
def Unvisited (pageId : DataPageId) (positions : List ℕ) (rest : List DataRow) (v : RowView) :
    Prop :=
  ∃ before after p, v.page pageId = some p ∧ p.rows = before ++ rest ++ after
    ∧ positions = List.range' before.length rest.length

theorem Unvisited.cons {pageId : DataPageId} {i : ℕ} {positions : List ℕ} {rest : List DataRow}
    (h : Unvisited pageId (i :: positions) rest v) :
    ∃ row rest', rest = row :: rest' ∧ Unvisited pageId positions rest' v
      ∧ ∃ p, v.page pageId = some p ∧ p.rows[i]? = some row := by
  obtain ⟨before, after, p, hpage, hrows, hpos⟩ := h
  cases rest with
  | nil => cases hpos
  | cons row rest' =>
    rw [List.length_cons, List.range'_succ] at hpos
    obtain ⟨rfl, htail⟩ := List.cons.inj hpos
    refine ⟨row, rest', rfl, ⟨before ++ [row], after, p, hpage, by rw [hrows]; simp, ?_⟩, p, hpage,
      ?_⟩
    · rw [htail, List.length_append]
      rfl
    · rw [hrows, List.append_assoc, List.getElem?_append_right le_rfl, Nat.sub_self]
      rfl

/-- A change leaves the rows that are yet to come as they are. -/
theorem Unvisited.change (hR : OnPage R) {pageId : DataPageId} {i : ℕ} {positions : List ℕ}
    {row : DataRow} {rest : List DataRow} {s s' : LoopState}
    (h : Unvisited pageId (i :: positions) (row :: rest) s.1) (hrow : R pageId i row s s') :
    Unvisited pageId positions rest s'.1 := by
  obtain ⟨before, after, p, hpage, hrows, hpos⟩ := h
  rw [List.length_cons, List.range'_succ] at hpos
  obtain ⟨rfl, htail⟩ := List.cons.inj hpos
  obtain ⟨p', extra, hpage', hrows'⟩ := (hR _ _ _ _ _ hrow).2 p hpage
  refine ⟨before ++ [row.markObsolete], after ++ extra, p', hpage', ?_, ?_⟩
  · rw [hrows', hrows, List.append_assoc, List.cons_append, modify_append_cons]
    simp
  · rw [htail, List.length_append]
    rfl

/-- **The rule for the inner loop, row by row**: `P` is about the rows that are
yet to come. -/
theorem Visits.rows_rule (hR : OnPage R) {P : List DataRow → RowView → MetaTable → Prop}
    {pageId : DataPageId} {positions more : List ℕ} {s t : LoopState}
    (h : Visits R ids pageId positions s t) {rest later : List DataRow}
    (hrest : Unvisited pageId (positions ++ more) rest s.1)
    (hskip : ∀ row rest w mw, row.id ∉ ids ∨ row.obsolete = true → P (row :: rest) w mw →
      P rest w mw)
    (hchange : ∀ i row rest s s', Target s.1 ids pageId i row → R pageId i row s s' →
      P (row :: rest) s.1 s.2.mt → P rest s'.1 s'.2.mt)
    (hs : P (rest ++ later) s.1 s.2.mt) :
    ∃ rest', Unvisited pageId more rest' t.1 ∧ P (rest' ++ later) t.1 t.2.mt := by
  induction h generalizing rest with
  | nil s => exact ⟨rest, hrest, hs⟩
  | skip hskipped _ ih =>
    obtain ⟨row, rest', rfl, hrest', p, hpage, hrow⟩ := Unvisited.cons hrest
    obtain ⟨q, row', hq, hrow', hnot⟩ := hskipped
    obtain rfl := Option.some.inj (hpage.symm.trans hq)
    obtain rfl := Option.some.inj (hrow.symm.trans hrow')
    exact ih hrest' (hskip row _ _ _ hnot hs)
  | change htarget hchanged _ ih =>
    obtain ⟨row, rest', rfl, _, p, hpage, hrow⟩ := Unvisited.cons hrest
    obtain ⟨q, hq, hrow', hid, hlive⟩ := htarget
    obtain rfl := Option.some.inj (hpage.symm.trans hq)
    obtain rfl := Option.some.inj (hrow.symm.trans hrow')
    exact ih (Unvisited.change hR hrest hchanged)
      (hchange _ row _ _ _ ⟨p, hpage, hrow, hid, hlive⟩ hchanged hs)

/-- Nothing is left when the loop is over. -/
theorem Unvisited.eq_nil {pageId : DataPageId} {rest : List DataRow}
    (h : Unvisited pageId [] rest v) : rest = [] := by
  obtain ⟨_, _, _, _, _, hpos⟩ := h
  exact List.length_eq_zero_iff.mp (List.range'_eq_nil_iff.mp hpos.symm)

/-- The rows a page begins with are all yet to come. -/
theorem unvisited_enter {pageId : DataPageId} {p : DataPage} (hpage : v.page pageId = some p) :
    Unvisited pageId (List.range p.rows.length) p.rows v :=
  ⟨[], [], p, hpage, by simp, by rw [List.range_eq_range']; rfl⟩

/-- A page that the inner loop is not on stays. -/
theorem Visits.page_of_ne (hR : OnPage R) {pageId id : DataPageId} {positions : List ℕ}
    {s t : LoopState} (h : Visits R ids pageId positions s t) (hid : id ≠ pageId) :
    t.1.page id = s.1.page id := by
  induction h with
  | nil s => rfl
  | skip _ _ ih => exact ih
  | change _ hrow _ ih => rw [ih, (hR _ _ _ _ _ hrow).1 id hid]

theorem leave_page_of_ne {pageId id : DataPageId} (s : LoopState) (hid : id ≠ pageId) :
    (leave pageId s).page id = s.1.page id := by
  unfold leave
  split_ifs
  · exact Function.update_of_ne hid _ _
  · rfl

/-- A page that the loops do not come to stays. -/
theorem PagesVisited.page_of_not_mem (hR : OnPage R) {id : DataPageId}
    {pageIds : List DataPageId} {mt mt' : MetaTable}
    (h : PagesVisited R ids pageIds v mt v' mt') (hid : id ∉ pageIds) : v'.page id = v.page id := by
  induction h with
  | nil => rfl
  | @cons pageId rest p v v' mt mt' s _ hvisits _ ih =>
    have hne : id ≠ pageId := fun heq => hid (heq ▸ List.mem_cons_self)
    rw [ih fun hin => hid (List.mem_cons_of_mem _ hin), leave_page_of_ne s hne,
      hvisits.page_of_ne hR hne]
    rfl

/-- The rows of a page that is there. -/
theorem pageRows_eq {id : DataPageId} {p : DataPage} (h : v.page id = some p) :
    v.pageRows id = p.rows := by
  unfold pageRows
  rw [h]
  rfl

/-- **The rule for the loops over the rows of a table, row by row.** -/
theorem PagesVisited.rows_rule (hR : OnPage R) {P : List DataRow → RowView → MetaTable → Prop}
    {pageIds : List DataPageId} {mt mt' : MetaTable}
    (h : PagesVisited R ids pageIds v mt v' mt') (hnodup : pageIds.Nodup) {later : List DataRow}
    (hskip : ∀ row rest w mw, row.id ∉ ids ∨ row.obsolete = true → P (row :: rest) w mw →
      P rest w mw)
    (hchange : ∀ pageId ∈ pageIds, ∀ i row rest s s', Target s.1 ids pageId i row →
      R pageId i row s s' → P (row :: rest) s.1 s.2.mt → P rest s'.1 s'.2.mt)
    (hleave : ∀ pageId rest s, P rest s.1 s.2.mt → P rest (leave pageId s) s.2.mt)
    (hv : P (pageIds.flatMap v.pageRows ++ later) v mt) : P later v' mt' := by
  induction h with
  | nil v mt => exact hv
  | @cons pageId rest p v v' mt mt' s hpage hvisits _ ih =>
    obtain ⟨hnot, hnodup'⟩ := List.nodup_cons.mp hnodup
    have hlater : rest.flatMap (leave pageId s).pageRows = rest.flatMap v.pageRows := by
      refine List.flatMap_congr fun id hid => ?_
      have hne : id ≠ pageId := fun heq => hnot (heq ▸ hid)
      unfold pageRows
      rw [leave_page_of_ne s hne, hvisits.page_of_ne hR hne]
      rfl
    rw [List.flatMap_cons, pageRows_eq hpage, List.append_assoc] at hv
    refine ih hnodup' (fun id hid => hchange id (List.mem_cons_of_mem _ hid)) ?_
    rw [hlater]
    refine hleave _ _ _ ?_
    have henter : Unvisited pageId (List.range p.rows.length ++ []) p.rows v := by
      rw [List.append_nil]
      exact unvisited_enter hpage
    obtain ⟨rest', hrest', hP⟩ := hvisits.rows_rule hR henter hskip
      (hchange pageId List.mem_cons_self) hv
    rwa [hrest'.eq_nil] at hP

/-- **The rule for loops that throw**: the row they throw at was the next to
come. -/
theorem PagesThrow.rows_rule (hR : OnPage R)
    {F : DataPageId → ℕ → DataRow → LoopState → RowView → Prop}
    {P : List DataRow → RowView → MetaTable → Prop} {pageIds : List DataPageId} {mt : MetaTable}
    (h : PagesThrow R F ids pageIds v mt v') (hnodup : pageIds.Nodup)
    (hskip : ∀ row rest w mw, row.id ∉ ids ∨ row.obsolete = true → P (row :: rest) w mw →
      P rest w mw)
    (hchange : ∀ pageId ∈ pageIds, ∀ i row rest s s', Target s.1 ids pageId i row →
      R pageId i row s s' → P (row :: rest) s.1 s.2.mt → P rest s'.1 s'.2.mt)
    (hleave : ∀ pageId rest s, P rest s.1 s.2.mt → P rest (leave pageId s) s.2.mt)
    (hv : P (pageIds.flatMap v.pageRows) v mt) :
    ∃ pageId ∈ pageIds, ∃ i row rest s, Target s.1 ids pageId i row
      ∧ P (row :: rest) s.1 s.2.mt ∧ F pageId i row s v' := by
  obtain ⟨done, pageId, after, w, mtw, p, rfl, hdone, hpage, hthrow⟩ := h
  obtain ⟨positions, i, positions', row, t, hpos, hvisits, htarget, hfail⟩ := hthrow
  have hparts := List.nodup_append.mp hnodup
  have hnot : pageId ∉ done := fun hin => hparts.2.2 pageId hin pageId List.mem_cons_self rfl
  have hpage' : v.page pageId = some p := (hdone.page_of_not_mem hR hnot).symm.trans hpage
  rw [List.flatMap_append] at hv
  have hw := hdone.rows_rule hR hparts.1 hskip
    (fun id hid => hchange id (List.mem_append_left _ hid)) hleave hv
  rw [List.flatMap_cons, pageRows_eq hpage'] at hw
  have hrest := unvisited_enter hpage
  rw [hpos] at hrest
  obtain ⟨rest', hrest', hP⟩ := hvisits.rows_rule hR hrest hskip
    (hchange pageId (by simp)) hw
  obtain ⟨row', rest'', rfl, _, q, hq, hrow'⟩ := hrest'.cons
  have htarget' := htarget
  obtain ⟨q', hq', hrow, _⟩ := htarget
  obtain rfl := Option.some.inj (hq.symm.trans hq')
  obtain rfl := Option.some.inj (hrow.symm.trans hrow')
  exact ⟨pageId, by simp, i, row, rest'' ++ after.flatMap v.pageRows, t, htarget', hP, hfail⟩

end Loops

/-- The page of a row that has been updated. -/
theorem replaced_page {pageId : DataPageId} {p : DataPage} (h : v.page pageId = some p) (i : ℕ)
    (row newRow : DataRow) (unchangedMt mt : MetaTable) :
    (v.replaced pageId i row newRow unchangedMt mt).page pageId
      = some { p with
          rows := p.rows.modify i DataRow.markObsolete ++ [newRow]
          maxRid := max p.maxRid newRow.id } :=
  assign_page (v := (((v.superseded pageId i (numbered mt)).save (counted mt)).log _).log _)
    (assign_page (v := v.save (numbered mt)) h _) _

/-- An update of a row stays on its page. -/
theorem onPage_updates (update : RowUpdate) (unchangedMt : MetaTable) :
    OnPage (Updates update unchangedMt) := by
  intro pageId i row s s' h
  cases h with
  | @intro v loop tokens _ =>
    refine ⟨fun id hid => ?_, fun p hp => ⟨_, [_], replaced_page hp _ _ _ _ _, rfl⟩⟩
    show Function.update (Function.update v.page pageId _) pageId _ id = v.page id
    rw [Function.update_of_ne hid, Function.update_of_ne hid]

/-- A delete of a row stays on its page. -/
theorem onPage_deletes (unchangedMt : MetaTable) : OnPage (Deletes unchangedMt) := by
  intro pageId i row s s' h
  cases h with
  | @intro v loop =>
    exact ⟨fun id hid => Function.update_of_ne hid _ _, fun p hp =>
      ⟨_, [], assign_page (v := v.save (discounted loop.mt)) hp _, (List.append_nil _).symm⟩⟩

/-- A table with other counters. -/
structure Recounted (mt mt' : MetaTable) : Prop where
  id : mt'.id = mt.id
  schemaId : mt'.schemaId = mt.schemaId
  name : mt'.name = mt.name
  columns : mt'.columns = mt.columns
  indexes : mt'.indexes = mt.indexes

theorem Recounted.trans {mt mt' mt'' : MetaTable} (h : Recounted mt mt')
    (h' : Recounted mt' mt'') : Recounted mt mt'' :=
  ⟨h'.id.trans h.id, h'.schemaId.trans h.schemaId, h'.name.trans h.name,
    h'.columns.trans h.columns, h'.indexes.trans h.indexes⟩

theorem recounted_discounted (mt : MetaTable) : Recounted mt (discounted mt) :=
  ⟨rfl, rfl, rfl, rfl, rfl⟩

theorem recounted_numbered (mt : MetaTable) : Recounted mt (numbered mt) :=
  ⟨rfl, rfl, rfl, rfl, rfl⟩

theorem recounted_counted (mt : MetaTable) : Recounted mt (counted mt) :=
  ⟨rfl, rfl, rfl, rfl, rfl⟩

/-- **Where the loops over one table can lead**: only its counters and rows
have changed. -/
structure Within (v : RowView) (mt : MetaTable) (w : RowView) (mw : MetaTable) : Prop where
  keeps : Keeps v w
  same : Recounted mt mw
  entries : ∀ t, w.entry t = if mt.id = t then some mw else v.entry t
  others : ∀ t, t ≠ mt.id → w.rows t = v.rows t

namespace Within

variable {w : RowView} {mt mw : MetaTable}

theorem refl (hentry : v.entry mt.id = some mt) : Within v mt v mt := by
  refine ⟨.refl v, ⟨rfl, rfl, rfl, rfl, rfl⟩, fun t => ?_, fun _ _ => rfl⟩
  split_ifs with ht
  · rw [← ht, hentry]
  · rfl

/-- A step on a page of the table that saves the table with other counters. -/
theorem step (h : Within v mt w mw) (hok : v.Ok) {w' : RowView} {mw' : MetaTable}
    {pageId : DataPageId} (hmem : pageId ∈ v.ids mt.id) (hkeeps : Keeps w w')
    (hsame : Recounted mw mw')
    (hentries : ∀ t, w'.entry t = if mw.id = t then some mw' else w.entry t)
    (hothers : ∀ t, pageId ∉ w.ids t → w'.rows t = w.rows t) : Within v mt w' mw' where
  keeps := h.keeps.trans hkeeps
  same := h.same.trans hsame
  entries t := by
    rw [hentries, h.same.id, h.entries]
    split_ifs <;> rfl
  others t ht := by
    rw [hothers t ?_, h.others t ht]
    rw [h.keeps.ids]
    exact fun hin => ht (hok.table_eq hin hmem)

theorem superseded (h : Within v mt w mw) (hok : v.Ok) {pageId : DataPageId}
    (hmem : pageId ∈ v.ids mt.id) (i : ℕ) {mw' : MetaTable}
    (hsame : Recounted mw mw') :
    Within v mt (w.superseded pageId i mw') mw' := by
  refine h.step hok hmem (keeps_superseded w pageId i mw') hsame (fun t => ?_)
    fun t hnot => superseded_rows_of_not_mem i mw' hnot
  rw [entry_superseded, hsame.id]

theorem replaced (h : Within v mt w mw) (hok : v.Ok) {pageId : DataPageId}
    (hmem : pageId ∈ v.ids mt.id) (i : ℕ) (row newRow : DataRow) (unchangedMt : MetaTable) :
    Within v mt (w.replaced pageId i row newRow unchangedMt mw) (counted mw) :=
  h.step hok hmem (keeps_replaced w pageId i row newRow unchangedMt mw)
    (recounted_counted mw)
    (fun t => entry_replaced w pageId i row newRow unchangedMt mw t)
    fun _ hnot => replaced_rows_of_not_mem i row newRow unchangedMt mw hnot

theorem leave {s : LoopState} (h : Within v mt s.1 s.2.mt) (pageId : DataPageId) :
    Within v mt (leave pageId s) s.2.mt where
  keeps := h.keeps.trans (keeps_leave pageId s)
  same := h.same
  entries t := by rw [entry_leave]; exact h.entries t
  others t ht := by rw [rows_leave]; exact h.others t ht

theorem updates {update : RowUpdate} {unchangedMt : MetaTable} {pageId : DataPageId} {i : ℕ}
    {row : DataRow} {s s' : LoopState} (h : Within v mt s.1 s.2.mt) (hok : v.Ok)
    (hmem : pageId ∈ v.ids mt.id) (hupdate : Updates update unchangedMt pageId i row s s') :
    Within v mt s'.1 s'.2.mt := by
  cases hupdate with
  | intro => exact h.replaced hok hmem i _ _ _

theorem deletes {unchangedMt : MetaTable} {pageId : DataPageId} {i : ℕ} {row : DataRow}
    {s s' : LoopState} (h : Within v mt s.1 s.2.mt) (hok : v.Ok) (hmem : pageId ∈ v.ids mt.id)
    (hdelete : Deletes unchangedMt pageId i row s s') : Within v mt s'.1 s'.2.mt := by
  cases hdelete with
  | intro =>
    have hstep := h.superseded hok hmem i (recounted_discounted _)
    exact ⟨hstep.keeps.trans ((keeps_log _ _).trans (keeps_log _ _)), hstep.same, hstep.entries,
      hstep.others⟩

end Within

/-- A row to be changed is a row of the table that is not obsolete. -/
theorem exists_target_iff (hok : v.Ok) {tableId : TableId} {ids : List ℕ} :
    (∃ pageId ∈ v.ids tableId, ∃ i row, Target v ids pageId i row)
      ↔ ∃ row ∈ v.rows tableId, row.id ∈ ids ∧ row.obsolete = false := by
  constructor
  · rintro ⟨pageId, hmem, i, row, p, hpage, hrow, hid, hlive⟩
    refine ⟨row, List.mem_flatMap.mpr ⟨pageId, hmem, ?_⟩, hid, hlive⟩
    unfold pageRows
    rw [hpage]
    exact List.mem_of_getElem? hrow
  · rintro ⟨row, hrow, hid, hlive⟩
    obtain ⟨pageId, hmem, hrow⟩ := List.mem_flatMap.mp hrow
    obtain ⟨p, hpage, _⟩ := hok.listed tableId pageId hmem
    unfold pageRows at hrow
    rw [hpage] at hrow
    obtain ⟨i, hi⟩ := List.getElem?_of_mem hrow
    exact ⟨pageId, hmem, i, row, p, hpage, hi, hid, hlive⟩

end RowView

namespace StdDbInstance

/-- The table that a call looks up is in the catalog. -/
theorem LooksUp.mem {db : StdDbInstance} {tableName schemaName : Bytes} {mt : MetaTable}
    (h : LooksUp db tableName schemaName mt) : mt ∈ db.catalog.tables := by
  obtain ⟨ms, _, htable⟩ := h
  exact List.mem_of_find?_eq_some htable

/-- It is there under its id. -/
theorem LooksUp.entry {db : StdDbInstance} {tableName schemaName : Bytes} {mt : MetaTable}
    (h : LooksUp db tableName schemaName mt) : db.rowView.entry mt.id = some mt :=
  RowView.entry_of_mem (v := db.rowView) h.mem

/-- A table that is saved with other counters is looked up like that. -/
theorem LooksUp.recounted {db db' : StdDbInstance} {tableName schemaName : Bytes}
    {mt mt' : MetaTable} (h : LooksUp db tableName schemaName mt) (hsame : RowView.Recounted mt mt')
    (hcatalog : db'.catalog = db.catalog.saveTable mt') : LooksUp db' tableName schemaName mt' := by
  obtain ⟨ms, hschema, htable⟩ := h
  have hfound := List.find?_some htable
  refine ⟨ms, by rw [hcatalog]; exact hschema, ?_⟩
  rw [hcatalog]
  refine find?_upsert_of_find? htable hsame.id.symm ?_
  rw [hsame.name, hsame.schemaId]
  exact hfound

/-- A call looks up one table. -/
theorem LooksUp.eq {db : StdDbInstance} {tableName schemaName : Bytes} {mt mt' : MetaTable}
    (h : LooksUp db tableName schemaName mt) (h' : LooksUp db tableName schemaName mt') :
    mt = mt' := by
  obtain ⟨ms, hschema, htable⟩ := h
  obtain ⟨ms', hschema', htable'⟩ := h'
  obtain rfl := Option.some.inj (hschema.symm.trans hschema')
  exact Option.some.inj (htable.symm.trans htable')

end StdDbInstance
