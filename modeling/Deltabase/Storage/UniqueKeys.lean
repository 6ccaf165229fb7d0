import Deltabase.Storage.FailedCalls

/-!
# Unique indexes

A unique index should keep the live rows of its table apart: no two of them hold
equal values in its column, `NULL` excepted. Whether it does is decided at three
places.

`insert_row` asks the index for the value and looks at the one row it is
pointed to. Entries are never removed, so that row may be obsolete while another
row with the value is live; the insert then goes through. `update_row` appends
the new version before it asks, so that a refused value is in the table.
`create_index` compares bytes, and equal values need not have equal bytes.

`Careful` excludes these three, in terms of the state before a call. In a run
of careful calls, whether they succeed or throw, the live rows stay apart.
-/

/-! ## Values of rows in indexes -/

/-- The value a row has in a column; none when it is `NULL`. -/
def columnValue (mt : MetaTable) (columnId : ColumnId) (tokens : List DataToken) :
    Option DataToken :=
  match mt.getColumnIdx columnId with
  | .ok colIdx => (tokens[colIdx]?).filter fun key => key.type ≠ .null
  | .error _ => none

/-- **Two rows are apart in a column**: they do not hold equal values. -/
def Apart (mt : MetaTable) (columnId : ColumnId) (a b : List DataToken) : Prop :=
  ∀ k ∈ columnValue mt columnId a, ∀ k' ∈ columnValue mt columnId b, k.eq k' = false

/-- The value that an index gets for a row. -/
theorem columnValue_of_indexKey {mt : MetaTable} {mi : MetaIndex} {row : DataRow}
    {key k : DataToken} (hkey : StdDbInstance.indexKey mt mi row = .ok key)
    (hk : k ∈ columnValue mt mi.columnId row.tokens) : k = key ∧ key.type ≠ .null := by
  unfold StdDbInstance.indexKey at hkey
  unfold columnValue at hk
  cases hidx : mt.getColumnIdx mi.columnId with
  | error e => rw [hidx] at hkey; cases hkey
  | ok colIdx =>
    rw [hidx] at hkey hk
    dsimp only [bind, Except.bind] at hkey
    cases htoken : row.tokens[colIdx]? with
    | none => rw [htoken] at hkey; cases hkey
    | some token =>
      rw [htoken] at hkey
      obtain rfl := Except.ok.inj hkey
      simp only [htoken, Option.mem_def, Option.filter_eq_some_iff] at hk
      obtain rfl := Option.some.inj hk.1
      exact ⟨rfl, of_decide_eq_true hk.2⟩

theorem doubleEq_comm (a b : ℕ) : doubleEq a b = doubleEq b a := by
  unfold doubleEq
  rw [Bool.and_comm (!isNaN a)]
  congr 1
  exact decide_eq_decide.mpr eq_comm

theorem DataToken.eq_symm (a b : DataToken) : a.eq b = b.eq a := by
  unfold DataToken.eq
  by_cases h : a.type = b.type
  · rw [if_neg (not_not.mpr h), if_neg (not_not.mpr h.symm), ← h]
    cases a.type with
    | null => rfl
    | real => exact doubleEq_comm _ _
    | bool => exact BEq.comm
    | integer => exact decide_eq_decide.mpr eq_comm
    | char => exact decide_eq_decide.mpr eq_comm
    | string => exact decide_eq_decide.mpr eq_comm
    | undefined => exact decide_eq_decide.mpr eq_comm
    | other raw hraw => exact decide_eq_decide.mpr eq_comm
  · rw [if_pos h, if_pos fun heq => h heq.symm]

theorem Apart.symm {mt : MetaTable} {columnId : ColumnId} {a b : List DataToken}
    (h : Apart mt columnId a b) : Apart mt columnId b a := by
  intro k hk k' hk'
  rw [DataToken.eq_symm]
  exact h k' hk' k hk

/-- What rows hold in a column depends on the columns of the table. -/
theorem columnValue_congr {mt mt' : MetaTable} (h : mt'.columns = mt.columns)
    (columnId : ColumnId) : columnValue mt' columnId = columnValue mt columnId := by
  funext tokens
  unfold columnValue MetaTable.getColumnIdx
  rw [h]

theorem apart_congr {mt mt' : MetaTable} (h : mt'.columns = mt.columns) (columnId : ColumnId) :
    Apart mt' columnId = Apart mt columnId := by
  funext a b
  unfold Apart
  rw [columnValue_congr h]

/-- The rows that are not obsolete, as lists of values. -/
def liveTokens (rows : List DataRow) : List (List DataToken) :=
  (rows.filter fun row => !row.obsolete).map DataRow.tokens

theorem liveTokens_append (rows rows' : List DataRow) :
    liveTokens (rows ++ rows') = liveTokens rows ++ liveTokens rows' := by
  unfold liveTokens
  rw [List.filter_append, List.map_append]

theorem liveTokens_cons_live {row : DataRow} (h : row.obsolete = false) (rows : List DataRow) :
    liveTokens (row :: rows) = row.tokens :: liveTokens rows := by
  unfold liveTokens
  rw [List.filter_cons_of_pos (by rw [h]; rfl), List.map_cons]

theorem liveTokens_cons_obsolete {row : DataRow} (h : row.obsolete = true)
    (rows : List DataRow) : liveTokens (row :: rows) = liveTokens rows := by
  unfold liveTokens
  rw [List.filter_cons_of_neg (by rw [h]; simp)]

/-- A live row that is added. -/
theorem Added.live_perm {row : DataRow} {rows rows' : List DataRow} (h : Added row rows rows')
    (hlive : row.obsolete = false) :
    (liveTokens rows').Perm (row.tokens :: liveTokens rows) := by
  obtain ⟨l₁, l₂, rfl, rfl⟩ := h
  rw [liveTokens_append, liveTokens_append, liveTokens_cons_live hlive]
  exact List.perm_middle

/-- A live row that is marked. -/
theorem Marked.live_perm {row : DataRow} {rows rows' : List DataRow} (h : Marked row rows rows')
    (hlive : row.obsolete = false) :
    (liveTokens rows).Perm (row.tokens :: liveTokens rows') := by
  obtain ⟨l₁, l₂, rfl, rfl⟩ := h
  rw [liveTokens_append, liveTokens_append, liveTokens_cons_live hlive,
    liveTokens_cons_obsolete (DataRow.obsolete_markObsolete row)]
  exact List.perm_middle

/-! ## The invariant -/

namespace RowView

variable {v v' w : RowView} {mt mt' mw : MetaTable}

/-- **The rows of every table are apart in its unique indexes.** -/
def UniqueKeys (v : RowView) : Prop :=
  ∀ tableId mt, v.entry tableId = some mt → ∀ mi ∈ mt.indexes, mi.isUnique = true →
    (liveTokens (v.rows tableId)).Pairwise (Apart mt mi.columnId)

/-- A state between two calls. -/
structure Sound (v : RowView) : Prop where
  ok : v.Ok
  /-- The indexes of a table have ids of their own. -/
  indexes : ∀ tableId mt, v.entry tableId = some mt →
    (mt.indexes.map MetaIndex.id).Nodup ∧ ∀ mi ∈ mt.indexes, mi.id < v.clock
  unique : v.UniqueKeys

/-- A state stays sound when only one table changes, in counters and rows, and
its rows are apart. -/
theorem Sound.of_table (h : v.Sound) (hentry : v.entry mt.id = some mt) (hok : v'.Ok)
    (hclock : v.clock ≤ v'.clock) (hsame : Recounted mt mt')
    (hentries : ∀ t, v'.entry t = if mt.id = t then some mt' else v.entry t)
    (hothers : ∀ t, t ≠ mt.id → v'.rows t = v.rows t)
    (hunique : ∀ mi ∈ mt.indexes, mi.isUnique = true →
      (liveTokens (v'.rows mt.id)).Pairwise (Apart mt mi.columnId)) : v'.Sound where
  ok := hok
  indexes t m hm := by
    rw [hentries] at hm
    split_ifs at hm with ht
    · obtain rfl := Option.some.inj hm
      rw [hsame.indexes]
      obtain ⟨hnodup, hlt⟩ := h.indexes mt.id mt hentry
      exact ⟨hnodup, fun mi hmi => (hlt mi hmi).trans_le hclock⟩
    · obtain ⟨hnodup, hlt⟩ := h.indexes t m hm
      exact ⟨hnodup, fun mi hmi => (hlt mi hmi).trans_le hclock⟩
  unique t m hm mi hmi hu := by
    rw [hentries] at hm
    split_ifs at hm with ht
    · obtain rfl := Option.some.inj hm
      rw [hsame.indexes] at hmi
      rw [← ht, apart_congr hsame.columns]
      exact hunique mi hmi hu
    · rw [hothers t fun heq => ht heq.symm]
      exact h.unique t m hm mi hmi hu

theorem Sound.of_within (h : v.Sound) (hentry : v.entry mt.id = some mt) (hw : Within v mt w mw)
    (hunique : ∀ mi ∈ mt.indexes, mi.isUnique = true →
      (liveTokens (w.rows mt.id)).Pairwise (Apart mt mi.columnId)) : w.Sound :=
  h.of_table hentry (hw.keeps.ok h.ok) hw.keeps.clock.ge hw.same hw.entries hw.others hunique

/-! ## Deleting -/

/-- Marking a row keeps the others apart. -/
theorem pairwise_of_marked {R : List DataToken → List DataToken → Prop} {row : DataRow}
    {rows rows' : List DataRow} (h : Marked row rows rows') (hlive : row.obsolete = false)
    (hR : ∀ {a b}, R a b → R b a) (hpair : (liveTokens rows).Pairwise R) :
    (liveTokens rows').Pairwise R :=
  (List.pairwise_cons.mp (((h.live_perm hlive).pairwise_iff hR).mp hpair)).2

/-- **A delete** keeps a state sound. -/
theorem Sound.deleted {unchangedMt : MetaTable} {ids : List ℕ} (h : v.Sound)
    (hentry : v.entry mt.id = some mt)
    (hpages : PagesVisited (Deletes unchangedMt) ids (v.ids mt.id) v mt v' mt') : v'.Sound := by
  have hend : Within v mt v' mt' ∧ ∀ mi ∈ mt.indexes, mi.isUnique = true →
      (liveTokens (v'.rows mt.id)).Pairwise (Apart mt mi.columnId) := by
    refine hpages.preserves (P := fun w mw => Within v mt w mw
      ∧ ∀ mi ∈ mt.indexes, mi.isUnique = true →
        (liveTokens (w.rows mt.id)).Pairwise (Apart mt mi.columnId))
      (fun pageId hmem i row s s' htarget hdelete ⟨hw, hunique⟩ =>
        ⟨hw.deletes h.ok hmem hdelete, fun mi hmi hu => ?_⟩)
      (fun pageId s ⟨hw, hunique⟩ => ⟨hw.leave pageId, by rw [rows_leave]; exact hunique⟩)
      ⟨.refl hentry, h.unique mt.id mt hentry⟩
    obtain ⟨p, hpage, hrow, _, hlive⟩ := htarget
    cases hdelete with
    | @intro w loop =>
      exact pairwise_of_marked (marked_superseded (hw.keeps.ok h.ok) (discounted loop.mt)
        (hw.keeps.ids ▸ hmem) hpage hrow) hlive Apart.symm (hunique mi hmi hu)
  exact h.of_within hentry hend.1 hend.2

/-! ## Inserting -/

/-- **An insert** keeps a state sound when the new row is apart from the others. -/
theorem Sound.inserted {size : ℕ} {id : DataPageId} {row : DataRow} (h : v.Sound)
    (hentry : v.entry mt.id = some mt) (hsame : Recounted mt mt')
    (hprep : Prepared mt' size (v.save mt') id w) (hlive : row.obsolete = false)
    (hapart : ∀ mi ∈ mt.indexes, mi.isUnique = true →
      ∀ tokens ∈ liveTokens (v.rows mt.id), Apart mt mi.columnId row.tokens tokens) :
    (w.inserted id row mt mt').Sound := by
  obtain ⟨hok, hadd, hothers, hentries⟩ := hprep.inserted h.ok row mt
  rw [hsame.id] at hadd hothers hentries
  refine h.of_table hentry hok hprep.clock_le hsame hentries hothers fun mi hmi hu => ?_
  · rw [(hadd.live_perm hlive).pairwise_iff Apart.symm, List.pairwise_cons]
    exact ⟨hapart mi hmi hu, h.unique mt.id mt hentry mi hmi hu⟩

/-- An insert that fails keeps a state sound. -/
theorem Sound.prepared {size : ℕ} {id : DataPageId} (h : v.Sound)
    (hentry : v.entry mt.id = some mt) (hsame : Recounted mt mt')
    (hprep : Prepared mt' size (v.save mt') id w) : w.Sound := by
  obtain ⟨hok, _, hrows, hentries⟩ := hprep.spec ((keeps_save v mt').ok h.ok)
  have hrows' : ∀ t, w.rows t = v.rows t := fun t => by rw [hrows]; rfl
  refine h.of_table hentry hok hprep.clock_le hsame (fun t => ?_) (fun t _ => hrows' t)
    fun mi hmi hu => ?_
  · rw [hentries, entry_save, hsame.id]
  · rw [hrows']
    exact h.unique mt.id mt hentry mi hmi hu

/-! ## Updating -/

/-- The values that a row has when an update has come past it. -/
def afterUpdate (mt : MetaTable) (update : RowUpdate) (ids : List ℕ) (row : DataRow) :
    List DataToken :=
  if row.id ∈ ids then
    match StdDbInstance.assignTokens mt update row with
    | .ok tokens => tokens
    | .error _ => row.tokens
  else row.tokens

/-- The live rows of a list. -/
def liveRows (rows : List DataRow) : List DataRow := rows.filter fun row => !row.obsolete

/-- **A row that an update comes to is apart from the rows as they are then**:
the rows before it have their new values, and those after it their old ones. -/
def UpdateFree (mt : MetaTable) (update : RowUpdate) (ids : List ℕ) (columnId : ColumnId)
    (rows : List DataRow) : Prop :=
  (liveRows rows).Pairwise fun a b =>
    Apart mt columnId (afterUpdate mt update ids a) b.tokens
      ∧ Apart mt columnId (afterUpdate mt update ids a) (afterUpdate mt update ids b)

/-- The values of the live rows when an update has come past some of them. -/
def midUpdate (mt : MetaTable) (update : RowUpdate) (ids : List ℕ) (done rest : List DataRow) :
    List (List DataToken) :=
  (liveRows done).map (afterUpdate mt update ids) ++ liveTokens rest

/-- In the middle of an update the rows are apart. -/
theorem pairwise_midUpdate {update : RowUpdate} {ids : List ℕ} {columnId : ColumnId}
    {done rest : List DataRow} (hfree : UpdateFree mt update ids columnId (done ++ rest))
    (hpair : (liveTokens (done ++ rest)).Pairwise (Apart mt columnId)) :
    (midUpdate mt update ids done rest).Pairwise (Apart mt columnId) := by
  unfold UpdateFree liveRows at hfree
  unfold liveTokens at hpair
  rw [List.filter_append] at hfree hpair
  rw [List.map_append] at hpair
  obtain ⟨hdone, _, hcross⟩ := List.pairwise_append.mp hfree
  refine List.pairwise_append.mpr ⟨?_, (List.pairwise_append.mp hpair).2.1, fun a ha b hb => ?_⟩
  · exact List.pairwise_map.mpr (hdone.imp fun h => h.2)
  · obtain ⟨x, hx, rfl⟩ := List.mem_map.mp ha
    obtain ⟨y, hy, rfl⟩ := List.mem_map.mp hb
    exact (hcross x hx y hy).1

theorem midUpdate_skip {update : RowUpdate} {ids : List ℕ} {row : DataRow}
    (done rest : List DataRow) (h : row.id ∉ ids ∨ row.obsolete = true) :
    midUpdate mt update ids (done ++ [row]) rest = midUpdate mt update ids done (row :: rest) := by
  unfold midUpdate liveRows
  by_cases hobsolete : row.obsolete = true
  · rw [liveTokens_cons_obsolete hobsolete, List.filter_append,
      List.filter_cons_of_neg (by rw [hobsolete]; simp), List.filter_nil, List.append_nil]
  · have hlive : row.obsolete = false := by simpa using hobsolete
    have hid : row.id ∉ ids := h.resolve_right hobsolete
    rw [liveTokens_cons_live hlive, List.filter_append,
      List.filter_cons_of_pos (by rw [hlive]; rfl), List.filter_nil, List.map_append,
      List.append_assoc]
    show _ ++ ([afterUpdate mt update ids row] ++ _) = _
    unfold afterUpdate
    rw [if_neg hid]
    rfl

/-- The state in which an update comes to a row. -/
def Arrived (v : RowView) (mt : MetaTable) (update : RowUpdate) (ids : List ℕ)
    (rest : List DataRow) (w : RowView) (mw : MetaTable) : Prop :=
  Within v mt w mw ∧ ∃ done, v.rows mt.id = done ++ rest
    ∧ (liveTokens (w.rows mt.id)).Perm (midUpdate mt update ids done rest)

theorem assignTokens_congr {mt mt' : MetaTable} (h : mt'.columns = mt.columns)
    (update : RowUpdate) (row : DataRow) :
    StdDbInstance.assignTokens mt' update row = StdDbInstance.assignTokens mt update row := by
  have htoken : StdDbInstance.assignToken mt' row = StdDbInstance.assignToken mt row := by
    funext tokens assignment
    cases assignment <;> (unfold StdDbInstance.assignToken MetaTable.getColumnIdx; rw [h])
  unfold StdDbInstance.assignTokens
  rw [htoken]

/-- Marking the row that an update has come to. -/
theorem Arrived.superseded {update : RowUpdate} {ids : List ℕ} {row : DataRow}
    {rest : List DataRow} (h : Arrived v mt update ids (row :: rest) w mw) (hok : v.Ok)
    {pageId : DataPageId} {i : ℕ} (hmem : pageId ∈ v.ids mt.id)
    (htarget : Target w ids pageId i row) (mt' : MetaTable) :
    ∃ done, v.rows mt.id = done ++ row :: rest
      ∧ (liveTokens ((w.superseded pageId i mt').rows mt.id)).Perm
        (midUpdate mt update ids done rest) := by
  obtain ⟨hw, done, hrows, hperm⟩ := h
  obtain ⟨p, hpage, hrow, _, hlive⟩ := htarget
  have hmark := marked_superseded (hw.keeps.ok hok) mt' (hw.keeps.ids ▸ hmem) hpage hrow
  refine ⟨done, hrows, ?_⟩
  have hboth : (row.tokens :: liveTokens ((w.superseded pageId i mt').rows mt.id)).Perm
      (row.tokens :: midUpdate mt update ids done rest) := by
    refine (hmark.live_perm hlive).symm.trans (hperm.trans ?_)
    unfold midUpdate
    rw [liveTokens_cons_live hlive]
    exact List.perm_middle
  exact hboth.cons_inv

/-- Updating the row that an update has come to. -/
theorem Arrived.replaced {update : RowUpdate} {ids : List ℕ} {row : DataRow}
    {rest : List DataRow} (h : Arrived v mt update ids (row :: rest) w mw) (hok : v.Ok)
    {pageId : DataPageId} {i : ℕ} (hmem : pageId ∈ v.ids mt.id)
    (htarget : Target w ids pageId i row) {tokens : List DataToken}
    (hassign : StdDbInstance.assignTokens (numbered mw) update row = .ok tokens) (rid : ℕ)
    (unchangedMt : MetaTable) :
    Arrived v mt update ids rest
      (w.replaced pageId i row { row with id := rid, tokens := tokens } unchangedMt mw)
      (counted mw) := by
  obtain ⟨done, hrows, hperm⟩ := h.superseded hok hmem htarget (numbered mw)
  obtain ⟨hw, _⟩ := h
  obtain ⟨p, hpage, hrow, hid, hlive⟩ := htarget
  refine ⟨hw.replaced hok hmem i row _ unchangedMt, done ++ [row], by rw [hrows]; simp, ?_⟩
  have hkeeps := keeps_superseded w pageId i (numbered mw)
  obtain ⟨p', hpage', _⟩ := hkeeps.exists_page hpage
  have hmem' : pageId ∈ (w.superseded pageId i (numbered mw)).ids mt.id := by
    rw [hkeeps.ids, hw.keeps.ids]
    exact hmem
  have hadd : Added { row with id := rid, tokens := tokens } _
      (((w.superseded pageId i (numbered mw)).appended pageId row _ unchangedMt (counted mw)).rows
        mt.id) :=
    added_appended (hkeeps.ok (hw.keeps.ok hok)) unchangedMt (counted mw) hmem' hpage'
  have hafter : afterUpdate mt update ids row = tokens := by
    unfold afterUpdate
    have hcolumns : (numbered mw).columns = mt.columns :=
      (recounted_numbered mw).columns.trans hw.same.columns
    rw [if_pos hid, ← assignTokens_congr hcolumns, hassign]
  refine (hadd.live_perm hlive).trans ((hperm.cons tokens).trans ?_)
  unfold midUpdate liveRows
  rw [List.filter_append, List.filter_cons_of_pos (by rw [hlive]; rfl), List.filter_nil,
    List.map_append, List.append_assoc]
  show List.Perm _ (_ ++ (afterUpdate mt update ids row :: liveTokens rest))
  rw [hafter]
  exact List.perm_middle.symm

/-- **An update** keeps a state sound when each row it comes to is apart from
the rows as they are then, wherever it ends. -/
theorem Sound.updated {update : RowUpdate} {ids : List ℕ} (h : v.Sound)
    (hentry : v.entry mt.id = some mt)
    (hfree : ∀ mi ∈ mt.indexes, mi.isUnique = true →
      UpdateFree mt update ids mi.columnId (v.rows mt.id)) :
    (∀ v' mt', PagesVisited (Updates update mt) ids (v.ids mt.id) v mt v' mt' → v'.Sound)
      ∧ ∀ v', PagesThrow (Updates update mt) (UpdateThrows update mt) ids (v.ids mt.id) v mt v' →
        v'.Sound := by
  -- wherever an update has come to, the rows are apart
  have hsound : ∀ rest w mw, Arrived v mt update ids rest w mw → w.Sound := by
    rintro rest w mw ⟨hw, done, hrows, hperm⟩
    refine h.of_within hentry hw fun mi hmi hu => ?_
    rw [hperm.pairwise_iff Apart.symm]
    refine pairwise_midUpdate (hrows ▸ hfree mi hmi hu) ?_
    rw [← hrows]
    exact h.unique mt.id mt hentry mi hmi hu
  have hskip : ∀ row rest w mw, row.id ∉ ids ∨ row.obsolete = true →
      Arrived v mt update ids (row :: rest) w mw → Arrived v mt update ids rest w mw := by
    rintro row rest w mw hnot ⟨hw, done, hrows, hperm⟩
    refine ⟨hw, done ++ [row], by rw [hrows]; simp, ?_⟩
    rw [midUpdate_skip done rest hnot]
    exact hperm
  have hchange : ∀ pageId ∈ v.ids mt.id, ∀ i row rest (s s' : LoopState),
      Target s.1 ids pageId i row → Updates update mt pageId i row s s' →
      Arrived v mt update ids (row :: rest) s.1 s.2.mt →
      Arrived v mt update ids rest s'.1 s'.2.mt := by
    intro pageId hmem i row rest s s' htarget hupdate harrived
    cases hupdate with
    | intro hassign => exact harrived.replaced h.ok hmem htarget hassign _ mt
  have hleave : ∀ pageId rest (s : LoopState), Arrived v mt update ids rest s.1 s.2.mt →
      Arrived v mt update ids rest (leave pageId s) s.2.mt := by
    rintro pageId rest s ⟨hw, done, hrows, hperm⟩
    exact ⟨hw.leave pageId, done, hrows, by rw [rows_leave]; exact hperm⟩
  have hstart : Arrived v mt update ids (v.rows mt.id) v mt :=
    ⟨.refl hentry, [], rfl, List.Perm.refl _⟩
  constructor
  · intro v' mt' hpages
    refine hsound [] v' mt' ?_
    exact hpages.rows_rule (onPage_updates update mt) (h.ok.nodup mt.id) hskip hchange hleave
      (by rw [List.append_nil]; exact hstart)
  · intro v' hthrow
    obtain ⟨pageId, hmem, i, row, rest, s, htarget, harrived, hfail⟩ :=
      hthrow.rows_rule (onPage_updates update mt) (h.ok.nodup mt.id) hskip hchange hleave hstart
    cases hfail with
    | @assignment w loop e _ =>
      obtain ⟨done, hrows, hperm⟩ := harrived.superseded h.ok hmem htarget (numbered loop.mt)
      refine h.of_within hentry (harrived.1.superseded h.ok hmem i (recounted_numbered loop.mt))
        fun mi hmi hu => ?_
      rw [hperm.pairwise_iff Apart.symm]
      -- the row that was marked is in neither part
      have hsub : (midUpdate mt update ids done rest).Sublist
          (midUpdate mt update ids done (row :: rest)) := by
        refine List.Sublist.append_left ?_ _
        rw [liveTokens_cons_live htarget.choose_spec.2.2.2]
        exact List.sublist_cons_self _ _
      refine List.Pairwise.sublist hsub (pairwise_midUpdate (hrows ▸ hfree mi hmi hu) ?_)
      rw [← hrows]
      exact h.unique mt.id mt hentry mi hmi hu
    | @index w loop tokens hassign =>
      exact hsound rest _ _ (harrived.replaced h.ok hmem htarget hassign _ mt)

end RowView
