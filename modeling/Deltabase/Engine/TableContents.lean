import Deltabase.Lib.Relations
import Deltabase.Recovery.TableSteps

/-!
# What is in a table

The contents of a table are the tokens of its rows that are not obsolete, as a bag:
in which pages the rows are, in which order and under which ids is not part of it,
nor are the old versions of rows.

An insert adds one tuple. An update and a delete go through the rows of the table
and replace the ones they are given, one after another (`PagesVisited.contents`);
the others are left alone, and so is every other table.
-/

namespace RowView

open StdDbInstance Relational

variable {v v' : RowView}

/-- **The contents of a table.** -/
def contents (v : RowView) (t : TableId) : Multiset (List DataToken) :=
  ↑((live (v.rows t)).map DataRow.tokens)

theorem contents_congr {t : TableId} (h : v'.rows t = v.rows t) : v'.contents t = v.contents t := by
  unfold contents
  rw [h]

/-- The order of the rows is not seen. -/
theorem contents_of_perm {t : TableId} (h : (v'.rows t).Perm (v.rows t)) :
    v'.contents t = v.contents t :=
  Multiset.coe_eq_coe.mpr ((h.filter _).map _)

theorem live_cons_of_live {row : DataRow} (h : row.obsolete = false) (rows : List DataRow) :
    live (row :: rows) = row :: live rows :=
  List.filter_cons_of_pos (by rw [h]; rfl)

theorem live_cons_of_obsolete {row : DataRow} (h : row.obsolete = true) (rows : List DataRow) :
    live (row :: rows) = live rows :=
  List.filter_cons_of_neg (by rw [h]; decide)

/-- **A row is added.** -/
theorem contents_of_added {t : TableId} {row : DataRow} {rows : List DataRow}
    (h : Added row rows (v'.rows t)) (hlive : row.obsolete = false) :
    v'.contents t = row.tokens ::ₘ ↑((live rows).map DataRow.tokens) := by
  have hperm : (live (v'.rows t)).Perm (row :: live rows) := by
    rw [← live_cons_of_live hlive]
    exact h.perm.filter _
  exact Multiset.coe_eq_coe.mpr (hperm.map DataRow.tokens)

/-- **A row is marked** and is no longer seen. -/
theorem contents_of_marked {t : TableId} {row : DataRow} {rows : List DataRow}
    (h : Marked row (v.rows t) rows) (hlive : row.obsolete = false) :
    row.tokens ::ₘ ↑((live rows).map DataRow.tokens) = v.contents t := by
  obtain ⟨l₁, l₂, hrows, rfl⟩ := h
  have hobsolete : row.markObsolete.obsolete = true := row.obsolete_markObsolete
  have hmarked : live (l₁ ++ row.markObsolete :: l₂) = live l₁ ++ live l₂ := by
    unfold live
    rw [List.filter_append]
    exact congrArg _ (live_cons_of_obsolete hobsolete l₂)
  have hbefore : live (v.rows t) = live l₁ ++ row :: live l₂ := by
    rw [hrows]
    unfold live
    rw [List.filter_append]
    exact congrArg _ (live_cons_of_live hlive l₂)
  unfold contents
  rw [hbefore, hmarked]
  refine Multiset.coe_eq_coe.mpr ?_
  rw [List.map_append, List.map_append]
  exact List.perm_middle.symm

/-! ## One row -/

/-- **A row of an update** is replaced by one with the tokens of its assignments. -/
theorem Updates.contents {mt : MetaTable} {update : RowUpdate} {unchangedMt : MetaTable}
    {pageId : DataPageId} {i : ℕ} {row : DataRow} {ids : List ℕ} {s s' : LoopState} (hok : v.Ok)
    (hs : Within v mt s.1 s.2.mt) (hmem : pageId ∈ v.ids mt.id)
    (htarget : Target s.1 ids pageId i row) (h : Updates update unchangedMt pageId i row s s') :
    ∃ tokens, assignTokens (numbered s.2.mt) update row = .ok tokens
      ∧ row.tokens ::ₘ s'.1.contents mt.id = s.1.contents mt.id + {tokens} := by
  obtain ⟨-, tokens, mid, hassign, hmarked, hadded⟩ := h.saves hok hs hmem htarget
  obtain ⟨p, hpage, hrow, hid, hlive⟩ := htarget
  refine ⟨tokens, hassign, ?_⟩
  rw [hs.same.id] at hmarked hadded
  rw [contents_of_added hadded hlive, Multiset.cons_swap, contents_of_marked hmarked hlive]
  exact (Multiset.singleton_add tokens _).symm.trans (add_comm _ _)

/-- **A row of a delete** is gone. -/
theorem Deletes.contents {mt : MetaTable} {unchangedMt : MetaTable} {pageId : DataPageId} {i : ℕ}
    {row : DataRow} {ids : List ℕ} {s s' : LoopState} (hok : v.Ok) (hs : Within v mt s.1 s.2.mt)
    (hmem : pageId ∈ v.ids mt.id) (htarget : Target s.1 ids pageId i row)
    (h : Deletes unchangedMt pageId i row s s') :
    row.tokens ::ₘ s'.1.contents mt.id = s.1.contents mt.id := by
  obtain ⟨-, hmarked⟩ := h.saves hok hs hmem htarget
  obtain ⟨p, hpage, hrow, hid, hlive⟩ := htarget
  rw [hs.same.id] at hmarked
  exact contents_of_marked hmarked hlive

/-! ## The loops -/

/-- **The rule for the contents of a table**: when every row that is changed is
replaced by its image, and the image of every other row is what it was, the contents
are those images. -/
theorem PagesVisited.contents {R : DataPageId → ℕ → DataRow → LoopState → LoopState → Prop}
    (hR : OnPage R) {ids : List ℕ} {mt mt' : MetaTable}
    {image : DataRow → Multiset (List DataToken)}
    (hok : v.Ok) (hentry : v.entry mt.id = some mt)
    (himage : ∀ row, row.id ∉ ids → image row = {row.tokens})
    (hchange : ∀ pageId ∈ v.ids mt.id, ∀ i row s s', Within v mt s.1 s.2.mt →
      Target s.1 ids pageId i row → R pageId i row s s' → Within v mt s'.1 s'.2.mt
        ∧ row.tokens ::ₘ s'.1.contents mt.id = s.1.contents mt.id + image row)
    (h : PagesVisited R ids (v.ids mt.id) v mt v' mt') :
    Within v mt v' mt'
      ∧ v'.contents mt.id = (↑(live (v.rows mt.id)) : Multiset DataRow).bind image := by
  set final := (↑(live (v.rows mt.id)) : Multiset DataRow).bind image with hfinal
  have hends : Within v mt v' mt'
      ∧ Replacing DataRow.tokens image final (live []) (v'.contents mt.id) := by
    refine h.rows_rule hR (P := fun rest w mw => Within v mt w mw
        ∧ Replacing DataRow.tokens image final (live rest) (w.contents mt.id)) (hok.nodup mt.id)
      (fun row rest w mw hskip hw => ⟨hw.1, ?_⟩)
      (fun pageId hmem i row rest s s' htarget hrow hs => ?_)
      (fun pageId rest s hs => ⟨hs.1.leave pageId, ?_⟩) ⟨.refl hentry, ?_⟩
    · cases hlive : row.obsolete with
      | true =>
        rw [live_cons_of_obsolete hlive] at hw
        exact hw.2
      | false =>
        rw [live_cons_of_live hlive] at hw
        refine hw.2.skip (himage row ?_)
        exact hskip.resolve_right (by rw [hlive]; exact Bool.false_ne_true)
    · obtain ⟨hwithin, hcontents⟩ := hchange pageId hmem i row s s' hs.1 htarget hrow
      obtain ⟨_, _, _, _, hlive⟩ := htarget
      rw [live_cons_of_live hlive] at hs
      exact ⟨hwithin, hs.2.replace hcontents⟩
    · rw [contents_congr (congrFun (rows_leave pageId s) mt.id)]
      exact hs.2
    · rw [List.append_nil]
      exact .start DataRow.tokens image (live (v.rows mt.id))
  exact ⟨hends.1, hends.2.finish⟩

/-- **The contents after an update** whose assignments make `replace` of the tokens of
a row. -/
theorem contents_of_updated {update : RowUpdate} {unchangedMt mt mt' : MetaTable} {ids : List ℕ}
    {replace : List DataToken → List DataToken} (hok : v.Ok) (hentry : v.entry mt.id = some mt)
    (hreplace : ∀ mw row tokens, mw.columns = mt.columns →
      assignTokens mw update row = .ok tokens → tokens = replace row.tokens)
    (h : PagesVisited (Updates update unchangedMt) ids (v.ids mt.id) v mt v' mt') :
    Within v mt v' mt' ∧ v'.contents mt.id = (↑(live (v.rows mt.id)) : Multiset DataRow).bind
      fun row => if row.id ∈ ids then {replace row.tokens} else {row.tokens} := by
  refine PagesVisited.contents (onPage_updates update unchangedMt) hok hentry
    (fun row hrow => if_neg hrow) (fun pageId hmem i row s s' hs htarget hrow => ?_) h
  obtain ⟨tokens, hassign, hcontents⟩ := hrow.contents hok hs hmem htarget
  refine ⟨hs.updates hok hmem hrow, ?_⟩
  obtain ⟨_, _, _, hid, _⟩ := htarget
  rw [hcontents, if_pos hid, ← hreplace (numbered s.2.mt) row tokens hs.same.columns hassign]

/-- **The contents after a delete.** -/
theorem contents_of_deleted {unchangedMt mt mt' : MetaTable} {ids : List ℕ} (hok : v.Ok)
    (hentry : v.entry mt.id = some mt)
    (h : PagesVisited (Deletes unchangedMt) ids (v.ids mt.id) v mt v' mt') :
    Within v mt v' mt' ∧ v'.contents mt.id = (↑(live (v.rows mt.id)) : Multiset DataRow).bind
      fun row => if row.id ∈ ids then 0 else {row.tokens} := by
  refine PagesVisited.contents (onPage_deletes unchangedMt) hok hentry
    (fun row hrow => if_neg hrow) (fun pageId hmem i row s s' hs htarget hrow => ?_) h
  have hcontents := hrow.contents hok hs hmem htarget
  refine ⟨hs.deletes hok hmem hrow, ?_⟩
  obtain ⟨_, _, _, hid, _⟩ := htarget
  rw [hcontents, if_pos hid, add_zero]

/-! ## Selecting rows by their ids -/

/-- **Rows are selected by their ids**, so with distinct ids exactly the rows that have
been found are selected. -/
theorem mem_map_id_iff {keep : DataRow → Bool} {rows scanned : List DataRow}
    (hnodup : (rows.map DataRow.id).Nodup) (hperm : scanned.Perm (live rows)) {row : DataRow}
    (hrow : row ∈ live rows) :
    row.id ∈ (scanned.filter keep).map DataRow.id ↔ keep row = true := by
  rw [List.mem_map]
  constructor
  · rintro ⟨row', hmem, hid⟩
    obtain ⟨hmem, hkeep⟩ := List.mem_filter.mp hmem
    have hmem' : row' ∈ rows := (List.mem_filter.mp (hperm.mem_iff.mp hmem)).1
    rw [← List.inj_on_of_nodup_map hnodup hmem' (List.mem_filter.mp hrow).1 hid]
    exact hkeep
  · exact fun hkeep => ⟨row, List.mem_filter.mpr ⟨hperm.mem_iff.mpr hrow, hkeep⟩, rfl⟩

/-- What becomes of the contents when rows are replaced by images that depend on their
tokens. -/
theorem bind_live {image : DataRow → Multiset (List DataToken)}
    {image' : List DataToken → Multiset (List DataToken)} {t : TableId}
    (h : ∀ row ∈ live (v.rows t), image row = image' row.tokens) :
    (↑(live (v.rows t)) : Multiset DataRow).bind image = (v.contents t).bind image' := by
  unfold contents
  rw [← Multiset.map_coe, Multiset.bind_map]
  exact Multiset.bind_congr h

end RowView
