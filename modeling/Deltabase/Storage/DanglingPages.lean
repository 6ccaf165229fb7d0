import Deltabase.Storage.SeqScan
import Deltabase.Storage.WriteAhead

/-!
# Pointers to pages that have been evicted

`get_table_data` gets the pages of a table one after another and hands out a pointer to
each. When the table has more pages than the cache has entries, the later ones evict the
earlier ones; and while a row of a page is being rewritten, the check of a unique index
may ask for another page and evict the one at hand, which is marked dirty only when its
loop is through.

A pointer to such a page leads to memory that has been given back. What is read there is
left open by the language: it is a parameter here, `stale`. What is written there reaches
no page. A run that uses no such pointer is a run of the instance that evicts
(`Script.execStale_of_exec`).
-/

namespace PoolCall

open EvictingInstance

variable (stale : DataPageId → DataPage)

/-- Reading through a page pointer, which may dangle. -/
def execStaleDeref (id : DataPageId) : EvictingProg DataPage := fun db =>
  match db.dataPages.find id with
  | some entry => .ok entry.value db
  | none => .ok (stale id) db

/-- Writing through a page pointer, which may dangle. -/
def execStaleModify (id : DataPageId) (f : DataPage → DataPage) : EvictingProg Unit := fun db =>
  match db.dataPages.find id with
  | some _ => .ok () { db with
      dataPages := db.dataPages.change id fun entry => { entry with value := f entry.value } }
  | none => .ok () db

/-- **A call to an instance whose pool evicts**, which goes on when it uses a pointer to a
page that has been evicted. -/
def execStale : (c : PoolCall) → EvictingProg c.Answer
  | derefDp id => execStaleDeref stale id
  | modifyDp id f => execStaleModify id f
  | c => c.exec

theorem execStaleDeref_of_exec {id : DataPageId} {db db' : EvictingInstance} {page : DataPage}
    (h : execDerefDp id db = .ok page db') : execStaleDeref stale id db = .ok page db' := by
  unfold execDerefDp at h
  unfold execStaleDeref
  cases hfind : db.dataPages.find id with
  | none =>
    rw [hfind] at h
    cases h
  | some entry =>
    rw [hfind] at h
    exact h

theorem execStaleModify_of_exec {id : DataPageId} {f : DataPage → DataPage}
    {db db' : EvictingInstance} (h : execModifyDp id f db = .ok () db') :
    execStaleModify id f db = .ok () db' := by
  unfold execModifyDp at h
  unfold execStaleModify
  cases hfind : db.dataPages.find id with
  | none =>
    rw [hfind] at h
    cases h
  | some entry =>
    rw [hfind] at h
    exact h

/-- A call that uses no such pointer is a call to the instance. -/
theorem execStale_of_exec {c : PoolCall} {db db' : EvictingInstance} {answer : c.Answer}
    (h : c.exec db = .ok answer db') : c.execStale stale db = .ok answer db' := by
  cases c with
  | derefDp id => exact execStaleDeref_of_exec stale h
  | modifyDp id f => exact execStaleModify_of_exec h
  | _ => exact h

end PoolCall

namespace Script

variable {α : Type} (stale : DataPageId → DataPage)

/-- Running a script where the pool evicts, and going on with pointers that dangle. -/
def execStale : Script α → EvictingProg α
  | done a => pure a
  | fail e => throw e
  | call c k => c.execStale stale >>= fun answer => (k answer).execStale

/-- **A run that uses no dangling pointer** does not depend on what one leads to. -/
theorem execStale_of_exec {script : Script α} {db db' : EvictingInstance} {a : α}
    (h : script.exec db = .ok a db') : script.execStale stale db = .ok a db' := by
  induction script generalizing db with
  | done a => exact h
  | fail e => exact h
  | call c k ih =>
    change EStateM.bind c.exec (fun answer => (k answer).exec) db = _ at h
    show EStateM.bind (c.execStale stale) (fun answer => (k answer).execStale stale) db = _
    unfold EStateM.bind at h ⊢
    cases hcall : c.exec db with
    | error e db₁ =>
      rw [hcall] at h
      cases h
    | ok answer db₁ =>
      rw [hcall] at h
      rw [c.execStale_of_exec stale hcall]
      exact ih answer h

end Script

/-! ## The rows of a table -/

namespace EvictingInstance

/-- The rows of a page, which is in the pool or in its file. -/
def pageRows (db : EvictingInstance) (id : DataPageId) : List DataRow :=
  match db.dataPages.find id with
  | some entry => entry.value.rows
  | none => ((db.rest.io.pages id).map DataPage.rows).getD []

/-- **The row versions that are stored in the pages of a table.** -/
def tableRows (db : EvictingInstance) (tableId : TableId) : List DataRow :=
  ((db.rest.pool.dataPagesPerTable tableId).getD []).flatMap db.pageRows

/-- **The counters of every table agree with its rows.** -/
def Tallied (db : EvictingInstance) : Prop :=
  ∀ mt ∈ db.rest.catalog.tables, mt.totalRows = (db.tableRows mt.id).length
    ∧ mt.liveRows = (live (db.tableRows mt.id)).length

instance : DecidablePred Tallied := fun db => by
  unfold Tallied
  infer_instance

end EvictingInstance
