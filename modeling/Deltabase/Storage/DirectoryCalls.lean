import Deltabase.Storage.DirectoryRuns

/-!
# One call after another

An operation of the storage makes several calls of its `FileIOManager`, of which
none throws when the operation returns. `Leads` says so of the disks before and
after, and the calls make up a run of events again (`Leads.exists_run`), of which
it is known what it does to a tree of directories.

Page files and index files are written in the order of a map that the model does
not have. Each file is written once, so any order will do, and here they are
written from the smallest id on (`leads_upTo`).
-/

namespace Disk

variable {disk disk' : Disk}

/-- A call of the `FileIOManager` that its callers may make, and that returns. -/
def Returns (disk disk' : Disk) : Prop := ∃ c : Change, c.Permitted disk ∧ c.onDisk disk = .ok disk'

/-- **Calls lead from a disk to a disk**, each permitted when it is made. -/
def Leads : Disk → Disk → Prop := Relation.ReflTransGen Returns

@[refl] theorem Leads.refl (disk : Disk) : Leads disk disk := Relation.ReflTransGen.refl

@[trans] theorem Leads.trans {disk'' : Disk} (h : Leads disk disk') (h' : Leads disk' disk'') :
    Leads disk disk'' := Relation.ReflTransGen.trans h h'

theorem Leads.single {c : Change} (hc : c.Permitted disk) (h : c.onDisk disk = .ok disk') :
    Leads disk disk' := Relation.ReflTransGen.single ⟨c, hc, h⟩

/-- The calls make up a run of events, in which none throws. -/
theorem Leads.exists_run (h : Leads disk disk') (dbName : Bytes) :
    ∃ changes : List Change, PermittedRun dbName disk (changes.map Event.change)
      ∧ runOnDisk disk (changes.map Event.change) = (disk', changes.map fun _ => none) := by
  induction h using Relation.ReflTransGen.head_induction_on with
  | refl => exact ⟨[], trivial, rfl⟩
  | @head disk disk₁ hstep _ ih =>
    obtain ⟨c, hc, hreturns⟩ := hstep
    obtain ⟨changes, hpermitted, hrun⟩ := ih
    have hdisk : (Event.change c).onDisk disk = (disk₁, none) := by
      show afterCall disk (c.onDisk disk) = _
      rw [hreturns]
      rfl
    refine ⟨c :: changes, ⟨hc, ?_⟩, ?_⟩
    · rw [hdisk]
      exact hpermitted
    · show ((runOnDisk ((Event.change c).onDisk disk).1 (changes.map Event.change)).1,
        ((Event.change c).onDisk disk).2
          :: (runOnDisk ((Event.change c).onDisk disk).1 (changes.map Event.change)).2) = _
      rw [hdisk, hrun]
      rfl

/-! ## Files that are written one after the other -/

/-- What is under the ids below a bound is new. -/
def upTo {α : Type} (k : ℕ) (new old : ℕ → α) (id : ℕ) : α := if id < k then new id else old id

theorem upTo_succ {α : Type} (k : ℕ) (new old : ℕ → α) :
    upTo (k + 1) new old = Function.update (upTo k new old) k (new k) := by
  funext id
  unfold upTo
  rw [Function.update_apply]
  rcases lt_trichotomy id k with h | rfl | h
  · rw [if_pos (h.trans k.lt_succ_self), if_neg h.ne, if_pos h]
  · rw [if_pos id.lt_succ_self, if_pos rfl]
  · rw [if_neg (Nat.not_lt.mpr h), if_neg h.ne', if_neg h.not_gt]

/-- **What can be written under each id can be written under all of them**, from the
smallest on, as long as there are finitely many that differ. -/
theorem leads_upTo {α : Type} {new : ℕ → α} (old : ℕ → α) (d : (ℕ → α) → Disk) {n : ℕ}
    (hsame : ∀ id, n ≤ id → new id = old id)
    (hstep : ∀ k, new k ≠ old k →
      Leads (d (upTo k new old)) (d (Function.update (upTo k new old) k (new k)))) :
    Leads (d old) (d new) := by
  have hfirst : ∀ k, Leads (d old) (d (upTo k new old)) := by
    intro k
    induction k with
    | zero => exact .refl _
    | succ k ih =>
      rw [upTo_succ]
      by_cases hk : new k = old k
      · have hold : upTo k new old k = new k := (if_neg (lt_irrefl k)).trans hk.symm
        rw [← hold, Function.update_eq_self]
        exact ih
      · exact ih.trans (hstep k hk)
  have hlast : upTo n new old = new := by
    funext id
    unfold upTo
    split_ifs with h
    · rfl
    · exact (hsame id (Nat.not_lt.mp h)).symm
  rw [← hlast]
  exact hfirst n

/-- **Page files.** -/
theorem leads_pages {pages : DataPageId → Option DataPage} {n : ℕ}
    (hsame : ∀ id, n ≤ id → pages id = disk.pages id)
    (hwritten : ∀ id, pages id ≠ disk.pages id →
      ∃ p, pages id = some p ∧ p.id = id ∧ (Change.writePage p).Permitted disk) :
    Leads disk { disk with pages := pages } := by
  refine leads_upTo disk.pages (fun pages => { disk with pages := pages }) hsame
    fun k hk => ?_
  obtain ⟨p, hp, rfl, hfits, hplain, hdir, hpath⟩ := hwritten k hk
  refine .single (c := .writePage p) ⟨hfits, hplain, hdir, fun q hq => hpath q ?_⟩ ?_
  · exact (if_neg (lt_irrefl p.id)).symm.trans hq
  · rw [hp]
    rfl

/-- **Index files**, over those that are there. -/
theorem leads_indexFiles {files : IndexId → Option ((Bytes × Bytes) × IndexFile)} {n : ℕ}
    (hsame : ∀ id, n ≤ id → files id = disk.indexFiles id)
    (hwritten : ∀ id, files id ≠ disk.indexFiles id → ∃ dir file file',
      disk.indexFiles id = some (dir, file) ∧ files id = some (dir, file') ∧ file'.indexId = id
        ∧ (Change.writeIndexFile file').Permitted disk) :
    Leads disk { disk with indexFiles := files } := by
  refine leads_upTo disk.indexFiles (fun files => { disk with indexFiles := files }) hsame
    fun k hk => ?_
  obtain ⟨dir, file, file', hfile, hfile', rfl, hpermitted⟩ := hwritten k hk
  refine .single (c := .writeIndexFile file') hpermitted ?_
  have hthere : upTo file'.indexId files disk.indexFiles file'.indexId = some (dir, file) :=
    (if_neg (lt_irrefl _)).trans hfile
  show FileIOManager.writeIndexFile _ file' = _
  unfold FileIOManager.writeIndexFile
  simp only [hthere, hfile']

end Disk
