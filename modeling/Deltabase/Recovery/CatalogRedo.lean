import Deltabase.Recovery.TableSteps

/-!
# The catalog after redo

The records of metadata have no LSN to compare with: redo writes a table's
after-image, or pushes or erases an index, whatever the meta file says. An index
that is pushed onto a file that has it already would be there twice, and one
erased from an older file would not be there to erase. Both happen while redo
goes through the log, and neither lasts: the record that creates the table is in
the log as well, and from there on the file goes through what the catalog went
through.

So redo ends in the catalog, whichever files it began with, and the indexes of a
table are listed once because `create_index` makes a new id for each.
-/

namespace RowView

open StdDbInstance

variable {v v' : RowView}

/-- **Every table lists its indexes once**, under ids that have been made. -/
def IndexedOnce (v : RowView) : Prop :=
  ∀ t mt, v.entry t = some mt →
    (mt.indexes.map MetaIndex.id).Nodup ∧ ∀ mi ∈ mt.indexes, mi.id < v.clock

/-- Only the table that is saved needs to be looked at. -/
theorem IndexedOnce.saves (h : IndexedOnce v) {mt : MetaTable} (hsaves : Saves v v' mt)
    (hnodup : (mt.indexes.map MetaIndex.id).Nodup) (hold : ∀ mi ∈ mt.indexes, mi.id < v'.clock) :
    IndexedOnce v' := by
  intro t mt' hentry
  rw [hsaves.entries] at hentry
  split_ifs at hentry with hid
  · obtain rfl := Option.some.inj hentry
    exact ⟨hnodup, hold⟩
  · obtain ⟨hnodup', hold'⟩ := h t mt' hentry
    exact ⟨hnodup', fun mi hmi => (hold' mi hmi).trans_le hsaves.clock⟩

/-- Saving a table with some of its indexes. -/
theorem IndexedOnce.saves_sublist (h : IndexedOnce v) {mt mt' : MetaTable}
    (hbefore : v.entry mt.id = some mt) (hsaves : Saves v v' mt')
    (hsub : mt'.indexes.Sublist mt.indexes) : IndexedOnce v' := by
  obtain ⟨hnodup, hold⟩ := h mt.id mt hbefore
  exact h.saves hsaves (hnodup.sublist (hsub.map MetaIndex.id)) fun mi hmi =>
    (hold mi (hsub.subset hmi)).trans_le hsaves.clock

/-- **Each step lists indexes once.** -/
theorem IndexedOnce.step (h : IndexedOnce v) (hstep : TableStep v v') : IndexedOnce v' := by
  cases hstep with
  | idle steady =>
    intro t mt hentry
    rw [steady.entries] at hentry
    obtain ⟨hnodup, hold⟩ := h t mt hentry
    exact ⟨hnodup, fun mi hmi => (hold mi hmi).trans_le steady.clock⟩
  | create saves rows pages unused indexes =>
    refine h.saves saves ?_ ?_
    · rw [indexes]
      exact List.nodup_nil
    · rw [indexes]
      exact fun mi hmi => nomatch hmi
  | insert before saves => exact h.saves_sublist before saves (List.Sublist.refl _)
  | update before live newLive saves => exact h.saves_sublist before saves (List.Sublist.refl _)
  | delete before live saves => exact h.saves_sublist before saves (List.Sublist.refl _)
  | @createIndex mt mi before saves rows id clock =>
    obtain ⟨hnodup, hold⟩ := h mt.id mt before
    refine h.saves saves ?_ fun i hi => ?_
    · show ((mt.indexes ++ [mi]).map MetaIndex.id).Nodup
      rw [List.map_append]
      refine List.nodup_append.mpr ⟨hnodup, List.nodup_singleton _, fun a ha b hb hab => ?_⟩
      -- the new id is younger than the others
      obtain ⟨i, hi, rfl⟩ := List.mem_map.mp ha
      have hlt := hold i hi
      rw [hab, List.mem_singleton.mp hb, id] at hlt
      exact lt_irrefl _ hlt
    · rcases List.mem_append.mp hi with hi | hi
      · exact (hold i hi).trans clock
      · rw [List.mem_singleton.mp hi, id]
        exact clock
  | dropIndex before saves => exact h.saves_sublist before saves List.filter_sublist

/-- **A restart lists indexes once.** -/
theorem IndexedOnce.reopen (h : IndexedOnce v) (hreopened : Reopened v v') : IndexedOnce v' := by
  intro t mt hentry
  rw [hreopened.entries] at hentry
  obtain ⟨hnodup, hold⟩ := h t mt hentry
  exact ⟨hnodup, fun mi hmi => (hold mi hmi).trans_le hreopened.clock⟩

end RowView

namespace StdDbInstance

open RowView History RecoveryManager FileIOManager

variable {db : StdDbInstance}

theorem indexedOnce_new (generator : UUIDGenerator) :
    IndexedOnce ({ generator } : StdDbInstance).rowView :=
  fun _ _ hentry => nomatch hentry

/-- The meta file of a table, as a search by id finds it. -/
theorem readTableMeta_eq_ok_iff {disk : Disk} {t : TableId} {mt : MetaTable} :
    readTableMeta disk t = .ok mt
      ↔ (disk.tables.find? fun file => file.table.id = t).map TableFile.table = some mt := by
  unfold readTableMeta
  cases disk.tables.find? fun file => file.table.id = t with
  | none => exact ⟨(fun h => nomatch h), fun h => nomatch h⟩
  | some file =>
    exact ⟨fun h => congrArg some (Except.ok.inj h),
      fun h => congrArg Except.ok (Option.some.inj h)⟩

/-- **Redo ends in the catalog**: the redo pass over the log succeeds and leaves
on disk exactly the tables of the catalog, each as the catalog has it, with its
indexes listed once. -/
def RedoesCatalog (db : StdDbInstance) (disk₀ : Disk) : Prop :=
  ∃ disk, redoPass 0 db.wal.kept disk₀ = .ok disk
    ∧ (∀ t mt, readTableMeta disk t = .ok mt ↔ mt ∈ db.catalog.tables ∧ mt.id = t)
    ∧ ∀ mt ∈ db.catalog.tables, (mt.indexes.map MetaIndex.id).Nodup

/-- A redo pass that goes through found every directory mended in time. -/
theorem RedoesCatalog.mended (hrest : Resting db.rowView) {disk₀ : Disk}
    (h : RedoesCatalog db disk₀) : Mended db.wal.kept disk₀ := by
  obtain ⟨disk, hpass, -, -⟩ := h
  have hlog := hrest.logged.catalog.log
  exact mended_of_foldlM hlog ((redoPass_eq_foldlM hlog hrest.committed disk₀).symm.trans hpass)

/-- **Redo ends in the catalog, or at a directory without its meta file**: after
any run of statements and clean restarts, and started on any older or newer meta
files of the same history, it ends in the catalog exactly when every schema
directory without a meta file is mended before a table is created. -/
theorem redo_catalog {generator : UUIDGenerator} {es : List Event}
    (hrun : Run Housed { generator } es db) {disk₀ : Disk} (hfiles : FilesOf db.wal.kept disk₀) :
    RedoesCatalog db disk₀ ↔ Mended db.wal.kept disk₀ := by
  have hrun' := hrun.mono fun _ _ _ h => h.occurs
  have hrest := (Settled.run hrun').resting
  have hlog := hrest.logged.catalog.log
  refine ⟨fun h => h.mended hrest, fun hmended => ?_⟩
  obtain ⟨disk, hfold, hredone⟩ := Redone.foldlM ⟨hfiles, hmended⟩ hlog hlog List.prefix_rfl
  refine ⟨disk, ?_, fun t mt => ?_, fun mt hmt => ?_⟩
  · exact (redoPass_eq_foldlM hlog hrest.committed disk₀).trans hfold
  · have hentry : db.rowView.entry t = tableAfter t db.wal.kept :=
      hrest.logged.catalog.entries t trivial
    rw [readTableMeta_eq_ok_iff, hrest.hydrated hredone t]
    show tableAfter t db.wal.kept = some mt ↔ _
    rw [← hentry]
    constructor
    · exact fun h => ⟨List.mem_of_find?_eq_some h, entry_id h⟩
    · rintro ⟨hmem, rfl⟩
      exact entry_of_mem hmem
  · have honce : IndexedOnce db.rowView :=
      run_invariant (indexedOnce_new generator) (fun _ _ h => h.step) (fun _ _ h => h.reopen) hrun'
    exact (honce mt.id mt (entry_of_mem hmt)).1

/-! ## An index that the file has already -/

/-- An index on the column of the table. -/
def createIndex₁ : Statement := .createIndex [105] [116] [97] [115] false

/-- The session with the row after it has made the index. -/
def indexedSession : StdDbInstance := createIndex₁.after oneRowSession

/-- Redo is started on the files of a shutdown after the last commit: the table
has the index already, and has it once in the end. -/
theorem redo_catalog_indexed :
    RedoesCatalog indexedSession (indexedSession.catalog.flush indexedSession.io) := by
  have hrun : Run Housed {} [.execute createSchema₁, .restart, .execute createTable₁,
      .execute insert₁, .execute createIndex₁] indexedSession :=
    .cons (Statement.housed_of_returns (by decide +kernel) plainNames_createSchema₁
        (by decide +kernel))
      (.cons ⟨occurs_secondSession, trivial, by decide +kernel⟩
        (.cons (Statement.housed_of_returns (by decide +kernel) plainNames_createTable₁
            (by decide +kernel))
          (.cons (Statement.housed_of_returns (by decide +kernel) trivial (by decide +kernel))
            (.single (Statement.housed_of_returns (by decide +kernel) trivial
              (by decide +kernel))))))
  have hrest := (Settled.run (hrun.mono fun _ _ _ h => h.occurs)).resting
  exact (redo_catalog hrun (filesOf_flush hrest rfl (filesOf_io hrest)).1).mpr
    (mended_of_nil (by decide +kernel))

/-! ## A directory without its meta file -/

/-- A second schema -/
def createSchema₂ : Statement := .createSchema [100] [120]

/-- with a table -/
def createTable₂ : Statement := .createTable [121] [120] [{ name := [97], type := .integer }]

/-- and an index. -/
def createIndex₂ : Statement := .createIndex [105] [121] [97] [120] false

/-- A session that has made two schemas, with a table of each, and an index in the
second. -/
def twoSchemas : StdDbInstance :=
  createIndex₂.after
    (createTable₂.after (createSchema₂.after (createTable₁.after schemaSession)))

theorem run_twoSchemas :
    Run Housed {} [.execute createSchema₁, .execute createTable₁, .execute createSchema₂,
      .execute createTable₂, .execute createIndex₂] twoSchemas :=
  .cons (Statement.housed_of_returns (by decide +kernel) plainNames_createSchema₁
      (by decide +kernel))
    (.cons (Statement.housed_of_returns (by decide +kernel) plainNames_createTable₁
        (by decide +kernel))
      (.cons (Statement.housed_of_returns (by decide +kernel)
          (show PlainName [120] ∧ [120] ≠ DatabaseDirectory.pathWal by decide) (by decide +kernel))
        (.cons (Statement.housed_of_returns (by decide +kernel) (show PlainName [121] by decide)
            (by decide +kernel))
          (.single (Statement.housed_of_returns (by decide +kernel) trivial
            (by decide +kernel))))))

/-- **Redo does not go through** when the instance has crashed: the directory
of the second schema is there for the index file and has no meta file, and redo
comes to the table of the first schema before it makes one. -/
theorem not_redoesCatalog_twoSchemas :
    ¬ ∀ (es : List Event) (db : StdDbInstance), Run Housed {} es db →
      ∀ disk₀, FilesOf db.wal.kept disk₀ → RedoesCatalog db disk₀ := by
  intro h
  have hrest := (Settled.run (run_twoSchemas.mono fun _ _ _ h => h.occurs)).resting
  have hmended := (h _ _ run_twoSchemas twoSchemas.io (filesOf_io hrest)).mended hrest
  have hheadless : [120] ∈ twoSchemas.io.headless := by decide +kernel
  have hcreated : ∃ r ∈ twoSchemas.wal.kept, createdTables [r] ≠ [] ∧
      ∀ c ∈ twoSchemas.wal.kept, c.lsn < r.lsn → ∀ s ∈ createdSchemas [c], s.name ≠ [120] := by
    decide +kernel
  obtain ⟨r, hr, htable, hearlier⟩ := hcreated
  obtain ⟨mt, hmt⟩ := List.exists_mem_of_ne_nil _ htable
  obtain ⟨r', hr', hbody⟩ := mem_createdTables.mp hmt
  obtain rfl := List.mem_singleton.mp hr'
  obtain ⟨c, hc, s, hcbody, hname, hlt⟩ := hmended _ hheadless r' hr mt hbody
  exact hearlier c hc hlt s (mem_createdSchemas.mpr ⟨c, List.mem_singleton_self c, hcbody⟩) hname

end StdDbInstance
