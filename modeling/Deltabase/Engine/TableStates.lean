import Deltabase.Engine.TableContents

/-!
# The state of the tables between statements

Two things about tables have to be known to say what a statement does to their
contents: the ids of the columns of a table are distinct, and the ids of its rows are
in one of the three phases that they can be in. Which phases are possible depends on
what has happened so far, and is a parameter here (`Orderly`).

What is no change of rows leaves this alone: the beginning and the end of a
transaction, a restart, a new table, a new index (`Untouched`). The calls for single
statements move a table from one phase to another.
-/

/-- The order of the ids does not matter. -/
theorem Phase.Ids.of_perm {phase : Phase} {ids ids' : List ℕ} {lastRid : ℕ}
    (h : phase.Ids ids lastRid) (hperm : ids'.Perm ids) : phase.Ids ids' lastRid := by
  cases phase with
  | fresh => exact ⟨hperm.nodup_iff.mpr h.1, fun id hid => h.2 id (hperm.mem_iff.mp hid)⟩
  | rewritten =>
    exact ⟨hperm.nodup_iff.mpr h.1, fun id hid => h.2.1 id (hperm.mem_iff.mp hid),
      hperm.mem_iff.mpr h.2.2⟩
  | repeated => exact fun hnodup => h (hperm.nodup_iff.mp hnodup)

namespace RowView

open StdDbInstance

variable {v v' v'' : RowView}

/-! ## When no rows are touched -/

/-- **No rows are touched**: the tables keep their rows, their columns and the last id
they gave out; a table that is new has distinct columns and no rows. -/
structure Untouched (v v' : RowView) : Prop where
  rows : ∀ t, (v'.rows t).Perm (v.rows t)
  entries : ∀ t mt', v'.entry t = some mt' →
    (∃ mt, v.entry t = some mt ∧ mt'.columns = mt.columns ∧ mt'.lastRid = mt.lastRid)
      ∨ (mt'.columns.map MetaColumn.id).Nodup ∧ v.rows t = []

namespace Untouched

theorem of_entries (hentries : v'.entry = v.entry) (hrows : ∀ t, (v'.rows t).Perm (v.rows t)) :
    Untouched v v' :=
  ⟨hrows, fun t mt hmt => .inl ⟨mt, by rw [← hentries, hmt], rfl, rfl⟩⟩

theorem of_steady (h : Steady v v') : Untouched v v' :=
  of_entries h.entries fun t => .of_eq (congrFun h.rows t)

theorem refl (v : RowView) : Untouched v v := of_entries rfl fun _ => .refl _

/-- **A table is saved** with the columns it had. -/
theorem of_saves {mt mt' : MetaTable} (hbefore : v.entry mt.id = some mt) (hsaves : Saves v v' mt')
    (hid : mt'.id = mt.id) (hcolumns : mt'.columns = mt.columns)
    (hlastRid : mt'.lastRid = mt.lastRid) (hrows : v'.rows = v.rows) : Untouched v v' := by
  refine ⟨fun t => .of_eq (congrFun hrows t), fun t mt'' hentry => .inl ?_⟩
  rw [hsaves.entries] at hentry
  split_ifs at hentry with ht
  · obtain rfl := Option.some.inj hentry
    rw [← ht, hid]
    exact ⟨mt, hbefore, hcolumns, hlastRid⟩
  · exact ⟨mt'', hentry, rfl, rfl⟩

/-- **A table is made** with distinct columns, where there have been no rows. -/
theorem of_created {mt : MetaTable} (hsaves : Saves v v' mt)
    (hnodup : (mt.columns.map MetaColumn.id).Nodup) (hempty : v.rows mt.id = [])
    (hrows : v'.rows = v.rows) : Untouched v v' := by
  refine ⟨fun t => .of_eq (congrFun hrows t), fun t mt' hentry => ?_⟩
  rw [hsaves.entries] at hentry
  split_ifs at hentry with ht
  · obtain rfl := Option.some.inj hentry
    rw [← ht]
    exact .inr ⟨hnodup, hempty⟩
  · exact .inl ⟨mt', hentry, rfl, rfl⟩

theorem trans (h : Untouched v v') (h' : Untouched v' v'') : Untouched v v'' := by
  refine ⟨fun t => (h'.rows t).trans (h.rows t), fun t mt'' hentry => ?_⟩
  obtain ⟨mt', hmt', hcolumns', hlastRid'⟩ | ⟨hnodup, hempty⟩ := h'.entries t mt'' hentry
  · obtain ⟨mt, hmt, hcolumns, hlastRid⟩ | ⟨hnodup, hempty⟩ := h.entries t mt' hmt'
    · exact .inl ⟨mt, hmt, hcolumns'.trans hcolumns, hlastRid'.trans hlastRid⟩
    · rw [← hcolumns'] at hnodup
      exact .inr ⟨hnodup, hempty⟩
  · have hperm := h.rows t
    rw [hempty] at hperm
    exact .inr ⟨hnodup, hperm.symm.eq_nil⟩

/-- The contents of all tables are what they were. -/
theorem contents (h : Untouched v v') : v'.contents = v.contents :=
  funext fun t => contents_of_perm (h.rows t)

end Untouched

/-! ## Distinct columns and phases -/

/-- **The tables are in order**: every table has distinct columns, and its ids are in
one of the phases that are possible for it. -/
structure Orderly (possible : TableId → Phase → Prop) (v : RowView) : Prop where
  columns : ∀ t mt, v.entry t = some mt → (mt.columns.map MetaColumn.id).Nodup
  phases : ∀ t mt, v.entry t = some mt →
    ∃ phase : Phase, phase.Ids ((v.rows t).map DataRow.id) mt.lastRid ∧ possible t phase

namespace Orderly

variable {possible possible' : TableId → Phase → Prop}

theorem mono (h : Orderly possible v) (hle : ∀ t phase, possible t phase → possible' t phase) :
    Orderly possible' v where
  columns := h.columns
  phases t mt hmt := by
    obtain ⟨phase, hids, hpossible⟩ := h.phases t mt hmt
    exact ⟨phase, hids, hle t phase hpossible⟩

/-- **When no rows are touched**, the tables stay in order. -/
theorem untouched (h : Orderly possible v) (huntouched : Untouched v v')
    (hfresh : ∀ t, possible t .fresh) : Orderly possible v' where
  columns t mt' hmt' := by
    obtain ⟨mt, hmt, hcolumns, -⟩ | ⟨hnodup, -⟩ := huntouched.entries t mt' hmt'
    · rw [hcolumns]
      exact h.columns t mt hmt
    · exact hnodup
  phases t mt' hmt' := by
    have hperm := huntouched.rows t
    obtain ⟨mt, hmt, -, hlastRid⟩ | ⟨-, hempty⟩ := huntouched.entries t mt' hmt'
    · obtain ⟨phase, hids, hpossible⟩ := h.phases t mt hmt
      rw [← hlastRid] at hids
      exact ⟨phase, hids.of_perm (hperm.map DataRow.id), hpossible⟩
    · rw [hempty] at hperm
      refine ⟨.fresh, ?_, hfresh t⟩
      rw [hperm.eq_nil]
      exact ⟨List.nodup_nil, fun _ hid => absurd hid List.not_mem_nil⟩

/-- **The rows of one table are changed**: its phase becomes another, and those of the
others stay. -/
theorem rewritten (h : Orderly possible v) (hok : v.Ok) {mt : MetaTable}
    (hentry : v.entry mt.id = some mt)
    (hcolumns : ∀ t mt', v'.entry t = some mt' →
      ∃ mt₀, v.entry t = some mt₀ ∧ mt'.columns = mt₀.columns)
    (hle : ∀ t phase, possible t phase → possible' t phase)
    (hothers : ∀ t phase, t ≠ mt.id → Tracked t phase v → Tracked t phase v')
    (hself : ∀ phase, Tracked mt.id phase v → possible mt.id phase →
      ∃ phase', Tracked mt.id phase' v' ∧ possible' mt.id phase') : Orderly possible' v' where
  columns t mt' hmt' := by
    obtain ⟨mt₀, hmt₀, heq⟩ := hcolumns t mt' hmt'
    rw [heq]
    exact h.columns t mt₀ hmt₀
  phases t mt' hmt' := by
    have hfound : ∀ phase, Tracked t phase v' →
        phase.Ids ((v'.rows t).map DataRow.id) mt'.lastRid := by
      rintro phase ⟨-, mt₁, hmt₁, hids⟩
      obtain rfl := Option.some.inj (hmt'.symm.trans hmt₁)
      exact hids
    by_cases ht : t = mt.id
    · subst ht
      obtain ⟨phase, hids, hpossible⟩ := h.phases mt.id mt hentry
      obtain ⟨phase', htracked, hpossible'⟩ := hself phase ⟨hok, mt, hentry, hids⟩ hpossible
      exact ⟨phase', hfound phase' htracked, hpossible'⟩
    · obtain ⟨mt₀, hmt₀, -⟩ := hcolumns t mt' hmt'
      obtain ⟨phase, hids, hpossible⟩ := h.phases t mt₀ hmt₀
      have htracked := hothers t phase ht ⟨hok, mt₀, hmt₀, hids⟩
      exact ⟨phase, hfound phase htracked, hle t phase hpossible⟩

end Orderly

end RowView

/-! ## Statements that touch no rows -/

namespace StdDbInstance

open RowView

variable {db : StdDbInstance}

theorem untouched_createSchema (h : Running Set.univ db.rowView) (dbName schemaName : Bytes) :
    Ensures (createSchema dbName schemaName) db
      (fun _ db' => Untouched db.rowView db'.rowView) fun _ _ => True := by
  refine (ensures_createSchema h.active dbName schemaName).mono (fun _ db' hview => ?_)
    fun _ _ _ => trivial
  rw [hview]
  exact .of_steady (.of_eq rfl rfl rfl rfl (UUIDGenerator.le_next _ _))

theorem untouched_createTable (h : Running Set.univ db.rowView) (tableName schemaName : Bytes)
    (columns : List ColumnDefinition) :
    Ensures (createTable tableName schemaName columns) db
      (fun _ db' => Untouched db.rowView db'.rowView) fun _ _ => True := by
  refine (ensures_createTable h.active tableName schemaName columns).mono_ok fun _ db' hdb' => ?_
  obtain ⟨schema, metaColumns, now, -, hnodup, hclock, hview⟩ := hdb'
  rw [hview]
  set mt : MetaTable :=
    { id := db.clock, schemaId := schema.id, name := tableName, columns := metaColumns }
  have hunused : db.rowView.ids mt.id = [] := h.logged.ids_eq_nil le_rfl
  have hempty : db.rowView.rows mt.id = [] := by
    unfold RowView.rows
    rw [hunused]
    rfl
  exact @Untouched.of_created _ _ mt (.of_eq rfl rfl rfl rfl hclock.le) hnodup hempty
    (rows_congr rfl rfl)

theorem untouched_createIndex (h : Running Set.univ db.rowView)
    (indexName tableName columnName schemaName : Bytes) (isUnique : Bool) :
    Ensures (createIndex indexName tableName columnName schemaName isUnique) db
      (fun _ db' => Untouched db.rowView db'.rowView) fun _ _ => True := by
  refine (ensures_createIndex h.active h.logged.pages.ok indexName tableName columnName schemaName
    isUnique).mono (fun _ db' hdb' => ?_) fun _ _ _ => trivial
  obtain ⟨table, column, -, hlook, -, -, hview, -⟩ := hdb'
  rw [hview]
  exact .of_saves hlook.entry (.of_eq rfl rfl rfl rfl (UUIDGenerator.le_next _ _)) rfl rfl rfl
    (rows_congr rfl rfl)

theorem untouched_dropIndex (h : Running Set.univ db.rowView)
    (indexName tableName schemaName : Bytes) :
    Ensures (dropIndex indexName tableName schemaName) db
      (fun _ db' => Untouched db.rowView db'.rowView) fun _ _ => True := by
  refine (ensures_dropIndex h.active indexName tableName schemaName).mono_ok fun _ db' hdb' => ?_
  obtain ⟨table, index, hlook, -, hview⟩ := hdb'
  rw [hview]
  exact .of_saves hlook.entry (.of_eq rfl rfl rfl rfl le_rfl) rfl rfl rfl (rows_congr rfl rfl)

end StdDbInstance
