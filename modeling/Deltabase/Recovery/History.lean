import Deltabase.Recovery.RecoveryManager
import Mathlib.Data.List.Induction

/-!
# What a log says

A log read as a history: which schemas and tables it creates, what it makes of
the metadata of each table and of the rows of each page. `InstanceLog` says
which logs one instance writes: LSNs grow, a transaction is silent after its
commit record, a record names only tables and schemas created before it, and
nothing is created twice.

An instance creates tables and indexes and drops indexes; it writes no record
that changes or deletes a schema or deletes a table, so `InstanceLog` has none.
-/

/-- Two images of one table: the id, the name and the schema never change. -/
def MetaTable.SameTable (a b : MetaTable) : Prop :=
  a.id = b.id ∧ a.name = b.name ∧ a.schemaId = b.schemaId

instance (a b : MetaTable) : Decidable (a.SameTable b) := by
  unfold MetaTable.SameTable
  infer_instance

namespace History

open RecoveryManager

/-- The schemas a log creates. -/
def createdSchemas (logs : List WalRecord) : List MetaSchema :=
  logs.filterMap fun r => match r.body with
    | .createSchema schema => some schema
    | _ => none

/-- The tables a log creates, as they were created. -/
def createdTables (logs : List WalRecord) : List MetaTable :=
  logs.filterMap fun r => match r.body with
    | .createTable after => some after
    | _ => none

/-- The data records of a page. -/
def dataRecords (pageId : DataPageId) (logs : List WalRecord) : List WalRecord :=
  logs.filter fun r => r.body.dataRef.map Prod.snd = some pageId

/-- **The rows of a page after some of its records**, one after the other. -/
def replayRows (rows : List DataRow) (records : List WalRecord) : List DataRow :=
  records.foldl (fun rows r => redoRows r.body rows) rows

/-- What a record makes of the metadata of a table. -/
def tableImage (tableId : TableId) : WalBody → Option MetaTable → Option MetaTable
  | .createTable mt, image => if mt.id = tableId then some mt else image
  | .updateTable _ mt, image => if mt.id = tableId then some mt else image
  | .clrUpdateTable _ mt _, image => if mt.id = tableId then some mt else image
  | .createIndex mi, image =>
    if mi.tableId = tableId then image.map fun mt => { mt with indexes := mt.indexes ++ [mi] }
    else image
  | .clrDropIndex _ mi, image =>
    if mi.tableId = tableId then image.map fun mt => { mt with indexes := mt.indexes ++ [mi] }
    else image
  | .dropIndex mi, image =>
    if mi.tableId = tableId then
      image.map fun mt => { mt with indexes := mt.indexes.filter fun i => i.id ≠ mi.id }
    else image
  | .clrCreateIndex _ mi, image =>
    if mi.tableId = tableId then
      image.map fun mt => { mt with indexes := mt.indexes.filter fun i => i.id ≠ mi.id }
    else image
  | _, image => image

/-- **The metadata of a table after a log**, if the log creates the table. -/
def tableAfter (tableId : TableId) (logs : List WalRecord) : Option MetaTable :=
  logs.foldl (fun image r => tableImage tableId r.body image) none

/-- Whether a record can follow a log: it names only what the log creates, and
creates nothing a second time. -/
def Admissible (logs : List WalRecord) : WalBody → Prop
  | .createSchema schema =>
    ∀ s ∈ createdSchemas logs, s.id ≠ schema.id ∧ s.name ≠ schema.name
  | .createTable mt =>
    (∃ s ∈ createdSchemas logs, s.id = mt.schemaId)
      ∧ ∀ t ∈ createdTables logs, t.id ≠ mt.id ∧ (t.schemaId, t.name) ≠ (mt.schemaId, mt.name)
  | .updateTable _ mt => ∃ t ∈ createdTables logs, t.SameTable mt
  | .clrUpdateTable _ mt _ => ∃ t ∈ createdTables logs, t.SameTable mt
  | .createIndex mi => ∃ t ∈ createdTables logs, t.id = mi.tableId
  | .clrCreateIndex _ mi => ∃ t ∈ createdTables logs, t.id = mi.tableId
  | .dropIndex mi => ∃ t ∈ createdTables logs, t.id = mi.tableId
  | .clrDropIndex _ mi => ∃ t ∈ createdTables logs, t.id = mi.tableId
  | .insert tableId _ _ => ∃ t ∈ createdTables logs, t.id = tableId
  | .update tableId _ _ _ => ∃ t ∈ createdTables logs, t.id = tableId
  | .delete tableId _ _ => ∃ t ∈ createdTables logs, t.id = tableId
  | .clrInsert tableId _ _ _ => ∃ t ∈ createdTables logs, t.id = tableId
  | .clrUpdate tableId _ _ _ _ => ∃ t ∈ createdTables logs, t.id = tableId
  | .clrDelete tableId _ _ _ => ∃ t ∈ createdTables logs, t.id = tableId
  | .beginTxn => True
  | .commitTxn => True
  | .rollbackTxn => True
  | _ => False

instance (logs : List WalRecord) (body : WalBody) : Decidable (Admissible logs body) :=
  match body with
  | .createSchema schema => inferInstanceAs
      (Decidable (∀ s ∈ createdSchemas logs, s.id ≠ schema.id ∧ s.name ≠ schema.name))
  | .createTable mt => inferInstanceAs (Decidable ((∃ s ∈ createdSchemas logs, s.id = mt.schemaId)
      ∧ ∀ t ∈ createdTables logs, t.id ≠ mt.id ∧ (t.schemaId, t.name) ≠ (mt.schemaId, mt.name)))
  | .updateTable _ mt | .clrUpdateTable _ mt _ =>
    inferInstanceAs (Decidable (∃ t ∈ createdTables logs, t.SameTable mt))
  | .createIndex mi | .clrCreateIndex _ mi | .dropIndex mi | .clrDropIndex _ mi =>
    inferInstanceAs (Decidable (∃ t ∈ createdTables logs, t.id = mi.tableId))
  | .insert tableId _ _ | .update tableId _ _ _ | .delete tableId _ _
  | .clrInsert tableId _ _ _ | .clrUpdate tableId _ _ _ _ | .clrDelete tableId _ _ _ =>
    inferInstanceAs (Decidable (∃ t ∈ createdTables logs, t.id = tableId))
  | .beginTxn | .commitTxn | .rollbackTxn => instDecidableTrue
  | .clrCreateSchema .. | .updateSchema .. | .clrUpdateSchema .. | .deleteSchema ..
  | .clrDeleteSchema .. | .clrCreateTable .. | .deleteTable .. | .clrDeleteTable .. =>
    instDecidableFalse

/-- **The logs one instance writes**, record by record. -/
inductive InstanceLog : List WalRecord → Prop
  | nil : InstanceLog []
  | snoc {logs : List WalRecord} {r : WalRecord} :
      InstanceLog logs → 0 < r.lsn → (∀ r' ∈ logs, r'.lsn < r.lsn) →
      (∀ r' ∈ logs, r'.body = .commitTxn → r'.txnId ≠ r.txnId) →
      Admissible logs r.body → InstanceLog (logs ++ [r])

/-! ## Growing a log -/

variable {logs : List WalRecord} {r : WalRecord}

theorem createdSchemas_append (logs logs' : List WalRecord) :
    createdSchemas (logs ++ logs') = createdSchemas logs ++ createdSchemas logs' :=
  List.filterMap_append

theorem createdTables_append (logs logs' : List WalRecord) :
    createdTables (logs ++ logs') = createdTables logs ++ createdTables logs' :=
  List.filterMap_append

theorem dataRecords_append (pageId : DataPageId) (logs logs' : List WalRecord) :
    dataRecords pageId (logs ++ logs') = dataRecords pageId logs ++ dataRecords pageId logs' :=
  List.filter_append ..

theorem replayRows_append (rows : List DataRow) (rs rs' : List WalRecord) :
    replayRows rows (rs ++ rs') = replayRows (replayRows rows rs) rs' :=
  List.foldl_append

theorem tableAfter_snoc (tableId : TableId) (logs : List WalRecord) (r : WalRecord) :
    tableAfter tableId (logs ++ [r]) = tableImage tableId r.body (tableAfter tableId logs) :=
  List.foldl_concat ..

theorem mem_createdTables {mt : MetaTable} :
    mt ∈ createdTables logs ↔ ∃ r ∈ logs, r.body = .createTable mt := by
  unfold createdTables
  rw [List.mem_filterMap]
  refine exists_congr fun r => and_congr_right fun _ => ?_
  cases r.body <;> simp

theorem mem_createdSchemas {s : MetaSchema} :
    s ∈ createdSchemas logs ↔ ∃ r ∈ logs, r.body = .createSchema s := by
  unfold createdSchemas
  rw [List.mem_filterMap]
  refine exists_congr fun r => and_congr_right fun _ => ?_
  cases r.body <;> simp

theorem mem_dataRecords {pageId : DataPageId} :
    r ∈ dataRecords pageId logs
      ↔ r ∈ logs ∧ ∃ tableId, r.body.dataRef = some (tableId, pageId) := by
  unfold dataRecords
  rw [List.mem_filter, decide_eq_true_eq, Option.map_eq_some_iff]
  refine and_congr_right fun _ => ⟨?_, ?_⟩
  · rintro ⟨⟨t, p⟩, href, rfl⟩
    exact ⟨t, href⟩
  · rintro ⟨t, href⟩
    exact ⟨(t, pageId), href, rfl⟩

/-! ## Facts about the logs of an instance -/

namespace InstanceLog

/-- **What the last record of a log satisfies.** -/
theorem of_snoc (h : InstanceLog (logs ++ [r])) :
    InstanceLog logs ∧ 0 < r.lsn ∧ (∀ r' ∈ logs, r'.lsn < r.lsn)
      ∧ (∀ r' ∈ logs, r'.body = .commitTxn → r'.txnId ≠ r.txnId) ∧ Admissible logs r.body := by
  generalize hl : logs ++ [r] = l at h
  cases h with
  | nil => simp at hl
  | snoc hlogs hpos hlt hsilent hadm =>
    obtain ⟨rfl, hr⟩ := List.append_inj' hl rfl
    obtain rfl : r = _ := List.singleton_inj.mp hr
    exact ⟨hlogs, hpos, hlt, hsilent, hadm⟩

/-- The conditions on the records after a log that is one of an instance. -/
def check (before : List WalRecord) : List WalRecord → Bool
  | [] => true
  | r :: rest =>
    decide (0 < r.lsn ∧ (∀ r' ∈ before, r'.lsn < r.lsn)
        ∧ (∀ r' ∈ before, r'.body = .commitTxn → r'.txnId ≠ r.txnId) ∧ Admissible before r.body)
      && check (before ++ [r]) rest

/-- A prefix of a log of an instance is one. -/
theorem of_append {before rest : List WalRecord} (h : InstanceLog (before ++ rest)) :
    InstanceLog before := by
  induction rest using List.reverseRecOn with
  | nil => rwa [List.append_nil] at h
  | append_singleton rest r ih =>
    rw [← List.append_assoc] at h
    exact ih h.of_snoc.1

theorem check_iff {before rest : List WalRecord} (h : InstanceLog before) :
    check before rest = true ↔ InstanceLog (before ++ rest) := by
  induction rest generalizing before with
  | nil => simpa [check] using h
  | cons r rest ih =>
    rw [check, Bool.and_eq_true, decide_eq_true_eq, List.append_cons before r rest]
    constructor
    · rintro ⟨⟨hpos, hlt, hsilent, hadm⟩, hrest⟩
      exact (ih (.snoc h hpos hlt hsilent hadm)).mp hrest
    · intro hall
      obtain ⟨-, hpos, hlt, hsilent, hadm⟩ := of_snoc (of_append hall)
      exact ⟨⟨hpos, hlt, hsilent, hadm⟩, (ih (.snoc h hpos hlt hsilent hadm)).mpr hall⟩

instance : DecidablePred InstanceLog := fun logs =>
  decidable_of_iff (check [] logs = true) (check_iff .nil)

theorem pos (h : InstanceLog logs) : ∀ r ∈ logs, 0 < r.lsn := by
  induction h with
  | nil => simp
  | snoc _ hpos _ _ _ ih =>
    intro r hr
    rcases List.mem_append.mp hr with hr | hr
    · exact ih r hr
    · rw [List.mem_singleton.mp hr]
      exact hpos

/-- LSNs grow along the log. -/
theorem sorted (h : InstanceLog logs) : logs.Pairwise fun r r' => r.lsn < r'.lsn := by
  induction h with
  | nil => exact .nil
  | snoc _ _ hlt _ _ ih =>
    refine List.pairwise_append.mpr ⟨ih, List.pairwise_singleton .., fun r hr r' hr' => ?_⟩
    rw [List.mem_singleton.mp hr']
    exact hlt r hr

/-- **A commit record is the last record of its transaction.** -/
theorem lsn_le_commit (h : InstanceLog logs) {c : WalRecord} (hr : r ∈ logs) (hc : c ∈ logs)
    (hcommit : c.body = .commitTxn) (htxn : c.txnId = r.txnId) : r.lsn ≤ c.lsn := by
  induction h with
  | nil => cases hr
  | @snoc logs r₀ _ _ hlt hsilent _ ih =>
    rcases List.mem_append.mp hr with hr' | hr' <;> rcases List.mem_append.mp hc with hc' | hc'
    · exact ih hr' hc'
    · rw [List.mem_singleton.mp hc']
      exact (hlt r hr').le
    · refine absurd htxn ?_
      rw [List.mem_singleton.mp hr']
      exact hsilent c hc' hcommit
    · rw [List.mem_singleton.mp hr', List.mem_singleton.mp hc']

/-- No two schemas share an id or a name. -/
theorem schema_unique (h : InstanceLog logs) :
    ∀ s ∈ createdSchemas logs, ∀ s' ∈ createdSchemas logs,
      (s.id = s'.id → s = s') ∧ (s.name = s'.name → s = s') := by
  induction h with
  | nil => simp [createdSchemas]
  | @snoc logs r₀ _ _ _ _ hadm ih =>
    intro s hs s' hs'
    rw [mem_createdSchemas] at hs hs'
    obtain ⟨a, ha, hsa⟩ := hs
    obtain ⟨b, hb, hsb⟩ := hs'
    rcases List.mem_append.mp ha with ha | ha <;> rcases List.mem_append.mp hb with hb | hb
    · exact ih s (mem_createdSchemas.mpr ⟨a, ha, hsa⟩) s' (mem_createdSchemas.mpr ⟨b, hb, hsb⟩)
    · rw [← List.mem_singleton.mp hb, hsb] at hadm
      obtain ⟨hid, hname⟩ := hadm s (mem_createdSchemas.mpr ⟨a, ha, hsa⟩)
      exact ⟨fun e => absurd e hid, fun e => absurd e hname⟩
    · rw [← List.mem_singleton.mp ha, hsa] at hadm
      obtain ⟨hid, hname⟩ := hadm s' (mem_createdSchemas.mpr ⟨b, hb, hsb⟩)
      exact ⟨fun e => absurd e.symm hid, fun e => absurd e.symm hname⟩
    · rw [List.mem_singleton.mp ha] at hsa
      rw [List.mem_singleton.mp hb, hsa] at hsb
      cases hsb
      exact ⟨fun _ => rfl, fun _ => rfl⟩

/-- No two tables share an id, or a name within a schema. -/
theorem table_unique (h : InstanceLog logs) :
    ∀ t ∈ createdTables logs, ∀ t' ∈ createdTables logs,
      (t.id = t'.id → t = t') ∧ (t.schemaId = t'.schemaId → t.name = t'.name → t = t') := by
  induction h with
  | nil => simp [createdTables]
  | @snoc logs r₀ _ _ _ _ hadm ih =>
    intro t ht t' ht'
    rw [mem_createdTables] at ht ht'
    obtain ⟨a, ha, hta⟩ := ht
    obtain ⟨b, hb, htb⟩ := ht'
    rcases List.mem_append.mp ha with ha | ha <;> rcases List.mem_append.mp hb with hb | hb
    · exact ih t (mem_createdTables.mpr ⟨a, ha, hta⟩) t' (mem_createdTables.mpr ⟨b, hb, htb⟩)
    · rw [← List.mem_singleton.mp hb, htb] at hadm
      obtain ⟨hid, hname⟩ := hadm.2 t (mem_createdTables.mpr ⟨a, ha, hta⟩)
      exact ⟨fun e => absurd e hid, fun e e' => absurd (by rw [e, e']) hname⟩
    · rw [← List.mem_singleton.mp ha, hta] at hadm
      obtain ⟨hid, hname⟩ := hadm.2 t' (mem_createdTables.mpr ⟨b, hb, htb⟩)
      exact ⟨fun e => absurd e.symm hid, fun e e' => absurd (by rw [e, e']) hname⟩
    · rw [List.mem_singleton.mp ha] at hta
      rw [List.mem_singleton.mp hb, hta] at htb
      cases htb
      exact ⟨fun _ => rfl, fun _ _ => rfl⟩

/-- A table's schema is created before the table. -/
theorem exists_schema (h : InstanceLog logs) :
    ∀ t ∈ createdTables logs, ∃ s ∈ createdSchemas logs, s.id = t.schemaId := by
  induction h with
  | nil => simp [createdTables]
  | @snoc logs r₀ _ _ _ _ hadm ih =>
    intro t ht
    obtain ⟨a, ha, hta⟩ := mem_createdTables.mp ht
    have hmono : ∀ s ∈ createdSchemas logs, s ∈ createdSchemas (logs ++ [r₀]) := fun s hs => by
      rw [createdSchemas_append]
      exact List.mem_append_left _ hs
    rcases List.mem_append.mp ha with ha | ha
    · obtain ⟨s, hs, hid⟩ := ih t (mem_createdTables.mpr ⟨a, ha, hta⟩)
      exact ⟨s, hmono s hs, hid⟩
    · rw [← List.mem_singleton.mp ha, hta] at hadm
      obtain ⟨s, hs, hid⟩ := hadm.1
      exact ⟨s, hmono s hs, hid⟩

end InstanceLog

/-! ## The metadata of a table -/

/-- The images a record writes over whatever the metadata was. -/
def writtenImage : WalBody → Option MetaTable
  | .createTable mt => some mt
  | .updateTable _ mt => some mt
  | .clrUpdateTable _ mt _ => some mt
  | _ => none

/-- **What a record can do to the metadata of a table**: write an image of it,
or change its indexes, if anything. -/
theorem tableImage_cases (tableId : TableId) (body : WalBody) :
    (∃ mt, writtenImage body = some mt ∧ mt.id = tableId
        ∧ ∀ image, tableImage tableId body image = some mt)
      ∨ ∃ f : MetaTable → MetaTable, (∀ mt, MetaTable.SameTable mt (f mt))
        ∧ ∀ image, tableImage tableId body image = image.map f := by
  have hid : ∃ f : MetaTable → MetaTable, (∀ mt, MetaTable.SameTable mt (f mt))
      ∧ ∀ image : Option MetaTable, image = image.map f :=
    ⟨id, fun _ => ⟨rfl, rfl, rfl⟩, fun image => by simp⟩
  cases body with
  | createTable mt | updateTable _ mt | clrUpdateTable _ mt _ =>
    by_cases h : mt.id = tableId
    · exact .inl ⟨mt, rfl, h, fun image => if_pos h⟩
    · exact .inr (hid.imp fun f hf => ⟨hf.1, fun image => (if_neg h).trans (hf.2 image)⟩)
  | createIndex mi | clrDropIndex _ mi =>
    by_cases h : mi.tableId = tableId
    · exact .inr ⟨fun mt => { mt with indexes := mt.indexes ++ [mi] }, fun _ => ⟨rfl, rfl, rfl⟩,
        fun image => if_pos h⟩
    · exact .inr (hid.imp fun f hf => ⟨hf.1, fun image => (if_neg h).trans (hf.2 image)⟩)
  | dropIndex mi | clrCreateIndex _ mi =>
    by_cases h : mi.tableId = tableId
    · exact .inr ⟨fun mt => { mt with indexes := mt.indexes.filter fun i => i.id ≠ mi.id },
        fun _ => ⟨rfl, rfl, rfl⟩, fun image => if_pos h⟩
    · exact .inr (hid.imp fun f hf => ⟨hf.1, fun image => (if_neg h).trans (hf.2 image)⟩)
  | _ => exact .inr hid

/-- An image that is written belongs to a table that the log creates. -/
theorem exists_created_of_written {body : WalBody} {mt : MetaTable} (hadm : Admissible logs body)
    (hbody : r.body = body) (hw : writtenImage body = some mt) :
    ∃ t ∈ createdTables (logs ++ [r]), t.SameTable mt := by
  rw [createdTables_append]
  cases body with
  | createTable after =>
    obtain rfl := Option.some.inj hw
    exact
      ⟨after, List.mem_append_right _ (mem_createdTables.mpr ⟨r, by simp, hbody⟩), rfl, rfl, rfl⟩
  | updateTable _ after =>
    obtain rfl := Option.some.inj hw
    obtain ⟨t, ht, hsame⟩ := hadm
    exact ⟨t, List.mem_append_left _ ht, hsame⟩
  | clrUpdateTable _ before _ =>
    obtain rfl := Option.some.inj hw
    obtain ⟨t, ht, hsame⟩ := hadm
    exact ⟨t, List.mem_append_left _ ht, hsame⟩
  | _ => cases hw

namespace InstanceLog

/-- Only a created table has metadata, and it keeps its id, name and schema. -/
theorem created_of_tableAfter (h : InstanceLog logs) {tableId : TableId} {mt : MetaTable}
    (hmt : tableAfter tableId logs = some mt) :
    ∃ t ∈ createdTables logs, t.id = tableId ∧ t.SameTable mt := by
  induction h generalizing mt with
  | nil => cases hmt
  | @snoc logs r _ _ _ _ hadm ih =>
    rw [tableAfter_snoc] at hmt
    rcases tableImage_cases tableId r.body with ⟨mt', hw, hid, himage⟩ | ⟨f, hf, himage⟩
    · rw [himage] at hmt
      obtain rfl := Option.some.inj hmt
      obtain ⟨t, ht, hsame⟩ := exists_created_of_written hadm rfl hw
      exact ⟨t, ht, hsame.1.trans hid, hsame⟩
    · rw [himage] at hmt
      obtain ⟨mt', hmt', rfl⟩ := Option.map_eq_some_iff.mp hmt
      obtain ⟨t, ht, hid, hsame⟩ := ih hmt'
      obtain ⟨h₁, h₂, h₃⟩ := hf mt'
      refine ⟨t, ?_, hid, hsame.1.trans h₁, hsame.2.1.trans h₂, hsame.2.2.trans h₃⟩
      rw [createdTables_append]
      exact List.mem_append_left _ ht

/-- **Every created table has metadata.** -/
theorem exists_tableAfter (h : InstanceLog logs) {t : MetaTable} (ht : t ∈ createdTables logs) :
    ∃ mt, tableAfter t.id logs = some mt := by
  induction h with
  | nil => cases ht
  | @snoc logs r _ _ _ _ _ ih =>
    rw [tableAfter_snoc]
    rcases tableImage_cases t.id r.body with ⟨mt, -, -, himage⟩ | ⟨f, -, himage⟩
    · exact ⟨mt, himage _⟩
    · obtain ⟨a, ha, hbody⟩ := mem_createdTables.mp ht
      rcases List.mem_append.mp ha with ha | ha
      · obtain ⟨mt, hmt⟩ := ih (mem_createdTables.mpr ⟨a, ha, hbody⟩)
        exact ⟨f mt, by rw [himage, hmt, Option.map_some]⟩
      · rw [← List.mem_singleton.mp ha, hbody]
        exact ⟨t, if_pos rfl⟩

end InstanceLog

end History
