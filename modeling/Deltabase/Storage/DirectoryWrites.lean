import Deltabase.Storage.DirectoryReads

/-!
# Changing the files of a database

Every call of the `FileIOManager` that changes files leaves a tree that has the files
of the disk that it leaves, or ends in the same exception (`Disk.Represents.alike`).
Nothing that is elsewhere is touched: deleting a schema does not reach the log, nor
another database.

The callers see to it that this goes through (`Disk.Change.Permitted`): names are
identifiers, ids are given to one value, a page stays in the directory that it was made
for. No schema may be called `wal`. Its directory would be that of the log, which the
loops leave out: its tables would not be found, and deleting it would delete the log.
-/

open StdStorageSerializer DatabaseDirectory

namespace Disk

variable {disk disk' : Disk}

/-- **What is asked of a `FileIOManager`**, of that which changes files. -/
inductive Change where
  | writeMs (ms : MetaSchema)
  | deleteMs (ms : MetaSchema)
  | writeMt (table : MetaTable)
  | deleteMt (table : MetaTable)
  | writePage (page : DataPage)
  | createIndexFile (schemaName tableName : Bytes) (mi : MetaIndex)
  | writeIndexFile (file : IndexFile)

namespace Change

/-- The call on a disk. -/
def onDisk (disk : Disk) : Change → Except Exn Disk
  | writeMs ms => .ok (FileIOManager.writeMs disk ms)
  | deleteMs ms => .ok (FileIOManager.deleteMs disk ms)
  | writeMt table => FileIOManager.writeMt disk table
  | deleteMt table => FileIOManager.deleteMt disk table
  | writePage page => .ok (FileIOManager.writePage disk page)
  | createIndexFile s t mi => .ok (FileIOManager.createIndexFile disk s t mi).2
  | writeIndexFile file => FileIOManager.writeIndexFile disk file

/-- The call on a tree of directories. -/
def onTree (dbName : Bytes) (fs : FileTree Bytes Bytes) : Change → Except Exn (FileTree Bytes Bytes)
  | writeMs ms => DatabaseDirectory.writeMs dbName fs ms
  | deleteMs ms => .ok (DatabaseDirectory.deleteMs dbName fs ms)
  | writeMt table => DatabaseDirectory.writeMt dbName fs table
  | deleteMt table => DatabaseDirectory.deleteMt dbName fs table
  | writePage page => DatabaseDirectory.writePage dbName fs page
  | createIndexFile s t mi => (DatabaseDirectory.createIndexFile dbName fs s t mi).map Prod.snd
  | writeIndexFile file => DatabaseDirectory.writeIndexFile dbName fs file

/-- **What the callers see to.** -/
def Permitted (disk : Disk) : Change → Prop
  | writeMs ms => ms.Fits ∧ PlainName ms.name ∧ ms.name ≠ pathWal
      ∧ ∀ s ∈ disk.schemas, s.id = ms.id → s.name = ms.name
  | deleteMs ms => PlainName ms.name ∧ ms.name ≠ pathWal
  | writeMt t => t.Fits ∧ PlainName t.name ∧ t.schemaId ≠ UUID.null
      ∧ ∀ s ∈ disk.schemas, s.id = t.schemaId →
        ∀ f ∈ disk.tables, f.table.id = t.id → f.path = (s.name, t.name)
  | deleteMt t => PlainName t.name ∧ t.schemaId ≠ UUID.null
  | writePage p => p.Fits ∧ PlainName p.path.2 ∧ p.path.1 ∈ disk.dirNames
      ∧ ∀ q, disk.pages p.id = some q → q.path = p.path
  | createIndexFile s t mi => mi.id < 256 ^ 16 ∧ PlainName t ∧ (PlainName s ∧ s ≠ pathWal)
      ∧ ∀ dir file, disk.indexFiles mi.id = some (dir, file) → dir = (s, t)
  | writeIndexFile file => file.Fits ∧ ∀ p ∈ file.pages, p.Consistent

end Change

/-! ## Which files there are -/

theorem fileAt_eq_none {path : List Bytes} (h : ∀ content, ¬ FileOf disk path content) :
    disk.fileAt path = none :=
  Option.eq_none_iff_forall_ne_some.mpr fun content hsome => h content (fileOf_of_fileAt hsome)

/-- What a file's path looks like, below its schema's directory. -/
theorem Orderly.shape (h : disk.Orderly) {s : Bytes} {rest : List Bytes} {content : Bytes}
    (hfile : FileOf disk (s :: rest) content) :
    rest = [makeMetaFilename s]
      ∨ (∃ t, PlainName t ∧ rest = [t, makeMetaFilename t])
      ∨ ∃ t sub id, PlainName t ∧ (sub = pathData ∨ sub = pathIndex)
          ∧ rest = [t, sub, UUID.toString id] := by
  cases hfile with
  | schema mem => exact .inl rfl
  | table mem => exact .inr (.inl ⟨_, (h.table _ mem).2.1, rfl⟩)
  | page found => exact .inr (.inr ⟨_, _, _, (h.page _ _ found).2.2.1, .inl rfl, rfl⟩)
  | indexFile found =>
    exact .inr (.inr ⟨_, _, _, (h.indexFile _ _ _ found).2.2.2.1, .inr rfl, rfl⟩)

/-- There is no file where a table's directory is. -/
theorem Orderly.fileAt_table (h : disk.Orderly) {s t : Bytes} (ht : PlainName t) :
    disk.fileAt [s, t] = none := by
  refine fileAt_eq_none fun content hfile => ?_
  rcases h.shape hfile with heq | ⟨t', -, heq⟩ | ⟨t', sub, id, -, -, heq⟩
  · exact ht.ne_metaFilename s (List.cons.inj heq).1
  · simp at heq
  · simp at heq

/-- There is no file where the pages or the index files of a table are. -/
theorem Orderly.fileAt_sub (h : disk.Orderly) {s t sub : Bytes}
    (hsub : sub = pathData ∨ sub = pathIndex) : disk.fileAt [s, t, sub] = none := by
  have hmeta : ∀ name, sub ≠ makeMetaFilename name := by
    rcases hsub with rfl | rfl
    · exact pathData_ne_metaFilename
    · exact pathIndex_ne_metaFilename
  refine fileAt_eq_none fun content hfile => ?_
  rcases h.shape hfile with heq | ⟨t', -, heq⟩ | ⟨t', sub', id, -, -, heq⟩
  · simp at heq
  · exact hmeta t' (List.cons.inj (List.cons.inj heq).2).1
  · simp at heq

/-- There is no file below the meta file of a table. -/
theorem Orderly.below_tableMeta (h : disk.Orderly) {s t : Bytes} {below : List Bytes}
    (hfile : disk.fileAt (s :: ([t] ++ [makeMetaFilename t] ++ below)) ≠ none) : below = [] := by
  obtain ⟨content, hcontent⟩ := Option.ne_none_iff_exists'.mp hfile
  rcases h.shape (fileOf_of_fileAt hcontent) with heq | ⟨t', -, heq⟩ | ⟨t', sub, id, -, hsub, heq⟩
  · simp at heq
  · simp only [List.cons_append, List.nil_append, List.cons.injEq] at heq
    exact heq.2.2
  · simp only [List.cons_append, List.nil_append, List.cons.injEq] at heq
    rcases hsub with rfl | rfl
    · exact absurd heq.2.1.symm (pathData_ne_metaFilename t)
    · exact absurd heq.2.1.symm (pathIndex_ne_metaFilename t)

/-- There is no file below the meta file of a schema. -/
theorem Orderly.below_schemaMeta (h : disk.Orderly) {s : Bytes} {below : List Bytes}
    (hfile : disk.fileAt (s :: ([] ++ [makeMetaFilename s] ++ below)) ≠ none) : below = [] := by
  obtain ⟨content, hcontent⟩ := Option.ne_none_iff_exists'.mp hfile
  rcases h.shape (fileOf_of_fileAt hcontent) with heq | ⟨t, ht, heq⟩ | ⟨t, sub, id, ht, -, heq⟩
  · exact (List.cons.inj heq).2
  · exact absurd (List.cons.inj heq).1.symm (ht.ne_metaFilename s)
  · exact absurd (List.cons.inj heq).1.symm (ht.ne_metaFilename s)

/-- There is no file below a page or an index file. -/
theorem below_leaf {s t sub name : Bytes} {below : List Bytes}
    (hfile : disk.fileAt (s :: ([t, sub] ++ [name] ++ below)) ≠ none) : below = [] := by
  obtain ⟨content, hcontent⟩ := Option.ne_none_iff_exists'.mp hfile
  have hlength : below.length + 4 ≤ 4 := (fileOf_of_fileAt hcontent).length_le
  exact List.length_eq_zero_iff.mp (by omega)

/-- **One file is new**, and the others are as they were. -/
theorem Orderly.fileAt_written (h : disk.Orderly) (h' : disk'.Orderly) {path : List Bytes}
    {content : Bytes} (hnew : FileOf disk' path content)
    (hold : ∀ p c, p ≠ path → (FileOf disk' p c ↔ FileOf disk p c)) (p : List Bytes) :
    disk'.fileAt p = if p = path then some content else disk.fileAt p := by
  split
  · next hp =>
    rw [hp]
    exact h'.fileAt_eq_some.mpr hnew
  · next hp =>
    apply Option.ext
    intro c
    rw [h'.fileAt_eq_some, h.fileAt_eq_some, hold p c hp]

/-- **The files of a directory are gone**, and the others are as they were. -/
theorem Orderly.fileAt_removed (h : disk.Orderly) (h' : disk'.Orderly) {dir : List Bytes}
    (hold : ∀ p c, FileOf disk' p c ↔ FileOf disk p c ∧ ¬ dir <+: p) (p : List Bytes) :
    disk'.fileAt p = if dir <+: p then none else disk.fileAt p := by
  apply Option.ext
  intro c
  rw [h'.fileAt_eq_some, hold]
  split
  · next hp => exact iff_of_false (fun hfile => hfile.2 hp) fun hc => by cases hc
  · next hp => rw [h.fileAt_eq_some, and_iff_left hp]

/-! ## Calls that end alike -/

/-- **A call ends alike** on a tree and on a disk: in the same exception, or with a
tree that has the files of the disk and in which nothing elsewhere has been touched. -/
inductive Alike (dbName : Bytes) (fs : FileTree Bytes Bytes) :
    Except Exn (FileTree Bytes Bytes) → Except Exn Disk → Prop
  | ok {fs' : FileTree Bytes Bytes} {disk' : Disk} (represents : Represents dbName fs' disk')
      (orderly : disk'.Orderly)
      (elsewhere : ∀ path, Elsewhere dbName path → fs'.node path = fs.node path) :
      Alike dbName fs (.ok fs') (.ok disk')
  | error {e : Exn} : Alike dbName fs (.error e) (.error e)

theorem mem_name_upsert {x : MetaSchema} {s : Bytes} (h : s ∈ disk.schemas.map MetaSchema.name) :
    s ∈ (upsert MetaSchema.name x disk.schemas).map MetaSchema.name := by
  rw [map_key_upsert]
  split
  · exact h
  · exact List.mem_append_left _ h

/-- Writing a schema leaves every directory. -/
theorem mem_dirNames_writeMs {ms : MetaSchema} {s : Bytes} (h : s ∈ disk.dirNames) :
    s ∈ (FileIOManager.writeMs disk ms).dirNames := by
  rcases List.mem_append.mp h with h | h
  · exact List.mem_append_left _ (mem_name_upsert h)
  · by_cases hs : s = ms.name
    · rw [hs]
      exact List.mem_append_left _ (List.mem_map_of_mem (mem_upsert_self _ _ _))
    · exact List.mem_append_right _ (List.mem_filter.mpr ⟨h, decide_eq_true hs⟩)

/-- Ids stay distinct when the new one is given to nothing else. -/
theorem nodup_map_upsert {α κ ι : Type} [DecidableEq κ] {key : α → κ} {id : α → ι} {x : α}
    {l : List α} (hkeys : (l.map key).Nodup) (hids : (l.map id).Nodup)
    (hx : ∀ y ∈ l, id y = id x → key y = key x) : ((upsert key x l).map id).Nodup := by
  refine List.Nodup.map_on (fun a ha b hb hab => ?_) (nodup_upsert hkeys).of_map
  rcases (mem_upsert_iff_of_nodup hkeys).mp ha with rfl | ⟨hal, hane⟩
  · rcases (mem_upsert_iff_of_nodup hkeys).mp hb with rfl | ⟨hbl, hbne⟩
    · rfl
    · exact absurd (hx b hbl hab.symm) hbne
  · rcases (mem_upsert_iff_of_nodup hkeys).mp hb with rfl | ⟨hbl, -⟩
    · exact absurd (hx a hal hab) hane
    · exact List.inj_on_of_nodup_map hids hal hbl hab

/-! ### Schemas -/

theorem Orderly.writeMs (h : disk.Orderly) {ms : MetaSchema}
    (hms : (Change.writeMs ms).Permitted disk) : (FileIOManager.writeMs disk ms).Orderly where
  schema s hs := by
    rcases mem_of_mem_upsert hs with rfl | hmem
    · exact ⟨hms.1, hms.2.1, hms.2.2.1⟩
    · exact h.schema s hmem
  headless name hname := by
    obtain ⟨hmem, hne⟩ := List.mem_filter.mp hname
    obtain ⟨hplain, hwal, hnot, hfile⟩ := h.headless name hmem
    refine ⟨hplain, hwal, fun hin => ?_, hfile⟩
    obtain ⟨s, hs, hsname⟩ := List.mem_map.mp hin
    rcases mem_of_mem_upsert hs with rfl | hs
    · exact of_decide_eq_true hne hsname.symm
    · exact hnot (hsname ▸ List.mem_map_of_mem hs)
  schemaNames := nodup_upsert h.schemaNames
  schemaIds := nodup_map_upsert h.schemaNames h.schemaIds hms.2.2.2
  table f hf := ⟨(h.table f hf).1, (h.table f hf).2.1, mem_name_upsert (h.table f hf).2.2⟩
  tablePaths := h.tablePaths
  tableIds := h.tableIds
  page id p hp := by
    obtain ⟨hfits, hid, hplain, hs⟩ := h.page id p hp
    exact ⟨hfits, hid, hplain, mem_dirNames_writeMs hs⟩
  indexFile id dir file hf := by
    obtain ⟨hfits, hcons, hid, hplain, hs⟩ := h.indexFile id dir file hf
    exact ⟨hfits, hcons, hid, hplain, mem_dirNames_writeMs hs⟩

theorem fileOf_writeMs {ms : MetaSchema} {p : List Bytes} {c : Bytes}
    (hp : p ≠ [ms.name, makeMetaFilename ms.name]) :
    FileOf (FileIOManager.writeMs disk ms) p c ↔ FileOf disk p c := by
  constructor
  · intro hfile
    cases hfile with
    | @schema s mem =>
      rcases mem_of_mem_upsert mem with rfl | hmem
      · exact absurd rfl hp
      · exact .schema hmem
    | table mem => exact .table mem
    | page found => exact .page found
    | indexFile found => exact .indexFile found
  · intro hfile
    cases hfile with
    | @schema s mem =>
      exact .schema (mem_upsert_of_ne mem fun hname => hp (by rw [hname]))
    | table mem => exact .table mem
    | page found => exact .page found
    | indexFile found => exact .indexFile found

/-- Deleting a schema leaves the others. -/
theorem mem_name_filter {s name : Bytes} (h : s ∈ disk.schemas.map MetaSchema.name)
    (hs : s ≠ name) :
    s ∈ (disk.schemas.filter fun s => s.name ≠ name).map MetaSchema.name := by
  obtain ⟨ms, hmem, rfl⟩ := List.mem_map.mp h
  exact List.mem_map_of_mem (List.mem_filter.mpr ⟨hmem, by simpa using hs⟩)

theorem mem_dirNames_deleteMs {ms : MetaSchema} {s : Bytes} (h : s ∈ disk.dirNames)
    (hs : s ≠ ms.name) : s ∈ (FileIOManager.deleteMs disk ms).dirNames := by
  rcases List.mem_append.mp h with h | h
  · exact List.mem_append_left _ (mem_name_filter h hs)
  · exact List.mem_append_right _ (List.mem_filter.mpr ⟨h, decide_eq_true hs⟩)

theorem Orderly.deleteMs (h : disk.Orderly) (ms : MetaSchema) :
    (FileIOManager.deleteMs disk ms).Orderly where
  schema s hs := h.schema s (List.mem_of_mem_filter hs)
  headless name hname := by
    obtain ⟨hmem, hne⟩ := List.mem_filter.mp hname
    obtain ⟨hplain, hwal, hnot, id, dir, file, hfile, rfl⟩ := h.headless name hmem
    refine ⟨hplain, hwal, fun hin => hnot ?_, id, dir, file, ?_, rfl⟩
    · obtain ⟨s, hs, hsname⟩ := List.mem_map.mp hin
      exact hsname ▸ List.mem_map_of_mem (List.mem_of_mem_filter hs)
    · exact Option.filter_eq_some_iff.mpr ⟨hfile, hne⟩
  schemaNames := h.schemaNames.sublist (List.filter_sublist.map _)
  schemaIds := h.schemaIds.sublist (List.filter_sublist.map _)
  table f hf := by
    obtain ⟨hmem, hne⟩ := List.mem_filter.mp hf
    obtain ⟨hfits, hplain, hs⟩ := h.table f hmem
    exact ⟨hfits, hplain, mem_name_filter hs (of_decide_eq_true hne)⟩
  tablePaths := h.tablePaths.sublist (List.filter_sublist.map _)
  tableIds := h.tableIds.sublist (List.filter_sublist.map _)
  page id p hp := by
    obtain ⟨hpage, hne⟩ := Option.filter_eq_some_iff.mp hp
    obtain ⟨hfits, hid, hplain, hs⟩ := h.page id p hpage
    exact ⟨hfits, hid, hplain, mem_dirNames_deleteMs hs (of_decide_eq_true hne)⟩
  indexFile id dir file hf := by
    obtain ⟨hfile, hne⟩ := Option.filter_eq_some_iff.mp hf
    obtain ⟨hfits, hcons, hid, hplain, hs⟩ := h.indexFile id dir file hfile
    exact ⟨hfits, hcons, hid, hplain, mem_dirNames_deleteMs hs (of_decide_eq_true hne)⟩

theorem eq_of_prefix_one {p : List Bytes} {a : Bytes} (h : p <+: [a]) : p = [] ∨ p = [a] := by
  rcases List.prefix_cons_iff.mp h with rfl | ⟨rest, rfl, hrest⟩
  · exact .inl rfl
  · rw [List.prefix_nil.mp hrest]
    exact .inr rfl

theorem not_prefix_one {a b : Bytes} {l : List Bytes} : ¬ [a] <+: b :: l ↔ b ≠ a := by
  rw [List.cons_prefix_cons, and_iff_left (List.nil_prefix), Ne, eq_comm]

theorem not_prefix_two {a a' b b' : Bytes} {l : List Bytes} :
    ¬ [a, a'] <+: b :: b' :: l ↔ (b, b') ≠ (a, a') := by
  rw [List.cons_prefix_cons, List.cons_prefix_cons, and_iff_left (List.nil_prefix), Ne,
    Prod.mk.injEq, eq_comm (a := a), eq_comm (a := a')]

theorem fileOf_deleteMs {ms : MetaSchema} {p : List Bytes} {c : Bytes} :
    FileOf (FileIOManager.deleteMs disk ms) p c ↔ FileOf disk p c ∧ ¬ [ms.name] <+: p := by
  constructor
  · intro hfile
    cases hfile with
    | schema mem =>
      obtain ⟨hmem, hne⟩ := List.mem_filter.mp mem
      exact ⟨.schema hmem, not_prefix_one.mpr (of_decide_eq_true hne)⟩
    | table mem =>
      obtain ⟨hmem, hne⟩ := List.mem_filter.mp mem
      exact ⟨.table hmem, not_prefix_one.mpr (of_decide_eq_true hne)⟩
    | page found =>
      obtain ⟨hfound, hne⟩ := Option.filter_eq_some_iff.mp found
      exact ⟨.page hfound, not_prefix_one.mpr (of_decide_eq_true hne)⟩
    | indexFile found =>
      obtain ⟨hfound, hne⟩ := Option.filter_eq_some_iff.mp found
      exact ⟨.indexFile hfound, not_prefix_one.mpr (of_decide_eq_true hne)⟩
  · rintro ⟨hfile, hp⟩
    cases hfile with
    | schema mem =>
      exact .schema (List.mem_filter.mpr ⟨mem, decide_eq_true (not_prefix_one.mp hp)⟩)
    | table mem =>
      exact .table (List.mem_filter.mpr ⟨mem, decide_eq_true (not_prefix_one.mp hp)⟩)
    | page found =>
      exact .page (Option.filter_eq_some_iff.mpr ⟨found, decide_eq_true (not_prefix_one.mp hp)⟩)
    | indexFile found =>
      exact .indexFile
        (Option.filter_eq_some_iff.mpr ⟨found, decide_eq_true (not_prefix_one.mp hp)⟩)

/-! ### Tables -/

/-- A schema that is found is on the disk. -/
theorem mem_of_readSchemaMeta {id : UUID} {schema : MetaSchema} (hid : id ≠ UUID.null)
    (h : FileIOManager.readSchemaMeta disk id = .ok schema) :
    disk.headless = [] ∧ schema ∈ disk.schemas ∧ schema.id = id := by
  unfold FileIOManager.readSchemaMeta at h
  split at h
  · cases h
  · next hheadless =>
    refine ⟨not_not.mp hheadless, ?_⟩
    cases hfind : disk.schemas.reverse.find? fun s => decide (s.id = id) with
    | none =>
      rw [hfind] at h
      simp only [reduceCtorEq] at h
    | some s =>
      rw [hfind] at h
      obtain rfl : s = schema := Except.ok.inj h
      have hs := List.find?_some hfind
      exact ⟨List.mem_reverse.mp (List.mem_of_find?_eq_some hfind), of_decide_eq_true hs⟩

/-- A table is put into a schema's directory. -/
def putTable (disk : Disk) (f : TableFile) : Disk :=
  { disk with tables := upsert TableFile.path f disk.tables }

theorem Orderly.putTable (h : disk.Orderly) {f : TableFile} (hfits : f.table.Fits)
    (hplain : PlainName f.table.name) (hs : f.schemaName ∈ disk.schemas.map MetaSchema.name)
    (hid : ∀ g ∈ disk.tables, g.table.id = f.table.id → g.path = f.path) :
    (disk.putTable f).Orderly where
  schema := h.schema
  headless := h.headless
  schemaNames := h.schemaNames
  schemaIds := h.schemaIds
  table g hg := by
    rcases mem_of_mem_upsert hg with rfl | hmem
    · exact ⟨hfits, hplain, hs⟩
    · exact h.table g hmem
  tablePaths := nodup_upsert h.tablePaths
  tableIds := nodup_map_upsert h.tablePaths h.tableIds hid
  page := h.page
  indexFile := h.indexFile

theorem fileOf_putTable {f : TableFile} {p : List Bytes} {c : Bytes}
    (hp : p ≠ [f.schemaName, f.table.name, makeMetaFilename f.table.name]) :
    FileOf (disk.putTable f) p c ↔ FileOf disk p c := by
  constructor
  · intro hfile
    cases hfile with
    | schema mem => exact .schema mem
    | @table g mem =>
      rcases mem_of_mem_upsert mem with rfl | hmem
      · exact absurd rfl hp
      · exact .table hmem
    | page found => exact .page found
    | indexFile found => exact .indexFile found
  · intro hfile
    cases hfile with
    | schema mem => exact .schema mem
    | @table g mem =>
      refine .table (mem_upsert_of_ne mem fun hpath => hp ?_)
      obtain ⟨hschema, hname⟩ := Prod.mk.inj hpath
      rw [hschema, hname]
    | page found => exact .page found
    | indexFile found => exact .indexFile found

/-- A table's directory is removed. -/
def eraseTable (disk : Disk) (path : Bytes × Bytes) : Disk :=
  { schemas := disk.schemas
    headless := disk.headless
    tables := disk.tables.filter fun f => f.path ≠ path
    pages := fun id => (disk.pages id).filter fun p => p.path ≠ path
    indexFiles := fun id => (disk.indexFiles id).filter fun f => f.1 ≠ path }

theorem Orderly.eraseTable (h : disk.Orderly) (hheadless : disk.headless = [])
    (path : Bytes × Bytes) : (disk.eraseTable path).Orderly where
  schema := h.schema
  headless _ hname := absurd (hheadless ▸ hname) List.not_mem_nil
  schemaNames := h.schemaNames
  schemaIds := h.schemaIds
  table f hf := h.table f (List.mem_of_mem_filter hf)
  tablePaths := h.tablePaths.sublist (List.filter_sublist.map _)
  tableIds := h.tableIds.sublist (List.filter_sublist.map _)
  page id p hp := h.page id p (Option.filter_eq_some_iff.mp hp).1
  indexFile id dir file hf := h.indexFile id dir file (Option.filter_eq_some_iff.mp hf).1

theorem fileOf_eraseTable {s t : Bytes} (ht : PlainName t)
    {p : List Bytes} {c : Bytes} :
    FileOf (disk.eraseTable (s, t)) p c ↔ FileOf disk p c ∧ ¬ [s, t] <+: p := by
  constructor
  · intro hfile
    cases hfile with
    | @schema ms mem =>
      refine ⟨.schema mem, not_prefix_two.mpr fun heq => ?_⟩
      exact ht.ne_metaFilename ms.name (Prod.mk.inj heq).2.symm
    | table mem =>
      obtain ⟨hmem, hne⟩ := List.mem_filter.mp mem
      exact ⟨.table hmem, not_prefix_two.mpr (of_decide_eq_true hne)⟩
    | page found =>
      obtain ⟨hfound, hne⟩ := Option.filter_eq_some_iff.mp found
      exact ⟨.page hfound, not_prefix_two.mpr (of_decide_eq_true hne)⟩
    | indexFile found =>
      obtain ⟨hfound, hne⟩ := Option.filter_eq_some_iff.mp found
      exact ⟨.indexFile hfound, not_prefix_two.mpr (of_decide_eq_true hne)⟩
  · rintro ⟨hfile, hp⟩
    cases hfile with
    | schema mem => exact .schema mem
    | table mem =>
      exact .table (List.mem_filter.mpr ⟨mem, decide_eq_true (not_prefix_two.mp hp)⟩)
    | page found =>
      exact .page (Option.filter_eq_some_iff.mpr ⟨found, decide_eq_true (not_prefix_two.mp hp)⟩)
    | indexFile found =>
      exact .indexFile
        (Option.filter_eq_some_iff.mpr ⟨found, decide_eq_true (not_prefix_two.mp hp)⟩)

/-! ### Pages and index files -/

theorem Orderly.writePage (h : disk.Orderly) {p : DataPage}
    (hp : (Change.writePage p).Permitted disk) : (FileIOManager.writePage disk p).Orderly where
  schema := h.schema
  headless := h.headless
  schemaNames := h.schemaNames
  schemaIds := h.schemaIds
  table := h.table
  tablePaths := h.tablePaths
  tableIds := h.tableIds
  page id q hq := by
    by_cases hid : id = p.id
    · obtain rfl : p = q := by simpa [FileIOManager.writePage, hid] using hq
      exact ⟨hp.1, hid.symm, hp.2.1, hp.2.2.1⟩
    · exact h.page id q (by simpa [FileIOManager.writePage, hid] using hq)
  indexFile := h.indexFile

theorem fileOf_writePage {page : DataPage} (hpage : (Change.writePage page).Permitted disk)
    {p : List Bytes} {c : Bytes}
    (hp : p ≠ [page.path.1, page.path.2, pathData, UUID.toString page.id]) :
    FileOf (FileIOManager.writePage disk page) p c ↔ FileOf disk p c := by
  constructor
  · intro hfile
    cases hfile with
    | schema mem => exact .schema mem
    | table mem => exact .table mem
    | @page id q found =>
      by_cases hid : id = page.id
      · obtain rfl : page = q := by simpa [FileIOManager.writePage, hid] using found
        exact absurd (by rw [hid]) hp
      · exact .page (by simpa [FileIOManager.writePage, hid] using found)
    | indexFile found => exact .indexFile found
  · intro hfile
    cases hfile with
    | schema mem => exact .schema mem
    | table mem => exact .table mem
    | @page id q found =>
      refine .page ?_
      by_cases hid : id = page.id
      · rw [hid] at found hp
        exact absurd (by rw [hpage.2.2.2 q found]) hp
      · simpa [FileIOManager.writePage, hid] using found
    | indexFile found => exact .indexFile found

/-- An index file is put into a table's directory. -/
def putIndexFile (disk : Disk) (dir : Bytes × Bytes) (file : IndexFile) : Disk :=
  { disk with
    headless := FileIOManager.createSchemaDirectory disk dir.1
    indexFiles := Function.update disk.indexFiles file.indexId (some (dir, file)) }

theorem mem_createSchemaDirectory {s name : Bytes} :
    name ∈ FileIOManager.createSchemaDirectory disk s
      ↔ name ∈ disk.headless ∨ name = s ∧ s ∉ disk.dirNames := by
  unfold FileIOManager.createSchemaDirectory
  rw [List.contains_eq_mem]
  simp only [decide_eq_true_eq]
  split
  · next hs => exact ⟨.inl, fun h => h.resolve_right fun h => h.2 hs⟩
  · next hs => rw [List.mem_append, List.mem_singleton, and_iff_left hs]

/-- The directory of the schema is there afterwards, and so are the others. -/
theorem mem_dirNames_putIndexFile {dir : Bytes × Bytes} {file : IndexFile} {s : Bytes} :
    s ∈ (disk.putIndexFile dir file).dirNames ↔ s ∈ disk.dirNames ∨ s = dir.1 := by
  show s ∈ _ ++ FileIOManager.createSchemaDirectory disk dir.1 ↔ _
  rw [List.mem_append, mem_createSchemaDirectory, ← or_assoc, ← List.mem_append]
  show s ∈ disk.dirNames ∨ _ ↔ _
  by_cases hs : s ∈ disk.dirNames
  · exact ⟨fun _ => .inl hs, fun _ => .inl hs⟩
  · refine or_congr_right ⟨And.left, fun heq => ⟨heq, heq ▸ hs⟩⟩

/-- An index file is written over where it is. -/
theorem putIndexFile_of_mem {dir : Bytes × Bytes} {file : IndexFile}
    (hs : dir.1 ∈ disk.dirNames) : disk.putIndexFile dir file
      = { disk with indexFiles := Function.update disk.indexFiles file.indexId (some (dir, file)) }
      := by
  unfold putIndexFile FileIOManager.createSchemaDirectory
  rw [if_pos (List.contains_iff_mem.mpr hs)]

theorem Orderly.putIndexFile (h : disk.Orderly) {dir : Bytes × Bytes} {file : IndexFile}
    (hfits : file.Fits) (hcons : ∀ p ∈ file.pages, p.Consistent) (hplain : PlainName dir.2)
    (hs : PlainName dir.1 ∧ dir.1 ≠ pathWal)
    (hdir : ∀ dir' old, disk.indexFiles file.indexId = some (dir', old) → dir' = dir) :
    (disk.putIndexFile dir file).Orderly where
  schema := h.schema
  headless name hname := by
    rcases mem_createSchemaDirectory.mp hname with hname | ⟨rfl, hnot⟩
    · obtain ⟨hplain', hwal, hnot, id, dir', file', hfile, rfl⟩ := h.headless name hname
      refine ⟨hplain', hwal, hnot, id, ?_⟩
      by_cases hid : id = file.indexId
      · rw [hid] at hfile ⊢
        refine ⟨dir, file, Function.update_self _ _ _, ?_⟩
        rw [hdir dir' file' hfile]
      · exact ⟨dir', file', (Function.update_of_ne hid _ _).trans hfile, rfl⟩
    · exact ⟨hs.1, hs.2, fun hin => hnot (List.mem_append_left _ hin), file.indexId, dir, file,
        Function.update_self _ _ _, rfl⟩
  schemaNames := h.schemaNames
  schemaIds := h.schemaIds
  table := h.table
  tablePaths := h.tablePaths
  tableIds := h.tableIds
  page id p hp := by
    obtain ⟨hfits, hid, hplain, hmem⟩ := h.page id p hp
    exact ⟨hfits, hid, hplain, mem_dirNames_putIndexFile.mpr (.inl hmem)⟩
  indexFile id dir' file' hf := by
    by_cases hid : id = file.indexId
    · obtain ⟨rfl, rfl⟩ : dir = dir' ∧ file = file' := by
        simpa [Disk.putIndexFile, hid] using hf
      exact ⟨hfits, hcons, hid.symm, hplain, mem_dirNames_putIndexFile.mpr (.inr rfl)⟩
    · obtain ⟨hfits, hcons, hid', hplain, hmem⟩ :=
        h.indexFile id dir' file' (by simpa [Disk.putIndexFile, hid] using hf)
      exact ⟨hfits, hcons, hid', hplain, mem_dirNames_putIndexFile.mpr (.inl hmem)⟩

theorem fileOf_putIndexFile {dir : Bytes × Bytes} {file : IndexFile}
    (hdir : ∀ dir' old, disk.indexFiles file.indexId = some (dir', old) → dir' = dir)
    {p : List Bytes} {c : Bytes} (hp : p ≠ [dir.1, dir.2, pathIndex, UUID.toString file.indexId]) :
    FileOf (disk.putIndexFile dir file) p c ↔ FileOf disk p c := by
  constructor
  · intro hfile
    cases hfile with
    | schema mem => exact .schema mem
    | table mem => exact .table mem
    | page found => exact .page found
    | @indexFile id dir' file' found =>
      by_cases hid : id = file.indexId
      · obtain ⟨rfl, rfl⟩ : dir = dir' ∧ file = file' := by
          simpa [Disk.putIndexFile, hid] using found
        exact absurd (by rw [hid]) hp
      · exact .indexFile (by simpa [Disk.putIndexFile, hid] using found)
  · intro hfile
    cases hfile with
    | schema mem => exact .schema mem
    | table mem => exact .table mem
    | page found => exact .page found
    | @indexFile id dir' file' found =>
      by_cases hid : id = file.indexId
      · rw [hid] at found hp
        exact absurd (by rw [hdir dir' file' found]) hp
      · exact .indexFile (by simpa [Disk.putIndexFile, hid] using found)

namespace Represents

variable {dbName : Bytes} {fs : FileTree Bytes Bytes}

/-- **A file is written**, on the tree and on the disk. -/
theorem alike_write (h : Represents dbName fs disk) (horderly' : disk'.Orderly)
    {s name content : Bytes} {dir : List Bytes} (hs : s ≠ pathWal) (hplain : PlainName s)
    (hfile : ∀ path, disk'.fileAt path
      = if path = s :: (dir ++ [name]) then some content else disk.fileAt path)
    (hfree : ∀ p, p <+: dir → p ≠ [] → disk.fileAt (s :: p) = none)
    (hbelow : ∀ below, disk.fileAt (s :: (dir ++ [name] ++ below)) ≠ none → below = []) :
    Alike dbName fs (writeFile fs (dbName :: s :: dir) name content) (.ok disk') := by
  obtain ⟨fs', hwrite, hrep, helse⟩ := h.write hs hplain hfile hfree hbelow
  have hok : writeFile fs (dbName :: s :: dir) name content = .ok fs' := by
    unfold writeFile
    rw [show dbName :: s :: dir = [dbName, s] ++ dir from rfl, hwrite]
  rw [hok]
  exact .ok hrep horderly' helse

/-- **`write_ms`.** -/
theorem alike_writeMs (h : Represents dbName fs disk) (horderly : disk.Orderly) {ms : MetaSchema}
    (hms : (Change.writeMs ms).Permitted disk) :
    Alike dbName fs ((Change.writeMs ms).onTree dbName fs) ((Change.writeMs ms).onDisk disk) := by
  have horderly' := horderly.writeMs hms
  refine h.alike_write horderly' hms.2.2.1 hms.2.1 ?_ ?_ ?_
  · exact horderly.fileAt_written horderly' (.schema (mem_upsert_self _ _ _))
      fun p c hp => fileOf_writeMs hp
  · intro p hp hnil
    exact absurd (List.prefix_nil.mp hp) hnil
  · exact fun below => horderly.below_schemaMeta

/-- **`delete_ms`.** -/
theorem alike_deleteMs (h : Represents dbName fs disk) (horderly : disk.Orderly) {ms : MetaSchema}
    (hms : (Change.deleteMs ms).Permitted disk) :
    Alike dbName fs ((Change.deleteMs ms).onTree dbName fs) ((Change.deleteMs ms).onDisk disk) := by
  have horderly' := horderly.deleteMs ms
  obtain ⟨hrep, helse⟩ := h.remove hms.2 hms.1
    (horderly.fileAt_removed horderly' fun p c => fileOf_deleteMs)
    fun p hp hne => absurd (List.prefix_nil.mp hp) hne
  exact .ok hrep horderly' helse

/-- **`write_mt`.** -/
theorem alike_writeMt (h : Represents dbName fs disk) (horderly : disk.Orderly) {t : MetaTable}
    (ht : (Change.writeMt t).Permitted disk) :
    Alike dbName fs ((Change.writeMt t).onTree dbName fs) ((Change.writeMt t).onDisk disk) := by
  show Alike dbName fs (DatabaseDirectory.writeMt dbName fs t) (FileIOManager.writeMt disk t)
  unfold DatabaseDirectory.writeMt FileIOManager.writeMt
  rw [h.readSchemaMeta horderly]
  cases hschema : FileIOManager.readSchemaMeta disk t.schemaId with
  | error e => exact .error
  | ok schema =>
    obtain ⟨-, hmem, hid⟩ := mem_of_readSchemaMeta ht.2.2.1 hschema
    have hname : schema.name ∈ disk.schemas.map MetaSchema.name := List.mem_map_of_mem hmem
    have hs : schema.name ∈ disk.dirNames := List.mem_append_left _ hname
    have horderly' := horderly.putTable (f := ⟨schema.name, t⟩) ht.1 ht.2.1 hname
      (ht.2.2.2 schema hmem hid)
    show Alike dbName fs
      (writeFile fs [dbName, schema.name, t.name] (makeMetaFilename t.name) (serializeMt t).buffer)
      (.ok (disk.putTable ⟨schema.name, t⟩))
    refine h.alike_write horderly' (ne_pathWal horderly hs) (plainName horderly hs) ?_ ?_ ?_
    · exact horderly.fileAt_written horderly' 
        (.table (f := ⟨schema.name, t⟩) (mem_upsert_self _ _ _)) fun p c hp => fileOf_putTable hp
    · intro p hp hnil
      obtain rfl : p = [t.name] := (eq_of_prefix_one hp).resolve_left hnil
      exact horderly.fileAt_table ht.2.1
    · exact fun below => horderly.below_tableMeta

/-- **`delete_mt`.** -/
theorem alike_deleteMt (h : Represents dbName fs disk) (horderly : disk.Orderly) {t : MetaTable}
    (ht : (Change.deleteMt t).Permitted disk) :
    Alike dbName fs ((Change.deleteMt t).onTree dbName fs) ((Change.deleteMt t).onDisk disk) := by
  show Alike dbName fs (DatabaseDirectory.deleteMt dbName fs t) (FileIOManager.deleteMt disk t)
  unfold DatabaseDirectory.deleteMt FileIOManager.deleteMt
  rw [h.readSchemaMeta horderly]
  cases hschema : FileIOManager.readSchemaMeta disk t.schemaId with
  | error e => exact .error
  | ok schema =>
    obtain ⟨hheadless, hmem, -⟩ := mem_of_readSchemaMeta ht.2 hschema
    have hs : schema.name ∈ disk.dirNames := List.mem_append_left _ (List.mem_map_of_mem hmem)
    have horderly' := horderly.eraseTable hheadless (schema.name, t.name)
    -- the schema keeps its meta file
    have hkeep : ∀ p, p <+: [t.name] → p ≠ [t.name] → ∃ below, below ≠ []
        ∧ ¬ [t.name] <+: p ++ below
        ∧ (disk.fileAt (schema.name :: (p ++ below))).isSome = true := by
      intro p hp hne
      obtain rfl : p = [] := (eq_of_prefix_one hp).resolve_right hne
      refine ⟨[makeMetaFilename schema.name], List.cons_ne_nil _ _, ?_, ?_⟩
      · exact not_prefix_one.mpr (ht.1.ne_metaFilename schema.name).symm
      · rw [List.nil_append, horderly.fileAt_eq_some.mpr (.schema hmem)]
        rfl
    obtain ⟨hrep, helse⟩ := h.remove (ne_pathWal horderly hs) (plainName horderly hs)
      (horderly.fileAt_removed horderly' fun p c => fileOf_eraseTable ht.1) hkeep
    exact .ok hrep horderly' helse

/-- What a page or an index file is written over. -/
theorem alike_writeLeaf (h : Represents dbName fs disk) (horderly : disk.Orderly)
    (horderly' : disk'.Orderly) {dir : Bytes × Bytes} {sub name content : Bytes}
    (hs : PlainName dir.1 ∧ dir.1 ≠ pathWal) (ht : PlainName dir.2)
    (hsub : sub = pathData ∨ sub = pathIndex)
    (hfile : ∀ path, disk'.fileAt path
      = if path = [dir.1, dir.2, sub, name] then some content else disk.fileAt path) :
    Alike dbName fs (writeFile fs [dbName, dir.1, dir.2, sub] name content) (.ok disk') := by
  refine h.alike_write horderly' hs.2 hs.1 hfile ?_
    fun below => below_leaf
  intro p hp hnil
  rcases List.prefix_concat_iff.mp (show p <+: [dir.2] ++ [sub] from hp) with rfl | hp
  · exact horderly.fileAt_sub hsub
  · obtain rfl : p = [dir.2] := (eq_of_prefix_one hp).resolve_left hnil
    exact horderly.fileAt_table ht

/-- **`write_page`.** -/
theorem alike_writePage (h : Represents dbName fs disk) (horderly : disk.Orderly) {p : DataPage}
    (hp : (Change.writePage p).Permitted disk) :
    Alike dbName fs ((Change.writePage p).onTree dbName fs) ((Change.writePage p).onDisk disk) := by
  have horderly' := horderly.writePage hp
  refine h.alike_writeLeaf horderly horderly'
    ⟨plainName horderly hp.2.2.1, ne_pathWal horderly hp.2.2.1⟩ hp.2.1 (.inl rfl) ?_
  refine horderly.fileAt_written horderly' (.page ?_) fun path c hpath => fileOf_writePage hp hpath
  exact Function.update_self _ _ _

/-- An index file is written. -/
theorem alike_putIndexFile (h : Represents dbName fs disk) (horderly : disk.Orderly)
    (dir : Bytes × Bytes) {file : IndexFile} (hfits : file.Fits)
    (hcons : ∀ p ∈ file.pages, p.Consistent) (ht : PlainName dir.2)
    (hs : PlainName dir.1 ∧ dir.1 ≠ pathWal)
    (hdir : ∀ dir' old, disk.indexFiles file.indexId = some (dir', old) → dir' = dir) :
    Alike dbName fs
      (writeFile fs [dbName, dir.1, dir.2, pathIndex] (UUID.toString file.indexId)
        (serializeIf file).buffer)
      (.ok (disk.putIndexFile dir file)) := by
  have horderly' := horderly.putIndexFile hfits hcons ht hs hdir
  refine h.alike_writeLeaf horderly horderly' hs ht (.inr rfl) ?_
  refine horderly.fileAt_written horderly' (.indexFile ?_)
    fun path c hpath => fileOf_putIndexFile hdir hpath
  exact Function.update_self _ _ _

theorem fits_create {indexId : IndexId} (hid : indexId < 256 ^ 16) :
    (IndexFile.create indexId).Fits ∧ ∀ p ∈ (IndexFile.create indexId).pages, p.Consistent := by
  have hone : 1 < 256 ^ 8 := by decide
  have hzero : 0 < 256 ^ 8 := by decide
  have hnode : (IndexNode.leaf {}).Fits := by decide
  refine ⟨⟨hid, hone, hzero, hone, fun p hp => ?_⟩, fun p hp => ?_⟩
  · rw [List.mem_singleton.mp hp]
    exact ⟨hone, hzero, hid, hnode⟩
  · rw [List.mem_singleton.mp hp]
    rfl

/-- **`create_index_file`.** -/
theorem alike_createIndexFile (h : Represents dbName fs disk) (horderly : disk.Orderly)
    {s t : Bytes} {mi : MetaIndex} (hc : (Change.createIndexFile s t mi).Permitted disk) :
    Alike dbName fs ((Change.createIndexFile s t mi).onTree dbName fs)
      ((Change.createIndexFile s t mi).onDisk disk) := by
  have halike := h.alike_putIndexFile horderly (s, t) (fits_create hc.1).1 (fits_create hc.1).2
    hc.2.1 hc.2.2.1 hc.2.2.2
  show Alike dbName fs ((DatabaseDirectory.createIndexFile dbName fs s t mi).map Prod.snd) _
  unfold DatabaseDirectory.createIndexFile
  cases hwrite : writeFile fs [dbName, s, t, pathIndex] (UUID.toString mi.id)
      (serializeIf (IndexFile.create mi.id)).buffer with
  | error e =>
    have hwrite' : writeFile fs [dbName, s, t, pathIndex]
        (UUID.toString (IndexFile.create mi.id).indexId)
        (serializeIf (IndexFile.create mi.id)).buffer = .error e := hwrite
    rw [hwrite'] at halike
    cases halike
  | ok fs' =>
    have hwrite' : writeFile fs [dbName, s, t, pathIndex]
        (UUID.toString (IndexFile.create mi.id).indexId)
        (serializeIf (IndexFile.create mi.id)).buffer = .ok fs' := hwrite
    rw [hwrite'] at halike
    show Alike dbName fs ((writeFile fs [dbName, s, t, pathIndex] (UUID.toString mi.id)
      (serializeIf (IndexFile.create mi.id)).buffer >>= fun fs' =>
        pure (IndexFile.create mi.id, fs')).map Prod.snd) _
    rw [hwrite]
    exact halike

/-- **Where an index file is found.** -/
theorem find?_indexFile (h : Represents dbName fs disk) (horderly : disk.Orderly) {id : IndexId}
    (hid : id < 256 ^ 16) :
    (tableDirs dbName fs).find? (fun dir =>
        (fs.content? [dbName, dir.1, dir.2, pathIndex, UUID.toString id]).isSome)
      = (disk.indexFiles id).map Prod.fst := by
  have hisSome : ∀ dir ∈ tableDirs dbName fs,
      (fs.content? [dbName, dir.1, dir.2, pathIndex, UUID.toString id]).isSome
        = ((disk.indexFiles id).filter fun f => f.1 = dir).isSome := by
    intro dir hdir
    rw [h.content?_leaf (h.ne_pathWal_of_mem horderly hdir) pathIndex hid, leafAt_index,
      Option.isSome_map]
  cases hfile : disk.indexFiles id with
  | none =>
    refine List.find?_eq_none.mpr fun dir hdir => ?_
    rw [hisSome dir hdir, hfile]
    exact Bool.false_ne_true
  | some f =>
    obtain ⟨dir, file⟩ := f
    have hmem : dir ∈ tableDirs dbName fs :=
      h.mem_tableDirs_of_fileOf horderly (List.cons_ne_nil _ _) (.indexFile hfile)
    cases hfind : (tableDirs dbName fs).find? fun dir =>
        (fs.content? [dbName, dir.1, dir.2, pathIndex, UUID.toString id]).isSome with
    | none =>
      have hnot := List.find?_eq_none.mp hfind dir hmem
      rw [hisSome dir hmem, hfile] at hnot
      simp at hnot
    | some dir' =>
      have hsome := List.find?_some hfind
      rw [hisSome dir' (List.mem_of_find?_eq_some hfind), hfile] at hsome
      obtain ⟨f, hf⟩ := Option.isSome_iff_exists.mp hsome
      obtain ⟨hf', hdir⟩ := Option.filter_eq_some_iff.mp hf
      obtain rfl := Option.some.inj hf'
      rw [← of_decide_eq_true hdir]
      rfl

/-- **`write_index_file`.** -/
theorem alike_writeIndexFile (h : Represents dbName fs disk) (horderly : disk.Orderly)
    {file : IndexFile} (hfile : (Change.writeIndexFile file).Permitted disk) :
    Alike dbName fs ((Change.writeIndexFile file).onTree dbName fs)
      ((Change.writeIndexFile file).onDisk disk) := by
  show Alike dbName fs (DatabaseDirectory.writeIndexFile dbName fs file)
    (FileIOManager.writeIndexFile disk file)
  unfold DatabaseDirectory.writeIndexFile FileIOManager.writeIndexFile
  rw [h.find?_indexFile horderly hfile.1.1]
  cases hold : disk.indexFiles file.indexId with
  | none => exact .error
  | some f =>
    obtain ⟨dir, old⟩ := f
    obtain ⟨-, -, -, ht, hs⟩ := horderly.indexFile _ dir old hold
    show Alike dbName fs _ (.ok { disk with
      indexFiles := Function.update disk.indexFiles file.indexId (some (dir, file)) })
    rw [← putIndexFile_of_mem hs]
    refine h.alike_putIndexFile horderly dir hfile.1 hfile.2 ht
      ⟨plainName horderly hs, ne_pathWal horderly hs⟩ fun dir' old' hold' => ?_
    rw [hold] at hold'
    exact (Prod.mk.inj (Option.some.inj hold')).1.symm

/-- **Every call ends alike.** -/
theorem alike (h : Represents dbName fs disk) (horderly : disk.Orderly) {c : Change}
    (hc : c.Permitted disk) : Alike dbName fs (c.onTree dbName fs) (c.onDisk disk) := by
  cases c with
  | writeMs ms => exact h.alike_writeMs horderly hc
  | deleteMs ms => exact h.alike_deleteMs horderly hc
  | writeMt t => exact h.alike_writeMt horderly hc
  | deleteMt t => exact h.alike_deleteMt horderly hc
  | writePage p => exact h.alike_writePage horderly hc
  | createIndexFile s t mi => exact h.alike_createIndexFile horderly hc
  | writeIndexFile file => exact h.alike_writeIndexFile horderly hc
end Represents

end Disk
