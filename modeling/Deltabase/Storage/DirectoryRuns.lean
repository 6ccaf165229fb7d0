import Deltabase.Storage.DirectoryWrites

/-!
# A database's directory over time

A database is made in a tree of directories, and calls of its `FileIOManager` come
and go, with writes of the log, of the configuration and of other databases between
them. Whatever has happened, what is read from the tree is what is read from the disk
on which the same calls were made, and every call has ended alike
(`DatabaseDirectory.refines_disk`).

So what is proved of a `Disk` holds of the files.
-/

open StdStorageSerializer DatabaseDirectory

namespace Disk

/-- **What is read is the same.** Lists of schemas and tables are, up to their order;
of the listings of files, the model takes any. -/
structure ReadsAlike (dbName : Bytes) (fs : FileTree Bytes Bytes) (disk : Disk) : Prop where
  schemasMeta : ∃ schemas, DatabaseDirectory.readSchemasMeta dbName fs = .ok schemas
    ∧ schemas.Perm (FileIOManager.readSchemasMeta disk)
  schemaMeta : ∀ id, DatabaseDirectory.readSchemaMeta dbName fs id
    = FileIOManager.readSchemaMeta disk id
  tablesMeta : ∃ tables, DatabaseDirectory.readTablesMeta dbName fs = .ok tables
    ∧ tables.Perm (FileIOManager.readTablesMeta disk)
  tableMeta : ∀ id, DatabaseDirectory.readTableMeta dbName fs id
    = FileIOManager.readTableMeta disk id
  dataPage : ∀ id < 256 ^ 16, DatabaseDirectory.readDataPage dbName fs id
    = .ok (FileIOManager.readDataPage disk id)
  indexFile : ∀ id < 256 ^ 16, DatabaseDirectory.readIndexFile dbName fs id
    = .ok (FileIOManager.readIndexFile disk id)
  newPage : ∀ mt id, DatabaseDirectory.createPage dbName fs mt id
    = FileIOManager.createPage disk mt id
  listing : ∃ listing : FileIOManager.DirectoryListing disk,
    mapDataPagesForTable dbName fs = .ok (FileIOManager.mapFilesForTable disk listing.pages)
      ∧ mapIndexFilesForTable dbName fs = .ok (FileIOManager.mapFilesForTable disk listing.files)

theorem Represents.readsAlike {dbName : Bytes} {fs : FileTree Bytes Bytes} {disk : Disk}
    (h : Represents dbName fs disk) (horderly : disk.Orderly) : ReadsAlike dbName fs disk where
  schemasMeta := h.readSchemasMeta horderly
  schemaMeta := h.readSchemaMeta horderly
  tablesMeta := h.readTablesMeta horderly
  tableMeta := h.readTableMeta horderly
  dataPage _ := h.readDataPage horderly
  indexFile _ := h.readIndexFile horderly
  newPage := h.createPage horderly
  listing := ⟨h.listing horderly, h.mapFilesForTable horderly pathData,
    h.mapFilesForTable horderly pathIndex⟩

/-! ## Events -/

/-- **What happens to the files**: a call of the `FileIOManager`, or a file that is
written by something else. -/
inductive Event where
  | change (c : Change)
  | other (dir : List Bytes) (name content : Bytes)

/-- What a call leaves: when it throws, what was there before. -/
def afterCall {α : Type} (before : α) : Except Exn α → α × Option Exn
  | .ok after => (after, none)
  | .error e => (before, some e)

namespace Event

/-- The disk after an event, and the exception that a call has ended in. -/
def onDisk (disk : Disk) : Event → Disk × Option Exn
  | change c => afterCall disk (c.onDisk disk)
  | other _ _ _ => (disk, none)

/-- The tree after an event, and the exception that a call has ended in. -/
def onTree (dbName : Bytes) (fs : FileTree Bytes Bytes) :
    Event → FileTree Bytes Bytes × Option Exn
  | change c => afterCall fs (c.onTree dbName fs)
  | other dir name content => ((fs.write dir name content).getD fs, none)

/-- What the callers see to, and what else is written is elsewhere. -/
def Permitted (dbName : Bytes) (disk : Disk) : Event → Prop
  | change c => c.Permitted disk
  | other dir name _ => Elsewhere dbName (dir ++ [name])

/-- The path is that of a file that something else writes, or on the way to it. -/
def Touches (path : List Bytes) : Event → Prop
  | change _ => False
  | other dir name _ => path = dir ++ [name] ∨ path <+: dir

end Event

/-- **A run on a disk**, with how each event has ended. -/
def runOnDisk : Disk → List Event → Disk × List (Option Exn)
  | disk, [] => (disk, [])
  | disk, e :: events =>
    let last := runOnDisk (e.onDisk disk).1 events
    (last.1, (e.onDisk disk).2 :: last.2)

/-- **A run on a tree**, with how each event has ended. -/
def runOnTree (dbName : Bytes) :
    FileTree Bytes Bytes → List Event → FileTree Bytes Bytes × List (Option Exn)
  | fs, [] => (fs, [])
  | fs, e :: events =>
    let last := runOnTree dbName (e.onTree dbName fs).1 events
    (last.1, (e.onTree dbName fs).2 :: last.2)

/-- Every event of a run is permitted when it happens. -/
def PermittedRun (dbName : Bytes) : Disk → List Event → Prop
  | _, [] => True
  | disk, e :: events => e.Permitted dbName disk ∧ PermittedRun dbName (e.onDisk disk).1 events

namespace Represents

variable {dbName : Bytes} {fs : FileTree Bytes Bytes} {disk : Disk}

/-- What calls that end alike leave. -/
theorem afterCall (h : Represents dbName fs disk) (horderly : disk.Orderly)
    {onTree : Except Exn (FileTree Bytes Bytes)} {onDisk : Except Exn Disk}
    (halike : Alike dbName fs onTree onDisk) :
    (Disk.afterCall fs onTree).2 = (Disk.afterCall disk onDisk).2
      ∧ Represents dbName (Disk.afterCall fs onTree).1 (Disk.afterCall disk onDisk).1
      ∧ (Disk.afterCall disk onDisk).1.Orderly
      ∧ ∀ path, Elsewhere dbName path →
        (Disk.afterCall fs onTree).1.node path = fs.node path := by
  cases halike with
  | ok represents orderly elsewhere => exact ⟨rfl, represents, orderly, elsewhere⟩
  | error => exact ⟨rfl, h, horderly, fun _ _ => rfl⟩

/-- **One event.** -/
theorem step (h : Represents dbName fs disk) (horderly : disk.Orderly) {e : Event}
    (he : e.Permitted dbName disk) :
    (e.onTree dbName fs).2 = (e.onDisk disk).2
      ∧ Represents dbName (e.onTree dbName fs).1 (e.onDisk disk).1
      ∧ (e.onDisk disk).1.Orderly
      ∧ ∀ path, Elsewhere dbName path → ¬ e.Touches path →
        (e.onTree dbName fs).1.node path = fs.node path := by
  cases e with
  | change c =>
    obtain ⟨hends, hrep, horderly', helse⟩ := h.afterCall horderly (h.alike horderly he)
    exact ⟨hends, hrep, horderly', fun path hpath _ => helse path hpath⟩
  | other dir name content =>
    refine ⟨rfl, ?_, horderly, fun path _ hpath => ?_⟩
    · show Represents dbName ((fs.write dir name content).getD fs) disk
      cases hwrite : fs.write dir name content with
      | none => exact h
      | some fs' => exact h.of_elsewhere he hwrite
    · obtain ⟨hname, hdir⟩ := not_or.mp hpath
      show ((fs.write dir name content).getD fs).node path = fs.node path
      cases hwrite : fs.write dir name content with
      | none => rfl
      | some fs' =>
        show fs'.node path = fs.node path
        rw [(FileTree.node_of_write hwrite).2, if_neg hname, if_neg hdir]

/-- **Every run.** -/
theorem run (h : Represents dbName fs disk) (horderly : disk.Orderly) {events : List Event}
    (hrun : PermittedRun dbName disk events) :
    (runOnTree dbName fs events).2 = (runOnDisk disk events).2
      ∧ Represents dbName (runOnTree dbName fs events).1 (runOnDisk disk events).1
      ∧ (runOnDisk disk events).1.Orderly
      ∧ ∀ path, Elsewhere dbName path → (∀ e ∈ events, ¬ e.Touches path) →
        (runOnTree dbName fs events).1.node path = fs.node path := by
  induction events generalizing fs disk with
  | nil => exact ⟨rfl, h, horderly, fun _ _ _ => rfl⟩
  | cons e events ih =>
    obtain ⟨he, hevents⟩ := hrun
    obtain ⟨hends, h', horderly', hsame⟩ := h.step horderly he
    obtain ⟨hends', hlast, horderlyLast, hsame'⟩ := ih h' horderly' hevents
    refine ⟨?_, hlast, horderlyLast, fun path hpath huntouched => ?_⟩
    · show _ :: _ = _ :: _
      rw [hends, hends']
    · have hlater := hsame' path hpath fun e' he' =>
        huntouched e' (List.mem_cons_of_mem e he')
      exact hlater.trans (hsame path hpath (huntouched e List.mem_cons_self))

end Represents

/-- The log's files are elsewhere. -/
theorem elsewhere_wal (dbName : Bytes) (rest : List Bytes) :
    Elsewhere dbName (dbName :: pathWal :: rest) := by
  rintro s rest' heq
  exact .inl (List.cons.inj (List.cons.inj heq).2).1.symm

/-- The configuration, which `write_cfg` writes, is elsewhere. -/
theorem elsewhere_cfg (dbName name : Bytes) : Elsewhere dbName [dbName, makeMetaFilename name] := by
  rintro s rest heq
  obtain ⟨hname, hrest⟩ := List.cons.inj (List.cons.inj heq).2
  exact .inr ⟨hrest.symm, fun hplain => hplain.ne_metaFilename name hname.symm⟩

/-- **`write_cfg`** of a database leaves its schemas as they are. -/
theorem Represents.writeCfg {dbName : Bytes} {fs fs' : FileTree Bytes Bytes} {disk : Disk}
    {cfg : Config} (h : Represents dbName fs disk) (hname : cfg.dbName = some dbName)
    (hwrite : DatabaseDirectory.writeCfg fs cfg = .ok fs') : Represents dbName fs' disk := by
  unfold DatabaseDirectory.writeCfg writeFile at hwrite
  rw [hname, Option.getD_some] at hwrite
  cases hfs : fs.write [dbName] (makeMetaFilename dbName) (serializeCfg cfg).buffer with
  | none =>
    simp only [hfs] at hwrite
    cases hwrite
  | some fs₁ =>
    simp only [hfs, Except.ok.injEq] at hwrite
    rw [← hwrite]
    exact h.of_elsewhere (elsewhere_cfg dbName dbName) hfs

/-! ## From the beginning -/

theorem not_fileOf_empty {path : List Bytes} {content : Bytes} : ¬ FileOf {} path content := by
  intro hfile
  cases hfile with
  | schema mem => exact List.not_mem_nil mem
  | table mem => exact List.not_mem_nil mem
  | page found => cases found
  | indexFile found => cases found

theorem orderly_empty : Orderly {} where
  schema _ h := absurd h List.not_mem_nil
  headless _ h := absurd h List.not_mem_nil
  schemaNames := List.nodup_nil
  schemaIds := List.nodup_nil
  table _ h := absurd h List.not_mem_nil
  tablePaths := List.nodup_nil
  tableIds := List.nodup_nil
  page _ _ h := by cases h
  indexFile _ _ _ h := by cases h

/-- **A new database.** -/
theorem represents_init {dbName : Bytes} {fs : FileTree Bytes Bytes}
    (hnone : fs.node [dbName] = none) :
    ∃ fs', DatabaseDirectory.init dbName fs = .ok fs' ∧ Represents dbName fs' {}
      ∧ ∀ path, path ≠ [dbName] → fs'.node path = fs.node path := by
  have hfree : ∀ p c, p <+: [dbName] → fs.node p ≠ some (.file c) := by
    intro p c hp
    rcases eq_of_prefix_one hp with rfl | rfl
    · rw [FileTree.node_root]
      exact fun h => by cases h
    · rw [hnone]
      exact fun h => by cases h
  obtain ⟨fs', hcreate, hnode⟩ := FileTree.exists_createDirectories hfree
  have hsame : ∀ path, path ≠ [dbName] → fs'.node path = fs.node path := by
    intro path hpath
    rw [hnode]
    split
    · next hp =>
      obtain rfl := (eq_of_prefix_one hp).resolve_right hpath
      exact FileTree.node_root.symm
    · rfl
  have hbelow : ∀ s rest, fs'.node (dbName :: s :: rest) = none := by
    intro s rest
    rw [hsame _ (by simp)]
    refine Option.eq_none_iff_forall_ne_some.mpr fun n hn => ?_
    have hn' : fs.node ([dbName] ++ s :: rest) = some n := hn
    have hdir : fs.node [dbName] = some .dir := FileTree.node_above hn' (List.cons_ne_nil _ _)
    rw [hnone] at hdir
    cases hdir
  have hempty : ∀ path, ({} : Disk).fileAt path = none := fun path =>
    fileAt_eq_none fun _ => not_fileOf_empty
  have hinit : DatabaseDirectory.init dbName fs = .ok fs' := by
    unfold DatabaseDirectory.init
    rw [hcreate]
  refine ⟨fs', hinit, ⟨?_, fun s _ _ c => ?_, fun s _ => ⟨fun rest c _ => ?_, fun rest => ?_⟩⟩,
    hsame⟩
  · rw [hnode, if_pos (List.prefix_refl _)]
  · rw [hbelow s []]
    exact fun h => by cases h
  · rw [show [dbName, s] ++ rest = dbName :: s :: rest from rfl, hbelow, hempty]
    exact iff_of_false (fun h => by cases h) fun h => by cases h
  · rw [show [dbName, s] ++ rest = dbName :: s :: rest from rfl, hbelow]
    refine iff_of_false (fun h => by cases h) ?_
    rintro ⟨below, -, hsome⟩
    rw [hempty] at hsome
    cases hsome

end Disk

namespace DatabaseDirectory

open Disk

/-- **The files of a database are those of a disk.** A database is made where there is
none, and then whatever is permitted happens. Every call has ended as it does on the
disk, what is read is what is read from the disk, and what is elsewhere is as it was,
apart from what something else has written. -/
theorem refines_disk {dbName : Bytes} {fs : FileTree Bytes Bytes} (hnone : fs.node [dbName] = none)
    {events : List Disk.Event} (hrun : PermittedRun dbName {} events) :
    ∃ fs₀, init dbName fs = .ok fs₀
      ∧ (runOnTree dbName fs₀ events).2 = (runOnDisk {} events).2
      ∧ ReadsAlike dbName (runOnTree dbName fs₀ events).1 (runOnDisk {} events).1
      ∧ ∀ path, Elsewhere dbName path → path ≠ [dbName] → (∀ e ∈ events, ¬ e.Touches path) →
        (runOnTree dbName fs₀ events).1.node path = fs.node path := by
  obtain ⟨fs₀, hinit, hrep, hsame₀⟩ := represents_init hnone
  obtain ⟨hends, hlast, horderly, hsame⟩ := hrep.run orderly_empty hrun
  refine ⟨fs₀, hinit, hends, hlast.readsAlike horderly, fun path hpath hne huntouched => ?_⟩
  rw [hsame path hpath huntouched, hsame₀ path hne]

/-- A schema with a table, a page and an index, while the log and the configuration are
written, and an index of a table whose schema has not been written. -/
def session : List Disk.Event :=
  [.change (.writeMs { id := 1, name := [115], dbName := [100] }),
    .other [[100], pathWal] [48] [7],
    .other [[100]] (makeMetaFilename [100]) [8],
    .change (.writeMt { id := 2, schemaId := 1, name := [116], columns := [] }),
    .change (.writePage (DataPage.make ([115], [116]) 2 3)),
    .change (.createIndexFile [115] [116]
      { id := 4, tableId := 2, columnId := 5, name := [105], keyType := .integer,
        isUnique := false }),
    .change (.createIndexFile [120] [116]
      { id := 7, tableId := 8, columnId := 5, name := [105], keyType := .integer,
        isUnique := false }),
    .change (.deleteMt { id := 6, schemaId := 9, name := [117], columns := [] })]

theorem permittedRun_session : PermittedRun [100] {} session := by
  refine ⟨⟨by decide, by decide, by decide, by decide⟩, ?_, elsewhere_cfg [100] [100],
    ⟨by decide, by decide, by decide, ?_⟩, ⟨by decide, by decide, by decide, ?_⟩,
      ⟨by decide, by decide, by decide, ?_⟩, ⟨by decide, by decide, by decide, ?_⟩,
    ⟨by decide, by decide⟩, trivial⟩
  · exact elsewhere_wal [100] [[48]]
  · exact fun _ _ _ f hf => absurd hf List.not_mem_nil
  · exact fun q hq => by cases hq
  · exact fun dir file hf => by cases hf
  · exact fun dir file hf => by cases hf

/-- A session in an empty tree. The last call throws: a schema's directory has no meta file. -/
theorem refines_disk_session : ∃ fs₀, init [100] FileTree.empty = .ok fs₀
    ∧ (runOnTree [100] fs₀ session).2 = (runOnDisk {} session).2
    ∧ ReadsAlike [100] (runOnTree [100] fs₀ session).1 (runOnDisk {} session).1
    ∧ ∀ path, Elsewhere [100] path → path ≠ [[100]] → (∀ e ∈ session, ¬ e.Touches path) →
      (runOnTree [100] fs₀ session).1.node path = FileTree.empty.node path :=
  refines_disk (by simp) permittedRun_session

end DatabaseDirectory
