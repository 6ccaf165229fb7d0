import Deltabase.Storage.DatabaseDirectory

/-!
# Where the files of a database are

A `Disk` holds the values that are in the files of a database. This is where the
file of each value is, with which bytes (`fileAt`), and what it is for a tree of
directories to hold them (`Represents`): it has these files and no others in the
directories of the schemas, and the directories that they are in.

The log and the configuration are in the database's directory too, and other
databases beside it. None of that is touched by what is done to schemas, tables,
pages and indexes, nor does it matter to it (`Elsewhere`).
-/

open StdStorageSerializer DatabaseDirectory

/-! ## Names -/

/-- A name that is one component of a path, and the name of no meta file. -/
def PlainName (name : Bytes) : Prop := name ≠ [] ∧ 46 ∉ name ∧ 47 ∉ name

instance : DecidablePred PlainName := fun name => by unfold PlainName; infer_instance

theorem PlainName.ne_metaFilename {name : Bytes} (h : PlainName name) (other : Bytes) :
    name ≠ makeMetaFilename other := by
  intro heq
  refine h.2.1 ?_
  rw [heq]
  exact List.mem_append_right _ List.mem_cons_self

theorem pathData_ne_pathIndex : pathData ≠ pathIndex := by decide

/-- The directories of a table are not meta files. -/
theorem pathData_ne_metaFilename (name : Bytes) : pathData ≠ makeMetaFilename name :=
  (show PlainName pathData by decide).ne_metaFilename name

theorem pathIndex_ne_metaFilename (name : Bytes) : pathIndex ≠ makeMetaFilename name :=
  (show PlainName pathIndex by decide).ne_metaFilename name

namespace Disk

/-! ## Values -/

/-- **What is on a disk can be written and found again**: each value fits its type,
names are plain, what is in a schema is in one whose directory is there, a directory
without a meta file is there for some index file, and no two values are in one file or
of one id. -/
structure Orderly (disk : Disk) : Prop where
  schema : ∀ ms ∈ disk.schemas, ms.Fits ∧ PlainName ms.name ∧ ms.name ≠ pathWal
  headless : ∀ name ∈ disk.headless, PlainName name ∧ name ≠ pathWal
    ∧ name ∉ disk.schemas.map MetaSchema.name
    ∧ ∃ id dir file, disk.indexFiles id = some (dir, file) ∧ dir.1 = name
  schemaNames : (disk.schemas.map MetaSchema.name).Nodup
  schemaIds : (disk.schemas.map MetaSchema.id).Nodup
  table : ∀ f ∈ disk.tables, f.table.Fits ∧ PlainName f.table.name
    ∧ f.schemaName ∈ disk.schemas.map MetaSchema.name
  tablePaths : (disk.tables.map TableFile.path).Nodup
  tableIds : (disk.tables.map fun f => f.table.id).Nodup
  page : ∀ id p, disk.pages id = some p →
    p.Fits ∧ p.id = id ∧ PlainName p.path.2 ∧ p.path.1 ∈ disk.dirNames
  indexFile : ∀ id dir file, disk.indexFiles id = some (dir, file) →
    file.Fits ∧ (∀ p ∈ file.pages, p.Consistent) ∧ file.indexId = id ∧ PlainName dir.2
      ∧ dir.1 ∈ disk.dirNames

/-! ## Files -/

/-- The file in a table's data or index directory. -/
def leafAt (disk : Disk) (dir : Bytes × Bytes) (sub : Bytes) (id : UUID) : Option Bytes :=
  if sub = pathData then
    ((disk.pages id).filter fun p => p.path = dir).map fun p => (serializeDp p).buffer
  else if sub = pathIndex then
    ((disk.indexFiles id).filter fun f => f.1 = dir).map fun f => (serializeIf f.2).buffer
  else none

/-- The schema of a name. -/
def schemaAt (disk : Disk) (s : Bytes) : Option MetaSchema :=
  disk.schemas.find? fun ms => ms.name = s

/-- The table of a directory. -/
def tableAt (disk : Disk) (dir : Bytes × Bytes) : Option TableFile :=
  disk.tables.find? fun f => f.path = dir

/-- **The file at a path below the database's directory.** -/
def fileAt (disk : Disk) : List Bytes → Option Bytes
  | [s, name] =>
    if name = makeMetaFilename s then
      (disk.schemaAt s).map fun ms => (serializeMs ms).buffer
    else none
  | [s, t, name] =>
    if name = makeMetaFilename t then
      (disk.tableAt (s, t)).map fun f => (serializeMt f.table).buffer
    else none
  | [s, t, sub, name] =>
    match UUID.ofString name with
    | some id => if UUID.toString id = name then disk.leafAt (s, t) sub id else none
    | none => none
  | _ => none

variable {disk disk' : Disk}

theorem mem_of_schemaAt {s : Bytes} {ms : MetaSchema} (h : disk.schemaAt s = some ms) :
    ms ∈ disk.schemas ∧ ms.name = s :=
  ⟨List.mem_of_find?_eq_some h, by simpa using List.find?_some h⟩

theorem mem_of_tableAt {dir : Bytes × Bytes} {f : TableFile} (h : disk.tableAt dir = some f) :
    f ∈ disk.tables ∧ f.path = dir :=
  ⟨List.mem_of_find?_eq_some h, by simpa using List.find?_some h⟩

theorem fileAt_toString {s t sub : Bytes} {id : UUID} (hid : id < 256 ^ 16) :
    disk.fileAt [s, t, sub, UUID.toString id] = disk.leafAt (s, t) sub id := by
  show (match UUID.ofString (UUID.toString id) with
    | some id' => if UUID.toString id' = UUID.toString id then disk.leafAt (s, t) sub id' else none
    | none => none) = _
  rw [UUID.ofString_toString hid]
  exact if_pos rfl

/-- The files of a disk, with the value that is in each. -/
inductive FileOf (disk : Disk) : List Bytes → Bytes → Prop
  | schema {ms : MetaSchema} (mem : ms ∈ disk.schemas) :
      FileOf disk [ms.name, makeMetaFilename ms.name] (serializeMs ms).buffer
  | table {f : TableFile} (mem : f ∈ disk.tables) :
      FileOf disk [f.schemaName, f.table.name, makeMetaFilename f.table.name]
        (serializeMt f.table).buffer
  | page {id : DataPageId} {p : DataPage} (found : disk.pages id = some p) :
      FileOf disk [p.path.1, p.path.2, pathData, UUID.toString id] (serializeDp p).buffer
  | indexFile {id : IndexId} {dir : Bytes × Bytes} {file : IndexFile}
      (found : disk.indexFiles id = some (dir, file)) :
      FileOf disk [dir.1, dir.2, pathIndex, UUID.toString id] (serializeIf file).buffer

/-- Files are at most four names below the database's directory. -/
theorem FileOf.length_le {path : List Bytes} {content : Bytes} (h : FileOf disk path content) :
    path.length ≤ 4 := by
  cases h <;> simp

theorem leafAt_data (disk : Disk) (dir : Bytes × Bytes) (id : UUID) :
    disk.leafAt dir pathData id
      = ((disk.pages id).filter fun p => p.path = dir).map fun p => (serializeDp p).buffer :=
  if_pos rfl

theorem leafAt_index (disk : Disk) (dir : Bytes × Bytes) (id : UUID) :
    disk.leafAt dir pathIndex id
      = ((disk.indexFiles id).filter fun f => f.1 = dir).map fun f => (serializeIf f.2).buffer := by
  unfold leafAt
  rw [if_neg pathData_ne_pathIndex.symm, if_pos rfl]

theorem fileOf_of_leafAt {dir : Bytes × Bytes} {sub : Bytes} {id : UUID} {content : Bytes}
    (h : disk.leafAt dir sub id = some content) :
    FileOf disk [dir.1, dir.2, sub, UUID.toString id] content := by
  unfold leafAt at h
  split at h
  · next hsub =>
    obtain ⟨p, hp, rfl⟩ := Option.map_eq_some_iff.mp h
    obtain ⟨hpage, hdir⟩ := Option.filter_eq_some_iff.mp hp
    rw [hsub, ← of_decide_eq_true hdir]
    exact .page hpage
  · split at h
    · next hsub =>
      obtain ⟨⟨dir', file⟩, hf, rfl⟩ := Option.map_eq_some_iff.mp h
      obtain ⟨hfile, hdir⟩ := Option.filter_eq_some_iff.mp hf
      rw [hsub, ← of_decide_eq_true hdir]
      exact .indexFile hfile
    · cases h

/-- A file that is at a path is that of a value. -/
theorem fileOf_of_fileAt {path : List Bytes} {content : Bytes}
    (h : disk.fileAt path = some content) : FileOf disk path content := by
  unfold fileAt at h
  split at h
  · next s name =>
    split at h
    · next hname =>
      obtain ⟨ms, hfind, rfl⟩ := Option.map_eq_some_iff.mp h
      obtain ⟨hmem, rfl⟩ := mem_of_schemaAt hfind
      rw [hname]
      exact .schema hmem
    · cases h
  · next s t name =>
    split at h
    · next hname =>
      obtain ⟨f, hfind, rfl⟩ := Option.map_eq_some_iff.mp h
      obtain ⟨hmem, hpath⟩ := mem_of_tableAt hfind
      obtain ⟨rfl, rfl⟩ := Prod.mk.inj hpath
      rw [hname]
      exact .table hmem
    · cases h
  · next s t sub name =>
    split at h
    · next id _ =>
      split at h
      · next hname =>
        have hleaf : disk.leafAt (s, t) sub id = some content := h
        rw [← hname]
        exact fileOf_of_leafAt hleaf
      · cases h
    · cases h
  · cases h

theorem Orderly.schemaAt_of_mem (h : disk.Orderly) {ms : MetaSchema} (hmem : ms ∈ disk.schemas) :
    disk.schemaAt ms.name = some ms := find?_key_of_nodup h.schemaNames hmem

theorem Orderly.tableAt_of_mem (h : disk.Orderly) {f : TableFile} (hmem : f ∈ disk.tables) :
    disk.tableAt f.path = some f := find?_key_of_nodup h.tablePaths hmem

/-- **Which file is where.** -/
theorem Orderly.fileAt_eq_some (h : disk.Orderly) {path : List Bytes} {content : Bytes} :
    disk.fileAt path = some content ↔ FileOf disk path content := by
  refine ⟨fileOf_of_fileAt, fun hfile => ?_⟩
  cases hfile with
  | @schema ms mem =>
    show (if _ then (disk.schemaAt ms.name).map _ else none) = _
    rw [if_pos rfl, h.schemaAt_of_mem mem]
    rfl
  | @table f mem =>
    show (if _ then (disk.tableAt f.path).map _ else none) = _
    rw [if_pos rfl, h.tableAt_of_mem mem]
    rfl
  | @page id p found =>
    obtain ⟨hfits, rfl, -⟩ := h.page id p found
    rw [fileAt_toString hfits.1, leafAt_data, found]
    simp
  | @indexFile id dir file found =>
    obtain ⟨hfits, -, rfl, -⟩ := h.indexFile id dir file found
    rw [fileAt_toString hfits.1, leafAt_index, found]
    simp

/-! ## Trees -/

/-- A path at which there is nothing of the schemas: it is in another database, in
the directory of the log, or that of a file with a dot in its name. -/
def Elsewhere (dbName : Bytes) (path : List Bytes) : Prop :=
  ∀ s rest, path = dbName :: s :: rest → s = pathWal ∨ rest = [] ∧ ¬ PlainName s

/-- **A tree that has the files of a disk.** What else there is in the database's
directory is the log's directory, or a file with a dot in its name. -/
structure Represents (dbName : Bytes) (fs : FileTree Bytes Bytes) (disk : Disk) : Prop where
  database : fs.node [dbName] = some .dir
  plain : ∀ s, s ≠ pathWal → PlainName s → ∀ c, fs.node [dbName, s] ≠ some (.file c)
  holds : ∀ s, s ≠ pathWal → fs.Holds [dbName, s] fun rest => disk.fileAt (s :: rest)

namespace Represents

variable {dbName s name content : Bytes} {fs fs' : FileTree Bytes Bytes}
variable {dir path : List Bytes}

/-- What is elsewhere is in no schema's directory. -/
theorem not_prefix_of_elsewhere (hs : s ≠ pathWal) (hplain : PlainName s)
    (h : Elsewhere dbName path) : ¬ [dbName, s] <+: path := by
  rintro ⟨rest, rfl⟩
  exact (h s rest rfl).elim hs fun h => h.2 hplain

/-- **A change of one schema's directory.** -/
theorem of_schema (h : Represents dbName fs disk)
    (hholds : s ≠ pathWal → fs'.Holds [dbName, s] fun rest => disk'.fileAt (s :: rest))
    (hothers : ∀ s' rest, s' ≠ s → disk'.fileAt (s' :: rest) = disk.fileAt (s' :: rest))
    (hnode : ∀ p, ¬ [dbName, s] <+: p → fs'.node p = fs.node p)
    (hdir : ∀ c, fs'.node [dbName, s] ≠ some (.file c)) : Represents dbName fs' disk' where
  database := by
    rw [hnode _ (by simp), h.database]
  plain s' hwal hs' c := by
    by_cases heq : s' = s
    · rw [heq]
      exact hdir c
    · rw [hnode _ (by simp [Ne.symm heq])]
      exact h.plain s' hwal hs' c
  holds s' hs' := by
    by_cases heq : s' = s
    · rw [heq] at hs' ⊢
      exact hholds hs'
    · refine (h.holds s' hs').congr (fun rest => hnode _ ?_) fun rest _ => hothers s' rest heq
      simp [Ne.symm heq]

/-- **A file is written.** -/
theorem write (h : Represents dbName fs disk) (hs : s ≠ pathWal) (hplain : PlainName s)
    (hfile : ∀ path, disk'.fileAt path
      = if path = s :: (dir ++ [name]) then some content else disk.fileAt path)
    (hfree : ∀ p, p <+: dir → p ≠ [] → disk.fileAt (s :: p) = none)
    (hbelow : ∀ below, disk.fileAt (s :: (dir ++ [name] ++ below)) ≠ none → below = []) :
    ∃ fs', fs.write ([dbName, s] ++ dir) name content = some fs' ∧ Represents dbName fs' disk'
      ∧ ∀ path, Elsewhere dbName path → fs'.node path = fs.node path := by
  have hbase : ∀ p c, p <+: [dbName, s] → fs.node p ≠ some (.file c) := by
    rintro (_ | ⟨x, _ | ⟨y, rest⟩⟩) c hp hnode
    · rw [FileTree.node_root] at hnode
      cases hnode
    · rw [(List.cons_prefix_cons.mp hp).1, h.database] at hnode
      cases hnode
    · obtain ⟨hx, hp⟩ := List.cons_prefix_cons.mp hp
      obtain ⟨hy, hrest⟩ := List.cons_prefix_cons.mp hp
      rw [hx, hy, List.prefix_nil.mp hrest] at hnode
      exact h.plain s hs hplain c hnode
  have hway : ∀ p, p <+: [dbName, s] → ¬ [dbName, s] <+: p → fs.node p = some .dir := by
    rintro (_ | ⟨x, _ | ⟨y, rest⟩⟩) hp hnot
    · exact FileTree.node_root
    · rw [(List.cons_prefix_cons.mp hp).1]
      exact h.database
    · obtain ⟨hx, hp⟩ := List.cons_prefix_cons.mp hp
      refine absurd ?_ hnot
      rw [hx, (List.cons_prefix_cons.mp hp).1]
      exact ⟨rest, rfl⟩
  obtain ⟨fs', hwrite, hholds, hnode⟩ := (h.holds s hs).write hbase hfree hbelow content
  have hsame : ∀ p, ¬ [dbName, s] <+: p → fs'.node p = fs.node p := by
    intro p hp
    rw [hnode p hp]
    split
    · next hpre => exact (hway p hpre hp).symm
    · rfl
  refine ⟨fs', hwrite, ?_, fun p hp => hsame p (not_prefix_of_elsewhere hs hplain hp)⟩
  refine h.of_schema (fun _ => hholds.congr (fun _ => rfl) fun rest _ => ?_) ?_ hsame ?_
  · show disk'.fileAt (s :: rest) = _
    rw [hfile, Function.update_apply]
    simp only [List.cons.injEq, true_and]
  · intro s' rest hne
    rw [hfile, if_neg fun heq => hne (List.cons.inj heq).1]
  · intro c hc
    have hdir : fs'.node [dbName, s] = some .dir := by
      refine (hholds.dir []).mpr ⟨dir ++ [name], by simp, ?_⟩
      rw [List.nil_append, Function.update_self]
      rfl
    rw [hdir] at hc
    cases hc

/-- **A directory is removed.** -/
theorem remove (h : Represents dbName fs disk) (hs : s ≠ pathWal) (hplain : PlainName s)
    (hfile : ∀ path, disk'.fileAt path
      = if s :: dir <+: path then none else disk.fileAt path)
    (hkeep : ∀ p, p <+: dir → p ≠ dir →
      ∃ below, below ≠ [] ∧ ¬ dir <+: p ++ below
        ∧ (disk.fileAt (s :: (p ++ below))).isSome = true) :
    Represents dbName (fs.remove ([dbName, s] ++ dir)) disk'
      ∧ ∀ path, Elsewhere dbName path →
        (fs.remove ([dbName, s] ++ dir)).node path = fs.node path := by
  obtain ⟨hholds, hsame⟩ := (h.holds s hs).remove (by simp) hkeep
  refine ⟨?_, fun p hp => hsame p (not_prefix_of_elsewhere hs hplain hp)⟩
  refine h.of_schema (fun _ => hholds.congr (fun _ => rfl) fun rest _ => ?_) ?_ hsame ?_
  · show disk'.fileAt (s :: rest) = _
    rw [hfile]
    simp only [List.cons_prefix_cons, true_and]
  · intro s' rest hne
    rw [hfile, if_neg fun hp => hne (List.cons_prefix_cons.mp hp).1.symm]
  · intro c
    rw [FileTree.node_remove (by simp)]
    split
    · exact fun h => by cases h
    · exact h.plain s hs hplain c

/-- **What is written elsewhere is of no consequence.** -/
theorem of_elsewhere (h : Represents dbName fs disk) (hpath : Elsewhere dbName (dir ++ [name]))
    (hwrite : fs.write dir name content = some fs') : Represents dbName fs' disk := by
  obtain ⟨hnot, hnode⟩ := FileTree.node_of_write hwrite
  have hdir : ∀ s rest, s ≠ pathWal → ¬ [dbName, s] ++ rest <+: dir := by
    rintro s rest hs ⟨below, rfl⟩
    rcases hpath s (rest ++ below ++ [name]) (by simp) with h | ⟨h, -⟩
    · exact hs h
    · simp at h
  have hroot : fs'.node [dbName] = some .dir := by
    rw [hnode]
    by_cases hdb : [dbName] = dir ++ [name]
    · rw [← hdb] at hnot
      exact absurd h.database hnot
    · rw [if_neg hdb, h.database, ite_self]
  refine ⟨hroot, fun s hs hplain c => ?_, fun s hs => ⟨fun rest c hrest => ?_, fun rest => ?_⟩⟩
  · have hne : [dbName, s] ≠ dir ++ [name] := by
      intro heq
      rcases hpath s [] heq.symm with h | ⟨-, h⟩
      · exact hs h
      · exact h hplain
    have hpre : ¬ [dbName, s] <+: dir := hdir s [] hs
    rw [hnode, if_neg hne, if_neg hpre]
    exact h.plain s hs hplain c
  · have hne : [dbName, s] ++ rest ≠ dir ++ [name] := by
      intro heq
      rcases hpath s rest heq.symm with h | ⟨h, -⟩
      · exact hs h
      · exact hrest h
    rw [hnode, if_neg hne, if_neg (hdir s rest hs)]
    exact (h.holds s hs).file rest c hrest
  · rw [hnode, if_neg (hdir s rest hs)]
    split
    · next heq =>
      rw [← heq] at hnot
      refine iff_of_false (fun h => by cases h) fun hbelow => hnot ?_
      exact ((h.holds s hs).dir rest).mpr hbelow
    · exact (h.holds s hs).dir rest

end Represents

end Disk
