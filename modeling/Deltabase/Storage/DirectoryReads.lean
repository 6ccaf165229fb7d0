import Deltabase.Lib.Program
import Deltabase.Storage.DirectoryLayout
import Deltabase.Storage.OpenInstance

/-!
# Reading the files of a database

What is read from a tree that has the files of a disk is what is on the disk
(`Disk.ReadsAlike`): every value is found where it is, and read back from its bytes.

The file system lists a directory in an order of its own. So a list of schemas or
of tables is one up to its order, and a search goes through the directories in
another order than the model's; the two find the same, because no two values have
one id.
-/

open StdStorageSerializer

/-! ## Loops -/

namespace DatabaseDirectory

variable {α β : Type}

theorem ok_bind (a : α) (f : α → Except Exn β) : (Except.ok a >>= f) = f a := rfl

/-- **A search** in which every round ends. -/
theorem search_eq_findSome? {f : α → Except Exn (Option β)} {g : α → Option β} {l : List α}
    (h : ∀ a ∈ l, f a = .ok (g a)) : search f l = .ok (l.findSome? g) := by
  induction l with
  | nil => rfl
  | cons a l ih =>
    have ha := h a List.mem_cons_self
    cases hg : g a with
    | some b =>
      rw [search, ha, List.findSome?_cons, hg]
      rfl
    | none =>
      rw [search, ha, List.findSome?_cons, hg]
      exact ih fun a' ha' => h a' (List.mem_cons_of_mem a ha')

/-- **A loop** in which every round ends. -/
theorem mapM_eq_map {f : α → Except Exn β} {g : α → β} {l : List α}
    (h : ∀ a ∈ l, f a = .ok (g a)) : l.mapM f = .ok (l.map g) := by
  induction l with
  | nil => rfl
  | cons a l ih =>
    rw [List.mapM_cons, h a List.mem_cons_self, ih fun a' ha' => h a' (List.mem_cons_of_mem a ha')]
    rfl

theorem foldlM_eq_foldl {f : β → α → Except Exn β} {g : β → α → β} {l : List α} {b : β}
    (h : ∀ a ∈ l, ∀ b, f b a = .ok (g b a)) : l.foldlM f b = .ok (l.foldl g b) := by
  induction l generalizing b with
  | nil => rfl
  | cons a l ih =>
    rw [List.foldlM_cons, h a List.mem_cons_self]
    exact ih fun a' ha' => h a' (List.mem_cons_of_mem a ha')

/-- What comes last of what there is one of. -/
theorem foldl_eq_find? {p : α → Bool} {l : List α} {a : α} :
    l.foldl (fun b x => if p x = true then x else b) a = (l.reverse.find? p).getD a := by
  induction l generalizing a with
  | nil => rfl
  | cons x l ih =>
    rw [List.foldl_cons, ih, List.reverse_cons, List.find?_append]
    cases l.reverse.find? p with
    | some y => rfl
    | none => cases h : p x <;> simp [h]

/-- **What there is one of** is found in any order. -/
theorem find?_perm {p : α → Bool} {l l' : List α} (h : l.Perm l')
    (hone : ∀ a ∈ l, ∀ b ∈ l, p a = true → p b = true → a = b) : l.find? p = l'.find? p := by
  cases hfind : l.find? p with
  | none =>
    symm
    rw [List.find?_eq_none] at hfind ⊢
    exact fun a ha => hfind a (h.mem_iff.mpr ha)
  | some a =>
    have ha := List.mem_of_find?_eq_some hfind
    have hpa := List.find?_some hfind
    cases hfind' : l'.find? p with
    | none => exact absurd hpa (List.find?_eq_none.mp hfind' a (h.mem_iff.mp ha))
    | some b =>
      have hb := h.mem_iff.mpr (List.mem_of_find?_eq_some hfind')
      rw [hone a ha b hb hpa (List.find?_some hfind')]

theorem findSome?_ite {p : α → Bool} {f : α → β} {l : List α} :
    l.findSome? (fun a => if p a = true then some (f a) else none) = (l.find? p).map f := by
  induction l with
  | nil => rfl
  | cons a l ih =>
    rw [List.findSome?_cons, List.find?_cons]
    cases p a with
    | true => rfl
    | false => exact ih

/-- What there is of one element is found when the element is there. -/
theorem findSome?_eq_of_mem [DecidableEq α] {x : α} {value : Option β} {l : List α}
    (hmem : value ≠ none → x ∈ l) :
    l.findSome? (fun a => if a = x then value else none) = value := by
  cases value with
  | none =>
    refine List.findSome?_eq_none_iff.mpr fun a _ => ?_
    exact ite_self none
  | some b =>
    have hfind : (l.find? fun a => decide (a = x)).isSome = true :=
      List.find?_isSome.mpr ⟨x, hmem (Option.some_ne_none b), decide_eq_true rfl⟩
    obtain ⟨a, ha⟩ := Option.isSome_iff_exists.mp hfind
    have hite := findSome?_ite (p := fun a => decide (a = x)) (f := fun _ => b) (l := l)
    simp only [decide_eq_true_eq] at hite
    rw [hite, ha]
    rfl

/-- **What is in one place** is found by looking everywhere. -/
theorem findSome?_filter_key {κ : Type} [DecidableEq κ] {key : α → κ} {f : α → β}
    {value : Option α} {l : List κ} (h : ∀ a, value = some a → key a ∈ l) :
    l.findSome? (fun x => (value.filter fun a => key a = x).map f) = value.map f := by
  cases value with
  | none => exact List.findSome?_eq_none_iff.mpr fun _ _ => rfl
  | some a =>
    have hround : ∀ x, ((some a).filter fun a => key a = x).map f
        = if x = key a then some (f a) else none := by
      intro x
      by_cases hx : x = key a
      · simp [hx]
      · simp [Option.filter, hx, Ne.symm hx]
    simp only [hround]
    exact findSome?_eq_of_mem fun _ => h a rfl

/-- What only one element can be let through. -/
theorem filter_of_unique [DecidableEq α] {p : α → Bool} {l : List α} {a : α} (hl : l.Nodup)
    (h : ∀ b ∈ l, p b = true → b = a) : l.filter p = if a ∈ l ∧ p a = true then [a] else [] := by
  split
  · next ha =>
    refine List.perm_singleton.mp ((List.perm_ext_iff_of_nodup (hl.filter p)
      (List.nodup_singleton a)).mpr fun b => ?_)
    rw [List.mem_filter, List.mem_singleton]
    exact ⟨fun hb => h b hb.1 hb.2, fun hb => hb ▸ ha⟩
  · next ha =>
    refine List.filter_eq_nil_iff.mpr fun b hb hp => ha ?_
    rw [← h b hb hp]
    exact ⟨hb, hp⟩

/-- A list of keys is that of the values that they are found under. -/
theorem map_filterMap_of_key {f : α → Option β} {key : β → α} {l : List α}
    (h : ∀ a ∈ l, ∃ b, f a = some b ∧ key b = a) : (l.filterMap f).map key = l := by
  induction l with
  | nil => rfl
  | cons a l ih =>
    obtain ⟨b, hb, hkey⟩ := h a List.mem_cons_self
    rw [List.filterMap_cons_some hb, List.map_cons, hkey,
      ih fun a' ha' => h a' (List.mem_cons_of_mem a ha')]

theorem deserialize_of_reads {what : String} {decoder : Decoder α} {bs : Bytes} {a : α}
    (h : decoder.Reads bs a) : deserialize what decoder bs = .ok a := by
  unfold deserialize
  rw [h.run]

/-- **A meta file in a directory**, which is there or not. -/
theorem mapM_metaFile {fs : FileTree Bytes Bytes} (path : List Bytes) {metaName : Bytes}
    {what : String} {decoder : Decoder α} {value : Option α} {bytes : α → Bytes}
    (hcontent : fs.content? (path ++ [metaName]) = value.map bytes)
    (hread : ∀ a, value = some a → decoder.Reads (bytes a) a) :
    ((fs.names path).filter fun name =>
        !fs.isDirectory (path ++ [name]) && metaName == name).mapM (fun name => do
          let content ← readFile fs (path ++ [name])
          deserialize what decoder content)
      = (.ok value.toList : Except Exn (List α)) := by
  rw [filter_of_unique FileTree.nodup_names (a := metaName) fun b _ hb => by
    rw [Bool.and_eq_true, beq_iff_eq] at hb
    exact hb.2.symm]
  cases value with
  | none =>
    rw [if_neg]
    · rfl
    · rintro ⟨hmem, hfile⟩
      obtain ⟨n, hn⟩ := FileTree.mem_names.mp hmem
      cases n with
      | file content =>
        rw [FileTree.content?_eq_some.mpr hn] at hcontent
        cases hcontent
      | dir =>
        rw [FileTree.isDirectory_iff.mpr hn] at hfile
        simp at hfile
  | some a =>
    have hnode := FileTree.content?_eq_some.mp hcontent
    rw [if_pos]
    · have hfile : readFile fs (path ++ [metaName]) = .ok (bytes a) := by
        unfold readFile
        rw [hcontent]
        rfl
      rw [List.mapM_cons, hfile]
      show (deserialize what decoder (bytes a) >>= _) = _
      rw [deserialize_of_reads (hread a rfl)]
      rfl
    · refine ⟨FileTree.mem_names.mpr ⟨_, hnode⟩, ?_⟩
      have hdir : fs.isDirectory (path ++ [metaName]) ≠ true := by
        rw [Ne, FileTree.isDirectory_iff, hnode]
        simp
      simp [hdir]

end DatabaseDirectory

namespace Disk.Represents

open DatabaseDirectory

variable {dbName s : Bytes} {fs : FileTree Bytes Bytes} {disk : Disk} {dir : Bytes × Bytes}

/-! ## Directories -/

/-- **The files of the schemas are those of the disk.** -/
theorem content?_eq (h : Represents dbName fs disk) (hs : s ≠ pathWal) {rest : List Bytes}
    (hrest : rest ≠ []) : fs.content? (dbName :: s :: rest) = disk.fileAt (s :: rest) := by
  apply Option.ext
  intro content
  rw [FileTree.content?_eq_some]
  exact (h.holds s hs).file rest content hrest

/-- A directory has a file of some value in it. -/
theorem exists_fileOf (h : Represents dbName fs disk) (hs : s ≠ pathWal) {rest : List Bytes}
    (hdir : fs.node (dbName :: s :: rest) = some .dir) :
    ∃ below content, below ≠ [] ∧ FileOf disk (s :: (rest ++ below)) content := by
  obtain ⟨below, hbelow, hsome⟩ := ((h.holds s hs).dir rest).mp hdir
  obtain ⟨content, hcontent⟩ := Option.isSome_iff_exists.mp hsome
  exact ⟨below, content, hbelow, fileOf_of_fileAt hcontent⟩

/-- What a value's file is in is a directory. -/
theorem dir_of_fileOf (h : Represents dbName fs disk) (horderly : disk.Orderly) (hs : s ≠ pathWal)
    {rest below : List Bytes} {content : Bytes} (hbelow : below ≠ [])
    (hfile : FileOf disk (s :: (rest ++ below)) content) :
    fs.node (dbName :: s :: rest) = some .dir := by
  refine ((h.holds s hs).dir rest).mpr ⟨below, hbelow, ?_⟩
  rw [horderly.fileAt_eq_some.mpr hfile]
  rfl

/-- What is in a schema is in one whose directory is there. -/
theorem schemaName_of_fileOf (horderly : disk.Orderly) {rest : List Bytes} {content : Bytes}
    (hfile : FileOf disk (s :: rest) content) : s ∈ disk.dirNames := by
  cases hfile with
  | schema mem => exact List.mem_append_left _ (List.mem_map_of_mem mem)
  | table mem => exact List.mem_append_left _ (horderly.table _ mem).2.2
  | page found => exact (horderly.page _ _ found).2.2.2
  | indexFile found => exact (horderly.indexFile _ _ _ found).2.2.2.2

theorem ne_pathWal (horderly : disk.Orderly) (hs : s ∈ disk.dirNames) : s ≠ pathWal := by
  rcases List.mem_append.mp hs with hs | hs
  · obtain ⟨ms, hmem, rfl⟩ := List.mem_map.mp hs
    exact (horderly.schema ms hmem).2.2
  · exact (horderly.headless s hs).2.1

theorem plainName (horderly : disk.Orderly) (hs : s ∈ disk.dirNames) : PlainName s := by
  rcases List.mem_append.mp hs with hs | hs
  · obtain ⟨ms, hmem, rfl⟩ := List.mem_map.mp hs
    exact (horderly.schema ms hmem).2.1
  · exact (horderly.headless s hs).1

/-- Each schema's directory has some file in it. -/
theorem exists_fileOf_dirName (horderly : disk.Orderly) (hs : s ∈ disk.dirNames) :
    ∃ below content, below ≠ [] ∧ FileOf disk (s :: below) content := by
  rcases List.mem_append.mp hs with hs | hs
  · obtain ⟨ms, hmem, rfl⟩ := List.mem_map.mp hs
    exact ⟨_, _, List.cons_ne_nil _ _, .schema hmem⟩
  · obtain ⟨-, -, -, id, dir, file, hfile, rfl⟩ := horderly.headless s hs
    exact ⟨_, _, List.cons_ne_nil _ _, .indexFile hfile⟩

/-- **The directories of the schemas.** -/
theorem mem_schemaDirs (h : Represents dbName fs disk) (horderly : disk.Orderly) :
    s ∈ schemaDirs dbName fs ↔ s ∈ disk.dirNames := by
  unfold schemaDirs
  rw [List.mem_filter, FileTree.mem_names, Bool.and_eq_true, FileTree.isDirectory_iff,
    bne_iff_ne]
  constructor
  · rintro ⟨-, hdir, hs⟩
    obtain ⟨below, content, -, hfile⟩ := h.exists_fileOf hs hdir
    exact schemaName_of_fileOf horderly hfile
  · intro hs
    have hwal := ne_pathWal horderly hs
    obtain ⟨below, content, hbelow, hfile⟩ := exists_fileOf_dirName horderly hs
    have hdir : fs.node [dbName, s] = some .dir :=
      h.dir_of_fileOf horderly hwal hbelow
        (show FileOf disk (s :: ([] ++ below)) content from hfile)
    exact ⟨⟨.dir, hdir⟩, hdir, hwal⟩

theorem nodup_schemaDirs : (schemaDirs dbName fs).Nodup := FileTree.nodup_names.filter _

/-- **The directories of the tables**, with or without a meta file. -/
theorem mem_tableDirs (h : Represents dbName fs disk) (horderly : disk.Orderly) :
    dir ∈ tableDirs dbName fs
      ↔ dir.1 ∈ disk.dirNames ∧ fs.node [dbName, dir.1, dir.2] = some .dir := by
  unfold tableDirs
  obtain ⟨s, t⟩ := dir
  simp only [List.mem_flatMap, List.mem_map, List.mem_filter, FileTree.mem_names,
    FileTree.isDirectory_iff, h.mem_schemaDirs horderly]
  constructor
  · rintro ⟨s', hs', t', ⟨-, hdir⟩, heq⟩
    cases heq
    exact ⟨hs', hdir⟩
  · rintro ⟨hs, hdir⟩
    exact ⟨s, hs, t, ⟨⟨.dir, hdir⟩, hdir⟩, rfl⟩

theorem nodup_tableDirs : (tableDirs dbName fs).Nodup := by
  unfold tableDirs
  refine List.nodup_flatMap.mpr ⟨fun s _ => ?_, ?_⟩
  · exact (FileTree.nodup_names.filter _).map fun t t' heq => (Prod.mk.inj heq).2
  · refine nodup_schemaDirs.imp fun {s s'} hne => ?_
    refine List.disjoint_left.mpr ?_
    rintro dir hdir hdir'
    obtain ⟨t, -, rfl⟩ := List.mem_map.mp hdir
    obtain ⟨t', -, heq⟩ := List.mem_map.mp hdir'
    exact hne (Prod.mk.inj heq).1.symm

/-- A table's directory is one that is gone through. -/
theorem mem_tableDirs_of_fileOf (h : Represents dbName fs disk) (horderly : disk.Orderly)
    {rest : List Bytes} {content : Bytes} (hrest : rest ≠ [])
    (hfile : FileOf disk (dir.1 :: dir.2 :: rest) content) : dir ∈ tableDirs dbName fs := by
  have hs := schemaName_of_fileOf horderly hfile
  exact (h.mem_tableDirs horderly).mpr
    ⟨hs, h.dir_of_fileOf horderly (ne_pathWal horderly hs) hrest hfile⟩

/-! ## Schemas -/

theorem content?_schemaMeta (h : Represents dbName fs disk) (hs : s ≠ pathWal) :
    fs.content? [dbName, s, makeMetaFilename s]
      = (disk.schemaAt s).map fun ms => (serializeMs ms).buffer := by
  rw [h.content?_eq hs (List.cons_ne_nil _ [])]
  exact if_pos rfl

/-- **The schemas in the order in which their directories are listed.** -/
theorem schemas_perm (h : Represents dbName fs disk) (horderly : disk.Orderly) :
    ((schemaDirs dbName fs).filterMap disk.schemaAt).Perm disk.schemas := by
  refine (List.perm_ext_iff_of_nodup ?_ horderly.schemaNames.of_map).mpr fun ms => ?_
  · refine nodup_schemaDirs.filterMap fun s s' ms hs hs' => ?_
    exact (mem_of_schemaAt hs).2.symm.trans (mem_of_schemaAt hs').2
  · rw [List.mem_filterMap]
    constructor
    · rintro ⟨s, -, hs⟩
      exact (mem_of_schemaAt hs).1
    · intro hmem
      exact ⟨ms.name,
        (h.mem_schemaDirs horderly).mpr (List.mem_append_left _ (List.mem_map_of_mem hmem)),
        horderly.schemaAt_of_mem hmem⟩

/-- Where each schema's directory has its meta file, the directories are those of the schemas. -/
theorem schemaDirs_eq_map (h : Represents dbName fs disk) (horderly : disk.Orderly)
    (hheadless : disk.headless = []) : schemaDirs dbName fs
      = ((schemaDirs dbName fs).filterMap disk.schemaAt).map MetaSchema.name := by
  symm
  refine map_filterMap_of_key fun s hs => ?_
  have hs := (h.mem_schemaDirs horderly).mp hs
  unfold dirNames at hs
  rw [hheadless, List.append_nil] at hs
  obtain ⟨ms, hmem, rfl⟩ := List.mem_map.mp hs
  exact ⟨ms, horderly.schemaAt_of_mem hmem, rfl⟩

/-- **`read_schemas_meta`.** -/
theorem readSchemasMeta (h : Represents dbName fs disk) (horderly : disk.Orderly) :
    ∃ schemas, DatabaseDirectory.readSchemasMeta dbName fs = .ok schemas
      ∧ schemas.Perm (FileIOManager.readSchemasMeta disk) := by
  refine ⟨_, ?_, h.schemas_perm horderly⟩
  unfold DatabaseDirectory.readSchemasMeta
  rw [mapM_eq_map (g := fun s => (disk.schemaAt s).toList)]
  · show Except.ok (List.flatten _) = _
    rw [← List.flatMap_def, List.filterMap_eq_flatMap_toList]
  · intro s hs
    have hwal := ne_pathWal horderly ((h.mem_schemaDirs horderly).mp hs)
    refine mapM_metaFile [dbName, s] (h.content?_schemaMeta hwal) fun ms hms => ?_
    exact reads_deserializeMs (horderly.schema ms (mem_of_schemaAt hms).1).1

/-- What the loop of `read_schema_meta` does in the directory of a schema. -/
def schemaRound (dbName : Bytes) (fs : FileTree Bytes Bytes) (schemaId : UUID)
    (schema : MetaSchema) (s : Bytes) : Except Exn MetaSchema := do
  let content ← readFile fs [dbName, s, makeMetaFilename s]
  let deserialized ← deserialize
    "FileIOManager::load_schema_meta: Error deserializing meta file: " deserializeMs content
  pure (if deserialized.id = schemaId then deserialized else schema)

theorem schemaRound_of_mem (h : Represents dbName fs disk) (horderly : disk.Orderly)
    (schemaId : UUID) {ms : MetaSchema} (hmem : ms ∈ disk.schemas) (schema : MetaSchema) :
    schemaRound dbName fs schemaId schema ms.name
      = .ok (if decide (ms.id = schemaId) = true then ms else schema) := by
  have hcontent := h.content?_schemaMeta (horderly.schema ms hmem).2.2
  have hfile : readFile fs [dbName, ms.name, makeMetaFilename ms.name]
      = .ok (serializeMs ms).buffer := by
    unfold readFile
    rw [hcontent, horderly.schemaAt_of_mem hmem]
    rfl
  have hread := reads_deserializeMs (horderly.schema ms hmem).1
  unfold schemaRound
  rw [hfile, ok_bind, deserialize_of_reads hread, ok_bind]
  simp only [decide_eq_true_eq]
  rfl

/-- A directory without its meta file ends the loop. -/
theorem schemaRound_of_headless (h : Represents dbName fs disk) (horderly : disk.Orderly)
    (schemaId : UUID) (hs : s ∈ disk.headless) (schema : MetaSchema) :
    schemaRound dbName fs schemaId schema s = .error (.runtimeError "Cannot open file: ") := by
  obtain ⟨-, hwal, hnot, -⟩ := horderly.headless s hs
  have hnone : disk.schemaAt s = none := by
    refine List.find?_eq_none.mpr fun ms hmem hname => hnot ?_
    rw [← of_decide_eq_true hname]
    exact List.mem_map_of_mem hmem
  have hfile : readFile fs [dbName, s, makeMetaFilename s]
      = .error (.runtimeError "Cannot open file: ") := by
    unfold readFile
    rw [h.content?_schemaMeta hwal, hnone]
    rfl
  unfold schemaRound
  rw [hfile]
  rfl

/-- **A directory without its meta file** ends the loop, wherever it is listed. -/
theorem foldlM_schemaRound_of_headless (h : Represents dbName fs disk) (horderly : disk.Orderly)
    (schemaId : UUID) {dirs : List Bytes} (hdirs : ∀ s ∈ dirs, s ∈ disk.dirNames)
    (hs : ∃ s ∈ dirs, s ∈ disk.headless) (schema : MetaSchema) :
    dirs.foldlM (schemaRound dbName fs schemaId) schema
      = .error (.runtimeError "Cannot open file: ") := by
  induction dirs generalizing schema with
  | nil =>
    obtain ⟨s, hs, -⟩ := hs
    cases hs
  | cons a dirs ih =>
    rw [List.foldlM_cons]
    by_cases ha : a ∈ disk.headless
    · rw [h.schemaRound_of_headless horderly schemaId ha]
      rfl
    · have hname := (List.mem_append.mp (hdirs a List.mem_cons_self)).resolve_right ha
      obtain ⟨ms, hmem, rfl⟩ := List.mem_map.mp hname
      rw [h.schemaRound_of_mem horderly schemaId hmem, ok_bind]
      obtain ⟨s, hsd, hs⟩ := hs
      refine ih (fun s hs => hdirs s (List.mem_cons_of_mem _ hs)) ⟨s, ?_, hs⟩ _
      exact (List.mem_cons.mp hsd).resolve_left fun heq => ha (heq ▸ hs)

/-- **`read_schema_meta`.** -/
theorem readSchemaMeta (h : Represents dbName fs disk) (horderly : disk.Orderly) (schemaId : UUID) :
    DatabaseDirectory.readSchemaMeta dbName fs schemaId
      = FileIOManager.readSchemaMeta disk schemaId := by
  unfold DatabaseDirectory.readSchemaMeta FileIOManager.readSchemaMeta
  change (schemaDirs dbName fs).foldlM (schemaRound dbName fs schemaId) _ >>= _ = _
  by_cases hheadless : disk.headless = []
  · rw [if_neg (not_not.mpr hheadless), h.schemaDirs_eq_map horderly hheadless]
    have hperm := h.schemas_perm horderly
    set schemas := (schemaDirs dbName fs).filterMap disk.schemaAt
    have hone : ∀ a ∈ schemas.reverse, ∀ b ∈ schemas.reverse, decide (a.id = schemaId) = true →
        decide (b.id = schemaId) = true → a = b := by
      intro a ha b hb hida hidb
      refine List.inj_on_of_nodup_map horderly.schemaIds
        (hperm.mem_iff.mp (List.mem_reverse.mp ha)) (hperm.mem_iff.mp (List.mem_reverse.mp hb)) ?_
      exact (of_decide_eq_true hida).trans (of_decide_eq_true hidb).symm
    have hfind : schemas.reverse.find? (fun s => decide (s.id = schemaId))
        = disk.schemas.reverse.find? fun s => decide (s.id = schemaId) :=
      find?_perm (schemas.reverse_perm.trans (hperm.trans disk.schemas.reverse_perm.symm)) hone
    rw [List.foldlM_map,
      foldlM_eq_foldl (g := fun schema ms =>
          if decide (ms.id = schemaId) = true then ms else schema)
        fun ms hms schema => h.schemaRound_of_mem horderly schemaId (hperm.mem_iff.mp hms) schema,
      foldl_eq_find?, hfind]
    cases hschema : disk.schemas.reverse.find? fun s => decide (s.id = schemaId) with
    | some ms =>
      have hid : ms.id = schemaId := by simpa using List.find?_some hschema
      show (if ms.id ≠ schemaId then _ else _) = _
      rw [if_neg (not_not.mpr hid)]
      rfl
    | none =>
      show (if UUID.null ≠ schemaId then _ else _) = (if schemaId = UUID.null then _ else _)
      by_cases hnull : schemaId = UUID.null
      · rw [if_neg (not_not.mpr hnull.symm), if_pos hnull]
        rfl
      · rw [if_pos (Ne.symm hnull), if_neg hnull]
        rfl
  · obtain ⟨s, hs⟩ := List.exists_mem_of_ne_nil _ hheadless
    have hdir := (h.mem_schemaDirs horderly).mpr (List.mem_append_right _ hs)
    rw [if_pos hheadless, h.foldlM_schemaRound_of_headless horderly schemaId
      (fun s hs => (h.mem_schemaDirs horderly).mp hs) ⟨s, hdir, hs⟩]
    rfl

/-! ## Tables -/

theorem content?_tableMeta (h : Represents dbName fs disk) (hs : dir.1 ≠ pathWal) :
    fs.content? [dbName, dir.1, dir.2, makeMetaFilename dir.2]
      = (disk.tableAt dir).map fun f => (serializeMt f.table).buffer := by
  rw [h.content?_eq hs (List.cons_ne_nil _ _)]
  exact if_pos rfl

theorem ne_pathWal_of_mem (h : Represents dbName fs disk) (horderly : disk.Orderly)
    (hdir : dir ∈ tableDirs dbName fs) : dir.1 ≠ pathWal :=
  ne_pathWal horderly ((h.mem_tableDirs horderly).mp hdir).1

/-- **The tables in the order in which their directories are listed.** -/
theorem tables_perm (h : Represents dbName fs disk) (horderly : disk.Orderly) :
    ((tableDirs dbName fs).filterMap disk.tableAt).Perm disk.tables := by
  refine (List.perm_ext_iff_of_nodup ?_ horderly.tablePaths.of_map).mpr fun f => ?_
  · refine nodup_tableDirs.filterMap fun dir dir' f hdir hdir' => ?_
    exact (mem_of_tableAt hdir).2.symm.trans (mem_of_tableAt hdir').2
  · rw [List.mem_filterMap]
    constructor
    · rintro ⟨dir, -, hdir⟩
      exact (mem_of_tableAt hdir).1
    · intro hmem
      exact ⟨f.path, h.mem_tableDirs_of_fileOf horderly (List.cons_ne_nil _ []) (.table hmem),
        horderly.tableAt_of_mem hmem⟩

/-- **`read_tables_meta`.** -/
theorem readTablesMeta (h : Represents dbName fs disk) (horderly : disk.Orderly) :
    ∃ tables, DatabaseDirectory.readTablesMeta dbName fs = .ok tables
      ∧ tables.Perm (FileIOManager.readTablesMeta disk) := by
  refine ⟨_, ?_, (h.tables_perm horderly).map _⟩
  unfold DatabaseDirectory.readTablesMeta
  rw [mapM_eq_map (g := fun dir => ((disk.tableAt dir).map TableFile.table).toList)]
  · show Except.ok (List.flatten _) = _
    rw [← List.flatMap_def, List.map_filterMap, List.filterMap_eq_flatMap_toList]
  · intro dir hdir
    have hcontent : fs.content? [dbName, dir.1, dir.2, makeMetaFilename dir.2]
        = ((disk.tableAt dir).map TableFile.table).map fun t => (serializeMt t).buffer := by
      rw [h.content?_tableMeta (h.ne_pathWal_of_mem horderly hdir), Option.map_map]
      rfl
    refine mapM_metaFile [dbName, dir.1, dir.2] hcontent fun t ht => ?_
    obtain ⟨f, hf, rfl⟩ := Option.map_eq_some_iff.mp ht
    exact reads_deserializeMt (horderly.table f (mem_of_tableAt hf).1).1

/-- **`read_table_meta`.** -/
theorem readTableMeta (h : Represents dbName fs disk) (horderly : disk.Orderly)
    (tableId : TableId) :
    DatabaseDirectory.readTableMeta dbName fs tableId
      = FileIOManager.readTableMeta disk tableId := by
  have hperm := h.tables_perm horderly
  have hone : ∀ a ∈ (tableDirs dbName fs).filterMap disk.tableAt,
      ∀ b ∈ (tableDirs dbName fs).filterMap disk.tableAt,
      decide (a.table.id = tableId) = true → decide (b.table.id = tableId) = true → a = b := by
    intro a ha b hb hida hidb
    refine List.inj_on_of_nodup_map horderly.tableIds (hperm.mem_iff.mp ha) (hperm.mem_iff.mp hb) ?_
    exact (of_decide_eq_true hida).trans (of_decide_eq_true hidb).symm
  have hfind : (tableDirs dbName fs).findSome?
        (fun dir => (disk.tableAt dir).bind fun f =>
          if decide (f.table.id = tableId) = true then some f.table else none)
      = (disk.tables.find? fun f => decide (f.table.id = tableId)).map TableFile.table := by
    rw [← List.head?_filterMap, ← List.filterMap_filterMap, List.head?_filterMap, findSome?_ite,
      find?_perm hperm hone]
  unfold DatabaseDirectory.readTableMeta FileIOManager.readTableMeta
  rw [search_eq_findSome? (g := fun dir => (disk.tableAt dir).bind fun f =>
    if decide (f.table.id = tableId) = true then some f.table else none), hfind]
  · cases disk.tables.find? fun f => decide (f.table.id = tableId) with
    | some f => rfl
    | none => rfl
  · intro dir hdir
    rw [h.content?_tableMeta (h.ne_pathWal_of_mem horderly hdir)]
    cases hf : disk.tableAt dir with
    | none => rfl
    | some f =>
      have hread := reads_deserializeMt (horderly.table f (mem_of_tableAt hf).1).1
      show (deserialize _ _ _ >>= _) = _
      rw [deserialize_of_reads hread]
      simp only [decide_eq_true_eq]
      rfl

/-! ## Pages and index files -/

/-- **A file that is named after an id.** -/
theorem content?_leaf (h : Represents dbName fs disk) (hs : dir.1 ≠ pathWal) (sub : Bytes)
    {id : UUID} (hid : id < 256 ^ 16) :
    fs.content? [dbName, dir.1, dir.2, sub, UUID.toString id] = disk.leafAt dir sub id := by
  rw [h.content?_eq hs (List.cons_ne_nil _ _), fileAt_toString hid]

/-- A page file is read back. -/
theorem readPageFile_eq {p : DataPage} (hp : p.Fits) :
    readPageFile p.id p.path (serializeDp p).buffer = .ok p.reread := by
  have hread := reads_deserializeDp
    { id := UUID.null, tableId := UUID.null, size := (serializeDp p).buffer.length,
      path := p.path } hp
  unfold readPageFile
  rw [deserialize_of_reads hread]
  show (if p.id ≠ p.id then _ else _) = _
  rw [if_neg (not_not.mpr rfl)]
  rfl

/-- **A round of `read_data_page`** finds the page when it is in the table's directory. -/
theorem readPageIn_eq (h : Represents dbName fs disk) (horderly : disk.Orderly) {id : DataPageId}
    (hid : id < 256 ^ 16) (hs : dir.1 ≠ pathWal) : readPageIn dbName fs id dir
      = .ok (((disk.pages id).filter fun p => p.path = dir).map DataPage.reread) := by
  have hcontent := h.content?_leaf hs pathData hid
  rw [leafAt_data] at hcontent
  cases hfound : (disk.pages id).filter fun p => p.path = dir with
  | none =>
    rw [hfound] at hcontent
    unfold readPageIn
    rw [search_eq_findSome? (g := fun _ => none)]
    · rw [List.findSome?_eq_none_iff.mpr fun _ _ => rfl]
      rfl
    · intro name _
      cases hc : fs.content? [dbName, dir.1, dir.2, pathData, name] with
      | none => rfl
      | some content =>
        show (if name ≠ UUID.toString id then _ else _) = _
        rw [if_pos]
        · rfl
        · rintro rfl
          rw [hcontent] at hc
          cases hc
  | some p =>
    obtain ⟨hpage, hpath⟩ := Option.filter_eq_some_iff.mp hfound
    obtain rfl : p.path = dir := of_decide_eq_true hpath
    obtain ⟨hfits, rfl, -⟩ := horderly.page id p hpage
    rw [hfound] at hcontent
    have hnode := FileTree.content?_eq_some.mp hcontent
    have hdir : fs.isDirectory [dbName, p.path.1, p.path.2, pathData] = true :=
      FileTree.isDirectory_iff.mpr (FileTree.node_parent hnode)
    unfold readPageIn
    rw [if_pos hdir, search_eq_findSome?
      (g := fun name => if name = UUID.toString p.id then some p.reread else none)]
    · rw [findSome?_eq_of_mem fun _ => FileTree.mem_names.mpr ⟨_, hnode⟩]
      rfl
    · intro name hname
      cases hc : fs.content? [dbName, p.path.1, p.path.2, pathData, name] with
      | none =>
        rw [if_neg]
        · rfl
        · rintro rfl
          rw [hcontent] at hc
          cases hc
      | some content =>
        by_cases heq : name = UUID.toString p.id
        · subst heq
          obtain rfl : (serializeDp p).buffer = content :=
            Option.some.inj (hcontent.symm.trans hc)
          show (if _ then _ else _) = _
          rw [if_neg (not_not.mpr rfl), if_pos rfl, readPageFile_eq hfits]
          rfl
        · show (if _ then _ else _) = _
          rw [if_pos heq, if_neg heq]
          rfl

/-- **`read_data_page`.** -/
theorem readDataPage (h : Represents dbName fs disk) (horderly : disk.Orderly) {id : DataPageId}
    (hid : id < 256 ^ 16) : DatabaseDirectory.readDataPage dbName fs id
      = .ok (FileIOManager.readDataPage disk id) := by
  unfold DatabaseDirectory.readDataPage FileIOManager.readDataPage
  rw [search_eq_findSome? fun dir hdir =>
    h.readPageIn_eq horderly hid (h.ne_pathWal_of_mem horderly hdir)]
  rw [findSome?_filter_key fun p hpage =>
    h.mem_tableDirs_of_fileOf horderly (List.cons_ne_nil _ _) (.page hpage)]

/-- **A round of `read_index_file`.** -/
theorem readIndexIn_eq (h : Represents dbName fs disk) (horderly : disk.Orderly)
    {indexId : IndexId} (hid : indexId < 256 ^ 16) (hs : dir.1 ≠ pathWal) :
    readIndexIn dbName fs indexId dir
      = .ok (((disk.indexFiles indexId).filter fun f => f.1 = dir).map fun f => f.2.reread) := by
  unfold readIndexIn
  rw [h.content?_leaf hs pathIndex hid, leafAt_index]
  cases hfound : (disk.indexFiles indexId).filter fun f => f.1 = dir with
  | none => rfl
  | some f =>
    obtain ⟨dir', file⟩ := f
    obtain ⟨hfile, -⟩ := Option.filter_eq_some_iff.mp hfound
    obtain ⟨hfits, hcons, rfl, -⟩ := horderly.indexFile indexId dir' file hfile
    show (deserialize _ _ _ >>= _) = _
    rw [deserialize_of_reads (reads_deserializeIf hfits hcons)]
    show (if file.indexId ≠ file.indexId then _ else _) = _
    rw [if_neg (not_not.mpr rfl)]
    rfl

/-- **`read_index_file`.** -/
theorem readIndexFile (h : Represents dbName fs disk) (horderly : disk.Orderly)
    {indexId : IndexId} (hid : indexId < 256 ^ 16) :
    DatabaseDirectory.readIndexFile dbName fs indexId
      = .ok (FileIOManager.readIndexFile disk indexId) := by
  unfold DatabaseDirectory.readIndexFile FileIOManager.readIndexFile
  rw [search_eq_findSome? fun dir hdir =>
    h.readIndexIn_eq horderly hid (h.ne_pathWal_of_mem horderly hdir)]
  rw [findSome?_filter_key fun f hfile =>
    h.mem_tableDirs_of_fileOf horderly (List.cons_ne_nil _ _) (.indexFile hfile)]

/-- **`create_page`.** -/
theorem createPage (h : Represents dbName fs disk) (horderly : disk.Orderly) (mt : MetaTable)
    (pageId : DataPageId) : DatabaseDirectory.createPage dbName fs mt pageId
      = FileIOManager.createPage disk mt pageId := by
  unfold DatabaseDirectory.createPage FileIOManager.createPage
  rw [h.readSchemaMeta horderly]

/-! ## Listing -/

/-- **What the file system lists** in a directory of a table. -/
def listed (dbName : Bytes) (fs : FileTree Bytes Bytes) (sub : Bytes) (dir : Bytes × Bytes) :
    List UUID :=
  if dir.1 = pathWal then [] else (fs.names [dbName, dir.1, dir.2, sub]).filterMap UUID.ofString

/-- A file that is named after an id has one that fits. -/
theorem lt_of_leafAt (horderly : disk.Orderly) {sub : Bytes} {id : UUID} {content : Bytes}
    (hleaf : disk.leafAt dir sub id = some content) : id < 256 ^ 16 := by
  unfold leafAt at hleaf
  split at hleaf
  · obtain ⟨p, hp, -⟩ := Option.map_eq_some_iff.mp hleaf
    obtain ⟨hfits, rfl, -⟩ := horderly.page id p (Option.filter_eq_some_iff.mp hp).1
    exact hfits.1
  · split at hleaf
    · obtain ⟨⟨dir', file⟩, hf, -⟩ := Option.map_eq_some_iff.mp hleaf
      obtain ⟨hfits, -, rfl, -⟩ :=
        horderly.indexFile id dir' file (Option.filter_eq_some_iff.mp hf).1
      exact hfits.1
    · cases hleaf

/-- **The names in a directory of a table** are those of its files. -/
theorem mem_names_leaf (h : Represents dbName fs disk) (hs : dir.1 ≠ pathWal) {sub name : Bytes} :
    name ∈ fs.names [dbName, dir.1, dir.2, sub]
      ↔ ∃ content, fs.content? [dbName, dir.1, dir.2, sub, name] = some content := by
  rw [FileTree.mem_names]
  constructor
  · rintro ⟨n, hn⟩
    cases n with
    | file content => exact ⟨content, FileTree.content?_eq_some.mpr hn⟩
    | dir =>
      obtain ⟨below, content, hbelow, hfile⟩ := h.exists_fileOf hs hn
      have hlength : below.length + 4 ≤ 4 := hfile.length_le
      exact absurd (List.length_eq_zero_iff.mp (by omega)) hbelow
  · rintro ⟨content, hcontent⟩
    exact ⟨_, FileTree.content?_eq_some.mp hcontent⟩

/-- A name in a directory of a table is the text of an id. -/
theorem exists_id (h : Represents dbName fs disk) (hs : dir.1 ≠ pathWal) {sub name content : Bytes}
    (hcontent : fs.content? [dbName, dir.1, dir.2, sub, name] = some content) :
    ∃ id, UUID.ofString name = some id ∧ name = UUID.toString id
      ∧ disk.leafAt dir sub id = some content := by
  rw [h.content?_eq hs (List.cons_ne_nil _ _)] at hcontent
  unfold fileAt at hcontent
  dsimp only at hcontent
  split at hcontent
  · next id hid =>
    split at hcontent
    · next hname => exact ⟨id, hid, hname.symm, hcontent⟩
    · cases hcontent
  · cases hcontent

/-- **The ids that are listed** are those of the files. -/
theorem mem_listed (h : Represents dbName fs disk) (horderly : disk.Orderly)
    (hs : dir.1 ≠ pathWal) {sub : Bytes} {id : UUID} :
    id ∈ listed dbName fs sub dir ↔ ∃ content, disk.leafAt dir sub id = some content := by
  unfold listed
  rw [if_neg hs, List.mem_filterMap]
  constructor
  · rintro ⟨name, hname, hid⟩
    obtain ⟨content, hcontent⟩ := (h.mem_names_leaf hs).mp hname
    obtain ⟨id', hid', -, hleaf⟩ := h.exists_id hs hcontent
    obtain rfl : id' = id := Option.some.inj (hid'.symm.trans hid)
    exact ⟨content, hleaf⟩
  · rintro ⟨content, hleaf⟩
    have hid := lt_of_leafAt horderly hleaf
    refine ⟨UUID.toString id, (h.mem_names_leaf hs).mpr ⟨content, ?_⟩, UUID.ofString_toString hid⟩
    rw [h.content?_leaf hs sub hid, hleaf]

/-- **Each once.** -/
theorem nodup_listed (h : Represents dbName fs disk) (sub : Bytes) :
    (listed dbName fs sub dir).Nodup := by
  unfold listed
  split
  · exact List.nodup_nil
  · next hs =>
    refine List.Nodup.of_map UUID.toString ?_
    rw [map_filterMap_of_key]
    · exact FileTree.nodup_names
    · intro name hname
      obtain ⟨content, hcontent⟩ := (h.mem_names_leaf hs).mp hname
      obtain ⟨id, hid, rfl, -⟩ := h.exists_id hs hcontent
      exact ⟨id, hid, rfl⟩

/-- A page is in a schema's directory. -/
theorem ne_pathWal_of_leafAt (horderly : disk.Orderly) {sub content : Bytes} {id : UUID}
    (hleaf : disk.leafAt dir sub id = some content) : dir.1 ≠ pathWal :=
  ne_pathWal horderly (schemaName_of_fileOf horderly (fileOf_of_leafAt hleaf))

theorem mem_listed_iff (h : Represents dbName fs disk) (horderly : disk.Orderly) {sub : Bytes}
    {id : UUID} :
    id ∈ listed dbName fs sub dir ↔ ∃ content, disk.leafAt dir sub id = some content := by
  by_cases hs : dir.1 = pathWal
  · refine iff_of_false ?_ fun ⟨content, hleaf⟩ => ne_pathWal_of_leafAt horderly hleaf hs
    unfold listed
    rw [if_pos hs]
    exact List.not_mem_nil
  · exact h.mem_listed horderly hs

/-- **The listing of a tree that has the files of a disk.** -/
def listing (h : Represents dbName fs disk) (horderly : disk.Orderly) :
    FileIOManager.DirectoryListing disk where
  pages := listed dbName fs pathData
  files := listed dbName fs pathIndex
  mem_pages dir id := by
    rw [h.mem_listed_iff horderly, leafAt_data]
    constructor
    · rintro ⟨content, hcontent⟩
      obtain ⟨p, hp, -⟩ := Option.map_eq_some_iff.mp hcontent
      obtain ⟨hpage, hdir⟩ := Option.filter_eq_some_iff.mp hp
      exact ⟨p, hpage, of_decide_eq_true hdir⟩
    · rintro ⟨p, hpage, rfl⟩
      exact ⟨(serializeDp p).buffer, by simp [hpage]⟩
  nodup_pages _ := h.nodup_listed pathData
  mem_files dir id := by
    rw [h.mem_listed_iff horderly, leafAt_index]
    constructor
    · rintro ⟨content, hcontent⟩
      obtain ⟨⟨dir', file⟩, hf, -⟩ := Option.map_eq_some_iff.mp hcontent
      obtain ⟨hfile, hdir⟩ := Option.filter_eq_some_iff.mp hf
      obtain rfl : dir' = dir := of_decide_eq_true hdir
      exact ⟨file, hfile⟩
    · rintro ⟨file, hfile⟩
      exact ⟨(serializeIf file).buffer, by simp [hfile]⟩
  nodup_files _ := h.nodup_listed pathIndex

/-- **The ids that are read off the names** in a directory of a table. -/
theorem listIds_eq (h : Represents dbName fs disk) (hs : dir.1 ≠ pathWal) (sub : Bytes) :
    listIds fs [dbName, dir.1, dir.2, sub] = .ok (listed dbName fs sub dir) := by
  have hfiles : ((fs.names [dbName, dir.1, dir.2, sub]).filter fun name =>
        (fs.content? ([dbName, dir.1, dir.2, sub] ++ [name])).isSome)
      = fs.names [dbName, dir.1, dir.2, sub] := by
    refine List.filter_eq_self.mpr fun name hname => ?_
    obtain ⟨content, hcontent⟩ := (h.mem_names_leaf hs).mp hname
    show (fs.content? [dbName, dir.1, dir.2, sub, name]).isSome = true
    rw [hcontent]
    rfl
  have hparse : ∀ name ∈ fs.names [dbName, dir.1, dir.2, sub],
      parseId name = .ok ((UUID.ofString name).getD 0) := by
    intro name hname
    obtain ⟨content, hcontent⟩ := (h.mem_names_leaf hs).mp hname
    obtain ⟨id, hid, -⟩ := h.exists_id hs hcontent
    unfold parseId
    rw [hid]
    rfl
  unfold listIds listed
  rw [hfiles, mapM_eq_map hparse, if_neg hs]
  congr 1
  rw [← List.filterMap_eq_map]
  refine List.filterMap_congr fun name hname => ?_
  obtain ⟨content, hcontent⟩ := (h.mem_names_leaf hs).mp hname
  obtain ⟨id, hid, -⟩ := h.exists_id hs hcontent
  simp [hid]

/-- A directory that is not empty is there. -/
theorem isDirectory_iff_listed (h : Represents dbName fs disk) (horderly : disk.Orderly)
    (hs : dir.1 ≠ pathWal) (sub : Bytes) :
    fs.isDirectory [dbName, dir.1, dir.2, sub] = true ↔ listed dbName fs sub dir ≠ [] := by
  rw [FileTree.isDirectory_iff]
  constructor
  · intro hdir
    obtain ⟨below, content, hbelow, hfile⟩ := h.exists_fileOf hs hdir
    obtain ⟨name, rest, rfl⟩ := List.exists_cons_of_ne_nil hbelow
    have hlength : rest.length + 1 + 3 ≤ 4 := hfile.length_le
    obtain rfl : rest = [] := List.length_eq_zero_iff.mp (by omega)
    have hcontent : fs.content? [dbName, dir.1, dir.2, sub, name] = some content := by
      rw [h.content?_eq hs (List.cons_ne_nil _ _)]
      exact horderly.fileAt_eq_some.mpr hfile
    obtain ⟨id, -, -, hleaf⟩ := h.exists_id hs hcontent
    exact List.ne_nil_of_mem ((h.mem_listed horderly hs).mpr ⟨content, hleaf⟩)
  · intro hne
    obtain ⟨id, hid⟩ := List.exists_mem_of_ne_nil _ hne
    obtain ⟨content, hleaf⟩ := (h.mem_listed horderly hs).mp hid
    exact h.dir_of_fileOf horderly hs (List.cons_ne_nil _ []) (fileOf_of_leafAt hleaf)

/-- **The round of a listing loop.** -/
theorem mapFilesIn_eq (h : Represents dbName fs disk) (horderly : disk.Orderly)
    (hs : dir.1 ≠ pathWal) (sub : Bytes) (ids : TableId → Option (List UUID)) :
    mapFilesIn dbName fs sub ids dir
      = .ok ((disk.tableAt dir).elim ids fun f =>
          if listed dbName fs sub f.path = [] then ids
          else Function.update ids f.table.id (some (listed dbName fs sub f.path))) := by
  unfold mapFilesIn
  rw [h.content?_tableMeta hs]
  cases hf : disk.tableAt dir with
  | none => rfl
  | some f =>
    obtain ⟨hmem, rfl⟩ := mem_of_tableAt hf
    have hread := reads_deserializeMt (horderly.table f hmem).1
    show (deserialize _ _ _ >>= _) = _
    rw [deserialize_of_reads hread]
    show (if _ then _ else _) = _
    have hdir := h.isDirectory_iff_listed horderly hs sub
    by_cases hnil : listed dbName fs sub f.path = []
    · rw [if_neg fun hd => hdir.mp hd hnil]
      simp only [Option.elim_some, if_pos hnil]
      rfl
    · rw [if_pos (hdir.mpr hnil), h.listIds_eq hs]
      simp only [Option.elim_some, if_neg hnil]
      rfl

/-- **`map_data_pages_for_table` and `map_index_files_for_table`.** -/
theorem mapFilesForTable (h : Represents dbName fs disk) (horderly : disk.Orderly) (sub : Bytes) :
    DatabaseDirectory.mapFilesForTable dbName fs sub
      = .ok (FileIOManager.mapFilesForTable disk (listed dbName fs sub)) := by
  unfold DatabaseDirectory.mapFilesForTable FileIOManager.mapFilesForTable
  rw [foldlM_eq_foldl fun dir hdir ids =>
    h.mapFilesIn_eq horderly (h.ne_pathWal_of_mem horderly hdir) sub ids]
  congr 1
  have hperm := h.tables_perm horderly
  rw [← hperm.foldl_eq' fun f hf g hg ids => ?_]
  · rw [List.foldl_filterMap]
    congr 1
    funext ids dir
    cases disk.tableAt dir <;> rfl
  · by_cases hid : f.table.id = g.table.id
    · rw [List.inj_on_of_nodup_map horderly.tableIds (hperm.mem_iff.mp hf) (hperm.mem_iff.mp hg)
        hid]
    · have hcomm := Function.update_comm hid (some (listed dbName fs sub f.path))
        (some (listed dbName fs sub g.path)) ids
      split <;> split <;> simp [hcomm]

end Disk.Represents
