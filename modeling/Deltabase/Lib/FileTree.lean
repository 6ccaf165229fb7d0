import Deltabase.Lib.Upsert
import Mathlib.Data.List.Infix
import Mathlib.Data.List.Nodup
import Mathlib.Logic.Function.Basic

/-!
# Trees of directories and files

A file system as a program sees it: at a path, which is a list of names, there is
a file, a directory or nothing, and a directory lists the names that are in it.
What is below a directory is kept as one list of paths, each with what is there, in
which every path is there once and every path but the root's is below a directory.

Every operation is given by what is at each path afterwards (`node_write`,
`node_createDirectories`, `node_remove`). The order in which a directory lists
its names is of no significance in any of them.
-/

/-- What is at a path. -/
inductive FileNode (β : Type*) where
  | file (content : β)
  | dir

/-- **A tree of directories and files.** -/
structure FileTree (ν β : Type*) where
  /-- The paths at which there is something, with what is there. -/
  entries : List (List ν × FileNode β)
  nodup : (entries.map Prod.fst).Nodup
  root : ([], FileNode.dir) ∈ entries
  below : ∀ path name n, (path ++ [name], n) ∈ entries → (path, FileNode.dir) ∈ entries

namespace FileTree

variable {ν β : Type*} [DecidableEq ν]

/-- Nothing but the root. -/
def empty : FileTree ν β where
  entries := [([], .dir)]
  nodup := List.nodup_singleton _
  root := List.mem_singleton_self _
  below path name n h := by simp at h

variable (fs : FileTree ν β)

/-- What is at a path. -/
def node (path : List ν) : Option (FileNode β) :=
  (fs.entries.find? fun e => e.1 = path).map Prod.snd

/-- The names that a directory lists. -/
def names (path : List ν) : List ν :=
  (fs.entries.map Prod.fst).filterMap fun p => if p.dropLast = path then p.getLast? else none

/-- Whether there is a directory at a path. -/
def isDirectory (path : List ν) : Bool :=
  match fs.node path with
  | some .dir => true
  | _ => false

/-- The content of the file at a path. -/
def content? (path : List ν) : Option β :=
  match fs.node path with
  | some (.file content) => some content
  | _ => none

variable {fs} {path p : List ν} {name : ν} {n : FileNode β} {content : β}

theorem mem_entries : (path, n) ∈ fs.entries ↔ fs.node path = some n := by
  unfold node
  constructor
  · intro h
    rw [find?_key_of_nodup (fs.nodup) h]
    rfl
  · intro h
    obtain ⟨⟨path', n'⟩, hfind, rfl⟩ := Option.map_eq_some_iff.mp h
    obtain rfl : path' = path := by simpa using List.find?_some hfind
    exact List.mem_of_find?_eq_some hfind

@[simp] theorem node_root : fs.node [] = some .dir := mem_entries.mp fs.root

@[simp] theorem node_empty :
    (empty : FileTree ν β).node path = if path = [] then some .dir else none := by
  unfold node empty
  by_cases h : path = []
  · simp [h]
  · simp [h, Ne.symm h]

/-- What is at a path is below a directory. -/
theorem node_parent (h : fs.node (path ++ [name]) = some n) : fs.node path = some .dir :=
  mem_entries.mp (fs.below path name n (mem_entries.mpr h))

/-- All that leads to a path are directories. -/
theorem node_above {rest : List ν} (h : fs.node (path ++ rest) = some n) (hrest : rest ≠ []) :
    fs.node path = some .dir := by
  induction rest using List.reverseRecOn generalizing n with
  | nil => exact absurd rfl hrest
  | append_singleton rest name ih =>
    rw [← List.append_assoc] at h
    have hparent := node_parent h
    by_cases hnil : rest = []
    · rw [hnil, List.append_nil] at hparent
      exact hparent
    · exact ih hparent hnil

@[simp] theorem isDirectory_iff : fs.isDirectory path = true ↔ fs.node path = some .dir := by
  unfold isDirectory
  cases fs.node path with
  | none => simp
  | some n => cases n <;> simp

@[simp] theorem content?_eq_some : fs.content? path = some content
    ↔ fs.node path = some (.file content) := by
  unfold content?
  cases fs.node path with
  | none => simp
  | some n => cases n <;> simp

theorem path_of_getLast? (h : (if p.dropLast = path then p.getLast? else none) = some name) :
    p = path ++ [name] := by
  split at h
  · next hp => rw [← hp, List.dropLast_append_getLast? name h]
  · cases h

/-- **A directory lists what is in it.** -/
theorem mem_names : name ∈ fs.names path ↔ ∃ n, fs.node (path ++ [name]) = some n := by
  unfold names
  rw [List.mem_filterMap]
  constructor
  · rintro ⟨p, hmem, hlast⟩
    obtain ⟨⟨p', n⟩, hentry, rfl⟩ := List.mem_map.mp hmem
    refine ⟨n, mem_entries.mp ?_⟩
    rw [← path_of_getLast? hlast]
    exact hentry
  · rintro ⟨n, hn⟩
    refine ⟨path ++ [name], List.mem_map_of_mem (mem_entries.mpr hn), ?_⟩
    rw [if_pos List.dropLast_concat, List.getLast?_concat]

/-- **Each once.** -/
theorem nodup_names : (fs.names path).Nodup := by
  unfold names
  refine List.Nodup.filterMap (fun p q name hp hq => ?_) fs.nodup
  exact (path_of_getLast? hp).trans (path_of_getLast? hq).symm

/-! ## Writing -/

/-- What is put into a directory is below it, and so is what was there. -/
theorem below_upsert {dir : List ν} (hdir : fs.node dir = some .dir)
    (hnot : fs.node (dir ++ [name]) ≠ some .dir) {path : List ν} {name' : ν} {n' : FileNode β}
    (h : (path ++ [name'], n') ∈ upsert Prod.fst (dir ++ [name], n) fs.entries) :
    (path, FileNode.dir) ∈ upsert Prod.fst (dir ++ [name], n) fs.entries := by
  have hparent : fs.node path = some .dir := by
    rcases (mem_upsert_iff_of_nodup fs.nodup).mp h with heq | ⟨hmem, -⟩
    · rw [(List.append_inj' (congrArg Prod.fst heq) rfl).1]
      exact hdir
    · exact node_parent (mem_entries.mp hmem)
  refine mem_upsert_of_ne (mem_entries.mpr hparent) fun heq => hnot ?_
  rw [← show path = dir ++ [name] from heq]
  exact hparent

/-- Puts a node into a directory, in the place of no other directory. -/
def put (fs : FileTree ν β) (dir : List ν) (name : ν) (n : FileNode β) : Option (FileTree ν β) :=
  if h : fs.isDirectory dir = true ∧ ¬ fs.isDirectory (dir ++ [name]) = true then
    some
      { entries := upsert Prod.fst (dir ++ [name], n) fs.entries
        nodup := nodup_upsert fs.nodup
        root := mem_upsert_of_ne fs.root (List.append_ne_nil_of_right_ne_nil dir (by simp)).symm
        below := fun _ _ _ =>
          below_upsert (isDirectory_iff.mp h.1) fun hdir => h.2 (isDirectory_iff.mpr hdir) }
  else none

/-- **What is where after a put.** -/
theorem exists_put {dir : List ν} (hdir : fs.node dir = some .dir)
    (hnot : fs.node (dir ++ [name]) ≠ some .dir) (n : FileNode β) :
    ∃ fs', fs.put dir name n = some fs'
      ∧ ∀ p, fs'.node p = if p = dir ++ [name] then some n else fs.node p := by
  have h : fs.isDirectory dir = true ∧ ¬ fs.isDirectory (dir ++ [name]) = true :=
    ⟨isDirectory_iff.mpr hdir, fun h => hnot (isDirectory_iff.mp h)⟩
  refine ⟨_, dif_pos h, fun p => ?_⟩
  show ((upsert Prod.fst (dir ++ [name], n) fs.entries).find? fun e => e.1 = p).map Prod.snd = _
  rw [find?_upsert]
  by_cases hp : p = dir ++ [name]
  · rw [if_pos hp, if_pos hp.symm, Option.map_some]
  · rw [if_neg hp, if_neg (Ne.symm hp)]
    rfl

/-- Makes the directories that are missing on the way to `rest` below `above`. -/
def createBelow (fs : FileTree ν β) (above : List ν) : List ν → Option (FileTree ν β)
  | [] => some fs
  | name :: rest =>
    if fs.isDirectory (above ++ [name]) = true then fs.createBelow (above ++ [name]) rest
    else if (fs.node (above ++ [name])).isSome = true then none
    else (fs.put above name .dir).bind fun fs' => fs'.createBelow (above ++ [name]) rest

/-- Makes a directory and those that it is in, unless one of them is a file. -/
def createDirectories (fs : FileTree ν β) (path : List ν) : Option (FileTree ν β) :=
  fs.createBelow [] path

theorem exists_createBelow {above rest : List ν} (habove : fs.node above = some .dir)
    (hfree : ∀ p c, p <+: above ++ rest → fs.node p ≠ some (.file c)) :
    ∃ fs', fs.createBelow above rest = some fs'
      ∧ ∀ p, fs'.node p = if p <+: above ++ rest then some .dir else fs.node p := by
  induction rest generalizing fs above with
  | nil =>
    refine ⟨fs, rfl, fun p => ?_⟩
    rw [List.append_nil]
    split
    · next hp =>
      obtain ⟨rest, rfl⟩ := hp
      by_cases hrest : rest = []
      · rw [hrest, List.append_nil] at habove
        exact habove
      · exact node_above habove hrest
    · rfl
  | cons name rest ih =>
    have happend : above ++ name :: rest = above ++ [name] ++ rest := by
      rw [List.append_assoc, List.singleton_append]
    rw [happend] at hfree ⊢
    unfold createBelow
    cases hnode : fs.node (above ++ [name]) with
    | some n =>
      cases n with
      | file c => exact absurd hnode (hfree _ c (List.prefix_append _ _))
      | dir =>
        rw [if_pos (isDirectory_iff.mpr hnode)]
        exact ih hnode hfree
    | none =>
      have hnot : fs.node (above ++ [name]) ≠ some .dir := by
        rw [hnode]
        exact (Option.some_ne_none _).symm
      obtain ⟨fs₁, hput, hnode₁⟩ := exists_put habove hnot .dir
      rw [if_neg fun h => hnot (isDirectory_iff.mp h), if_neg (by simp), hput]
      have habove₁ : fs₁.node (above ++ [name]) = some .dir := by
        rw [hnode₁, if_pos rfl]
      obtain ⟨fs', hcreate, hnode'⟩ := ih habove₁ fun p c hp => by
        rw [hnode₁]
        split
        · exact fun h => by cases h
        · exact hfree p c hp
      refine ⟨fs', hcreate, fun p => ?_⟩
      rw [hnode', hnode₁]
      by_cases hp : p = above ++ [name]
      · rw [hp, if_pos (List.prefix_append _ _), if_pos (List.prefix_append _ _)]
      · rw [if_neg hp]

/-- **What is where after `createDirectories`.** -/
theorem exists_createDirectories (hfree : ∀ p c, p <+: path → fs.node p ≠ some (.file c)) :
    ∃ fs', fs.createDirectories path = some fs'
      ∧ ∀ p, fs'.node p = if p <+: path then some .dir else fs.node p :=
  exists_createBelow node_root hfree

/-- Writes a file, over one that is there, in a directory that is made with those
that it is in when it is missing. -/
def write (fs : FileTree ν β) (dir : List ν) (name : ν) (content : β) : Option (FileTree ν β) :=
  (fs.createDirectories dir).bind fun fs' => fs'.put dir name (.file content)

/-- **What is where after a write.** -/
theorem exists_write {dir : List ν} (hfree : ∀ p c, p <+: dir → fs.node p ≠ some (.file c))
    (hnot : fs.node (dir ++ [name]) ≠ some .dir) (content : β) :
    ∃ fs', fs.write dir name content = some fs'
      ∧ ∀ p, fs'.node p = if p = dir ++ [name] then some (.file content)
          else if p <+: dir then some .dir else fs.node p := by
  obtain ⟨fs₁, hcreate, hnode₁⟩ := exists_createDirectories hfree
  have hnot₁ : fs₁.node (dir ++ [name]) ≠ some .dir := by
    rw [hnode₁, if_neg fun h => ?_]
    · exact hnot
    · exact absurd h.length_le (by simp)
  obtain ⟨fs', hput, hnode'⟩ := exists_put (by rw [hnode₁, if_pos (List.prefix_refl dir)]) hnot₁
    (.file content)
  refine ⟨fs', ?_, fun p => ?_⟩
  · unfold write
    rw [hcreate]
    exact hput
  · rw [hnode', hnode₁]

theorem free_of_createBelow {fs' : FileTree ν β} {above rest : List ν}
    (habove : fs.node above = some .dir) (h : fs.createBelow above rest = some fs')
    {p : List ν} (hp : p <+: above ++ rest) (c : β) : fs.node p ≠ some (.file c) := by
  induction rest generalizing fs above with
  | nil =>
    rw [List.append_nil] at hp
    obtain ⟨rest, rfl⟩ := hp
    by_cases hrest : rest = []
    · rw [hrest, List.append_nil] at habove
      rw [habove]
      exact fun h => by cases h
    · rw [node_above habove hrest]
      exact fun h => by cases h
  | cons name rest ih =>
    have happend : above ++ name :: rest = above ++ [name] ++ rest := by
      rw [List.append_assoc, List.singleton_append]
    rw [happend] at hp
    unfold createBelow at h
    cases hnode : fs.node (above ++ [name]) with
    | some n =>
      cases n with
      | file c' =>
        rw [if_neg (by simp [hnode]), if_pos (by simp [hnode])] at h
        cases h
      | dir =>
        rw [if_pos (isDirectory_iff.mpr hnode)] at h
        exact ih hnode h hp
    | none =>
      have hnot : fs.node (above ++ [name]) ≠ some .dir := by
        rw [hnode]
        exact (Option.some_ne_none _).symm
      obtain ⟨fs₁, hput, hnode₁⟩ := exists_put habove hnot .dir
      rw [if_neg (by simp [hnode]), if_neg (by simp [hnode]), hput] at h
      have hfree := ih (by rw [hnode₁, if_pos rfl]) h hp
      rw [hnode₁] at hfree
      split at hfree
      · next heq =>
        rw [heq, hnode]
        exact fun h => by cases h
      · exact hfree

/-- **What a write needs, and what it does.** -/
theorem node_of_write {fs' : FileTree ν β} {dir : List ν}
    (h : fs.write dir name content = some fs') :
    fs.node (dir ++ [name]) ≠ some .dir
      ∧ ∀ p, fs'.node p = if p = dir ++ [name] then some (.file content)
          else if p <+: dir then some .dir else fs.node p := by
  obtain ⟨fs₁, hcreate, hput⟩ := Option.bind_eq_some_iff.mp h
  have hfree : ∀ p c, p <+: dir → fs.node p ≠ some (.file c) :=
    fun p c hp => free_of_createBelow node_root hcreate hp c
  obtain ⟨fs₂, hcreate₂, hnode₁⟩ := exists_createDirectories hfree
  obtain rfl : fs₁ = fs₂ := Option.some.inj (hcreate.symm.trans hcreate₂)
  have hnot : fs.node (dir ++ [name]) ≠ some .dir := by
    unfold put at hput
    split at hput
    · next hdir =>
      intro hnode
      refine hdir.2 (isDirectory_iff.mpr ?_)
      rw [hnode₁, if_neg fun hp => absurd hp.length_le (by simp), hnode]
    · cases hput
  obtain ⟨fs₂, hwrite, hnode⟩ := exists_write hfree hnot content
  obtain rfl : fs' = fs₂ := Option.some.inj (h.symm.trans hwrite)
  exact ⟨hnot, hnode⟩

/-! ## Removing -/

/-- Removes what is at a path, with all that is in it. -/
def remove (fs : FileTree ν β) (path : List ν) : FileTree ν β where
  entries := fs.entries.filter fun e => e.1 = [] ∨ ¬ path <+: e.1
  nodup := fs.nodup.sublist (List.filter_sublist.map _)
  root := List.mem_filter.mpr ⟨fs.root, by simp⟩
  below p name n h := by
    obtain ⟨hmem, hkept⟩ := List.mem_filter.mp h
    refine List.mem_filter.mpr ⟨fs.below p name n hmem, ?_⟩
    simp only [decide_eq_true_eq] at hkept ⊢
    right
    intro hp
    exact hkept.elim (List.append_ne_nil_of_right_ne_nil p (by simp))
      fun hnot => hnot (hp.trans (List.prefix_append _ _))

/-- **What is where after a removal.** -/
theorem node_remove (hpath : path ≠ []) :
    (fs.remove path).node p = if path <+: p then none else fs.node p := by
  have hkept : ∀ e : List ν × FileNode β, (e.1 = [] ∨ ¬ path <+: e.1) ↔ ¬ path <+: e.1 := by
    intro e
    refine ⟨?_, .inr⟩
    rintro (h | h)
    · rw [h, List.prefix_nil]
      exact hpath
    · exact h
  apply Option.ext
  intro n
  rw [← mem_entries]
  show (p, n) ∈ fs.entries.filter _ ↔ _
  rw [List.mem_filter, mem_entries, decide_eq_true_eq, hkept]
  split
  · next h => simp [h]
  · next h => simp [h]

/-! ## The files below a path -/

/-- **Below a path there are these files**, and the directories that they are in. -/
structure Holds (fs : FileTree ν β) (base : List ν) (files : List ν → Option β) : Prop where
  file : ∀ rest c, rest ≠ [] → (fs.node (base ++ rest) = some (.file c) ↔ files rest = some c)
  dir : ∀ rest, fs.node (base ++ rest) = some .dir
    ↔ ∃ below, below ≠ [] ∧ (files (rest ++ below)).isSome = true

namespace Holds

variable {fs' : FileTree ν β} {base dir : List ν} {files files' : List ν → Option β}

/-- Nothing changes where nothing changes. -/
theorem congr (h : fs.Holds base files)
    (hnode : ∀ rest, fs'.node (base ++ rest) = fs.node (base ++ rest))
    (hfiles : ∀ rest, rest ≠ [] → files' rest = files rest) : fs'.Holds base files' where
  file rest c hrest := by
    rw [hnode, hfiles rest hrest]
    exact h.file rest c hrest
  dir rest := by
    rw [hnode, h.dir]
    refine exists_congr fun below => and_congr_right fun hbelow => ?_
    rw [hfiles _ (List.append_ne_nil_of_right_ne_nil rest hbelow)]

/-- **A file is written** below the path. It is not in the place of a directory, and
no file is on the way. -/
theorem write (h : fs.Holds base files) (hbase : ∀ p c, p <+: base → fs.node p ≠ some (.file c))
    (hfree : ∀ p, p <+: dir → p ≠ [] → files p = none)
    (hbelow : ∀ below, files (dir ++ [name] ++ below) ≠ none → below = []) (content : β) :
    ∃ fs', fs.write (base ++ dir) name content = some fs'
      ∧ fs'.Holds base (Function.update files (dir ++ [name]) (some content))
      ∧ ∀ p, ¬ base <+: p → fs'.node p = if p <+: base then some .dir else fs.node p := by
  have hway : ∀ p c, p <+: base ++ dir → fs.node p ≠ some (.file c) := by
    intro p c hp hnode
    rcases List.prefix_or_prefix_of_prefix hp (List.prefix_append base dir) with hp' | ⟨rest, rfl⟩
    · exact hbase p c hp' hnode
    · have hrest : rest <+: dir := (List.prefix_append_right_inj base).mp hp
      by_cases hnil : rest = []
      · rw [hnil, List.append_nil] at hnode
        exact hbase base c (List.prefix_refl base) hnode
      · rw [h.file rest c hnil, hfree rest hrest hnil] at hnode
        cases hnode
  have hnot : fs.node (base ++ dir ++ [name]) ≠ some .dir := by
    rw [List.append_assoc, Ne, h.dir]
    rintro ⟨below, hnil, hsome⟩
    exact hnil (hbelow below (Option.ne_none_iff_isSome.mpr hsome))
  obtain ⟨fs', hwrite, hnode⟩ := exists_write hway hnot content
  have hnode' : ∀ rest, fs'.node (base ++ rest) = if rest = dir ++ [name] then some (.file content)
      else if rest <+: dir then some .dir else fs.node (base ++ rest) := by
    intro rest
    rw [hnode, List.append_assoc]
    simp only [List.append_cancel_left_eq, List.prefix_append_right_inj]
  refine ⟨fs', hwrite, ⟨fun rest c hrest => ?_, fun rest => ?_⟩, fun p hp => ?_⟩
  · rw [hnode']
    by_cases hpath : rest = dir ++ [name]
    · rw [if_pos hpath, hpath, Function.update_self]
      simp
    · rw [if_neg hpath, Function.update_of_ne hpath]
      split
      · next hpre => simp [hfree rest hpre hrest]
      · exact h.file rest c hrest
  · rw [hnode']
    by_cases hpath : rest = dir ++ [name]
    · rw [if_pos hpath]
      refine iff_of_false (fun h => by cases h) ?_
      rintro ⟨below, hnil, hsome⟩
      rw [hpath, Function.update_of_ne fun heq => hnil (List.append_right_eq_self.mp heq)] at hsome
      exact hnil (hbelow below (Option.ne_none_iff_isSome.mpr hsome))
    · rw [if_neg hpath]
      by_cases hpre : rest <+: dir
      · rw [if_pos hpre]
        refine iff_of_true rfl ?_
        obtain ⟨below, rfl⟩ := hpre
        refine ⟨below ++ [name], by simp, ?_⟩
        rw [← List.append_assoc, Function.update_self]
        rfl
      · rw [if_neg hpre, h.dir]
        refine exists_congr fun below => and_congr_right fun hnil => ?_
        rw [Function.update_of_ne]
        intro heq
        exact (List.prefix_concat_iff.mp ⟨below, heq⟩).elim hpath hpre
  · have hbelow' : p <+: base ++ dir ↔ p <+: base := by
      refine ⟨fun h => ?_, fun h => h.trans (List.prefix_append base dir)⟩
      exact (List.prefix_or_prefix_of_prefix h (List.prefix_append base dir)).resolve_right hp
    rw [hnode, if_neg]
    · simp only [hbelow']
    · rintro rfl
      exact hp ((List.prefix_append base dir).trans (List.prefix_append _ _))

/-- **What is at a path is removed**, with all that is in it. Every directory on the
way to it keeps some other file. -/
theorem remove (h : fs.Holds base files) {path : List ν} (hpath : base ++ path ≠ [])
    (hkeep : ∀ p, p <+: path → p ≠ path →
      ∃ below, below ≠ [] ∧ ¬ path <+: p ++ below ∧ (files (p ++ below)).isSome = true) :
    (fs.remove (base ++ path)).Holds base (fun p => if path <+: p then none else files p)
      ∧ ∀ p, ¬ base <+: p → (fs.remove (base ++ path)).node p = fs.node p := by
  have hnode : ∀ rest, (fs.remove (base ++ path)).node (base ++ rest)
      = if path <+: rest then none else fs.node (base ++ rest) := by
    intro rest
    rw [node_remove hpath]
    simp only [List.prefix_append_right_inj]
  refine ⟨⟨fun rest c hrest => ?_, fun rest => ?_⟩, fun p hp => ?_⟩
  · rw [hnode]
    split
    · simp
    · exact h.file rest c hrest
  · rw [hnode]
    by_cases hpre : path <+: rest
    · rw [if_pos hpre]
      refine iff_of_false (by simp) ?_
      rintro ⟨below, -, hsome⟩
      rw [if_pos (hpre.trans (List.prefix_append rest below))] at hsome
      cases hsome
    · rw [if_neg hpre]
      constructor
      · intro hdir
        by_cases hrest : rest <+: path
        · obtain ⟨below, hnil, hout, hsome⟩ := hkeep rest hrest fun heq =>
            hpre (heq ▸ List.prefix_refl rest)
          exact ⟨below, hnil, by rw [if_neg hout]; exact hsome⟩
        · obtain ⟨below, hnil, hsome⟩ := (h.dir rest).mp hdir
          refine ⟨below, hnil, ?_⟩
          rw [if_neg fun hp => ?_]
          · exact hsome
          · exact (List.prefix_or_prefix_of_prefix hp (List.prefix_append rest below)).elim
              hpre hrest
      · rintro ⟨below, hnil, hsome⟩
        rw [if_neg fun hp => by simp [hp] at hsome] at hsome
        exact (h.dir rest).mpr ⟨below, hnil, hsome⟩
  · rw [node_remove hpath, if_neg]
    exact fun hpre => hp ((List.prefix_append base path).trans hpre)

end Holds

end FileTree
