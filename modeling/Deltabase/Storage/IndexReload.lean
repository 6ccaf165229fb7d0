import Deltabase.Lib.Program
import Deltabase.Lib.Transition
import Deltabase.Storage.IndexContents
import Deltabase.Storage.IndexFileSerializer

/-!
# An index that is written and read back

An index file leaves memory when it is evicted and when the database is closed,
and is read back when it is next asked for. The page ids it has handed out are
counted in `last_page`, which is not written: a file that has been read back
hands out its first id again.

As long as no page is added this does no harm. The first page that is added
after a reload gets the id of the first page of the file. So a tree survives a
run of inserts and reloads exactly when no insert after a reload finds the leaf
it comes to full.
-/

namespace IndexFile

open BPIndexPager

variable {file file' file'' : IndexFile}

/-- **A file that has grown**: it is the file of the same index, its pages are
still there, in their order, and pages that said twice the same still do. -/
structure Extends (file file' : IndexFile) : Prop where
  indexId : file'.indexId = file.indexId
  ids : file.ids <+: file'.ids
  consistent : (∀ p ∈ file.pages, p.Consistent) → ∀ p ∈ file'.pages, p.Consistent

theorem Extends.refl (file : IndexFile) : Extends file file :=
  ⟨rfl, List.prefix_rfl, fun h => h⟩

theorem Extends.trans (h : Extends file file') (h' : Extends file' file'') : Extends file file'' :=
  ⟨h'.indexId.trans h.indexId, h.ids.trans h'.ids, h'.consistent ∘ h.consistent⟩

/-- Reading a file back loses the last page id only. -/
theorem extends_reread (file : IndexFile) : Extends file file.reread :=
  ⟨rfl, List.prefix_rfl, fun h => h⟩

/-- An assignment that leaves the page's id and does not contradict its flag. -/
theorem extends_assign {f : IndexPage → IndexPage} (ptr : ℕ) (hid : ∀ p, (f p).id = p.id)
    (hf : (∀ p ∈ file.pages, p.Consistent) → ∀ p, file.pages[ptr]? = some p → (f p).Consistent) :
    Extends file (assign file ptr f) := by
  refine ⟨rfl, (ids_assign hid ptr).symm ▸ List.prefix_rfl, fun h q hq => ?_⟩
  obtain ⟨i, hi⟩ := List.getElem?_of_mem hq
  change (file.pages.modify ptr f)[i]? = some q at hi
  rw [List.getElem?_modify] at hi
  cases hp : file.pages[i]? with
  | none => rw [hp] at hi; cases hi
  | some p =>
    rw [hp] at hi
    obtain rfl := Option.some.inj hi
    split_ifs with hptr
    · exact hf h p (hptr ▸ hp)
    · exact h p (List.mem_of_getElem? hp)

theorem extends_withParent (ptr parent : ℕ) : Extends file (assign file ptr (.withParent parent)) :=
  extends_assign _ (IndexPage.withParent_id parent) fun h p hp => h p (List.mem_of_getElem? hp)

/-- A new page comes last. -/
theorem extends_createPage (file : IndexFile) (isLeaf : Bool) (parent : ℕ) :
    Extends file (createPage file isLeaf parent).2 := by
  refine ⟨rfl, ids_createPage isLeaf parent ▸ List.prefix_append _ _, fun h p hp => ?_⟩
  rcases List.mem_append.mp hp with hp | hp
  · exact h p hp
  · rw [List.mem_singleton.mp hp]
    cases isLeaf <;> rfl

theorem deref_eq_ok {ptr : ℕ} {p : IndexPage} (h : deref file ptr = .ok p) :
    file.pages[ptr]? = some p := by
  unfold deref at h
  cases hp : file.pages[ptr]? with
  | none => rw [hp] at h; cases h
  | some q =>
    rw [hp] at h
    rw [Except.ok.inj h]

/-- A page that holds a leaf and says twice the same is a leaf. -/
theorem isLeaf_of_getLeaf {p : IndexPage} {leaf : LeafIndexNode} (hcons : p.Consistent)
    (h : p.data.getLeaf = .ok leaf) : p.isLeaf = true := by
  rw [hcons]
  cases hdata : p.data with
  | leaf node => rfl
  | internal node => rw [hdata] at h; cases h

theorem not_isLeaf_of_getInternal {p : IndexPage} {node : InternalIndexNode}
    (hcons : p.Consistent) (h : p.data.getInternal = .ok node) : p.isLeaf = false := by
  rw [hcons]
  cases hdata : p.data with
  | internal node => rfl
  | leaf node => rw [hdata] at h; cases h

/-- What is assigned to a new page leaves the pages that were there before it. -/
theorem getElem?_assign_createPage (isLeaf : Bool) (parent : ℕ) {ptr : ℕ} {p : IndexPage}
    (f : IndexPage → IndexPage) (h : file.pages[ptr]? = some p) :
    (assign (createPage file isLeaf parent).2 (createPage file isLeaf parent).1 f).pages[ptr]? =
      some p := by
  have hlt := (List.getElem?_eq_some_iff.mp h).1
  show ((file.pages ++ [_]).modify file.pages.length f)[ptr]? = some p
  rw [List.getElem?_modify, List.getElem?_append_left hlt, h]
  show some (if _ then _ else p) = some p
  rw [if_neg hlt.ne']

/-- A new page that is given its contents. -/
theorem extends_assign_createPage {isLeaf : Bool} {parent : ℕ} {f : IndexPage → IndexPage}
    (hid : ∀ p, (f p).id = p.id) (hf : ∀ p : IndexPage, p.isLeaf = isLeaf → (f p).Consistent) :
    Extends (createPage file isLeaf parent).2
      (assign (createPage file isLeaf parent).2 (createPage file isLeaf parent).1 f) := by
  refine extends_assign _ hid fun _ p hp => hf p ?_
  rw [deref_eq_ok (deref_createPage isLeaf parent)] at hp
  rw [← Option.some.inj hp]

/-- **The file of an index says what it is**: it has the id of the index, after
which it is named, and its pages say twice the same. -/
structure Labelled (id : IndexId) (file : IndexFile) : Prop where
  indexId : file.indexId = id
  consistent : ∀ p ∈ file.pages, p.Consistent

theorem Labelled.extend {id : IndexId} (h : Labelled id file) (hext : Extends file file') :
    Labelled id file' :=
  ⟨hext.indexId.trans h.indexId, hext.consistent h.consistent⟩

theorem labelled_create (id : IndexId) : Labelled id (IndexFile.create id) :=
  ⟨rfl, fun _ hp => by rw [List.mem_singleton.mp hp]; rfl⟩

end IndexFile

namespace IndexBPlusTree

open BPIndexPager IndexFile DataToken

variable {tree : IndexBPlusTree} {file file' : IndexFile}

/-! ## Pages are never lost -/

theorem extends_reparent {parent : ℕ} {children : List ℕ}
    (h : reparent file parent children = .ok file') : Extends file file' := by
  induction children generalizing file with
  | nil => exact Except.ok.inj h ▸ .refl file
  | cons child children ih =>
    unfold reparent at h
    obtain ⟨ptr, -, h⟩ := bind_eq_ok.mp h
    exact (extends_withParent ptr parent).trans (ih h)

theorem extends_growRoot {s : Split} (h : growRoot file s = .ok file') : Extends file file' := by
  unfold growRoot at h
  obtain ⟨rootPage, hroot, h⟩ := bind_eq_ok.mp h
  obtain ⟨left, -, h⟩ := bind_eq_ok.mp h
  obtain ⟨right, -, h⟩ := bind_eq_ok.mp h
  obtain rfl := Except.ok.inj h
  have hassign : Extends (createPage file false 0).2
      (assign (createPage file false 0).2 (createPage file false 0).1
        (.withInternal [s.separator] [s.leftId, s.rightId])) :=
    extends_assign_createPage (IndexPage.withInternal_id _ _) fun _ h => h
  have hroot : Extends file _ := ((extends_createPage file false 0).trans hassign).trans
    ((extends_withParent left rootPage.id).trans (extends_withParent right rootPage.id))
  exact ⟨hroot.indexId, hroot.ids, hroot.consistent⟩

theorem extends_linkIntoParent {s : Split} {parentId ptr size : ℕ}
    (h : linkIntoParent file s parentId = .ok (ptr, size, file')) : Extends file file' := by
  unfold linkIntoParent at h
  obtain ⟨parentPtr, -, h⟩ := bind_eq_ok.mp h
  obtain ⟨parentPage, hpage, h⟩ := bind_eq_ok.mp h
  dsimp only at h
  split_ifs at h with hisLeaf
  · cases h
  obtain ⟨parent, -, h⟩ := bind_eq_ok.mp h
  split_ifs at h
  · cases h
  obtain ⟨right, -, h⟩ := bind_eq_ok.mp h
  obtain ⟨-, hrest⟩ := Prod.mk.inj (Except.ok.inj h)
  obtain ⟨-, rfl⟩ := Prod.mk.inj hrest
  refine Extends.trans (extends_assign _ (IndexPage.withInternal_id _ _) fun _ p hp => ?_)
    (extends_withParent right parentId)
  rw [deref_eq_ok hpage] at hp
  obtain rfl := Option.some.inj hp
  exact Bool.eq_false_iff.mpr hisLeaf

/-- A split of an internal page. -/
theorem extends_splitInternal {ptr : ℕ} {s : Split} (h : splitInternal file ptr = .ok (s, file')) :
    Extends file file' := by
  unfold splitInternal at h
  obtain ⟨page, hpage, h⟩ := bind_eq_ok.mp h
  obtain ⟨node, hnode, h⟩ := bind_eq_ok.mp h
  dsimp only at h
  split at h
  · cases h
  obtain ⟨rightPage, -, h⟩ := bind_eq_ok.mp h
  obtain ⟨file₁, hreparent, h⟩ := bind_eq_ok.mp h
  obtain ⟨-, rfl⟩ := Prod.mk.inj (Except.ok.inj h)
  have hright : Extends _ (assign (createPage file false page.parent).2
      (createPage file false page.parent).1
      (.withInternal (node.keys.drop (node.keys.length / 2 + 1))
        (node.children.drop (node.keys.length / 2 + 1)))) :=
    extends_assign_createPage (IndexPage.withInternal_id _ _) fun _ h => h
  have hcreated := (extends_createPage file false page.parent).trans hright
  refine hcreated.trans (Extends.trans ?_ (extends_reparent hreparent))
  refine extends_assign _ (IndexPage.withInternal_id _ _) fun hcons p hp => ?_
  -- the page that is split is not the new one, and holds an internal node
  have hold := getElem?_assign_createPage false page.parent
    (.withInternal (node.keys.drop (node.keys.length / 2 + 1))
      (node.children.drop (node.keys.length / 2 + 1))) (deref_eq_ok hpage)
  obtain rfl : page = p := Option.some.inj (hold.symm.trans hp)
  exact not_isLeaf_of_getInternal (p := page) (hcons page (List.mem_of_getElem? hold)) hnode

/-- **A split that travels up.** -/
theorem extends_insertIntoParent {s : Split} {path : List ℕ}
    (h : tree.insertIntoParent file s path = .ok file') : Extends file file' := by
  induction path generalizing file s with
  | nil => cases h
  | cons id path ih =>
    cases path with
    | nil => exact extends_growRoot h
    | cons parentId path =>
      unfold insertIntoParent at h
      obtain ⟨⟨parentPtr, keysSize, file₁⟩, hlink, h⟩ := bind_eq_ok.mp h
      have hext := extends_linkIntoParent hlink
      dsimp only at h
      split_ifs at h
      · obtain ⟨⟨s₁, file₂⟩, hsplit, h⟩ := bind_eq_ok.mp h
        exact (hext.trans (extends_splitInternal hsplit)).trans (ih h)
      · exact Except.ok.inj h ▸ hext

/-- **A split of a leaf** gives a page the next id. -/
theorem extends_splitLeaf {ptr : ℕ} {s : Split} (h : splitLeaf file ptr = .ok (s, file')) :
    Extends file file' ∧ file.ids ++ [file.lastPage + 1] <+: file'.ids := by
  unfold splitLeaf at h
  obtain ⟨page, hpage, h⟩ := bind_eq_ok.mp h
  obtain ⟨node, hnode, h⟩ := bind_eq_ok.mp h
  dsimp only at h
  obtain ⟨rightPage, hrightPage, h⟩ := bind_eq_ok.mp h
  split at h
  · cases h
  obtain ⟨-, rfl⟩ := Prod.mk.inj (Except.ok.inj h)
  have hright : Extends _ (assign (createPage file true page.parent).2
      (createPage file true page.parent).1
      (.withLeaf (node.keys.drop (node.keys.length / 2)) (node.rows.drop (node.keys.length / 2))
        node.nextLeaf)) :=
    extends_assign_createPage (IndexPage.withLeaf_id _ _ _) fun _ h => h
  have hold := getElem?_assign_createPage true page.parent
    (.withLeaf (node.keys.drop (node.keys.length / 2)) (node.rows.drop (node.keys.length / 2))
      node.nextLeaf) (deref_eq_ok hpage)
  have hleft := extends_assign ptr (IndexPage.withLeaf_id
      (node.keys.take (node.keys.length / 2)) (node.rows.take (node.keys.length / 2)) rightPage.id)
    fun hcons p hp => isLeaf_of_getLeaf (p := p) (hcons p (List.mem_of_getElem? hp))
      ((Option.some.inj (hold.symm.trans hp)) ▸ hnode)
  have hnew := hright.trans hleft
  exact ⟨(extends_createPage file true page.parent).trans hnew, ids_createPage true _ ▸ hnew.ids⟩

/-- The leaf `insert` puts a key in. -/
def leafOf (file : IndexFile) (key : DataToken) : Except Exn LeafIndexNode := do
  let (leafPtr, _) ← findLeaf file key
  let leafPage ← deref file leafPtr
  leafPage.data.getLeaf

/-- The leaf of the key can take one more. -/
def HasRoom (tree : IndexBPlusTree) (file : IndexFile) (key : DataToken) : Prop :=
  match leafOf file key with
  | .ok leaf => leaf.keys.length < tree.maxLeafKeys
  | .error _ => False

instance (tree : IndexBPlusTree) (file : IndexFile) (key : DataToken) :
    Decidable (tree.HasRoom file key) := by
  unfold HasRoom
  split <;> infer_instance

theorem length_insertIntoLeaf (leaf : LeafIndexNode) (key : DataToken) (row : RowPtr) :
    (insertIntoLeaf leaf key row).keys.length = leaf.keys.length + 1 :=
  List.length_insertIdx_of_le_length List.findIdx_le_length _

/-- **An insertion** keeps the pages; one that finds its leaf full gives a page
the next id. -/
theorem extends_insert {key : DataToken} {row : RowPtr} (h : tree.insert file key row = .ok file') :
    Extends file file'
      ∧ (¬ tree.HasRoom file key → file.ids ++ [file.lastPage + 1] <+: file'.ids) := by
  unfold insert at h
  obtain ⟨⟨ptr, path⟩, hfind, h⟩ := bind_eq_ok.mp h
  obtain ⟨page, hpage, h⟩ := bind_eq_ok.mp h
  obtain ⟨leaf, hleaf, h⟩ := bind_eq_ok.mp h
  dsimp only at h hpage
  have hput := extends_assign ptr (IndexPage.withLeaf_id
      (insertIntoLeaf leaf key row).keys (insertIntoLeaf leaf key row).rows
      (insertIntoLeaf leaf key row).nextLeaf)
    fun hcons p hp => isLeaf_of_getLeaf (p := p) (hcons p (List.mem_of_getElem? hp))
      ((Option.some.inj ((deref_eq_ok hpage).symm.trans hp)) ▸ hleaf)
  have hof : leafOf file key = .ok leaf :=
    bind_eq_ok.mpr ⟨(ptr, path), hfind, bind_eq_ok.mpr ⟨page, hpage, hleaf⟩⟩
  split_ifs at h with hfull
  · unfold splitLeafAndPropagate at h
    obtain ⟨⟨s, file₁⟩, hsplit, h⟩ := bind_eq_ok.mp h
    obtain ⟨hext, hnew⟩ := extends_splitLeaf hsplit
    have hup := extends_insertIntoParent h
    refine ⟨hput.trans (hext.trans hup), fun _ => ?_⟩
    rw [ids_assign (IndexPage.withLeaf_id _ _ _)] at hnew
    exact hnew.trans hup.ids
  · obtain rfl := Except.ok.inj h
    refine ⟨hput, fun hroom => absurd ?_ hroom⟩
    unfold HasRoom
    rw [hof]
    rw [length_insertIntoLeaf] at hfull
    exact Nat.lt_of_succ_le (not_lt.mp hfull)

/-! ## What does not depend on the last page id -/

theorem findLeafLoop_lastPage (file : IndexFile) (n : ℕ) (key : DataToken) (rounds cur : ℕ)
    (path : List ℕ) :
    findLeafLoop { file with lastPage := n } key rounds cur path
      = findLeafLoop file key rounds cur path := by
  induction rounds generalizing cur path with
  | zero => rfl
  | succ rounds ih =>
    unfold findLeafLoop
    simp only [ih]
    rfl

theorem findLeaf_lastPage (file : IndexFile) (n : ℕ) (key : DataToken) :
    findLeaf { file with lastPage := n } key = findLeaf file key := by
  unfold findLeaf
  simp only [findLeafLoop_lastPage]
  rfl

theorem find_lastPage (file : IndexFile) (n : ℕ) (key : DataToken) :
    find { file with lastPage := n } key = find file key := by
  unfold find
  rw [findLeaf_lastPage]
  rfl

/-- **An insertion without a split** does not look at the last page id. -/
theorem insert_of_hasRoom {key : DataToken} (row : RowPtr) (h : tree.HasRoom file key) :
    ∃ ptr f, ∀ n, tree.insert { file with lastPage := n } key row
      = .ok { assign file ptr f with lastPage := n } := by
  unfold HasRoom at h
  split at h
  case h_2 => exact h.elim
  case h_1 leaf hof =>
    unfold leafOf at hof
    obtain ⟨⟨ptr, path⟩, hfind, hof⟩ := bind_eq_ok.mp hof
    obtain ⟨page, hpage, hleaf⟩ := bind_eq_ok.mp hof
    have hroom : ¬ (insertIntoLeaf leaf key row).keys.length > tree.maxLeafKeys := by
      rw [length_insertIntoLeaf]
      exact not_lt.mpr h
    refine ⟨ptr, .withLeaf (insertIntoLeaf leaf key row).keys (insertIntoLeaf leaf key row).rows
      (insertIntoLeaf leaf key row).nextLeaf, fun n => ?_⟩
    unfold insert
    refine bind_eq_ok.mpr ⟨(ptr, path), (findLeaf_lastPage file n key).trans hfind, ?_⟩
    refine bind_eq_ok.mpr ⟨page, hpage, bind_eq_ok.mpr ⟨leaf, hleaf, ?_⟩⟩
    exact if_neg hroom

/-! ## Runs of insertions and reloads -/

/-- What happens to an index file. -/
inductive FileEvent where
  | insert (key : DataToken) (row : RowPtr)
  | reload

/-- The file is written by `serialize_if` and read by `deserialize_if`. -/
def reload (file : IndexFile) : Except Exn IndexFile :=
  match StdStorageSerializer.deserializeIf (StdStorageSerializer.serializeIf file).buffer with
  | some (file', _) => .ok file'
  | none =>
    .error (.runtimeError "FileIOManager::read_index_file: failed to deserialize index file")

/-- One event. -/
def event (tree : IndexBPlusTree) (file : IndexFile) : FileEvent → Except Exn IndexFile
  | .insert key row => tree.insert file key row
  | .reload => reload file

/-- A run of events; a call that throws ends it. -/
def events (tree : IndexBPlusTree) (file : IndexFile) : List FileEvent → Except Exn IndexFile
  | [] => .ok file
  | e :: es => do
    let file ← tree.event file e
    events tree file es

/-- What was inserted. -/
def inserted : List FileEvent → List (DataToken × RowPtr)
  | [] => []
  | .insert key row :: es => (key, row) :: inserted es
  | .reload :: es => inserted es

/-- The keys are tokens of their types, and a file that is written fits the
types of its fields. -/
def Admissible (tree : IndexBPlusTree) (file : IndexFile) : List FileEvent → Prop
  | [] => True
  | e :: es => (match e with
      | .insert key _ => key.WellFormed
      | .reload => file.Fits)
    ∧ ∀ file', tree.event file e = .ok file' → Admissible tree file' es

/-- **No page is added to a file that has lost its last page id**: an insertion
into a file without one finds room in the leaf of its key. -/
def Spared (tree : IndexBPlusTree) (file : IndexFile) : List FileEvent → Prop
  | [] => True
  | e :: es => (match e with
      | .insert key _ => file.lastPage = 0 → tree.HasRoom file key
      | .reload => True)
    ∧ ∀ file', tree.event file e = .ok file' → Spared tree file' es

instance decidableAdmissible (tree : IndexBPlusTree) :
    ∀ (file : IndexFile) (es : List FileEvent), Decidable (Admissible tree file es)
  | _, [] => isTrue trivial
  | _, .insert key _ :: es =>
    have (file' : IndexFile) := decidableAdmissible tree file' es
    inferInstanceAs (Decidable (key.WellFormed ∧ ∀ file', _ → Admissible tree file' es))
  | file, .reload :: es =>
    have (file' : IndexFile) := decidableAdmissible tree file' es
    inferInstanceAs (Decidable (file.Fits ∧ ∀ file', _ → Admissible tree file' es))

instance decidableSpared (tree : IndexBPlusTree) :
    ∀ (file : IndexFile) (es : List FileEvent), Decidable (Spared tree file es)
  | _, [] => isTrue trivial
  | file, .insert key _ :: es =>
    have (file' : IndexFile) := decidableSpared tree file' es
    inferInstanceAs (Decidable ((_ → tree.HasRoom file key) ∧ ∀ file', _ → Spared tree file' es))
  | _, .reload :: es =>
    have (file' : IndexFile) := decidableSpared tree file' es
    inferInstanceAs (Decidable (True ∧ ∀ file', _ → Spared tree file' es))

/-- A reload loses the last page id and nothing else. -/
theorem reload_eq (h : file.Fits) (hcons : ∀ p ∈ file.pages, p.Consistent) :
    reload file = .ok file.reread := by
  have hread := StdStorageSerializer.reads_deserializeIf h hcons []
  rw [List.append_nil] at hread
  unfold reload
  rw [hread]

/-- What every file of a run is like: its first page is the first page, and its
pages say twice the same. -/
structure Grown (file : IndexFile) : Prop where
  first : [1] <+: file.ids
  consistent : ∀ p ∈ file.pages, p.Consistent

theorem Grown.extend (h : Grown file) (hext : Extends file file') : Grown file' :=
  ⟨h.first.trans hext.ids, hext.consistent h.consistent⟩

/-- **The pages of a run are never lost**, whatever becomes of the tree. -/
theorem extends_events {es : List FileEvent} (hgrown : Grown file)
    (hadm : Admissible tree file es) (h : tree.events file es = .ok file') :
    Extends file file' := by
  induction es generalizing file with
  | nil => exact Except.ok.inj h ▸ .refl file
  | cons e es ih =>
    unfold events at h
    obtain ⟨file₁, hevent, h⟩ := bind_eq_ok.mp h
    obtain ⟨hfirst, hrest⟩ := hadm
    have hext : Extends file file₁ := by
      cases e with
      | insert key row => exact (extends_insert hevent).1
      | reload =>
        change reload file = .ok file₁ at hevent
        rw [reload_eq hfirst hgrown.consistent] at hevent
        exact Except.ok.inj hevent ▸ extends_reread file
    exact hext.trans (ih (hgrown.extend hext) (hrest file₁ hevent) h)

/-- **The invariant of a run**: with the right last page id the file is a tree
with these entries, and the id it has is the right one or none. -/
def Sound (tree : IndexBPlusTree) (file : IndexFile) (entries : List (DataToken × RowPtr)) : Prop :=
  ∃ n leaves Ls, Represents tree { file with lastPage := n } leaves Ls
    ∧ (file.lastPage = 0 ∨ file.lastPage = n) ∧ (leafEntries leaves).Perm entries

namespace Sound

variable {entries : List (DataToken × RowPtr)} {key : DataToken}

theorem nodup (h : Sound tree file entries) : file.ids.Nodup := by
  obtain ⟨n, leaves, Ls, hrep, -, -⟩ := h
  exact hrep.stored.nodup

theorem reread (h : Sound tree file entries) : Sound tree file.reread entries := by
  obtain ⟨n, leaves, Ls, hrep, -, hperm⟩ := h
  exact ⟨n, leaves, Ls, hrep, Or.inl rfl, hperm⟩

/-- An insertion that adds no page to a file without last page id. -/
theorem insert (h : Sound tree file entries) (hleaf : 1 ≤ tree.maxLeafKeys)
    (hint : 1 ≤ tree.maxInternalKeys) (hkey : key.WellFormed) (row : RowPtr)
    (hroom : file.lastPage = 0 → tree.HasRoom file key) :
    ∃ file', tree.insert file key row = .ok file' ∧ Sound tree file' ((key, row) :: entries) := by
  obtain ⟨n, leaves, Ls, hrep, hlast, hperm⟩ := h
  obtain ⟨file', leaves', Ls', X, Y, hins, hrep', hold, hnew⟩ :=
    hrep.insert_spec hleaf hint hkey row
  have hperm' : (leafEntries leaves').Perm ((key, row) :: entries) := by
    rw [hnew]
    exact List.perm_middle.trans (List.Perm.cons _ (hold ▸ hperm))
  rcases hlast with hzero | hsame
  · obtain ⟨ptr, f, hput⟩ := insert_of_hasRoom row (hroom hzero)
    obtain rfl := Except.ok.inj ((hput n).symm.trans hins)
    refine ⟨_, hput file.lastPage, n, leaves', Ls', hrep', Or.inl hzero, hperm'⟩
  · obtain rfl := hsame
    exact ⟨file', hins, file'.lastPage, leaves', Ls', hrep', Or.inr rfl, hperm'⟩

/-- What was inserted is found. -/
theorem find (h : Sound tree file entries) (hkey : key.WellFormed) {row : RowPtr}
    (hmem : (key, row) ∈ entries) :
    ∃ e ∈ entries, compareToken e.1 key = 0 ∧ IndexBPlusTree.find file key = .ok (some e.2) := by
  obtain ⟨n, leaves, Ls, hrep, -, hperm⟩ := h
  obtain ⟨e, he, hrank, hfind⟩ := (hrep.find_spec hkey).2 ⟨_, hperm.mem_iff.mpr hmem, rfl⟩
  rw [find_lastPage] at hfind
  exact ⟨e, hperm.mem_iff.mp he, (compareToken_eq_zero_iff (hrep.wf e he) hkey).mpr hrank, hfind⟩

/-- **A run that is spared leaves a tree.** By induction on the run. -/
theorem events {es : List FileEvent} (h : Sound tree file entries) (hgrown : Grown file)
    (hleaf : 1 ≤ tree.maxLeafKeys) (hint : 1 ≤ tree.maxInternalKeys)
    (hadm : Admissible tree file es) (hspared : Spared tree file es) :
    ∃ file', tree.events file es = .ok file'
      ∧ Sound tree file' ((inserted es).reverse ++ entries) := by
  induction es generalizing file entries with
  | nil => exact ⟨file, rfl, h⟩
  | cons e es ih =>
    obtain ⟨hfits, hadm⟩ := hadm
    obtain ⟨hroom, hspared⟩ := hspared
    cases e with
    | insert key row =>
      obtain ⟨file₁, hins, h₁⟩ := h.insert hleaf hint hfits row hroom
      obtain ⟨file', hrun, h'⟩ := ih h₁ (hgrown.extend (extends_insert hins).1)
        (hadm file₁ hins) (hspared file₁ hins)
      refine ⟨file', bind_eq_ok.mpr ⟨file₁, hins, hrun⟩, ?_⟩
      rw [inserted, List.reverse_cons, List.append_assoc]
      exact h'
    | reload =>
      have hload : tree.event file .reload = .ok file.reread := reload_eq hfits hgrown.consistent
      obtain ⟨file', hrun, h'⟩ := ih h.reread (hgrown.extend (extends_reread file))
        (hadm _ hload) (hspared _ hload)
      exact ⟨file', bind_eq_ok.mpr ⟨_, hload, hrun⟩, h'⟩

/-- **A run whose page ids are distinct was spared**: the first page added
without last page id has the id of the first page, and keeps it. -/
theorem spared_of_events {es : List FileEvent} (h : Sound tree file entries) (hgrown : Grown file)
    (hleaf : 1 ≤ tree.maxLeafKeys) (hint : 1 ≤ tree.maxInternalKeys)
    (hadm : Admissible tree file es) (hrun : tree.events file es = .ok file')
    (hnodup : file'.ids.Nodup) : Spared tree file es := by
  induction es generalizing file entries with
  | nil => trivial
  | cons e es ih =>
    obtain ⟨hfits, hadm⟩ := hadm
    obtain ⟨file₁, hevent, hrest⟩ := bind_eq_ok.mp hrun
    cases e with
    | insert key row =>
      have hins : tree.insert file key row = .ok file₁ := hevent
      obtain ⟨hext, hpage⟩ := extends_insert hins
      have hgrown₁ := hgrown.extend hext
      have hroom : file.lastPage = 0 → tree.HasRoom file key := by
        intro hzero
        by_contra hfull
        have hone := hpage hfull
        rw [hzero] at hone
        have hids := hone.trans (extends_events hgrown₁ (hadm file₁ hevent) hrest).ids
        refine List.disjoint_of_nodup_append (hnodup.sublist hids.sublist) ?_
          (List.mem_singleton_self 1)
        exact hgrown.first.subset (List.mem_singleton_self 1)
      obtain ⟨file₁', hins', h₁⟩ := h.insert hleaf hint hfits row hroom
      obtain rfl := Except.ok.inj (hins.symm.trans hins')
      refine ⟨hroom, fun file₂ h₂ => ?_⟩
      obtain rfl := Except.ok.inj (hevent.symm.trans h₂)
      exact ih h₁ hgrown₁ (hadm _ hevent) hrest
    | reload =>
      have hload : tree.event file .reload = .ok file.reread := reload_eq hfits hgrown.consistent
      obtain rfl := Except.ok.inj (hevent.symm.trans hload)
      refine ⟨trivial, fun file₂ h₂ => ?_⟩
      obtain rfl := Except.ok.inj (hevent.symm.trans h₂)
      exact ih h.reread (hgrown.extend (extends_reread file)) (hadm _ hevent) hrest

end Sound

theorem sound_create (tree : IndexBPlusTree) (indexId : IndexId) :
    Sound tree (IndexFile.create indexId) [] :=
  ⟨1, _, _, represents_create tree indexId, Or.inr rfl, .refl _⟩

theorem grown_create (indexId : IndexId) : Grown (IndexFile.create indexId) := by
  refine ⟨List.prefix_rfl, fun p hp => ?_⟩
  rw [List.mem_singleton.mp hp]
  rfl

/-- The keys of an admissible run are tokens of their types. -/
theorem wellFormed_of_inserted {es : List FileEvent} (hadm : Admissible tree file es)
    (h : tree.events file es = .ok file') : ∀ e ∈ inserted es, e.1.WellFormed := by
  induction es generalizing file with
  | nil => exact fun e he => absurd he List.not_mem_nil
  | cons e es ih =>
    obtain ⟨file₁, hevent, hrest⟩ := bind_eq_ok.mp h
    cases e with
    | insert key row => exact List.forall_mem_cons.mpr ⟨hadm.1, ih (hadm.2 _ hevent) hrest⟩
    | reload => exact ih (hadm.2 _ hevent) hrest

/-- **An index survives being written and read back exactly when no page is
added afterwards.** After a run of insertions and reloads of a new index, with
any bounds and any keys, the page ids of the file are distinct and a row is
found for every key that was inserted, if and only if no insertion after a
reload found the leaf of its key full. -/
theorem events_intact_iff (tree : IndexBPlusTree) (hleaf : 1 ≤ tree.maxLeafKeys)
    (hint : 2 ≤ tree.maxInternalKeys) (indexId : IndexId) (es : List FileEvent)
    (hadm : Admissible tree (IndexFile.create indexId) es) :
    (∃ file, tree.events (IndexFile.create indexId) es = .ok file
      ∧ file.ids.Nodup
      ∧ ∀ e ∈ inserted es, ∃ e' ∈ inserted es, compareToken e'.1 e.1 = 0
          ∧ find file e.1 = .ok (some e'.2))
      ↔ Spared tree (IndexFile.create indexId) es := by
  have hint' : 1 ≤ tree.maxInternalKeys := le_trans one_le_two hint
  have hsound := sound_create tree indexId
  have hgrown := grown_create indexId
  constructor
  · rintro ⟨file, hrun, hnodup, -⟩
    exact hsound.spared_of_events hgrown hleaf hint' hadm hrun hnodup
  · intro hspared
    obtain ⟨file, hrun, h⟩ := hsound.events hgrown hleaf hint' hadm hspared
    refine ⟨file, hrun, h.nodup, fun e he => ?_⟩
    have hmem : ∀ e : DataToken × RowPtr, e ∈ (inserted es).reverse ++ [] ↔ e ∈ inserted es := by
      intro e
      rw [List.append_nil, List.mem_reverse]
    have hentry : (e.1, e.2) ∈ (inserted es).reverse ++ [] := (hmem e).mpr he
    obtain ⟨e', he', hcmp, hfind⟩ := h.find (wellFormed_of_inserted hadm hrun e he) hentry
    exact ⟨e', (hmem e').mp he', hcmp, hfind⟩

/-- A leaf that is full when the file is read back: its split gives the new
page the id of the old one, and the larger key is lost. -/
theorem not_events_intact_fullLeaf :
    Admissible ⟨1, 2⟩ (IndexFile.create 7)
        [.insert ⟨[5, 0, 0, 0], .integer⟩ (1, 0), .reload, .insert ⟨[3, 0, 0, 0], .integer⟩ (1, 1)]
      ∧ ∃ file, (⟨1, 2⟩ : IndexBPlusTree).events (IndexFile.create 7)
        [.insert ⟨[5, 0, 0, 0], .integer⟩ (1, 0), .reload, .insert ⟨[3, 0, 0, 0], .integer⟩ (1, 1)]
          = .ok file
        ∧ ¬ file.ids.Nodup
        ∧ find file ⟨[5, 0, 0, 0], .integer⟩ = .ok none := by
  decide +kernel

end IndexBPlusTree
