import Deltabase.Lib.Program
import Deltabase.Storage.IndexContents

/-!
# The pages of an index in memory

`IndexFile::pages` is a `std::vector`, and `create_page` appends to it. A vector
that is full moves its elements to a larger buffer then, and a reference to one
of them that was taken before names a page that is no longer there. Both splits
hold such a reference: `split_leaf_and_propagate` writes through `leaf` and
`split_internal_and_propagate` through `node` after they have asked for the page
that is split off.

`PageVector` is the vector with its capacity, `PageRef` a reference to one of
its pages, and the functions that follow are those of `IndexBPlusTree` once
more, with the references the source holds where it holds them. In a vector that
has room for all pages an insertion adds nothing is moved, and the tree is that
of `IndexBPlusTree` (`insert_of_room`).
-/

open BPIndexPager IndexBPlusTree

/-- The pages of an index file in the buffer they are kept in. -/
structure PageVector where
  file : IndexFile
  capacity : ℕ
  /-- How often the pages have been moved to another buffer. -/
  moves : ℕ := 0
  deriving DecidableEq

/-- A reference to a page: its position, in the buffer that was in use when the
reference was taken. -/
structure PageRef where
  position : ℕ
  moves : ℕ
  deriving DecidableEq

namespace PageVector

/-- The file `create_index_file` makes: one page in a vector that was empty. -/
def create (indexId : IndexId) : PageVector := { file := .create indexId, capacity := 1 }

/-- The file is changed and stays in its buffer. -/
def store (v : PageVector) (file : IndexFile) : PageVector := { v with file }

/-- A reference to the page at a position. -/
def refTo (v : PageVector) (position : ℕ) : PageRef := ⟨position, v.moves⟩

/-- `get_page`. -/
def getPage (v : PageVector) (pageId : ℕ) : Option PageRef :=
  (BPIndexPager.getPage v.file pageId).map v.refTo

/-- `create_page`. The vector grows to twice its size when it is full. -/
def createPage (v : PageVector) (isLeaf : Bool) (parent : ℕ) : PageRef × PageVector :=
  let (position, file) := BPIndexPager.createPage v.file isLeaf parent
  let v :=
    if v.file.pages.length < v.capacity then v.store file
    else { file, capacity := max 1 (2 * v.file.pages.length), moves := v.moves + 1 }
  (v.refTo position, v)

/-- The page behind a reference. -/
def deref (v : PageVector) (ref : PageRef) : Except Exn IndexPage :=
  if ref.moves = v.moves then BPIndexPager.deref v.file ref.position
  else .error .danglingReference

/-- An assignment through a reference. -/
def assign (v : PageVector) (ref : PageRef) (f : IndexPage → IndexPage) :
    Except Exn PageVector :=
  if ref.moves = v.moves then .ok (v.store (BPIndexPager.assign v.file ref.position f))
  else .error .danglingReference

/-- `get_page`, throwing when there is no such page. -/
def getPageOrThrow (v : PageVector) (pageId : ℕ) (what : String) : Except Exn PageRef :=
  match v.getPage pageId with
  | some ref => .ok ref
  | none => .error (.runtimeError what)

/-- The loop that hangs the children moved to a new page below it. -/
def reparent (v : PageVector) (parent : ℕ) : List ℕ → Except Exn PageVector
  | [] => pure v
  | child :: children => do
    let ref ← v.getPageOrThrow child "IndexBpTree: child missing during split"
    let v ← v.assign ref (.withParent parent)
    reparent v parent children

/-- The branch of `insert_into_parent` for a page without parent. -/
def growRoot (v : PageVector) (s : Split) : Except Exn PageVector := do
  let (newRoot, v) := v.createPage false 0
  let rootPage ← v.deref newRoot
  let v ← v.assign newRoot (.withInternal [s.separator] [s.leftId, s.rightId])
  let left ← v.getPageOrThrow s.leftId "IndexBpTree: new root link failed"
  let right ← v.getPageOrThrow s.rightId "IndexBpTree: new root link failed"
  let v ← v.assign left (.withParent rootPage.id)
  let v ← v.assign right (.withParent rootPage.id)
  pure (v.store (setRootPageId v.file rootPage.id))

/-- The branch of `insert_into_parent` for a page with a parent, up to the
overflow check: the parent and the number of keys it has now. -/
def linkIntoParent (v : PageVector) (s : Split) (parentId : ℕ) :
    Except Exn (PageRef × ℕ × PageVector) := do
  let parentRef ← v.getPageOrThrow parentId "IndexBpTree: invalid parent"
  let parentPage ← v.deref parentRef
  if parentPage.isLeaf then .error (.runtimeError "IndexBpTree: invalid parent")
  let parent ← parentPage.data.getInternal
  let childPos := parent.children.findIdx fun c => c = s.leftId
  if childPos = parent.children.length then
    .error (.runtimeError "IndexBpTree: left child not found in parent")
  let keys := parent.keys.insertIdx childPos s.separator
  let children := parent.children.insertIdx (childPos + 1) s.rightId
  let v ← v.assign parentRef (.withInternal keys children)
  let right ← v.getPageOrThrow s.rightId "IndexBpTree: right child not found"
  let v ← v.assign right (.withParent parentId)
  pure (parentRef, keys.length, v)

/-- `split_internal_and_propagate` up to its call of `insert_into_parent`: `node`
is read and written again after `create_page`. -/
def splitInternal (v : PageVector) (ref : PageRef) : Except Exn (Split × PageVector) := do
  let page ← v.deref ref
  let node ← page.data.getInternal
  let mid := node.keys.length / 2
  match node.keys[mid]? with
  | none => .error .outOfRange
  | some upKey =>
    let (right, v) := v.createPage false page.parent
    let rightPage ← v.deref right
    let page ← v.deref ref
    let node ← page.data.getInternal
    let moved := node.children.drop (mid + 1)
    let v ← v.assign right (.withInternal (node.keys.drop (mid + 1)) moved)
    let v ← v.assign ref (.withInternal (node.keys.take mid) (node.children.take (mid + 1)))
    let v ← v.reparent rightPage.id moved
    pure (⟨page.id, upKey, rightPage.id⟩, v)

/-- `insert_into_parent`. -/
def insertIntoParent (tree : IndexBPlusTree) (v : PageVector) (s : Split) :
    List ℕ → Except Exn PageVector
  | [] => .error .outOfRange
  | [_] => v.growRoot s
  | _ :: parentId :: path => do
    let (parentRef, keysSize, v) ← v.linkIntoParent s parentId
    if keysSize > tree.maxInternalKeys then
      let (s, v) ← v.splitInternal parentRef
      insertIntoParent tree v s (parentId :: path)
    else pure v

/-- `split_leaf_and_propagate` up to its call of `insert_into_parent`: `leaf` is
read and written again after `create_page`. -/
def splitLeaf (v : PageVector) (leafRef : PageRef) : Except Exn (Split × PageVector) := do
  let leafPage ← v.deref leafRef
  let leaf ← leafPage.data.getLeaf
  let mid := leaf.keys.length / 2
  let (right, v) := v.createPage true leafPage.parent
  let rightPage ← v.deref right
  let leafPage ← v.deref leafRef
  let leaf ← leafPage.data.getLeaf
  let v ← v.assign right (.withLeaf (leaf.keys.drop mid) (leaf.rows.drop mid) leaf.nextLeaf)
  let v ← v.assign leafRef (.withLeaf (leaf.keys.take mid) (leaf.rows.take mid) rightPage.id)
  match leaf.keys.drop mid with
  | [] => .error .outOfRange
  | separator :: _ => pure (⟨leafPage.id, separator, rightPage.id⟩, v)

/-- `split_leaf_and_propagate`. -/
def splitLeafAndPropagate (tree : IndexBPlusTree) (v : PageVector) (leafRef : PageRef)
    (path : List ℕ) : Except Exn PageVector := do
  let (s, v) ← v.splitLeaf leafRef
  v.insertIntoParent tree s path

/-- `insert`. The descent of `find_leaf` adds no page, and its references hold. -/
def insert (tree : IndexBPlusTree) (v : PageVector) (key : DataToken) (row : RowPtr) :
    Except Exn PageVector := do
  let (leafPtr, path) ← findLeaf v.file key
  let leafRef := v.refTo leafPtr
  let leafPage ← v.deref leafRef
  let leaf ← leafPage.data.getLeaf
  let leaf := insertIntoLeaf leaf key row
  let v ← v.assign leafRef (.withLeaf leaf.keys leaf.rows leaf.nextLeaf)
  if leaf.keys.length > tree.maxLeafKeys then v.splitLeafAndPropagate tree leafRef path
  else pure v

/-- `find`, which adds no page either. -/
def find (v : PageVector) (key : DataToken) : Except Exn (Option RowPtr) :=
  IndexBPlusTree.find v.file key

/-! ## A vector with room -/

variable {v : PageVector} {tree : IndexBPlusTree}

/-- There is room for `n` more pages. -/
def Roomy (n : ℕ) (v : PageVector) : Prop := v.file.pages.length + n ≤ v.capacity

@[simp] theorem store_file (v : PageVector) (file : IndexFile) : (v.store file).file = file := rfl

@[simp] theorem store_store (v : PageVector) (file file' : IndexFile) :
    (v.store file).store file' = v.store file' := rfl

@[simp] theorem refTo_store (v : PageVector) (file : IndexFile) (position : ℕ) :
    (v.store file).refTo position = v.refTo position := rfl

/-- A reference taken since the pages were last moved is good. -/
theorem deref_refTo (v : PageVector) (position : ℕ) :
    v.deref (v.refTo position) = BPIndexPager.deref v.file position := if_pos rfl

theorem assign_refTo (v : PageVector) (position : ℕ) (f : IndexPage → IndexPage) :
    v.assign (v.refTo position) f = .ok (v.store (BPIndexPager.assign v.file position f)) :=
  if_pos rfl

theorem getPageOrThrow_eq (v : PageVector) (pageId : ℕ) (what : String) :
    v.getPageOrThrow pageId what
      = (IndexBPlusTree.getPageOrThrow v.file pageId what).map v.refTo := by
  unfold getPageOrThrow IndexBPlusTree.getPageOrThrow getPage
  cases BPIndexPager.getPage v.file pageId <;> rfl

/-- A page that is appended to a vector with room moves nothing. -/
theorem createPage_of_room (h : Roomy 1 v) (isLeaf : Bool) (parent : ℕ) :
    v.createPage isLeaf parent
      = (v.refTo (BPIndexPager.createPage v.file isLeaf parent).1,
        v.store (BPIndexPager.createPage v.file isLeaf parent).2) := by
  have hroom : v.file.pages.length < v.capacity := h
  unfold createPage
  simp only [if_pos hroom, refTo_store]

/-- A page that is appended to a full vector moves all pages, and a reference
taken before is no good. -/
theorem deref_createPage_of_full (h : v.file.pages.length = v.capacity) (isLeaf : Bool)
    (parent position : ℕ) :
    (v.createPage isLeaf parent).2.deref (v.refTo position) = .error .danglingReference := by
  have hfull : ¬ v.file.pages.length < v.capacity := not_lt.mpr h.ge
  unfold createPage
  simp only [if_neg hfull]
  exact if_neg (Nat.succ_ne_self v.moves).symm

/-- The page that was appended last is there. -/
theorem deref_createPage (v : PageVector) (isLeaf : Bool) (parent : ℕ) :
    ∃ page, (v.createPage isLeaf parent).2.deref (v.createPage isLeaf parent).1 = .ok page := by
  have hfile : (v.createPage isLeaf parent).2.file
      = (BPIndexPager.createPage v.file isLeaf parent).2 := by
    unfold createPage
    dsimp only
    split_ifs <;> rfl
  have hrefs : (v.createPage isLeaf parent).1
      = (v.createPage isLeaf parent).2.refTo (BPIndexPager.createPage v.file isLeaf parent).1 :=
    rfl
  rw [hrefs, deref_refTo, hfile, IndexFile.deref_createPage]
  exact ⟨_, rfl⟩

theorem reparent_eq (v : PageVector) (parent : ℕ) (children : List ℕ) :
    v.reparent parent children = (IndexBPlusTree.reparent v.file parent children).map v.store := by
  induction children generalizing v with
  | nil => rfl
  | cons child children ih =>
    unfold reparent IndexBPlusTree.reparent
    rw [getPageOrThrow_eq]
    cases IndexBPlusTree.getPageOrThrow v.file child _ with
    | error e => rfl
    | ok position =>
      simp only [Except.map, bind, Except.bind, assign_refTo]
      rw [ih]
      rfl

theorem deref_store (v : PageVector) (file : IndexFile) (position : ℕ) :
    (v.store file).deref (v.refTo position) = BPIndexPager.deref file position := if_pos rfl

theorem assign_store (v : PageVector) (file : IndexFile) (position : ℕ)
    (f : IndexPage → IndexPage) :
    (v.store file).assign (v.refTo position) f
      = .ok (v.store (BPIndexPager.assign file position f)) := if_pos rfl

theorem growRoot_of_room (h : Roomy 1 v) (s : Split) :
    v.growRoot s = (IndexBPlusTree.growRoot v.file s).map v.store := by
  unfold growRoot IndexBPlusTree.growRoot
  rw [createPage_of_room h]
  generalize BPIndexPager.createPage v.file false 0 = created
  obtain ⟨newRoot, file⟩ := created
  simp only [deref_store]
  cases BPIndexPager.deref file newRoot with
  | error e => rfl
  | ok rootPage =>
    simp only [bind, Except.bind, assign_store, getPageOrThrow_eq, store_file]
    generalize BPIndexPager.assign file newRoot _ = file
    cases IndexBPlusTree.getPageOrThrow file s.leftId _ with
    | error e => rfl
    | ok left =>
      cases IndexBPlusTree.getPageOrThrow file s.rightId _ with
      | error e => rfl
      | ok right =>
        simp only [Except.map, refTo_store, assign_store, store_file]
        rfl

/-- Linking a page to its parent appends no page. -/
theorem linkIntoParent_eq (v : PageVector) (s : Split) (parentId : ℕ) :
    v.linkIntoParent s parentId = (IndexBPlusTree.linkIntoParent v.file s parentId).map
      fun linked => (v.refTo linked.1, linked.2.1, v.store linked.2.2) := by
  unfold linkIntoParent IndexBPlusTree.linkIntoParent
  rw [getPageOrThrow_eq]
  cases IndexBPlusTree.getPageOrThrow v.file parentId _ with
  | error e => rfl
  | ok parentPtr =>
    simp only [Except.map, bind, Except.bind, deref_refTo]
    cases BPIndexPager.deref v.file parentPtr with
    | error e => rfl
    | ok parentPage =>
      dsimp only
      split_ifs with hleaf
      · rfl
      cases parentPage.data.getInternal with
      | error e => rfl
      | ok parent =>
        dsimp only [pure, Except.pure]
        split_ifs with hpos
        · rfl
        simp only [assign_refTo, getPageOrThrow_eq, store_file]
        generalize BPIndexPager.assign v.file parentPtr _ = file
        cases IndexBPlusTree.getPageOrThrow file s.rightId _ with
        | error e => rfl
        | ok right =>
          simp only [Except.map, refTo_store, assign_store]

/-- A page is where it was when another one has been appended. -/
theorem deref_createPage_of_ok {file : IndexFile} {position : ℕ} {page : IndexPage}
    (h : BPIndexPager.deref file position = .ok page) (isLeaf : Bool) (parent : ℕ) :
    BPIndexPager.deref (BPIndexPager.createPage file isLeaf parent).2 position = .ok page := by
  unfold BPIndexPager.deref at h ⊢
  cases hpage : file.pages[position]? with
  | none => rw [hpage] at h; cases h
  | some p =>
    rw [hpage] at h
    have hlt : position < file.pages.length := (List.getElem?_eq_some_iff.mp hpage).1
    simp only [BPIndexPager.createPage, List.getElem?_append_left hlt, hpage, h]

theorem splitInternal_of_room (h : Roomy 1 v) (position : ℕ) :
    v.splitInternal (v.refTo position) = (IndexBPlusTree.splitInternal v.file position).map
      fun split => (split.1, v.store split.2) := by
  unfold splitInternal IndexBPlusTree.splitInternal
  rw [deref_refTo]
  cases hpage : BPIndexPager.deref v.file position with
  | error e => rfl
  | ok page =>
    simp only [bind, Except.bind]
    cases hnode : page.data.getInternal with
    | error e => rfl
    | ok node =>
      dsimp only
      cases node.keys[node.keys.length / 2]? with
      | none => rfl
      | some upKey =>
        have hkept := deref_createPage_of_ok hpage false page.parent
        simp only [createPage_of_room h, deref_store, hkept, hnode]
        generalize BPIndexPager.createPage v.file false page.parent = created
        obtain ⟨right, file⟩ := created
        dsimp only
        cases BPIndexPager.deref file right with
        | error e => rfl
        | ok rightPage =>
          simp only [assign_store, reparent_eq, store_file]
          cases IndexBPlusTree.reparent _ rightPage.id _ with
          | error e => rfl
          | ok file' => rfl

theorem splitLeaf_of_room (h : Roomy 1 v) (position : ℕ) :
    v.splitLeaf (v.refTo position) = (IndexBPlusTree.splitLeaf v.file position).map
      fun split => (split.1, v.store split.2) := by
  unfold splitLeaf IndexBPlusTree.splitLeaf
  rw [deref_refTo]
  cases hpage : BPIndexPager.deref v.file position with
  | error e => rfl
  | ok leafPage =>
    simp only [bind, Except.bind]
    cases hleaf : leafPage.data.getLeaf with
    | error e => rfl
    | ok leaf =>
      have hkept := deref_createPage_of_ok hpage true leafPage.parent
      simp only [createPage_of_room h, deref_store, hkept, hleaf]
      generalize BPIndexPager.createPage v.file true leafPage.parent = created
      obtain ⟨right, file⟩ := created
      dsimp only
      cases BPIndexPager.deref file right with
      | error e => rfl
      | ok rightPage =>
        simp only [assign_store]
        cases leaf.keys.drop (leaf.keys.length / 2) <;> rfl

/-! ### How many pages are appended -/

theorem length_assign (file : IndexFile) (position : ℕ) (f : IndexPage → IndexPage) :
    (BPIndexPager.assign file position f).pages.length = file.pages.length :=
  List.length_modify f file.pages position

theorem length_createPage (file : IndexFile) (isLeaf : Bool) (parent : ℕ) :
    (BPIndexPager.createPage file isLeaf parent).2.pages.length = file.pages.length + 1 :=
  List.length_append

theorem length_reparent {file file' : IndexFile} {parent : ℕ} {children : List ℕ}
    (h : IndexBPlusTree.reparent file parent children = .ok file') :
    file'.pages.length = file.pages.length := by
  induction children generalizing file with
  | nil => rw [Except.ok.inj h]
  | cons child children ih =>
    obtain ⟨position, -, h⟩ := bind_eq_ok.mp h
    exact (ih h).trans (length_assign file position _)

theorem length_linkIntoParent {file : IndexFile} {s : Split} {parentId : ℕ}
    {linked : ℕ × ℕ × IndexFile}
    (h : IndexBPlusTree.linkIntoParent file s parentId = .ok linked) :
    linked.2.2.pages.length = file.pages.length := by
  unfold IndexBPlusTree.linkIntoParent at h
  obtain ⟨parentPtr, -, h⟩ := bind_eq_ok.mp h
  obtain ⟨parentPage, -, h⟩ := bind_eq_ok.mp h
  dsimp only at h
  split_ifs at h
  · cases h
  obtain ⟨parent, -, h⟩ := bind_eq_ok.mp h
  split_ifs at h
  · cases h
  obtain ⟨right, -, h⟩ := bind_eq_ok.mp h
  obtain rfl := Except.ok.inj h
  simp only [length_assign]

theorem length_splitInternal {file : IndexFile} {position : ℕ} {split : Split × IndexFile}
    (h : IndexBPlusTree.splitInternal file position = .ok split) :
    split.2.pages.length = file.pages.length + 1 := by
  unfold IndexBPlusTree.splitInternal at h
  obtain ⟨page, -, h⟩ := bind_eq_ok.mp h
  obtain ⟨node, -, h⟩ := bind_eq_ok.mp h
  dsimp only at h
  split at h
  · cases h
  obtain ⟨rightPage, -, h⟩ := bind_eq_ok.mp h
  obtain ⟨file', hmoved, h⟩ := bind_eq_ok.mp h
  obtain rfl := Except.ok.inj h
  rw [length_reparent hmoved, length_assign, length_assign]
  exact length_createPage file false page.parent

theorem length_splitLeaf {file : IndexFile} {position : ℕ} {split : Split × IndexFile}
    (h : IndexBPlusTree.splitLeaf file position = .ok split) :
    split.2.pages.length = file.pages.length + 1 := by
  unfold IndexBPlusTree.splitLeaf at h
  obtain ⟨leafPage, -, h⟩ := bind_eq_ok.mp h
  obtain ⟨leaf, -, h⟩ := bind_eq_ok.mp h
  dsimp only at h
  obtain ⟨rightPage, -, h⟩ := bind_eq_ok.mp h
  split at h
  · cases h
  obtain rfl := Except.ok.inj h
  rw [length_assign, length_assign]
  exact length_createPage file true leafPage.parent

/-- A split travels up to the root and appends a page on every level it comes
to, at most. By induction on the path. -/
theorem insertIntoParent_of_room {s : Split} {path : List ℕ} (h : Roomy path.length v) :
    v.insertIntoParent tree s path
      = (tree.insertIntoParent v.file s path).map v.store := by
  induction path generalizing v s with
  | nil => rfl
  | cons id path ih =>
    cases path with
    | nil => exact growRoot_of_room h s
    | cons parentId path =>
      unfold insertIntoParent IndexBPlusTree.insertIntoParent
      rw [linkIntoParent_eq]
      cases hlink : IndexBPlusTree.linkIntoParent v.file s parentId with
      | error e => rfl
      | ok linked =>
        obtain ⟨parentPtr, keysSize, file⟩ := linked
        have hlinked : file.pages.length = v.file.pages.length := length_linkIntoParent hlink
        have hroom : Roomy 1 (v.store file) := by
          unfold Roomy at h ⊢
          simp only [List.length_cons] at h
          show file.pages.length + 1 ≤ v.capacity
          omega
        simp only [Except.map, bind, Except.bind]
        split_ifs with hfull
        · rw [← refTo_store v file, splitInternal_of_room hroom, store_file]
          cases hsplit : IndexBPlusTree.splitInternal file parentPtr with
          | error e => rfl
          | ok split =>
            obtain ⟨s', file'⟩ := split
            have hsplit' : file'.pages.length = file.pages.length + 1 :=
              length_splitInternal hsplit
            simp only [Except.map, store_store]
            refine ih ?_
            unfold Roomy at h ⊢
            simp only [List.length_cons] at h ⊢
            show file'.pages.length + _ ≤ v.capacity
            omega
        · rfl

/-- **An insertion into a vector with room** for one page more than there are
levels does what it does to the tree. -/
theorem insert_of_room {key : DataToken} {row : RowPtr}
    (h : ∀ leaf path, findLeaf v.file key = .ok (leaf, path) → Roomy (path.length + 1) v) :
    v.insert tree key row = (tree.insert v.file key row).map v.store := by
  unfold insert IndexBPlusTree.insert
  cases hfind : findLeaf v.file key with
  | error e => rfl
  | ok found =>
    obtain ⟨leafPtr, path⟩ := found
    have hroom := h leafPtr path hfind
    simp only [bind, Except.bind, deref_refTo]
    cases BPIndexPager.deref v.file leafPtr with
    | error e => rfl
    | ok leafPage =>
      dsimp only
      cases leafPage.data.getLeaf with
      | error e => rfl
      | ok leaf =>
        simp only [assign_refTo]
        generalize hfile : BPIndexPager.assign v.file leafPtr _ = file
        have hlen : file.pages.length = v.file.pages.length := hfile ▸ length_assign _ _ _
        split_ifs with hfull
        · unfold splitLeafAndPropagate IndexBPlusTree.splitLeafAndPropagate
          have hroom' : Roomy 1 (v.store file) := by
            unfold Roomy at hroom ⊢
            show file.pages.length + 1 ≤ v.capacity
            omega
          rw [← refTo_store v file, splitLeaf_of_room hroom', store_file]
          cases hsplit : IndexBPlusTree.splitLeaf file leafPtr with
          | error e => rfl
          | ok split =>
            obtain ⟨s, file'⟩ := split
            have hsplit' : file'.pages.length = file.pages.length + 1 := length_splitLeaf hsplit
            refine insertIntoParent_of_room ?_
            unfold Roomy at hroom ⊢
            show file'.pages.length + path.length ≤ v.capacity
            omega
        · rfl

end PageVector
