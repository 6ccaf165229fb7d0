import Deltabase.Types.IndexFile

/-!
# The B+ tree of an index

`storage::IndexBPlusTree` over the pager `storage::BPIndexPager`. The tree
keeps no state of its own: every operation reads and changes the pages of the
index file.

The source holds pages by pointer while it appends pages to the vector they
live in. The pointers are taken to stay valid here, as they do in a vector with
room (`PageVector` is the vector as it is), and a pointer is the position of its
page in the file: `get_page` finds the first page with an id, `create_page`
returns the last position.

A path is the list of page ids from the root to the page at hand, and the
source pushes and pops at the far end; here the list runs the other way, so
that the end the source works on is the head.
-/

namespace BPIndexPager

/-- `get_page`. -/
def getPage (file : IndexFile) (pageId : ℕ) : Option ℕ :=
  file.pages.findIdx? fun p => p.id = pageId

/-- `create_page`. -/
def createPage (file : IndexFile) (isLeaf : Bool) (parent : ℕ) : ℕ × IndexFile :=
  let page : IndexPage :=
    { id := file.lastPage + 1
      parent := parent
      indexId := file.indexId
      isLeaf := isLeaf
      data := if isLeaf then .leaf {} else .internal {} }
  (file.pages.length,
    { file with lastPage := file.lastPage + 1, pages := file.pages ++ [page] })

/-- `set_root_page_id`. -/
def setRootPageId (file : IndexFile) (root : ℕ) : IndexFile := { file with rootPage := root }

/-- The page behind a pointer. -/
def deref (file : IndexFile) (ptr : ℕ) : Except Exn IndexPage :=
  match file.pages[ptr]? with
  | some page => .ok page
  | none => .error .nullDereference

/-- An assignment through a pointer. -/
def assign (file : IndexFile) (ptr : ℕ) (f : IndexPage → IndexPage) : IndexFile :=
  { file with pages := file.pages.modify ptr f }

end BPIndexPager

/-- `storage::IndexBPlusTree`, that is, its two bounds. -/
structure IndexBPlusTree where
  maxLeafKeys : ℕ := 64
  maxInternalKeys : ℕ := 64
  deriving DecidableEq

namespace IndexBPlusTree

open BPIndexPager DataToken

variable (tree : IndexBPlusTree)

/-- `get_page`, throwing when there is no such page. -/
def getPageOrThrow (file : IndexFile) (pageId : ℕ) (what : String) : Except Exn ℕ :=
  match getPage file pageId with
  | some ptr => .ok ptr
  | none => .error (.runtimeError what)

/-- `root`. -/
def root (file : IndexFile) : Except Exn ℕ :=
  getPageOrThrow file file.rootPage "IndexBpTree: root page not found"

/-- The loop of `find_leaf`. A loop that visits more internal pages than the
file has pages has visited one of them twice and never ends. -/
def findLeafLoop (file : IndexFile) (key : DataToken) :
    ℕ → ℕ → List ℕ → Except Exn (ℕ × List ℕ)
  | 0, _, _ => .error .divergence
  | rounds + 1, cur, path => do
    let page ← deref file cur
    if page.isLeaf then pure (cur, page.id :: path)
    else
      let node ← page.data.getInternal
      let i := node.keys.findIdx fun k => ¬ compareToken k key ≤ 0
      match node.children[i]? with
      | none => .error (.runtimeError "IndexBpTree: broken internal node")
      | some child =>
        let cur ← getPageOrThrow file child "IndexBpTree: child page not found"
        findLeafLoop file key rounds cur (page.id :: path)

/-- `find_leaf`. -/
def findLeaf (file : IndexFile) (key : DataToken) : Except Exn (ℕ × List ℕ) := do
  let cur ← root file
  findLeafLoop file key (file.pages.length + 1) cur []

/-- `find`. -/
def find (file : IndexFile) (key : DataToken) : Except Exn (Option RowPtr) := do
  let (leafPtr, _) ← findLeaf file key
  let leafPage ← deref file leafPtr
  let leaf ← leafPage.data.getLeaf
  match leaf.keys.findIdx? fun k => compareToken k key = 0 with
  | none => pure none
  | some i =>
    match leaf.rows[i]? with
    | some row => pure (some row)
    | none => .error .outOfRange

/-- `insert_into_leaf`. -/
def insertIntoLeaf (leaf : LeafIndexNode) (key : DataToken) (row : RowPtr) : LeafIndexNode :=
  let pos := leaf.keys.findIdx fun k => ¬ compareToken k key < 0
  { leaf with keys := leaf.keys.insertIdx pos key, rows := leaf.rows.insertIdx pos row }

/-- The loop that hangs the children moved to a new page below it. -/
def reparent (file : IndexFile) (parent : ℕ) : List ℕ → Except Exn IndexFile
  | [] => pure file
  | child :: children => do
    let ptr ← getPageOrThrow file child "IndexBpTree: child missing during split"
    reparent (assign file ptr (.withParent parent)) parent children

/-- What a split hands to `insert_into_parent`: the page that was split, the
separator and the page that was split off. -/
structure Split where
  leftId : ℕ
  separator : DataToken
  rightId : ℕ

/-- The branch of `insert_into_parent` for a page without parent. -/
def growRoot (file : IndexFile) (s : Split) : Except Exn IndexFile := do
  let (newRoot, file) := createPage file false 0
  let rootPage ← deref file newRoot
  let file := assign file newRoot (.withInternal [s.separator] [s.leftId, s.rightId])
  let left ← getPageOrThrow file s.leftId "IndexBpTree: new root link failed"
  let right ← getPageOrThrow file s.rightId "IndexBpTree: new root link failed"
  let file := assign file left (.withParent rootPage.id)
  let file := assign file right (.withParent rootPage.id)
  pure (setRootPageId file rootPage.id)

/-- The branch of `insert_into_parent` for a page with a parent, up to the
overflow check: the parent and the number of keys it has now. -/
def linkIntoParent (file : IndexFile) (s : Split) (parentId : ℕ) :
    Except Exn (ℕ × ℕ × IndexFile) := do
  let parentPtr ← getPageOrThrow file parentId "IndexBpTree: invalid parent"
  let parentPage ← deref file parentPtr
  if parentPage.isLeaf then .error (.runtimeError "IndexBpTree: invalid parent")
  let parent ← parentPage.data.getInternal
  let childPos := parent.children.findIdx fun c => c = s.leftId
  if childPos = parent.children.length then
    .error (.runtimeError "IndexBpTree: left child not found in parent")
  let keys := parent.keys.insertIdx childPos s.separator
  let children := parent.children.insertIdx (childPos + 1) s.rightId
  let file := assign file parentPtr (.withInternal keys children)
  let right ← getPageOrThrow file s.rightId "IndexBpTree: right child not found"
  let file := assign file right (.withParent parentId)
  pure (parentPtr, keys.length, file)

/-- `split_internal_and_propagate` up to its call of `insert_into_parent`. -/
def splitInternal (file : IndexFile) (ptr : ℕ) : Except Exn (Split × IndexFile) := do
  let page ← deref file ptr
  let node ← page.data.getInternal
  let mid := node.keys.length / 2
  match node.keys[mid]? with
  | none => .error .outOfRange
  | some upKey =>
    let (right, file) := createPage file false page.parent
    let rightPage ← deref file right
    let moved := node.children.drop (mid + 1)
    let file := assign file right (.withInternal (node.keys.drop (mid + 1)) moved)
    let file := assign file ptr
      (.withInternal (node.keys.take mid) (node.children.take (mid + 1)))
    let file ← reparent file rightPage.id moved
    pure (⟨page.id, upKey, rightPage.id⟩, file)

/-- `insert_into_parent`; it and `split_internal_and_propagate` call each
other, once for each level the split travels up. -/
def insertIntoParent (file : IndexFile) (s : Split) : List ℕ → Except Exn IndexFile
  | [] => .error .outOfRange
  | [_] => growRoot file s
  | _ :: parentId :: path => do
    let (parentPtr, keysSize, file) ← linkIntoParent file s parentId
    if keysSize > tree.maxInternalKeys then
      let (s, file) ← splitInternal file parentPtr
      insertIntoParent file s (parentId :: path)
    else pure file

/-- `split_leaf_and_propagate` up to its call of `insert_into_parent`. -/
def splitLeaf (file : IndexFile) (leafPtr : ℕ) : Except Exn (Split × IndexFile) := do
  let leafPage ← deref file leafPtr
  let leaf ← leafPage.data.getLeaf
  let mid := leaf.keys.length / 2
  let (right, file) := createPage file true leafPage.parent
  let rightPage ← deref file right
  let file := assign file right
    (.withLeaf (leaf.keys.drop mid) (leaf.rows.drop mid) leaf.nextLeaf)
  let file := assign file leafPtr
    (.withLeaf (leaf.keys.take mid) (leaf.rows.take mid) rightPage.id)
  match leaf.keys.drop mid with
  | [] => .error .outOfRange
  | separator :: _ => pure (⟨leafPage.id, separator, rightPage.id⟩, file)

/-- `split_leaf_and_propagate`. -/
def splitLeafAndPropagate (file : IndexFile) (leafPtr : ℕ) (path : List ℕ) :
    Except Exn IndexFile := do
  let (s, file) ← splitLeaf file leafPtr
  tree.insertIntoParent file s path

/-- `insert`. -/
def insert (file : IndexFile) (key : DataToken) (row : RowPtr) : Except Exn IndexFile := do
  let (leafPtr, path) ← findLeaf file key
  let leafPage ← deref file leafPtr
  let leaf ← leafPage.data.getLeaf
  let leaf := insertIntoLeaf leaf key row
  let file := assign file leafPtr (.withLeaf leaf.keys leaf.rows leaf.nextLeaf)
  if leaf.keys.length > tree.maxLeafKeys then tree.splitLeafAndPropagate file leafPtr path
  else pure file

/-! ## Walking the leaves -/

/-- The first loop of a scan: from the root through the first children. -/
def leftmostLeafLoop (file : IndexFile) : ℕ → ℕ → Except Exn (Option ℕ)
  | 0, _ => .error .divergence
  | rounds + 1, cur => do
    let page ← deref file cur
    if page.isLeaf then pure (some cur)
    else
      let node ← page.data.getInternal
      match node.children.head? with
      | none => pure none
      | some child =>
        let cur ← getPageOrThrow file child "StdDbInstance::index_scan: broken index tree"
        leftmostLeafLoop file rounds cur

/-- The second loop of a scan: along the leaves. -/
def leavesLoop (file : IndexFile) : ℕ → ℕ → Except Exn (List (ℕ × LeafIndexNode))
  | 0, _ => .error .divergence
  | rounds + 1, cur => do
    let page ← deref file cur
    let leaf ← page.data.getLeaf
    if leaf.nextLeaf = 0 then pure [(page.id, leaf)]
    else
      let cur ← getPageOrThrow file leaf.nextLeaf "StdDbInstance::index_scan: broken leaf chain"
      let leaves ← leavesLoop file rounds cur
      pure ((page.id, leaf) :: leaves)

/-- The leaves in the order `StdDbInstance::index_scan` reads them. -/
def scanLeaves (file : IndexFile) : Except Exn (List (ℕ × LeafIndexNode)) := do
  match getPage file file.rootPage with
  | none => pure []
  | some cur =>
    match ← leftmostLeafLoop file (file.pages.length + 1) cur with
    | none => pure []
    | some cur => leavesLoop file (file.pages.length + 1) cur

end IndexBPlusTree
