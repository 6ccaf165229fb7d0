import Deltabase.Types.DataPage

/-!
# Index files

An index is one file of pages. A leaf holds keys with the rows they point to
and the id of the next leaf; an internal page holds one more child than keys.
A page says twice what it is, by `isLeaf` and by the alternative of `data`.
-/

/-- `types::RowPtr`: a page and the id of a row in it. -/
abbrev RowPtr := DataPageId × ℕ

/-- `types::InternalIndexNode`. -/
structure InternalIndexNode where
  keys : List DataToken := []
  children : List ℕ := []
  deriving DecidableEq

/-- `types::LeafIndexNode`. -/
structure LeafIndexNode where
  keys : List DataToken := []
  rows : List RowPtr := []
  nextLeaf : ℕ := 0
  deriving DecidableEq

/-- `std::variant<InternalIndexNode, LeafIndexNode>`. -/
inductive IndexNode where
  | internal (node : InternalIndexNode)
  | leaf (node : LeafIndexNode)
  deriving DecidableEq

namespace IndexNode

/-- `std::get<InternalIndexNode>`. -/
def getInternal : IndexNode → Except Exn InternalIndexNode
  | internal node => .ok node
  | leaf _ => .error .badVariantAccess

/-- `std::get<LeafIndexNode>`. -/
def getLeaf : IndexNode → Except Exn LeafIndexNode
  | leaf node => .ok node
  | internal _ => .error .badVariantAccess

/-- The children of an internal page; a leaf has none. -/
def children : IndexNode → List ℕ
  | internal node => node.children
  | leaf _ => []

end IndexNode

/-- `types::IndexPage`. -/
structure IndexPage where
  id : ℕ
  parent : ℕ
  indexId : IndexId
  isLeaf : Bool
  data : IndexNode
  deriving DecidableEq

namespace IndexPage

/-- Assigns the keys and children of an internal page. -/
def withInternal (keys : List DataToken) (children : List ℕ) (p : IndexPage) : IndexPage :=
  { p with data := .internal { keys := keys, children := children } }

/-- Assigns the fields of a leaf. -/
def withLeaf (keys : List DataToken) (rows : List RowPtr) (nextLeaf : ℕ) (p : IndexPage) :
    IndexPage :=
  { p with data := .leaf { keys := keys, rows := rows, nextLeaf := nextLeaf } }

/-- Assigns the parent of a page. -/
def withParent (parent : ℕ) (p : IndexPage) : IndexPage := { p with parent := parent }

theorem withInternal_id (keys : List DataToken) (children : List ℕ) (p : IndexPage) :
    (withInternal keys children p).id = p.id := rfl

theorem withLeaf_id (keys : List DataToken) (rows : List RowPtr) (nextLeaf : ℕ) (p : IndexPage) :
    (withLeaf keys rows nextLeaf p).id = p.id := rfl

theorem withParent_id (parent : ℕ) (p : IndexPage) : (withParent parent p).id = p.id := rfl

end IndexPage

/-- `types::IndexFile`. -/
structure IndexFile where
  indexId : IndexId
  rootPage : ℕ := 0
  lastPage : ℕ := 0
  lastLsn : ℕ := 0
  pages : List IndexPage := []
  deriving DecidableEq

namespace IndexFile

/-- The file `FileIOManager::create_index_file` makes: a single empty leaf. -/
def create (indexId : IndexId) : IndexFile :=
  { indexId := indexId
    rootPage := 1
    lastPage := 1
    pages := [{ id := 1, parent := 0, indexId := indexId, isLeaf := true, data := .leaf {} }] }

end IndexFile
