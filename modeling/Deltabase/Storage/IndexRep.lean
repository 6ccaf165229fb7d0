import Deltabase.Lib.LevelTree
import Deltabase.Storage.IndexBPlusTree
import Mathlib.Data.List.Nodup

/-!
# What an index file represents

`Stored file leaves blocks` says that the pages of an index file are exactly
the given leaves, in the order of their `next_leaf` links, and the given
internal nodes, and that the children of every internal node name it as their
parent. It does not say how the nodes hang together; that is `Chain`. So it
holds between any two steps of an insertion, also while a page that was split
off is not yet anybody's child.

The lemmas say what each assignment of the tree does to it.
-/

/-- The order of the keys. -/
abbrev KeyRank := ℕ ×ₗ List ℤ

/-- An internal page of an index. -/
abbrev IndexBlock := Block DataToken KeyRank

/-- A leaf: its id and its entries in order. -/
structure LeafBlock where
  id : ℕ
  entries : List (DataToken × RowPtr)

namespace LeafBlock

/-- The keys of a leaf. -/
def keys (l : LeafBlock) : List DataToken := l.entries.map Prod.fst

/-- The rows of a leaf. -/
def rows (l : LeafBlock) : List RowPtr := l.entries.map Prod.snd

end LeafBlock

/-- `next_leaf` of a leaf followed by the given leaves. -/
def nextLeafId (leaves : List LeafBlock) : ℕ := (leaves.map LeafBlock.id).headD 0

namespace IndexFile

open BPIndexPager

/-! ## Pages by id -/

/-- The page with an id. -/
def page? (file : IndexFile) (id : ℕ) : Option IndexPage := file.pages.find? fun p => p.id = id

/-- What the page with an id holds. -/
def dataOf (file : IndexFile) (id : ℕ) : Option (Bool × IndexNode) :=
  (file.page? id).map fun p => (p.isLeaf, p.data)

/-- The parent of the page with an id. -/
def parentOf (file : IndexFile) (id : ℕ) : Option ℕ := (file.page? id).map IndexPage.parent

/-- The ids of the pages. -/
def ids (file : IndexFile) : List ℕ := file.pages.map IndexPage.id

variable {file : IndexFile} {id ptr : ℕ}

/-- The page at the position `get_page` returns is the page with the id. -/
theorem getElem?_of_getPage (h : getPage file id = some ptr) :
    file.pages[ptr]? = file.page? id := by
  rw [getPage, List.findIdx?_eq_some_iff_findIdx_eq] at h
  rw [page?, List.find?_eq_getElem?_findIdx, h.2]

/-- `get_page` finds every page by its id. -/
theorem exists_getPage (h : id ∈ file.ids) :
    ∃ ptr p, getPage file id = some ptr ∧ deref file ptr = .ok p ∧ p.id = id
      ∧ file.page? id = some p := by
  obtain ⟨q, hq, hid⟩ := List.mem_map.mp h
  have hsome : (getPage file id).isSome := by
    rw [getPage, List.findIdx?_isSome, List.any_eq_true]
    exact ⟨q, hq, by simp [hid]⟩
  obtain ⟨ptr, hptr⟩ := Option.isSome_iff_exists.mp hsome
  obtain ⟨p, hp⟩ : ∃ p, file.page? id = some p := by
    rw [← Option.isSome_iff_exists, page?, List.find?_isSome]
    exact ⟨q, hq, by simp [hid]⟩
  refine ⟨ptr, p, hptr, ?_, by simpa using List.find?_some hp, hp⟩
  rw [deref, getElem?_of_getPage hptr, hp]

theorem page?_eq_none (h : id ∉ file.ids) : file.page? id = none := by
  rw [page?, List.find?_eq_none]
  intro p hp hid
  exact h (List.mem_map.mpr ⟨p, hp, of_decide_eq_true hid⟩)

/-- With distinct ids, a page is the page with its id. -/
theorem page?_of_mem (hnodup : file.ids.Nodup) {p : IndexPage} (hp : p ∈ file.pages) :
    file.page? p.id = some p := by
  obtain ⟨-, p', -, -, hid, hpage⟩ := exists_getPage (List.mem_map_of_mem hp : p.id ∈ file.ids)
  have hp' : p' ∈ file.pages := List.mem_of_find?_eq_some hpage
  rw [hpage, List.inj_on_of_nodup_map hnodup hp' hp hid]

/-- `get_page` only looks at ids. -/
theorem getPage_eq (file : IndexFile) (id : ℕ) :
    getPage file id = file.ids.findIdx? fun i => i = id := by
  rw [getPage, ids, List.findIdx?_map]
  rfl

theorem page?_eq_getElem? (file : IndexFile) (id : ℕ) :
    file.page? id = file.pages[file.ids.findIdx fun i => i = id]? := by
  rw [page?, List.find?_eq_getElem?_findIdx, ids, List.findIdx_map]
  rfl

/-! ## Assignments -/

section Assign

variable {f : IndexPage → IndexPage} {id' : ℕ}

/-- Changing a page in place moves no id. -/
theorem ids_assign (hf : ∀ p, (f p).id = p.id) (ptr : ℕ) : (assign file ptr f).ids = file.ids := by
  unfold ids assign
  refine List.ext_getElem? fun i => ?_
  rw [List.getElem?_map, List.getElem?_map, List.getElem?_modify]
  cases file.pages[i]? with
  | none => rfl
  | some p =>
    show some (IndexPage.id (if ptr = i then f p else p)) = some p.id
    split_ifs
    · rw [hf]
    · rfl

/-- A pointer survives the assignment. -/
theorem getPage_assign (hf : ∀ p, (f p).id = p.id) (ptr : ℕ) (id' : ℕ) :
    getPage (assign file ptr f) id' = getPage file id' := by
  rw [getPage_eq, getPage_eq, ids_assign hf]

/-- An assignment changes the page it is made to and no other. -/
theorem page?_assign (hf : ∀ p, (f p).id = p.id) (h : getPage file id = some ptr) (id' : ℕ) :
    (assign file ptr f).page? id' = if id' = id then (file.page? id).map f else file.page? id' := by
  rw [getPage_eq, List.findIdx?_eq_some_iff_findIdx_eq] at h
  obtain ⟨hlt, hidx⟩ := h
  rw [page?_eq_getElem?, ids_assign hf, page?_eq_getElem? file id', page?_eq_getElem? file id,
    hidx]
  show (file.pages.modify ptr f)[_]? = _
  rw [List.getElem?_modify]
  by_cases hid : id' = id
  · rw [if_pos hid, hid, hidx]
    simp
  · -- two ids are not found at the same position
    have hne : ¬ ptr = file.ids.findIdx fun i => decide (i = id') := by
      intro heq
      obtain ⟨i, hget⟩ : ∃ i, file.ids[ptr]? = some i := ⟨_, List.getElem?_eq_getElem hlt⟩
      have h₁ : decide (i = id) = true :=
        List.findIdx_of_getElem?_eq_some (p := fun i => decide (i = id)) (by rw [hidx, hget])
      have h₂ : decide (i = id') = true :=
        List.findIdx_of_getElem?_eq_some (p := fun i => decide (i = id')) (by rw [← heq, hget])
      exact hid ((of_decide_eq_true h₂).symm.trans (of_decide_eq_true h₁))
    rw [if_neg hid]
    simp [hne]

variable (h : getPage file id = some ptr)

include h in
theorem dataOf_assign_withParent (parent id' : ℕ) :
    (assign file ptr (.withParent parent)).dataOf id' = file.dataOf id' := by
  unfold dataOf
  rw [page?_assign (IndexPage.withParent_id parent) h]
  split_ifs with hid
  · rw [hid, Option.map_map]
    rfl
  · rfl

include h in
theorem parentOf_assign_withParent (hid : id ∈ file.ids) (parent id' : ℕ) :
    (assign file ptr (.withParent parent)).parentOf id'
      = if id' = id then some parent else file.parentOf id' := by
  obtain ⟨_, p, -, -, -, hp⟩ := exists_getPage hid
  unfold parentOf
  rw [page?_assign (IndexPage.withParent_id parent) h]
  split_ifs with hid'
  · rw [hp]
    rfl
  · rfl

include h in
theorem dataOf_assign_withInternal (keys : List DataToken) (children : List ℕ) (id' : ℕ) :
    (assign file ptr (.withInternal keys children)).dataOf id'
      = if id' = id then (file.dataOf id).map fun d => (d.1, .internal ⟨keys, children⟩)
        else file.dataOf id' := by
  unfold dataOf
  rw [page?_assign (IndexPage.withInternal_id keys children) h]
  split_ifs with hid
  · rw [Option.map_map, Option.map_map]
    rfl
  · rfl

include h in
theorem parentOf_assign_withInternal (keys : List DataToken) (children : List ℕ) (id' : ℕ) :
    (assign file ptr (.withInternal keys children)).parentOf id' = file.parentOf id' := by
  unfold parentOf
  rw [page?_assign (IndexPage.withInternal_id keys children) h]
  split_ifs with hid
  · rw [hid, Option.map_map]
    rfl
  · rfl

include h in
theorem dataOf_assign_withLeaf (keys : List DataToken) (rows : List RowPtr) (next id' : ℕ) :
    (assign file ptr (.withLeaf keys rows next)).dataOf id'
      = if id' = id then (file.dataOf id).map fun d => (d.1, .leaf ⟨keys, rows, next⟩)
        else file.dataOf id' := by
  unfold dataOf
  rw [page?_assign (IndexPage.withLeaf_id keys rows next) h]
  split_ifs with hid
  · rw [Option.map_map, Option.map_map]
    rfl
  · rfl

include h in
theorem parentOf_assign_withLeaf (keys : List DataToken) (rows : List RowPtr) (next id' : ℕ) :
    (assign file ptr (.withLeaf keys rows next)).parentOf id' = file.parentOf id' := by
  unfold parentOf
  rw [page?_assign (IndexPage.withLeaf_id keys rows next) h]
  split_ifs with hid
  · rw [hid, Option.map_map]
    rfl
  · rfl

end Assign

/-! ## New pages -/

section Create

variable (isLeaf : Bool) (parent : ℕ)

theorem ids_createPage :
    (createPage file isLeaf parent).2.ids = file.ids ++ [file.lastPage + 1] := by
  unfold ids createPage
  rw [List.map_append]
  rfl

/-- A new page is found at its position when its id is new. -/
theorem getPage_createPage (h : file.lastPage + 1 ∉ file.ids) :
    getPage (createPage file isLeaf parent).2 (file.lastPage + 1)
      = some (createPage file isLeaf parent).1 := by
  have hnone : file.ids.findIdx? (fun i => decide (i = file.lastPage + 1)) = none := by
    rw [List.findIdx?_eq_none_iff]
    intro i hi
    exact decide_eq_false fun heq => h (heq ▸ hi)
  rw [getPage_eq, ids_createPage, List.findIdx?_append, hnone]
  simp [createPage, ids]

/-- The other pages stay where they are. -/
theorem getPage_createPage_of_some (h : getPage file id = some ptr) :
    getPage (createPage file isLeaf parent).2 id = some ptr := by
  rw [getPage_eq] at h
  rw [getPage_eq, ids_createPage, List.findIdx?_append, h]
  rfl

/-- The new page. -/
theorem deref_createPage :
    deref (createPage file isLeaf parent).2 (createPage file isLeaf parent).1
      = .ok { id := file.lastPage + 1, parent := parent, indexId := file.indexId, isLeaf := isLeaf
              data := if isLeaf then .leaf {} else .internal {} } := by
  simp [deref, createPage]

/-- A new page hides no other. -/
theorem page?_createPage (h : file.lastPage + 1 ∉ file.ids) (id' : ℕ) :
    (createPage file isLeaf parent).2.page? id' = if id' = file.lastPage + 1
      then some { id := file.lastPage + 1, parent := parent, indexId := file.indexId
                  isLeaf := isLeaf, data := if isLeaf then .leaf {} else .internal {} }
      else file.page? id' := by
  have hold : file.page? id' = file.pages.find? fun p => p.id = id' := rfl
  show (file.pages ++ [_]).find? _ = _
  rw [List.find?_append, ← hold]
  by_cases hid : id' = file.lastPage + 1
  · rw [if_pos hid, hid, page?_eq_none h]
    simp
  · rw [if_neg hid]
    have hnew : ¬ file.lastPage + 1 = id' := fun heq => hid heq.symm
    simp [hnew]

theorem dataOf_createPage (h : file.lastPage + 1 ∉ file.ids) (id' : ℕ) :
    (createPage file isLeaf parent).2.dataOf id' = if id' = file.lastPage + 1
      then some (isLeaf, if isLeaf then .leaf {} else .internal {}) else file.dataOf id' := by
  unfold dataOf
  rw [page?_createPage isLeaf parent h]
  split_ifs <;> rfl

theorem parentOf_createPage (h : file.lastPage + 1 ∉ file.ids) (id' : ℕ) :
    (createPage file isLeaf parent).2.parentOf id' = if id' = file.lastPage + 1
      then some parent else file.parentOf id' := by
  unfold parentOf
  rw [page?_createPage isLeaf parent h]
  split_ifs <;> rfl

end Create

end IndexFile

/-! ## The stored nodes -/

/-- The leaves are stored, linked in this order. -/
def LeavesStored (file : IndexFile) : List LeafBlock → Prop
  | [] => True
  | l :: ls => file.dataOf l.id = some (true, .leaf ⟨l.keys, l.rows, nextLeafId ls⟩)
      ∧ LeavesStored file ls

namespace LeavesStored

variable {file file' : IndexFile} {leaves A B : List LeafBlock} {l : LeafBlock}

/-- What the leaves hold depends on their pages only. -/
theorem congr (h : LeavesStored file leaves)
    (heq : ∀ l ∈ leaves, file'.dataOf l.id = file.dataOf l.id) : LeavesStored file' leaves := by
  induction leaves with
  | nil => trivial
  | cons l ls ih =>
    refine ⟨?_, ih h.2 fun l' hl' => heq l' (List.mem_cons_of_mem l hl')⟩
    rw [heq l List.mem_cons_self]
    exact h.1

theorem right (h : LeavesStored file (A ++ B)) : LeavesStored file B := by
  induction A with
  | nil => exact h
  | cons a A ih => exact ih h.2

/-- What a leaf holds. -/
theorem dataOf_mid (h : LeavesStored file (A ++ l :: B)) :
    file.dataOf l.id = some (true, .leaf ⟨l.keys, l.rows, nextLeafId B⟩) := h.right.1

/-- A stretch of leaves may be replaced by one that starts with the same id. -/
theorem replace {X Y : List LeafBlock} (h : LeavesStored file (A ++ X)) (h' : LeavesStored file' Y)
    (hid : nextLeafId Y = nextLeafId X) (heq : ∀ l ∈ A, file'.dataOf l.id = file.dataOf l.id) :
    LeavesStored file' (A ++ Y) := by
  induction A with
  | nil => exact h'
  | cons a A ih =>
    refine ⟨?_, ih h.2 fun l hl => heq l (List.mem_cons_of_mem a hl)⟩
    have hnext : nextLeafId (A ++ Y) = nextLeafId (A ++ X) := by
      cases A with
      | nil => exact hid
      | cons a' A => rfl
    show file'.dataOf a.id = some (true, .leaf ⟨a.keys, a.rows, nextLeafId (A ++ Y)⟩)
    rw [heq a List.mem_cons_self, hnext]
    exact h.1

end LeavesStored

/-- **The file stores these leaves and these internal nodes.** -/
structure Stored (file : IndexFile) (leaves : List LeafBlock) (blocks : List IndexBlock) :
    Prop where
  ids : file.ids.Perm (leaves.map LeafBlock.id ++ blocks.map Block.id)
  nodup : file.ids.Nodup
  bound : ∀ i ∈ file.ids, 0 < i ∧ i ≤ file.lastPage
  leaves : LeavesStored file leaves
  node : ∀ b ∈ blocks, file.dataOf b.id = some (false, .internal ⟨b.keys, b.children⟩)
  parent : ∀ b ∈ blocks, ∀ c ∈ b.children, file.parentOf c = some b.id
  distinct : ∀ b ∈ blocks, b.children.Nodup

namespace Stored

open BPIndexPager IndexFile

variable {file file' : IndexFile} {leaves : List LeafBlock} {blocks bs bs' : List IndexBlock}
  {b : IndexBlock} {ptr : ℕ}

theorem perm (h : Stored file leaves bs) (hperm : bs'.Perm bs) : Stored file leaves bs' where
  ids := h.ids.trans ((hperm.map Block.id).symm.append_left _)
  nodup := h.nodup
  bound := h.bound
  leaves := h.leaves
  node b hb := h.node b (hperm.subset hb)
  parent b hb := h.parent b (hperm.subset hb)
  distinct b hb := h.distinct b (hperm.subset hb)

theorem nodup_nodes (h : Stored file leaves bs) :
    (leaves.map LeafBlock.id ++ bs.map Block.id).Nodup := h.ids.nodup_iff.mp h.nodup

theorem leaf_mem (h : Stored file leaves bs) {l : LeafBlock} (hl : l ∈ leaves) :
    l.id ∈ file.ids :=
  h.ids.mem_iff.mpr (List.mem_append_left _ (List.mem_map_of_mem hl))

theorem block_mem (h : Stored file leaves bs) (hb : b ∈ bs) : b.id ∈ file.ids :=
  h.ids.mem_iff.mpr (List.mem_append_right _ (List.mem_map_of_mem hb))

/-- The next id is new. -/
theorem next_not_mem (h : Stored file leaves bs) : file.lastPage + 1 ∉ file.ids := by
  intro hmem
  have := (h.bound _ hmem).2
  omega

/-- A page with a parent is a page. -/
theorem mem_of_parentOf {c q : ℕ} (hc : file.parentOf c = some q) : c ∈ file.ids := by
  by_contra hnot
  rw [parentOf, page?_eq_none hnot] at hc
  exact absurd hc (by simp)

theorem child_mem (h : Stored file leaves bs) (hb : b ∈ bs) {c : ℕ} (hc : c ∈ b.children) :
    c ∈ file.ids := mem_of_parentOf (h.parent b hb c hc)

/-- No leaf is an internal node. -/
theorem leaf_ne_block (h : Stored file leaves bs) {l : LeafBlock} (hl : l ∈ leaves) (hb : b ∈ bs) :
    l.id ≠ b.id :=
  (List.nodup_append.mp h.nodup_nodes).2.2 _ (List.mem_map_of_mem hl) _ (List.mem_map_of_mem hb)

/-- The head of the list of nodes is none of the others. -/
theorem block_ne_tail (h : Stored file leaves (b :: bs)) {b' : IndexBlock} (hb' : b' ∈ bs) :
    b'.id ≠ b.id := by
  have hnodup := (List.nodup_append.mp h.nodup_nodes).2.1
  rw [List.map_cons, List.nodup_cons] at hnodup
  intro heq
  exact hnodup.1 (heq ▸ List.mem_map_of_mem hb')

/-- Two nodes have no child in common. -/
theorem child_not_tail (h : Stored file leaves (b :: bs)) {b' : IndexBlock} (hb' : b' ∈ bs)
    {c : ℕ} (hc : c ∈ b.children) : c ∉ b'.children := by
  intro hc'
  have h₁ := h.parent b List.mem_cons_self c hc
  have h₂ := h.parent b' (List.mem_cons_of_mem b hb') c hc'
  rw [h₁, Option.some.injEq] at h₂
  exact h.block_ne_tail hb' h₂.symm

/-- A page is a leaf or an internal node, as the lists say. -/
theorem page_cases (h : Stored file leaves bs) {p : IndexPage} (hp : p ∈ file.pages) :
    (∃ A l B, leaves = A ++ l :: B ∧ p.id = l.id ∧ p.isLeaf = true
        ∧ p.data = .leaf ⟨l.keys, l.rows, nextLeafId B⟩)
      ∨ ∃ b ∈ bs, p.id = b.id ∧ p.isLeaf = false ∧ p.data = .internal ⟨b.keys, b.children⟩ := by
  have hpage := page?_of_mem h.nodup hp
  have hmem := h.ids.mem_iff.mp (List.mem_map_of_mem hp : p.id ∈ file.ids)
  rcases List.mem_append.mp hmem with hl | hb
  · obtain ⟨l, hl, hid⟩ := List.mem_map.mp hl
    obtain ⟨A, B, rfl⟩ := List.append_of_mem hl
    have hdata := h.leaves.dataOf_mid
    rw [hid, dataOf, hpage, Option.map_some, Option.some.injEq, Prod.mk.injEq] at hdata
    exact .inl ⟨A, l, B, rfl, hid.symm, hdata.1, hdata.2⟩
  · obtain ⟨b, hb, hid⟩ := List.mem_map.mp hb
    have hdata := h.node b hb
    rw [hid, dataOf, hpage, Option.map_some, Option.some.injEq, Prod.mk.injEq] at hdata
    exact .inr ⟨b, hb, hid.symm, hdata.1, hdata.2⟩

/-- Every stored leaf has its page. -/
theorem exists_page_leaf (h : Stored file leaves bs) {l : LeafBlock} (hl : l ∈ leaves) :
    ∃ p ∈ file.pages, p.id = l.id ∧ p.isLeaf = true := by
  obtain ⟨p, hp, hid⟩ := List.mem_map.mp (h.leaf_mem hl)
  refine ⟨p, hp, hid, ?_⟩
  rcases h.page_cases hp with ⟨A, l', B, -, -, hleaf, -⟩ | ⟨b, hb, hid', -, -⟩
  · exact hleaf
  · exact absurd (hid.symm.trans hid') (h.leaf_ne_block hl hb)

/-- Every stored internal node has its page. -/
theorem exists_page_block (h : Stored file leaves bs) (hb : b ∈ bs) :
    ∃ p ∈ file.pages, p.id = b.id ∧ p.data = .internal ⟨b.keys, b.children⟩ := by
  obtain ⟨p, hp, hid⟩ := List.mem_map.mp (h.block_mem hb)
  have hdata := h.node b hb
  rw [← hid, dataOf, page?_of_mem h.nodup hp, Option.map_some, Option.some.injEq,
    Prod.mk.injEq] at hdata
  exact ⟨p, hp, hid, hdata.2⟩

/-- A page without parent is nobody's child. -/
theorem root_not_child (h : Stored file leaves bs) {r : ℕ} (hr : file.parentOf r = some 0)
    (hb : b ∈ bs) : r ∉ b.children := by
  intro hc
  have hparent := h.parent b hb r hc
  rw [hr, Option.some.injEq] at hparent
  have := (h.bound _ (h.block_mem hb)).1
  omega

/-! ### Internal nodes -/

/-- **Hanging a page below a node**: `insert_into_parent` without overflow. -/
theorem insertChild (h : Stored file leaves (b :: bs)) {i : ℕ} (hi : i ≤ b.rest.length)
    {e : DataToken × ℕ} {rightPtr : ℕ} (hptr : getPage file b.id = some ptr)
    (hright : getPage file e.2 = some rightPtr) (hmem : e.2 ∈ file.ids)
    (hfresh : ∀ b' ∈ b :: bs, e.2 ∉ b'.children) :
    Stored (assign (assign file ptr (.withInternal (b.keys.insertIdx i e.1)
        (b.children.insertIdx (i + 1) e.2))) rightPtr (.withParent b.id))
      leaves (b.insertAt i e :: bs)
    ∧ ∀ j, j ≠ e.2 → (assign (assign file ptr (.withInternal (b.keys.insertIdx i e.1)
        (b.children.insertIdx (i + 1) e.2))) rightPtr (.withParent b.id)).parentOf j
          = file.parentOf j := by
  rw [← b.keys_insertAt hi, ← b.children_insertAt hi]
  generalize hf₁ : assign file ptr
    (.withInternal (b.insertAt i e).keys (b.insertAt i e).children) = file₁
  have hids₁ : file₁.ids = file.ids := by
    rw [← hf₁, ids_assign (IndexPage.withInternal_id _ _)]
  have hright₁ : getPage file₁ e.2 = some rightPtr := by
    rw [← hf₁, getPage_assign (IndexPage.withInternal_id _ _), hright]
  have hdata : ∀ j, (assign file₁ rightPtr (.withParent b.id)).dataOf j
      = if j = b.id then some (false, .internal ⟨(b.insertAt i e).keys, (b.insertAt i e).children⟩)
        else file.dataOf j := by
    intro j
    rw [dataOf_assign_withParent hright₁, ← hf₁, dataOf_assign_withInternal hptr,
      h.node b List.mem_cons_self]
    rfl
  have hparent : ∀ j, (assign file₁ rightPtr (.withParent b.id)).parentOf j
      = if j = e.2 then some b.id else file.parentOf j := by
    intro j
    rw [parentOf_assign_withParent hright₁ (hids₁ ▸ hmem), ← hf₁,
      parentOf_assign_withInternal hptr]
  have hids : (assign file₁ rightPtr (.withParent b.id)).ids = file.ids := by
    rw [ids_assign (IndexPage.withParent_id _), hids₁]
  have hlast : (assign file₁ rightPtr (.withParent b.id)).lastPage = file.lastPage := by
    rw [← hf₁]
    rfl
  refine ⟨⟨?_, ?_, ?_, ?_, ?_, ?_, ?_⟩, fun j hj => by rw [hparent, if_neg hj]⟩
  · rw [hids]
    exact h.ids
  · rw [hids]
    exact h.nodup
  · rw [hids, hlast]
    exact h.bound
  · refine h.leaves.congr fun l hl => ?_
    rw [hdata, if_neg (h.leaf_ne_block hl List.mem_cons_self)]
  · intro b' hb'
    rw [hdata]
    rcases List.mem_cons.mp hb' with rfl | hb'
    · exact if_pos rfl
    · rw [if_neg (h.block_ne_tail hb'), h.node b' (List.mem_cons_of_mem b hb')]
  · intro b' hb' c hc
    rw [hparent]
    rcases List.mem_cons.mp hb' with rfl | hb'
    · split_ifs with hce
      · rfl
      · -- an old child of the node
        rw [b.children_insertAt hi] at hc
        rcases List.eq_or_mem_of_mem_insertIdx hc with hc | hc
        · exact absurd hc hce
        · exact h.parent b List.mem_cons_self c hc
    · have hne : c ≠ e.2 := fun heq => hfresh b' (List.mem_cons_of_mem b hb') (heq ▸ hc)
      rw [if_neg hne]
      exact h.parent b' (List.mem_cons_of_mem b hb') c hc
  · intro b' hb'
    rcases List.mem_cons.mp hb' with rfl | hb'
    · have hlen : i + 1 ≤ b.children.length := by
        rw [b.length_children]
        omega
      rw [b.children_insertAt hi, (List.perm_insertIdx e.2 b.children hlen).nodup_iff,
        List.nodup_cons]
      exact ⟨hfresh b List.mem_cons_self, h.distinct b List.mem_cons_self⟩
    · exact h.distinct b' (List.mem_cons_of_mem b hb')

/-- The loop over the moved children sets their parent and nothing else. -/
theorem reparent_spec {cs : List ℕ} (hcs : ∀ c ∈ cs, c ∈ file.ids) (q : ℕ) :
    ∃ file', IndexBPlusTree.reparent file q cs = .ok file' ∧ file'.ids = file.ids
      ∧ file'.lastPage = file.lastPage ∧ file'.rootPage = file.rootPage
      ∧ (∀ j, file'.dataOf j = file.dataOf j)
      ∧ ∀ j, file'.parentOf j = if j ∈ cs then some q else file.parentOf j := by
  induction cs generalizing file with
  | nil => exact ⟨file, rfl, rfl, rfl, rfl, fun _ => rfl, fun j => by simp⟩
  | cons c cs ih =>
    have hc := hcs c List.mem_cons_self
    obtain ⟨ptr, p, hptr, -, -, -⟩ := exists_getPage hc
    have hids : (assign file ptr (.withParent q)).ids = file.ids :=
      ids_assign (IndexPage.withParent_id q) ptr
    obtain ⟨file', hok, hids', hlast, hroot, hdata, hparent⟩ :=
      @ih (assign file ptr (.withParent q))
        fun c' hc' => hids ▸ hcs c' (List.mem_cons_of_mem c hc')
    refine ⟨file', ?_, hids'.trans hids, hlast, hroot, fun j => ?_, fun j => ?_⟩
    · show (IndexBPlusTree.getPageOrThrow file c _ >>= fun ptr => _) = _
      rw [IndexBPlusTree.getPageOrThrow, hptr]
      exact hok
    · rw [hdata, dataOf_assign_withParent hptr]
    · rw [hparent, parentOf_assign_withParent hptr hc]
      by_cases hj : j ∈ cs
      · rw [if_pos hj, if_pos (List.mem_cons_of_mem c hj)]
      · simp [hj]

/-- **Splitting a node**: `split_internal_and_propagate` up to its call of
`insert_into_parent`. -/
theorem splitBlock (h : Stored file leaves (b :: bs)) {l l' : List (DataToken × ℕ)} {k : DataToken}
    {x : ℕ} (hrest : b.rest = l ++ (k, x) :: l') (hptr : getPage file b.id = some ptr) (q : ℕ) :
    ∃ file', IndexBPlusTree.reparent
        (assign (assign (createPage file false q).2 (createPage file false q).1
          (.withInternal (b.keys.drop (l.length + 1)) (b.children.drop (l.length + 1)))) ptr
          (.withInternal (b.keys.take l.length) (b.children.take (l.length + 1))))
        (file.lastPage + 1) (b.children.drop (l.length + 1)) = .ok file'
      ∧ file'.rootPage = file.rootPage ∧ file'.lastPage = file.lastPage + 1
      ∧ Stored file' leaves ({ b with rest := l }
          :: ⟨file.lastPage + 1, ⟨x, (k.rank : WithBot KeyRank)⟩, l'⟩ :: bs)
      ∧ ∀ j ∈ file.ids, j ∉ b.children → file'.parentOf j = file.parentOf j := by
  -- the halves of the keys and children are those of the two new nodes
  generalize hb₁ : ({ b with rest := l } : IndexBlock) = b₁
  generalize hb₂ : (⟨file.lastPage + 1, ⟨x, (k.rank : WithBot KeyRank)⟩, l'⟩ : IndexBlock) = b₂
  have hid₁ : b₁.id = b.id := by rw [← hb₁]
  have hid₂ : b₂.id = file.lastPage + 1 := by rw [← hb₂]
  have hkeys₁ : b.keys.take l.length = b₁.keys := by
    rw [← hb₁, Block.keys, Block.keys, hrest, List.map_append]
    exact List.take_left' (List.length_map _)
  have hchildren₁ : b.children.take (l.length + 1) = b₁.children := by
    rw [← hb₁, Block.children, Block.children, hrest, List.map_append, List.take_succ_cons]
    exact congrArg _ (List.take_left' (List.length_map _))
  have hkeys₂ : b.keys.drop (l.length + 1) = b₂.keys := by
    rw [← hb₂, Block.keys, Block.keys, hrest, List.map_append, List.map_cons,
      List.append_cons]
    exact List.drop_left' (by simp)
  have hchildren₂ : b.children.drop (l.length + 1) = b₂.children := by
    rw [← hb₂, Block.children, Block.children, hrest, List.map_append, List.drop_succ_cons]
    exact List.drop_left' (List.length_map _)
  have hsub₁ : ∀ c ∈ b₁.children, c ∈ b.children := by
    intro c hc
    exact List.mem_of_mem_take (hchildren₁ ▸ hc)
  have hsub₂ : ∀ c ∈ b₂.children, c ∈ b.children := by
    intro c hc
    exact List.mem_of_mem_drop (hchildren₂ ▸ hc)
  have hcut : b₁.children ++ b₂.children = b.children := by
    rw [← hchildren₁, ← hchildren₂, List.take_append_drop]
  have hnodup : (b₁.children ++ b₂.children).Nodup := hcut ▸ h.distinct b List.mem_cons_self
  have hdisj : ∀ c ∈ b₁.children, c ∉ b₂.children := fun c hc hc' =>
    (List.nodup_append.mp hnodup).2.2 c hc c hc' rfl
  rw [hkeys₁, hchildren₁, hkeys₂, hchildren₂]
  have hnew := h.next_not_mem
  have hbmem : b.id ∈ file.ids := h.block_mem List.mem_cons_self
  have hbne : b.id ≠ file.lastPage + 1 := fun heq => hnew (heq ▸ hbmem)
  -- the file after the two assignments
  generalize hf₃ : assign (assign (createPage file false q).2 (createPage file false q).1
    (.withInternal b₂.keys b₂.children)) ptr (.withInternal b₁.keys b₁.children) = file₃
  have hptr₁ : getPage (createPage file false q).2 (file.lastPage + 1)
      = some (createPage file false q).1 := getPage_createPage false q hnew
  have hptr₂ : getPage (assign (createPage file false q).2 (createPage file false q).1
      (.withInternal b₂.keys b₂.children)) b.id = some ptr := by
    rw [getPage_assign (IndexPage.withInternal_id _ _)]
    exact getPage_createPage_of_some false q hptr
  have hids₃ : file₃.ids = file.ids ++ [file.lastPage + 1] := by
    rw [← hf₃, ids_assign (IndexPage.withInternal_id _ _),
      ids_assign (IndexPage.withInternal_id _ _), ids_createPage]
  have hdata₃ : ∀ j, file₃.dataOf j
      = if j = b.id then some (false, .internal ⟨b₁.keys, b₁.children⟩)
        else if j = file.lastPage + 1 then some (false, .internal ⟨b₂.keys, b₂.children⟩)
        else file.dataOf j := by
    intro j
    rw [← hf₃, dataOf_assign_withInternal hptr₂]
    simp only [dataOf_assign_withInternal hptr₁, dataOf_createPage false q hnew, if_neg hbne,
      h.node b List.mem_cons_self, if_true]
    split_ifs <;> rfl
  have hparent₃ : ∀ j, file₃.parentOf j
      = if j = file.lastPage + 1 then some q else file.parentOf j := by
    intro j
    rw [← hf₃, parentOf_assign_withInternal hptr₂, parentOf_assign_withInternal hptr₁,
      parentOf_createPage false q hnew]
  have hmoved : ∀ c ∈ b₂.children, c ∈ file₃.ids := by
    intro c hc
    rw [hids₃]
    exact List.mem_append_left _ (h.child_mem List.mem_cons_self (hsub₂ c hc))
  obtain ⟨file', hok, hids, hlast, hroot, hdata, hparent⟩ :=
    reparent_spec hmoved (file.lastPage + 1)
  have hold : ∀ j ∈ file.ids, j ≠ file.lastPage + 1 := fun j hj heq => hnew (heq ▸ hj)
  refine ⟨file', hok, ?_, ?_, ⟨?_, ?_, ?_, ?_, ?_, ?_, ?_⟩, ?_⟩
  · rw [hroot, ← hf₃]
    rfl
  · rw [hlast, ← hf₃]
    rfl
  · rw [hids, hids₃]
    have hperm := h.ids.append_right [file.lastPage + 1]
    rw [List.map_cons, List.map_cons, hid₁, hid₂]
    rw [List.map_cons] at hperm
    refine hperm.trans ?_
    rw [List.append_assoc, List.cons_append]
    refine List.Perm.append_left _ (List.Perm.cons _ ?_)
    exact List.perm_append_singleton _ _
  · rw [hids, hids₃, List.nodup_append]
    refine ⟨h.nodup, by simp, fun i hi j hj => ?_⟩
    rw [List.mem_singleton.mp hj]
    exact hold i hi
  · have hlast' : file'.lastPage = file.lastPage + 1 := by
      rw [hlast, ← hf₃]
      rfl
    intro i hi
    rw [hids, hids₃] at hi
    rw [hlast']
    rcases List.mem_append.mp hi with hi | hi
    · have := h.bound i hi
      omega
    · rw [List.mem_singleton.mp hi]
      omega
  · refine h.leaves.congr fun l hl => ?_
    rw [hdata, hdata₃, if_neg (h.leaf_ne_block hl List.mem_cons_self),
      if_neg (hold _ (h.leaf_mem hl))]
  · intro b' hb'
    rw [hdata, hdata₃]
    rcases List.mem_cons.mp hb' with rfl | hb'
    · rw [if_pos hid₁]
    rcases List.mem_cons.mp hb' with rfl | hb'
    · rw [hid₂, if_neg hbne.symm, if_pos rfl]
    · have hb'' := List.mem_cons_of_mem b hb'
      rw [if_neg (h.block_ne_tail hb'), if_neg (hold _ (h.block_mem hb'')), h.node b' hb'']
  · intro b' hb' c hc
    rw [hparent, hparent₃]
    rcases List.mem_cons.mp hb' with rfl | hb'
    · rw [if_neg (hdisj c hc), hid₁,
        if_neg (hold c (h.child_mem List.mem_cons_self (hsub₁ c hc)))]
      exact h.parent b List.mem_cons_self c (hsub₁ c hc)
    rcases List.mem_cons.mp hb' with rfl | hb'
    · rw [if_pos hc, hid₂]
    · have hb'' := List.mem_cons_of_mem b hb'
      have hnot : c ∉ b₂.children := fun hc' => h.child_not_tail hb' (hsub₂ c hc') hc
      rw [if_neg hnot, if_neg (hold c (h.child_mem hb'' hc))]
      exact h.parent b' hb'' c hc
  · intro b' hb'
    rcases List.mem_cons.mp hb' with rfl | hb'
    · exact (List.nodup_append.mp hnodup).1
    rcases List.mem_cons.mp hb' with rfl | hb'
    · exact (List.nodup_append.mp hnodup).2.1
    · exact h.distinct b' (List.mem_cons_of_mem b hb')
  · intro j hj hjc
    rw [hparent, hparent₃, if_neg fun hj' => hjc (hsub₂ j hj'), if_neg (hold j hj)]

/-- **Growing a new root** above two pages that are nobody's children. -/
theorem newRoot (h : Stored file leaves bs) {left right leftPtr rightPtr : ℕ} (k : DataToken)
    (low : WithBot KeyRank) (hleft : getPage file left = some leftPtr)
    (hright : getPage file right = some rightPtr) (hlmem : left ∈ file.ids)
    (hrmem : right ∈ file.ids) (hne : left ≠ right) (hlfree : ∀ b ∈ bs, left ∉ b.children)
    (hrfree : ∀ b ∈ bs, right ∉ b.children) :
    let file₁ := assign (createPage file false 0).2 (createPage file false 0).1
      (.withInternal [k] [left, right])
    let file₂ := assign file₁ leftPtr (.withParent (file.lastPage + 1))
    let file' := setRootPageId (assign file₂ rightPtr (.withParent (file.lastPage + 1)))
      (file.lastPage + 1)
    Stored file' leaves (⟨file.lastPage + 1, ⟨left, low⟩, [(k, right)]⟩ :: bs)
      ∧ file'.parentOf (file.lastPage + 1) = some 0 := by
  intro file₁ file₂ file'
  have hnew := h.next_not_mem
  have hold : ∀ j ∈ file.ids, j ≠ file.lastPage + 1 := fun j hj heq => hnew (heq ▸ hj)
  have hptr₁ : getPage (createPage file false 0).2 (file.lastPage + 1)
      = some (createPage file false 0).1 := getPage_createPage false 0 hnew
  have hids₁ : file₁.ids = file.ids ++ [file.lastPage + 1] := by
    rw [ids_assign (IndexPage.withInternal_id _ _), ids_createPage]
  have hleft₁ : getPage file₁ left = some leftPtr := by
    rw [getPage_assign (IndexPage.withInternal_id _ _)]
    exact getPage_createPage_of_some false 0 hleft
  have hright₁ : getPage file₁ right = some rightPtr := by
    rw [getPage_assign (IndexPage.withInternal_id _ _)]
    exact getPage_createPage_of_some false 0 hright
  have hids₂ : file₂.ids = file.ids ++ [file.lastPage + 1] := by
    rw [ids_assign (IndexPage.withParent_id _), hids₁]
  have hright₂ : getPage file₂ right = some rightPtr := by
    rw [getPage_assign (IndexPage.withParent_id _), hright₁]
  have hids : file'.ids = file.ids ++ [file.lastPage + 1] :=
    (ids_assign (IndexPage.withParent_id _) rightPtr).trans hids₂
  have hdata : ∀ j, file'.dataOf j
      = if j = file.lastPage + 1 then some (false, .internal ⟨[k], [left, right]⟩)
        else file.dataOf j := by
    intro j
    show (assign file₂ rightPtr (.withParent (file.lastPage + 1))).dataOf j = _
    rw [dataOf_assign_withParent hright₂, dataOf_assign_withParent hleft₁]
    simp only [file₁, dataOf_assign_withInternal hptr₁, dataOf_createPage false 0 hnew, if_true]
    split_ifs <;> rfl
  have hparent : ∀ j, file'.parentOf j
      = if j = right then some (file.lastPage + 1)
        else if j = left then some (file.lastPage + 1)
        else if j = file.lastPage + 1 then some 0 else file.parentOf j := by
    intro j
    show (assign file₂ rightPtr (.withParent (file.lastPage + 1))).parentOf j = _
    rw [parentOf_assign_withParent hright₂ (hids₂ ▸ List.mem_append_left _ hrmem),
      parentOf_assign_withParent hleft₁ (hids₁ ▸ List.mem_append_left _ hlmem),
      parentOf_assign_withInternal hptr₁, parentOf_createPage false 0 hnew]
  refine ⟨⟨?_, ?_, ?_, ?_, ?_, ?_, ?_⟩, ?_⟩
  · rw [hids]
    refine (h.ids.append_right _).trans ?_
    rw [List.append_assoc]
    exact List.Perm.append_left _ (List.perm_append_singleton _ _)
  · rw [hids, List.nodup_append]
    refine ⟨h.nodup, by simp, fun i hi j hj => ?_⟩
    rw [List.mem_singleton.mp hj]
    exact hold i hi
  · intro i hi
    rw [hids] at hi
    show 0 < i ∧ i ≤ file.lastPage + 1
    rcases List.mem_append.mp hi with hi | hi
    · have := h.bound i hi
      omega
    · rw [List.mem_singleton.mp hi]
      omega
  · refine h.leaves.congr fun l hl => ?_
    rw [hdata, if_neg (hold _ (h.leaf_mem hl))]
  · intro b hb
    rw [hdata]
    rcases List.mem_cons.mp hb with rfl | hb
    · exact if_pos rfl
    · rw [if_neg (hold _ (h.block_mem hb)), h.node b hb]
  · intro b hb c hc
    rw [hparent]
    rcases List.mem_cons.mp hb with rfl | hb
    · have hc' : c = left ∨ c = right := by simpa [Block.children] using hc
      rcases hc' with rfl | rfl
      · rw [if_neg hne, if_pos rfl]
      · rw [if_pos rfl]
    · have hcl : c ≠ left := fun heq => hlfree b hb (heq ▸ hc)
      have hcr : c ≠ right := fun heq => hrfree b hb (heq ▸ hc)
      rw [if_neg hcr, if_neg hcl, if_neg (hold c (h.child_mem hb hc))]
      exact h.parent b hb c hc
  · intro b hb
    rcases List.mem_cons.mp hb with rfl | hb
    · simp [Block.children, hne]
    · exact h.distinct b hb
  · rw [hparent, if_neg (hold right hrmem).symm, if_neg (hold left hlmem).symm, if_pos rfl]

/-! ### Leaves -/

variable {A B : List LeafBlock} {l : LeafBlock}

/-- The other leaves are other pages. -/
theorem leaf_ne_mid (h : Stored file (A ++ l :: B) bs) {l' : LeafBlock} (hl' : l' ∈ A ++ B) :
    l'.id ≠ l.id := by
  have hnodup := (List.nodup_append.mp h.nodup_nodes).1
  rw [List.map_append, List.map_cons, List.nodup_middle, List.nodup_cons] at hnodup
  intro heq
  rw [← List.map_append] at hnodup
  exact hnodup.1 (heq ▸ List.mem_map_of_mem hl')

/-- **Changing the entries of a leaf.** -/
theorem updateLeaf (h : Stored file (A ++ l :: B) bs) (hptr : getPage file l.id = some ptr)
    (es : List (DataToken × RowPtr)) :
    let file' := assign file ptr (.withLeaf (es.map Prod.fst) (es.map Prod.snd) (nextLeafId B))
    Stored file' (A ++ ⟨l.id, es⟩ :: B) bs ∧ ∀ j, file'.parentOf j = file.parentOf j := by
  intro file'
  have hids : file'.ids = file.ids := ids_assign (IndexPage.withLeaf_id _ _ _) ptr
  have hdata : ∀ j, file'.dataOf j = if j = l.id
      then some (true, .leaf ⟨es.map Prod.fst, es.map Prod.snd, nextLeafId B⟩)
      else file.dataOf j := by
    intro j
    rw [dataOf_assign_withLeaf hptr, h.leaves.dataOf_mid]
    rfl
  have hparent : ∀ j, file'.parentOf j = file.parentOf j :=
    fun j => parentOf_assign_withLeaf hptr _ _ _ j
  have hleaf : l ∈ A ++ l :: B := by simp
  refine ⟨⟨?_, hids ▸ h.nodup, hids ▸ h.bound, ?_, ?_, ?_, h.distinct⟩, hparent⟩
  · rw [hids, List.map_append, List.map_cons]
    have hperm := h.ids
    rwa [List.map_append, List.map_cons] at hperm
  · refine h.leaves.replace ⟨?_, h.leaves.right.2.congr fun l' hl' => ?_⟩ rfl fun l' hl' => ?_
    · rw [hdata]
      exact if_pos rfl
    · rw [hdata, if_neg (h.leaf_ne_mid (List.mem_append_right A hl'))]
    · rw [hdata, if_neg (h.leaf_ne_mid (List.mem_append_left B hl'))]
  · intro b hb
    rw [hdata, if_neg (h.leaf_ne_block hleaf hb).symm, h.node b hb]
  · intro b hb c hc
    rw [hparent]
    exact h.parent b hb c hc

/-- **Splitting a leaf**: `split_leaf_and_propagate` up to its call of
`insert_into_parent`. -/
theorem splitLeaf (h : Stored file (A ++ l :: B) bs) (hptr : getPage file l.id = some ptr)
    (es es' : List (DataToken × RowPtr)) (q : ℕ) :
    let file' := assign (assign (createPage file true q).2 (createPage file true q).1
        (.withLeaf (es'.map Prod.fst) (es'.map Prod.snd) (nextLeafId B))) ptr
        (.withLeaf (es.map Prod.fst) (es.map Prod.snd) (file.lastPage + 1))
    Stored file' (A ++ ⟨l.id, es⟩ :: ⟨file.lastPage + 1, es'⟩ :: B) bs
      ∧ ∀ j ∈ file.ids, file'.parentOf j = file.parentOf j := by
  intro file'
  have hnew := h.next_not_mem
  have hold : ∀ j ∈ file.ids, j ≠ file.lastPage + 1 := fun j hj heq => hnew (heq ▸ hj)
  have hleaf : l ∈ A ++ l :: B := by simp
  have hlne : l.id ≠ file.lastPage + 1 := hold _ (h.leaf_mem hleaf)
  have hptr₁ : getPage (createPage file true q).2 (file.lastPage + 1)
      = some (createPage file true q).1 := getPage_createPage true q hnew
  have hptr₂ : getPage (assign (createPage file true q).2 (createPage file true q).1
      (.withLeaf (es'.map Prod.fst) (es'.map Prod.snd) (nextLeafId B))) l.id = some ptr := by
    rw [getPage_assign (IndexPage.withLeaf_id _ _ _)]
    exact getPage_createPage_of_some true q hptr
  have hids : file'.ids = file.ids ++ [file.lastPage + 1] := by
    rw [ids_assign (IndexPage.withLeaf_id _ _ _), ids_assign (IndexPage.withLeaf_id _ _ _),
      ids_createPage]
  have hdata : ∀ j, file'.dataOf j = if j = l.id
      then some (true, .leaf ⟨es.map Prod.fst, es.map Prod.snd, file.lastPage + 1⟩)
      else if j = file.lastPage + 1
      then some (true, .leaf ⟨es'.map Prod.fst, es'.map Prod.snd, nextLeafId B⟩)
      else file.dataOf j := by
    intro j
    rw [dataOf_assign_withLeaf hptr₂]
    simp only [dataOf_assign_withLeaf hptr₁, dataOf_createPage true q hnew, if_neg hlne,
      h.leaves.dataOf_mid, if_true]
    split_ifs <;> rfl
  have hparent : ∀ j, file'.parentOf j
      = if j = file.lastPage + 1 then some q else file.parentOf j := by
    intro j
    rw [parentOf_assign_withLeaf hptr₂, parentOf_assign_withLeaf hptr₁,
      parentOf_createPage true q hnew]
  refine ⟨⟨?_, ?_, ?_, ?_, ?_, ?_, h.distinct⟩, fun j hj => by rw [hparent, if_neg (hold j hj)]⟩
  · rw [hids, List.map_append, List.map_cons, List.map_cons]
    refine (h.ids.append_right _).trans ?_
    rw [List.map_append, List.map_cons, List.append_assoc, List.append_assoc, List.append_assoc,
      List.cons_append, List.cons_append, List.cons_append]
    refine List.Perm.append_left _ (List.Perm.cons _ ?_)
    rw [← List.append_assoc]
    exact List.perm_append_singleton _ _
  · rw [hids, List.nodup_append]
    refine ⟨h.nodup, by simp, fun i hi j hj => ?_⟩
    rw [List.mem_singleton.mp hj]
    exact hold i hi
  · intro i hi
    rw [hids] at hi
    show 0 < i ∧ i ≤ file.lastPage + 1
    rcases List.mem_append.mp hi with hi | hi
    · have := h.bound i hi
      omega
    · rw [List.mem_singleton.mp hi]
      omega
  · refine h.leaves.replace ⟨?_, ?_, h.leaves.right.2.congr fun l' hl' => ?_⟩ rfl fun l' hl' => ?_
    · rw [hdata]
      exact if_pos rfl
    · rw [hdata, if_neg hlne.symm]
      exact if_pos rfl
    · have hmem : l' ∈ A ++ l :: B := by simp [hl']
      rw [hdata, if_neg (h.leaf_ne_mid (List.mem_append_right A hl')),
        if_neg (hold _ (h.leaf_mem hmem))]
    · have hmem : l' ∈ A ++ l :: B := by simp [hl']
      rw [hdata, if_neg (h.leaf_ne_mid (List.mem_append_left B hl')),
        if_neg (hold _ (h.leaf_mem hmem))]
  · intro b hb
    rw [hdata, if_neg (h.leaf_ne_block hleaf hb).symm, if_neg (hold _ (h.block_mem hb)),
      h.node b hb]
  · intro b hb c hc
    rw [hparent, if_neg (hold c (h.child_mem hb hc))]
    exact h.parent b hb c hc

end Stored
