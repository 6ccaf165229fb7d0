import Deltabase.Storage.IndexContents

/-!
# The shape of an index file

`IndexFile.WellFormed` states what a B+ tree is in terms of the pages of the
file alone: who is whose child, what the `parent` fields say, how deep the
leaves lie and how full the pages are. A file that represents a stack of levels
has that shape (`Represents.wellFormed`), and so every run of insertions keeps
it.
-/

open DataToken IndexBPlusTree

namespace IndexFile

/-- The page with this id is `d` steps below the root. -/
def AtDepth (file : IndexFile) : ℕ → ℕ → Prop
  | 0, id => id = file.rootPage
  | d + 1, id => ∃ p ∈ file.pages, id ∈ p.data.children ∧ file.AtDepth d p.id

/-- The fields of one page fit together and it is not too full. -/
def PageOk (tree : IndexBPlusTree) (p : IndexPage) : Prop :=
  match p.data with
  | .internal node => p.isLeaf = false ∧ node.children.length = node.keys.length + 1
      ∧ node.keys.length ≤ tree.maxInternalKeys
  | .leaf leaf => p.isLeaf = true ∧ leaf.rows.length = leaf.keys.length
      ∧ leaf.keys.length ≤ tree.maxLeafKeys

/-- **A well-formed B+ tree**, page by page. -/
structure WellFormed (tree : IndexBPlusTree) (file : IndexFile) : Prop where
  ids_distinct : (file.pages.map IndexPage.id).Nodup
  ids_le : ∀ p ∈ file.pages, p.id ≤ file.lastPage
  root : ∃ p ∈ file.pages, p.id = file.rootPage ∧ p.parent = 0
  root_not_child : ∀ q ∈ file.pages, file.rootPage ∉ q.data.children
  parent : ∀ p ∈ file.pages, p.id ≠ file.rootPage →
    ∃ q ∈ file.pages, q.data.children.count p.id = 1 ∧ p.parent = q.id
      ∧ ∀ q' ∈ file.pages, p.id ∈ q'.data.children → q' = q
  child : ∀ q ∈ file.pages, ∀ c ∈ q.data.children, ∃ p ∈ file.pages, p.id = c
  page : ∀ p ∈ file.pages, PageOk tree p
  depth : ∃ d, ∀ p ∈ file.pages, p.isLeaf = true → ∀ d', file.AtDepth d' p.id ↔ d' = d

end IndexFile

namespace Represents

variable {tree : IndexBPlusTree} {file : IndexFile} {leaves : List LeafBlock}
  {Ls : List (List IndexBlock)}

/-- The children of a page are those of a node. -/
theorem exists_block_of_child (h : Represents tree file leaves Ls) {q : IndexPage}
    (hq : q ∈ file.pages) {c : ℕ} (hc : c ∈ q.data.children) :
    ∃ b ∈ Ls.flatten, q.id = b.id ∧ c ∈ b.children := by
  rcases h.stored.page_cases hq with ⟨A, l, B, -, -, -, hdata⟩ | ⟨b, hb, hid, -, hdata⟩
  · rw [hdata] at hc
    exact absurd hc List.not_mem_nil
  · rw [hdata] at hc
    exact ⟨b, hb, hid, hc⟩

/-- Two pages do not share a child. -/
theorem parent_unique (h : Represents tree file leaves Ls) {q q' : IndexPage}
    (hq : q ∈ file.pages) (hq' : q' ∈ file.pages) {c : ℕ} (hc : c ∈ q.data.children)
    (hc' : c ∈ q'.data.children) : q' = q := by
  obtain ⟨b, hb, hid, hcb⟩ := h.exists_block_of_child hq hc
  obtain ⟨b', hb', hid', hcb'⟩ := h.exists_block_of_child hq' hc'
  have hsame : b'.id = b.id :=
    Option.some.inj ((h.stored.parent b' hb' c hcb').symm.trans (h.stored.parent b hb c hcb))
  exact List.inj_on_of_nodup_map h.stored.nodup hq' hq (hid'.trans (hsame.trans hid.symm))

/-- The root is nobody's child. -/
theorem root_not_child (h : Represents tree file leaves Ls) {q : IndexPage}
    (hq : q ∈ file.pages) : file.rootPage ∉ q.data.children := by
  intro hc
  obtain ⟨b, hb, -, hcb⟩ := h.exists_block_of_child hq hc
  exact h.stored.root_not_child h.rootParent hb hcb

/-- Every item is as deep as there are levels above it. By induction on the
levels. -/
theorem atDepth_of_chain (h : Represents tree file leaves Ls) {items : List (Item KeyRank)}
    {Ls' : List (List IndexBlock)} (hsub : ∀ b ∈ Ls'.flatten, b ∈ Ls.flatten)
    (hchain : Chain rank items Ls') (hroot : file.rootPage = chainRoot items Ls') :
    ∀ c ∈ items, file.AtDepth Ls'.length c.id := by
  induction Ls' generalizing items with
  | nil =>
    obtain ⟨c₀, rfl⟩ := hchain
    intro c hc
    rw [List.mem_singleton.mp hc]
    exact hroot.symm
  | cons L Ls' ih =>
    obtain ⟨hflat, hup⟩ := hchain
    intro c hc
    rw [← hflat] at hc
    obtain ⟨b, hb, hc⟩ := List.mem_flatMap.mp hc
    have hdeep := ih (fun b hb => hsub b (List.mem_append_right _ hb)) hup hroot b.item
      (List.mem_map_of_mem hb)
    obtain ⟨p, hp, hid, hdata⟩ :=
      h.stored.exists_page_block (hsub b (List.mem_append_left _ hb))
    refine ⟨p, hp, ?_, hid ▸ hdeep⟩
    rw [hdata]
    show c.id ∈ b.children
    rw [← b.map_id_items rank]
    exact List.mem_map_of_mem hc

/-- A page lies at one depth only. -/
theorem atDepth_unique (h : Represents tree file leaves Ls) {d d' id : ℕ}
    (hd : file.AtDepth d id) (hd' : file.AtDepth d' id) : d = d' := by
  induction d generalizing d' id with
  | zero =>
    cases d' with
    | zero => rfl
    | succ d' =>
      obtain ⟨q, hq, hc, -⟩ := hd'
      rw [show id = file.rootPage from hd] at hc
      exact absurd hc (h.root_not_child hq)
  | succ d ih =>
    obtain ⟨q, hq, hc, hup⟩ := hd
    cases d' with
    | zero =>
      rw [show id = file.rootPage from hd'] at hc
      exact absurd hc (h.root_not_child hq)
    | succ d' =>
      obtain ⟨q', hq', hc', hup'⟩ := hd'
      rw [h.parent_unique hq hq' hc hc'] at hup'
      rw [ih hup hup']

/-- Every page but the root hangs below exactly one page. -/
theorem exists_parent (h : Represents tree file leaves Ls) {p : IndexPage} (hp : p ∈ file.pages)
    (hne : p.id ≠ file.rootPage) :
    ∃ q ∈ file.pages, q.data.children.count p.id = 1 ∧ p.parent = q.id
      ∧ ∀ q' ∈ file.pages, p.id ∈ q'.data.children → q' = q := by
  have hmem : p.id ∈ file.rootPage :: Ls.flatten.flatMap Block.children := by
    have hperm := h.chain.root_cons_children_perm
    rw [map_id_leafItems, ← h.root] at hperm
    exact hperm.mem_iff.mpr (h.stored.ids.mem_iff.mp (List.mem_map_of_mem hp))
  obtain ⟨b, hb, hc⟩ := List.mem_flatMap.mp ((List.mem_cons.mp hmem).resolve_left hne)
  obtain ⟨q, hq, hid, hdata⟩ := h.stored.exists_page_block hb
  have hc' : p.id ∈ q.data.children := by
    rw [hdata]
    exact hc
  refine ⟨q, hq, ?_, ?_, fun q' hq' hcq' => h.parent_unique hq hq' hc' hcq'⟩
  · rw [hdata]
    exact List.count_eq_one_of_mem (h.stored.distinct b hb) hc
  · have hparent := h.stored.parent b hb _ hc
    rw [IndexFile.parentOf, IndexFile.page?_of_mem h.stored.nodup hp, Option.map_some,
      Option.some.injEq] at hparent
    rw [hparent, hid]

/-- **A file that represents a stack of levels is a well-formed B+ tree.** -/
theorem wellFormed (h : Represents tree file leaves Ls) : file.WellFormed tree where
  ids_distinct := h.stored.nodup
  ids_le p hp := (h.stored.bound _ (List.mem_map_of_mem hp)).2
  root := by
    obtain ⟨p, hp, hid⟩ := List.mem_map.mp h.root_mem
    have hparent := h.rootParent
    rw [← hid, IndexFile.parentOf, IndexFile.page?_of_mem h.stored.nodup hp, Option.map_some,
      Option.some.injEq] at hparent
    exact ⟨p, hp, hid, hparent⟩
  root_not_child q hq := h.root_not_child hq
  parent p hp hne := h.exists_parent hp hne
  child q hq c hc := by
    obtain ⟨b, hb, -, hcb⟩ := h.exists_block_of_child hq hc
    obtain ⟨p, hp, hid⟩ := List.mem_map.mp (h.stored.child_mem hb hcb)
    exact ⟨p, hp, hid⟩
  page p hp := by
    unfold IndexFile.PageOk
    rcases h.stored.page_cases hp with ⟨A, l, B, rfl, -, hleaf, hdata⟩ | ⟨b, hb, -, hleaf, hdata⟩
    · rw [hdata]
      refine ⟨hleaf, ?_, ?_⟩
      · show l.rows.length = l.keys.length
        rw [LeafBlock.rows, LeafBlock.keys, List.length_map, List.length_map]
      · show l.keys.length ≤ tree.maxLeafKeys
        rw [LeafBlock.keys, List.length_map]
        exact h.leafSize l (by simp)
    · rw [hdata]
      refine ⟨hleaf, ?_, ?_⟩
      · show b.children.length = b.keys.length + 1
        rw [b.length_children, b.length_keys]
      · show b.keys.length ≤ tree.maxInternalKeys
        rw [b.length_keys]
        exact (h.blocks b hb).1
  depth := by
    refine ⟨Ls.length, fun p hp hleaf d' => ?_⟩
    have hdeep : file.AtDepth Ls.length p.id := by
      rcases h.stored.page_cases hp with ⟨A, l, B, hsplit, hid, -, -⟩ | ⟨b, -, -, hleaf', -⟩
      · have hmem : l.id ∈ (leafItems leaves).map Item.id := by
          rw [map_id_leafItems, hsplit]
          exact List.mem_map_of_mem (by simp)
        obtain ⟨c, hc, hcid⟩ := List.mem_map.mp hmem
        rw [hid, ← hcid]
        exact h.atDepth_of_chain (fun b hb => hb) h.chain h.root c hc
      · rw [hleaf] at hleaf'
        exact absurd hleaf' (by simp)
    exact ⟨fun hd' => h.atDepth_unique hd' hdeep, fun heq => heq ▸ hdeep⟩

end Represents

/-- **Every run of insertions keeps the index a B+ tree**, and none of them,
nor any lookup after them, ends in an exception. -/
theorem insertAll_wellFormed (tree : IndexBPlusTree) (hleaf : 1 ≤ tree.maxLeafKeys)
    (hint : 2 ≤ tree.maxInternalKeys) (indexId : IndexId) (es : List (DataToken × RowPtr))
    (hwf : ∀ e ∈ es, e.1.WellFormed) :
    ∃ file, tree.insertAll (IndexFile.create indexId) es = .ok file ∧ file.WellFormed tree
      ∧ (∀ key : DataToken, key.WellFormed → ∀ row, ∃ file', tree.insert file key row = .ok file')
      ∧ ∀ key : DataToken, key.WellFormed → ∃ found, find file key = .ok found := by
  have hint' : 1 ≤ tree.maxInternalKeys := le_trans one_le_two hint
  obtain ⟨file, leaves, Ls, hall, h, -⟩ :=
    (represents_create tree indexId).insertAll hleaf hint' hwf
  refine ⟨file, hall, h.wellFormed, fun key hkey row => ?_, fun key hkey => ?_⟩
  · obtain ⟨file', -, -, -, -, hins, -⟩ := h.insert_spec hleaf hint' hkey row
    exact ⟨file', hins⟩
  · obtain ⟨hnone, hsome⟩ := h.find_spec hkey
    by_cases hex : ∃ e ∈ leafEntries leaves, e.1.rank = key.rank
    · obtain ⟨e, -, -, hfind⟩ := hsome hex
      exact ⟨_, hfind⟩
    · exact ⟨_, hnone fun e he hrank => hex ⟨e, he, hrank⟩⟩
