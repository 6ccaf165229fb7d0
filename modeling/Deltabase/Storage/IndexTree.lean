import Deltabase.Storage.IndexRep

/-!
# Walking an index up and down

The two walks of `IndexBPlusTree` over a file whose nodes hang together as a
stack of levels: `find_leaf` from the root down (`findLeafLoop_spec`), and
`insert_into_parent` with `split_internal_and_propagate` from a split page up
(`insertIntoParent_spec`). Each is an induction on the levels, with one lemma
for what a single round does: `findLeafLoop_node` on the way down, `Rising.grow`,
`Rising.link`, `Rising.finish` and `Rising.split` on the way up.

The way up is where the invariant has to be stated with care. Between two
rounds the page that was split off is stored but hangs below nobody, while its
sibling and all levels above are as before the insertion; the round at a level
finishes that level and hands at most one new page to the next.
-/

namespace IndexBPlusTree

open BPIndexPager IndexFile DataToken

variable (tree : IndexBPlusTree)

/-- A page that is there is found. -/
theorem getPageOrThrow_eq {file : IndexFile} {id ptr : ℕ} (h : getPage file id = some ptr)
    (what : String) : getPageOrThrow file id what = .ok ptr := by
  rw [getPageOrThrow, h]

section Steps

variable {file : IndexFile} {leaves : List LeafBlock} {bs : List IndexBlock} {b : IndexBlock}
  {newId : ℕ} (sep : DataToken)

/-- The page of a stored node. -/
theorem Stored.exists_page (h : Stored file leaves bs) (hb : b ∈ bs) :
    ∃ ptr p, getPage file b.id = some ptr ∧ deref file ptr = .ok p ∧ p.id = b.id
      ∧ p.isLeaf = false ∧ p.data = .internal ⟨b.keys, b.children⟩ := by
  obtain ⟨ptr, p, hptr, hderef, hid, hpage⟩ := exists_getPage (h.block_mem hb)
  have hdata := h.node b hb
  rw [dataOf, hpage, Option.map_some, Option.some.injEq, Prod.mk.injEq] at hdata
  exact ⟨ptr, p, hptr, hderef, hid, hdata.1, hdata.2⟩

/-- The page of a stored leaf. -/
theorem Stored.exists_leaf_page {A B : List LeafBlock} {l : LeafBlock}
    (h : Stored file (A ++ l :: B) bs) :
    ∃ ptr p, getPage file l.id = some ptr ∧ deref file ptr = .ok p ∧ p.id = l.id
      ∧ p.isLeaf = true ∧ p.data = .leaf ⟨l.keys, l.rows, nextLeafId B⟩ := by
  have hmem : l ∈ A ++ l :: B := by simp
  obtain ⟨ptr, p, hptr, hderef, hid, hpage⟩ := exists_getPage (h.leaf_mem hmem)
  have hdata := h.leaves.dataOf_mid
  rw [dataOf, hpage, Option.map_some, Option.some.injEq, Prod.mk.injEq] at hdata
  exact ⟨ptr, p, hptr, hderef, hid, hdata.1, hdata.2⟩

/-- The position `insert_into_parent` finds the page at. -/
theorem findIdx_children {C D : List (Item KeyRank)} {c : Item KeyRank}
    (hitems : b.items rank = C ++ c :: D) (hC : c.id ∉ C.map Item.id) :
    b.children.findIdx (fun j => decide (j = c.id)) = C.length := by
  rw [← b.map_id_items rank, hitems, List.map_append, List.map_cons, List.findIdx_append]
  have hnone : (C.map Item.id).findIdx (fun j => decide (j = c.id)) = (C.map Item.id).length :=
    List.findIdx_eq_length_of_false fun j hj => decide_eq_false fun heq => hC (heq ▸ hj)
  rw [hnone, if_neg (lt_irrefl _), List.length_map, List.findIdx_cons]
  simp

/-- **A page is hung below its parent**, right behind the page it was split
off from. -/
theorem linkIntoParent_spec (h : Stored file leaves (b :: bs)) {C D : List (Item KeyRank)}
    {c : Item KeyRank} (hitems : b.items rank = C ++ c :: D) (hC : c.id ∉ C.map Item.id)
    (hmem : newId ∈ file.ids) (hfree : ∀ b' ∈ b :: bs, newId ∉ b'.children) :
    ∃ ptr file', linkIntoParent file ⟨c.id, sep, newId⟩ b.id
        = .ok (ptr, b.rest.length + 1, file')
      ∧ getPage file' b.id = some ptr ∧ file'.rootPage = file.rootPage ∧ file'.ids = file.ids
      ∧ Stored file' leaves (b.insertAt C.length (sep, newId) :: bs)
      ∧ ∀ j, j ≠ newId → file'.parentOf j = file.parentOf j := by
  obtain ⟨ptr, p, hptr, hderef, -, hleaf, hdata⟩ := Stored.exists_page h List.mem_cons_self
  obtain ⟨rightPtr, -, hright, -, -, -⟩ := exists_getPage hmem
  have hpos := findIdx_children hitems hC
  have hlen : C.length ≤ b.rest.length := by
    have := congrArg List.length hitems
    rw [Block.items, List.length_cons, List.length_map, List.length_append,
      List.length_cons] at this
    omega
  obtain ⟨hstored, hparent⟩ := h.insertChild hlen hptr (e := (sep, newId)) hright hmem hfree
  have hright' := (getPage_assign (f := IndexPage.withInternal
    (b.keys.insertIdx C.length sep) (b.children.insertIdx (C.length + 1) newId))
    (IndexPage.withInternal_id _ _) ptr newId).trans hright
  refine ⟨ptr, _, ?_, ?_, ?_, ?_, hstored, hparent⟩
  · have hne : ¬ C.length = b.children.length := by
      rw [b.length_children]
      omega
    have hcount : (b.keys.insertIdx C.length sep).length = b.rest.length + 1 := by
      rw [List.length_insertIdx_of_le_length (by rwa [b.length_keys]), b.length_keys]
    simp only [linkIntoParent, getPageOrThrow_eq hptr, hderef, hleaf, hdata,
      IndexNode.getInternal, hpos, bind, Except.bind, pure, Except.pure, hne, hcount,
      getPageOrThrow_eq hright', if_false, Bool.false_eq_true]
  · rw [getPage_assign (IndexPage.withParent_id _), getPage_assign (IndexPage.withInternal_id _ _),
      hptr]
  · rfl
  · rw [ids_assign (IndexPage.withParent_id _), ids_assign (IndexPage.withInternal_id _ _)]

/-- **An overfull node is split** at its middle separator. -/
theorem splitInternal_spec (h : Stored file leaves (b :: bs)) {ptr : ℕ}
    (hptr : getPage file b.id = some ptr) (hpos : 0 < b.rest.length) :
    ∃ l k x l' file', b.rest = l ++ (k, x) :: l' ∧ l.length = b.rest.length / 2
      ∧ splitInternal file ptr = .ok (⟨b.id, k, file.lastPage + 1⟩, file')
      ∧ file'.rootPage = file.rootPage
      ∧ Stored file' leaves ({ b with rest := l }
          :: ⟨file.lastPage + 1, ⟨x, (k.rank : WithBot KeyRank)⟩, l'⟩ :: bs)
      ∧ ∀ j ∈ file.ids, j ∉ b.children → file'.parentOf j = file.parentOf j := by
  obtain ⟨ptr', p, hptr', hderef, hid, -, hdata⟩ := Stored.exists_page h List.mem_cons_self
  rw [hptr, Option.some.injEq] at hptr'
  subst hptr'
  have hmid : b.rest.length / 2 < b.rest.length := Nat.div_lt_self hpos (by omega)
  have hrest := List.take_append_drop (b.rest.length / 2) b.rest
  rw [List.drop_eq_getElem_cons hmid] at hrest
  generalize hl : b.rest.take (b.rest.length / 2) = l at hrest
  generalize he : b.rest[b.rest.length / 2] = e at hrest
  generalize b.rest.drop (b.rest.length / 2 + 1) = l' at hrest
  obtain ⟨k, x⟩ := e
  have hlen : l.length = b.rest.length / 2 := by
    rw [← hl, List.length_take, Nat.min_eq_left hmid.le]
  obtain ⟨file', hok, hroot, -, hstored, hparent⟩ := h.splitBlock hrest.symm hptr p.parent
  refine ⟨l, k, x, l', file', hrest.symm, hlen, ?_, hroot, hstored, hparent⟩
  have hkey : b.keys[b.rest.length / 2]? = some k := by
    rw [Block.keys, List.getElem?_map, List.getElem?_eq_getElem hmid, he]
    rfl
  rw [hlen] at hok
  simp only [splitInternal, hderef, hdata, IndexNode.getInternal, b.length_keys, hkey, bind,
    Except.bind, pure, Except.pure, deref_createPage, hok, hid]

/-- **A new root** above the two halves of the old one. -/
theorem growRoot_spec (h : Stored file leaves bs) {left : ℕ} (low : WithBot KeyRank)
    (hlmem : left ∈ file.ids) (hrmem : newId ∈ file.ids) (hne : left ≠ newId)
    (hlfree : ∀ b ∈ bs, left ∉ b.children) (hrfree : ∀ b ∈ bs, newId ∉ b.children) :
    ∃ file', growRoot file ⟨left, sep, newId⟩ = .ok file'
      ∧ file'.rootPage = file.lastPage + 1 ∧ file'.parentOf file'.rootPage = some 0
      ∧ Stored file' leaves (⟨file.lastPage + 1, ⟨left, low⟩, [(sep, newId)]⟩ :: bs) := by
  obtain ⟨leftPtr, -, hleft, -, -, -⟩ := exists_getPage hlmem
  obtain ⟨rightPtr, -, hright, -, -, -⟩ := exists_getPage hrmem
  obtain ⟨hstored, hzero⟩ := h.newRoot sep low hleft hright hlmem hrmem hne hlfree hrfree
  have hfind : ∀ {id ptr : ℕ}, getPage file id = some ptr →
      getPage (assign (createPage file false 0).2 (createPage file false 0).1
        (.withInternal [sep] [left, newId])) id = some ptr := by
    intro id ptr hid
    rw [getPage_assign (IndexPage.withInternal_id _ _)]
    exact getPage_createPage_of_some false 0 hid
  refine ⟨_, ?_, ?_, hzero, hstored⟩
  · simp only [growRoot, deref_createPage, bind, Except.bind, pure, Except.pure,
      getPageOrThrow_eq (hfind hleft), getPageOrThrow_eq (hfind hright)]
  · rfl

/-- **An overfull leaf is split** in the middle. -/
theorem splitLeaf_spec {A B : List LeafBlock} {l : LeafBlock} (h : Stored file (A ++ l :: B) bs)
    {ptr : ℕ} (hptr : getPage file l.id = some ptr) {es es' : List (DataToken × RowPtr)}
    {e : DataToken × RowPtr} (hes : l.entries = es ++ e :: es')
    (hlen : es.length = l.entries.length / 2) :
    ∃ file', splitLeaf file ptr = .ok (⟨l.id, e.1, file.lastPage + 1⟩, file')
      ∧ file'.rootPage = file.rootPage
      ∧ Stored file' (A ++ ⟨l.id, es⟩ :: ⟨file.lastPage + 1, e :: es'⟩ :: B) bs
      ∧ ∀ j ∈ file.ids, file'.parentOf j = file.parentOf j := by
  obtain ⟨ptr', p, hptr', hderef, hid, -, hdata⟩ := Stored.exists_leaf_page h
  rw [hptr, Option.some.injEq] at hptr'
  subst hptr'
  obtain ⟨hstored, hparent⟩ := h.splitLeaf hptr es (e :: es') p.parent
  refine ⟨_, ?_, ?_, hstored, hparent⟩
  · have hmid : l.keys.length / 2 = es.length := by rw [LeafBlock.keys, List.length_map, hlen]
    have hkeys : l.keys = es.map Prod.fst ++ (e :: es').map Prod.fst := by
      rw [LeafBlock.keys, hes, List.map_append]
    have hrows : l.rows = es.map Prod.snd ++ (e :: es').map Prod.snd := by
      rw [LeafBlock.rows, hes, List.map_append]
    have hkt : l.keys.take es.length = es.map Prod.fst := by
      rw [hkeys]
      exact List.take_left' (List.length_map _)
    have hkd : l.keys.drop es.length = (e :: es').map Prod.fst := by
      rw [hkeys]
      exact List.drop_left' (List.length_map _)
    have hrt : l.rows.take es.length = es.map Prod.snd := by
      rw [hrows]
      exact List.take_left' (List.length_map _)
    have hrd : l.rows.drop es.length = (e :: es').map Prod.snd := by
      rw [hrows]
      exact List.drop_left' (List.length_map _)
    simp only [splitLeaf, hderef, hdata, IndexNode.getLeaf, bind, Except.bind, pure, Except.pure,
      deref_createPage, hmid, hkt, hkd, hrt, hrd, hid]
    rfl
  · rfl

end Steps

/-! ## Up the tree -/

/-- What the tree keeps true of an internal node. -/
def BlockOk (b : IndexBlock) : Prop :=
  b.rest.length ≤ tree.maxInternalKeys ∧ ∀ k ∈ b.keys, k.WellFormed

/-- The nodes of one place in a level first, the others behind them. -/
theorem splice_perm (lo A X B R : List IndexBlock) :
    (X ++ ((lo ++ A) ++ (B ++ R))).Perm (lo ++ ((A ++ (X ++ B)) ++ R)) := by
  refine (List.perm_append_comm_assoc X (lo ++ A) (B ++ R)).trans (List.Perm.of_eq ?_)
  simp only [List.append_assoc]

/-- **Levels that stand** above `items`; `lo` are the nodes below them. -/
structure Standing (file : IndexFile) (leaves : List LeafBlock) (lo : List IndexBlock)
    (items : List (Item KeyRank)) (Ls : List (List IndexBlock)) : Prop where
  stored : Stored file leaves (lo ++ Ls.flatten)
  root : file.rootPage = chainRoot items Ls
  rootParent : file.parentOf file.rootPage = some 0
  blocks : ∀ b ∈ lo ++ Ls.flatten, tree.BlockOk b

/-- **A split on its way up**: the page of `c` has been split, and the new page is
stored below the level at hand and hangs below nobody. -/
structure Rising (file : IndexFile) (leaves : List LeafBlock) (lo : List IndexBlock)
    (P : List (Item KeyRank)) (c : Item KeyRank) (S : List (Item KeyRank))
    (Ls : List (List IndexBlock)) (newId : ℕ) : Prop
    extends Standing tree file leaves lo (P ++ c :: S) Ls where
  distinct : ((P ++ c :: S).map Item.id).Nodup
  old_mem : c.id ∈ leaves.map LeafBlock.id ++ lo.map Block.id
  new_mem : newId ∈ leaves.map LeafBlock.id ++ lo.map Block.id
  ne : c.id ≠ newId
  free : ∀ b ∈ lo ++ Ls.flatten, newId ∉ b.children

section Rising

variable {tree} {file file₁ : IndexFile} {leaves : List LeafBlock} {lo : List IndexBlock}
  {P S : List (Item KeyRank)} {c : Item KeyRank} {Ls : List (List IndexBlock)} {newId : ℕ}
  {sep : DataToken} {path : List ℕ}

/-- Both halves of a page that has been split are pages of the file. -/
theorem Rising.mem_ids (h : Rising tree file leaves lo P c S Ls newId) :
    c.id ∈ file.ids ∧ newId ∈ file.ids := by
  rw [h.stored.ids.mem_iff, h.stored.ids.mem_iff, List.map_append, ← List.append_assoc]
  exact ⟨List.mem_append_left _ h.old_mem, List.mem_append_left _ h.new_mem⟩

/-- **The page that was split was the root.** -/
theorem Rising.grow (h : Rising tree file leaves lo [] c [] [] newId)
    (hmax : 1 ≤ tree.maxInternalKeys) (hsep : sep.WellFormed) :
    ∃ file' Ls', growRoot file ⟨c.id, sep, newId⟩ = .ok file'
      ∧ Chain rank [c, ⟨newId, (sep.rank : WithBot KeyRank)⟩] Ls'
      ∧ Standing tree file' leaves lo [c, ⟨newId, (sep.rank : WithBot KeyRank)⟩] Ls' := by
  have hcfree : ∀ b ∈ lo ++ [], c.id ∉ b.children := by
    have hc0 : file.parentOf c.id = some 0 := by
      have hzero := h.rootParent
      rw [h.root] at hzero
      exact hzero
    exact fun b hb => h.stored.root_not_child hc0 hb
  obtain ⟨file', hgrow, hroot', hzero', hstored⟩ :=
    growRoot_spec sep h.stored c.low h.mem_ids.1 h.mem_ids.2 h.ne hcfree h.free
  refine ⟨file', [[⟨file.lastPage + 1, ⟨c.id, c.low⟩, [(sep, newId)]⟩]], hgrow, ⟨rfl, _, rfl⟩,
    ?_, hroot', hzero', ?_⟩
  · refine hstored.perm ?_
    simp
  · intro b hb
    rcases List.mem_append.mp hb with hb | hb
    · exact h.blocks b (List.mem_append_left _ hb)
    · simp only [List.flatten_cons, List.flatten_nil, List.append_nil, List.mem_singleton] at hb
      rw [hb]
      exact ⟨hmax, by simpa [Block.keys] using hsep⟩

variable {A B : List IndexBlock} {b : IndexBlock} {C D : List (Item KeyRank)}

/-- What an internal node is after a child has been put into it. -/
theorem BlockOk.insertAt (h : tree.BlockOk b) (hb : b.items rank = C ++ c :: D)
    (hsep : sep.WellFormed) (newId : ℕ) :
    (b.insertAt C.length (sep, newId)).rest.length = b.rest.length + 1
      ∧ ∀ k ∈ (b.insertAt C.length (sep, newId)).keys, k.WellFormed := by
  have hold := congrArg List.length hb
  simp only [Block.items, List.length_cons, List.length_map, List.length_append] at hold
  have hle : C.length ≤ b.rest.length := by omega
  constructor
  · have hnew := congrArg List.length (b.items_insertAt rank hb (sep, newId))
    simp only [Block.items, List.length_cons, List.length_map, List.length_append] at hnew
    omega
  · intro k hk
    rw [b.keys_insertAt hle] at hk
    rcases List.eq_or_mem_of_mem_insertIdx hk with rfl | hk
    · exact hsep
    · exact h.2 k hk

/-- The node above the page that was split, and the others. -/
theorem Rising.stored_node (h : Rising tree file leaves lo P c S ((A ++ b :: B) :: Ls) newId) :
    Stored file leaves (b :: ((lo ++ A) ++ (B ++ Ls.flatten)))
      ∧ ∀ b' ∈ b :: ((lo ++ A) ++ (B ++ Ls.flatten)), tree.BlockOk b' ∧ newId ∉ b'.children := by
  have hperm : (b :: ((lo ++ A) ++ (B ++ Ls.flatten))).Perm
      (lo ++ ((A ++ b :: B) :: Ls).flatten) := splice_perm lo A [b] B Ls.flatten
  exact ⟨h.stored.perm hperm, fun b' hb' =>
    ⟨h.blocks b' (hperm.subset hb'), h.free b' (hperm.subset hb')⟩⟩

/-- **The new page is hung below the node** above the page that was split. The root is at
this level or above it, the new page below, so the root still hangs below nobody. -/
theorem Rising.link (h : Rising tree file leaves lo (A.flatMap (Block.items rank) ++ C) c
      (D ++ B.flatMap (Block.items rank)) ((A ++ b :: B) :: Ls) newId)
    (hb : b.items rank = C ++ c :: D)
    (hup : Located rank (A.map Block.item) b.item (B.map Block.item) Ls path) (sep : DataToken) :
    ∃ ptr file₁, linkIntoParent file ⟨c.id, sep, newId⟩ b.id = .ok (ptr, b.rest.length + 1, file₁)
      ∧ getPage file₁ b.id = some ptr ∧ file₁.rootPage = file.rootPage
      ∧ file₁.parentOf file₁.rootPage = some 0
      ∧ Stored file₁ leaves
          (b.insertAt C.length (sep, newId) :: ((lo ++ A) ++ (B ++ Ls.flatten))) := by
  have hC : c.id ∉ C.map Item.id := by
    intro hmem
    have hdist := h.distinct
    rw [List.map_append, List.map_cons, List.map_append] at hdist
    exact (List.nodup_append.mp hdist).2.2 _ (List.mem_append_right _ hmem) _
      List.mem_cons_self rfl
  have hrootmem : file.rootPage ∈ (A ++ b :: B).map Block.id ++ Ls.flatten.map Block.id := by
    have hmem := hup.chain.root_mem
    rw [← List.map_cons, ← List.map_append, List.map_map] at hmem
    rw [h.root, chainRoot]
    exact hmem
  have hrootne : file.rootPage ≠ newId := by
    have hnodup := h.stored.nodup_nodes
    rw [List.map_append, ← List.append_assoc, List.flatten_cons, List.map_append] at hnodup
    exact fun heq => (List.nodup_append.mp hnodup).2.2 _ h.new_mem _ hrootmem heq.symm
  obtain ⟨hst, hnodes⟩ := h.stored_node
  obtain ⟨ptr, file₁, hlink, hptr, hroot, -, hst₁, hparent⟩ :=
    linkIntoParent_spec sep hst hb hC h.mem_ids.2 fun b' hb' => (hnodes b' hb').2
  refine ⟨ptr, file₁, hlink, hptr, hroot, ?_, hst₁⟩
  rw [hroot, hparent _ hrootne, h.rootParent]

/-- **The node has room**, and the split is at its end. -/
theorem Rising.finish (h : Rising tree file leaves lo (A.flatMap (Block.items rank) ++ C) c
      (D ++ B.flatMap (Block.items rank)) ((A ++ b :: B) :: Ls) newId)
    (hb : b.items rank = C ++ c :: D)
    (hup : Located rank (A.map Block.item) b.item (B.map Block.item) Ls path)
    (hsep : sep.WellFormed) (hroot : file₁.rootPage = file.rootPage)
    (hzero : file₁.parentOf file₁.rootPage = some 0)
    (hst : Stored file₁ leaves
      (b.insertAt C.length (sep, newId) :: ((lo ++ A) ++ (B ++ Ls.flatten))))
    (hfits : b.rest.length + 1 ≤ tree.maxInternalKeys) :
    let items := A.flatMap (Block.items rank) ++ C
      ++ c :: ⟨newId, (sep.rank : WithBot KeyRank)⟩ :: (D ++ B.flatMap (Block.items rank))
    Chain rank items ((A ++ b.insertAt C.length (sep, newId) :: B) :: Ls)
      ∧ Standing tree file₁ leaves lo items
          ((A ++ b.insertAt C.length (sep, newId) :: B) :: Ls) := by
  intro items
  have hperm := splice_perm lo A [b.insertAt C.length (sep, newId)] B Ls.flatten
  obtain ⟨-, hnodes⟩ := h.stored_node
  obtain ⟨hlen, hwf⟩ := (hnodes b List.mem_cons_self).1.insertAt hb hsep newId
  have hitems : (b.insertAt C.length (sep, newId)).items rank
      = C ++ c :: ⟨newId, (sep.rank : WithBot KeyRank)⟩ :: D :=
    b.items_insertAt rank hb (sep, newId)
  refine ⟨⟨?_, ?_⟩, hst.perm hperm.symm, ?_, hzero, fun b' hb' => ?_⟩
  · rw [List.flatMap_append, List.flatMap_cons, hitems]
    simp [items]
  · have hchain := hup.chain
    rwa [← b.insertAt_item C.length (sep, newId), ← List.map_cons, ← List.map_append] at hchain
  · rw [hroot, h.root, chainRoot, chainRoot, List.map_append, List.map_append, List.map_cons,
      List.map_cons, b.insertAt_item]
  · rcases List.mem_cons.mp (hperm.symm.subset hb') with rfl | hb'
    · exact ⟨hlen.trans_le hfits, hwf⟩
    · exact (hnodes b' (List.mem_cons_of_mem _ hb')).1

/-- **The node is full**: it is split, and its new half rises to the level above. -/
theorem Rising.split (h : Rising tree file leaves lo (A.flatMap (Block.items rank) ++ C) c
      (D ++ B.flatMap (Block.items rank)) ((A ++ b :: B) :: Ls) newId)
    (hb : b.items rank = C ++ c :: D) (hsep : sep.WellFormed) {ptr : ℕ}
    (hptr : getPage file₁ b.id = some ptr) (hroot : file₁.rootPage = file.rootPage)
    (hzero : file₁.parentOf file₁.rootPage = some 0)
    (hst : Stored file₁ leaves
      (b.insertAt C.length (sep, newId) :: ((lo ++ A) ++ (B ++ Ls.flatten))))
    (hover : tree.maxInternalKeys < b.rest.length + 1) :
    ∃ k b₁ b₂ file₂, splitInternal file₁ ptr = .ok (⟨b.id, k, file₁.lastPage + 1⟩, file₂)
      ∧ k.WellFormed ∧ b₁.item = b.item
      ∧ b₂.item = ⟨file₁.lastPage + 1, (k.rank : WithBot KeyRank)⟩
      ∧ b₁.items rank ++ b₂.items rank
          = C ++ c :: ⟨newId, (sep.rank : WithBot KeyRank)⟩ :: D
      ∧ Rising tree file₂ leaves (lo ++ (A ++ b₁ :: b₂ :: B)) (A.map Block.item) b.item
          (B.map Block.item) Ls (file₁.lastPage + 1) := by
  have hitems := b.items_insertAt rank hb (sep, newId)
  obtain ⟨-, hnodes⟩ := h.stored_node
  have hbok := (hnodes b List.mem_cons_self).1
  obtain ⟨hlen, hwf⟩ := hbok.insertAt hb hsep newId
  have hbsize := hbok.1
  obtain ⟨l, k, x, l', file₂, hrest, hl, hsplit, hroot₂, hst₂, hparent₂⟩ :=
    splitInternal_spec hst hptr (by omega)
  generalize hb₁ : ({ b.insertAt C.length (sep, newId) with rest := l } : IndexBlock) = b₁
    at hst₂
  generalize hb₂ : (⟨file₁.lastPage + 1, ⟨x, (k.rank : WithBot KeyRank)⟩, l'⟩ : IndexBlock)
    = b₂ at hst₂
  have hcut := Block.items_cut rank (b.insertAt C.length (sep, newId)) hrest (file₁.lastPage + 1)
  rw [hb₁, hb₂, hitems] at hcut
  have hsum := congrArg List.length hrest
  rw [hlen, List.length_append, List.length_cons] at hsum
  rw [hlen] at hl
  -- the halves and the key between them
  have hkeys : ∀ k' ∈ l.map Prod.fst ++ k :: l'.map Prod.fst, k'.WellFormed := fun k' hk' =>
    hwf k' (by rwa [Block.keys, hrest, List.map_append, List.map_cons])
  have hok₁ : tree.BlockOk b₁ := by
    rw [← hb₁]
    exact ⟨show l.length ≤ _ by omega, fun k' hk' => hkeys k' (List.mem_append_left _ hk')⟩
  have hok₂ : tree.BlockOk b₂ := by
    rw [← hb₂]
    exact ⟨show l'.length ≤ _ by omega,
      fun k' hk' => hkeys k' (List.mem_append_right _ (List.mem_cons_of_mem _ hk'))⟩
  have hid₁ : b₁.item = b.item := by rw [← hb₁]; rfl
  have hid₂ : b₂.item = ⟨file₁.lastPage + 1, (k.rank : WithBot KeyRank)⟩ := by rw [← hb₂]; rfl
  -- the children of all nodes are old pages
  have hchild : ∀ b' ∈ b₁ :: b₂ :: ((lo ++ A) ++ (B ++ Ls.flatten)),
      ∀ j ∈ b'.children, j ∈ file₁.ids := by
    have hall : b₁.children ++ b₂.children = (b.insertAt C.length (sep, newId)).children := by
      rw [← Block.map_id_items rank, ← Block.map_id_items rank, ← Block.map_id_items rank,
        ← List.map_append, hcut, hitems]
    intro b' hb' j hj
    rcases List.mem_cons.mp hb' with rfl | hb'
    · exact hst.child_mem List.mem_cons_self (hall ▸ List.mem_append_left _ hj)
    rcases List.mem_cons.mp hb' with rfl | hb'
    · exact hst.child_mem List.mem_cons_self (hall ▸ List.mem_append_right _ hj)
    · exact hst.child_mem (List.mem_cons_of_mem _ hb') hj
  have hbid : b.id ∈ file₁.ids := hst.block_mem (b := b.insertAt C.length (sep, newId))
    List.mem_cons_self
  have hperm : (b₁ :: b₂ :: ((lo ++ A) ++ (B ++ Ls.flatten))).Perm
      ((lo ++ (A ++ b₁ :: b₂ :: B)) ++ Ls.flatten) :=
    (splice_perm lo A [b₁, b₂] B Ls.flatten).trans
      (List.Perm.of_eq (List.append_assoc _ _ _).symm)
  have hin₁ : b₁ ∈ lo ++ (A ++ b₁ :: b₂ :: B) := by simp
  have hin₂ : b₂ ∈ lo ++ (A ++ b₁ :: b₂ :: B) := by simp
  have hid₁' : b.item.id = b₁.id := congrArg Item.id hid₁.symm
  have hid₂' : file₁.lastPage + 1 = b₂.id := congrArg Item.id hid₂.symm
  refine ⟨k, b₁, b₂, file₂, hsplit, hkeys k (by simp), hid₁, hid₂, hcut,
    { stored := hst₂.perm hperm.symm, root := ?_, rootParent := ?_, blocks := fun b' hb' => ?_
      distinct := ?_
      old_mem := List.mem_append_right _ (hid₁' ▸ List.mem_map_of_mem hin₁)
      new_mem := List.mem_append_right _ (hid₂' ▸ List.mem_map_of_mem hin₂)
      ne := fun heq => hst.next_not_mem (heq ▸ hbid)
      free := fun b' hb' hj => hst.next_not_mem (hchild b' (hperm.symm.subset hb') _ hj) }⟩
  · rw [hroot₂, hroot, h.root, chainRoot, List.map_append, List.map_cons]
  · rw [hroot₂, hparent₂ _ (Stored.mem_of_parentOf hzero)
      (hst.root_not_child hzero List.mem_cons_self), hzero]
  · rcases List.mem_cons.mp (hperm.symm.subset hb') with rfl | hb'
    · exact hok₁
    rcases List.mem_cons.mp hb' with rfl | hb'
    · exact hok₂
    · exact (hnodes b' (List.mem_cons_of_mem _ hb')).1
  · have hnodup := (List.nodup_append.mp h.stored.nodup_nodes).2.1
    rw [List.map_append, List.flatten_cons, List.map_append] at hnodup
    rw [← List.map_cons, ← List.map_append, List.map_map]
    exact (List.nodup_append.mp (List.nodup_append.mp hnodup).2.1).1

/-- **A split travels up the tree.** The levels `Ls` stand above the items
`P ++ c :: S`; when the page of `c` has been split and the new page is to
follow it, `insert_into_parent` ends with levels that stand above
`P ++ c :: new :: S`. By induction on the levels; the nodes below the level at
hand, `lo`, are not touched. -/
theorem insertIntoParent_spec (hloc : Located rank P c S Ls path)
    (h : Rising tree file leaves lo P c S Ls newId) (hmax : 1 ≤ tree.maxInternalKeys)
    (hsep : sep.WellFormed) :
    ∃ file' Ls', tree.insertIntoParent file ⟨c.id, sep, newId⟩ (c.id :: path) = .ok file'
      ∧ Chain rank (P ++ c :: ⟨newId, (sep.rank : WithBot KeyRank)⟩ :: S) Ls'
      ∧ Standing tree file' leaves lo (P ++ c :: ⟨newId, (sep.rank : WithBot KeyRank)⟩ :: S)
          Ls' := by
  induction Ls generalizing P S c path file lo sep newId with
  | nil =>
    obtain ⟨rfl, rfl, rfl⟩ := hloc
    exact h.grow hmax hsep
  | cons L Ls ih =>
    obtain ⟨A, b, B, C, D, path', rfl, hb, rfl, rfl, rfl, hup⟩ := hloc
    obtain ⟨ptr, file₁, hlink, hptr, hroot, hzero, hst⟩ := h.link hb hup sep
    by_cases hover : b.rest.length + 1 > tree.maxInternalKeys
    · obtain ⟨k, b₁, b₂, file₂, hsplit, hk, hid₁, hid₂, hcut, hrising⟩ :=
        h.split hb hsep hptr hroot hzero hst hover
      obtain ⟨file₃, Ls', hins, hchain, hstands⟩ := ih hup hrising hk
      have hmap : (A ++ b₁ :: b₂ :: B).map Block.item = A.map Block.item
          ++ b.item :: ⟨file₁.lastPage + 1, (k.rank : WithBot KeyRank)⟩ :: B.map Block.item := by
        rw [List.map_append, List.map_cons, List.map_cons, hid₁, hid₂]
      have hflat : lo ++ ((A ++ b₁ :: b₂ :: B) :: Ls').flatten
          = (lo ++ (A ++ b₁ :: b₂ :: B)) ++ Ls'.flatten := by simp
      refine ⟨file₃, (A ++ b₁ :: b₂ :: B) :: Ls', ?_, ⟨?_, ?_⟩, ?_, ?_, hstands.rootParent, ?_⟩
      · simp only [insertIntoParent, hlink, bind, Except.bind, if_pos hover, hsplit]
        exact hins
      · rw [List.flatMap_append, List.flatMap_cons, List.flatMap_cons,
          ← List.append_assoc (b₁.items rank), hcut]
        simp
      · rw [hmap]
        exact hchain
      · rw [hflat]
        exact hstands.stored
      · rw [hstands.root, chainRoot, hmap]
      · rw [hflat]
        exact hstands.blocks
    · obtain ⟨hchain, hstands⟩ := h.finish hb hup hsep hroot hzero hst (not_lt.mp hover)
      refine ⟨file₁, _, ?_, hchain, hstands⟩
      simp only [insertIntoParent, hlink, bind, Except.bind, pure, Except.pure, if_neg hover]

end Rising

/-! ## Down the tree -/

section Descend

variable {file : IndexFile} {leaves : List LeafBlock} {bs : List IndexBlock} {key : DataToken}

/-- One round of `find_leaf` at an internal node. -/
theorem findLeafLoop_node (h : Stored file leaves bs) {b : IndexBlock} (hb : b ∈ bs)
    (hwf : ∀ k ∈ b.keys, k.WellFormed) (hkey : key.WellFormed) {C D : List (Item KeyRank)}
    {c : Item KeyRank} (hitems : b.items rank = C ++ c :: D)
    (hC : C.length = b.keys.findIdx fun k => decide (key.rank < k.rank))
    {ptr ptr' : ℕ} (hptr : getPage file b.id = some ptr) (hptr' : getPage file c.id = some ptr')
    (n : ℕ) (path : List ℕ) :
    findLeafLoop file key (n + 1) ptr path = findLeafLoop file key n ptr' (b.id :: path) := by
  obtain ⟨ptr₁, p, hptr₁, hderef, hid, hleaf, hdata⟩ := Stored.exists_page h hb
  rw [hptr, Option.some.injEq] at hptr₁
  subst hptr₁
  have hidx : b.keys.findIdx (fun k => decide (¬ compareToken k key ≤ 0)) = C.length := by
    rw [hC]
    refine findIdx_congr_mem fun k hk => ?_
    rw [decide_eq_decide, compareToken_nonpos_iff (hwf k hk) hkey, not_le]
  have hchild : b.children[C.length]? = some c.id := by
    rw [← b.map_id_items rank, hitems, List.map_append, List.map_cons]
    rw [List.getElem?_append_right (by simp)]
    simp
  simp only [findLeafLoop, hderef, hleaf, hdata, IndexNode.getInternal, hidx, hchild, hid,
    getPageOrThrow_eq hptr', bind, Except.bind, Bool.false_eq_true, if_false]

/-- **The search walks down to the last item bounded by the key**, leaving the
blocks it passed in the path. By induction on the levels, from the root. -/
theorem findLeafLoop_spec {Ls : List (List IndexBlock)} (h : Stored file leaves Ls.flatten)
    (hok : ∀ b ∈ Ls.flatten, ∀ k ∈ b.keys, k.WellFormed) (hkey : key.WellFormed)
    {items : List (Item KeyRank)} {Ls' : List (List IndexBlock)}
    (hsub : ∀ b ∈ Ls'.flatten, b ∈ Ls.flatten) (hchain : Chain rank items Ls')
    (hids : ∀ c ∈ items, c.id ∈ file.ids)
    (hsorted : (items.map Item.low).Pairwise (· ≤ ·))
    (hhead : ∀ c ∈ items.head?, c.low = ⊥) {rootPtr : ℕ}
    (hroot : getPage file (chainRoot items Ls') = some rootPtr) :
    ∃ (P : List (Item KeyRank)) (c : Item KeyRank) (S : List (Item KeyRank)) (path : List ℕ)
      (ptr : ℕ), items = P ++ c :: S ∧ Located rank P c S Ls' path
      ∧ c.low ≤ (key.rank : WithBot KeyRank)
      ∧ (∀ s ∈ S, (key.rank : WithBot KeyRank) < s.low) ∧ getPage file c.id = some ptr
      ∧ ∀ n, findLeafLoop file key (n + Ls'.length) rootPtr []
          = findLeafLoop file key n ptr path := by
  induction Ls' generalizing items rootPtr with
  | nil =>
    obtain ⟨c, rfl⟩ := hchain
    refine ⟨[], c, [], [], rootPtr, rfl, ⟨rfl, rfl, rfl⟩, ?_, by simp, hroot, fun _ => rfl⟩
    rw [hhead c rfl]
    exact bot_le
  | cons L Ls' ih =>
    obtain ⟨hflat, hup⟩ := hchain
    have hL : ∀ b ∈ L, b ∈ Ls.flatten := fun b hb => hsub b (List.mem_append_left _ hb)
    have hsorted' : ((L.map Block.item).map Item.low).Pairwise (· ≤ ·) :=
      (hflat ▸ hsorted).sublist (lows_sublist L)
    have hhead' : ∀ c ∈ (L.map Block.item).head?, c.low = ⊥ := by
      cases L with
      | nil => simp
      | cons b L =>
        intro c hc
        rw [List.map_cons, List.head?_cons, Option.mem_some] at hc
        rw [← hc]
        refine hhead b.first ?_
        rw [← hflat, List.flatMap_cons, Block.items]
        rfl
    obtain ⟨A', c', B', path', ptr', hmap, hloc, hlow, hafter, hptr', hloop⟩ :=
      ih (fun b hb => hsub b (List.mem_append_right _ hb)) hup
        (fun c hc => by
          obtain ⟨b, hb, rfl⟩ := List.mem_map.mp hc
          exact h.block_mem (hL b hb))
        hsorted' hhead' hroot
    obtain ⟨A, rest, rfl, rfl, hrest⟩ := List.map_eq_append_iff.mp hmap
    obtain ⟨b, B, rfl, rfl, rfl⟩ := List.map_eq_cons_iff.mp hrest
    have hb : b ∈ Ls.flatten := hL b (by simp)
    rw [List.flatMap_append, List.flatMap_cons] at hflat
    -- within the block, the search stops at the last child bounded by the key
    obtain ⟨C, c, D, hitems, hC, hc, hD⟩ := b.exists_child rank key.rank hlow (by
      rw [← hflat, List.map_append, List.map_append] at hsorted
      exact (List.pairwise_append.mp (List.pairwise_append.mp hsorted).2.1).1)
    have hcmem : c ∈ items := by
      rw [← hflat, hitems]
      simp
    obtain ⟨ptr, -, hptr, -, -, -⟩ := exists_getPage (hids c hcmem)
    refine ⟨A.flatMap (Block.items rank) ++ C, c, D ++ B.flatMap (Block.items rank),
      b.id :: path', ptr, ?_, ⟨A, b, B, C, D, path', rfl, hitems, rfl, rfl, rfl, hloc⟩, hc, ?_,
      hptr, fun n => ?_⟩
    · rw [← hflat, hitems]
      simp
    · intro s hs
      rcases List.mem_append.mp hs with hs | hs
      · exact hD s hs
      · -- a later block starts above the key, and its items do not go back
        obtain ⟨b', hb', hs'⟩ := List.mem_flatMap.mp hs
        have hb'low := hafter b'.item (List.mem_map_of_mem hb')
        refine lt_of_lt_of_le hb'low ?_
        obtain ⟨B₁, B₂, rfl⟩ := List.append_of_mem hb'
        rw [← hflat, List.flatMap_append, List.flatMap_cons] at hsorted
        simp only [List.map_append] at hsorted
        have hblock := (List.pairwise_append.mp (List.pairwise_append.mp
          (List.pairwise_append.mp (List.pairwise_append.mp hsorted).2.1).2.1).2.1).1
        rw [Block.items, List.map_cons, List.pairwise_cons] at hblock
        rcases List.mem_cons.mp hs' with rfl | hs'
        · exact le_rfl
        · exact hblock.1 _ (List.mem_map_of_mem hs')
    · rw [List.length_cons, show n + (Ls'.length + 1) = (n + 1) + Ls'.length by ring, hloop]
      exact findLeafLoop_node h hb (hok b hb) hkey hitems hC hptr' hptr n path'

end Descend

end IndexBPlusTree
