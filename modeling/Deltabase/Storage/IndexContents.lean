import Deltabase.Storage.IndexTree

/-!
# What an index contains

`Represents tree file leaves Ls` is the invariant of an index: its pages are
the leaves and the levels above them, the entries are sorted along the leaves,
and every separator is the rank of the first key behind it. The last point is
built into the levels: a leaf is an item bounded by its first key, except for
the first leaf, which nothing bounds.

Equal keys may end up on both sides of a separator, while a search always goes
right on equality. It still finds an equal key if there is one, because a
separator equal to the key is the first key of the leaf it leads to
(`Represents.exists_mem_leaf`); and an insertion still keeps the entries
sorted, because everything left of that leaf is at most the key.
-/

open BPIndexPager IndexFile DataToken

namespace LeafBlock

/-- The rank of the first key of a leaf. -/
def low (l : LeafBlock) : WithBot KeyRank :=
  match l.entries with
  | [] => ⊥
  | e :: _ => (e.1.rank : WithBot KeyRank)

/-- A leaf as the level above sees it. -/
def item (l : LeafBlock) : Item KeyRank := ⟨l.id, l.low⟩

end LeafBlock

/-- The leaves as items; nothing bounds the first one. -/
def leafItems : List LeafBlock → List (Item KeyRank)
  | [] => []
  | l :: ls => ⟨l.id, ⊥⟩ :: ls.map LeafBlock.item

@[simp] theorem map_id_leafItems (leaves : List LeafBlock) :
    (leafItems leaves).map Item.id = leaves.map LeafBlock.id := by
  cases leaves with
  | nil => rfl
  | cons l ls =>
    rw [leafItems, List.map_cons, List.map_cons, List.map_map]
    rfl

/-- The item of a leaf behind the leaves `A`. -/
def leafItemAfter (A : List LeafBlock) (l : LeafBlock) : Item KeyRank :=
  if A = [] then ⟨l.id, ⊥⟩ else l.item

theorem leafItems_append_cons (A : List LeafBlock) (l : LeafBlock) (B : List LeafBlock) :
    leafItems (A ++ l :: B) = leafItems A ++ leafItemAfter A l :: B.map LeafBlock.item := by
  cases A with
  | nil => rfl
  | cons a A =>
    rw [leafItemAfter, if_neg (List.cons_ne_nil a A), List.cons_append, leafItems, leafItems,
      List.map_append, List.map_cons, List.cons_append]

theorem leafItemAfter_id (A : List LeafBlock) (l : LeafBlock) : (leafItemAfter A l).id = l.id := by
  unfold leafItemAfter
  split_ifs <;> rfl

/-- A place among the items is a place among the leaves. -/
theorem exists_leaf_of_leafItems {leaves : List LeafBlock} {P S : List (Item KeyRank)}
    {c : Item KeyRank} (h : leafItems leaves = P ++ c :: S) :
    ∃ A l B, leaves = A ++ l :: B ∧ P = leafItems A ∧ c = leafItemAfter A l
      ∧ S = B.map LeafBlock.item := by
  have hlen : P.length < leaves.length := by
    have := congrArg List.length h
    rw [← List.length_map (f := Item.id), map_id_leafItems, List.length_map, List.length_append,
      List.length_cons] at this
    omega
  have hsplit : leaves = leaves.take P.length
      ++ leaves[P.length] :: leaves.drop (P.length + 1) := by
    rw [← List.drop_eq_getElem_cons hlen, List.take_append_drop]
  refine ⟨_, _, _, hsplit, ?_⟩
  rw [hsplit, leafItems_append_cons] at h
  have hP : (leafItems (leaves.take P.length)).length = P.length := by
    rw [← List.length_map (f := Item.id), map_id_leafItems, List.length_map,
      List.length_take_of_le hlen.le]
  obtain ⟨h₁, h₂⟩ := List.append_inj h hP
  rw [List.cons.injEq] at h₂
  exact ⟨h₁.symm, h₂.1.symm, h₂.2.symm⟩

/-- The entries of all leaves. -/
def leafEntries (leaves : List LeafBlock) : List (DataToken × RowPtr) :=
  leaves.flatMap LeafBlock.entries

/-- The leaves as pages hold them. -/
def leafNodes : List LeafBlock → List (ℕ × LeafIndexNode)
  | [] => []
  | l :: ls => (l.id, ⟨l.keys, l.rows, nextLeafId ls⟩) :: leafNodes ls

/-- The keys of the leaf in which the search for a key ends. -/
def IndexBPlusTree.leafKeys (file : IndexFile) (key : DataToken) : Except Exn (List DataToken) := do
  let (leafPtr, _) ← IndexBPlusTree.findLeaf file key
  let leafPage ← deref file leafPtr
  let leaf ← leafPage.data.getLeaf
  pure leaf.keys

/-- **The file is a B+ tree** with these leaves and these levels above them. -/
structure Represents (tree : IndexBPlusTree) (file : IndexFile) (leaves : List LeafBlock)
    (Ls : List (List IndexBlock)) : Prop where
  stored : Stored file leaves Ls.flatten
  chain : Chain rank (leafItems leaves) Ls
  root : file.rootPage = chainRoot (leafItems leaves) Ls
  rootParent : file.parentOf file.rootPage = some 0
  blocks : ∀ b ∈ Ls.flatten, tree.BlockOk b
  leafSize : ∀ l ∈ leaves, l.entries.length ≤ tree.maxLeafKeys
  nonempty : ∀ l ∈ leaves.tail, l.entries ≠ []
  wf : ∀ e ∈ leafEntries leaves, e.1.WellFormed
  sorted : (leafEntries leaves).Pairwise fun e e' => e.1.rank ≤ e'.1.rank

namespace Represents

variable {tree : IndexBPlusTree} {file : IndexFile} {leaves : List LeafBlock}
  {Ls : List (List IndexBlock)} {key : DataToken}

/-- A leaf is bounded by all its entries. -/
theorem low_le {l : LeafBlock} (hsorted : l.entries.Pairwise fun e e' => e.1.rank ≤ e'.1.rank)
    {e : DataToken × RowPtr} (he : e ∈ l.entries) : l.low ≤ (e.1.rank : WithBot KeyRank) := by
  unfold LeafBlock.low
  cases hl : l.entries with
  | nil => exact bot_le
  | cons e₀ es =>
    rw [hl] at he hsorted
    rcases List.mem_cons.mp he with rfl | he
    · exact le_rfl
    · exact WithBot.coe_le_coe.mpr ((List.pairwise_cons.mp hsorted).1 e he)

/-- The bounds of the leaves increase. -/
theorem lows_sorted {leaves : List LeafBlock} (hne : ∀ l ∈ leaves.tail, l.entries ≠ [])
    (hsorted : (leafEntries leaves).Pairwise fun e e' => e.1.rank ≤ e'.1.rank) :
    ((leafItems leaves).map Item.low).Pairwise (· ≤ ·) := by
  cases leaves with
  | nil => exact List.Pairwise.nil
  | cons l ls =>
    rw [leafItems, List.map_cons, List.map_map, List.pairwise_cons]
    refine ⟨fun _ _ => bot_le, ?_⟩
    rw [leafEntries, List.flatMap_cons] at hsorted
    have htail := (List.pairwise_append.mp hsorted).2.1
    rw [List.tail_cons] at hne
    clear hsorted
    -- the first key of a leaf is an entry of it, and entries increase along the leaves
    induction ls with
    | nil => exact List.Pairwise.nil
    | cons l' ls ih =>
      rw [List.flatMap_cons] at htail
      obtain ⟨hl', hls, hcross⟩ := List.pairwise_append.mp htail
      rw [List.map_cons, List.pairwise_cons]
      refine ⟨?_, ih (fun l hl => hne l (List.mem_cons_of_mem l' hl)) hls⟩
      intro low hlow
      obtain ⟨l'', hl'', rfl⟩ := List.mem_map.mp hlow
      obtain ⟨e', he'⟩ := List.exists_mem_of_ne_nil _ (hne l' List.mem_cons_self)
      have hle := low_le hl' he'
      refine hle.trans ?_
      show (e'.1.rank : WithBot KeyRank) ≤ l''.low
      unfold LeafBlock.low
      have hne'' := hne l'' (List.mem_cons_of_mem l' hl'')
      cases hes : l''.entries with
      | nil => exact absurd hes hne''
      | cons e'' es =>
        refine WithBot.coe_le_coe.mpr (hcross e' he' e'' ?_)
        exact List.mem_flatMap.mpr ⟨l'', hl'', by rw [hes]; exact List.mem_cons_self⟩

/-- **The leaf a search ends in**: no entry of an earlier leaf is above the
key, every entry of a later leaf is, and an entry of this leaf is at most the
key unless it is the first leaf. -/
structure AtLeaf (A : List LeafBlock) (l : LeafBlock) (B : List LeafBlock) (key : DataToken) :
    Prop where
  before : ∀ e ∈ leafEntries A, e.1.rank ≤ key.rank
  after : ∀ e ∈ leafEntries B, key.rank < e.1.rank
  low : A ≠ [] → l.low ≤ (key.rank : WithBot KeyRank)

/-- Where a search ends, in terms of the bounds of the leaves. -/
theorem atLeaf_of_lows {A B : List LeafBlock} {l : LeafBlock}
    (hne : ∀ l' ∈ (A ++ l :: B).tail, l'.entries ≠ [])
    (hsorted : (leafEntries (A ++ l :: B)).Pairwise fun e e' => e.1.rank ≤ e'.1.rank)
    (hlow : (leafItemAfter A l).low ≤ (key.rank : WithBot KeyRank))
    (hafter : ∀ s ∈ B.map LeafBlock.item, (key.rank : WithBot KeyRank) < s.low) :
    AtLeaf A l B key := by
  rw [leafEntries, List.flatMap_append, List.flatMap_cons] at hsorted
  obtain ⟨-, hrest, hcross⟩ := List.pairwise_append.mp hsorted
  obtain ⟨-, hB, -⟩ := List.pairwise_append.mp hrest
  have hlow' : A ≠ [] → l.low ≤ (key.rank : WithBot KeyRank) := by
    intro hA
    rwa [leafItemAfter, if_neg hA] at hlow
  refine ⟨fun e he => ?_, fun e he => ?_, hlow'⟩
  · -- an earlier entry is at most the first entry of this leaf
    have hA : A ≠ [] := by
      rintro rfl
      exact absurd he (by simp [leafEntries])
    have hl : l.entries ≠ [] := by
      refine hne l ?_
      cases A with
      | nil => exact absurd rfl hA
      | cons a A => simp
    have hle := hlow' hA
    unfold LeafBlock.low at hle
    cases hes : l.entries with
    | nil => exact absurd hes hl
    | cons e₀ es =>
      rw [hes] at hle hcross
      exact (hcross e he e₀ (by simp)).trans (WithBot.coe_le_coe.mp hle)
  · obtain ⟨l', hl', he'⟩ := List.mem_flatMap.mp he
    obtain ⟨B₁, B₂, rfl⟩ := List.append_of_mem hl'
    rw [List.flatMap_append, List.flatMap_cons] at hB
    have hsorted' := (List.pairwise_append.mp (List.pairwise_append.mp hB).2.1).1
    exact WithBot.coe_lt_coe.mp (lt_of_lt_of_le (hafter _ (List.mem_map_of_mem hl'))
      (low_le hsorted' he'))

theorem item_mem (h : Represents tree file leaves Ls) :
    ∀ c ∈ leafItems leaves, c.id ∈ file.ids := by
  intro c hc
  have hmem := List.mem_map_of_mem (f := Item.id) hc
  rw [map_id_leafItems] at hmem
  exact h.stored.ids.mem_iff.mpr (List.mem_append_left _ hmem)

theorem root_mem (h : Represents tree file leaves Ls) : file.rootPage ∈ file.ids := by
  have hmem := h.chain.root_mem
  rw [map_id_leafItems, ← h.root] at hmem
  exact h.stored.ids.mem_iff.mpr hmem

theorem length_pages (h : Represents tree file leaves Ls) :
    file.pages.length = leaves.length + Ls.flatten.length := by
  have hlen := h.stored.ids.length_eq
  rwa [IndexFile.ids, List.length_map, List.length_append, List.length_map,
    List.length_map] at hlen

/-- There are more pages than levels, so a walk down has rounds to spare. -/
theorem exists_rounds (h : Represents tree file leaves Ls) :
    ∃ n, file.pages.length + 1 = (n + 1) + Ls.length := by
  have hle := h.chain.length_le
  have hpages := h.length_pages
  exact ⟨file.pages.length - Ls.length, by omega⟩

/-- **The search reaches its leaf.** -/
theorem findLeaf_spec (h : Represents tree file leaves Ls) (hkey : key.WellFormed) :
    ∃ A l B path ptr, leaves = A ++ l :: B ∧ AtLeaf A l B key
      ∧ Located rank (leafItems A) (leafItemAfter A l) (B.map LeafBlock.item) Ls path
      ∧ getPage file l.id = some ptr
      ∧ IndexBPlusTree.findLeaf file key = .ok (ptr, l.id :: path) := by
  obtain ⟨rootPtr, -, hrootPtr, -, -, -⟩ := exists_getPage h.root_mem
  have hhead : ∀ c ∈ (leafItems leaves).head?, c.low = ⊥ := by
    cases leaves with
    | nil => simp [leafItems]
    | cons l ls =>
      intro c hc
      rw [leafItems, List.head?_cons, Option.mem_some] at hc
      rw [← hc]
  obtain ⟨P, c, S, path, ptr, hitems, hloc, hlow, hafter, hptr, hloop⟩ :=
    IndexBPlusTree.findLeafLoop_spec h.stored (fun b hb => (h.blocks b hb).2) hkey
      (fun b hb => hb) h.chain h.item_mem (lows_sorted h.nonempty h.sorted) hhead
        (h.root ▸ hrootPtr)
  obtain ⟨A, l, B, rfl, rfl, rfl, rfl⟩ := exists_leaf_of_leafItems hitems
  rw [leafItemAfter_id] at hptr
  refine ⟨A, l, B, path, ptr, rfl, atLeaf_of_lows h.nonempty h.sorted hlow hafter, hloc, hptr, ?_⟩
  obtain ⟨n, hn⟩ := h.exists_rounds
  obtain ⟨ptr', p, hptr', hderef, hid, hleaf, -⟩ :=
    IndexBPlusTree.Stored.exists_leaf_page h.stored
  rw [hptr, Option.some.injEq] at hptr'
  subst hptr'
  simp only [IndexBPlusTree.findLeaf, IndexBPlusTree.root,
    IndexBPlusTree.getPageOrThrow_eq hrootPtr, bind, Except.bind, hn, hloop]
  simp only [IndexBPlusTree.findLeafLoop, hderef, hleaf, hid, bind, Except.bind, pure,
    Except.pure, if_true]

/-! ## Insertion -/

/-- **Where an entry goes in its leaf**: behind the smaller keys. -/
theorem exists_insertIntoLeaf {es : List (DataToken × RowPtr)} (hwf : ∀ e ∈ es, e.1.WellFormed)
    (hsorted : es.Pairwise fun e e' => e.1.rank ≤ e'.1.rank) (hkey : key.WellFormed)
    (row : RowPtr) (next : ℕ) :
    ∃ E E', es = E ++ E' ∧ (∀ e ∈ E, e.1.rank < key.rank) ∧ (∀ e ∈ E', key.rank ≤ e.1.rank)
      ∧ IndexBPlusTree.insertIntoLeaf ⟨es.map Prod.fst, es.map Prod.snd, next⟩ key row
        = ⟨(E ++ (key, row) :: E').map Prod.fst, (E ++ (key, row) :: E').map Prod.snd, next⟩ := by
  obtain ⟨E, E', rfl, hE, hE', hidx⟩ : ∃ E E', es = E ++ E' ∧ (∀ e ∈ E, e.1.rank < key.rank)
      ∧ (∀ e ∈ E', key.rank ≤ e.1.rank)
      ∧ (es.map Prod.fst).findIdx (fun k => decide (¬ compareToken k key < 0)) = E.length := by
    induction es with
    | nil => exact ⟨[], [], rfl, by simp, by simp, rfl⟩
    | cons e es ih =>
      have hcmp := compareToken_neg_iff (hwf e List.mem_cons_self) hkey
      rw [List.pairwise_cons] at hsorted
      by_cases hlt : e.1.rank < key.rank
      · obtain ⟨E, E', hes, hE, hE', hidx⟩ :=
          ih (fun e' he' => hwf e' (List.mem_cons_of_mem e he')) hsorted.2
        refine ⟨e :: E, E', by rw [hes, List.cons_append], ?_, hE', ?_⟩
        · intro e' he'
          rcases List.mem_cons.mp he' with rfl | he'
          exacts [hlt, hE e' he']
        · rw [List.map_cons, List.findIdx_cons, hidx]
          simp [hcmp.mpr hlt]
      · refine ⟨[], e :: es, rfl, by simp, ?_, ?_⟩
        · intro e' he'
          rw [not_lt] at hlt
          rcases List.mem_cons.mp he' with rfl | he'
          exacts [hlt, hlt.trans (hsorted.1 e' he')]
        · rw [List.map_cons, List.findIdx_cons]
          simp [mt hcmp.mp hlt]
  refine ⟨E, E', rfl, hE, hE', ?_⟩
  have hfst := insertIdx_append_length (E.map Prod.fst) (E'.map Prod.fst) key
  have hsnd := insertIdx_append_length (E.map Prod.snd) (E'.map Prod.snd) row
  rw [List.length_map, ← List.map_append] at hfst hsnd
  unfold IndexBPlusTree.insertIntoLeaf
  simp only [hidx, hfst, hsnd]
  rw [List.map_append, List.map_append, List.map_cons, List.map_cons]

/-- The new entry does not change the bound of its leaf, unless the leaf is the
first, whose bound nobody looks at. -/
theorem leafItemAfter_insert {A B : List LeafBlock} {l : LeafBlock} (hat : AtLeaf A l B key)
    (hne : A ≠ [] → l.entries ≠ []) {E E' : List (DataToken × RowPtr)}
    (hes : l.entries = E ++ E') (hE' : ∀ e ∈ E', key.rank ≤ e.1.rank) (row : RowPtr)
    {es es' : List (DataToken × RowPtr)} (hsplit : E ++ (key, row) :: E' = es ++ es')
    (hpos : es ≠ []) : leafItemAfter A ⟨l.id, es⟩ = leafItemAfter A l := by
  unfold leafItemAfter
  split_ifs with hA
  · rfl
  · have hl := hne hA
    have hlow := hat.low hA
    show (⟨l.id, _⟩ : Item KeyRank) = ⟨l.id, _⟩
    congr 1
    obtain ⟨e, es, rfl⟩ := List.exists_cons_of_ne_nil hpos
    unfold LeafBlock.low at hlow ⊢
    cases E with
    | cons e₀ E =>
      -- the first entry stays the first
      rw [List.cons_append, List.cons_append, List.cons.injEq] at hsplit
      rw [hes, ← hsplit.1]
      rfl
    | nil =>
      -- the new first entry has the rank of the old one
      rw [List.nil_append] at hes
      rw [List.nil_append, List.cons_append, List.cons.injEq] at hsplit
      cases hE : E' with
      | nil => exact absurd (hes.trans hE) hl
      | cons e₀ E' =>
        rw [hE] at hes hE'
        rw [hes] at hlow ⊢
        rw [← hsplit.1]
        exact WithBot.coe_inj.mpr
          (le_antisymm (hE' e₀ List.mem_cons_self) (WithBot.coe_le_coe.mp hlow))

/-- No leaf but the first is empty, also after a leaf has been replaced. -/
theorem nonempty_replace {A X B : List LeafBlock} (hAB : ∀ l ∈ A.tail ++ B, l.entries ≠ [])
    (hX : ∀ l ∈ X, l.entries ≠ []) : ∀ l ∈ (A ++ (X ++ B)).tail, l.entries ≠ [] := by
  intro l hl
  have hmem : l ∈ A.tail ∨ l ∈ X ∨ l ∈ B := by
    cases A with
    | nil =>
      have := List.mem_of_mem_tail hl
      rw [List.nil_append, List.mem_append] at this
      exact .inr this
    | cons a A =>
      rw [List.cons_append, List.tail_cons, List.mem_append, List.mem_append] at hl
      exact hl
  rcases hmem with hl | hl | hl
  · exact hAB l (List.mem_append_left _ hl)
  · exact hX l hl
  · exact hAB l (List.mem_append_right _ hl)

/-- The leaves after an insertion that makes the entries of `l` be `es`. -/
def leavesAfter (tree : IndexBPlusTree) (A : List LeafBlock) (l : LeafBlock) (B : List LeafBlock)
    (es : List (DataToken × RowPtr)) (newId : ℕ) : List LeafBlock :=
  if es.length > tree.maxLeafKeys then
    A ++ ⟨l.id, es.take (es.length / 2)⟩ :: ⟨newId, es.drop (es.length / 2)⟩ :: B
  else A ++ ⟨l.id, es⟩ :: B

theorem leafEntries_leavesAfter (tree : IndexBPlusTree) (A : List LeafBlock) (l : LeafBlock)
    (B : List LeafBlock) (es : List (DataToken × RowPtr)) (newId : ℕ) :
    leafEntries (leavesAfter tree A l B es newId) = leafEntries A ++ (es ++ leafEntries B) := by
  unfold leavesAfter
  split_ifs
  · rw [leafEntries, List.flatMap_append, List.flatMap_cons, List.flatMap_cons]
    show leafEntries A ++ (es.take _ ++ (es.drop _ ++ leafEntries B)) = _
    rw [← List.append_assoc (es.take _), List.take_append_drop]
  · rw [leafEntries, List.flatMap_append, List.flatMap_cons]
    rfl

/-- The entries of the leaves, with those of one of them set apart. -/
theorem leafEntries_mid (A : List LeafBlock) (id : ℕ) (es : List (DataToken × RowPtr))
    (B : List LeafBlock) :
    leafEntries (A ++ ⟨id, es⟩ :: B) = leafEntries A ++ (es ++ leafEntries B) := by
  rw [leafEntries, List.flatMap_append, List.flatMap_cons]
  rfl

/-- **An entry put into a leaf**: `file₁` is the file in which the leaf `l`, in which the
search for the key ends, has the new entry between its entries `E` and `E'`. -/
structure Placed (tree : IndexBPlusTree) (file file₁ : IndexFile) (A : List LeafBlock)
    (l : LeafBlock) (B : List LeafBlock) (E E' : List (DataToken × RowPtr))
    (Ls : List (List IndexBlock)) (key : DataToken) (row : RowPtr) : Prop where
  represents : Represents tree file (A ++ l :: B) Ls
  wf : key.WellFormed
  atLeaf : AtLeaf A l B key
  entries : l.entries = E ++ E'
  before : ∀ e ∈ E, e.1.rank < key.rank
  behind : ∀ e ∈ E', key.rank ≤ e.1.rank
  stored : Stored file₁ (A ++ ⟨l.id, E ++ (key, row) :: E'⟩ :: B) Ls.flatten
  parent : ∀ j, file₁.parentOf j = file.parentOf j
  root : file₁.rootPage = file.rootPage

namespace Placed

variable {file₁ : IndexFile} {A B : List LeafBlock} {l : LeafBlock}
  {E E' : List (DataToken × RowPtr)} {row : RowPtr}

/-- The entries before the insertion. -/
theorem leafEntries_eq (h : Placed tree file file₁ A l B E E' Ls key row) :
    leafEntries (A ++ l :: B) = (leafEntries A ++ E) ++ (E' ++ leafEntries B) := by
  rw [show A ++ l :: B = A ++ ⟨l.id, l.entries⟩ :: B from rfl, leafEntries_mid, h.entries]
  simp

/-- The entries after it are well-formed and sorted. -/
theorem entries_after (h : Placed tree file file₁ A l B E E' Ls key row) :
    let es := leafEntries A ++ ((E ++ (key, row) :: E') ++ leafEntries B)
    (∀ e ∈ es, e.1.WellFormed) ∧ es.Pairwise fun e e' => e.1.rank ≤ e'.1.rank := by
  intro es
  have hes : es = (leafEntries A ++ E) ++ (key, row) :: (E' ++ leafEntries B) := by simp [es]
  have hwf := h.represents.wf
  have hsorted := h.represents.sorted
  rw [h.leafEntries_eq] at hwf hsorted
  obtain ⟨h₁, h₂, h₃⟩ := List.pairwise_append.mp hsorted
  rw [hes]
  constructor
  · intro e he
    rw [List.mem_append, List.mem_cons] at he
    rcases he with he | rfl | he
    · exact hwf e (List.mem_append_left _ he)
    · exact h.wf
    · exact hwf e (List.mem_append_right _ he)
  · rw [List.pairwise_append, List.pairwise_cons]
    refine ⟨h₁, ⟨fun e he => ?_, h₂⟩, fun e he e' he' => ?_⟩
    · rcases List.mem_append.mp he with he | he
      exacts [h.behind e he, (h.atLeaf.after e he).le]
    · rcases List.mem_cons.mp he' with rfl | he'
      · rcases List.mem_append.mp he with he | he
        exacts [h.atLeaf.before e he, (h.before e he).le]
      · exact h₃ e he e' he'

/-- The other leaves are as they were. -/
theorem others (h : Placed tree file file₁ A l B E E' Ls key row) :
    (∀ l' ∈ A ++ B, l'.entries.length ≤ tree.maxLeafKeys)
      ∧ ∀ l' ∈ A.tail ++ B, l'.entries ≠ [] := by
  constructor
  · intro l' hl'
    refine h.represents.leafSize l' ?_
    rcases List.mem_append.mp hl' with hl' | hl'
    exacts [List.mem_append_left _ hl', List.mem_append_right _ (List.mem_cons_of_mem l hl')]
  · intro l' hl'
    refine h.represents.nonempty l' ?_
    cases A with
    | nil => exact hl'
    | cons a A =>
      rcases List.mem_append.mp hl' with hl' | hl'
      exacts [List.mem_append_left _ hl', List.mem_append_right _ (List.mem_cons_of_mem l hl')]

/-- The bound of the leaf is as it was, whatever is cut off behind. -/
theorem leafItemAfter_eq (h : Placed tree file file₁ A l B E E' Ls key row)
    {es es' : List (DataToken × RowPtr)} (hcut : E ++ (key, row) :: E' = es ++ es')
    (hpos : es ≠ []) : leafItemAfter A ⟨l.id, es⟩ = leafItemAfter A l := by
  refine leafItemAfter_insert h.atLeaf (fun hA => ?_) h.entries h.behind row hcut hpos
  refine h.represents.nonempty l ?_
  cases A with
  | nil => exact absurd rfl hA
  | cons a A => simp

/-- The root hangs below nobody. -/
theorem rootParent (h : Placed tree file file₁ A l B E E' Ls key row) :
    file₁.parentOf file₁.rootPage = some 0 := by
  rw [h.root, h.parent]
  exact h.represents.rootParent

/-- **The leaf has room.** -/
theorem fits (h : Placed tree file file₁ A l B E E' Ls key row)
    (hfits : (E ++ (key, row) :: E').length ≤ tree.maxLeafKeys) :
    Represents tree file₁ (A ++ ⟨l.id, E ++ (key, row) :: E'⟩ :: B) Ls := by
  have hne : E ++ (key, row) :: E' ≠ [] := by simp
  have hitems : leafItems (A ++ ⟨l.id, E ++ (key, row) :: E'⟩ :: B) = leafItems (A ++ l :: B) := by
    rw [leafItems_append_cons, leafItems_append_cons,
      h.leafItemAfter_eq (List.append_nil _).symm hne]
  obtain ⟨hsize, hneB⟩ := h.others
  obtain ⟨hwf, hsorted⟩ := h.entries_after
  rw [← leafEntries_mid A l.id] at hwf hsorted
  refine ⟨h.stored, ?_, ?_, h.rootParent, h.represents.blocks, fun l' hl' => ?_, ?_, hwf, hsorted⟩
  · rw [hitems]
    exact h.represents.chain
  · rw [h.root, hitems]
    exact h.represents.root
  · rw [List.mem_append, List.mem_cons] at hl'
    rcases hl' with hl' | rfl | hl'
    · exact hsize l' (List.mem_append_left _ hl')
    · exact hfits
    · exact hsize l' (List.mem_append_right _ hl')
  · refine nonempty_replace (X := [⟨l.id, E ++ (key, row) :: E'⟩]) hneB fun l' hl' => ?_
    rw [List.mem_singleton.mp hl']
    exact hne

/-- **A leaf that has been split rises**: the new leaf hangs below nobody yet. -/
theorem rising (h : Placed tree file file₁ A l B E E' Ls key row) {file₂ : IndexFile}
    {es₁ es₂ : List (DataToken × RowPtr)} (hroot : file₂.rootPage = file₁.rootPage)
    (hst : Stored file₂ (A ++ ⟨l.id, es₁⟩ :: ⟨file₁.lastPage + 1, es₂⟩ :: B) Ls.flatten)
    (hparent : ∀ j ∈ file₁.ids, file₂.parentOf j = file₁.parentOf j) :
    tree.Rising file₂ (A ++ ⟨l.id, es₁⟩ :: ⟨file₁.lastPage + 1, es₂⟩ :: B) [] (leafItems A)
      (leafItemAfter A l) (B.map LeafBlock.item) Ls (file₁.lastPage + 1) where
  stored := hst
  root := by rw [hroot, h.root, h.represents.root, leafItems_append_cons]
  rootParent := by
    rw [hroot, hparent _ (Stored.mem_of_parentOf h.rootParent), h.rootParent]
  blocks := h.represents.blocks
  distinct := by
    rw [← leafItems_append_cons, map_id_leafItems]
    exact (List.nodup_append.mp h.represents.stored.nodup_nodes).1
  old_mem := by
    rw [leafItemAfter_id]
    simp
  new_mem := by simp
  ne := by
    rw [leafItemAfter_id]
    have hmem : l.id ∈ file₁.ids :=
      h.stored.leaf_mem (l := ⟨l.id, E ++ (key, row) :: E'⟩) (by simp)
    exact fun heq => h.stored.next_not_mem (heq ▸ hmem)
  free := fun _ hb hj => h.stored.next_not_mem (h.stored.child_mem hb hj)

/-- **The leaf is overfull**: it is split in the middle, and the split travels up. -/
theorem split (h : Placed tree file file₁ A l B E E' Ls key row) (hleaf : 1 ≤ tree.maxLeafKeys)
    (hint : 1 ≤ tree.maxInternalKeys) {path : List ℕ}
    (hloc : Located rank (leafItems A) (leafItemAfter A l) (B.map LeafBlock.item) Ls path)
    {ptr : ℕ} (hptr : getPage file₁ l.id = some ptr)
    (hover : (E ++ (key, row) :: E').length > tree.maxLeafKeys) :
    ∃ file' Ls', tree.splitLeafAndPropagate file₁ ptr (l.id :: path) = .ok file'
      ∧ Represents tree file'
          (leavesAfter tree A l B (E ++ (key, row) :: E') (file₁.lastPage + 1)) Ls' := by
  obtain ⟨hsize, hneB⟩ := h.others
  obtain ⟨hwf, hsorted⟩ := h.entries_after
  have hst := h.stored
  have hlsize := h.represents.leafSize l (by simp)
  rw [h.entries, List.length_append] at hlsize
  rw [List.length_append, List.length_cons] at hover
  generalize hnew : E ++ (key, row) :: E' = es at hst hwf hsorted ⊢
  have heslen : es.length = E.length + (E'.length + 1) := by
    rw [← hnew, List.length_append, List.length_cons]
  have hmid : es.length / 2 < es.length := by omega
  obtain ⟨es₁, e, es₂, hcut, hlen₁⟩ : ∃ es₁ e es₂, es = es₁ ++ e :: es₂
      ∧ es₁.length = es.length / 2 := by
    refine ⟨es.take (es.length / 2), es[es.length / 2], es.drop (es.length / 2 + 1), ?_, ?_⟩
    · rw [← List.drop_eq_getElem_cons hmid, List.take_append_drop]
    · exact List.length_take_of_le hmid.le
  have hsum := congrArg List.length hcut
  rw [List.length_append, List.length_cons] at hsum
  have hne₁ : es₁ ≠ [] := by
    rw [← List.length_pos_iff, hlen₁]
    omega
  have hafter : leavesAfter tree A l B es (file₁.lastPage + 1)
      = A ++ ⟨l.id, es₁⟩ :: ⟨file₁.lastPage + 1, e :: es₂⟩ :: B := by
    rw [leavesAfter, if_pos (by omega), ← hlen₁, hcut, List.take_left, List.drop_left]
  have hall := leafEntries_leavesAfter tree A l B es (file₁.lastPage + 1)
  rw [hafter] at hall ⊢
  rw [← hall] at hwf hsorted
  obtain ⟨file₂, hsplit, hroot₂, hst₂, hparent₂⟩ :=
    IndexBPlusTree.splitLeaf_spec hst hptr hcut hlen₁
  have hwfe : e.1.WellFormed := by
    refine hwf e ?_
    rw [hall, hcut]
    simp
  obtain ⟨file₃, Ls', hins, hchain, hstands⟩ :=
    IndexBPlusTree.insertIntoParent_spec hloc (h.rising hroot₂ hst₂ hparent₂) hint hwfe
  have hitems : leafItems (A ++ ⟨l.id, es₁⟩ :: ⟨file₁.lastPage + 1, e :: es₂⟩ :: B)
      = leafItems A ++ leafItemAfter A l :: ⟨file₁.lastPage + 1, (e.1.rank : WithBot KeyRank)⟩
        :: B.map LeafBlock.item := by
    rw [leafItems_append_cons, h.leafItemAfter_eq (hnew.trans hcut) hne₁]
    rfl
  rw [← hitems] at hchain hstands
  refine ⟨file₃, Ls', ?_, hstands.stored, hchain, hstands.root, hstands.rootParent,
    hstands.blocks, fun l' hl' => ?_, ?_, hwf, hsorted⟩
  · simp only [IndexBPlusTree.splitLeafAndPropagate, hsplit, bind, Except.bind]
    rw [leafItemAfter_id] at hins
    exact hins
  · rw [List.mem_append, List.mem_cons, List.mem_cons] at hl'
    rcases hl' with hl' | rfl | rfl | hl'
    · exact hsize l' (List.mem_append_left _ hl')
    · show es₁.length ≤ tree.maxLeafKeys
      omega
    · show es₂.length + 1 ≤ tree.maxLeafKeys
      omega
    · exact hsize l' (List.mem_append_right _ hl')
  · refine nonempty_replace (X := [⟨l.id, es₁⟩, ⟨file₁.lastPage + 1, e :: es₂⟩]) hneB
      fun l' hl' => ?_
    rcases List.mem_cons.mp hl' with rfl | hl'
    · exact hne₁
    · rw [List.mem_singleton.mp hl']
      exact List.cons_ne_nil e es₂

end Placed

/-- **One insertion**: it succeeds, the entry goes into the leaf its search ends
in, behind the smaller keys, and the file is a B+ tree again. -/
theorem insert_leaves_spec (h : Represents tree file leaves Ls) (hleaf : 1 ≤ tree.maxLeafKeys)
    (hint : 1 ≤ tree.maxInternalKeys) (hkey : key.WellFormed) (row : RowPtr) :
    ∃ file' Ls' A l B E E' newId, leaves = A ++ l :: B ∧ AtLeaf A l B key
      ∧ l.entries = E ++ E' ∧ (∀ e ∈ E, e.1.rank < key.rank) ∧ (∀ e ∈ E', key.rank ≤ e.1.rank)
      ∧ IndexBPlusTree.leafKeys file key = .ok l.keys ∧ tree.insert file key row = .ok file'
      ∧ Represents tree file' (leavesAfter tree A l B (E ++ (key, row) :: E') newId) Ls' := by
  obtain ⟨A, l, B, path, ptr, rfl, hat, hloc, hptr, hfind⟩ := h.findLeaf_spec hkey
  have hsorted := h.sorted
  have hwf := h.wf
  rw [show A ++ l :: B = A ++ ⟨l.id, l.entries⟩ :: B from rfl, leafEntries_mid] at hsorted hwf
  have hlsorted := (List.pairwise_append.mp (List.pairwise_append.mp hsorted).2.1).1
  obtain ⟨E, E', hes, hE, hE', hins⟩ := exists_insertIntoLeaf
    (fun e he => hwf e (by simp [he])) hlsorted hkey row (nextLeafId B)
  -- the leaf gets the entry
  obtain ⟨hst₁, hparent₁⟩ := h.stored.updateLeaf hptr (E ++ (key, row) :: E')
  obtain ⟨ptr', p, hptr', hderef, -, -, hdata⟩ := IndexBPlusTree.Stored.exists_leaf_page h.stored
  rw [hptr, Option.some.injEq] at hptr'
  subst hptr'
  have hkeys : IndexBPlusTree.leafKeys file key = .ok l.keys := by
    simp only
      [IndexBPlusTree.leafKeys, hfind, hderef, hdata, IndexNode.getLeaf, bind, Except.bind, pure,
      Except.pure]
  generalize hnew : E ++ (key, row) :: E' = es at hins hst₁ hparent₁
  generalize hf₁ : assign file ptr (.withLeaf (es.map Prod.fst) (es.map Prod.snd) (nextLeafId B))
    = file₁ at hst₁ hparent₁
  have hinsert : tree.insert file key row = if es.length > tree.maxLeafKeys
      then tree.splitLeafAndPropagate file₁ ptr (l.id :: path) else .ok file₁ := by
    simp only [IndexBPlusTree.insert, hfind, hderef, hdata, IndexNode.getLeaf, bind, Except.bind,
      pure, Except.pure, LeafBlock.keys, LeafBlock.rows, hins, List.length_map, hf₁]
  have hplaced : Placed tree file file₁ A l B E E' Ls key row :=
    ⟨h, hkey, hat, hes, hE, hE', hnew ▸ hst₁, hparent₁, by rw [← hf₁]; rfl⟩
  by_cases hover : es.length > tree.maxLeafKeys
  · have hptr₁ : getPage file₁ l.id = some ptr := by
      rw [← hf₁, getPage_assign (IndexPage.withLeaf_id _ _ _), hptr]
    obtain ⟨file', Ls', hsplit, hrep⟩ :=
      hplaced.split hleaf hint hloc hptr₁ (hnew ▸ hover)
    refine ⟨file', Ls', A, l, B, E, E', _, rfl, hat, hes, hE, hE', hkeys, ?_, hrep⟩
    rw [hinsert, if_pos hover, hsplit]
  · have hafter : leavesAfter tree A l B es 0 = A ++ ⟨l.id, es⟩ :: B := by
      rw [leavesAfter, if_neg hover]
    refine ⟨file₁, Ls, A, l, B, E, E', 0, rfl, hat, hes, hE, hE', hkeys, ?_, ?_⟩
    · rw [hinsert, if_neg hover]
    · rw [hnew, hafter, ← hnew]
      exact hplaced.fits (hnew ▸ not_lt.mp hover)

/-- **One insertion**: it succeeds, the file is a B+ tree again, and its
entries are the old ones with the new one put in somewhere. -/
theorem insert_spec (h : Represents tree file leaves Ls) (hleaf : 1 ≤ tree.maxLeafKeys)
    (hint : 1 ≤ tree.maxInternalKeys) (hkey : key.WellFormed) (row : RowPtr) :
    ∃ file' leaves' Ls' X Y, tree.insert file key row = .ok file'
      ∧ Represents tree file' leaves' Ls'
      ∧ leafEntries leaves = X ++ Y ∧ leafEntries leaves' = X ++ (key, row) :: Y := by
  obtain ⟨file', Ls', A, l, B, E, E', newId, rfl, -, hes, -, -, -, hins, hrep⟩ :=
    h.insert_leaves_spec hleaf hint hkey row
  refine ⟨file', _, Ls', leafEntries A ++ E, E' ++ leafEntries B, hins, hrep, ?_, ?_⟩
  · rw [leafEntries, List.flatMap_append, List.flatMap_cons, hes]
    simp [leafEntries]
  · rw [leafEntries_leavesAfter]
    simp

/-! ## Lookup -/

/-- A key that is in the tree is in the leaf its search ends in: where equal
keys straddle a separator, the right side has one of them. -/
theorem exists_mem_leaf {A B : List LeafBlock} {l : LeafBlock}
    (h : Represents tree file (A ++ l :: B) Ls) (hat : AtLeaf A l B key)
    {e : DataToken × RowPtr} (he : e ∈ leafEntries (A ++ l :: B)) (hrank : e.1.rank = key.rank) :
    ∃ e' ∈ l.entries, e'.1.rank = key.rank := by
  have hsorted := h.sorted
  rw [leafEntries, List.flatMap_append, List.flatMap_cons] at he hsorted
  rw [List.mem_append, List.mem_append] at he
  rcases he with he | he | he
  · have hA : A ≠ [] := by
      rintro rfl
      exact absurd he (by simp)
    have hl : l.entries ≠ [] := by
      refine h.nonempty l ?_
      cases A with
      | nil => exact absurd rfl hA
      | cons a A => simp
    have hlow := hat.low hA
    unfold LeafBlock.low at hlow
    cases hes : l.entries with
    | nil => exact absurd hes hl
    | cons e₀ es =>
      rw [hes] at hlow
      have hle := (List.pairwise_append.mp hsorted).2.2 e he e₀ (by simp [hes])
      refine ⟨e₀, List.mem_cons_self, le_antisymm (WithBot.coe_le_coe.mp hlow) ?_⟩
      rw [← hrank]
      exact hle
  · exact ⟨e, he, hrank⟩
  · exact absurd hrank (hat.after e he).ne'

/-- **Lookup** finds the first equal key of the leaf the search ends in. -/
theorem find_leaf_spec (h : Represents tree file leaves Ls) (hkey : key.WellFormed) :
    ∃ A l B, leaves = A ++ l :: B ∧ AtLeaf A l B key
      ∧ IndexBPlusTree.find file key
        = .ok ((l.entries.find? fun e => decide (compareToken e.1 key = 0)).map Prod.snd) := by
  obtain ⟨A, l, B, path, ptr, rfl, hat, -, hptr, hfind⟩ := h.findLeaf_spec hkey
  refine ⟨A, l, B, rfl, hat, ?_⟩
  obtain ⟨ptr', p, hptr', hderef, -, -, hdata⟩ := IndexBPlusTree.Stored.exists_leaf_page h.stored
  rw [hptr, Option.some.injEq] at hptr'
  subst hptr'
  have hidx : l.keys.findIdx? (fun k => decide (compareToken k key = 0))
      = l.entries.findIdx? fun e => decide (compareToken e.1 key = 0) := by
    rw [LeafBlock.keys, List.findIdx?_map]
    rfl
  simp only [IndexBPlusTree.find, hfind, hderef, hdata, IndexNode.getLeaf, bind, Except.bind,
    pure, Except.pure, hidx, List.find?_eq_bind_findIdx?_getElem?]
  cases hi : l.entries.findIdx? fun e => decide (compareToken e.1 key = 0) with
  | none => rfl
  | some i =>
    obtain ⟨hlt, -, -⟩ := List.findIdx?_eq_some_iff_getElem.mp hi
    have hrow : l.rows[i]? = some l.entries[i].2 := by
      rw [LeafBlock.rows, List.getElem?_map, List.getElem?_eq_getElem hlt]
      rfl
    simp only [hrow, Option.bind_some, List.getElem?_eq_getElem hlt, Option.map_some]

/-- **Lookup**: nothing is found exactly when no equal key was inserted, and
what is found was inserted under an equal key. -/
theorem find_spec (h : Represents tree file leaves Ls) (hkey : key.WellFormed) :
    ((∀ e ∈ leafEntries leaves, e.1.rank ≠ key.rank) → IndexBPlusTree.find file key = .ok none)
      ∧ ((∃ e ∈ leafEntries leaves, e.1.rank = key.rank) →
        ∃ e ∈ leafEntries leaves, e.1.rank = key.rank
          ∧ IndexBPlusTree.find file key = .ok (some e.2)) := by
  obtain ⟨A, l, B, rfl, hat, hfind⟩ := h.find_leaf_spec hkey
  have hsub : ∀ e ∈ l.entries, e ∈ leafEntries (A ++ l :: B) := fun e he =>
    List.mem_flatMap.mpr ⟨l, by simp, he⟩
  have hcmp : ∀ e ∈ l.entries, compareToken e.1 key = 0 ↔ e.1.rank = key.rank := fun e he =>
    compareToken_eq_zero_iff (h.wf e (hsub e he)) hkey
  rw [hfind]
  cases hfound : l.entries.find? fun e => decide (compareToken e.1 key = 0) with
  | none =>
    rw [List.find?_eq_none] at hfound
    refine ⟨fun _ => rfl, ?_⟩
    rintro ⟨e, he, hrank⟩
    obtain ⟨e', he', hrank'⟩ := h.exists_mem_leaf hat he hrank
    exact absurd (decide_eq_true ((hcmp e' he').mpr hrank')) (hfound e' he')
  | some e =>
    have hmem := List.mem_of_find?_eq_some hfound
    have htest := List.find?_some hfound
    have hrank := (hcmp e hmem).mp (of_decide_eq_true htest)
    exact ⟨fun hnone => absurd hrank (hnone e (hsub e hmem)),
      fun _ => ⟨e, hsub e hmem, hrank, rfl⟩⟩

/-! ## Walking the leaves -/

/-- The walk along `next_leaf` passes all leaves. -/
theorem leavesLoop_spec {bs : List IndexBlock} (A : List LeafBlock) {l : LeafBlock}
    {B : List LeafBlock} (h : Stored file (A ++ l :: B) bs) {ptr : ℕ}
    (hptr : getPage file l.id = some ptr) {n : ℕ} (hn : B.length < n) :
    IndexBPlusTree.leavesLoop file n ptr = .ok (leafNodes (l :: B)) := by
  induction B generalizing A l ptr n with
  | nil =>
    obtain ⟨n, rfl⟩ : ∃ m, n = m + 1 := ⟨n - 1, by omega⟩
    obtain ⟨ptr', p, hptr', hderef, hid, -, hdata⟩ := IndexBPlusTree.Stored.exists_leaf_page h
    rw [hptr, Option.some.injEq] at hptr'
    subst hptr'
    simp only [IndexBPlusTree.leavesLoop, hderef, hdata, IndexNode.getLeaf, bind, Except.bind,
      pure, Except.pure, hid]
    rfl
  | cons l' B ih =>
    obtain ⟨n, rfl⟩ : ∃ m, n = m + 1 := ⟨n - 1, by omega⟩
    obtain ⟨ptr₁, p, hptr₁, hderef, hid, -, hdata⟩ := IndexBPlusTree.Stored.exists_leaf_page h
    rw [hptr, Option.some.injEq] at hptr₁
    subst hptr₁
    have hsplit : A ++ l :: l' :: B = (A ++ [l]) ++ l' :: B := by simp
    have h' : Stored file ((A ++ [l]) ++ l' :: B) bs := hsplit ▸ h
    obtain ⟨ptr', -, hptr', -, -, -, -⟩ := IndexBPlusTree.Stored.exists_leaf_page h'
    have hrest := ih (A ++ [l]) h' hptr' (n := n) (by rw [List.length_cons] at hn; omega)
    have hnext : nextLeafId (l' :: B) = l'.id := rfl
    have hpos : ¬ l'.id = 0 := (h'.bound _ (h'.leaf_mem (by simp))).1.ne'
    simp only [IndexBPlusTree.leavesLoop, hderef, hdata, IndexNode.getLeaf, bind, Except.bind,
      pure, Except.pure, hid, hnext, if_neg hpos, IndexBPlusTree.getPageOrThrow_eq hptr', hrest]
    rfl

/-- The walk through the first children ends at the first leaf. -/
theorem leftmostLeafLoop_spec (h : Stored file leaves Ls.flatten)
    {items : List (Item KeyRank)} {Ls' : List (List IndexBlock)}
    (hsub : ∀ b ∈ Ls'.flatten, b ∈ Ls.flatten) (hchain : Chain rank items Ls')
    (hids : ∀ c ∈ items, c.id ∈ file.ids) {rootPtr : ℕ}
    (hroot : getPage file (chainRoot items Ls') = some rootPtr) :
    ∃ c ptr, items.head? = some c ∧ getPage file c.id = some ptr
      ∧ ∀ n, IndexBPlusTree.leftmostLeafLoop file (n + Ls'.length) rootPtr
          = IndexBPlusTree.leftmostLeafLoop file n ptr := by
  induction Ls' generalizing items rootPtr with
  | nil =>
    obtain ⟨c, rfl⟩ := hchain
    exact ⟨c, rootPtr, rfl, hroot, fun _ => rfl⟩
  | cons L Ls' ih =>
    obtain ⟨hflat, hup⟩ := hchain
    have hL : ∀ b ∈ L, b ∈ Ls.flatten := fun b hb => hsub b (List.mem_append_left _ hb)
    obtain ⟨c', ptr', hhead, hptr', hloop⟩ :=
      ih (fun b hb => hsub b (List.mem_append_right _ hb)) hup
        (fun c hc => by
          obtain ⟨b, hb, rfl⟩ := List.mem_map.mp hc
          exact h.block_mem (hL b hb))
        hroot
    cases L with
    | nil => exact absurd hhead (by simp)
    | cons b L =>
      rw [List.map_cons, List.head?_cons, Option.some.injEq] at hhead
      subst hhead
      have hb : b ∈ Ls.flatten := hL b List.mem_cons_self
      have hfirst : items.head? = some b.first := by
        rw [← hflat, List.flatMap_cons, Block.items]
        rfl
      obtain ⟨ptr, -, hptr, -, -, -⟩ := exists_getPage (hids _ (List.mem_of_head? hfirst))
      refine ⟨b.first, ptr, hfirst, hptr, fun n => ?_⟩
      obtain ⟨ptr₁, p, hptr₁, hderef, -, hleaf, hdata⟩ :=
        IndexBPlusTree.Stored.exists_page h hb
      rw [Block.item_id, hptr₁, Option.some.injEq] at hptr'
      subst hptr'
      rw [List.length_cons, show n + (Ls'.length + 1) = (n + 1) + Ls'.length by ring, hloop]
      simp only [IndexBPlusTree.leftmostLeafLoop, hderef, hleaf, hdata, IndexNode.getInternal,
        Block.children, List.head?_cons, bind, Except.bind, IndexBPlusTree.getPageOrThrow_eq hptr,
        Bool.false_eq_true, if_false]

/-- **A scan reads all leaves in order.** -/
theorem scanLeaves_spec (h : Represents tree file leaves Ls) :
    IndexBPlusTree.scanLeaves file = .ok (leafNodes leaves) := by
  obtain ⟨rootPtr, -, hrootPtr, -, -, -⟩ := exists_getPage h.root_mem
  obtain ⟨c, ptr, hhead, hptr, hloop⟩ := leftmostLeafLoop_spec h.stored (fun b hb => hb) h.chain
    h.item_mem (h.root ▸ hrootPtr)
  have hpages := h.length_pages
  obtain ⟨n, hn⟩ := h.exists_rounds
  cases leaves with
  | nil => exact absurd hhead (by simp [leafItems])
  | cons l B =>
    rw [leafItems, List.head?_cons, Option.some.injEq] at hhead
    subst hhead
    obtain ⟨ptr', p, hptr', hderef, -, hleaf, -⟩ :=
      IndexBPlusTree.Stored.exists_leaf_page (A := []) h.stored
    have hptr'' : ptr' = ptr := Option.some.inj (hptr'.symm.trans hptr)
    subst hptr''
    have hleaves := leavesLoop_spec [] h.stored hptr' (n := file.pages.length + 1)
      (by rw [List.length_cons] at hpages; omega)
    have hfirst : IndexBPlusTree.leftmostLeafLoop file (file.pages.length + 1) rootPtr
        = .ok (some ptr') := by
      rw [hn, hloop]
      simp only [IndexBPlusTree.leftmostLeafLoop, hderef, hleaf, bind, Except.bind, pure,
        Except.pure, if_true]
    simp only [IndexBPlusTree.scanLeaves, hrootPtr, hfirst, hleaves, bind, Except.bind]

end Represents

/-! ## Runs of insertions -/

namespace IndexBPlusTree

/-- A run of `insert` calls. -/
def insertAll (tree : IndexBPlusTree) (file : IndexFile) :
    List (DataToken × RowPtr) → Except Exn IndexFile
  | [] => .ok file
  | (key, row) :: es => do
    let file ← tree.insert file key row
    insertAll tree file es

end IndexBPlusTree

open IndexBPlusTree

/-- The single empty leaf is a tree. -/
theorem represents_create (tree : IndexBPlusTree) (indexId : IndexId) :
    Represents tree (IndexFile.create indexId) [⟨1, []⟩] [] where
  stored := by
    refine ⟨List.Perm.refl _, by simp [IndexFile.create, IndexFile.ids], ?_, ⟨rfl, trivial⟩,
      by simp, by simp, by simp⟩
    intro i hi
    rw [show i = 1 by simpa [IndexFile.create, IndexFile.ids] using hi]
    exact ⟨Nat.one_pos, le_rfl⟩
  chain := ⟨_, rfl⟩
  root := rfl
  rootParent := rfl
  blocks := by simp
  leafSize := by simp
  nonempty := by simp
  wf := by simp [leafEntries]
  sorted := List.Pairwise.nil

/-- **Any run of insertions** succeeds and leaves a tree with the old and the
new entries. By induction on the run. -/
theorem Represents.insertAll {tree : IndexBPlusTree} {file : IndexFile} {leaves : List LeafBlock}
    {Ls : List (List IndexBlock)} (h : Represents tree file leaves Ls)
    (hleaf : 1 ≤ tree.maxLeafKeys) (hint : 1 ≤ tree.maxInternalKeys)
    {es : List (DataToken × RowPtr)} (hwf : ∀ e ∈ es, e.1.WellFormed) :
    ∃ file' leaves' Ls', tree.insertAll file es = .ok file' ∧ Represents tree file' leaves' Ls'
      ∧ (leafEntries leaves').Perm (es ++ leafEntries leaves) := by
  induction es generalizing file leaves Ls with
  | nil => exact ⟨file, leaves, Ls, rfl, h, List.Perm.refl _⟩
  | cons e es ih =>
    obtain ⟨key, row⟩ := e
    obtain ⟨file₁, leaves₁, Ls₁, X, Y, hins, h₁, hold, hnew⟩ :=
      h.insert_spec hleaf hint (hwf _ List.mem_cons_self) row
    obtain ⟨file', leaves', Ls', hall, h', hperm⟩ :=
      ih h₁ fun e he => hwf e (List.mem_cons_of_mem _ he)
    refine ⟨file', leaves', Ls', ?_, h', hperm.trans ?_⟩
    · simp only [IndexBPlusTree.insertAll, hins, bind, Except.bind, hall]
    · rw [hnew, hold]
      refine (List.Perm.append_left es List.perm_middle).trans ?_
      exact List.perm_middle

/-- The pairs a leaf holds. -/
def LeafIndexNode.entries (leaf : LeafIndexNode) : List (DataToken × RowPtr) :=
  leaf.keys.zip leaf.rows

theorem entries_leafNodes (leaves : List LeafBlock) :
    (leafNodes leaves).flatMap (fun v => v.2.entries) = leafEntries leaves := by
  induction leaves with
  | nil => rfl
  | cons l ls ih =>
    have hzip : l.keys.zip l.rows = l.entries := by
      rw [LeafBlock.keys, LeafBlock.rows, List.zip_map']
      exact List.map_id' _
    rw [leafNodes, List.flatMap_cons, ih, leafEntries, leafEntries, List.flatMap_cons]
    exact congrArg (· ++ _) hzip

theorem map_fst_leafNodes (leaves : List LeafBlock) :
    (leafNodes leaves).map Prod.fst = leaves.map LeafBlock.id := by
  induction leaves with
  | nil => rfl
  | cons l ls ih => rw [leafNodes, List.map_cons, List.map_cons, ih]

/-- Every leaf page is visited exactly once. -/
theorem Represents.leaf_ids_perm {tree : IndexBPlusTree} {file : IndexFile}
    {leaves : List LeafBlock} {Ls : List (List IndexBlock)} (h : Represents tree file leaves Ls) :
    (leaves.map LeafBlock.id).Perm ((file.pages.filter IndexPage.isLeaf).map IndexPage.id) := by
  have hnodup : (leaves.map LeafBlock.id).Nodup := (List.nodup_append.mp h.stored.nodup_nodes).1
  have hnodup' : ((file.pages.filter IndexPage.isLeaf).map IndexPage.id).Nodup :=
    h.stored.nodup.sublist (List.filter_sublist.map IndexPage.id)
  rw [List.perm_ext_iff_of_nodup hnodup hnodup']
  intro i
  constructor
  · intro hi
    obtain ⟨l, hl, rfl⟩ := List.mem_map.mp hi
    obtain ⟨p, hp, hid, hleaf⟩ := h.stored.exists_page_leaf hl
    exact List.mem_map.mpr ⟨p, List.mem_filter.mpr ⟨hp, hleaf⟩, hid⟩
  · intro hi
    obtain ⟨p, hp, rfl⟩ := List.mem_map.mp hi
    obtain ⟨hp, hleaf⟩ := List.mem_filter.mp hp
    rcases h.stored.page_cases hp with ⟨A, l, B, rfl, hid, -, -⟩ | ⟨b, hb, -, hleaf', -⟩
    · rw [hid]
      exact List.mem_map_of_mem (by simp)
    · rw [hleaf] at hleaf'
      exact absurd hleaf' (by simp)

/-- **An index contains what was inserted.** After any run of insertions into
the empty index, with any bounds and any keys:
walking down the first children and along the leaves visits every leaf page
exactly once and reads the inserted pairs, as a multiset, in key order; and a
lookup finds nothing exactly when no equal key was inserted, and otherwise a
row inserted under an equal key. -/
theorem insertAll_contents (tree : IndexBPlusTree) (hleaf : 1 ≤ tree.maxLeafKeys)
    (hint : 2 ≤ tree.maxInternalKeys) (indexId : IndexId) (es : List (DataToken × RowPtr))
    (hwf : ∀ e ∈ es, e.1.WellFormed) :
    ∃ file, tree.insertAll (IndexFile.create indexId) es = .ok file
      ∧ (∃ visited, scanLeaves file = .ok visited
        ∧ (visited.map Prod.fst).Nodup
        ∧ (visited.map Prod.fst).Perm ((file.pages.filter IndexPage.isLeaf).map IndexPage.id)
        ∧ (visited.flatMap fun v => v.2.entries).Perm es
        ∧ (visited.flatMap fun v => v.2.entries).Pairwise
            fun e e' => compareToken e.1 e'.1 ≤ 0)
      ∧ ∀ key : DataToken, key.WellFormed →
        (find file key = .ok none ↔ ∀ e ∈ es, compareToken e.1 key ≠ 0)
        ∧ ((∃ e ∈ es, compareToken e.1 key = 0) →
          ∃ e ∈ es, compareToken e.1 key = 0 ∧ find file key = .ok (some e.2)) := by
  obtain ⟨file, leaves, Ls, hall, h, hperm⟩ := (represents_create tree indexId).insertAll hleaf
    (le_trans one_le_two hint) hwf
  have hentries : (leafEntries leaves).Perm es := hperm.trans (List.Perm.of_eq (List.append_nil es))
  have hcmp : ∀ {key : DataToken}, key.WellFormed → ∀ e ∈ es,
      compareToken e.1 key = 0 ↔ e.1.rank = key.rank := fun hkey e he =>
    compareToken_eq_zero_iff (hwf e he) hkey
  refine ⟨file, hall, ⟨leafNodes leaves, h.scanLeaves_spec, ?_, ?_, ?_, ?_⟩, fun key hkey => ?_⟩
  · rw [map_fst_leafNodes]
    exact (List.nodup_append.mp h.stored.nodup_nodes).1
  · rw [map_fst_leafNodes]
    exact h.leaf_ids_perm
  · rw [entries_leafNodes]
    exact hentries
  · rw [entries_leafNodes]
    refine h.sorted.imp_of_mem fun he he' hle => ?_
    exact (compareToken_nonpos_iff (h.wf _ he) (h.wf _ he')).mpr hle
  · obtain ⟨hnone, hsome⟩ := h.find_spec hkey
    have hfound : (∃ e ∈ es, compareToken e.1 key = 0) →
        ∃ e ∈ es, compareToken e.1 key = 0 ∧ find file key = .ok (some e.2) := by
      rintro ⟨e, he, heq⟩
      obtain ⟨e', he', hrank, hfind⟩ :=
        hsome ⟨e, hentries.mem_iff.mpr he, (hcmp hkey e he).mp heq⟩
      have he'' := hentries.mem_iff.mp he'
      exact ⟨e', he'', (hcmp hkey e' he'').mpr hrank, hfind⟩
    refine ⟨⟨fun hfind e he heq => ?_, fun hall => hnone fun e he hrank => ?_⟩, hfound⟩
    · obtain ⟨e', -, -, hfind'⟩ := hfound ⟨e, he, heq⟩
      rw [hfind] at hfind'
      exact absurd hfind' (by simp)
    · have he' := hentries.mem_iff.mp he
      exact hall e he' ((hcmp hkey e he').mpr hrank)

/-- A run with a duplicate key that splits every leaf. -/
theorem insertAll_contents_duplicates :
    ∃ file, (⟨1, 2⟩ : IndexBPlusTree).insertAll (IndexFile.create 7)
        [(⟨[5, 0, 0, 0], .integer⟩, (1, 0)), (⟨[5, 0, 0, 0], .integer⟩, (1, 1)),
          (⟨[3, 0, 0, 0], .integer⟩, (1, 2))] = .ok file
      ∧ find file ⟨[4, 0, 0, 0], .integer⟩ = .ok none := by
  obtain ⟨file, hall, -, hfind⟩ := insertAll_contents ⟨1, 2⟩ le_rfl le_rfl 7
    [(⟨[5, 0, 0, 0], .integer⟩, (1, 0)), (⟨[5, 0, 0, 0], .integer⟩, (1, 1)),
      (⟨[3, 0, 0, 0], .integer⟩, (1, 2))] (by decide)
  exact ⟨file, hall, (hfind ⟨[4, 0, 0, 0], .integer⟩ (by decide)).1.mpr (by decide)⟩
