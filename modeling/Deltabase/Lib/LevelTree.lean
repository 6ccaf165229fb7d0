import Mathlib.Data.List.Basic
import Mathlib.Data.List.Perm.Basic
import Mathlib.Order.WithBot

/-!
# Search trees, level by level

A search tree whose leaves all lie at the same depth is a stack of levels. The
level below is a list of `Item`s, a node id with a lower bound of the keys
below the node; the level above groups consecutive items into `Block`s, and is
itself a list of items for the level above it, one per block. The stack ends
when one item is left, the root.

A block keeps its first item and, for each further child, the separator key in
front of it. The lower bound of a further child *is* the rank of its separator,
so a block cannot disagree with its separators, and it has one more child than
keys by construction. The leftmost item of a level has the lower bound `⊥`: no
separator stands in front of it, so an insertion that lowers the least key of
the tree changes no item.

Three facts carry the verification of a B+ tree. A search that counts the
separators at most the key it looks for stops at the last item whose bound is
at most the key (`Block.exists_child`). An item inserted behind another one
stays in its block (`Block.items_insertAt`), and a block cut at a separator is
two blocks, the second bounded by that separator (`Block.items_cut`).
-/

/-- A node as the level above it sees it. -/
structure Item (κ : Type*) where
  id : ℕ
  low : WithBot κ

/-- An internal node: its first child, and the further children with the
separators in front of them. -/
structure Block (K κ : Type*) where
  id : ℕ
  first : Item κ
  rest : List (K × ℕ)

section

variable {K κ : Type*} (rank : K → κ)

namespace Block

/-- The separators. -/
def keys (b : Block K κ) : List K := b.rest.map Prod.fst

/-- The ids of the children. -/
def children (b : Block K κ) : List ℕ := b.first.id :: b.rest.map Prod.snd

/-- A further child as an item. -/
def restItem (e : K × ℕ) : Item κ := ⟨e.2, rank e.1⟩

/-- The children as items. -/
def items (b : Block K κ) : List (Item κ) := b.first :: b.rest.map (restItem rank)

/-- The block as an item of the level above. -/
def item (b : Block K κ) : Item κ := ⟨b.id, b.first.low⟩

@[simp] theorem item_id (b : Block K κ) : b.item.id = b.id := rfl

@[simp] theorem length_keys (b : Block K κ) : b.keys.length = b.rest.length :=
  List.length_map _

theorem length_children (b : Block K κ) : b.children.length = b.rest.length + 1 := by
  rw [children, List.length_cons, List.length_map]

@[simp] theorem map_id_items (b : Block K κ) : (b.items rank).map Item.id = b.children := by
  unfold items children
  rw [List.map_cons, List.map_map]
  rfl

/-- The block with a new child at a position among the further children. -/
def insertAt (b : Block K κ) (i : ℕ) (e : K × ℕ) : Block K κ :=
  { b with rest := b.rest.insertIdx i e }

@[simp] theorem insertAt_item (b : Block K κ) (i : ℕ) (e : K × ℕ) :
    (b.insertAt i e).item = b.item := rfl

end Block

/-- Inserting at the seam of two lists. -/
theorem insertIdx_append_length {α : Type*} (l l' : List α) (a : α) :
    (l ++ l').insertIdx l.length a = l ++ a :: l' := by
  induction l with
  | nil => rfl
  | cons x l ih =>
    rw [List.cons_append, List.length_cons, List.insertIdx_succ_cons, ih, List.cons_append]

/-- A search depends on its test at the elements of the list only. -/
theorem findIdx_congr_mem {α : Type*} {l : List α} {p q : α → Bool} (h : ∀ a ∈ l, p a = q a) :
    l.findIdx p = l.findIdx q :=
  le_antisymm (List.findIdx_le_findIdx fun a ha hq => (h a ha).trans hq)
    (List.findIdx_le_findIdx fun a ha hp => (h a ha).symm.trans hp)

namespace Block

/-- The separators of the enlarged block. -/
theorem keys_insertAt (b : Block K κ) {i : ℕ} (hi : i ≤ b.rest.length) (e : K × ℕ) :
    (b.insertAt i e).keys = b.keys.insertIdx i e.1 := by
  obtain ⟨l, l', hl, hrest⟩ : ∃ l l', l.length = i ∧ b.rest = l ++ l' :=
    ⟨b.rest.take i, b.rest.drop i, List.length_take_of_le hi, (List.take_append_drop i _).symm⟩
  have hlen : (l.map Prod.fst).length = i := by rw [List.length_map, hl]
  unfold insertAt keys
  rw [hrest, ← hl, insertIdx_append_length, List.map_append, List.map_append, List.map_cons]
  rw [hl, ← hlen, insertIdx_append_length]

/-- The children of the enlarged block. -/
theorem children_insertAt (b : Block K κ) {i : ℕ} (hi : i ≤ b.rest.length) (e : K × ℕ) :
    (b.insertAt i e).children = b.children.insertIdx (i + 1) e.2 := by
  obtain ⟨l, l', hl, hrest⟩ : ∃ l l', l.length = i ∧ b.rest = l ++ l' :=
    ⟨b.rest.take i, b.rest.drop i, List.length_take_of_le hi, (List.take_append_drop i _).symm⟩
  have hlen : (l.map Prod.snd).length = i := by rw [List.length_map, hl]
  unfold insertAt children
  rw [List.insertIdx_succ_cons, hrest, ← hl, insertIdx_append_length, List.map_append,
    List.map_append, List.map_cons]
  rw [hl, ← hlen, insertIdx_append_length]

/-- **A new item stays in the block of the item it is inserted behind.** -/
theorem items_insertAt (b : Block K κ) {C D : List (Item κ)} {c : Item κ}
    (h : b.items rank = C ++ c :: D) (e : K × ℕ) :
    (b.insertAt C.length e).items rank = C ++ c :: restItem rank e :: D := by
  unfold items at h
  unfold insertAt items
  cases C with
  | nil =>
    rw [List.nil_append, List.cons.injEq] at h
    show b.first :: (e :: b.rest).map (restItem rank) = c :: restItem rank e :: D
    rw [List.map_cons, h.2, h.1]
  | cons x C =>
    rw [List.cons_append, List.cons.injEq] at h
    obtain ⟨hx, hrest⟩ := h
    have hlen : C.length + 1 ≤ b.rest.length := by
      have := congrArg List.length hrest
      rw [List.length_map, List.length_append, List.length_cons] at this
      omega
    -- the entries behind the new one are those behind `c`
    obtain ⟨l, l', hl, hsplit⟩ : ∃ l l', l.length = C.length + 1 ∧ b.rest = l ++ l' :=
      ⟨_, _, List.length_take_of_le hlen, (List.take_append_drop _ _).symm⟩
    rw [hsplit, List.map_append] at hrest
    have hcut : l.map (restItem rank) = C ++ [c] ∧ l'.map (restItem rank) = D := by
      refine List.append_inj (hrest.trans (List.append_cons C c D)) ?_
      rw [List.length_map, hl, List.length_append, List.length_singleton]
    show b.first :: (b.rest.insertIdx (C.length + 1) e).map (restItem rank) = _
    rw [hsplit, ← hl, insertIdx_append_length, List.map_append, List.map_cons, hcut.1, hcut.2, hx]
    simp

/-- **A block cut at a separator** is two blocks, the second bounded by the
separator. -/
theorem items_cut (b : Block K κ) {l l' : List (K × ℕ)} {k : K} {x : ℕ}
    (h : b.rest = l ++ (k, x) :: l') (newId : ℕ) :
    ({ b with rest := l } : Block K κ).items rank
        ++ (⟨newId, ⟨x, rank k⟩, l'⟩ : Block K κ).items rank = b.items rank := by
  unfold items
  rw [h, List.map_append, List.map_cons]
  rfl

section Search

variable [LinearOrder κ]

/-- **A search among separators stops at the last child bounded by the key.**
The number of leading separators at most `q` is the position of a child whose
bound is at most `q`, and every child behind it has a greater one. -/
theorem exists_child (q : κ) (b : Block K κ) (hfirst : b.first.low ≤ q)
    (hsorted : ((b.items rank).map Item.low).Pairwise (· ≤ ·)) :
    ∃ (C : List (Item κ)) (c : Item κ) (D : List (Item κ)), b.items rank = C ++ c :: D
      ∧ C.length = b.keys.findIdx (fun k => decide (q < rank k))
      ∧ c.low ≤ q ∧ ∀ d ∈ D, (q : WithBot κ) < d.low := by
  obtain ⟨id, first, rest⟩ := b
  -- the first child moves along with the search
  induction rest generalizing first with
  | nil => exact ⟨[], first, [], rfl, rfl, hfirst, by simp⟩
  | cons e rest ih =>
    obtain ⟨k, x⟩ := e
    by_cases hlt : q < rank k
    · refine ⟨[], first, _, rfl, ?_, hfirst, ?_⟩
      · rw [keys, List.map_cons, List.findIdx_cons]
        simp [hlt]
      · intro d hd
        -- everything behind the separator is at least the separator
        have htail : (rank k : WithBot κ) ≤ d.low := by
          rw [items, List.map_cons, List.map_cons, List.pairwise_cons] at hsorted
          have hrest := List.pairwise_cons.mp hsorted.2
          rcases List.mem_cons.mp hd with rfl | hd
          · exact le_rfl
          · exact hrest.1 _ (List.mem_map_of_mem hd)
        exact lt_of_lt_of_le (WithBot.coe_lt_coe.mpr hlt) htail
    · rw [not_lt] at hlt
      obtain ⟨C, c, D, hitems, hlen, hc, hD⟩ := ih ⟨x, rank k⟩ (WithBot.coe_le_coe.mpr hlt)
        (List.Pairwise.of_cons hsorted)
      refine ⟨first :: C, c, D, ?_, ?_, hc, hD⟩
      · show first :: _ = first :: (C ++ c :: D)
        rw [← hitems]
        rfl
      · rw [List.length_cons, hlen]
        show _ = List.findIdx _ (k :: rest.map Prod.fst)
        rw [List.findIdx_cons]
        simp [not_lt.mpr hlt, keys]

end Search

end Block

/-! ## Stacks of levels -/

/-- **The levels above a list of items**, bottom up. -/
def Chain : List (Item κ) → List (List (Block K κ)) → Prop
  | items, [] => ∃ c, items = [c]
  | items, L :: Ls => L.flatMap (Block.items rank) = items ∧ Chain (L.map Block.item) Ls

/-- The id of the root above a list of items. -/
def chainRoot : List (Item κ) → List (List (Block K κ)) → ℕ
  | items, [] => (items.map Item.id).headD 0
  | _, L :: Ls => chainRoot (L.map Block.item) Ls

/-- **Where an item lies**: `c` with the items `P` in front of it and `S`
behind it, and the ids of the blocks above it, bottom up. -/
def Located : List (Item κ) → Item κ → List (Item κ) → List (List (Block K κ)) → List ℕ → Prop
  | P, _, S, [], path => P = [] ∧ S = [] ∧ path = []
  | P, c, S, L :: Ls, path => ∃ A b B C D path', L = A ++ b :: B
      ∧ b.items rank = C ++ c :: D
      ∧ P = A.flatMap (Block.items rank) ++ C ∧ S = D ++ B.flatMap (Block.items rank)
      ∧ path = b.id :: path' ∧ Located (A.map Block.item) b.item (B.map Block.item) Ls path'

variable {rank}

/-- A located item is in its place. -/
theorem Located.chain {P S : List (Item κ)} {c : Item κ} {Ls : List (List (Block K κ))}
    {path : List ℕ} (h : Located rank P c S Ls path) : Chain rank (P ++ c :: S) Ls := by
  induction Ls generalizing P c S path with
  | nil =>
    obtain ⟨rfl, rfl, -⟩ := h
    exact ⟨c, rfl⟩
  | cons L Ls ih =>
    obtain ⟨A, b, B, C, D, path', rfl, hb, rfl, rfl, -, hup⟩ := h
    refine ⟨?_, ?_⟩
    · rw [List.flatMap_append, List.flatMap_cons, hb]
      simp
    · rw [List.map_append, List.map_cons]
      exact ih hup

/-- There is no level without items. -/
theorem Chain.ne_nil {items : List (Item κ)} {Ls : List (List (Block K κ))}
    (h : Chain rank items Ls) : items ≠ [] := by
  induction Ls generalizing items with
  | nil =>
    obtain ⟨c, rfl⟩ := h
    exact List.cons_ne_nil c []
  | cons L Ls ih =>
    intro hnil
    have hL : L = [] := by
      cases L with
      | nil => rfl
      | cons b L =>
        have hflat := h.1
        rw [hnil, List.flatMap_cons, Block.items] at hflat
        exact absurd hflat (by simp)
    exact ih h.2 (by rw [hL]; rfl)

/-- There are no more levels than nodes in them. -/
theorem Chain.length_le {items : List (Item κ)} {Ls : List (List (Block K κ))}
    (h : Chain rank items Ls) : Ls.length ≤ Ls.flatten.length := by
  induction Ls generalizing items with
  | nil => exact Nat.zero_le _
  | cons L Ls ih =>
    have hpos : 0 < L.length := by
      have hne := h.2.ne_nil
      rw [ne_eq, List.map_eq_nil_iff] at hne
      exact List.length_pos_iff.mpr hne
    have hup := ih h.2
    rw [List.flatten_cons, List.length_append, List.length_cons]
    omega

/-- The root of a chain is the id of some node. -/
theorem Chain.root_mem {items : List (Item κ)} {Ls : List (List (Block K κ))}
    (h : Chain rank items Ls) :
    chainRoot items Ls ∈ items.map Item.id ++ Ls.flatten.map Block.id := by
  induction Ls generalizing items with
  | nil =>
    obtain ⟨c, rfl⟩ := h
    exact List.mem_append_left _ List.mem_cons_self
  | cons L Ls ih =>
    have hup := ih h.2
    rw [List.map_map] at hup
    rw [List.flatten_cons, List.map_append, chainRoot]
    exact List.mem_append_right _ hup

/-- **Every node but the root is a child exactly once.** -/
theorem Chain.root_cons_children_perm {items : List (Item κ)} {Ls : List (List (Block K κ))}
    (h : Chain rank items Ls) :
    (chainRoot items Ls :: Ls.flatten.flatMap Block.children).Perm
      (items.map Item.id ++ Ls.flatten.map Block.id) := by
  induction Ls generalizing items with
  | nil =>
    obtain ⟨c, rfl⟩ := h
    exact List.Perm.refl _
  | cons L Ls ih =>
    have hchildren : L.flatMap Block.children = items.map Item.id := by
      rw [← h.1, List.map_flatMap]
      exact List.flatMap_congr fun b _ => (b.map_id_items rank).symm
    have hup := ih h.2
    rw [List.map_map] at hup
    rw [List.flatten_cons, List.flatMap_append, List.map_append, chainRoot, hchildren]
    exact List.perm_middle.symm.trans (hup.append_left _)

/-- The bounds of a level are among those of the level below, in order. -/
theorem lows_sublist (L : List (Block K κ)) :
    ((L.map Block.item).map Item.low).Sublist ((L.flatMap (Block.items rank)).map Item.low) := by
  induction L with
  | nil => exact List.Sublist.refl _
  | cons b L ih =>
    rw [List.map_cons, List.map_cons, List.flatMap_cons, List.map_append, Block.items,
      List.map_cons, List.cons_append]
    exact List.Sublist.cons_cons _ (ih.trans (List.sublist_append_right _ _))

end
