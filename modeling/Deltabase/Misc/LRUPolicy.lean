import Mathlib.Data.List.Nodup
import Mathlib.Data.Set.Function
import Mathlib.Logic.Function.Basic

/-!
# The policy of a cache

`cache::LRUPolicy` keeps a linked list of the keys, the most recently used one
at the front, and for each key an iterator to its node. An iterator stays good
when other nodes come and go, so nodes have an identity here: the list holds
them with their keys, and an iterator is the node that it points to.

To erase through an iterator whose node is gone, or to take the last key of an
empty list, is not defined. As long as the iterators are those of the list
(`LRUPolicy.WellFormed`) the first does not happen, and a touch moves the key to
the front (`WellFormed.touch`).
-/

/-- `cache::LRUPolicy`. -/
structure LRUPolicy (κ : Type) where
  /-- `lru_list_`: its nodes from the front, each with its key. -/
  lruList : List (ℕ × κ) := []
  /-- `pos_`. -/
  pos : κ → Option ℕ := fun _ => none
  /-- The node that is made next. -/
  fresh : ℕ := 0

namespace LRUPolicy

variable {κ : Type}

/-- `lru_list_.erase`. -/
def eraseNode (p : LRUPolicy κ) (node : ℕ) : Option (LRUPolicy κ) :=
  if node ∈ p.lruList.map Prod.fst then
    some { p with lruList := p.lruList.filter fun n => n.1 ≠ node }
  else none

/-- `lru_list_.push_front`, after which `pos_` has the iterator to the front. -/
def pushFront [DecidableEq κ] (p : LRUPolicy κ) (key : κ) : LRUPolicy κ where
  lruList := (p.fresh, key) :: p.lruList
  pos := Function.update p.pos key (some p.fresh)
  fresh := p.fresh + 1

/-- `touch`. -/
def touch [DecidableEq κ] (p : LRUPolicy κ) (key : κ) : Option (LRUPolicy κ) :=
  match p.pos key with
  | some node => (p.eraseNode node).map fun p => p.pushFront key
  | none => some (p.pushFront key)

/-- `insert`. -/
def insert [DecidableEq κ] (p : LRUPolicy κ) (key : κ) : Option (LRUPolicy κ) := p.touch key

/-- `evict`: the key that was last, and the policy. -/
def evict [DecidableEq κ] (p : LRUPolicy κ) : Option (κ × LRUPolicy κ) :=
  match p.lruList.getLast? with
  | none => none
  | some (_, old) =>
    some (old, { p with
      lruList := p.lruList.dropLast
      pos := Function.update p.pos old none })

/-- The keys, the most recently used one first. -/
def keys (p : LRUPolicy κ) : List κ := p.lruList.map Prod.snd

/-! ## The iterators are those of the list -/

/-- **A policy as it is kept**: no node is twice in the list, and the iterator of
a key points to the node that holds it. -/
structure WellFormed (p : LRUPolicy κ) : Prop where
  nodup : (p.lruList.map Prod.fst).Nodup
  lt_fresh : ∀ n ∈ p.lruList, n.1 < p.fresh
  pos_iff : ∀ key node, p.pos key = some node ↔ (node, key) ∈ p.lruList

variable {p : LRUPolicy κ} {key : κ}

/-- A policy that has just been made. -/
theorem wellFormed_empty : ({} : LRUPolicy κ).WellFormed where
  nodup := List.nodup_nil
  lt_fresh _ h := by cases h
  pos_iff key node := by simp

/-- **No key is twice in the list.** -/
theorem WellFormed.keys_nodup (h : p.WellFormed) : p.keys.Nodup := by
  refine (List.Nodup.of_map _ h.nodup).map_on fun n hn m hm hkey => ?_
  have hpos := (h.pos_iff n.2 n.1).mpr hn
  rw [hkey, (h.pos_iff m.2 m.1).mpr hm, Option.some.injEq] at hpos
  exact Prod.ext hpos.symm hkey

/-- The last key is not among the others. -/
theorem WellFormed.last_not_mem (h : p.WellFormed) {older : List κ} {old : κ}
    (hkeys : p.keys = older ++ [old]) : old ∉ older := by
  have hnodup := h.keys_nodup
  rw [hkeys, List.nodup_append] at hnodup
  exact fun hmem => hnodup.2.2 old hmem old (List.mem_singleton_self old) rfl

/-- There is an iterator of a key that is in the list. -/
theorem WellFormed.pos_ne_none (h : p.WellFormed) (hkey : key ∈ p.keys) : p.pos key ≠ none := by
  obtain ⟨n, hn, rfl⟩ := List.mem_map.mp hkey
  rw [(h.pos_iff n.2 n.1).mpr hn]
  exact Option.some_ne_none n.1

/-- The node that an iterator points to is the one that holds the key. -/
theorem WellFormed.fst_eq_iff (h : p.WellFormed) {node : ℕ} (hpos : p.pos key = some node)
    {n : ℕ × κ} (hn : n ∈ p.lruList) : n.1 = node ↔ n.2 = key := by
  constructor
  · intro hfst
    have heq := List.inj_on_of_nodup_map h.nodup hn ((h.pos_iff key node).mp hpos) hfst
    rw [heq]
  · intro hsnd
    have hn' := (h.pos_iff n.2 n.1).mpr hn
    rw [hsnd, hpos, Option.some.injEq] at hn'
    exact hn'.symm

section Changes

variable [DecidableEq κ]

/-- A key that is not in the list may be put in front. It may have an iterator,
which is written over. -/
theorem WellFormed.of_pushFront (hnodup : (p.lruList.map Prod.fst).Nodup)
    (hfresh : ∀ n ∈ p.lruList, n.1 < p.fresh) (hnew : key ∉ p.keys)
    (hpos : ∀ k ≠ key, ∀ node, p.pos k = some node ↔ (node, k) ∈ p.lruList) :
    (p.pushFront key).WellFormed where
  nodup := by
    refine List.nodup_cons.mpr ⟨fun hmem => ?_, hnodup⟩
    obtain ⟨n, hn, heq⟩ := List.mem_map.mp hmem
    exact (hfresh n hn).ne heq
  lt_fresh n hn := by
    cases List.mem_cons.mp hn with
    | inl heq => exact heq ▸ Nat.lt_succ_self p.fresh
    | inr hmem => exact Nat.lt_succ_of_lt (hfresh n hmem)
  pos_iff k node := by
    show Function.update p.pos key (some p.fresh) k = some node
      ↔ (node, k) ∈ (p.fresh, key) :: p.lruList
    rw [List.mem_cons, Prod.mk.injEq, Function.update_apply]
    by_cases hk : k = key
    · subst hk
      have habsent : (node, k) ∉ p.lruList := fun hmem =>
        hnew (List.mem_map_of_mem (f := Prod.snd) hmem)
      simp [habsent, eq_comm]
    · simp [hk, hpos k hk]

/-- What is left when the node of a key is erased: the other keys. -/
theorem WellFormed.keys_filter (h : p.WellFormed) {node : ℕ} (hpos : p.pos key = some node) :
    (p.lruList.filter fun n => n.1 ≠ node).map Prod.snd = p.keys.erase key := by
  rw [h.keys_nodup.erase_eq_filter, keys, List.filter_map]
  refine congrArg _ (List.filter_congr fun n hn => ?_)
  simp [h.fst_eq_iff hpos hn, bne, Bool.beq_eq_decide_eq]

/-- **A touch moves the key to the front**, wherever it was. -/
theorem WellFormed.touch (h : p.WellFormed) (key : κ) :
    ∃ p', p.touch key = some p' ∧ p'.WellFormed ∧ p'.keys = key :: p.keys.erase key := by
  cases hpos : p.pos key with
  | none =>
    have hnew : key ∉ p.keys := fun hmem => h.pos_ne_none hmem hpos
    refine ⟨p.pushFront key, ?_, ?_, ?_⟩
    · simp [LRUPolicy.touch, hpos]
    · exact .of_pushFront h.nodup h.lt_fresh hnew fun k _ => h.pos_iff k
    · rw [List.erase_of_not_mem hnew]
      rfl
  | some node =>
    have hmem : node ∈ p.lruList.map Prod.fst :=
      List.mem_map_of_mem (f := Prod.fst) ((h.pos_iff key node).mp hpos)
    have hkeys := h.keys_filter hpos
    refine ⟨({ p with lruList := p.lruList.filter fun n => n.1 ≠ node }).pushFront key, ?_, ?_, ?_⟩
    · simp [LRUPolicy.touch, eraseNode, hpos, hmem]
    · refine .of_pushFront ?_ ?_ ?_ ?_
      · exact h.nodup.sublist (List.filter_sublist.map Prod.fst)
      · exact fun n hn => h.lt_fresh n (List.mem_of_mem_filter hn)
      · show key ∉ (p.lruList.filter fun n => n.1 ≠ node).map Prod.snd
        rw [hkeys]
        exact h.keys_nodup.not_mem_erase
      · -- the iterators of the other keys still point to their nodes
        intro k hk node'
        rw [h.pos_iff k node', List.mem_filter]
        refine (and_iff_left_of_imp fun hn => decide_eq_true ?_).symm
        exact fun heq => hk ((h.fst_eq_iff hpos hn).mp heq)
    · exact congrArg (key :: ·) hkeys

/-- **What is evicted is the last key of the list.** -/
theorem WellFormed.evict (h : p.WellFormed) {older : List κ} {old : κ}
    (hkeys : p.keys = older ++ [old]) :
    ∃ p', p.evict = some (old, p') ∧ p'.WellFormed ∧ p'.keys = older := by
  obtain ⟨front, last, hlist, rfl, hlast⟩ := List.map_eq_append_iff.mp hkeys
  obtain ⟨n, rfl, rfl⟩ := List.map_eq_singleton_iff.mp hlast
  have hold := h.last_not_mem hkeys
  refine ⟨{ p with lruList := front, pos := Function.update p.pos n.2 none }, ?_, ?_, rfl⟩
  · simp [LRUPolicy.evict, hlist]
  · refine ⟨?_, fun m hm => h.lt_fresh m ?_, fun k node => ?_⟩
    · have hnodup := h.nodup
      rw [hlist, List.map_append, List.nodup_append] at hnodup
      exact hnodup.1
    · rw [hlist]
      exact List.mem_append_left [n] hm
    · show Function.update p.pos n.2 none k = some node ↔ (node, k) ∈ front
      rw [Function.update_apply]
      by_cases hk : k = n.2
      · subst hk
        have habsent : (node, n.2) ∉ front := fun hmem =>
          hold (List.mem_map.mpr ⟨(node, n.2), hmem, rfl⟩)
        simp [habsent]
      · have hne : (node, k) ≠ n := fun heq => hk (congrArg Prod.snd heq)
        simp [hk, h.pos_iff, hlist, hne]

end Changes

end LRUPolicy
