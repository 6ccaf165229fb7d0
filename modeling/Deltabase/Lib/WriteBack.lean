import Mathlib.Logic.Function.Basic
import Mathlib.Logic.Relation

/-!
# Write-back caches

A cache in front of a store holds some of the values, each with a mark that
says whether the store has yet to be told of it. `view` is what a client sees:
the value in the cache if there is one, else what the store reads.

Some things a cache does for its own reasons: it takes a value in from the
store, it writes a marked value to the store and clears the mark, it forgets a
value that is not marked. In a coherent cache, one whose unmarked values are
those of the store, a client does not see them (`Quiet.view`), in whatever
order they come. What a client does see is a new value that is put under a key
(`view_put`); it is marked.

A store need not take every value under every key: `Home s k a` says that `a`
written into `s` is found under `k`.
-/

variable {σ κ α ρ : Type*}

/-- **A store**: what it reads under a key, and what it is after a value has
been written. A client is shown a value as the store would read it. -/
structure BackingStore (σ κ α ρ : Type*) where
  read : σ → κ → ρ
  write : σ → α → σ
  shown : α → ρ
  Home : σ → κ → α → Prop
  read_write : ∀ {s k a}, Home s k a → read (write s a) k = shown a
  read_write_of_ne : ∀ {s k k' a}, Home s k a → k' ≠ k → read (write s a) k' = read s k'
  home_write : ∀ {s k a}, Home s k a → Home (write s a) k a
  home_write_of_ne : ∀ {s k k' a a'}, Home s k a → k' ≠ k → Home s k' a' →
    Home (write s a) k' a'

/-- **A store behind a cache**: the values in the cache, each with its mark. -/
structure Cached (σ κ α : Type*) where
  store : σ
  held : κ → Option (α × Bool)

namespace Cached

variable [DecidableEq κ]

/-- The cache holds something else under a key, or no longer anything. -/
def hold (c : Cached σ κ α) (k : κ) (x : Option (α × Bool)) : Cached σ κ α :=
  { c with held := Function.update c.held k x }

@[simp] theorem hold_store (c : Cached σ κ α) (k : κ) (x : Option (α × Bool)) :
    (c.hold k x).store = c.store := rfl

@[simp] theorem hold_self (c : Cached σ κ α) (k : κ) (x : Option (α × Bool)) :
    (c.hold k x).held k = x := by
  show Function.update c.held k x k = x
  rw [Function.update_self]

theorem hold_of_ne (c : Cached σ κ α) {k k' : κ} (x : Option (α × Bool)) (hk : k' ≠ k) :
    (c.hold k x).held k' = c.held k' := by
  show Function.update c.held k x k' = c.held k'
  rw [Function.update_of_ne hk]

@[simp] theorem hold_hold (c : Cached σ κ α) (k : κ) (x y : Option (α × Bool)) :
    (c.hold k x).hold k y = c.hold k y := by
  show Cached.mk c.store (Function.update (Function.update c.held k x) k y) = _
  rw [Function.update_idem]
  rfl

end Cached

namespace BackingStore

variable (S : BackingStore σ κ α ρ)

/-- What a client sees under a key. -/
def view (c : Cached σ κ α) (k : κ) : ρ :=
  match c.held k with
  | some (a, _) => S.shown a
  | none => S.read c.store k

theorem view_of_held {c : Cached σ κ α} {k : κ} {a : α} {d : Bool} (h : c.held k = some (a, d)) :
    S.view c k = S.shown a := by
  rw [view, h]

theorem view_of_not_held {c : Cached σ κ α} {k : κ} (h : c.held k = none) :
    S.view c k = S.read c.store k := by
  rw [view, h]

/-- **A coherent cache**: its values belong where they are held, and those
without a mark are what the store reads. -/
structure Coherent (c : Cached σ κ α) : Prop where
  home : ∀ {k a d}, c.held k = some (a, d) → S.Home c.store k a
  clean : ∀ {k a}, c.held k = some (a, false) → S.read c.store k = S.shown a

/-- A marked value may be written: the mark is still there, and the other
values are read as before. -/
theorem Coherent.write {S : BackingStore σ κ α ρ} {c : Cached σ κ α} (hc : S.Coherent c) {k : κ}
    {a : α}
    (hheld : c.held k = some (a, true)) :
    S.Coherent { c with store := S.write c.store a } := by
  have hhome := hc.home hheld
  constructor
  · intro k' a' d h
    by_cases hk : k' = k
    · rw [show c.held k' = some (a, true) from hk ▸ hheld] at h
      cases h
      exact hk ▸ S.home_write hhome
    · exact S.home_write_of_ne hhome hk (hc.home h)
  · intro k' a' h
    have hne : k' ≠ k := by
      intro hk
      rw [show c.held k' = some (a, true) from hk ▸ hheld] at h
      cases h
    exact (S.read_write_of_ne hhome hne).trans (hc.clean h)

variable [DecidableEq κ]

/-- What a client sees changes under one key when what is held does. -/
theorem view_hold (c : Cached σ κ α) (k : κ) (x : Option (α × Bool)) :
    S.view (c.hold k x) = Function.update (S.view c) k (S.view (c.hold k x) k) := by
  funext k'
  by_cases hk : k' = k
  · rw [hk, Function.update_self]
  · rw [Function.update_of_ne hk, view, view, c.hold_of_ne x hk, Cached.hold_store]

/-- What is held may become anything that belongs there and, without a mark, is
what the store reads. -/
theorem Coherent.hold {S : BackingStore σ κ α ρ} {c : Cached σ κ α} (hc : S.Coherent c) {k : κ}
    {x : Option (α × Bool)} (hhome : ∀ {a d}, x = some (a, d) → S.Home c.store k a)
    (hclean : ∀ {a}, x = some (a, false) → S.read c.store k = S.shown a) :
    S.Coherent (c.hold k x) := by
  constructor
  · intro k' a d h
    by_cases hk : k' = k
    · rw [hk, Cached.hold_self] at h
      rw [hk]
      exact hhome h
    · rw [c.hold_of_ne x hk] at h
      exact hc.home h
  · intro k' a h
    by_cases hk : k' = k
    · rw [hk, Cached.hold_self] at h
      rw [hk]
      exact hclean h
    · rw [c.hold_of_ne x hk] at h
      exact hc.clean h

/-! ## What is not seen -/

/-- **What a cache does for its own reasons.** -/
inductive Quiet (c : Cached σ κ α) : Cached σ κ α → Prop
  | load {k : κ} {a : α} (hheld : c.held k = none) (hhome : S.Home c.store k a)
      (hread : S.read c.store k = S.shown a) : Quiet c (c.hold k (some (a, false)))
  | writeBack {k : κ} {a : α} (hheld : c.held k = some (a, true)) :
      Quiet c (Cached.hold { c with store := S.write c.store a } k (some (a, false)))
  | drop {k : κ} {a : α} (hheld : c.held k = some (a, false)) : Quiet c (c.hold k none)

variable {S}

/-- **A quiet step keeps a cache coherent.** -/
theorem Quiet.coherent {c c' : Cached σ κ α} (hc : S.Coherent c) (h : S.Quiet c c') :
    S.Coherent c' := by
  cases h with
  | load hheld hhome hread =>
    refine hc.hold (fun h => ?_) (fun h => ?_)
    · cases h
      exact hhome
    · cases h
      exact hread
  | writeBack hheld =>
    have hhome := hc.home hheld
    refine (hc.write hheld).hold (fun h => ?_) (fun h => ?_)
    · cases h
      exact S.home_write hhome
    · cases h
      exact S.read_write hhome
  | drop hheld => exact hc.hold (fun h => nomatch h) (fun h => nomatch h)

/-- **A quiet step is not seen.** -/
theorem Quiet.view {c c' : Cached σ κ α} (hc : S.Coherent c) (h : S.Quiet c c') :
    S.view c' = S.view c := by
  cases h with
  | load hheld hhome hread =>
    rw [view_hold, S.view_of_held (Cached.hold_self _ _ _), ← hread, ← S.view_of_not_held hheld,
      Function.update_eq_self]
  | @writeBack k a hheld =>
    funext k'
    by_cases hk : k' = k
    · rw [hk, S.view_of_held hheld]
      exact S.view_of_held (Cached.hold_self _ _ _)
    · -- under another key neither the cache nor the store has changed
      rw [BackingStore.view, BackingStore.view, Cached.hold_of_ne _ _ hk, Cached.hold_store,
        S.read_write_of_ne (hc.home hheld) hk]
  | drop hheld =>
    rw [view_hold, S.view_of_not_held (Cached.hold_self _ _ _), Cached.hold_store,
      hc.clean hheld, ← S.view_of_held hheld, Function.update_eq_self]

variable (S)

/-- Quiet steps, one after another. -/
abbrev Quietly : Cached σ κ α → Cached σ κ α → Prop := Relation.ReflTransGen S.Quiet

variable {S}

/-- **Any number of quiet steps** keeps a cache coherent and is not seen. -/
theorem Coherent.quietly {c c' : Cached σ κ α} (hc : S.Coherent c) (h : S.Quietly c c') :
    S.Coherent c' ∧ S.view c' = S.view c := by
  induction h with
  | refl => exact ⟨hc, rfl⟩
  | tail _ hstep ih => exact ⟨hstep.coherent ih.1, (hstep.view ih.1).trans ih.2⟩

/-! ## What is seen -/

/-- **A new value is seen**, under its key and no other. -/
theorem view_put (c : Cached σ κ α) (k : κ) (a : α) (d : Bool) :
    S.view (c.hold k (some (a, d))) = Function.update (S.view c) k (S.shown a) := by
  rw [view_hold, S.view_of_held (Cached.hold_self _ _ _)]

/-- A new value that is marked and belongs where it is put keeps a cache
coherent. -/
theorem Coherent.put {c : Cached σ κ α} (hc : S.Coherent c) {k : κ} {a : α}
    (hhome : S.Home c.store k a) : S.Coherent (c.hold k (some (a, true))) := by
  refine hc.hold (fun h => ?_) (fun h => ?_)
  · cases h
    exact hhome
  · cases h

end BackingStore
