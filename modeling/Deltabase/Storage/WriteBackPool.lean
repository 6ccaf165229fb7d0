import Deltabase.Lib.Stateful
import Deltabase.Storage.EvictingPool
import Deltabase.Storage.PageFiles

/-!
# The cache of data pages

`misc::Cache` with `cache::LRUPolicy` in front of the page files. What the pool
does for its own reasons are quiet steps of a write-back cache: it reads a page
that is asked for, writes a dirty page when it evicts it or is told to flush,
and forgets the page it evicts. `Settles` says that of a call. A change through
a page pointer and `dirty_dp` is the one step that a client sees
(`assign_dirtyDp`).

The policy is asked for a victim only if the cache is full, and its list then
has the keys of the cache (`Cache.WellFormed`), so with a capacity of at least
one there is always a victim.

The cache of index files is not in the model.
-/

/-! ## What is found in the cache -/

namespace Cache

variable {κ α : Type} [DecidableEq κ]

section Entries

variable (entries : List (κ × CacheEntry α)) (key k : κ)

/-- The first entry of a key. -/
def found : Option (CacheEntry α) := (entries.find? fun entry => entry.1 = k).map Prod.snd

theorem found_cons (entry : CacheEntry α) :
    found ((key, entry) :: entries) k = if k = key then some entry else found entries k := by
  unfold found
  by_cases hk : k = key
  · rw [if_pos hk, List.find?_cons_of_pos (by exact decide_eq_true hk.symm)]
    rfl
  · rw [if_neg hk, List.find?_cons_of_neg]
    intro h
    exact hk (of_decide_eq_true h).symm

/-- An entry is found of exactly the keys that are there. -/
theorem found_isSome_iff : (found entries k).isSome ↔ k ∈ entries.map Prod.fst := by
  rw [found, Option.isSome_map, List.find?_isSome, List.mem_map]
  constructor
  · rintro ⟨entry, hmem, hk⟩
    exact ⟨entry, hmem, of_decide_eq_true hk⟩
  · rintro ⟨entry, hmem, hk⟩
    exact ⟨entry, hmem, decide_eq_true hk⟩

theorem found_map (f : CacheEntry α → CacheEntry α) :
    found (entries.map fun entry => if entry.1 = key then (key, f entry.2) else entry) k
      = if k = key then (found entries k).map f else found entries k := by
  induction entries with
  | nil => exact (ite_self _).symm
  | cons entry entries ih =>
    obtain ⟨k', e⟩ := entry
    show found ((if k' = key then (key, f e) else (k', e)) :: _) k = _
    by_cases hk' : k' = key
    · rw [if_pos hk', found_cons, found_cons, ih, hk']
      split_ifs <;> rfl
    · rw [if_neg hk', found_cons, found_cons, ih]
      by_cases hk : k = k'
      · rw [if_pos hk, if_pos hk, if_neg (hk ▸ hk')]
      · rw [if_neg hk, if_neg hk]

theorem found_filter :
    found (entries.filter fun entry => entry.1 ≠ key) k
      = if k = key then none else found entries k := by
  induction entries with
  | nil => exact (ite_self _).symm
  | cons entry entries ih =>
    obtain ⟨k', e⟩ := entry
    by_cases hk' : k' = key
    · rw [List.filter_cons_of_neg (by simpa using hk'), ih, found_cons, hk']
      split_ifs <;> rfl
    · rw [List.filter_cons_of_pos (by simpa using hk'), found_cons, found_cons, ih]
      by_cases hk : k = k'
      · rw [if_pos hk, if_pos hk, if_neg (hk ▸ hk')]
      · rw [if_neg hk, if_neg hk]

end Entries

/-- The keys that have an entry. -/
def keys (c : Cache κ α) : List κ := c.entries.map Prod.fst

/-- **A cache as it is kept**: one entry for each key, the keys of the entries
are those that the policy knows, and there are no more of them than there may
be. -/
structure WellFormed (c : Cache κ α) : Prop where
  nodup : c.keys.Nodup
  perm : c.lruList.Perm c.keys
  bound : c.keys.length ≤ c.maxSize

variable (c : Cache κ α) (key k : κ)

theorem find_eq_found : c.find k = found c.entries k := rfl

@[simp] theorem find_touch : (c.touch key).find k = c.find k := rfl

@[simp] theorem keys_touch : (c.touch key).keys = c.keys := rfl

theorem find_change (f : CacheEntry α → CacheEntry α) :
    (c.change key f).find k = if k = key then (c.find k).map f else c.find k :=
  found_map c.entries key k f

theorem keys_change (f : CacheEntry α → CacheEntry α) : (c.change key f).keys = c.keys := by
  unfold keys change
  rw [List.map_map]
  refine List.map_congr_left fun entry _ => ?_
  show (if entry.1 = key then (key, f entry.2) else entry).1 = entry.1
  split_ifs with h
  · exact h.symm
  · rfl

/-- A key that has an entry is one that the policy knows. -/
theorem WellFormed.touch {c : Cache κ α} (h : c.WellFormed) {key : κ} (hkey : key ∈ c.keys) :
    (c.touch key).WellFormed where
  nodup := h.nodup
  perm := (List.perm_cons_erase (h.perm.mem_iff.mpr hkey)).symm.trans h.perm
  bound := h.bound

theorem WellFormed.change {c : Cache κ α} (h : c.WellFormed) (key : κ)
    (f : CacheEntry α → CacheEntry α) : (c.change key f).WellFormed where
  nodup := (c.keys_change key f).symm ▸ h.nodup
  perm := (c.keys_change key f).symm ▸ h.perm
  bound := (c.keys_change key f).symm ▸ h.bound

/-- A cache that is full gives up an entry first. -/
def makeRoom : Option α × Cache κ α :=
  if c.entries.length ≥ c.maxSize then c.evictOne else (none, c)

theorem put_of_find_none {c : Cache κ α} {key : κ} (h : c.find key = none) (value : α) :
    c.put key value = (c.makeRoom.1, Cache.touch
      { c.makeRoom.2 with entries := (key, { value := value }) :: c.makeRoom.2.entries } key) := by
  unfold put makeRoom
  rw [h]

/-- **What is evicted**: the entry of a key that the policy knows, and what is
written is its value, if it is dirty. -/
theorem evictOne_cases {c : Cache κ α} (h : c.WellFormed) (hknown : c.lruList ≠ []) :
    ∃ last entry, c.find last = some entry
      ∧ c.evictOne.1 = (if entry.dirty then some entry.value else none)
      ∧ (∀ k, c.evictOne.2.find k = if k = last then none else c.find k)
      ∧ c.evictOne.2.WellFormed ∧ c.evictOne.2.keys.length + 1 = c.keys.length
      ∧ c.evictOne.2.maxSize = c.maxSize := by
  have hlast := List.getLast?_eq_some_getLast hknown
  have hmem : c.lruList.getLast hknown ∈ c.keys := h.perm.mem_iff.mp (List.getLast_mem hknown)
  generalize c.lruList.getLast hknown = last at hlast hmem
  have hsome : (c.find last).isSome := (found_isSome_iff c.entries last).mpr hmem
  obtain ⟨entry, hentry⟩ := Option.isSome_iff_exists.mp hsome
  have hevict : c.evictOne = ((c.victim.filter CacheEntry.dirty).map CacheEntry.value,
      { c with
        entries := c.entries.filter fun entry => entry.1 ≠ last
        lruList := c.lruList.dropLast }) := by
    unfold evictOne
    rw [hlast]
  have hvictim : c.victim = some entry := by
    rw [victim, hlast]
    exact hentry
  -- the policy forgets the key whose entry is erased
  have hkeys : (c.entries.filter fun entry => entry.1 ≠ last).map Prod.fst
      = c.keys.erase last := by
    rw [h.nodup.erase_eq_filter, keys, List.filter_map]
    refine congrArg _ (List.filter_congr fun e _ => ?_)
    show decide (¬e.1 = last) = !(e.1 == last)
    rw [decide_not, Bool.beq_eq_decide_eq]
  have hlist : c.lruList.dropLast ++ [last] = c.lruList := by
    rw [← List.dropLast_concat_getLast hknown]
    rw [List.getLast?_eq_some_getLast hknown, Option.some.injEq] at hlast
    rw [hlast, List.dropLast_concat]
  have hperm : (last :: c.lruList.dropLast).Perm c.keys := by
    refine List.Perm.trans ?_ h.perm
    conv_rhs => rw [← hlist]
    exact (List.perm_append_singleton last c.lruList.dropLast).symm
  have hlength : (c.keys.erase last).length + 1 = c.keys.length := by
    rw [List.length_erase_of_mem hmem]
    exact Nat.sub_add_cancel (List.length_pos_of_mem hmem)
  refine ⟨last, entry, hentry, ?_, ?_, ?_, ?_, ?_⟩
  · rw [hevict, hvictim]
    cases hdirty : entry.dirty <;> simp [Option.filter, hdirty]
  · intro k
    rw [hevict]
    exact found_filter c.entries last k
  · rw [hevict]
    refine ⟨?_, ?_, ?_⟩
    · show (List.map Prod.fst _).Nodup
      rw [hkeys]
      exact h.nodup.erase last
    · have herase := hperm.erase last
      rw [List.erase_cons_head] at herase
      show c.lruList.dropLast.Perm (List.map Prod.fst _)
      rw [hkeys]
      exact herase
    · show (List.map Prod.fst _).length ≤ c.maxSize
      rw [hkeys]
      exact (Nat.le_succ _).trans (hlength.trans_le h.bound)
  · rw [hevict]
    show (List.map Prod.fst _).length + 1 = c.keys.length
    rw [hkeys, hlength]
  · rw [hevict]

/-- A new entry keeps a cache with room for it well formed. -/
theorem WellFormed.insert {c : Cache κ α} (h : c.WellFormed) {key : κ} (hnew : c.find key = none)
    (hroom : c.keys.length < c.maxSize) (entry : CacheEntry α) :
    (Cache.touch { c with entries := (key, entry) :: c.entries } key).WellFormed := by
  have hkey : key ∉ c.keys := by
    intro hmem
    have hsome := (found_isSome_iff c.entries key).mpr hmem
    rw [← find_eq_found, hnew] at hsome
    cases hsome
  have hlru : c.lruList.erase key = c.lruList :=
    List.erase_of_not_mem fun hmem => hkey (h.perm.mem_iff.mp hmem)
  refine ⟨List.nodup_cons.mpr ⟨hkey, h.nodup⟩, ?_, hroom⟩
  show (key :: c.lruList.erase key).Perm (key :: c.keys)
  rw [hlru]
  exact h.perm.cons key

end Cache

/-! ## The pool -/

/-- `storage::BufferPool`, as far as it is about data pages. -/
structure PagePool where
  disk : PageDisk
  dataPages : Cache DataPageId LoadedPage := {}

/-- A call to the pool. -/
abbrev PoolProg (α : Type) := EStateM Exn PagePool α

namespace PagePool

open PageDisk (pages)

/-- What is written when a dirty page has been evicted. -/
def flushVictim (written : Option LoadedPage) (disk : PageDisk) : PageDisk :=
  match written with
  | none => disk
  | some p => disk.writePage p

/-- `data_pages_.put`. To evict, the policy takes the last key of its list,
which must not be empty. -/
def putDp (id : DataPageId) (p : LoadedPage) : PoolProg Unit := fun pool =>
  if (pool.dataPages.find id).isNone
      && decide (pool.dataPages.maxSize ≤ pool.dataPages.entries.length)
      && pool.dataPages.lruList.isEmpty then .error .outOfRange pool
  else .ok ()
    { disk := flushVictim (pool.dataPages.put id p).1 pool.disk
      dataPages := (pool.dataPages.put id p).2 }

/-- `data_pages_.get`. -/
def lookUp (id : DataPageId) : PoolProg (Option LoadedPage) := fun pool =>
  match pool.dataPages.find id with
  | none => .ok none pool
  | some entry => .ok (some entry.value) { pool with dataPages := pool.dataPages.touch id }

/-- `get_dp`. -/
def getDp (id : DataPageId) : PoolProg (Option LoadedPage) := do
  match ← lookUp id with
  | some p => pure (some p)
  | none =>
    let pool ← get
    match pool.disk.readDataPage id with
    | .error e => throw e
    | .ok none => pure none
    | .ok (some p) => do
      putDp id p
      lookUp id

/-- Writing through a page pointer. -/
def assign (id : DataPageId) (f : LoadedPage → LoadedPage) : PoolProg Unit :=
  modify fun pool => { pool with
    dataPages := pool.dataPages.change id fun entry => { entry with value := f entry.value } }

/-- `dirty_dp`. -/
def dirtyDp (id : DataPageId) : PoolProg (Option LoadedPage) := do
  modify fun pool => { pool with dataPages := pool.dataPages.markDirty id }
  lookUp id

/-- `create_dp`, with the id that `DataPageId::make` returns. The list of the
table's pages is not in the model. -/
def createDp (mt : MetaTable) (id : DataPageId) : PoolProg (Option LoadedPage) := do
  let pool ← get
  match FileIOManager.createPage pool.disk.rest mt id with
  | .error e => throw e
  | .ok page => do
    putDp id { page := page, fileName := id }
    lookUp id

/-- `flush`, of an entry that is dirty and satisfies the condition of the
loop. -/
def flush (due : CacheEntry LoadedPage → Bool) (pool : PagePool) (id : DataPageId) : PagePool :=
  match pool.dataPages.find id with
  | none => pool
  | some entry =>
    if due entry then
      { disk := pool.disk.writePage entry.value
        dataPages := pool.dataPages.change id fun entry => { entry with dirty := false } }
    else pool

/-- `flush_dirty`, where `order` is the order in which the map of the cache is
gone through. -/
def flushDirty (order : List DataPageId → List DataPageId) (pool : PagePool) : PagePool :=
  (order pool.dataPages.keys).foldl (flush CacheEntry.dirty) pool

/-- `flush_dirty(max_lsn)`. -/
def flushDirtyUpTo (order : List DataPageId → List DataPageId) (maxLsn : ℕ) (pool : PagePool) :
    PagePool :=
  (order pool.dataPages.keys).foldl (flush (CacheEntry.due (fun p => p.page.lastLsn) maxLsn)) pool

/-- A pool that has just been made. -/
def start (capacity : ℕ) (disk : PageDisk) : PagePool :=
  { disk := disk, dataPages := { maxSize := capacity } }

/-! ### It is a write-back cache -/

/-- **The pool as a cache in front of the page files.** -/
def cached (pool : PagePool) : Cached PageDisk DataPageId LoadedPage where
  store := pool.disk
  held id := (pool.dataPages.find id).map fun entry => (entry.value, entry.dirty)

variable {pool : PagePool} {id : DataPageId}

theorem held_of_find {entry : CacheEntry LoadedPage} (h : pool.dataPages.find id = some entry) :
    pool.cached.held id = some (entry.value, entry.dirty) := by
  show (pool.dataPages.find id).map _ = _
  rw [h]
  rfl

theorem held_of_find_none (h : pool.dataPages.find id = none) : pool.cached.held id = none := by
  show (pool.dataPages.find id).map _ = _
  rw [h]
  rfl

/-- Two pools that find the same in front of the same files are the same
cache. -/
theorem cached_eq {pool' : PagePool} {c : Cached PageDisk DataPageId LoadedPage}
    (hstore : pool'.disk = c.store) (hheld : ∀ k, pool'.cached.held k = c.held k) :
    pool'.cached = c := by
  obtain ⟨store, held⟩ := c
  show Cached.mk pool'.disk pool'.cached.held = ⟨store, held⟩
  rw [show pool'.cached.held = held from funext hheld, show pool'.disk = store from hstore]

/-- **A pool as it is kept.** -/
structure Kept (pool : PagePool) : Prop where
  wellFormed : pool.dataPages.WellFormed
  capacity : 1 ≤ pool.dataPages.maxSize
  coherent : pages.Coherent pool.cached

/-- **What a call does that a client does not see**: the cache takes quiet steps,
and the pool is kept. -/
structure Settles (pool pool' : PagePool) : Prop where
  wellFormed : pool'.dataPages.WellFormed
  capacity : pool'.dataPages.maxSize = pool.dataPages.maxSize
  quietly : pages.Quietly pool.cached pool'.cached
  rest : pool'.disk.rest = pool.disk.rest

theorem Settles.trans {pool pool' pool'' : PagePool} (h : Settles pool pool')
    (h' : Settles pool' pool'') : Settles pool pool'' :=
  ⟨h'.wellFormed, h'.capacity.trans h.capacity, h.quietly.trans h'.quietly, h'.rest.trans h.rest⟩

theorem Settles.kept {pool pool' : PagePool} (h : Settles pool pool') (hkept : Kept pool) :
    Kept pool' :=
  ⟨h.wellFormed, h.capacity ▸ hkept.capacity, (hkept.coherent.quietly h.quietly).1⟩

/-- The victim is written, if it is dirty, and forgotten. -/
theorem settles_makeRoom (h : Kept pool) :
    Settles pool
        { disk := flushVictim pool.dataPages.makeRoom.1 pool.disk
          dataPages := pool.dataPages.makeRoom.2 }
      ∧ pool.dataPages.makeRoom.2.keys.length < pool.dataPages.makeRoom.2.maxSize
      ∧ ∀ id, pool.dataPages.find id = none → pool.dataPages.makeRoom.2.find id = none := by
  unfold Cache.makeRoom
  by_cases hfull : pool.dataPages.entries.length ≥ pool.dataPages.maxSize
  · rw [if_pos hfull]
    have hkeys : pool.dataPages.keys.length = pool.dataPages.entries.length := List.length_map _
    have hknown : pool.dataPages.lruList ≠ [] := by
      intro hnil
      have hlength := h.wellFormed.perm.length_eq
      rw [hnil, hkeys] at hlength
      have hcap := h.capacity.trans hfull
      rw [← hlength] at hcap
      cases hcap
    obtain ⟨last, entry, hentry, hwritten, hfind, hwell, hlength, hmax⟩ :=
      Cache.evictOne_cases h.wellFormed hknown
    have hheld := held_of_find hentry
    have hforgotten : ∀ disk : PageDisk, (PagePool.mk disk pool.dataPages.evictOne.2).cached
        = Cached.hold { pool.cached with store := disk } last none := by
      refine fun disk => cached_eq rfl fun k => ?_
      show (pool.dataPages.evictOne.2.find k).map _ = _
      rw [hfind]
      by_cases hk : k = last
      · rw [if_pos hk, hk, Cached.hold_self]
        rfl
      · rw [if_neg hk, Cached.hold_of_ne _ _ hk]
        rfl
    refine ⟨⟨hwell, hmax, ?_, ?_⟩, ?_, fun id hid => ?_⟩
    · rw [hwritten, hforgotten]
      cases hdirty : entry.dirty with
      | false =>
        rw [hdirty] at hheld
        exact .single (.drop hheld)
      | true =>
        rw [hdirty] at hheld
        have hclean := BackingStore.Quiet.drop (S := pages) (Cached.hold_self
          { pool.cached with store := pool.disk.writePage entry.value } last
          (some (entry.value, false)))
        rw [Cached.hold_hold] at hclean
        exact (Relation.ReflTransGen.single (.writeBack hheld)).tail hclean
    · rw [hwritten]
      cases entry.dirty <;> rfl
    · rw [hmax]
      have hbound := h.wellFormed.bound
      rw [← hlength] at hbound
      exact hbound
    · rw [hfind, hid, ite_self]
  · rw [if_neg hfull]
    refine ⟨⟨h.wellFormed, rfl, .refl, rfl⟩, ?_, fun id hid => hid⟩
    show (pool.dataPages.entries.map Prod.fst).length < _
    rw [List.length_map]
    exact Nat.lt_of_not_ge hfull

/-- **What `put` does with a new key**: there is room, after a victim has been
written and forgotten, and the page is in the cache, not dirty. -/
theorem putDp_new (h : Kept pool) (hnew : pool.dataPages.find id = none) (p : LoadedPage) :
    ∃ room pool', putDp id p pool = .ok () pool' ∧ Settles pool room
      ∧ room.dataPages.find id = none
      ∧ pool'.disk = room.disk ∧ pool'.dataPages.maxSize = room.dataPages.maxSize
      ∧ pool'.dataPages.WellFormed
      ∧ ∀ k, pool'.dataPages.find k
          = if k = id then some { value := p } else room.dataPages.find k := by
  obtain ⟨hsettles, hroom, hkept⟩ := settles_makeRoom h
  have hput := Cache.put_of_find_none hnew p
  -- a list that is empty is that of an empty cache, which is not full
  have hguard : ((pool.dataPages.find id).isNone
      && decide (pool.dataPages.maxSize ≤ pool.dataPages.entries.length)
      && pool.dataPages.lruList.isEmpty) = false := by
    rw [hnew]
    cases hlist : pool.dataPages.lruList with
    | cons => exact Bool.and_false _
    | nil =>
      have hlength := h.wellFormed.perm.length_eq
      rw [hlist, Cache.keys, List.length_map] at hlength
      rw [← hlength, decide_eq_false]
      · rfl
      · exact Nat.not_le_of_lt h.capacity
  let room := pool.dataPages.makeRoom.2
  refine ⟨_, ⟨flushVictim pool.dataPages.makeRoom.1 pool.disk, Cache.touch
    { room with entries := (id, { value := p }) :: room.entries } id⟩,
    ?_, hsettles, hkept id hnew, rfl, rfl, ?_, fun k => ?_⟩
  · unfold putDp
    rw [hguard, hput]
    rfl
  · exact hsettles.wellFormed.insert (hkept id hnew) hroom _
  · exact Cache.found_cons _ id k _

theorem cached_hold {pool' : PagePool} {entry : CacheEntry LoadedPage}
    (hdisk : pool'.disk = pool.disk) (hfind : ∀ k, pool'.dataPages.find k
      = if k = id then some entry else pool.dataPages.find k) :
    pool'.cached = pool.cached.hold id (some (entry.value, entry.dirty)) := by
  refine cached_eq hdisk fun k => ?_
  show (pool'.dataPages.find k).map _ = _
  rw [hfind]
  by_cases hk : k = id
  · rw [if_pos hk, hk, Cached.hold_self]
    rfl
  · rw [if_neg hk, Cached.hold_of_ne _ _ hk]
    rfl

/-- Touching a page that is there. -/
theorem lookUp_of_find {entry : CacheEntry LoadedPage} (hwell : pool.dataPages.WellFormed)
    (hfind : pool.dataPages.find id = some entry) :
    ∃ pool', lookUp id pool = .ok (some entry.value) pool' ∧ Settles pool pool'
      ∧ pool'.disk = pool.disk ∧ pool'.dataPages.find = pool.dataPages.find := by
  have hkey : id ∈ pool.dataPages.keys :=
    (Cache.found_isSome_iff pool.dataPages.entries id).mp (Option.isSome_of_eq_some hfind)
  refine ⟨{ pool with dataPages := pool.dataPages.touch id }, ?_, ?_, rfl, rfl⟩
  · unfold lookUp
    rw [hfind]
  · exact ⟨hwell.touch hkey, rfl, .refl, rfl⟩

/-- **What `get_dp` does**: it throws or finds nothing where a client would see
that, and nothing changes; or it returns the page that a client sees, which is
then in the cache. -/
theorem getDp_cases (h : Kept pool) (id : DataPageId) :
    (∃ e, getDp id pool = .error e pool ∧ pages.view pool.cached id = .error e)
      ∨ (getDp id pool = .ok none pool ∧ pages.view pool.cached id = .ok none)
      ∨ ∃ entry pool', getDp id pool = .ok (some entry.value) pool' ∧ Settles pool pool'
          ∧ pool'.dataPages.find id = some entry := by
  cases hfind : pool.dataPages.find id with
  | some entry =>
    obtain ⟨pool', hlook, hsettles, -, hsame⟩ := lookUp_of_find h.wellFormed hfind
    refine Or.inr (Or.inr ⟨entry, pool', ?_, hsettles, hsame ▸ hfind⟩)
    unfold getDp
    rw [Stateful.bind_ok hlook]
    rfl
  | none =>
    have hlook : lookUp id pool = .ok none pool := by
      unfold lookUp
      rw [hfind]
    have hget : getDp id pool = (match pool.disk.readDataPage id with
        | .error e => throw e
        | .ok none => pure none
        | .ok (some p) => do
          putDp id p
          lookUp id : PoolProg (Option LoadedPage)) pool := by
      unfold getDp
      rw [Stateful.bind_ok hlook]
      exact Stateful.bind_ok (show (get : PoolProg PagePool) pool = .ok pool pool from rfl)
    have hview : pages.view pool.cached id = (pool.disk.readDataPage id).map (Option.map _) :=
      pages.view_of_not_held (held_of_find_none hfind)
    rw [hget, hview]
    cases hread : pool.disk.readDataPage id with
    | error e => exact Or.inl ⟨e, rfl, rfl⟩
    | ok found =>
      cases found with
      | none => exact Or.inr (Or.inl ⟨rfl, rfl⟩)
      | some p =>
        obtain ⟨room, pool₁, hput, hsettles, hnone, hdisk, hmax, hwell, hfound⟩ :=
          putDp_new h hfind p
        have hentry : pool₁.dataPages.find id = some { value := p } := by
          rw [hfound, if_pos rfl]
        obtain ⟨pool₂, hlook₂, htouched, -, hsame⟩ := lookUp_of_find hwell hentry
        -- the page that has been read is still what the disk reads
        have hview' : pages.read room.disk id = pages.shown p := by
          have hseen := pages.view_of_not_held (c := room.cached) (held_of_find_none hnone)
          rw [(h.coherent.quietly hsettles.quietly).2, hview, hread] at hseen
          exact hseen.symm
        have hhome : pages.Home room.disk id p := PageDisk.home_of_readCore hview'
          (PageDisk.home_of_readDataPage hread).fits
        have hload : Settles room pool₁ := by
          refine ⟨hwell, hmax, .single ?_, congrArg _ hdisk⟩
          rw [cached_hold hdisk hfound]
          exact .load (held_of_find_none hnone) hhome hview'
        refine Or.inr (Or.inr ⟨{ value := p }, pool₂, ?_, (hsettles.trans hload).trans htouched,
          hsame ▸ hentry⟩)
        show (putDp id p >>= fun _ => lookUp id) pool = _
        rw [Stateful.bind_ok hput]
        exact hlook₂

/-- A flush writes a dirty page and clears its mark. -/
theorem settles_flush (h : Kept pool) {due : CacheEntry LoadedPage → Bool}
    (hdue : ∀ entry, due entry = true → entry.dirty = true) (id : DataPageId) :
    Settles pool (flush due pool id) := by
  unfold flush
  cases hfind : pool.dataPages.find id with
  | none => exact ⟨h.wellFormed, rfl, .refl, rfl⟩
  | some entry =>
    show Settles pool (if due entry then _ else pool)
    by_cases hentry : due entry = true
    · rw [if_pos hentry]
      have hheld := held_of_find hfind
      rw [hdue entry hentry] at hheld
      refine ⟨Cache.WellFormed.change h.wellFormed id fun entry => { entry with dirty := false },
        rfl, .single ?_, rfl⟩
      have hclean : (PagePool.mk (pool.disk.writePage entry.value)
          (pool.dataPages.change id fun entry => { entry with dirty := false })).cached
            = Cached.hold { pool.cached with store := pool.disk.writePage entry.value } id
              (some (entry.value, false)) := by
        have hchange := fun k => Cache.find_change pool.dataPages id k
          (fun entry => { entry with dirty := false })
        have hfound : ∀ k, (pool.dataPages.change id fun entry =>
            { entry with dirty := false }).find k
              = if k = id then some { entry with dirty := false } else pool.dataPages.find k := by
          intro k
          by_cases hk : k = id
          · rw [if_pos hk, hchange, if_pos hk, hk, hfind]
            rfl
          · rw [if_neg hk, hchange, if_neg hk]
        exact @cached_hold ⟨pool.disk.writePage entry.value, pool.dataPages⟩ id _
          { entry with dirty := false } rfl hfound
      rw [hclean]
      exact .writeBack hheld
    · rw [if_neg hentry]
      exact ⟨h.wellFormed, rfl, .refl, rfl⟩

/-- So does a loop of flushes, whichever keys it goes through. -/
theorem settles_foldl_flush {due : CacheEntry LoadedPage → Bool}
    (hdue : ∀ entry, due entry = true → entry.dirty = true) (ids : List DataPageId) :
    ∀ {pool : PagePool}, Kept pool → Settles pool (ids.foldl (flush due) pool) := by
  induction ids with
  | nil => exact fun h => ⟨h.wellFormed, rfl, .refl, rfl⟩
  | cons id ids ih =>
    intro pool h
    have hflush := settles_flush h hdue id
    exact hflush.trans (ih (hflush.kept h))

/-- **A change and `dirty_dp`** put the changed page into the cache, marked. -/
theorem assign_dirtyDp {entry : CacheEntry LoadedPage} (hwell : pool.dataPages.WellFormed)
    (hfind : pool.dataPages.find id = some entry) (f : LoadedPage → LoadedPage) :
    ∃ pool', (assign id f >>= fun _ => dirtyDp id) pool = .ok (some (f entry.value)) pool'
      ∧ pool'.dataPages.WellFormed ∧ pool'.dataPages.maxSize = pool.dataPages.maxSize
      ∧ pool'.disk = pool.disk
      ∧ pool'.cached = pool.cached.hold id (some (f entry.value, true)) := by
  let changed : PagePool := { pool with
    dataPages := pool.dataPages.change id fun entry => { entry with value := f entry.value } }
  have hchanged : changed.dataPages.find id = some { entry with value := f entry.value } := by
    show Cache.find (pool.dataPages.change id _) id = _
    rw [Cache.find_change, if_pos rfl, hfind]
    rfl
  have hkey : id ∈ pool.dataPages.keys :=
    (Cache.found_isSome_iff pool.dataPages.entries id).mp (Option.isSome_of_eq_some hfind)
  let marked : PagePool := { changed with
    dataPages := (changed.dataPages.touch id).change id fun entry => { entry with dirty := true } }
  have hmark : changed.dataPages.markDirty id = marked.dataPages := by
    unfold Cache.markDirty
    rw [hchanged]
  have hfound : ∀ k, marked.dataPages.find k
      = if k = id then some { value := f entry.value, dirty := true }
        else pool.dataPages.find k := by
    intro k
    show Cache.find (Cache.change _ id _) k = _
    rw [Cache.find_change, Cache.find_touch]
    by_cases hk : k = id
    · rw [if_pos hk, if_pos hk, hk, hchanged]
      rfl
    · rw [if_neg hk, if_neg hk]
      show Cache.find (pool.dataPages.change id _) k = _
      rw [Cache.find_change, if_neg hk]
  have hwell' : marked.dataPages.WellFormed := by
    have htouched : (changed.dataPages.touch id).WellFormed := by
      refine Cache.WellFormed.touch (hwell.change id _) ?_
      rw [Cache.keys_change]
      exact hkey
    exact htouched.change id fun entry => { entry with dirty := true }
  have hentry : marked.dataPages.find id = some { value := f entry.value, dirty := true } := by
    rw [hfound, if_pos rfl]
  obtain ⟨pool', hlook, hsettles, hdisk, hsame⟩ := lookUp_of_find hwell' hentry
  refine ⟨pool', ?_, hsettles.wellFormed, hsettles.capacity, hdisk, ?_⟩
  · show lookUp id { changed with dataPages := changed.dataPages.markDirty id } = _
    rw [hmark]
    exact hlook
  · have hfind' : ∀ k, pool'.dataPages.find k = if k = id
        then some { value := f entry.value, dirty := true } else pool.dataPages.find k :=
      fun k => (congrFun hsame k).trans (hfound k)
    exact cached_hold (show pool'.disk = pool.disk from hdisk) hfind'

end PagePool
