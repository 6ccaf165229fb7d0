import Deltabase.Lib.Stateful
import Deltabase.Lib.Transition
import Deltabase.Misc.LRUPolicy
import Deltabase.Storage.WriteBackPool

/-!
# The cache and its policy

`storage::Buffer` is `misc::Cache` with `cache::LRUPolicy`: a map of entries and,
apart from it, the policy's list of the keys. `Cache` has both in one and takes
them to agree. Here they are two structures that the operations change one after
the other, and a flusher may throw in between: `evict_one` has the policy forget
the victim, then calls the victim's flusher, and then erases the entry.

While the flushers return, the two agree and the buffer is the `Cache` of the
other modules (`Buffer.toCache`): each operation on the one is the operation on
the other. A flusher that throws leaves an entry that the policy does not know
(`WellFormed.evictOne_throws`).

A flusher is whatever was passed to `put`: what it does when it is called, and
how it leaves the entry, is a parameter (`Flushers`).
-/

/-! ## The buffer -/

/-- `misc::Cache::CacheEntry`, with its flusher. -/
structure BufferEntry (α φ : Type) where
  value : α
  dirty : Bool := false
  flush : φ
  deriving DecidableEq

/-- What happens to entries. -/
inductive BufferEvent (κ α φ : Type) where
  /-- The entry of a key is passed to its flusher. -/
  | flushed (key : κ) (entry : BufferEntry α φ)
  /-- The entry of a key is erased. -/
  | erased (key : κ)
  deriving DecidableEq

/-- `storage::Buffer`. -/
structure Buffer (κ α φ : Type) where
  maxSize : ℕ := 100
  /-- `map_`. -/
  map : List (κ × BufferEntry α φ) := []
  /-- `policy_`. -/
  policy : LRUPolicy κ := {}
  /-- What has happened so far, which only the model keeps. -/
  events : List (BufferEvent κ α φ) := []

/-- **What the flushers do** when they are called: how they leave the entry, and
whether they throw. -/
abbrev Flushers (α φ ε : Type) := φ → BufferEntry α φ → BufferEntry α φ × Except ε Unit

/-- Why a call does not return. -/
inductive Fault (ε : Type) where
  /-- A flusher has thrown. -/
  | thrown (e : ε)
  /-- What happens is not defined. -/
  | undefined
  deriving DecidableEq

/-- A program of a buffer. -/
abbrev BufferProg (κ α φ ε β : Type) := EStateM (Fault ε) (Buffer κ α φ) β

namespace Buffer

variable {κ α φ ε : Type} [DecidableEq κ]

/-- The entry of a key. -/
def find (b : Buffer κ α φ) (key : κ) : Option (BufferEntry α φ) :=
  (b.map.find? fun entry => entry.1 = key).map Prod.snd

/-- Changes the entry of a key. -/
def change (b : Buffer κ α φ) (key : κ) (f : BufferEntry α φ → BufferEntry α φ) : Buffer κ α φ :=
  { b with map := b.map.map fun entry => if entry.1 = key then (key, f entry.2) else entry }

/-- `map_.emplace`, of a key that has no entry. -/
def emplace (b : Buffer κ α φ) (key : κ) (entry : BufferEntry α φ) : Buffer κ α φ :=
  { b with map := (key, entry) :: b.map }

/-- `map_.erase`. -/
def erase (b : Buffer κ α φ) (key : κ) : Buffer κ α φ :=
  { b with
    map := b.map.filter fun entry => entry.1 ≠ key
    events := b.events ++ [.erased key] }

/-- `policy_.touch`. -/
def touch (key : κ) : BufferProg κ α φ ε Unit := fun b =>
  match b.policy.touch key with
  | none => .error .undefined b
  | some policy => .ok () { b with policy := policy }

/-- `policy_.insert`. -/
def insert (key : κ) : BufferProg κ α φ ε Unit := fun b =>
  match b.policy.insert key with
  | none => .error .undefined b
  | some policy => .ok () { b with policy := policy }

/-- `policy_.evict`. -/
def evict : BufferProg κ α φ ε κ := fun b =>
  match b.policy.evict with
  | none => .error .undefined b
  | some (old, policy) => .ok old { b with policy := policy }

/-- `victim.flush(victim)`. -/
def flushVictim (flushers : Flushers α φ ε) (key : κ) (victim : BufferEntry α φ) :
    BufferProg κ α φ ε Unit := fun b =>
  let (left, outcome) := flushers victim.flush victim
  let b := { b.change key fun _ => left with events := b.events ++ [.flushed key victim] }
  match outcome with
  | .ok () => .ok () b
  | .error e => .error (.thrown e) b

/-- What `evict_one` does with the entry that it has found. -/
def dropVictim (flushers : Flushers α φ ε) (key : κ) (victim : BufferEntry α φ) :
    BufferProg κ α φ ε Unit := do
  if victim.dirty then
    flushVictim flushers key victim
  modify fun b => b.erase key

/-- `evict_one`. -/
def evictOne (flushers : Flushers α φ ε) : BufferProg κ α φ ε Unit := do
  let victimKey ← evict
  match (← get).find victimKey with
  | none => pure ()
  | some victim => dropVictim flushers victimKey victim

/-- `put`. -/
def put (flushers : Flushers α φ ε) (key : κ) (value : α) (flush : φ) :
    BufferProg κ α φ ε Unit := do
  match (← get).find key with
  | some _ =>
    modify fun b => b.change key fun entry => { entry with value := value }
    touch key
  | none =>
    let b ← get
    if b.map.length ≥ b.maxSize then
      evictOne flushers
    modify fun b => b.emplace key { value := value, flush := flush }
    insert key

/-- `get`: the entry that the pointer points to. -/
def getEntry (key : κ) : BufferProg κ α φ ε (Option (BufferEntry α φ)) := do
  match (← get).find key with
  | none => pure none
  | some _ =>
    touch key
    pure ((← get).find key)

/-- `mark_dirty`. -/
def markDirty (key : κ) : BufferProg κ α φ ε Unit := do
  match (← get).find key with
  | none => pure ()
  | some _ =>
    touch key
    modify fun b => b.change key fun entry => { entry with dirty := true }

end Buffer

/-! ## The cache that a buffer is -/

/-- An entry, without its flusher. -/
def BufferEntry.toCacheEntry {α φ : Type} (entry : BufferEntry α φ) : CacheEntry α where
  value := entry.value
  dirty := entry.dirty

namespace Buffer

variable {κ α φ ε : Type} [DecidableEq κ]

/-- The keys that have an entry. -/
def keys (b : Buffer κ α φ) : List κ := b.map.map Prod.fst

/-- **The cache that a buffer is**, when its list is that of its policy. -/
def toCache (b : Buffer κ α φ) : Cache κ α where
  maxSize := b.maxSize
  entries := b.map.map fun entry => (entry.1, entry.2.toCacheEntry)
  lruList := b.policy.keys

section Entries

variable (b : Buffer κ α φ) (key : κ)

omit [DecidableEq κ] in
@[simp] theorem keys_toCache : b.toCache.keys = b.keys := List.map_map

omit [DecidableEq κ] in
@[simp] theorem length_entries_toCache : b.toCache.entries.length = b.map.length :=
  List.length_map _

theorem find_toCache : b.toCache.find key = (b.find key).map BufferEntry.toCacheEntry := by
  unfold Cache.find find toCache
  rw [List.find?_map, Option.map_map, Option.map_map]
  rfl

theorem find_isSome_iff : (b.find key).isSome ↔ key ∈ b.keys := by
  rw [← Option.isSome_map (f := BufferEntry.toCacheEntry), ← find_toCache, ← keys_toCache]
  exact Cache.found_isSome_iff b.toCache.entries key

variable {b key} in
theorem mem_keys_of_find_some {entry : BufferEntry α φ} (hfind : b.find key = some entry) :
    key ∈ b.keys := by
  rw [← find_isSome_iff, hfind]
  rfl

variable {b key} in
theorem not_mem_keys_of_find_none (hfind : b.find key = none) : key ∉ b.keys := by
  rw [← find_isSome_iff, hfind]
  exact Bool.false_ne_true

variable {b key} in
/-- A key without an entry has none in the cache. -/
theorem find_toCache_none (hfind : b.find key = none) : b.toCache.find key = none := by
  rw [find_toCache, hfind]
  rfl

theorem toCache_change {f : BufferEntry α φ → BufferEntry α φ} {g : CacheEntry α → CacheEntry α}
    (hfg : ∀ entry, (f entry).toCacheEntry = g entry.toCacheEntry) :
    (b.change key f).toCache = b.toCache.change key g := by
  unfold toCache change Cache.change
  rw [List.map_map, List.map_map]
  refine congrArg (fun entries => Cache.mk b.maxSize entries b.policy.keys) ?_
  refine List.map_congr_left fun entry _ => ?_
  show ((if entry.1 = key then (key, f entry.2) else entry).1,
      (if entry.1 = key then (key, f entry.2) else entry).2.toCacheEntry)
    = if entry.1 = key then (key, g entry.2.toCacheEntry) else (entry.1, entry.2.toCacheEntry)
  split_ifs with hkey
  · rw [hfg]
  · rfl

theorem toCache_assign (value : α) :
    (b.change key fun entry => { entry with value := value }).toCache
      = b.toCache.change key fun entry => { entry with value := value } :=
  toCache_change b key fun _ => rfl

theorem toCache_mark : (b.change key fun entry => { entry with dirty := true }).toCache
    = b.toCache.change key fun entry => { entry with dirty := true } :=
  toCache_change b key fun _ => rfl

/-- An entry that is erased may as well have been changed before. -/
theorem map_erase_change (f : BufferEntry α φ → BufferEntry α φ) :
    ((b.change key f).erase key).map = (b.erase key).map := by
  show (b.map.map fun entry => if entry.1 = key then (key, f entry.2) else entry).filter _
    = b.map.filter _
  induction b.map with
  | nil => rfl
  | cons entry entries ih =>
    by_cases hkey : entry.1 = key
    · simpa [hkey] using ih
    · simpa [hkey] using ih

end Entries

/-! ### What is kept -/

/-- **A buffer as it is kept**: the iterators of the policy are those of its
list, and the list has the keys of the map. -/
structure WellFormed (b : Buffer κ α φ) : Prop where
  policy : b.policy.WellFormed
  cache : b.toCache.WellFormed

variable {b : Buffer κ α φ} {key : κ}

omit [DecidableEq κ] in
/-- The policy knows the keys that have an entry. -/
theorem WellFormed.mem_keys (h : b.WellFormed) : key ∈ b.policy.keys ↔ key ∈ b.keys := by
  rw [← keys_toCache]
  exact h.cache.perm.mem_iff

omit [DecidableEq κ] in
theorem WellFormed.length_map (h : b.WellFormed) : b.map.length = b.policy.keys.length := by
  rw [← length_entries_toCache, ← List.length_map (f := Prod.fst)]
  exact h.cache.perm.length_eq.symm

omit [DecidableEq κ] in
theorem WellFormed.length_le (h : b.WellFormed) : b.map.length ≤ b.maxSize := by
  rw [← length_entries_toCache, ← List.length_map (f := Prod.fst)]
  exact h.cache.bound

/-- **A touch moves the key to the front**, and the cache is touched. -/
theorem WellFormed.touch (h : b.WellFormed) (hkey : key ∈ b.keys) (ε : Type) :
    ∃ policy, (Buffer.touch key : BufferProg κ α φ ε Unit) b = .ok () { b with policy := policy }
      ∧ { b with policy := policy }.WellFormed
      ∧ policy.keys = key :: b.policy.keys.erase key
      ∧ { b with policy := policy }.toCache = b.toCache.touch key := by
  obtain ⟨policy, htouch, hpolicy, hkeys⟩ := h.policy.touch key
  have hcache : { b with policy := policy }.toCache = b.toCache.touch key :=
    congrArg (Cache.mk b.maxSize b.toCache.entries) hkeys
  refine ⟨policy, ?_, ⟨hpolicy, ?_⟩, hkeys, hcache⟩
  · unfold Buffer.touch
    rw [htouch]
  · rw [hcache]
    refine h.cache.touch ?_
    rw [keys_toCache]
    exact hkey

theorem WellFormed.assign (h : b.WellFormed) (key : κ) (value : α) :
    (b.change key fun entry => { entry with value := value }).WellFormed where
  policy := h.policy
  cache := toCache_assign b key value ▸ h.cache.change key _

theorem WellFormed.mark (h : b.WellFormed) (key : κ) :
    (b.change key fun entry => { entry with dirty := true }).WellFormed where
  policy := h.policy
  cache := toCache_mark b key ▸ h.cache.change key _

/-- **A new entry**, in a buffer that has room for it. -/
theorem WellFormed.insert (h : b.WellFormed) (hnew : b.find key = none)
    (hroom : b.map.length < b.maxSize) (entry : BufferEntry α φ) (ε : Type) :
    ∃ policy, (Buffer.insert key : BufferProg κ α φ ε Unit) (b.emplace key entry)
        = .ok () { b.emplace key entry with policy := policy }
      ∧ { b.emplace key entry with policy := policy }.WellFormed
      ∧ policy.keys = key :: b.policy.keys.erase key
      ∧ { b.emplace key entry with policy := policy }.toCache = Cache.touch
        { b.toCache with entries := (key, entry.toCacheEntry) :: b.toCache.entries } key := by
  obtain ⟨policy, htouch, hpolicy, hkeys⟩ := h.policy.touch key
  have hcache : { b.emplace key entry with policy := policy }.toCache
      = Cache.touch { b.toCache with entries := (key, entry.toCacheEntry) :: b.toCache.entries }
          key :=
    congrArg (Cache.mk b.maxSize ((key, entry.toCacheEntry) :: b.toCache.entries)) hkeys
  refine ⟨policy, ?_, ⟨hpolicy, ?_⟩, hkeys, hcache⟩
  · show (match b.policy.touch key with | none => _ | some policy => _) = _
    rw [htouch]
  · rw [hcache]
    refine h.cache.insert (find_toCache_none hnew) ?_ entry.toCacheEntry
    rw [keys_toCache, keys, List.length_map]
    exact hroom

/-! ### An eviction -/

/-- **What happens to the entry that is evicted**: it is passed to its flusher if
it is dirty, and then erased. -/
def evictionOf (key : κ) (victim : BufferEntry α φ) : List (BufferEvent κ α φ) :=
  if victim.dirty then [.flushed key victim, .erased key] else [.erased key]

/-- The entry of the key that the policy gives up next. -/
def victim (b : Buffer κ α φ) : Option (BufferEntry α φ) := b.policy.keys.getLast?.bind b.find

/-- **The entry may be evicted**: it is clean, or its flusher returns. -/
def MayFlush (flushers : Flushers α φ ε) (victim : BufferEntry α φ) : Prop :=
  victim.dirty = true → (flushers victim.flush victim).2 = .ok ()

/-- **An entry has been evicted.** -/
structure Evicted (b b' : Buffer κ α φ) (old : κ) (victim : BufferEntry α φ) : Prop where
  found : b.find old = some victim
  list : b.policy.keys = b'.policy.keys ++ [old]
  cache : b'.toCache = b.toCache.evictOne.2
  events : b'.events = b.events ++ evictionOf old victim
  maxSize : b'.maxSize = b.maxSize

variable {flushers : Flushers α φ ε} {old : κ} {older : List κ} {entry : BufferEntry α φ}

/-- The policy of a buffer that has entries gives up one of them. -/
theorem WellFormed.exists_victim (h : b.WellFormed) (hne : b.keys ≠ []) :
    ∃ older old entry, b.policy.keys = older ++ [old] ∧ b.find old = some entry
      ∧ b.victim = some entry := by
  have hlist : b.policy.keys ≠ [] := by
    intro hnil
    have hperm := h.cache.perm
    rw [keys_toCache] at hperm
    exact hne (List.perm_nil.mp (hnil ▸ hperm.symm))
  have hsplit := (List.dropLast_concat_getLast hlist).symm
  have hmem := h.mem_keys.mp (List.getLast_mem hlist)
  obtain ⟨entry, hentry⟩ := Option.isSome_iff_exists.mp ((find_isSome_iff b _).mpr hmem)
  refine ⟨_, _, entry, hsplit, hentry, ?_⟩
  rw [victim, List.getLast?_eq_some_getLast hlist]
  exact hentry

/-- An entry that may be evicted is erased. -/
theorem dropVictim_ok (b : Buffer κ α φ) (key : κ) (hmay : MayFlush flushers entry) :
    dropVictim flushers key entry b = .ok ()
      { b with map := (b.erase key).map, events := b.events ++ evictionOf key entry } := by
  unfold dropVictim evictionOf
  cases hdirty : entry.dirty with
  | false => rfl
  | true =>
    have hflush : flushVictim flushers key entry b = .ok ()
        { b.change key fun _ => (flushers entry.flush entry).1 with
          events := b.events ++ [.flushed key entry] } := by
      show (match (flushers entry.flush entry).2 with | .ok () => _ | .error e => _) = _
      rw [hmay hdirty]
    show (flushVictim flushers key entry >>= fun _ => modify fun b => b.erase key) b = _
    rw [Stateful.bind_ok hflush]
    refine congrArg (EStateM.Result.ok ()) ?_
    show Buffer.mk b.maxSize
      ((b.change key fun _ => (flushers entry.flush entry).1).erase key).map b.policy
      (b.events ++ [.flushed key entry] ++ [.erased key]) = _
    rw [map_erase_change, List.append_assoc]
    rfl

/-- A flusher that throws leaves the entry. -/
theorem dropVictim_throws (b : Buffer κ α φ) (key : κ) (hmay : ¬MayFlush flushers entry) :
    ∃ e b', dropVictim flushers key entry b = .error (.thrown e) b' ∧ b'.keys = b.keys
      ∧ b'.policy = b.policy := by
  obtain ⟨hdirty, hthrows⟩ := Classical.not_imp.mp hmay
  unfold dropVictim
  rw [if_pos hdirty]
  cases hout : (flushers entry.flush entry).2 with
  | ok u => exact absurd hout hthrows
  | error e =>
    have hflush : flushVictim flushers key entry b = .error (.thrown e)
        { b.change key fun _ => (flushers entry.flush entry).1 with
          events := b.events ++ [.flushed key entry] } := by
      show (match (flushers entry.flush entry).2 with | .ok () => _ | .error e => _) = _
      rw [hout]
    refine ⟨e, _, Stateful.bind_error hflush, ?_, rfl⟩
    show (b.change key fun _ => (flushers entry.flush entry).1).keys = b.keys
    rw [← keys_toCache,
      toCache_change b key (g := fun _ => (flushers entry.flush entry).1.toCacheEntry)
      fun _ => rfl, Cache.keys_change, keys_toCache]

/-- What `evict_one` does once the policy has given up a key. -/
theorem WellFormed.evictOne_eq (h : b.WellFormed) (hlist : b.policy.keys = older ++ [old])
    (hfind : b.find old = some entry) (flushers : Flushers α φ ε) :
    ∃ policy : LRUPolicy κ, policy.WellFormed ∧ policy.keys = older ∧
      evictOne flushers b = dropVictim flushers old entry { b with policy := policy } := by
  obtain ⟨policy, hevict, hpolicy, hkeys⟩ := h.policy.evict hlist
  refine ⟨policy, hpolicy, hkeys, ?_⟩
  have hevict' : (evict : BufferProg κ α φ ε κ) b = .ok old { b with policy := policy } := by
    unfold evict
    rw [hevict]
  unfold evictOne
  rw [Stateful.bind_ok hevict']
  show (match b.find old with
    | none => pure ()
    | some victim => dropVictim flushers old victim : BufferProg κ α φ ε Unit) _ = _
  rw [hfind]

/-- The cache evicts what the buffer does. -/
theorem toCache_evicted {policy : LRUPolicy κ} (hlist : b.policy.keys = policy.keys ++ [old])
    (events : List (BufferEvent κ α φ)) :
    ({ b with policy := policy, map := (b.erase old).map, events := events } : Buffer κ α φ).toCache
      = b.toCache.evictOne.2 := by
  have hlast : b.toCache.lruList.getLast? = some old := by
    show b.policy.keys.getLast? = some old
    rw [hlist, List.getLast?_concat]
  have hdrop : b.policy.keys.dropLast = policy.keys := by
    rw [hlist, List.dropLast_concat]
  unfold Cache.evictOne
  rw [hlast]
  show Cache.mk b.maxSize ((b.map.filter _).map _) policy.keys
    = Cache.mk b.maxSize ((b.map.map _).filter _) b.policy.keys.dropLast
  rw [hdrop, List.filter_map]
  rfl

/-- **An entry that may be evicted is**, and the cache evicts it. -/
theorem WellFormed.evictOne_ok (h : b.WellFormed) (hlist : b.policy.keys = older ++ [old])
    (hfind : b.find old = some entry) (hmay : MayFlush flushers entry) :
    ∃ b', evictOne flushers b = .ok () b' ∧ b'.WellFormed ∧ Evicted b b' old entry := by
  obtain ⟨policy, hpolicy, rfl, heq⟩ := h.evictOne_eq hlist hfind flushers
  rw [dropVictim_ok _ old hmay] at heq
  refine ⟨_, heq, ⟨hpolicy, ?_⟩, hfind, hlist, toCache_evicted hlist _, rfl, rfl⟩
  have hne : b.toCache.lruList ≠ [] := by
    show b.policy.keys ≠ []
    rw [hlist]
    exact List.concat_ne_nil old policy.keys
  obtain ⟨-, -, -, -, -, hwf, -⟩ := Cache.evictOne_cases h.cache hne
  rw [← toCache_evicted hlist] at hwf
  exact hwf

/-- **A flusher that throws** leaves an entry that the policy does not know. -/
theorem WellFormed.evictOne_throws (h : b.WellFormed) (hlist : b.policy.keys = older ++ [old])
    (hfind : b.find old = some entry) (hmay : ¬MayFlush flushers entry) :
    ∃ e b', evictOne flushers b = .error (.thrown e) b' ∧ b'.keys = b.keys
      ∧ b'.policy.keys = older := by
  obtain ⟨policy, -, rfl, heq⟩ := h.evictOne_eq hlist hfind flushers
  obtain ⟨e, b', hdrop, hkeys, hpolicy⟩ := dropVictim_throws { b with policy := policy } old hmay
  rw [hdrop] at heq
  exact ⟨e, b', heq, hkeys, congrArg LRUPolicy.keys hpolicy⟩

/-! ### Calls -/

variable {value : α} {flush : φ}

theorem put_of_find_some (hfind : b.find key = some entry) : put flushers key value flush b
    = (Buffer.touch key : BufferProg κ α φ ε Unit)
      (b.change key fun entry => { entry with value := value }) := by
  unfold put
  show (match b.find key with | some _ => _ | none => _ : BufferProg κ α φ ε Unit) b = _
  rw [hfind]
  rfl

theorem put_of_room (hfind : b.find key = none) (hroom : b.map.length < b.maxSize) :
    put flushers key value flush b = (Buffer.insert key : BufferProg κ α φ ε Unit)
      (b.emplace key { value := value, flush := flush }) := by
  unfold put
  show (match b.find key with | some _ => _ | none => _ : BufferProg κ α φ ε Unit) b = _
  rw [hfind]
  show (if b.map.length ≥ b.maxSize then _ else _ : BufferProg κ α φ ε Unit) b = _
  rw [if_neg hroom.not_ge]
  rfl

theorem put_of_full (hfind : b.find key = none) (hfull : b.maxSize ≤ b.map.length) :
    put flushers key value flush b = (evictOne flushers >>= fun _ => do
      modify fun b : Buffer κ α φ => b.emplace key { value := value, flush := flush }
      Buffer.insert key) b := by
  unfold put
  show (match b.find key with | some _ => _ | none => _ : BufferProg κ α φ ε Unit) b = _
  rw [hfind]
  show (if b.map.length ≥ b.maxSize then _ else _ : BufferProg κ α φ ε Unit) b = _
  rw [if_pos hfull]

theorem getEntry_of_find_none (hfind : b.find key = none) :
    (getEntry key : BufferProg κ α φ ε (Option (BufferEntry α φ))) b = .ok none b := by
  unfold getEntry
  show (match b.find key with | none => pure none | some _ => _ : BufferProg κ α φ ε _) b = _
  rw [hfind]
  rfl

theorem markDirty_of_find_none (hfind : b.find key = none) :
    (markDirty key : BufferProg κ α φ ε Unit) b = .ok () b := by
  unfold markDirty
  show (match b.find key with | none => pure () | some _ => _ : BufferProg κ α φ ε _) b = _
  rw [hfind]
  rfl

theorem getEntry_of_find_some (hfind : b.find key = some entry) :
    (getEntry key : BufferProg κ α φ ε (Option (BufferEntry α φ))) b = (do
      Buffer.touch key
      pure ((← get).find key)) b := by
  unfold getEntry
  show (match b.find key with | none => pure none | some _ => _ : BufferProg κ α φ ε _) b = _
  rw [hfind]

theorem markDirty_of_find_some (hfind : b.find key = some entry) :
    (markDirty key : BufferProg κ α φ ε Unit) b = (do
      Buffer.touch key
      modify fun b : Buffer κ α φ => b.change key fun entry => { entry with dirty := true }) b := by
  unfold markDirty
  show (match b.find key with | none => pure () | some _ => _ : BufferProg κ α φ ε _) b = _
  rw [hfind]

/-- **A key has been moved to the front**, and the rest is as it was. -/
structure MovedToFront (b b' : Buffer κ α φ) (key : κ) : Prop where
  list : b'.policy.keys = key :: b.policy.keys.erase key
  events : b'.events = b.events
  maxSize : b'.maxSize = b.maxSize

theorem WellFormed.put_of_find_some (h : b.WellFormed) (hfind : b.find key = some entry)
    (flushers : Flushers α φ ε) (value : α) (flush : φ) :
    ∃ b', put flushers key value flush b = .ok () b' ∧ b'.WellFormed ∧ MovedToFront b b' key
      ∧ b'.toCache = (b.toCache.put key value).2 := by
  have hkey : key ∈ (b.change key fun entry => { entry with value := value }).keys := by
    rw [← keys_toCache, toCache_assign, Cache.keys_change, keys_toCache]
    exact mem_keys_of_find_some hfind
  obtain ⟨policy, htouch, hwf, hlist, hcache⟩ := (h.assign key value).touch hkey ε
  refine ⟨_, (Buffer.put_of_find_some hfind).trans htouch, hwf, ⟨hlist, rfl, rfl⟩, ?_⟩
  rw [hcache, toCache_assign]
  unfold Cache.put
  rw [find_toCache, hfind]
  rfl

theorem WellFormed.getEntry_of_find_some (h : b.WellFormed) (hfind : b.find key = some entry)
    (ε : Type) :
    ∃ b', (getEntry key : BufferProg κ α φ ε (Option (BufferEntry α φ))) b = .ok (b.find key) b'
      ∧ b'.WellFormed ∧ MovedToFront b b' key ∧ b'.toCache = b.toCache.touch key := by
  obtain ⟨policy, htouch, hwf, hlist, hcache⟩ :=
    h.touch (mem_keys_of_find_some hfind) ε
  refine ⟨_, ?_, hwf, ⟨hlist, rfl, rfl⟩, hcache⟩
  rw [Buffer.getEntry_of_find_some hfind, Stateful.bind_ok htouch]
  rfl

theorem WellFormed.markDirty_of_find_some (h : b.WellFormed) (hfind : b.find key = some entry)
    (ε : Type) :
    ∃ b', (markDirty key : BufferProg κ α φ ε Unit) b = .ok () b' ∧ b'.WellFormed
      ∧ MovedToFront b b' key ∧ b'.toCache = b.toCache.markDirty key := by
  obtain ⟨policy, htouch, hwf, hlist, hcache⟩ :=
    h.touch (mem_keys_of_find_some hfind) ε
  refine ⟨_, ?_, hwf.mark key, ⟨hlist, rfl, rfl⟩, ?_⟩
  · rw [Buffer.markDirty_of_find_some hfind, Stateful.bind_ok htouch]
    rfl
  · rw [toCache_mark, hcache]
    unfold Cache.markDirty
    rw [find_toCache, hfind]
    rfl

/-- **A key that has no entry is put** into a buffer that has room. -/
theorem WellFormed.put_of_room (h : b.WellFormed) (hfind : b.find key = none)
    (hroom : b.map.length < b.maxSize) (flushers : Flushers α φ ε) (value : α) (flush : φ) :
    ∃ b', put flushers key value flush b = .ok () b' ∧ b'.WellFormed ∧ MovedToFront b b' key
      ∧ b'.toCache = (b.toCache.put key value).2 := by
  obtain ⟨policy, hinsert, hwf, hlist, hcache⟩ :=
    h.insert hfind hroom { value := value, flush := flush } ε
  refine ⟨_, (Buffer.put_of_room hfind hroom).trans hinsert, hwf, ⟨hlist, rfl, rfl⟩, ?_⟩
  have hroom' : ¬b.toCache.entries.length ≥ b.toCache.maxSize := by
    rw [length_entries_toCache]
    exact hroom.not_ge
  rw [hcache, Cache.put_of_find_none (find_toCache_none hfind), Cache.makeRoom, if_neg hroom']
  rfl

/-- **A key that has no entry is put** into a buffer that is full. -/
theorem WellFormed.put_of_full (h : b.WellFormed) (hfind : b.find key = none)
    (hfull : b.maxSize ≤ b.map.length) (hlist : b.policy.keys = older ++ [old])
    (hold : b.find old = some entry) (hmay : MayFlush flushers entry) (value : α) (flush : φ) :
    ∃ b₁ b', put flushers key value flush b = .ok () b' ∧ b'.WellFormed
      ∧ Evicted b b₁ old entry ∧ b₁.WellFormed ∧ MovedToFront b₁ b' key
      ∧ b'.toCache = (b.toCache.put key value).2 := by
  obtain ⟨b₁, hevict, hwf₁, hevicted⟩ := h.evictOne_ok hlist hold hmay
  have hnew : key ∉ b.policy.keys := mt h.mem_keys.mp (not_mem_keys_of_find_none hfind)
  have hfind₁ : b₁.find key = none := by
    rw [← Option.not_isSome_iff_eq_none, find_isSome_iff, ← hwf₁.mem_keys]
    intro hmem
    rw [hevicted.list] at hnew
    exact hnew (List.mem_append_left [old] hmem)
  have hroom₁ : b₁.map.length < b₁.maxSize := by
    calc b₁.map.length = b₁.policy.keys.length := hwf₁.length_map
      _ < b.policy.keys.length := by
        rw [hevicted.list, List.length_append]
        exact Nat.lt_succ_self _
      _ = b.map.length := h.length_map.symm
      _ ≤ b.maxSize := h.length_le
      _ = b₁.maxSize := hevicted.maxSize.symm
  obtain ⟨policy, hinsert, hwf, hkeys, hcache⟩ :=
    hwf₁.insert hfind₁ hroom₁ { value := value, flush := flush } ε
  refine ⟨b₁, _, ?_, hwf, hevicted, hwf₁, ⟨hkeys, rfl, rfl⟩, ?_⟩
  · rw [Buffer.put_of_full hfind hfull, Stateful.bind_ok hevict]
    exact hinsert
  · have hfull' : b.toCache.entries.length ≥ b.toCache.maxSize := by
      rw [length_entries_toCache]
      exact hfull
    rw [hcache, Cache.put_of_find_none (find_toCache_none hfind), Cache.makeRoom, if_pos hfull',
      hevicted.cache]
    rfl

/-- A put into a full buffer throws with the flusher of the victim. -/
theorem WellFormed.put_throws (h : b.WellFormed) (hfind : b.find key = none)
    (hfull : b.maxSize ≤ b.map.length) (hlist : b.policy.keys = older ++ [old])
    (hold : b.find old = some entry) (hmay : ¬MayFlush flushers entry) (value : α) (flush : φ) :
    ∃ e b', put flushers key value flush b = .error (.thrown e) b' ∧ b'.keys = b.keys
      ∧ b'.policy.keys = older := by
  obtain ⟨e, b', hevict, hkeys⟩ := h.evictOne_throws hlist hold hmay
  exact ⟨e, b', (Buffer.put_of_full hfind hfull).trans (Stateful.bind_error hevict), hkeys⟩

end Buffer
