import Deltabase.Storage.Buffer

/-!
# What a buffer promises

The list of the policy has exactly the keys of the map, each once; there are
never more entries than there may be; the key that is evicted is the one that
was touched longest ago; and its entry, if it is dirty, is passed to its flusher
once and then erased. `Promised` says this of one request, in terms of the
requests before it: how recently a key was touched is read off them, not off
the policy.

A request that has to evict keeps the promise exactly if the victim is clean or
its flusher returns (`Careful`). If the flusher throws, the exception is caught
further up and the buffer is used on; its map has then a key that the policy has
forgotten.
-/

/-! ## Requests -/

/-- An operation of the buffer. -/
inductive BufferOp (κ α φ : Type) where
  | put (key : κ) (value : α) (flush : φ)
  | get (key : κ)
  | markDirty (key : κ)
  | evictOne

/-- **A request**: an operation, and what the flushers do while it runs. -/
structure BufferRequest (κ α φ ε : Type) where
  op : BufferOp κ α φ
  flushers : Flushers α φ ε

/-- A buffer and the keys that it has been asked to touch, the latest first. -/
structure TouchedBuffer (κ α φ : Type) where
  buffer : Buffer κ α φ
  touched : List κ := []

namespace BufferRequest

variable {κ α φ ε : Type} [DecidableEq κ]

/-- What a request does. -/
def exec (r : BufferRequest κ α φ ε) : BufferProg κ α φ ε Unit :=
  match r.op with
  | .put key value flush => Buffer.put r.flushers key value flush
  | .get key => do
    let _ ← Buffer.getEntry key
  | .markDirty key => Buffer.markDirty key
  | .evictOne => Buffer.evictOne r.flushers

/-- The buffer after a request. An exception is caught by the caller. -/
def after (r : BufferRequest κ α φ ε) (b : Buffer κ α φ) : Buffer κ α φ :=
  match r.exec b with
  | .ok _ b' => b'
  | .error _ b' => b'

/-- The key that is touched. -/
def touches (r : BufferRequest κ α φ ε) : List κ :=
  match r.op with
  | .put key _ _ => [key]
  | .get key => [key]
  | .markDirty key => [key]
  | .evictOne => []

/-- One request after another. -/
def next (s : TouchedBuffer κ α φ) (r : BufferRequest κ α φ ε) : TouchedBuffer κ α φ where
  buffer := r.after s.buffer
  touched := r.touches ++ s.touched

end BufferRequest

namespace BufferRequest

open Buffer

variable {κ α φ ε : Type} [DecidableEq κ]

/-! ## The promise -/

/-- No entry is evicted. -/
structure Keeps (b b' : Buffer κ α φ) : Prop where
  keys : b.keys ⊆ b'.keys
  events : b'.events = b.events

/-- **One entry is evicted**: of the keys in the map, the one that was touched
longest ago. -/
structure EvictsLeastRecent (touched : List κ) (b b' : Buffer κ α φ) (old : κ)
    (victim : BufferEntry α φ) : Prop where
  found : b.find old = some victim
  least : ∀ key ∈ b.keys, key ≠ old → touched.idxOf key < touched.idxOf old
  erased : ∀ key ∈ b.keys, key ∈ b'.keys ↔ key ≠ old
  events : b'.events = b.events ++ evictionOf old victim

/-- **What is promised of a request.** -/
structure Promised (capacity : ℕ) (s : TouchedBuffer κ α φ) (r : BufferRequest κ α φ ε) :
    Prop where
  defined : ∀ b', r.exec s.buffer ≠ .error .undefined b'
  nodup : (r.after s.buffer).policy.keys.Nodup
  perm : (r.after s.buffer).policy.keys.Perm (r.after s.buffer).keys
  bound : (r.after s.buffer).map.length ≤ capacity
  evicts : Keeps s.buffer (r.after s.buffer) ∨ ∃ old victim,
    EvictsLeastRecent s.touched s.buffer (r.after s.buffer) old victim

/-- `evict_one` is called on a buffer that has entries. -/
def Legal (s : TouchedBuffer κ α φ) (r : BufferRequest κ α φ ε) : Prop :=
  r.op = .evictOne → s.buffer.keys ≠ []

/-- Whether a request has to evict. -/
def Evicts (b : Buffer κ α φ) (r : BufferRequest κ α φ ε) : Prop :=
  match r.op with
  | .put key _ _ => b.find key = none ∧ b.maxSize ≤ b.map.length
  | .evictOne => True
  | _ => False

/-- **A request that may evict what it has to**: the least recently used entry is
clean, or its flusher returns. -/
def Careful (s : TouchedBuffer κ α φ) (r : BufferRequest κ α φ ε) : Prop :=
  r.Evicts s.buffer → ∀ victim ∈ s.buffer.victim, MayFlush r.flushers victim

/-! ## How recently a key was touched -/

/-- **The list of the policy is in the order of the touches.** -/
def Recent (touched list : List κ) : Prop :=
  list.Pairwise fun key key' => touched.idxOf key < touched.idxOf key'

variable {touched list older : List κ} {key old : κ}

/-- A touch of another key. -/
theorem idxOf_touch (hne : key ≠ old) : (key :: touched).idxOf old = touched.idxOf old + 1 :=
  List.idxOf_cons_ne touched hne

/-- A key that is not in the list may be touched. -/
theorem Recent.touch_other (h : Recent touched list) (hkey : key ∉ list) :
    Recent (key :: touched) list := by
  refine List.Pairwise.imp_of_mem (fun hk hk' hlt => ?_) h
  rw [idxOf_touch (ne_of_mem_of_not_mem hk hkey).symm,
    idxOf_touch (ne_of_mem_of_not_mem hk' hkey).symm]
  exact Nat.succ_lt_succ hlt

/-- A key that is touched comes to the front. -/
theorem Recent.touch (h : Recent touched list) (hnodup : list.Nodup) (key : κ) :
    Recent (key :: touched) (key :: list.erase key) := by
  refine List.pairwise_cons.mpr ⟨fun key' hkey' => ?_, ?_⟩
  · have hne : key ≠ key' := fun heq => hnodup.not_mem_erase (heq ▸ hkey')
    rw [List.idxOf_cons_self, idxOf_touch hne]
    exact Nat.succ_pos _
  · exact Recent.touch_other (List.Pairwise.sublist List.erase_sublist h) hnodup.not_mem_erase

/-- The last key is the one that was touched longest ago. -/
theorem Recent.least (h : Recent touched (older ++ [old])) (hkey : key ∈ older) :
    touched.idxOf key < touched.idxOf old :=
  (List.pairwise_append.mp h).2.2 key hkey old (List.mem_singleton_self old)

theorem Recent.of_append (h : Recent touched (older ++ [old])) : Recent touched older :=
  (List.pairwise_append.mp h).1

/-! ## One request -/

/-- **What holds between requests.** -/
structure Tracked (capacity : ℕ) (s : TouchedBuffer κ α φ) : Prop where
  wellFormed : s.buffer.WellFormed
  maxSize : s.buffer.maxSize = capacity
  recent : Recent s.touched s.buffer.policy.keys

variable {capacity : ℕ} {s : TouchedBuffer κ α φ} {r : BufferRequest κ α φ ε}
  {b b' b₁ : Buffer κ α φ} {victim : BufferEntry α φ}

theorem keeps_of_moved (h : b.WellFormed) (h' : b'.WellFormed) (hmoved : MovedToFront b b' key) :
    Keeps b b' where
  keys key' hkey' := by
    rw [← h'.mem_keys, hmoved.list, List.mem_cons]
    refine or_iff_not_imp_left.mpr fun hne => ?_
    rwa [List.mem_erase_of_ne hne, h.mem_keys]
  events := hmoved.events

/-- The key that the policy gives up is the one that was touched longest ago. -/
theorem evicts_of_evicted (h : b.WellFormed) (hrecent : Recent touched b.policy.keys)
    (h' : b'.WellFormed) (hevicted : Evicted b b' old victim) :
    EvictsLeastRecent touched b b' old victim where
  found := hevicted.found
  least key hkey hne := by
    rw [← h.mem_keys, hevicted.list] at hkey
    rw [hevicted.list] at hrecent
    refine hrecent.least ((List.mem_append.mp hkey).resolve_right fun hmem => ?_)
    exact hne (List.mem_singleton.mp hmem)
  erased key hkey := by
    have hold := h.policy.last_not_mem hevicted.list
    rw [← h.mem_keys, hevicted.list, List.mem_append, List.mem_singleton] at hkey
    rw [← h'.mem_keys]
    exact ⟨fun hmem => ne_of_mem_of_not_mem hmem hold, hkey.resolve_right⟩
  events := hevicted.events

/-- An entry that is put in the place of the one that is evicted. -/
theorem evicts_of_moved (h : EvictsLeastRecent touched b b₁ old victim) (hnew : key ∉ b.keys)
    (h₁ : b₁.WellFormed) (h' : b'.WellFormed) (hmoved : MovedToFront b₁ b' key) :
    EvictsLeastRecent touched b b' old victim where
  found := h.found
  least := h.least
  erased key' hkey' := by
    rw [← h.erased key' hkey', ← h'.mem_keys, ← h₁.mem_keys, hmoved.list, List.mem_cons,
      List.mem_erase_of_ne (ne_of_mem_of_not_mem hkey' hnew)]
    exact or_iff_right (ne_of_mem_of_not_mem hkey' hnew)
  events := hmoved.events.trans h.events

/-- **A request that returns** keeps the promise. -/
theorem Promised.of_ok (hexec : r.exec s.buffer = .ok () b') (h' : b'.WellFormed)
    (hmax : b'.maxSize = capacity) (hevicts : Keeps s.buffer b' ∨ ∃ old victim,
      EvictsLeastRecent s.touched s.buffer b' old victim) : Promised capacity s r := by
  have hafter : r.after s.buffer = b' := by
    rw [after, hexec]
  refine ⟨fun b'' heq => ?_, ?_, ?_, ?_, ?_⟩
  · rw [hexec] at heq
    cases heq
  · exact hafter ▸ h'.policy.keys_nodup
  · rw [hafter, ← keys_toCache]
    exact h'.cache.perm
  · rw [hafter, ← hmax]
    exact h'.length_le
  · exact hafter ▸ hevicts

/-- A request that returns keeps what holds between requests. -/
theorem Tracked.of_ok (hexec : r.exec s.buffer = .ok () b') (h' : b'.WellFormed)
    (hmax : b'.maxSize = capacity) (hrecent : Recent (r.touches ++ s.touched) b'.policy.keys) :
    Tracked capacity (r.next s) := by
  have hafter : r.after s.buffer = b' := by
    rw [after, hexec]
  unfold next
  rw [hafter]
  exact ⟨h', hmax, hrecent⟩

/-- A request that finds its key. -/
theorem Tracked.of_moved (h : Tracked capacity s) (hexec : r.exec s.buffer = .ok () b')
    (h' : b'.WellFormed) (hmoved : MovedToFront s.buffer b' key) (htouches : r.touches = [key]) :
    Promised capacity s r ∧ Tracked capacity (r.next s) := by
  have hmax := hmoved.maxSize.trans h.maxSize
  refine ⟨.of_ok hexec h' hmax (Or.inl (keeps_of_moved h.wellFormed h' hmoved)),
    .of_ok hexec h' hmax ?_⟩
  rw [htouches, hmoved.list]
  exact h.recent.touch h.wellFormed.policy.keys_nodup key

/-- A request that does not find its key, and does nothing. -/
theorem Tracked.of_missed (h : Tracked capacity s) (hexec : r.exec s.buffer = .ok () s.buffer)
    (hfind : s.buffer.find key = none) (htouches : r.touches = [key]) :
    Promised capacity s r ∧ Tracked capacity (r.next s) := by
  have hkeeps : Keeps s.buffer s.buffer := ⟨List.Subset.refl _, rfl⟩
  refine ⟨.of_ok hexec h.wellFormed h.maxSize (Or.inl hkeeps),
    .of_ok hexec h.wellFormed h.maxSize ?_⟩
  rw [htouches]
  exact h.recent.touch_other (mt h.wellFormed.mem_keys.mp (not_mem_keys_of_find_none hfind))

/-- A buffer that is full has entries. -/
theorem Tracked.keys_ne_nil (h : Tracked capacity s) (hcapacity : 1 ≤ capacity)
    (hfull : s.buffer.maxSize ≤ s.buffer.map.length) : s.buffer.keys ≠ [] := by
  have hpos : 0 < s.buffer.keys.length := by
    rw [keys, List.length_map]
    exact hcapacity.trans (h.maxSize ▸ hfull)
  exact List.ne_nil_of_length_pos hpos

/-- A request that has to evict is careful if the entry may be evicted. -/
theorem careful_iff (hevicts : r.Evicts s.buffer) (hvictim : s.buffer.victim = some victim) :
    Careful s r ↔ MayFlush r.flushers victim := by
  unfold Careful
  rw [hvictim]
  constructor
  · exact fun h => h hevicts victim rfl
  · intro h _ victim' hvictim'
    cases hvictim'
    exact h

/-- **A careful request keeps the promise.** -/
theorem Tracked.step (h : Tracked capacity s) (hcapacity : 1 ≤ capacity) (hlegal : Legal s r)
    (hcareful : Careful s r) : Promised capacity s r ∧ Tracked capacity (r.next s) := by
  obtain ⟨op, flushers⟩ := r
  cases op with
  | put key value flush =>
    cases hfind : s.buffer.find key with
    | some entry =>
      obtain ⟨b', hput, h', hmoved, -⟩ := h.wellFormed.put_of_find_some hfind flushers value flush
      exact h.of_moved hput h' hmoved rfl
    | none =>
      by_cases hroom : s.buffer.map.length < s.buffer.maxSize
      · obtain ⟨b', hput, h', hmoved, -⟩ := h.wellFormed.put_of_room hfind hroom flushers value
          flush
        exact h.of_moved hput h' hmoved rfl
      · have hfull := Nat.le_of_not_lt hroom
        obtain ⟨older, old, victim, hlist, hold, hvictim⟩ :=
          h.wellFormed.exists_victim (h.keys_ne_nil hcapacity hfull)
        have hmay := (careful_iff (r := ⟨.put key value flush, flushers⟩) ⟨hfind, hfull⟩
          hvictim).mp hcareful
        obtain ⟨b₁, b', hput, h', hevicted, h₁, hmoved, -⟩ :=
          h.wellFormed.put_of_full hfind hfull hlist hold hmay value flush
        have hevicts := evicts_of_evicted h.wellFormed h.recent h₁ hevicted
        have hmax := hmoved.maxSize.trans (hevicted.maxSize.trans h.maxSize)
        refine ⟨.of_ok hput h' hmax (Or.inr ⟨old, victim, ?_⟩), .of_ok hput h' hmax ?_⟩
        · exact evicts_of_moved hevicts (not_mem_keys_of_find_none hfind) h₁ h' hmoved
        · have hrecent := h.recent
          rw [hevicted.list] at hrecent
          rw [hmoved.list]
          exact hrecent.of_append.touch h₁.policy.keys_nodup key
  | get key =>
    cases hfind : s.buffer.find key with
    | some entry =>
      obtain ⟨b', hget, h', hmoved, -⟩ := h.wellFormed.getEntry_of_find_some hfind ε
      exact h.of_moved (Stateful.bind_ok hget) h' hmoved rfl
    | none => exact h.of_missed (Stateful.bind_ok (getEntry_of_find_none hfind)) hfind rfl
  | markDirty key =>
    cases hfind : s.buffer.find key with
    | some entry =>
      obtain ⟨b', hmark, h', hmoved, -⟩ := h.wellFormed.markDirty_of_find_some hfind ε
      exact h.of_moved hmark h' hmoved rfl
    | none => exact h.of_missed (markDirty_of_find_none hfind) hfind rfl
  | evictOne =>
    obtain ⟨older, old, victim, hlist, hold, hvictim⟩ := h.wellFormed.exists_victim (hlegal rfl)
    have hmay := (careful_iff (r := ⟨.evictOne, flushers⟩) trivial hvictim).mp hcareful
    obtain ⟨b', hevict, h', hevicted⟩ := h.wellFormed.evictOne_ok hlist hold hmay
    have hmax := hevicted.maxSize.trans h.maxSize
    refine ⟨.of_ok hevict h' hmax (Or.inr ⟨old, victim, ?_⟩), .of_ok hevict h' hmax ?_⟩
    · exact evicts_of_evicted h.wellFormed h.recent h' hevicted
    · have hrecent := h.recent
      rw [hevicted.list] at hrecent
      exact hrecent.of_append

/-- A flusher that throws leaves a key that the policy does not know. -/
theorem not_promised_of_thrown {e : ε} (h : s.buffer.WellFormed)
    (hlist : s.buffer.policy.keys = older ++ [old])
    (hexec : r.exec s.buffer = .error (.thrown e) b') (hkeys : b'.keys = s.buffer.keys)
    (hpolicy : b'.policy.keys = older) : ¬Promised capacity s r := by
  intro hpromised
  have hafter : r.after s.buffer = b' := by
    rw [after, hexec]
  have hknown : old ∈ s.buffer.keys := by
    rw [← h.mem_keys, hlist]
    exact List.mem_append_right older (List.mem_singleton_self old)
  have hperm := hpromised.perm
  rw [hafter, hkeys, hpolicy] at hperm
  exact h.policy.last_not_mem hlist (hperm.mem_iff.mpr hknown)

/-- **A request that is not careful breaks the promise.** -/
theorem Tracked.not_promised (h : Tracked capacity s) (hcapacity : 1 ≤ capacity)
    (hlegal : Legal s r) (hcareful : ¬Careful s r) : ¬Promised capacity s r := by
  have hevicts : r.Evicts s.buffer := (Classical.not_imp.mp hcareful).1
  obtain ⟨op, flushers⟩ := r
  cases op with
  | put key value flush =>
    obtain ⟨hfind, hfull⟩ := hevicts
    obtain ⟨older, old, victim, hlist, hold, hvictim⟩ :=
      h.wellFormed.exists_victim (h.keys_ne_nil hcapacity hfull)
    have hmay := mt (careful_iff (r := ⟨.put key value flush, flushers⟩) ⟨hfind, hfull⟩
      hvictim).mpr hcareful
    obtain ⟨e, b', hput, hkeys, hpolicy⟩ :=
      h.wellFormed.put_throws hfind hfull hlist hold hmay value flush
    exact not_promised_of_thrown h.wellFormed hlist hput hkeys hpolicy
  | get key => exact hevicts.elim
  | markDirty key => exact hevicts.elim
  | evictOne =>
    obtain ⟨older, old, victim, hlist, hold, hvictim⟩ := h.wellFormed.exists_victim (hlegal rfl)
    have hmay := mt (careful_iff (r := ⟨.evictOne, flushers⟩) trivial hvictim).mpr hcareful
    obtain ⟨e, b', hevict, hkeys, hpolicy⟩ := h.wellFormed.evictOne_throws hlist hold hmay
    exact not_promised_of_thrown h.wellFormed hlist hevict hkeys hpolicy

/-! ## Runs -/

/-- A buffer that has just been made. -/
def start (capacity : ℕ) : TouchedBuffer κ α φ where
  buffer := { maxSize := capacity }

theorem tracked_start (capacity : ℕ) : Tracked capacity (start capacity : TouchedBuffer κ α φ) where
  wellFormed :=
    { policy := LRUPolicy.wellFormed_empty
      cache := ⟨List.nodup_nil, List.Perm.refl _, Nat.zero_le _⟩ }
  maxSize := rfl
  recent := List.Pairwise.nil

/-- **The requests of a run keep the promise exactly as long as each is careful**:
where an entry has to be evicted, the least recently used one is clean, or its
flusher returns. -/
theorem everyStep_promised_iff (hcapacity : 1 ≤ capacity) (rs : List (BufferRequest κ α φ ε))
    (hlegal : EveryStep next Legal (start capacity) rs) :
    EveryStep next (Promised capacity) (start capacity) rs
      ↔ EveryStep next Careful (start capacity) rs := by
  refine EveryStep.iff (I := Tracked capacity) ?_ ?_ (tracked_start capacity) hlegal
  · intro s r h hlegal
    constructor
    · exact fun hpromised => by_contra fun hcareful =>
        h.not_promised hcapacity hlegal hcareful hpromised
    · exact fun hcareful => (h.step hcapacity hlegal hcareful).1
  · intro s r h hlegal hcareful
    exact (h.step hcapacity hlegal hcareful).2

/-- A flusher that writes the entry and clears its mark. -/
def returning : Flushers ℕ Unit Unit := fun _ entry => ({ entry with dirty := false }, .ok ())

/-- A flusher that cannot write the entry. -/
def throwing : Flushers ℕ Unit Unit := fun _ entry => (entry, .error ())

/-- The third put evicts an entry that is clean, the fourth one that is dirty. -/
theorem everyStep_promised_iff_returning :
    EveryStep next (Promised 2) (start 2)
      ([⟨.put 1 10 (), returning⟩, ⟨.markDirty 1, returning⟩, ⟨.put 2 20 (), returning⟩,
        ⟨.get 1, returning⟩, ⟨.put 3 30 (), returning⟩, ⟨.put 4 40 (), returning⟩,
        ⟨.evictOne, returning⟩] : List (BufferRequest ℕ ℕ Unit Unit)) := by
  refine (everyStep_promised_iff (by decide) _ ?_).mpr ?_
  · exact ⟨nofun, nofun, nofun, nofun, nofun, nofun, fun _ => by decide, trivial⟩
  · exact ⟨fun _ _ _ _ => rfl, fun _ _ _ _ => rfl, fun _ _ _ _ => rfl, fun _ _ _ _ => rfl,
      fun _ _ _ _ => rfl, fun _ _ _ _ => rfl, fun _ _ _ _ => rfl, trivial⟩

/-- **Not every run keeps the promise.** The flusher throws when the second key is
put, and the list of the policy is empty while the map has the first key. -/
theorem not_everyStep_promised : ¬∀ rs : List (BufferRequest ℕ ℕ Unit Unit),
    EveryStep next Legal (start 1) rs → EveryStep next (Promised 1) (start 1) rs := by
  intro h
  have hrun := h [⟨.put 1 10 (), throwing⟩, ⟨.markDirty 1, throwing⟩, ⟨.put 2 20 (), throwing⟩]
    ⟨nofun, nofun, nofun, trivial⟩
  have hperm := hrun.2.2.1.perm
  exact absurd hperm.length_eq (by decide)

end BufferRequest
