import Deltabase.Storage.WriteBackPool

/-!
# The buffer pool is transparent

What the callers of `get_dp` and `dirty_dp` see of the cache of data pages:
nothing. Whatever the capacity, and whichever pages have been evicted in
between, a page that is asked for is the page that was last stored.

A change of a page goes through its pointer and is followed by `dirty_dp`, before
any other call. What it can rely on is what the file keeps: it does not look at
the size and the number of rows (`IsChange`). And it must leave the page its id:
the page is written to the path it was read from, and a file that holds a page
of another id than the one it is named after is not read again
(`not_transparent_of_id`).
-/

/-- **What a client asks of the pool.** A change is written through the pointer
that `get_dp` or `create_dp` has returned, and `dirty_dp` follows. -/
inductive PageOp where
  | get (id : DataPageId)
  | change (id : DataPageId) (f : LoadedPage → LoadedPage)
  /-- A new page for a table, with the id that `DataPageId::make` returns. -/
  | create (mt : MetaTable) (id : DataPageId) (f : LoadedPage → LoadedPage)
  | flushDirty
  | flushDirtyUpTo (maxLsn : ℕ)

/-- **A plain map** from page ids to pages. Reading a page may throw. -/
abbrev PageMap := DataPageId → Except Exn (Option LoadedPage)

namespace PageOp

open PagePool

/-- Writing through the pointer, if it is not null, and `dirty_dp`. -/
def store (id : DataPageId) (f : LoadedPage → LoadedPage) (p : Option LoadedPage) :
    PoolProg (Option LoadedPage) := do
  match p with
  | none => pure none
  | some p => do
    assign id f
    let _ ← dirtyDp id
    pure (some p)

/-- The calls to the pool, and the page that a client gets. -/
def exec (order : List DataPageId → List DataPageId) : PageOp → PoolProg (Option LoadedPage)
  | get id => getDp id
  | change id f => do
    let p ← getDp id
    store id f p
  | create mt id f => do
    let p ← createDp mt id
    store id f p
  | flushDirty => do
    modify (PagePool.flushDirty order)
    pure none
  | flushDirtyUpTo maxLsn => do
    modify (PagePool.flushDirtyUpTo order maxLsn)
    pure none

/-- The same with a plain map: the page that a client gets, and the map. -/
def onMap (rest : Disk) : PageOp → PageMap → Except Exn (Option LoadedPage) × PageMap
  | get id, m => (m id, m)
  | change id f, m =>
    match m id with
    | .ok (some p) => (.ok (some p), Function.update m id (.ok (some (f p))))
    | answer => (answer, m)
  | create mt id f, m =>
    match FileIOManager.createPage rest mt id with
    | .error e => (.error e, m)
    | .ok page =>
      let p : LoadedPage := { page := page, fileName := id }
      (.ok (some p), Function.update m id (.ok (some (f p))))
  | flushDirty, m => (.ok none, m)
  | flushDirtyUpTo _, m => (.ok none, m)

/-- The answer of a call, and the pool after it. -/
def outcome {α : Type} : EStateM.Result Exn PagePool α → Except Exn α × PagePool
  | .ok a pool => (.ok a, pool)
  | .error e pool => (.error e, pool)

/-- **A run**: the answers, and the pool after it. A call that throws leaves the
pool as it is at the `throw`. -/
def run (order : List DataPageId → List DataPageId) :
    List PageOp → PagePool → List (Except Exn (Option LoadedPage)) × PagePool
  | [], pool => ([], pool)
  | op :: ops, pool =>
    let (answer, pool) := outcome (op.exec order pool)
    let (answers, pool) := run order ops pool
    (answer :: answers, pool)

/-- The same with a plain map. -/
def runOnMap (rest : Disk) :
    List PageOp → PageMap → List (Except Exn (Option LoadedPage)) × PageMap
  | [], m => ([], m)
  | op :: ops, m =>
    let (answer, m) := op.onMap rest m
    let (answers, m) := runOnMap rest ops m
    (answer :: answers, m)

/-- **A change of what is stored**: it does not look at what is made anew when a
page is read, and the page fits its type and is where it was. -/
structure IsChange (f : LoadedPage → LoadedPage) : Prop where
  core : ∀ p q, p.core = q.core → (f p).core = (f q).core
  fits : ∀ p, p.page.Fits → (f p).page.Fits
  path : ∀ p, (f p).page.path = p.page.path
  fileName : ∀ p, (f p).fileName = p.fileName

/-- The change that a call makes leaves the page its id. -/
def KeepsId : PageOp → Prop
  | change _ f => ∀ p, (f p).page.id = p.page.id
  | create _ _ f => ∀ p, (f p).page.id = p.page.id
  | _ => True

/-- **What a client may ask**: changes of what is stored; and a new page has an
id that no page has, and belongs to a table that has a directory. -/
def Legal (rest : Disk) (m : PageMap) : PageOp → Prop
  | change _ f => IsChange f
  | create mt id f => IsChange f ∧ m id = .ok none
      ∧ ∀ page, FileIOManager.createPage rest mt id = .ok page →
          page.Fits ∧ page.path ∈ rest.tables.map TableFile.path
  | _ => True

/-- Every call of a sequence is one that a client may make. -/
def AllLegal (rest : Disk) : PageMap → List PageOp → Prop
  | _, [] => True
  | m, op :: ops => op.Legal rest m ∧ AllLegal rest (op.onMap rest m).2 ops

/-- A page is made with the id it is asked for. -/
theorem id_of_createPage {disk : Disk} {mt : MetaTable} {id : DataPageId} {page : DataPage}
    (h : FileIOManager.createPage disk mt id = .ok page) : page.id = id := by
  unfold FileIOManager.createPage at h
  cases hschema : FileIOManager.readSchemaMeta disk mt.schemaId with
  | error e =>
    rw [hschema] at h
    cases h
  | ok schema =>
    rw [hschema] at h
    cases h
    rfl

/-! ## The pool and the map answer alike -/

open PageDisk (pages)

/-- What a client sees of an answer. -/
def seen : Except Exn (Option LoadedPage) → Except Exn (Option LoadedPage) :=
  Except.map (Option.map LoadedPage.core)

/-- **The pool holds what the map does.** -/
structure Agrees (rest : Disk) (pool : PagePool) (m : PageMap) : Prop where
  kept : Kept pool
  rest : pool.disk.rest = rest
  view : ∀ id, pages.view pool.cached id = seen (m id)

section

variable {rest : Disk} {pool pool' : PagePool} {m : PageMap} {id : DataPageId}

/-- What a client does not see the map need not know of. -/
theorem Agrees.settles (h : Agrees rest pool m) (hsettles : Settles pool pool') :
    Agrees rest pool' m where
  kept := hsettles.kept h.kept
  rest := hsettles.rest.trans h.rest
  view id := (congrFun (h.kept.coherent.quietly hsettles.quietly).2 id).trans (h.view id)

/-- **A new page in the cache**, marked, is a new page in the map. -/
theorem Agrees.put (h : Agrees rest pool m) {p q : LoadedPage} (hwell : pool'.dataPages.WellFormed)
    (hmax : pool'.dataPages.maxSize = pool.dataPages.maxSize) (hdisk : pool'.disk = pool.disk)
    (hcached : pool'.cached = pool.cached.hold id (some (p, true)))
    (hhome : pool.disk.Home id p) (hcore : p.core = q.core) :
    Agrees rest pool' (Function.update m id (.ok (some q))) where
  kept := ⟨hwell, hmax ▸ h.kept.capacity, hcached ▸ h.kept.coherent.put hhome⟩
  rest := (congrArg PageDisk.rest hdisk).trans h.rest
  view k := by
    rw [hcached, pages.view_put]
    by_cases hk : k = id
    · rw [hk, Function.update_self, Function.update_self]
      exact congrArg (fun r => Except.ok (some r)) hcore
    · rw [Function.update_of_ne hk, Function.update_of_ne hk]
      exact h.view k

/-- A page that a client does not see is neither in the cache nor on disk. -/
theorem absent_of_view (h : pages.view pool.cached id = .ok none) :
    pool.dataPages.find id = none ∧ ∀ dir ∈ pool.disk.dirs, pool.disk.files dir id = none := by
  cases hfind : pool.dataPages.find id with
  | some entry =>
    rw [pages.view_of_held (held_of_find hfind)] at h
    cases h
  | none =>
    rw [pages.view_of_not_held (held_of_find_none hfind)] at h
    exact ⟨rfl, PageDisk.readCore_eq_none_iff.mp h⟩

/-- **`get_dp` answers as the map does.** -/
theorem agrees_get (h : Agrees rest pool m) (id : DataPageId) :
    (∃ e, getDp id pool = .error e pool ∧ m id = .error e)
      ∨ (getDp id pool = .ok none pool ∧ m id = .ok none)
      ∨ ∃ entry pool' p, getDp id pool = .ok (some entry.value) pool' ∧ Settles pool pool'
          ∧ pool'.dataPages.find id = some entry ∧ m id = .ok (some p)
          ∧ entry.value.core = p.core := by
  have hview := h.view id
  rcases getDp_cases h.kept id with ⟨e, hget, hsees⟩ | ⟨hget, hsees⟩ |
    ⟨entry, pool', hget, hsettles, hfind⟩
  · refine Or.inl ⟨e, hget, ?_⟩
    rw [hsees] at hview
    cases hm : m id with
    | error e' => rw [hm] at hview; exact hview.symm
    | ok a => rw [hm] at hview; cases hview
  · refine Or.inr (Or.inl ⟨hget, ?_⟩)
    rw [hsees] at hview
    cases hm : m id with
    | error e' => rw [hm] at hview; cases hview
    | ok a =>
      rw [hm] at hview
      cases a with
      | none => rfl
      | some p => cases hview
  · have hsees := (h.settles hsettles).view id
    rw [pages.view_of_held (held_of_find hfind)] at hsees
    cases hm : m id with
    | error e' => rw [hm] at hsees; cases hsees
    | ok a =>
      rw [hm] at hsees
      cases a with
      | none => cases hsees
      | some p =>
        exact Or.inr (Or.inr ⟨entry, pool', p, hget, hsettles, hfind, rfl,
          Option.some.inj (Except.ok.inj hsees)⟩)

/-- A change through a pointer to a page in the cache. -/
theorem store_some {entry : CacheEntry LoadedPage} (hwell : pool.dataPages.WellFormed)
    (hfind : pool.dataPages.find id = some entry) (f : LoadedPage → LoadedPage) :
    ∃ pool', store id f (some entry.value) pool = .ok (some entry.value) pool'
      ∧ pool'.dataPages.WellFormed ∧ pool'.dataPages.maxSize = pool.dataPages.maxSize
      ∧ pool'.disk = pool.disk
      ∧ pool'.cached = pool.cached.hold id (some (f entry.value, true)) := by
  obtain ⟨pool', hassign, hrest⟩ := assign_dirtyDp hwell hfind f
  refine ⟨pool', ?_, hrest⟩
  have hstore : store id f (some entry.value)
      = (assign id f >>= fun _ => dirtyDp id) >>= fun _ => pure (some entry.value) := by
    rw [bind_assoc]
    rfl
  rw [hstore, Stateful.bind_ok hassign]
  rfl

/-- The pool answers a call as the map does, and holds what it does
afterwards. -/
def Answers (rest : Disk) (result : Except Exn (Option LoadedPage) × PagePool)
    (expected : Except Exn (Option LoadedPage) × PageMap) : Prop :=
  seen result.1 = seen expected.1 ∧ Agrees rest result.2 expected.2

/-- `get_dp`. -/
theorem answers_get (h : Agrees rest pool m) (id : DataPageId) :
    Answers rest (outcome (getDp id pool)) (m id, m) := by
  rcases agrees_get h id with ⟨e, hget, hm⟩ | ⟨hget, hm⟩ |
    ⟨entry, pool', p, hget, hsettles, -, hm, hcore⟩
  · rw [hget, hm]
    exact ⟨rfl, h⟩
  · rw [hget, hm]
    exact ⟨rfl, h⟩
  · rw [hget, hm]
    exact ⟨congrArg (fun r => Except.ok (some r)) hcore, h.settles hsettles⟩

/-- `get_dp`, a change and `dirty_dp`. -/
theorem answers_change (h : Agrees rest pool m) (id : DataPageId) {f : LoadedPage → LoadedPage}
    (hchange : IsChange f) (hkeeps : ∀ p, (f p).page.id = p.page.id) :
    Answers rest (outcome ((getDp id >>= fun p => store id f p) pool))
      ((change id f).onMap rest m) := by
  rcases agrees_get h id with ⟨e, hget, hm⟩ | ⟨hget, hm⟩ |
    ⟨entry, pool', p, hget, hsettles, hfind, hm, hcore⟩
  · rw [Stateful.bind_error hget, onMap, hm]
    exact ⟨rfl, h⟩
  · rw [Stateful.bind_ok hget, onMap, hm]
    exact ⟨rfl, h⟩
  · have h' := h.settles hsettles
    obtain ⟨pool'', hstore, hwell, hmax, hdisk, hcached⟩ :=
      store_some h'.kept.wellFormed hfind f
    have hhome : pool'.disk.Home id entry.value :=
      h'.kept.coherent.home (held_of_find hfind)
    rw [Stateful.bind_ok hget, hstore, onMap, hm]
    refine ⟨congrArg (fun r => Except.ok (some r)) hcore, h'.put hwell hmax hdisk hcached ?_ ?_⟩
    · exact hhome.change (hkeeps _) (hchange.path _) (hchange.fileName _)
        (hchange.fits _ hhome.fits)
    · exact hchange.core _ _ hcore

/-- `create_dp`, a change and `dirty_dp`. -/
theorem answers_create (h : Agrees rest pool m) (mt : MetaTable) (id : DataPageId)
    {f : LoadedPage → LoadedPage} (hlegal : (create mt id f).Legal rest m)
    (hkeeps : ∀ p, (f p).page.id = p.page.id) :
    Answers rest (outcome ((createDp mt id >>= fun p => store id f p) pool))
      ((create mt id f).onMap rest m) := by
  obtain ⟨hchange, hnew, hpage⟩ := hlegal
  have hcreate : createDp mt id pool = (match FileIOManager.createPage rest mt id with
      | .error e => throw e
      | .ok page => do
        putDp id { page := page, fileName := id }
        lookUp id : PoolProg (Option LoadedPage)) pool := by
    unfold createDp
    rw [← h.rest]
    exact Stateful.bind_ok (show (MonadState.get : PoolProg PagePool) pool = .ok pool pool from rfl)
  rw [onMap]
  cases hmade : FileIOManager.createPage rest mt id with
  | error e =>
    rw [hmade] at hcreate
    rw [Stateful.bind_error hcreate]
    exact ⟨rfl, h⟩
  | ok page =>
    rw [hmade] at hcreate
    obtain ⟨hfits, hpath⟩ := hpage page hmade
    have hview : pages.view pool.cached id = .ok none := by
      rw [h.view, hnew]
      rfl
    obtain ⟨hnone, -⟩ := absent_of_view hview
    obtain ⟨room, pool₁, hput, hsettles, hroom, hdisk₁, hmax₁, hwell₁, hfound⟩ :=
      putDp_new h.kept hnone { page := page, fileName := id }
    have hentry : pool₁.dataPages.find id
        = some { value := { page := page, fileName := id } } := by
      rw [hfound, if_pos rfl]
    obtain ⟨pool₂, hlook, htouched, hdisk₂, hsame⟩ := lookUp_of_find hwell₁ hentry
    obtain ⟨pool₃, hstore, hwell₃, hmax₃, hdisk₃, hcached₃⟩ :=
      store_some htouched.wellFormed (hsame ▸ hentry) f
    -- the page has not been seen by the time it is marked
    have h' := h.settles hsettles
    have habsent : ∀ dir ∈ room.disk.dirs, room.disk.files dir id = none := by
      refine (absent_of_view ?_).2
      rw [h'.view, hnew]
      rfl
    have hhome : room.disk.Home id { page := page, fileName := id } := by
      refine PageDisk.home_of_absent ?_ rfl hfits ?_ habsent
      · exact id_of_createPage hmade
      · rw [PageDisk.dirs, h'.rest]
        exact hpath
    rw [Stateful.bind_ok (hcreate.trans ((Stateful.bind_ok hput).trans hlook)), hstore]
    refine ⟨rfl, h'.put hwell₃ (hmax₃.trans (htouched.capacity.trans hmax₁))
      (hdisk₃.trans (hdisk₂.trans hdisk₁)) ?_ ?_ rfl⟩
    · have hcached₂ : pool₂.cached
          = room.cached.hold id (some ({ page := page, fileName := id }, false)) := by
        exact cached_hold (hdisk₂.trans hdisk₁) fun k => (congrFun hsame k).trans (hfound k)
      show pool₃.cached = _
      rw [hcached₃, hcached₂, Cached.hold_hold]
    · exact hhome.change (hkeeps _) (hchange.path _) (hchange.fileName _) (hchange.fits _ hfits)

/-- **One call.** -/
theorem answers_exec (order : List DataPageId → List DataPageId) (h : Agrees rest pool m)
    {op : PageOp} (hlegal : op.Legal rest m) (hkeeps : op.KeepsId) :
    Answers rest (outcome (op.exec order pool)) (op.onMap rest m) := by
  cases op with
  | get id => exact answers_get h id
  | change id f => exact answers_change h id hlegal hkeeps
  | create mt id f => exact answers_create h mt id hlegal hkeeps
  | flushDirty =>
    exact ⟨rfl, h.settles (settles_foldl_flush (fun _ hdirty => hdirty) _ h.kept)⟩
  | flushDirtyUpTo maxLsn =>
    refine ⟨rfl, h.settles (settles_foldl_flush (fun entry hdue => ?_) _ h.kept)⟩
    exact (Bool.and_eq_true_iff.mp hdue).1

/-- **A sequence of calls**: the pool answers as the map does. -/
theorem agrees_run (order : List DataPageId → List DataPageId) {ops : List PageOp}
    (hkeeps : ∀ op ∈ ops, op.KeepsId) :
    ∀ {pool : PagePool} {m : PageMap}, Agrees rest pool m → AllLegal rest m ops →
      (run order ops pool).1.map seen = (runOnMap rest ops m).1.map seen
        ∧ Agrees rest (run order ops pool).2 (runOnMap rest ops m).2 := by
  induction ops with
  | nil => exact fun h _ => ⟨rfl, h⟩
  | cons op ops ih =>
    intro pool m h hlegal
    obtain ⟨hanswer, hagrees⟩ :=
      answers_exec order h hlegal.1 (hkeeps op List.mem_cons_self)
    obtain ⟨hanswers, hafter⟩ :=
      ih (fun op' hop' => hkeeps op' (List.mem_cons_of_mem op hop')) hagrees hlegal.2
    exact ⟨congrArg₂ List.cons hanswer hanswers, hafter⟩

/-- Nothing is in the cache of a pool that has just been made. -/
theorem agrees_start {capacity : ℕ} (hcapacity : 1 ≤ capacity) (disk : PageDisk) :
    Agrees disk.rest (start capacity disk) disk.readDataPage where
  kept :=
    { wellFormed := ⟨List.nodup_nil, .nil, Nat.zero_le _⟩
      capacity := hcapacity
      coherent := ⟨(fun h => nomatch h), (fun h => nomatch h)⟩ }
  rest := rfl
  view _ := rfl

/-- A page is absent: it is neither in the cache nor on disk. -/
def Absent (pool : PagePool) (id : DataPageId) : Prop :=
  pool.dataPages.find id = none ∧ ∀ dir ∈ pool.disk.dirs, pool.disk.files dir id = none

/-- **A page has been stored**: on the disk before the calls, or by one of
them. -/
def Stored (disk : PageDisk) (ops : List PageOp) (id : DataPageId) : Prop :=
  (∃ dir ∈ disk.dirs, disk.files dir id ≠ none)
    ∨ ∃ mt f, create mt id f ∈ ops ∧ ∃ page, FileIOManager.createPage disk.rest mt id = .ok page

/-- The map loses no page. -/
theorem onMap_ne_none (op : PageOp) (h : m id ≠ .ok none) : (op.onMap rest m).2 id ≠ .ok none := by
  have hupdate : ∀ k p, Function.update m k (.ok (some p)) id ≠ .ok none := by
    intro k p
    by_cases hk : id = k
    · rw [hk, Function.update_self]
      exact fun h => nomatch h
    · rwa [Function.update_of_ne hk]
  cases op with
  | change k f =>
    rw [onMap]
    split
    · exact hupdate k _
    · exact h
  | create mt k f =>
    rw [onMap]
    split
    · exact h
    · exact hupdate k _
  | get | flushDirty | flushDirtyUpTo => exact h

theorem runOnMap_ne_none (ops : List PageOp) :
    ∀ {m : PageMap}, (m id ≠ .ok none ∨ ∃ mt f, create mt id f ∈ ops
      ∧ ∃ page, FileIOManager.createPage rest mt id = .ok page) →
      (runOnMap rest ops m).2 id ≠ .ok none := by
  induction ops with
  | nil =>
    rintro m (h | ⟨mt, f, hmem, -⟩)
    · exact h
    · cases hmem
  | cons op ops ih =>
    rintro m (h | ⟨mt, f, hmem, page, hpage⟩)
    · exact ih (Or.inl (onMap_ne_none op h))
    · cases hmem with
      | head =>
        refine ih (Or.inl ?_)
        show ((create mt id f).onMap rest m).2 id ≠ _
        rw [onMap, hpage]
        show Function.update m id _ id ≠ _
        rw [Function.update_self]
        exact fun h => nomatch h
      | tail _ hmem => exact ih (Or.inr ⟨mt, f, hmem, page, hpage⟩)

/-- **The buffer pool is transparent.** For every capacity, every sequence of
calls with changes that keep a page's id, and every order of flushing, a client
gets of the pool what it gets of a plain map that starts with the pages on disk,
up to the size and the number of rows, which are made anew; and a page is absent
only if it has never been stored. -/
theorem transparent (order : List DataPageId → List DataPageId) {capacity : ℕ}
    (hcapacity : 1 ≤ capacity) (disk : PageDisk) {ops : List PageOp}
    (hlegal : AllLegal disk.rest disk.readDataPage ops) (hkeeps : ∀ op ∈ ops, op.KeepsId) :
    (run order ops (start capacity disk)).1.map seen
        = (runOnMap disk.rest ops disk.readDataPage).1.map seen
      ∧ ∀ id, Absent (run order ops (start capacity disk)).2 id → ¬ Stored disk ops id := by
  obtain ⟨hanswers, hagrees⟩ := agrees_run order hkeeps (agrees_start hcapacity disk) hlegal
  refine ⟨hanswers, fun id habsent hstored => ?_⟩
  have hview := hagrees.view id
  rw [pages.view_of_not_held (held_of_find_none habsent.1)] at hview
  have hread : pages.read (run order ops (start capacity disk)).2.disk id = .ok none :=
    PageDisk.readCore_eq_none_iff.mpr habsent.2
  have hnone : (runOnMap disk.rest ops disk.readDataPage).2 id = .ok none := by
    rw [show pages.read (run order ops (start capacity disk)).2.cached.store id = .ok none
      from hread] at hview
    cases hm : (runOnMap disk.rest ops disk.readDataPage).2 id with
    | error e => rw [hm] at hview; cases hview
    | ok p =>
      rw [hm] at hview
      cases p with
      | none => rfl
      | some p => cases hview
  refine runOnMap_ne_none ops ?_ hnone
  refine hstored.imp_left fun hdisk hread => ?_
  obtain ⟨dir, hdir, hfile⟩ := hdisk
  refine hfile (PageDisk.readCore_eq_none_iff.mp ?_ dir hdir)
  unfold PageDisk.readCore
  rw [hread]
  rfl

end

/-! ### Two pages and a cache for one -/

/-- A disk with a table and two pages of it, of the ids 1 and 2. -/
def twoPages : PageDisk where
  rest := { tables := [
    { schemaName := [115], table := { id := 9, schemaId := 0, name := [116], columns := [] } }] }
  files dir id :=
    if dir = ([115], [116]) ∧ (id = 1 ∨ id = 2) then
      some (StdStorageSerializer.serializeDp (DataPage.make ([115], [116]) 9 id)).buffer
    else none

/-- `page.last_lsn = last_lsn`. -/
def setLastLsn (lastLsn : ℕ) (p : LoadedPage) : LoadedPage :=
  { p with page := { p.page with lastLsn := lastLsn } }

/-- `page.id = id`. -/
def setId (id : DataPageId) (p : LoadedPage) : LoadedPage :=
  { p with page := { p.page with id := id } }

theorem isChange_setLastLsn {lastLsn : ℕ} (h : lastLsn < 256 ^ 8) :
    IsChange (setLastLsn lastLsn) where
  core _ _ hcore := congrArg (setLastLsn lastLsn) hcore
  fits _ hp := ⟨hp.1, hp.2.1, hp.2.2.1, hp.2.2.2.1, hp.2.2.2.2.1, h, hp.2.2.2.2.2.2⟩
  path _ := rfl
  fileName _ := rfl

theorem isChange_setId {id : DataPageId} (h : id < 256 ^ 16) : IsChange (setId id) where
  core _ _ hcore := congrArg (setId id) hcore
  fits _ hp := ⟨h, hp.2⟩
  path _ := rfl
  fileName _ := rfl

/-- A change of the first page is still there when the second has taken its
place in the cache. -/
theorem transparent_two_pages :
    (run id [change 1 (setLastLsn 5), get 2, get 1] (start 1 twoPages)).1.map seen
        = (runOnMap twoPages.rest [change 1 (setLastLsn 5), get 2, get 1]
            twoPages.readDataPage).1.map seen
      ∧ ∀ page, Absent (run id [change 1 (setLastLsn 5), get 2, get 1] (start 1 twoPages)).2 page →
          ¬ Stored twoPages [change 1 (setLastLsn 5), get 2, get 1] page := by
  refine transparent id le_rfl twoPages
    ⟨isChange_setLastLsn (by decide), trivial, trivial, trivial⟩ ?_
  exact List.forall_mem_cons.mpr ⟨fun _ => rfl, List.forall_mem_cons.mpr ⟨trivial,
    List.forall_mem_cons.mpr ⟨trivial, List.forall_mem_nil _⟩⟩⟩

/-- The ids of the pages that are got. -/
def gotIds (answers : List (Except Exn (Option LoadedPage))) : List (Option DataPageId) :=
  answers.map fun answer =>
    match answer with
    | .ok (some p) => some p.page.id
    | _ => none

/-- **A change of a page's id is seen**: when the page has been evicted, its
file is not read again. -/
theorem not_transparent_of_id :
    ¬ ∀ (order : List DataPageId → List DataPageId) (capacity : ℕ) (disk : PageDisk)
      (ops : List PageOp), 1 ≤ capacity → AllLegal disk.rest disk.readDataPage ops →
        (run order ops (start capacity disk)).1.map seen
          = (runOnMap disk.rest ops disk.readDataPage).1.map seen := by
  intro h
  have hrun := h id 1 twoPages [change 1 (setId 3), get 2, get 1] le_rfl
    ⟨isChange_setId (by decide), trivial, trivial, trivial⟩
  exact absurd (congrArg gotIds hrun) (by decide +kernel)

end PageOp
