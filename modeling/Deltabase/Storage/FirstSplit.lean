import Deltabase.Storage.IndexReload
import Deltabase.Storage.IndexShape
import Deltabase.Storage.NewestEntry
import Deltabase.Storage.PageVector

/-!
# The first split of an index

The vector of an index file starts with one page and no room for a second:
`create_index_file` appends the page to an empty vector, and `deserialize_if`
reserves room for the pages it reads and no more. So the first page that
`split_leaf_and_propagate` asks for moves the leaf that is being split, and the
split goes on with a reference to memory that has been given back. An index
works as long as its entries fit into one leaf (`length_le_of_run`), and no
insertion beyond that returns (`events_of_overflow`), whatever the keys and
however often the file is written and read back in between.
-/

open DataToken IndexBPlusTree

namespace PageVector

variable {tree : IndexBPlusTree} {v v' : PageVector} {n : ℕ}

/-! ## Runs -/

/-- The file is written by `serialize_if` and read by `deserialize_if`, into a
vector of its size. -/
def reload (v : PageVector) : Except Exn PageVector := do
  let file ← IndexBPlusTree.reload v.file
  pure { file, capacity := file.pages.length, moves := v.moves + 1 }

/-- One event. -/
def event (tree : IndexBPlusTree) (v : PageVector) : FileEvent → Except Exn PageVector
  | .insert key row => v.insert tree key row
  | .reload => v.reload

/-- A run of events; a call that does not return ends it. -/
def events (tree : IndexBPlusTree) (v : PageVector) : List FileEvent → Except Exn PageVector
  | [] => .ok v
  | e :: es => do
    let v ← v.event tree e
    events tree v es

/-- A run of `insert` calls. -/
def insertAll (tree : IndexBPlusTree) (v : PageVector) (es : List (DataToken × RowPtr)) :
    Except Exn PageVector :=
  v.events tree (es.map fun e => .insert e.1 e.2)

/-- The keys are tokens of their types, and a file that is written fits the
types of its fields. -/
def Admissible (tree : IndexBPlusTree) (v : PageVector) : List FileEvent → Prop
  | [] => True
  | e :: es => (match e with
      | .insert key _ => key.WellFormed
      | .reload => v.file.Fits)
    ∧ ∀ v', v.event tree e = .ok v' → Admissible tree v' es

instance decidableAdmissible (tree : IndexBPlusTree) :
    ∀ (v : PageVector) (es : List FileEvent), Decidable (Admissible tree v es)
  | _, [] => isTrue trivial
  | _, .insert key _ :: es =>
    have (v' : PageVector) := decidableAdmissible tree v' es
    inferInstanceAs (Decidable (key.WellFormed ∧ ∀ v', _ → Admissible tree v' es))
  | v, .reload :: es =>
    have (v' : PageVector) := decidableAdmissible tree v' es
    inferInstanceAs (Decidable (v.file.Fits ∧ ∀ v', _ → Admissible tree v' es))

/-! ## An index of one leaf -/

/-- **The index is a single leaf** with `n` keys, in a vector without room. -/
structure OneLeaf (n : ℕ) (v : PageVector) : Prop where
  full : v.capacity = 1
  page : ∃ p leaf, v.file.pages = [p] ∧ p.id = v.file.rootPage ∧ p.isLeaf = true
    ∧ p.data = .leaf leaf ∧ leaf.keys.length = n

theorem oneLeaf_create (indexId : IndexId) : OneLeaf 0 (create indexId) :=
  ⟨rfl, _, _, rfl, rfl, rfl, rfl, rfl⟩

namespace OneLeaf

/-- A search ends where it starts. -/
theorem findLeaf_eq {p : IndexPage} (hpages : v.file.pages = [p])
    (hroot : p.id = v.file.rootPage) (hleaf : p.isLeaf = true) (key : DataToken) :
    findLeaf v.file key = .ok (0, [p.id]) := by
  have hget : BPIndexPager.getPage v.file v.file.rootPage = some 0 := by
    rw [BPIndexPager.getPage, hpages, List.findIdx?_cons, if_pos (decide_eq_true hroot)]
  have hderef : BPIndexPager.deref v.file 0 = .ok p := by
    rw [BPIndexPager.deref, hpages]
    rfl
  unfold findLeaf root IndexBPlusTree.getPageOrThrow
  rw [hget]
  show findLeafLoop v.file key (v.file.pages.length + 1) 0 [] = _
  unfold findLeafLoop
  rw [hderef]
  exact if_pos hleaf

/-- The leaf of every key is the one there is. -/
theorem hasRoom_iff (h : OneLeaf n v) (key : DataToken) :
    tree.HasRoom v.file key ↔ n < tree.maxLeafKeys := by
  obtain ⟨p, leaf, hpages, hroot, hleaf, hdata, rfl⟩ := h.page
  have hderef : BPIndexPager.deref v.file 0 = .ok p := by
    rw [BPIndexPager.deref, hpages]
    rfl
  have hof : leafOf v.file key = .ok leaf := by
    unfold leafOf
    rw [findLeaf_eq hpages hroot hleaf key]
    show (BPIndexPager.deref v.file 0 >>= fun page => page.data.getLeaf) = _
    rw [hderef]
    show p.data.getLeaf = _
    rw [hdata]
    rfl
  unfold HasRoom
  rw [hof]

/-- An insertion puts its key into the leaf and looks at its size. -/
theorem insert_eq (h : OneLeaf n v) (tree : IndexBPlusTree) (key : DataToken) (row : RowPtr) :
    ∃ file path, OneLeaf (n + 1) (v.store file)
      ∧ tree.insert v.file key row = (if n + 1 > tree.maxLeafKeys
        then tree.splitLeafAndPropagate file 0 path else pure file)
      ∧ v.insert tree key row = (if n + 1 > tree.maxLeafKeys
        then (v.store file).splitLeafAndPropagate tree (v.refTo 0) path
        else pure (v.store file)) := by
  obtain ⟨p, leaf, hpages, hroot, hleaf, hdata, rfl⟩ := h.page
  have hfind := findLeaf_eq hpages hroot hleaf key
  have hderef : BPIndexPager.deref v.file 0 = .ok p := by
    rw [BPIndexPager.deref, hpages]
    rfl
  have hlen := length_insertIntoLeaf leaf key row
  refine ⟨BPIndexPager.assign v.file 0 (.withLeaf (insertIntoLeaf leaf key row).keys
    (insertIntoLeaf leaf key row).rows (insertIntoLeaf leaf key row).nextLeaf), [p.id],
    ⟨h.full, ?_⟩, ?_, ?_⟩
  · refine ⟨{ p with data := .leaf (insertIntoLeaf leaf key row) }, insertIntoLeaf leaf key row,
      ?_, hroot, hleaf, rfl, hlen⟩
    show v.file.pages.modify 0 _ = _
    rw [hpages]
    rfl
  · unfold IndexBPlusTree.insert
    simp only [hfind, hderef, hdata, IndexNode.getLeaf, bind, Except.bind, hlen]
  · unfold insert
    simp only [hfind, deref_refTo, hderef, hdata, IndexNode.getLeaf, bind, Except.bind,
      assign_refTo, hlen]

/-- **A key that finds room** goes in. -/
theorem insert_of_lt (h : OneLeaf n v) (hlt : n < tree.maxLeafKeys) (key : DataToken)
    (row : RowPtr) :
    ∃ file, tree.insert v.file key row = .ok file
      ∧ v.insert tree key row = .ok (v.store file) ∧ OneLeaf (n + 1) (v.store file) := by
  obtain ⟨file, path, hone, hfile, hv⟩ := h.insert_eq tree key row
  have hroom : ¬ n + 1 > tree.maxLeafKeys := not_lt.mpr hlt
  rw [if_neg hroom] at hfile hv
  exact ⟨file, hfile, hv, hone⟩

/-- **A leaf that is full cannot be split**: the page that is split off is put
where there is no room for it, and the leaf is used after it has been moved. -/
theorem insert_of_full (h : OneLeaf n v) (hfull : tree.maxLeafKeys ≤ n) (key : DataToken)
    (row : RowPtr) : v.insert tree key row = .error .danglingReference := by
  obtain ⟨file, path, hone, -, hv⟩ := h.insert_eq tree key row
  rw [if_pos (Nat.lt_succ_of_le hfull)] at hv
  obtain ⟨p, leaf, hpages, -, -, hdata, -⟩ := hone.page
  have hderef : (v.store file).deref (v.refTo 0) = .ok p := by
    rw [deref_store, BPIndexPager.deref]
    rw [store_file] at hpages
    rw [hpages]
    rfl
  have hcapacity : (v.store file).file.pages.length = (v.store file).capacity := by
    rw [hpages, hone.full]
    rfl
  have hmoved := deref_createPage_of_full hcapacity true p.parent 0
  obtain ⟨right, hright⟩ := deref_createPage (v.store file) true p.parent
  rw [hv]
  unfold splitLeafAndPropagate splitLeaf
  rw [refTo_store] at hmoved
  simp only [hderef, hdata, IndexNode.getLeaf, bind, Except.bind, hright, hmoved]

/-- A file that is read back is the leaf it was. -/
theorem reload_eq (h : OneLeaf n v) (hfits : v.file.Fits) :
    ∃ v', v.reload = .ok v' ∧ IndexBPlusTree.reload v.file = .ok v'.file ∧ OneLeaf n v' := by
  obtain ⟨p, leaf, hpages, hroot, hleaf, hdata, hlen⟩ := h.page
  have hcons : ∀ q ∈ v.file.pages, q.Consistent := by
    intro q hq
    rw [hpages, List.mem_singleton] at hq
    subst hq
    unfold IndexPage.Consistent
    rw [hleaf, hdata]
    rfl
  have hread := IndexBPlusTree.reload_eq hfits hcons
  refine ⟨⟨v.file.reread, 1, v.moves + 1⟩, ?_, hread, rfl, p, leaf, hpages, hroot, hleaf, hdata,
    hlen⟩
  unfold reload
  rw [hread]
  show Except.ok (PageVector.mk v.file.reread v.file.pages.length (v.moves + 1)) = _
  rw [hpages]
  rfl

/-- **Runs that fit into the leaf** do what they do to the tree, and no page is
added. By induction on the run. -/
theorem events_of_room {es : List FileEvent} (h : OneLeaf n v) (hadm : v.Admissible tree es)
    (hroom : n + (inserted es).length ≤ tree.maxLeafKeys) :
    ∃ v', v.events tree es = .ok v' ∧ tree.events v.file es = .ok v'.file
      ∧ OneLeaf (n + (inserted es).length) v'
      ∧ IndexBPlusTree.Admissible tree v.file es ∧ Spared tree v.file es := by
  induction es generalizing n v with
  | nil => exact ⟨v, rfl, rfl, h, trivial, trivial⟩
  | cons e es ih =>
    obtain ⟨hfirst, hrest⟩ := hadm
    cases e with
    | insert key row =>
      rw [inserted, List.length_cons, Nat.add_comm _ 1, ← Nat.add_assoc] at hroom
      have hlt : n < tree.maxLeafKeys := by omega
      obtain ⟨file, hfile, hv, h'⟩ := h.insert_of_lt hlt key row
      obtain ⟨v', hrun, hrun', hone, hadm', hspared⟩ := ih h' (hrest _ hv) hroom
      have hevent : tree.event v.file (.insert key row) = .ok file := hfile
      refine ⟨v', bind_eq_ok.mpr ⟨_, hv, hrun⟩, bind_eq_ok.mpr ⟨_, hfile, hrun'⟩, ?_,
        ⟨hfirst, fun file' h => ?_⟩, fun _ => (h.hasRoom_iff key).mpr hlt, fun file' h => ?_⟩
      · rw [inserted, List.length_cons, Nat.add_comm _ 1, ← Nat.add_assoc]
        exact hone
      · exact Except.ok.inj (hevent.symm.trans h) ▸ hadm'
      · exact Except.ok.inj (hevent.symm.trans h) ▸ hspared
    | reload =>
      obtain ⟨v₁, hv, hfile, h'⟩ := h.reload_eq hfirst
      obtain ⟨v', hrun, hrun', hone, hadm', hspared⟩ := ih h' (hrest _ hv) hroom
      have hevent : tree.event v.file .reload = .ok v₁.file := hfile
      refine ⟨v', bind_eq_ok.mpr ⟨_, hv, hrun⟩, bind_eq_ok.mpr ⟨_, hfile, hrun'⟩, hone,
        ⟨hfirst, fun file' h => ?_⟩, trivial, fun file' h => ?_⟩
      · exact Except.ok.inj (hevent.symm.trans h) ▸ hadm'
      · exact Except.ok.inj (hevent.symm.trans h) ▸ hspared

/-- **Runs that do not fit into the leaf** end in the insertion that would have
split it. By induction on the run. -/
theorem events_of_overflow {es : List FileEvent} (h : OneLeaf n v) (hadm : v.Admissible tree es)
    (hn : n ≤ tree.maxLeafKeys) (hover : tree.maxLeafKeys < n + (inserted es).length) :
    v.events tree es = .error .danglingReference := by
  induction es generalizing n v with
  | nil => exact absurd hover (not_lt.mpr hn)
  | cons e es ih =>
    obtain ⟨hfirst, hrest⟩ := hadm
    cases e with
    | insert key row =>
      rcases Nat.lt_or_ge n tree.maxLeafKeys with hlt | hfull
      · obtain ⟨file, -, hv, h'⟩ := h.insert_of_lt hlt key row
        rw [inserted, List.length_cons, Nat.add_comm _ 1, ← Nat.add_assoc] at hover
        unfold events
        rw [show v.event tree (.insert key row) = .ok (v.store file) from hv]
        exact ih h' (hrest _ hv) hlt hover
      · unfold events
        rw [show v.event tree (.insert key row) = .error .danglingReference from
          h.insert_of_full hfull key row]
        rfl
    | reload =>
      obtain ⟨v₁, hv, -, h'⟩ := h.reload_eq hfirst
      unfold events
      rw [show v.event tree .reload = .ok v₁ from hv]
      exact ih h' (hrest _ hv) hn hover

end OneLeaf

/-- A run of a new index that ends has inserted no more than a leaf can hold. -/
theorem length_le_of_run {es : List FileEvent} {indexId : IndexId}
    (hadm : (create indexId).Admissible tree es) (h : (create indexId).events tree es = .ok v') :
    (inserted es).length ≤ tree.maxLeafKeys := by
  by_contra hover
  have hends := (oneLeaf_create indexId).events_of_overflow hadm (Nat.zero_le _)
    (by rw [Nat.zero_add]; exact not_le.mp hover)
  rw [hends] at h
  cases h

/-! ## Insertions alone -/

theorem inserted_map (es : List (DataToken × RowPtr)) :
    inserted (es.map fun e => .insert e.1 e.2) = es := by
  induction es with
  | nil => rfl
  | cons e es ih => rw [List.map_cons, inserted, ih]

theorem admissible_map {es : List (DataToken × RowPtr)} (hwf : ∀ e ∈ es, e.1.WellFormed) :
    v.Admissible tree (es.map fun e => .insert e.1 e.2) := by
  induction es generalizing v with
  | nil => trivial
  | cons e es ih =>
    obtain ⟨hkey, hwf⟩ := List.forall_mem_cons.mp hwf
    exact ⟨hkey, fun _ _ => ih hwf⟩

theorem events_map (file : IndexFile) (es : List (DataToken × RowPtr)) :
    tree.events file (es.map fun e => .insert e.1 e.2) = tree.insertAll file es := by
  induction es generalizing file with
  | nil => rfl
  | cons e es ih =>
    show (tree.insert file e.1 e.2 >>= fun file => tree.events file _) = _
    simp only [ih]
    rfl

/-- A run of insertions that returns has put its keys into one leaf, and the file
is that of the tree. -/
theorem insertAll_ok_iff (indexId : IndexId) {es : List (DataToken × RowPtr)}
    (hwf : ∀ e ∈ es, e.1.WellFormed) :
    (∃ v, (create indexId).insertAll tree es = .ok v
      ∧ tree.insertAll (.create indexId) es = .ok v.file) ↔ es.length ≤ tree.maxLeafKeys := by
  have hadm : (create indexId).Admissible tree (es.map fun e => .insert e.1 e.2) :=
    admissible_map hwf
  constructor
  · rintro ⟨v, hrun, -⟩
    have hle := length_le_of_run hadm hrun
    rwa [inserted_map] at hle
  · intro hle
    obtain ⟨v, hrun, hfile, -⟩ := (oneLeaf_create indexId).events_of_room hadm
      (by rw [inserted_map, Nat.zero_add]; exact hle)
    refine ⟨v, hrun, ?_⟩
    rw [← events_map]
    exact hfile

/-- A run of insertions that returns at all has put its keys into one leaf. -/
theorem length_le_of_insertAll {indexId : IndexId} {es : List (DataToken × RowPtr)}
    (hwf : ∀ e ∈ es, e.1.WellFormed) (h : (create indexId).insertAll tree es = .ok v) :
    es.length ≤ tree.maxLeafKeys := by
  have hle := length_le_of_run (admissible_map hwf) h
  rwa [inserted_map] at hle

/-! ## What a new index is good for -/

/-- **An index stays a B+ tree exactly as long as it is one leaf.** After any run
of insertions into a new index, with any bounds and any keys, there is a
well-formed tree if and only if the keys fit into one leaf; the run does not
return otherwise. -/
theorem wellFormed_iff_length_le (tree : IndexBPlusTree) (hleaf : 1 ≤ tree.maxLeafKeys)
    (hint : 2 ≤ tree.maxInternalKeys) (indexId : IndexId) (es : List (DataToken × RowPtr))
    (hwf : ∀ e ∈ es, e.1.WellFormed) :
    (∃ v, (create indexId).insertAll tree es = .ok v ∧ v.file.WellFormed tree)
      ↔ es.length ≤ tree.maxLeafKeys := by
  constructor
  · rintro ⟨v, hrun, -⟩
    exact length_le_of_insertAll hwf hrun
  · intro hle
    obtain ⟨v, hrun, hfile⟩ := (insertAll_ok_iff indexId hwf).mpr hle
    obtain ⟨file, hall, hshape, -⟩ := insertAll_wellFormed tree hleaf hint indexId es hwf
    obtain rfl : v.file = file := Except.ok.inj (hfile.symm.trans hall)
    exact ⟨v, hrun, hshape⟩

/-- Two equal keys in a leaf of two. -/
theorem wellFormed_twoKeys :
    ∃ v, (create 7).insertAll ⟨2, 2⟩
        [(⟨[5, 0, 0, 0], .integer⟩, (1, 0)), (⟨[5, 0, 0, 0], .integer⟩, (1, 1))] = .ok v
      ∧ v.file.WellFormed ⟨2, 2⟩ :=
  (wellFormed_iff_length_le ⟨2, 2⟩ (by decide) (by decide) 7
    [(⟨[5, 0, 0, 0], .integer⟩, (1, 0)), (⟨[5, 0, 0, 0], .integer⟩, (1, 1))] (by decide)).mpr
    (by decide)

/-- The keys 0 to 64 fill a leaf and split it. -/
def ascendingRows : List (DataToken × RowPtr) :=
  (List.range 65).map fun i => (⟨[UInt8.ofNat i, 0, 0, 0], .integer⟩, (1, i))

/-- **The 65th key of an index breaks it.** -/
theorem not_wellFormed_ascending :
    ¬ ∃ v, (create 7).insertAll {} ascendingRows = .ok v ∧ v.file.WellFormed {} := by
  rintro ⟨v, hrun, -⟩
  have hwf : ∀ e ∈ ascendingRows, e.1.WellFormed := by
    intro e he
    obtain ⟨i, -, rfl⟩ := List.mem_map.mp he
    rfl
  have hle := length_le_of_insertAll hwf hrun
  rw [ascendingRows, List.length_map, List.length_range] at hle
  exact absurd hle (by decide)

/-- **An index survives being written and read back exactly as long as it is one
leaf.** After any run of insertions and reloads of a new index, with any bounds
and any keys, the page ids of the file are distinct and a row is found for every
key that was inserted, if and only if the keys fit into one leaf; the run does
not return otherwise. -/
theorem intact_iff_length_le (tree : IndexBPlusTree) (hleaf : 1 ≤ tree.maxLeafKeys)
    (hint : 2 ≤ tree.maxInternalKeys) (indexId : IndexId) (es : List FileEvent)
    (hadm : (create indexId).Admissible tree es) :
    (∃ v, (create indexId).events tree es = .ok v
      ∧ v.file.ids.Nodup
      ∧ ∀ e ∈ inserted es, ∃ e' ∈ inserted es, compareToken e'.1 e.1 = 0
          ∧ v.find e.1 = .ok (some e'.2))
      ↔ (inserted es).length ≤ tree.maxLeafKeys := by
  constructor
  · rintro ⟨v, hrun, -⟩
    exact length_le_of_run hadm hrun
  · intro hle
    obtain ⟨v, hrun, hfile, -, hadm', hspared⟩ := (oneLeaf_create indexId).events_of_room hadm
      (by rw [Nat.zero_add]; exact hle)
    obtain ⟨file, hevents, hnodup, hfinds⟩ :=
      (events_intact_iff tree hleaf hint indexId es hadm').mpr hspared
    obtain rfl : v.file = file := Except.ok.inj (hfile.symm.trans hevents)
    exact ⟨v, hrun, hnodup, hfinds⟩

/-- Two insertions into one leaf, with a reload between them. -/
theorem intact_reloadedLeaf :
    ∃ v, (create 7).events ⟨2, 2⟩
        [.insert ⟨[5, 0, 0, 0], .integer⟩ (1, 0), .reload, .insert ⟨[3, 0, 0, 0], .integer⟩ (1, 1)]
        = .ok v
      ∧ v.file.ids.Nodup := by
  obtain ⟨v, hrun, hnodup, -⟩ := (intact_iff_length_le ⟨2, 2⟩ (by decide) (by decide) 7
    [.insert ⟨[5, 0, 0, 0], .integer⟩ (1, 0), .reload, .insert ⟨[3, 0, 0, 0], .integer⟩ (1, 1)]
    (by decide +kernel)).mpr (by decide)
  exact ⟨v, hrun, hnodup⟩

/-- **A leaf that is full when it is read back** is not split: the insertion does
not return. -/
theorem not_intact_reloadedLeaf :
    (create 7).Admissible ⟨1, 2⟩
        [.insert ⟨[5, 0, 0, 0], .integer⟩ (1, 0), .reload, .insert ⟨[3, 0, 0, 0], .integer⟩ (1, 1)]
      ∧ (create 7).events ⟨1, 2⟩
        [.insert ⟨[5, 0, 0, 0], .integer⟩ (1, 0), .reload, .insert ⟨[3, 0, 0, 0], .integer⟩ (1, 1)]
        = .error .danglingReference := by
  decide +kernel

/-- **The newest row of every key is found exactly as long as the index is one
leaf.** After any run of insertions into a new index, with any bounds and any
keys, a lookup of every key that was inserted returns the row that was inserted
under it last, if and only if the keys fit into one leaf; the run does not return
otherwise. -/
theorem newest_iff_length_le (tree : IndexBPlusTree) (hleaf : 1 ≤ tree.maxLeafKeys)
    (hint : 1 ≤ tree.maxInternalKeys) (indexId : IndexId) (es : List (DataToken × RowPtr))
    (hwf : ∀ e ∈ es, e.1.WellFormed) :
    (∃ v, (create indexId).insertAll tree es = .ok v
      ∧ ∀ e ∈ es, v.find e.1 = .ok (newestRow es e.1)) ↔ es.length ≤ tree.maxLeafKeys := by
  constructor
  · rintro ⟨v, hrun, -⟩
    exact length_le_of_insertAll hwf hrun
  · intro hle
    obtain ⟨v, hrun, hfile⟩ := (insertAll_ok_iff indexId hwf).mpr hle
    have hnever : NeverSplitsRun tree indexId es :=
      neverSplitsRun_of_length_le hleaf hint hwf hle
    obtain ⟨file, hall, hfinds⟩ :=
      (findsNewest_iff_neverSplitsRun tree hleaf hint indexId es hwf).1 hnever es []
        (List.append_nil es).symm
    obtain rfl : v.file = file := Except.ok.inj (hfile.symm.trans hall)
    exact ⟨v, hrun, hfinds⟩

/-- Two rows under each of two keys are found as the newest of their keys. -/
theorem newest_twoKeys :
    ∃ v, (create 7).insertAll {}
        [(⟨[5, 0, 0, 0], .integer⟩, (1, 0)), (⟨[3, 0, 0, 0], .integer⟩, (1, 1)),
          (⟨[5, 0, 0, 0], .integer⟩, (1, 2)), (⟨[3, 0, 0, 0], .integer⟩, (1, 3))] = .ok v
      ∧ v.find ⟨[5, 0, 0, 0], .integer⟩ = .ok (some (1, 2)) := by
  obtain ⟨v, hrun, hfinds⟩ := (newest_iff_length_le {} (by decide) (by decide) 7
    [(⟨[5, 0, 0, 0], .integer⟩, (1, 0)), (⟨[3, 0, 0, 0], .integer⟩, (1, 1)),
      (⟨[5, 0, 0, 0], .integer⟩, (1, 2)), (⟨[3, 0, 0, 0], .integer⟩, (1, 3))]
    (by decide)).mpr (by decide)
  have hfind := hfinds (⟨[5, 0, 0, 0], .integer⟩, (1, 0)) List.mem_cons_self
  exact ⟨v, hrun, hfind.trans (by decide +kernel)⟩

/-- **The 65th row under one key is not found**: its insertion does not return. -/
theorem not_newest_sameKey :
    ¬ ∃ v, (create 7).insertAll {} sameKeyRows = .ok v
      ∧ ∀ e ∈ sameKeyRows, v.find e.1 = .ok (newestRow sameKeyRows e.1) := by
  rintro ⟨v, hrun, -⟩
  have hwf : ∀ e ∈ sameKeyRows, e.1.WellFormed := by
    intro e he
    obtain ⟨i, -, rfl⟩ := List.mem_map.mp he
    rfl
  have hle := length_le_of_insertAll hwf hrun
  rw [sameKeyRows, List.length_map, List.length_range] at hle
  exact absurd hle (by decide)

end PageVector
