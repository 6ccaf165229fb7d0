import Mathlib.Data.List.Induction
import Deltabase.Storage.IndexContents

/-!
# The newest of equal keys

Entries are never removed from an index, so the rows of one key pile up, and
the unique check and the equality scan look at one of them only: the one `find`
returns. They count on it being the newest. `insert_into_leaf` puts an entry
before its equals and `find` takes the first equal key of the leaf its search
ends in, so within one leaf this is so.

Across leaves it is so as long as equal keys share a leaf. A search goes right
at an equal separator, and a leaf that is split between two equal keys leaves
the newer ones on the left. `Represents.Separated` says that no key has entries
in two leaves: an insertion keeps that unless it splits a run of equal keys
(`SplitsRun`), and after the first insertion that does, the split key is looked
up wrongly.

All this is about pages that stay where they are while the tree is changed. What
becomes of a new index when they do not is the subject of `FirstSplit`.
-/

open DataToken IndexBPlusTree

/-! ## Newest rows and runs of equal keys -/

/-- Whether an entry lies under a key. -/
def isUnder (key : DataToken) (e : DataToken × RowPtr) : Bool := compareToken e.1 key = 0

/-- The row that was inserted last under a key. -/
def newestRow (es : List (DataToken × RowPtr)) (key : DataToken) : Option RowPtr :=
  (es.reverse.find? (isUnder key)).map Prod.snd

/-- **Every key is looked up as its newest row**, in every state that a run of
insertions into a new index reaches. -/
def FindsNewest (tree : IndexBPlusTree) (indexId : IndexId) (es : List (DataToken × RowPtr)) :
    Prop :=
  ∀ es₁ es₂, es = es₁ ++ es₂ → ∃ file, tree.insertAll (IndexFile.create indexId) es₁ = .ok file
    ∧ ∀ e ∈ es₁, find file e.1 = .ok (newestRow es₁ e.1)

/-- The keys of a leaf with one more put before its equals. -/
def keysWith (ks : List DataToken) (key : DataToken) : List DataToken :=
  ks.takeWhile (fun k => compareToken k key < 0) ++ key ::
    ks.dropWhile (fun k => compareToken k key < 0)

/-- The keys on both sides of a cut are equal. -/
def EqualAt (ks : List DataToken) (mid : ℕ) : Prop :=
  ∃ k k', ks[mid - 1]? = some k ∧ ks[mid]? = some k' ∧ compareToken k k' = 0

/-- **A run of equal keys is about to be split**: the leaf the key belongs to
is full, and with the key in it the two keys in the middle are equal. -/
def SplitsRun (tree : IndexBPlusTree) (file : IndexFile) (key : DataToken) : Prop :=
  ∃ ks, leafKeys file key = .ok ks ∧ tree.maxLeafKeys ≤ ks.length
    ∧ EqualAt (keysWith ks key) ((ks.length + 1) / 2)

/-- No insertion of a run splits a run of equal keys. -/
def NeverSplitsRun (tree : IndexBPlusTree) (indexId : IndexId)
    (es : List (DataToken × RowPtr)) : Prop :=
  ∀ es₁ key row es₂, es = es₁ ++ (key, row) :: es₂ →
    ∀ file, tree.insertAll (IndexFile.create indexId) es₁ = .ok file → ¬ SplitsRun tree file key

/-! ## Runs from their end -/

/-- A run is a shorter run and one more insertion. -/
theorem insertAll_concat (tree : IndexBPlusTree) (file : IndexFile)
    (es : List (DataToken × RowPtr)) (key : DataToken) (row : RowPtr) :
    tree.insertAll file (es ++ [(key, row)])
      = (tree.insertAll file es).bind fun file => tree.insert file key row := by
  induction es generalizing file with
  | nil =>
    show (tree.insert file key row).bind (fun file => .ok file) = tree.insert file key row
    cases tree.insert file key row <;> rfl
  | cons e es ih =>
    obtain ⟨key', row'⟩ := e
    show (tree.insert file key' row').bind (fun file => tree.insertAll file (es ++ [(key, row)]))
      = ((tree.insert file key' row').bind fun file => tree.insertAll file es).bind _
    cases tree.insert file key' row' with
    | error x => rfl
    | ok file' => exact ih file'

theorem FindsNewest.dropLast {tree : IndexBPlusTree} {indexId : IndexId}
    {es : List (DataToken × RowPtr)} {x : DataToken × RowPtr}
    (h : FindsNewest tree indexId (es ++ [x])) : FindsNewest tree indexId es := by
  intro es₁ es₂ hes
  exact h es₁ (es₂ ++ [x]) (by rw [hes, List.append_assoc])

theorem NeverSplitsRun.dropLast {tree : IndexBPlusTree} {indexId : IndexId}
    {es : List (DataToken × RowPtr)} {x : DataToken × RowPtr}
    (h : NeverSplitsRun tree indexId (es ++ [x])) : NeverSplitsRun tree indexId es := by
  intro es₁ key row es₂ hes
  exact h es₁ key row (es₂ ++ [x]) (by rw [hes, List.append_assoc, List.cons_append])

/-- The last insertion of a run does not split a run of equal keys, and none
before it does. -/
theorem NeverSplitsRun.concat {tree : IndexBPlusTree} {indexId : IndexId}
    {es : List (DataToken × RowPtr)} {key : DataToken} {row : RowPtr}
    (h : NeverSplitsRun tree indexId es)
    (hlast : ∀ file, tree.insertAll (IndexFile.create indexId) es = .ok file →
      ¬ SplitsRun tree file key) : NeverSplitsRun tree indexId (es ++ [(key, row)]) := by
  intro es₁ key' row' es₂ hes
  rcases List.eq_nil_or_concat es₂ with rfl | ⟨es₃, x, rfl⟩
  · obtain ⟨rfl, hx⟩ := List.append_inj' hes rfl
    obtain ⟨rfl, rfl⟩ := Prod.mk.inj (List.head_eq_of_cons_eq hx)
    exact hlast
  · rw [List.concat_eq_append, ← List.cons_append, ← List.append_assoc] at hes
    exact h es₁ key' row' es₃ (List.append_inj' hes rfl).1

/-! ## Keys in the middle of a leaf -/

/-- Where the entry goes, in terms of the keys. -/
theorem keysWith_eq {E E' : List (DataToken × RowPtr)} {key : DataToken}
    (hwf : ∀ e ∈ E ++ E', e.1.WellFormed) (hkey : key.WellFormed)
    (hE : ∀ e ∈ E, e.1.rank < key.rank) (hE' : ∀ e ∈ E', key.rank ≤ e.1.rank) (row : RowPtr) :
    keysWith ((E ++ E').map Prod.fst) key = (E ++ (key, row) :: E').map Prod.fst := by
  have hbelow : ∀ k ∈ E.map Prod.fst, decide (compareToken k key < 0) = true := by
    intro k hk
    obtain ⟨e, he, rfl⟩ := List.mem_map.mp hk
    exact decide_eq_true
      ((compareToken_neg_iff (hwf e (List.mem_append_left _ he)) hkey).mpr (hE e he))
  have habove : ∀ k ∈ E'.map Prod.fst, ¬ decide (compareToken k key < 0) = true := by
    intro k hk
    obtain ⟨e, he, rfl⟩ := List.mem_map.mp hk
    rw [decide_eq_true_eq,
      compareToken_neg_iff (hwf e (List.mem_append_right _ he)) hkey, not_lt]
    exact hE' e he
  have htake : (E'.map Prod.fst).takeWhile (fun k => decide (compareToken k key < 0)) = [] := by
    cases hks : E'.map Prod.fst with
    | nil => rfl
    | cons k ks => exact List.takeWhile_cons_of_neg (habove k (by simp [hks]))
  have hdrop : (E'.map Prod.fst).dropWhile (fun k => decide (compareToken k key < 0))
      = E'.map Prod.fst := by
    cases hks : E'.map Prod.fst with
    | nil => rfl
    | cons k ks => exact List.dropWhile_cons_of_neg (habove k (by simp [hks]))
  unfold keysWith
  rw [List.map_append, List.takeWhile_append_of_pos hbelow, List.dropWhile_append_of_pos hbelow,
    htake, hdrop, List.append_nil, List.map_append, List.map_cons]

/-- The keys on both sides of a cut between two entries. -/
theorem equalAt_append {es₁ es₂ : List (DataToken × RowPtr)} {d e : DataToken × RowPtr}
    {mid : ℕ} (hmid : (es₁ ++ [d]).length = mid) :
    EqualAt ((es₁ ++ [d] ++ e :: es₂).map Prod.fst) mid ↔ compareToken d.1 e.1 = 0 := by
  subst hmid
  have hd : ((es₁ ++ [d] ++ e :: es₂).map Prod.fst)[(es₁ ++ [d]).length - 1]? = some d.1 := by
    simp
  have he : ((es₁ ++ [d] ++ e :: es₂).map Prod.fst)[(es₁ ++ [d]).length]? = some e.1 := by
    simp
  unfold EqualAt
  rw [hd, he]
  constructor
  · rintro ⟨k, k', hk, hk', heq⟩
    rw [Option.some.injEq] at hk hk'
    rw [hk, hk']
    exact heq
  · exact fun heq => ⟨_, _, rfl, rfl, heq⟩

/-! ## Leaves that share no key -/

namespace Represents

variable {tree : IndexBPlusTree} {file : IndexFile} {leaves : List LeafBlock}
  {Ls : List (List IndexBlock)} {key : DataToken} {A B : List LeafBlock} {l : LeafBlock}

/-- **No key has entries in two leaves.** -/
def Separated (leaves : List LeafBlock) : Prop :=
  leaves.Pairwise fun l l' => ∀ e ∈ l.entries, ∀ e' ∈ l'.entries, e.1.rank < e'.1.rank

/-- A leaf with leaves before it has a first entry, and a search for a key
that ends there has passed it. -/
theorem AtLeaf.exists_le (hat : AtLeaf A l B key) (hA : A ≠ [])
    (hne : ∀ l' ∈ (A ++ l :: B).tail, l'.entries ≠ []) : ∃ e ∈ l.entries, e.1.rank ≤ key.rank := by
  have hl : l.entries ≠ [] := by
    refine hne l ?_
    cases A with
    | nil => exact absurd rfl hA
    | cons a A => simp
  have hlow := hat.low hA
  unfold LeafBlock.low at hlow
  cases hes : l.entries with
  | nil => exact absurd hes hl
  | cons e es =>
    rw [hes] at hlow
    exact ⟨e, List.mem_cons_self, WithBot.coe_le_coe.mp hlow⟩

/-- Leaves that share no key leave only smaller keys before the leaf of a
search. -/
theorem Separated.before_lt (hsep : Separated (A ++ l :: B)) (hat : AtLeaf A l B key)
    (hne : ∀ l' ∈ (A ++ l :: B).tail, l'.entries ≠ []) :
    ∀ e ∈ leafEntries A, e.1.rank < key.rank := by
  intro e he
  obtain ⟨a, ha, hea⟩ := List.mem_flatMap.mp he
  obtain ⟨e₀, he₀, hle⟩ := hat.exists_le (List.ne_nil_of_mem ha) hne
  have hcross := (List.pairwise_append.mp hsep).2.2 a ha l List.mem_cons_self
  exact (hcross e hea e₀ he₀).trans_le hle

/-- The keys of a leaf lie between those of the leaves around it. -/
theorem Separated.between (hsep : Separated (A ++ l :: B)) {e : DataToken × RowPtr}
    (he : e ∈ l.entries) :
    (∀ a ∈ leafEntries A, a.1.rank < e.1.rank) ∧ ∀ b ∈ leafEntries B, e.1.rank < b.1.rank := by
  obtain ⟨-, hright, hcross⟩ := List.pairwise_append.mp hsep
  constructor
  · intro a ha
    obtain ⟨l', hl', hal'⟩ := List.mem_flatMap.mp ha
    exact hcross l' hl' l List.mem_cons_self a hal' e he
  · intro b hb
    obtain ⟨l', hl', hbl'⟩ := List.mem_flatMap.mp hb
    exact (List.pairwise_cons.mp hright).1 l' hl' e he b hbl'

/-- Replacing a leaf by leaves whose keys fit in its place. -/
theorem Separated.replace (hsep : Separated (A ++ l :: B)) {X : List LeafBlock}
    (hX : Separated X)
    (hbetween : ∀ l' ∈ X, ∀ e ∈ l'.entries, (∀ a ∈ leafEntries A, a.1.rank < e.1.rank)
      ∧ ∀ b ∈ leafEntries B, e.1.rank < b.1.rank) : Separated (A ++ (X ++ B)) := by
  obtain ⟨hA, hright, hcross⟩ := List.pairwise_append.mp hsep
  refine List.pairwise_append.mpr ⟨hA, List.pairwise_append.mpr
    ⟨hX, (List.pairwise_cons.mp hright).2, ?_⟩, ?_⟩
  · intro l' hl' b hb e he e' he'
    exact (hbetween l' hl' e he).2 e' (List.mem_flatMap.mpr ⟨b, hb, he'⟩)
  · intro a ha l' hl' e he e' he'
    rcases List.mem_append.mp hl' with hl' | hl'
    · exact (hbetween l' hl' e' he').1 e (List.mem_flatMap.mpr ⟨a, ha, he⟩)
    · exact hcross a ha l' (List.mem_cons_of_mem l hl') e he e' he'

/-- **An insertion that splits no run keeps the leaves apart.** -/
theorem Separated.leavesAfter (hsep : Separated (A ++ l :: B)) {es : List (DataToken × RowPtr)}
    (hsorted : es.Pairwise fun e e' => e.1.rank ≤ e'.1.rank)
    (hbetween : ∀ e ∈ es, (∀ a ∈ leafEntries A, a.1.rank < e.1.rank)
      ∧ ∀ b ∈ leafEntries B, e.1.rank < b.1.rank) (newId : ℕ)
    (hmid : es.length > tree.maxLeafKeys → ∀ es₁ d e es₂, es = es₁ ++ [d] ++ e :: es₂ →
      (es₁ ++ [d]).length = es.length / 2 → d.1.rank ≠ e.1.rank) :
    Separated (Represents.leavesAfter tree A l B es newId) := by
  unfold Represents.leavesAfter
  split_ifs with hover
  · refine hsep.replace (X := [⟨l.id, es.take (es.length / 2)⟩, ⟨newId, es.drop (es.length / 2)⟩])
      ?_ ?_
    · refine List.pairwise_pair.mpr ?_
      show ∀ e ∈ es.take (es.length / 2), ∀ e' ∈ es.drop (es.length / 2), e.1.rank < e'.1.rank
      intro e he e' he'
      -- the last key on the left is below the first one on the right
      obtain ⟨es₁, d, hleft⟩ := (es.take (es.length / 2)).eq_nil_or_concat.resolve_left
        (List.ne_nil_of_mem he)
      obtain ⟨c, es₂, hright⟩ := List.exists_cons_of_ne_nil (List.ne_nil_of_mem he')
      rw [List.concat_eq_append] at hleft
      have hes : es = es₁ ++ [d] ++ c :: es₂ := by
        rw [← hleft, ← hright, List.take_append_drop]
      have hlen : (es₁ ++ [d]).length = es.length / 2 := by
        rw [← hleft, List.length_take_of_le (Nat.div_le_self _ _)]
      have hne := hmid hover es₁ d c es₂ hes hlen
      rw [hleft] at he
      rw [hright] at he'
      rw [hes] at hsorted
      obtain ⟨hs₁, hs₂, hcross⟩ := List.pairwise_append.mp hsorted
      have hd : e.1.rank ≤ d.1.rank := by
        rcases List.mem_append.mp he with he | he
        · exact (List.pairwise_append.mp hs₁).2.2 e he d List.mem_cons_self
        · rw [List.mem_singleton.mp he]
      have hc : c.1.rank ≤ e'.1.rank := by
        rcases List.mem_cons.mp he' with rfl | he'
        · exact le_rfl
        · exact (List.pairwise_cons.mp hs₂).1 e' he'
      have hdc := hcross d (List.mem_append_right _ List.mem_cons_self) c List.mem_cons_self
      exact hd.trans_lt ((lt_of_le_of_ne hdc hne).trans_le hc)
    · intro l' hl' e he
      rcases List.mem_pair.mp hl' with rfl | rfl
      · exact hbetween e (List.mem_of_mem_take he)
      · exact hbetween e (List.mem_of_mem_drop he)
  · refine hsep.replace (X := [⟨l.id, es⟩]) (List.pairwise_singleton _ _) ?_
    intro l' hl' e he
    rw [List.mem_singleton.mp hl'] at he
    exact hbetween e he

/-! ## The invariant of a run -/

/-- **After a run of insertions**: no key has entries in two leaves, and the
first entry of a key is the one inserted last. -/
structure HoldsNewest (tree : IndexBPlusTree) (file : IndexFile) (leaves : List LeafBlock)
    (Ls : List (List IndexBlock)) (es : List (DataToken × RowPtr)) : Prop where
  represents : Represents tree file leaves Ls
  separated : Separated leaves
  first : ∀ key : DataToken, key.WellFormed →
    (leafEntries leaves).find? (isUnder key) = es.reverse.find? (isUnder key)
  entries : (leafEntries leaves).Perm es

variable {es : List (DataToken × RowPtr)} {row : RowPtr}

theorem isUnder_iff {e : DataToken × RowPtr} (he : e.1.WellFormed) (hkey : key.WellFormed) :
    isUnder key e = true ↔ e.1.rank = key.rank := by
  rw [isUnder, decide_eq_true_eq]
  exact compareToken_eq_zero_iff he hkey

/-- The first entry of a key after an insertion: the new one if it lies under
the key, the old one otherwise. -/
theorem find?_insert {X Y : List (DataToken × RowPtr)} {x : DataToken × RowPtr}
    (hwf : ∀ e ∈ X ++ x :: Y, e.1.WellFormed) (hX : ∀ e ∈ X, e.1.rank < x.1.rank)
    (hkey : key.WellFormed) (hold : (X ++ Y).find? (isUnder key) = es.reverse.find? (isUnder key)) :
    (X ++ x :: Y).find? (isUnder key) = (es ++ [x]).reverse.find? (isUnder key) := by
  rw [List.reverse_append, List.reverse_singleton, List.singleton_append, List.find?_append]
  by_cases hx : isUnder key x = true
  · have hnone : X.find? (isUnder key) = none := by
      rw [List.find?_eq_none]
      intro e he hunder
      have hxk := (isUnder_iff (hwf x (by simp)) hkey).mp hx
      have hek := (isUnder_iff (hwf e (by simp [he])) hkey).mp hunder
      exact absurd (hek.trans hxk.symm) (hX e he).ne
    rw [hnone, List.find?_cons_of_pos hx, List.find?_cons_of_pos hx]
    rfl
  · rw [List.find?_cons_of_neg hx, List.find?_cons_of_neg hx, ← List.find?_append, hold]

/-- **What is looked up is the newest row**: the leaf the search ends in has
all entries of the key. -/
theorem HoldsNewest.find_eq (h : HoldsNewest tree file leaves Ls es) (hkey : key.WellFormed) :
    IndexBPlusTree.find file key = .ok (newestRow es key) := by
  obtain ⟨A, l, B, rfl, hat, hfind⟩ := h.represents.find_leaf_spec hkey
  have hwf := h.represents.wf
  have hsplit : leafEntries (A ++ l :: B) = leafEntries A ++ (l.entries ++ leafEntries B) := by
    rw [leafEntries, List.flatMap_append, List.flatMap_cons]
    rfl
  have hA : (leafEntries A).find? (isUnder key) = none := by
    rw [List.find?_eq_none]
    intro e he hunder
    have hlt := h.separated.before_lt hat h.represents.nonempty e he
    exact absurd ((isUnder_iff (hwf e (by simp [hsplit, he])) hkey).mp hunder) hlt.ne
  have hB : (leafEntries B).find? (isUnder key) = none := by
    rw [List.find?_eq_none]
    intro e he hunder
    exact absurd ((isUnder_iff (hwf e (by simp [hsplit, he])) hkey).mp hunder) (hat.after e he).ne'
  have hfirst := h.first key hkey
  rw [hsplit, List.find?_append, List.find?_append, hA, hB, Option.none_or, Option.or_none]
    at hfirst
  rw [hfind, newestRow, ← hfirst]
  rfl

/-- **One insertion**: what it does to the leaves, to the first entries and to
the condition that keeps the leaves apart. -/
theorem HoldsNewest.insert_spec (h : HoldsNewest tree file leaves Ls es)
    (hleaf : 1 ≤ tree.maxLeafKeys) (hint : 1 ≤ tree.maxInternalKeys) (hkey : key.WellFormed)
    (row : RowPtr) :
    ∃ file' Ls' A l B ls newId, leaves = A ++ l :: B
      ∧ tree.insert file key row = .ok file'
      ∧ Represents tree file' (Represents.leavesAfter tree A l B ls newId) Ls'
      ∧ (∀ e ∈ ls, (∀ a ∈ leafEntries A, a.1.rank < e.1.rank)
          ∧ ∀ b ∈ leafEntries B, e.1.rank < b.1.rank)
      ∧ ls.Pairwise (fun e e' => e.1.rank ≤ e'.1.rank)
      ∧ (∀ k : DataToken, k.WellFormed →
          (leafEntries A ++ (ls ++ leafEntries B)).find? (isUnder k)
            = (es ++ [(key, row)]).reverse.find? (isUnder k))
      ∧ (leafEntries A ++ (ls ++ leafEntries B)).Perm (es ++ [(key, row)])
      ∧ (SplitsRun tree file key ↔ ls.length > tree.maxLeafKeys
          ∧ EqualAt (ls.map Prod.fst) (ls.length / 2)) := by
  obtain ⟨file', Ls', A, l, B, E, E', newId, rfl, hat, hes, hE, hE', hkeys, hins, hrep⟩ :=
    h.represents.insert_leaves_spec hleaf hint hkey row
  have hall := leafEntries_leavesAfter tree A l B (E ++ (key, row) :: E') newId
  have hbefore := h.separated.before_lt hat h.represents.nonempty
  have hold : leafEntries (A ++ l :: B) = (leafEntries A ++ E) ++ (E' ++ leafEntries B) := by
    rw [leafEntries, List.flatMap_append, List.flatMap_cons, hes]
    simp [leafEntries]
  have hnew : leafEntries A ++ ((E ++ (key, row) :: E') ++ leafEntries B)
      = (leafEntries A ++ E) ++ (key, row) :: (E' ++ leafEntries B) := by simp
  have hsorted := hrep.sorted
  have hwf := hrep.wf
  rw [hall] at hsorted hwf
  refine ⟨file', Ls', A, l, B, E ++ (key, row) :: E', newId, rfl, hins, hrep, ?_, ?_, ?_, ?_, ?_⟩
  · intro e he
    by_cases hx : e = (key, row)
    · rw [hx]
      exact ⟨hbefore, hat.after⟩
    · refine h.separated.between ?_
      rw [hes]
      rcases List.mem_append.mp he with he | he
      · exact List.mem_append_left _ he
      · exact List.mem_append_right _ ((List.mem_cons.mp he).resolve_left hx)
  · exact (List.pairwise_append.mp (List.pairwise_append.mp hsorted).2.1).1
  · intro k hk
    have hfirst := h.first k hk
    rw [hold] at hfirst
    rw [hnew] at hwf ⊢
    refine find?_insert hwf ?_ hk hfirst
    intro e he
    rcases List.mem_append.mp he with he | he
    exacts [hbefore e he, hE e he]
  · rw [hnew]
    refine List.perm_middle.trans ?_
    rw [← hold]
    exact (List.Perm.cons _ h.entries).trans (List.perm_append_singleton _ _).symm
  · have hlen : l.keys.length + 1 = (E ++ (key, row) :: E').length := by
      rw [LeafBlock.keys, List.length_map, hes]
      simp
      rfl
    have hwith : keysWith l.keys key = (E ++ (key, row) :: E').map Prod.fst := by
      rw [LeafBlock.keys, hes]
      refine keysWith_eq (fun e he => ?_) hkey hE hE' row
      refine h.represents.wf e ?_
      rw [hold]
      simp only [List.mem_append] at he ⊢
      rcases he with he | he
      exacts [.inl (.inr he), .inr (.inl he)]
    constructor
    · rintro ⟨ks, hks, hfull, heq⟩
      obtain rfl : l.keys = ks := Except.ok.inj (hkeys.symm.trans hks)
      rw [hlen, hwith] at heq
      exact ⟨by omega, heq⟩
    · rintro ⟨hover, heq⟩
      refine ⟨l.keys, hkeys, by omega, ?_⟩
      rw [hlen, hwith]
      exact heq

/-- **An insertion that splits no run keeps the newest entries in front.** -/
theorem HoldsNewest.insert (h : HoldsNewest tree file leaves Ls es) (hleaf : 1 ≤ tree.maxLeafKeys)
    (hint : 1 ≤ tree.maxInternalKeys) (hkey : key.WellFormed) (row : RowPtr)
    (hsplit : ¬ SplitsRun tree file key) :
    ∃ file' leaves' Ls', tree.insert file key row = .ok file'
      ∧ HoldsNewest tree file' leaves' Ls' (es ++ [(key, row)]) := by
  obtain ⟨file', Ls', A, l, B, ls, newId, rfl, hins, hrep, hbetween, hsorted, hfirst, hperm,
    hsplits⟩ := h.insert_spec hleaf hint hkey row
  have hall := leafEntries_leavesAfter tree A l B ls newId
  refine ⟨file', _, Ls', hins, hrep, ?_, ?_, ?_⟩
  · refine h.separated.leavesAfter hsorted hbetween newId fun hover es₁ d e es₂ hls hlen heq => ?_
    refine hsplit (hsplits.mpr ⟨hover, ?_⟩)
    have hmem : ∀ c ∈ ls, c.1.WellFormed := fun c hc =>
      hrep.wf c (by rw [hall]; exact List.mem_append_right _ (List.mem_append_left _ hc))
    rw [hls] at hlen hmem ⊢
    exact (equalAt_append hlen).mpr ((compareToken_eq_zero_iff (hmem d (by simp))
      (hmem e (by simp))).mpr heq)
  · rw [hall]
    exact hfirst
  · rw [hall]
    exact hperm

/-! ## A run that is split -/

/-- **The search goes right**: the search for the first key of a leaf ends in
that leaf when all later keys are greater. -/
theorem AtLeaf.eq_of_first {A' B' : List LeafBlock} {l' r : LeafBlock}
    (hrep : Represents tree file (A ++ l :: r :: B) Ls)
    {e : DataToken × RowPtr} (he : e ∈ r.entries) (hB : ∀ b ∈ leafEntries B, e.1.rank < b.1.rank)
    (hsplit : A ++ l :: r :: B = A' ++ l' :: B') (hat : AtLeaf A' l' B' e.1) : l' = r := by
  -- the leaf is not behind the search: the search would have to pass its key
  have hr : r ∉ B' := fun hr => lt_irrefl _ (hat.after e (List.mem_flatMap.mpr ⟨r, hr, he⟩))
  -- and the search does not end further right, where all keys are greater
  have hl' : A' ≠ [] → l' ∉ B := by
    intro hA' hmem
    obtain ⟨e', he', hle⟩ := hat.exists_le hA' (hsplit ▸ hrep.nonempty)
    exact absurd hle (not_le.mpr (hB e' (List.mem_flatMap.mpr ⟨l', hmem, he'⟩)))
  rw [show A ++ l :: r :: B = (A ++ [l]) ++ r :: B by simp, List.append_eq_append_iff] at hsplit
  rcases hsplit with ⟨C, hA', hrest⟩ | ⟨C, hA, hrest⟩
  · cases C with
    | nil => exact (List.head_eq_of_cons_eq hrest).symm
    | cons c C =>
      have hB' : B = C ++ l' :: B' := (List.cons.inj hrest).2
      exact absurd (by simp [hB']) (hl' (by simp [hA']))
  · cases C with
    | nil => exact List.head_eq_of_cons_eq hrest
    | cons c C =>
      have hB' : B' = C ++ r :: B := (List.cons.inj hrest).2
      exact absurd (by simp [hB']) hr

/-- **Splitting a run loses the newest row**: the key in the middle is looked
up as the first row on the right, and a newer one stays on the left. -/
theorem HoldsNewest.find_ne (h : HoldsNewest tree file leaves Ls es) (hleaf : 1 ≤ tree.maxLeafKeys)
    (hint : 1 ≤ tree.maxInternalKeys) (hkey : key.WellFormed)
    (hrows : ((es ++ [(key, row)]).map Prod.snd).Nodup) (hsplit : SplitsRun tree file key) :
    ∃ file', tree.insert file key row = .ok file' ∧ ∃ e ∈ es ++ [(key, row)],
      IndexBPlusTree.find file' e.1 ≠ .ok (newestRow (es ++ [(key, row)]) e.1) := by
  obtain ⟨file', Ls', A, l, B, ls, newId, rfl, hins, hrep, hbetween, -, hfirst, hperm, hsplits⟩ :=
    h.insert_spec hleaf hint hkey row
  obtain ⟨hover, hequal⟩ := hsplits.mp hsplit
  have hall := leafEntries_leavesAfter tree A l B ls newId
  refine ⟨file', hins, ?_⟩
  -- the entries on both sides of the cut
  obtain ⟨es₁, d, e, es₂, hls, hlen⟩ : ∃ es₁ d e es₂, ls = es₁ ++ [d] ++ e :: es₂
      ∧ (es₁ ++ [d]).length = ls.length / 2 := by
    have hmid : ls.length / 2 < ls.length := by omega
    have hlen := List.length_take_of_le hmid.le
    obtain ⟨es₁, d, htake⟩ := (ls.take (ls.length / 2)).eq_nil_or_concat.resolve_left
      (by rw [← ne_eq, ← List.length_pos_iff, hlen]; omega)
    rw [List.concat_eq_append] at htake
    refine ⟨es₁, d, ls[ls.length / 2], ls.drop (ls.length / 2 + 1), ?_, htake ▸ hlen⟩
    rw [← htake, ← List.drop_eq_getElem_cons hmid, List.take_append_drop]
  have hwf : ∀ c ∈ leafEntries A ++ (ls ++ leafEntries B), c.1.WellFormed :=
    fun c hc => hrep.wf c (hall ▸ hc)
  have hmem : e ∈ ls := by simp [hls]
  have hwfe : e.1.WellFormed := hwf e (by simp [hmem])
  have hunder : isUnder e.1 d = true := by
    rw [hls] at hequal hlen
    exact decide_eq_true ((equalAt_append hlen).mp hequal)
  refine ⟨e, hperm.mem_iff.mp (by simp [hmem]), ?_⟩
  -- the search ends in the leaf that was split off, and takes its first entry
  have hafter : Represents.leavesAfter tree A l B ls newId
      = A ++ ⟨l.id, es₁ ++ [d]⟩ :: ⟨newId, e :: es₂⟩ :: B := by
    rw [Represents.leavesAfter, if_pos hover, ← hlen, hls, List.take_left, List.drop_left]
  rw [hafter] at hrep
  obtain ⟨A', l', B', hcut, hat, hfind⟩ := hrep.find_leaf_spec hwfe
  obtain rfl := hat.eq_of_first hrep (List.mem_cons_self) (hbetween e hmem).2 hcut
  have hself : isUnder e.1 e = true := (isUnder_iff hwfe hwfe).mpr rfl
  have hfound : IndexBPlusTree.find file' e.1 = .ok (some e.2) := by
    rw [hfind]
    show Except.ok (((e :: es₂).find? (isUnder e.1)).map Prod.snd) = _
    rw [List.find?_cons_of_pos hself]
    rfl
  -- while the newest entry is one on the left
  have hparts : leafEntries A ++ (ls ++ leafEntries B)
      = (leafEntries A ++ (es₁ ++ [d])) ++ e :: (es₂ ++ leafEntries B) := by
    rw [hls]
    simp
  have hfirst' := hfirst e.1 hwfe
  rw [hparts] at hfirst' hperm
  obtain ⟨c, hc⟩ := Option.isSome_iff_exists.mp (List.find?_isSome.mpr
    ⟨d, List.mem_append_right (leafEntries A) (List.mem_append_right es₁ List.mem_cons_self),
      hunder⟩)
  rw [List.find?_append, hc] at hfirst'
  rw [hfound, newestRow, ← hfirst']
  intro heq
  have hrow : e.2 = c.2 := Option.some.inj (Except.ok.inj heq)
  have hnodup := (hperm.map Prod.snd).nodup_iff.mpr hrows
  rw [List.map_append, List.map_cons] at hnodup
  have hcmem : c.2 ∈ (leafEntries A ++ (es₁ ++ [d])).map Prod.snd :=
    List.mem_map_of_mem (List.mem_of_find?_eq_some hc)
  exact (List.nodup_append.mp hnodup).2.2 c.2 hcmem e.2 List.mem_cons_self hrow.symm

end Represents

/-! ## Runs of insertions -/

open Represents

/-- A run that splits no run of equal keys keeps the newest entries in front.
By induction on the run, from its end. -/
theorem holdsNewest_of_neverSplitsRun {tree : IndexBPlusTree} (hleaf : 1 ≤ tree.maxLeafKeys)
    (hint : 1 ≤ tree.maxInternalKeys) {indexId : IndexId} {es : List (DataToken × RowPtr)}
    (hwf : ∀ e ∈ es, e.1.WellFormed) (hnever : NeverSplitsRun tree indexId es) :
    ∃ file leaves Ls, tree.insertAll (IndexFile.create indexId) es = .ok file
      ∧ HoldsNewest tree file leaves Ls es := by
  induction es using List.reverseRecOn with
  | nil =>
    exact ⟨_, _, _, rfl, represents_create tree indexId, List.pairwise_singleton _ _,
      fun _ _ => rfl, List.Perm.refl _⟩
  | append_singleton es x ih =>
    obtain ⟨key, row⟩ := x
    obtain ⟨file, leaves, Ls, hall, h⟩ :=
      ih (fun e he => hwf e (List.mem_append_left _ he)) hnever.dropLast
    obtain ⟨file', leaves', Ls', hins, h'⟩ := h.insert hleaf hint
      (hwf (key, row) (by simp)) row (hnever es key row [] rfl file hall)
    refine ⟨file', leaves', Ls', ?_, h'⟩
    rw [insertAll_concat, hall]
    exact hins

/-- **The newest row of a key is found** in every state of a run of insertions
that splits no run of equal keys, and of distinct rows in no other run. -/
theorem findsNewest_iff_neverSplitsRun (tree : IndexBPlusTree) (hleaf : 1 ≤ tree.maxLeafKeys)
    (hint : 1 ≤ tree.maxInternalKeys) (indexId : IndexId) (es : List (DataToken × RowPtr))
    (hwf : ∀ e ∈ es, e.1.WellFormed) :
    (NeverSplitsRun tree indexId es → FindsNewest tree indexId es)
      ∧ ((es.map Prod.snd).Nodup → FindsNewest tree indexId es →
        NeverSplitsRun tree indexId es) := by
  constructor
  · intro hnever es₁ es₂ hes
    have hwf₁ : ∀ e ∈ es₁, e.1.WellFormed := fun e he =>
      hwf e (hes ▸ List.mem_append_left _ he)
    have hnever₁ : NeverSplitsRun tree indexId es₁ := by
      intro es₃ key row es₄ hes₁
      exact hnever es₃ key row (es₄ ++ es₂) (by rw [hes, hes₁]; simp)
    obtain ⟨file, leaves, Ls, hall, h⟩ := holdsNewest_of_neverSplitsRun hleaf hint hwf₁ hnever₁
    exact ⟨file, hall, fun e he => h.find_eq (hwf₁ e he)⟩
  · -- the first insertion that splits a run of equal keys is noticed at once
    intro hrows hfinds
    induction es using List.reverseRecOn with
    | nil =>
      intro es₁ key row es₂ hes
      exact absurd hes (by simp)
    | append_singleton es x ih =>
      obtain ⟨key, row⟩ := x
      have hwf' : ∀ e ∈ es, e.1.WellFormed := fun e he => hwf e (List.mem_append_left _ he)
      have hrows' : (es.map Prod.snd).Nodup := by
        rw [List.map_append] at hrows
        exact (List.nodup_append.mp hrows).1
      have hnever := ih hwf' hrows' hfinds.dropLast
      refine hnever.concat fun file hall hsplit => ?_
      obtain ⟨file₁, leaves, Ls, hall₁, h⟩ := holdsNewest_of_neverSplitsRun hleaf hint hwf' hnever
      obtain rfl : file₁ = file := Except.ok.inj (hall₁.symm.trans hall)
      obtain ⟨file', hins, e, he, hne⟩ :=
        h.find_ne hleaf hint (hwf (key, row) (by simp)) hrows hsplit
      obtain ⟨file₂, hall₂, hfind⟩ := hfinds (es ++ [(key, row)]) [] (by simp)
      rw [insertAll_concat, hall] at hall₂
      obtain rfl : file' = file₂ := Except.ok.inj (hins.symm.trans hall₂)
      exact hne (hfind e he)

/-- A run that fits into one leaf splits nothing. -/
theorem neverSplitsRun_of_length_le {tree : IndexBPlusTree} (hleaf : 1 ≤ tree.maxLeafKeys)
    (hint : 1 ≤ tree.maxInternalKeys) {indexId : IndexId} {es : List (DataToken × RowPtr)}
    (hwf : ∀ e ∈ es, e.1.WellFormed) (hlen : es.length ≤ tree.maxLeafKeys) :
    NeverSplitsRun tree indexId es := by
  induction es using List.reverseRecOn with
  | nil =>
    intro es₁ key row es₂ hes
    exact absurd hes (by simp)
  | append_singleton es x ih =>
    obtain ⟨key, row⟩ := x
    have hwf' : ∀ e ∈ es, e.1.WellFormed := fun e he => hwf e (List.mem_append_left _ he)
    have hnever := ih hwf' (le_trans (by simp) hlen)
    refine hnever.concat fun file hall hsplit => ?_
    obtain ⟨file₁, leaves, Ls, hall₁, h⟩ := holdsNewest_of_neverSplitsRun hleaf hint hwf' hnever
    obtain rfl : file₁ = file := Except.ok.inj (hall₁.symm.trans hall)
    obtain ⟨-, -, A, l, B, ls, -, -, -, -, -, -, -, hperm, hsplits⟩ :=
      h.insert_spec hleaf hint (hwf (key, row) (by simp)) row
    have hover := (hsplits.mp hsplit).1
    have hle : ls.length ≤ (es ++ [(key, row)]).length := by
      rw [← hperm.length_eq, List.length_append, List.length_append]
      omega
    exact absurd (hle.trans hlen) (not_le.mpr hover)

/-- The rows 1 to 65 under one key fill a leaf and split it. -/
def sameKeyRows : List (DataToken × RowPtr) :=
  (List.range 65).map fun i => (⟨[5, 0, 0, 0], .integer⟩, (1, i + 1))

/-- **A newer row is passed over**: of 65 rows under one key the 33rd is found. -/
theorem not_findsNewest : ¬ FindsNewest {} 7 sameKeyRows := by
  intro h
  obtain ⟨file, hall, hfind⟩ := h sameKeyRows [] (by simp)
  have hfound : ((insertAll {} (IndexFile.create 7) sameKeyRows).bind fun file =>
      find file ⟨[5, 0, 0, 0], .integer⟩) = .ok (some (1, 33)) := by decide +kernel
  have hnewest : newestRow sameKeyRows ⟨[5, 0, 0, 0], .integer⟩ = some (1, 65) := by
    decide +kernel
  rw [hall] at hfound
  have hlast := hfind (⟨[5, 0, 0, 0], .integer⟩, (1, 65)) (by decide +kernel)
  rw [hnewest] at hlast
  exact absurd (hfound.symm.trans hlast) (by decide)
