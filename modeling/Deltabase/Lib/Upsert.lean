import Mathlib.Data.List.Basic
import Mathlib.Data.List.Nodup

/-!
# Writing to a list that is read by key

A list of values each of which has a key, read by `find?` on the key and
written by `upsert`: the first value with the key is replaced, and a value
whose key is new goes to the end. The same list may be read by another key than
the one it is written by; the two agree as long as they tell the written value
from the others in the same way (`upsert_congr`).
-/

section

variable {α κ κ' : Type*} [DecidableEq κ] [DecidableEq κ']
variable {key : α → κ} {key' : α → κ'} {x y : α} {l : List α}

/-- Replaces the first value with the key of `x`, or appends `x`. -/
def upsert (key : α → κ) (x : α) : List α → List α
  | [] => [x]
  | y :: l => if key y = key x then x :: l else y :: upsert key x l

/-- **Reading after writing**, by the same key. -/
theorem find?_upsert (key : α → κ) (x : α) (l : List α) (k : κ) :
    (upsert key x l).find? (fun y => key y = k)
      = if key x = k then some x else l.find? fun y => key y = k := by
  induction l with
  | nil => by_cases h : key x = k <;> simp [upsert, h]
  | cons y l ih =>
    rw [upsert]
    by_cases hyx : key y = key x
    · rw [if_pos hyx]
      by_cases h : key x = k
      · simp [h]
      · simp [h, hyx]
    · rw [if_neg hyx]
      by_cases h : key y = k
      · have hx : key x ≠ k := fun hx => hyx (h.trans hx.symm)
        simp [h, hx]
      · simp [h, ih]

/-- **Reading after writing**, by some other property: what is found is the value
that has been replaced, if the new one has the property too. -/
theorem find?_upsert_of_find? {p : α → Bool} (hy : l.find? p = some y) (hkey : key y = key x)
    (hx : p x = true) : (upsert key x l).find? p = some x := by
  induction l with
  | nil => cases hy
  | cons z l ih =>
    rw [upsert]
    by_cases hz : key z = key x
    · rw [if_pos hz, List.find?_cons_of_pos hx]
    · rw [if_neg hz]
      cases hp : p z with
      | true =>
        rw [List.find?_cons_of_pos hp] at hy
        exact absurd hkey (Option.some.inj hy ▸ hz)
      | false =>
        have hnot : ¬ p z = true := by rw [hp]; exact Bool.false_ne_true
        rw [List.find?_cons_of_neg hnot] at hy ⊢
        exact ih hy

/-- What is in a list is found by its key, when the keys are distinct. -/
theorem find?_key_of_nodup {key : α → κ} {x : α} {l : List α} (h : (l.map key).Nodup) (hx : x ∈ l) :
    l.find? (fun y => key y = key x) = some x := by
  cases hfind : l.find? fun y => key y = key x with
  | none =>
    have hnone := List.find?_eq_none.mp hfind x hx
    simp at hnone
  | some y =>
    have hmem := List.mem_of_find?_eq_some hfind
    have hkey : key y = key x := by simpa using List.find?_some hfind
    rw [List.inj_on_of_nodup_map h hmem hx hkey]

/-- Two keys that tell the written value from the others in the same way write
the same list. -/
theorem upsert_congr (h : ∀ y ∈ l, key y = key x ↔ key' y = key' x) :
    upsert key x l = upsert key' x l := by
  induction l with
  | nil => rfl
  | cons y l ih =>
    have hy := h y (by simp)
    rw [upsert, upsert, ih fun z hz => h z (List.mem_cons_of_mem y hz)]
    by_cases hk : key y = key x
    · rw [if_pos hk, if_pos (hy.mp hk)]
    · rw [if_neg hk, if_neg (mt hy.mpr hk)]

theorem mem_upsert_self (key : α → κ) (x : α) (l : List α) : x ∈ upsert key x l := by
  induction l with
  | nil => simp [upsert]
  | cons y l ih =>
    rw [upsert]
    split <;> simp [ih]

/-- Whatever is in the list after the write was there before or is what was
written. -/
theorem mem_of_mem_upsert (h : y ∈ upsert key x l) : y = x ∨ y ∈ l := by
  induction l with
  | nil => exact .inl (List.mem_singleton.mp h)
  | cons z l ih =>
    rw [upsert] at h
    split at h
    · rcases List.mem_cons.mp h with h | h
      exacts [.inl h, .inr (List.mem_cons_of_mem z h)]
    · rcases List.mem_cons.mp h with h | h
      · exact .inr (h ▸ List.mem_cons_self)
      · exact (ih h).imp_right (List.mem_cons_of_mem z)

/-- A value with another key stays. -/
theorem mem_upsert_of_ne (hy : y ∈ l) (hne : key y ≠ key x) : y ∈ upsert key x l := by
  induction l with
  | nil => cases hy
  | cons z l ih =>
    rw [upsert]
    by_cases hz : key z = key x
    · rw [if_pos hz]
      rcases List.mem_cons.mp hy with rfl | hy
      exacts [absurd hz hne, List.mem_cons_of_mem x hy]
    · rw [if_neg hz]
      rcases List.mem_cons.mp hy with rfl | hy
      exacts [List.mem_cons_self, List.mem_cons_of_mem z (ih hy)]

/-- What is in the list after a value with a new key is written. -/
theorem mem_upsert_iff_of_new (h : ∀ z ∈ l, key z ≠ key x) :
    y ∈ upsert key x l ↔ y ∈ l ∨ y = x := by
  constructor
  · intro hy
    exact (mem_of_mem_upsert hy).symm
  · rintro (hy | rfl)
    · exact mem_upsert_of_ne hy (h y hy)
    · exact mem_upsert_self key y l

/-- The keys after a write: those before, and the written key at the end when
it is new. -/
theorem map_key_upsert (key : α → κ) (x : α) (l : List α) :
    (upsert key x l).map key = if key x ∈ l.map key then l.map key else l.map key ++ [key x] := by
  induction l with
  | nil => simp [upsert]
  | cons y l ih =>
    rw [upsert]
    by_cases h : key y = key x
    · simp [h]
    · rw [if_neg h, List.map_cons, ih]
      by_cases hx : key x ∈ l.map key
      · simp only [List.map_cons, List.mem_cons, hx, or_true, if_true]
      · have hne : key x ∉ key y :: l.map key := by
          rw [List.mem_cons, not_or]
          exact ⟨fun e => h e.symm, hx⟩
        simp only [List.map_cons, if_neg hx, if_neg hne, List.cons_append]

/-- **Keys stay distinct.** -/
theorem nodup_upsert (h : (l.map key).Nodup) : ((upsert key x l).map key).Nodup := by
  rw [map_key_upsert]
  split_ifs with hx
  · exact h
  · exact List.nodup_append.mpr ⟨h, List.nodup_singleton _, fun a ha b hb hab =>
      hx (by rwa [← List.mem_singleton.mp hb, ← hab])⟩

/-- **What is in the list after a write**, when the keys are distinct: the
written value, and those with another key. -/
theorem mem_upsert_iff_of_nodup (h : (l.map key).Nodup) :
    y ∈ upsert key x l ↔ y = x ∨ y ∈ l ∧ key y ≠ key x := by
  constructor
  · intro hy
    rcases mem_of_mem_upsert hy with rfl | hmem
    · exact .inl rfl
    · by_cases hkey : key y = key x
      · exact .inl (List.inj_on_of_nodup_map (nodup_upsert h) hy (mem_upsert_self key x l) hkey)
      · exact .inr ⟨hmem, hkey⟩
  · rintro (rfl | ⟨hmem, hkey⟩)
    · exact mem_upsert_self key y l
    · exact mem_upsert_of_ne hmem hkey

end
