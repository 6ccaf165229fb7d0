import Mathlib.Data.List.Basic

/-!
# Lists in chunks

A list that is handed on in pieces of a bounded length. `CutInto n l chunks` says
that the pieces are those one gets by taking `n` elements at a time: nothing is lost,
doubled or moved at a boundary, no piece is empty, and only the last may be short. The
two rules follow the recursion that makes the pieces.
-/

section

variable {α : Type*} {n : ℕ} {l : List α} {chunks : List (List α)}

/-- **The chunks of a list.** -/
structure CutInto (n : ℕ) (l : List α) (chunks : List (List α)) : Prop where
  flatten : chunks.flatten = l
  ne_nil : ∀ c ∈ chunks, c ≠ []
  length_le : ∀ c ∈ chunks, c.length ≤ n
  full : ∀ c ∈ chunks.dropLast, c.length = n

namespace CutInto

theorem nil : CutInto n ([] : List α) [] where
  flatten := rfl
  ne_nil _ hc := absurd hc List.not_mem_nil
  length_le _ hc := absurd hc List.not_mem_nil
  full _ hc := absurd hc List.not_mem_nil

/-- **One more chunk in front.** When others follow there was more than one chunk to
take, so the first is full. -/
theorem cons (hn : 0 < n) (hl : l ≠ []) (h : CutInto n (l.drop n) chunks) :
    CutInto n l (l.take n :: chunks) where
  flatten := by
    rw [List.flatten_cons, h.flatten]
    exact List.take_append_drop n l
  ne_nil := by
    refine List.forall_mem_cons.mpr ⟨fun h => ?_, h.ne_nil⟩
    rcases List.take_eq_nil_iff.mp h with h | h
    · exact (Nat.ne_of_gt hn) h
    · exact hl h
  length_le := by
    refine List.forall_mem_cons.mpr ⟨?_, h.length_le⟩
    rw [List.length_take]
    exact Nat.min_le_left _ _
  full := by
    cases chunks with
    | nil => exact fun _ hc => absurd hc List.not_mem_nil
    | cons c chunks =>
      show ∀ c' ∈ l.take n :: (c :: chunks).dropLast, c'.length = n
      refine List.forall_mem_cons.mpr ⟨?_, h.full⟩
      have hne : l.drop n ≠ [] := by
        rw [← h.flatten, List.flatten_cons]
        exact List.append_ne_nil_of_left_ne_nil (h.ne_nil c List.mem_cons_self) _
      rw [List.length_take]
      exact Nat.min_eq_left (Nat.le_of_lt (by simpa using hne))

end CutInto

end
