import Mathlib.Data.List.Nodup

/-!
# Chains

Nodes of a type `ι` that refer to each other: `next a` is the node after `a`,
and `nil`, which is no node, stands for none. `Linked next nil l` says that the
nodes of `l` form one chain in this order. A chain grows at its end
(`Linked.snoc`); its last node is the one without a node after it
(`Linked.next_eq_nil_iff`) and its first the one that no node refers to
(`Linked.unreferenced_iff`).
-/

section

variable {ι : Type*}

/-- **The nodes of a list are linked** in its order, and none comes after the
last. -/
def Linked (next : ι → ι) (nil : ι) : List ι → Prop
  | [] => True
  | a :: l => next a = l.headD nil ∧ Linked next nil l

namespace Linked

variable {next next' : ι → ι} {nil a : ι} {l : List ι}

theorem congr (h : Linked next nil l) (heq : ∀ b ∈ l, next' b = next b) : Linked next' nil l := by
  induction l with
  | nil => exact trivial
  | cons b l ih =>
    exact ⟨(heq b List.mem_cons_self).trans h.1,
      ih h.2 fun c hc => heq c (List.mem_cons_of_mem b hc)⟩

/-- **A chain grows at its end**: its last node refers to the new one. -/
theorem snoc (h : Linked next nil l) (hnodup : l.Nodup) (hnew : next' a = nil)
    (hlast : ∀ b, l.getLast? = some b → next' b = a)
    (hother : ∀ b ∈ l, l.getLast? ≠ some b → next' b = next b) : Linked next' nil (l ++ [a]) := by
  induction l with
  | nil => exact ⟨hnew, trivial⟩
  | cons b l ih =>
    obtain ⟨hb, hnodup'⟩ := List.nodup_cons.mp hnodup
    cases l with
    | nil => exact ⟨hlast b rfl, hnew, trivial⟩
    | cons c l =>
      have hget : (b :: c :: l).getLast? = (c :: l).getLast? := List.getLast?_cons_cons
      refine ⟨?_, ih h.2 hnodup' (fun d hd => hlast d (hget.trans hd)) fun d hd hne =>
        hother d (List.mem_cons_of_mem b hd) (hget ▸ hne)⟩
      rw [hother b List.mem_cons_self, h.1]
      · rfl
      · rw [hget]
        exact fun hlast => hb (List.mem_of_getLast? hlast)

/-- **The last node of a chain** is the one without a node after it. -/
theorem next_eq_nil_iff (h : Linked next nil l) (hnil : nil ∉ l) (hnodup : l.Nodup) (ha : a ∈ l) :
    next a = nil ↔ l.getLast? = some a := by
  induction l with
  | nil => cases ha
  | cons b l ih =>
    obtain ⟨hb, hnodup'⟩ := List.nodup_cons.mp hnodup
    cases l with
    | nil =>
      obtain rfl := List.mem_singleton.mp ha
      exact ⟨fun _ => rfl, fun _ => h.1⟩
    | cons c l =>
      rw [List.getLast?_cons_cons]
      rcases List.mem_cons.mp ha with rfl | ha
      · have hc : next a = c := h.1
        refine ⟨fun hnext => absurd ?_ hnil, fun hlast => absurd (List.mem_of_getLast? hlast) hb⟩
        rw [← hnext, hc]
        exact List.mem_cons_of_mem a List.mem_cons_self
      · exact ih h.2 (fun hin => hnil (List.mem_cons_of_mem b hin)) hnodup' ha

/-- What a node of a chain refers to comes later in the chain, if it is a node. -/
theorem next_mem_tail (h : Linked next nil l) (ha : a ∈ l) : next a ∈ l.tail ∨ next a = nil := by
  induction l with
  | nil => cases ha
  | cons b l ih =>
    rcases List.mem_cons.mp ha with rfl | ha
    · cases l with
      | nil => exact .inr h.1
      | cons c l => exact .inl (h.1 ▸ List.mem_cons_self)
    · exact (ih h.2 ha).imp_left List.mem_of_mem_tail

/-- All nodes of a chain but the first are referred to. -/
theorem exists_next_eq (h : Linked next nil l) (ha : a ∈ l.tail) : ∃ b ∈ l, next b = a := by
  induction l with
  | nil => cases ha
  | cons b l ih =>
    cases l with
    | nil => cases ha
    | cons c l =>
      rcases List.mem_cons.mp ha with rfl | ha
      · exact ⟨b, List.mem_cons_self, h.1⟩
      · obtain ⟨d, hd, hnext⟩ := ih h.2 ha
        exact ⟨d, List.mem_cons_of_mem b hd, hnext⟩

/-- **The first node of a chain** is the one that no node refers to. -/
theorem unreferenced_iff (h : Linked next nil l) (hnil : nil ∉ l) (hnodup : l.Nodup) (ha : a ∈ l) :
    (∀ b ∈ l, next b ≠ a) ↔ l.head? = some a := by
  cases l with
  | nil => cases ha
  | cons c l =>
    rw [List.head?_cons, Option.some.injEq]
    constructor
    · intro hnone
      rcases List.mem_cons.mp ha with heq | ha
      · exact heq.symm
      · obtain ⟨b, hb, hnext⟩ := h.exists_next_eq ha
        exact absurd hnext (hnone b hb)
    · rintro rfl b hb hnext
      rcases h.next_mem_tail hb with hin | heq
      · exact (List.nodup_cons.mp hnodup).1 (hnext ▸ hin)
      · exact hnil (heq ▸ hnext ▸ ha)

end Linked

end
