import Deltabase.Types.AstTree
import Mathlib.Order.Compare

/-!
# The order of data tokens

`operator==` and `operator<` are two case distinctions on the type of a token,
and they are not the same one: `NULL` has a case in the first and none in the
second, and of two types the first says that they differ and the second which
comes first. The search in a B+ tree goes by both, since `compare_token` asks for
equality and then for the order.

On well-formed tokens both are read off one rank (`DataToken.rank`), so what is
to be shown is a fact about a linear order. `DataToken.Valid` is the type of the
well-formed tokens; on it `operator<` is a strict weak order.
-/

namespace DataToken

/-- **A well-formed token**, with the proof that it is one. -/
abbrev Valid := {t : DataToken // t.WellFormed}

variable {a b c : DataToken}

/-! ## What the comparisons say of ranks -/

/-- `operator<` fails exactly on ranks that do not increase. -/
theorem not_lt_iff_rank (ha : a.WellFormed) (hb : b.WellFormed) :
    ¬ a.lt b = true ↔ b.rank ≤ a.rank := by
  rw [lt_iff_rank ha hb]
  exact not_lt

/-- `operator<=` is the order of ranks, equal ones included. -/
theorem le_iff_rank (ha : a.WellFormed) (hb : b.WellFormed) :
    a.le b = true ↔ a.rank ≤ b.rank := by
  unfold le
  rw [Bool.or_eq_true, lt_iff_rank ha hb, eq_iff_rank ha hb]
  exact le_iff_lt_or_eq.symm

/-- `operator>=` is the same order, turned round. -/
theorem ge_iff_rank (ha : a.WellFormed) (hb : b.WellFormed) :
    a.ge b = true ↔ b.rank ≤ a.rank := by
  unfold ge
  rw [Bool.not_eq_true', ← Bool.not_eq_true]
  exact not_lt_iff_rank ha hb

/-- **`compare_token` is the three-way comparison of the ranks.** -/
theorem compareToken_eq_cmp (ha : a.WellFormed) (hb : b.WellFormed) :
    compareToken a b = match cmp a.rank b.rank with
      | .lt => -1
      | .eq => 0
      | .gt => 1 := by
  unfold compareToken
  rcases lt_trichotomy a.rank b.rank with h | h | h
  · rw [(cmp_eq_lt_iff _ _).mpr h, if_neg (mt (eq_iff_rank ha hb).mp h.ne),
      if_pos ((lt_iff_rank ha hb).mpr h)]
  · rw [(cmp_eq_eq_iff _ _).mpr h, if_pos ((eq_iff_rank ha hb).mpr h)]
  · rw [(cmp_eq_gt_iff _ _).mpr h, if_neg (mt (eq_iff_rank ha hb).mp h.ne'),
      if_neg ((not_lt_iff_rank ha hb).mpr h.le)]

/-! ## The order -/

/-- **`operator<` is a strict weak order** on the well-formed tokens of all types
together. -/
instance : IsStrictWeakOrder Valid fun a b => a.1.lt b.1 = true where
  irrefl a h := lt_irrefl a.1.rank ((lt_iff_rank a.2 a.2).mp h)
  trans a b c hab hbc := by
    rw [lt_iff_rank a.2 c.2]
    exact ((lt_iff_rank a.2 b.2).mp hab).trans ((lt_iff_rank b.2 c.2).mp hbc)
  incomp_trans a b c hab hbc := by
    rw [not_lt_iff_rank a.2 b.2, not_lt_iff_rank b.2 a.2] at hab
    rw [not_lt_iff_rank b.2 c.2, not_lt_iff_rank c.2 b.2] at hbc
    rw [not_lt_iff_rank a.2 c.2, not_lt_iff_rank c.2 a.2]
    exact ⟨hbc.1.trans hab.1, hab.2.trans hbc.2⟩

/-- **Exactly one** of `a < b`, `a == b` and `b < a` holds. -/
theorem exactly_one (ha : a.WellFormed) (hb : b.WellFormed) :
    (a.lt b).toNat + (a.eq b).toNat + (b.lt a).toNat = 1 := by
  have hlt := lt_iff_rank ha hb
  have heq := eq_iff_rank ha hb
  have hgt := lt_iff_rank hb ha
  rcases lt_trichotomy a.rank b.rank with h | h | h
  · have h₁ : a.lt b = true := hlt.mpr h
    have h₂ : a.eq b = false := Bool.eq_false_iff.mpr (mt heq.mp h.ne)
    have h₃ : b.lt a = false := Bool.eq_false_iff.mpr (mt hgt.mp h.asymm)
    rw [h₁, h₂, h₃]
    rfl
  · have h₁ : a.lt b = false := Bool.eq_false_iff.mpr (mt hlt.mp h.not_lt)
    have h₂ : a.eq b = true := heq.mpr h
    have h₃ : b.lt a = false := Bool.eq_false_iff.mpr (mt hgt.mp h.not_gt)
    rw [h₁, h₂, h₃]
    rfl
  · have h₁ : a.lt b = false := Bool.eq_false_iff.mpr (mt hlt.mp h.asymm)
    have h₂ : a.eq b = false := Bool.eq_false_iff.mpr (mt heq.mp h.ne')
    have h₃ : b.lt a = true := hgt.mpr h
    rw [h₁, h₂, h₃]
    rfl

/-- Tokens that are incomparable are equal. -/
theorem incomparable_iff_eq (ha : a.WellFormed) (hb : b.WellFormed) :
    ¬ a.lt b = true ∧ ¬ b.lt a = true ↔ a.eq b = true := by
  rw [not_lt_iff_rank ha hb, not_lt_iff_rank hb ha, eq_iff_rank ha hb]
  exact ⟨fun h => le_antisymm h.2 h.1, fun h => ⟨h.ge, h.le⟩⟩

/-- **`compare_token` changes its sign** when its arguments change places. -/
theorem compareToken_swap (ha : a.WellFormed) (hb : b.WellFormed) :
    compareToken b a = -compareToken a b := by
  rw [compareToken_eq_cmp ha hb, compareToken_eq_cmp hb ha, ← cmp_swap a.rank b.rank]
  cases cmp a.rank b.rank <;> rfl

/-- **The comparisons of data tokens.** Of well-formed tokens of any types, exactly
one of `a < b`, `a == b` and `b < a` holds and `<` is a strict weak order with `==`
as its incomparability; the other operators are what these two make of them; and
`compare_token` is antisymmetric and transitive. -/
theorem comparisons_ordered (ha : a.WellFormed) (hb : b.WellFormed) (hc : c.WellFormed) :
    IsStrictWeakOrder Valid (fun s t => s.1.lt t.1 = true)
      ∧ (a.lt b).toNat + (a.eq b).toNat + (b.lt a).toNat = 1
      ∧ (¬ a.lt b = true ∧ ¬ b.lt a = true ↔ a.eq b = true)
      ∧ (a.lt b = true → b.lt c = true → a.lt c = true)
      ∧ (a.eq b = true → b.eq c = true → a.eq c = true)
      ∧ (a.le b = true ↔ a.lt b = true ∨ a.eq b = true)
      ∧ (a.gt b = true ↔ b.lt a = true)
      ∧ (a.ge b = true ↔ b.lt a = true ∨ a.eq b = true)
      ∧ (a.ne b = true ↔ a.lt b = true ∨ b.lt a = true)
      ∧ compareToken b a = -compareToken a b
      ∧ (compareToken a b ≤ 0 → compareToken b c ≤ 0 → compareToken a c ≤ 0)
      ∧ (compareToken a b < 0 → compareToken b c < 0 → compareToken a c < 0) := by
  refine ⟨inferInstance, exactly_one ha hb, incomparable_iff_eq ha hb, fun hab hbc => ?_,
    fun hab hbc => ?_, ?_, Iff.rfl, ?_, ?_, compareToken_swap ha hb, fun hab hbc => ?_,
    fun hab hbc => ?_⟩
  · rw [lt_iff_rank ha hc]
    exact ((lt_iff_rank ha hb).mp hab).trans ((lt_iff_rank hb hc).mp hbc)
  · rw [eq_iff_rank ha hc]
    exact ((eq_iff_rank ha hb).mp hab).trans ((eq_iff_rank hb hc).mp hbc)
  · rw [le_iff_rank ha hb, lt_iff_rank ha hb, eq_iff_rank ha hb]
    exact le_iff_lt_or_eq
  · rw [ge_iff_rank ha hb, lt_iff_rank hb ha, eq_iff_rank ha hb, eq_comm]
    exact le_iff_lt_or_eq
  · unfold ne
    rw [Bool.not_eq_true', ← Bool.not_eq_true, eq_iff_rank ha hb, lt_iff_rank ha hb,
      lt_iff_rank hb ha]
    exact ne_iff_lt_or_gt
  · rw [compareToken_nonpos_iff ha hc]
    exact ((compareToken_nonpos_iff ha hb).mp hab).trans ((compareToken_nonpos_iff hb hc).mp hbc)
  · rw [compareToken_neg_iff ha hc]
    exact ((compareToken_neg_iff ha hb).mp hab).trans ((compareToken_neg_iff hb hc).mp hbc)

/-- A `NULL`, an `INTEGER` and a `STRING`, in this order. -/
theorem comparisons_ordered_mixed :
    compareToken ⟨[], .null⟩ ⟨[255, 255, 255, 255], .integer⟩ < 0
      ∧ compareToken ⟨[], .null⟩ ⟨[97], .string⟩ < 0 := by
  have h := comparisons_ordered (a := ⟨[], .null⟩) (b := ⟨[255, 255, 255, 255], .integer⟩)
    (c := ⟨[97], .string⟩) (by decide) (by decide) (by decide)
  exact ⟨by decide, h.2.2.2.2.2.2.2.2.2.2.2 (by decide) (by decide)⟩

end DataToken
