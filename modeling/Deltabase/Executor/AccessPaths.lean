import Deltabase.Executor.AnalyzerSoundness
import Deltabase.Storage.IndexScan

/-!
# Filtering and scanning an index

Whether a condition `column op literal` is evaluated by a filter over all rows or by
the scan of an index is up to the planner. The two have comparisons of their own:
those of `Evaluator` know an order only between tokens of one type, `BOOL` has none,
and its `<` and `<=` are written with `>` and `>=`; those of `DataToken` order all
tokens, first by type.

So the two access paths select the same rows by `==` and `!=`, by `>` and `>=`
wherever the evaluator has an order, and by the others only where both come out
false (`evaluate_eq_matchesCondition_iff`).
-/

namespace StdDbInstance

variable {mt : MetaTable} {row : DataRow}

/-- **A comparison of a column with a literal.** -/
theorem matchesCondition_comparison {op : AstOperator} (column value : SqlToken) :
    matchesCondition mt row (.binaryExpr op (.identifier column) (.literal value)) = (do
      let left ← valueOfNode mt row (.identifier column)
      let right ← DataToken.ofSqlToken value
      match op.compare with
      | some compare => pure (compare left right)
      | none => .error (.runtimeError "StdDbInstance::index_scan: unsupported condition op")) :=
  rfl

/-- The value of the column is the one that the evaluator reads. -/
theorem valueOfNode_of_columnToken {column : SqlToken} {a : DataToken}
    (h : Evaluator.columnToken mt row column.value = .ok a) :
    valueOfNode mt row (.identifier column) = .ok a := by
  unfold Evaluator.columnToken at h
  unfold valueOfNode
  cases hidx : mt.getColumnIdxByName column.value with
  | none =>
    rw [hidx] at h
    cases h
  | some colIdx =>
    simp only [hidx] at h ⊢
    cases htoken : row.tokens[colIdx]? with
    | none =>
      rw [htoken] at h
      cases h
    | some token =>
      simp only [htoken] at h ⊢
      exact h

end StdDbInstance

namespace Evaluator

variable {a b : DataToken}

/-! ## The comparisons of the evaluator -/

/-- The type of a value that is not `NULL`. -/
def IsValue (type : DataType) : Prop :=
  type = .integer ∨ type = .real ∨ type = .char ∨ type = .bool ∨ type = .string

/-- **The evaluator has an order** for two tokens: they are of one type, and that is
not `BOOL`. -/
def Ordered (a b : DataToken) : Prop := a.type = b.type ∧ a.type ≠ .bool

instance : Decidable (Ordered a b) := inferInstanceAs (Decidable (_ ∧ _))

/-- Equality is that of data tokens. -/
theorem eq_eq (ha : a.type ≠ .null) (hb : IsValue b.type) : eq a b = a.eq b := by
  have hnull : b.type ≠ .null := by
    intro h
    rw [h] at hb
    rcases hb with h | h | h | h | h <;> cases h
  unfold eq DataToken.eq
  rw [if_neg (not_or.mpr ⟨ha, hnull⟩)]
  by_cases htype : a.type = b.type
  · rw [if_neg (not_not.mpr htype), if_neg (not_not.mpr htype)]
    rw [← htype] at hb
    rcases hb with h | h | h | h | h <;> rw [h]
  · rw [if_pos htype, if_pos htype]

/-- Without an order nothing is greater. -/
theorem greater_of_not_ordered (h : ¬ Ordered a b) : greater a b = false := by
  unfold greater
  by_cases htype : a.type = b.type
  · have hbool : a.type = .bool := not_not.mp fun hne => h ⟨htype, hne⟩
    rw [if_neg (not_not.mpr htype), hbool]
  · rw [if_pos htype]

theorem greaterEq_of_not_ordered (h : ¬ Ordered a b) : greaterEq a b = false := by
  unfold greaterEq
  by_cases htype : a.type = b.type
  · have hbool : a.type = .bool := not_not.mp fun hne => h ⟨htype, hne⟩
    rw [if_neg (not_not.mpr htype), hbool]
  · rw [if_pos htype]

/-- The order is that of data tokens. -/
theorem greater_of_ordered (h : Ordered a b) (hb : IsValue b.type) : greater a b = b.lt a := by
  obtain ⟨htype, hbool⟩ := h
  unfold greater DataToken.lt
  rw [if_neg (not_not.mpr htype), if_neg (not_not.mpr htype.symm), ← htype]
  rw [← htype] at hb
  rcases hb with h | h | h | h | h
  · rw [h]
  · rw [h]
  · rw [h]
  · exact absurd h hbool
  · rw [h]

/-- Of two numbers that are no NaNs one is less, or they are equal. -/
theorem doubleLt_or_doubleEq {x y : ℕ} (hx : isNaN x = false) (hy : isNaN y = false) :
    (doubleLt y x || doubleEq x y) = !doubleLt x y := by
  unfold doubleLt doubleEq
  rw [hx, hy, Bool.eq_iff_iff]
  simp only [Bool.not_false, Bool.true_and, Bool.or_eq_true, decide_eq_true_eq, Bool.not_eq_true',
    decide_eq_false_iff_not, not_lt]
  rw [le_iff_lt_or_eq, eq_comm (a := doubleKey y)]

theorem greaterEq_of_ordered (h : Ordered a b) (hb : IsValue b.type) (hranked : a.Ranked)
    (hranked' : b.Ranked) : greaterEq a b = !a.lt b := by
  obtain ⟨htype, hbool⟩ := h
  unfold greaterEq DataToken.lt
  rw [if_neg (not_not.mpr htype), if_neg (not_not.mpr htype)]
  rw [← htype] at hb
  have hlt : ∀ x y : ℤ, decide (x ≥ y) = !decide (x < y) := fun x y => by
    rw [← decide_not, decide_eq_decide]
    exact not_lt.symm
  rcases hb with h | h | h | h | h
  · rw [h]
    exact hlt _ _
  · rw [h]
    unfold DataToken.Ranked at hranked hranked'
    rw [← htype, h] at hranked'
    rw [h] at hranked
    exact doubleLt_or_doubleEq hranked hranked'
  · rw [h]
    exact hlt _ _
  · exact absurd h hbool
  · rw [h]

/-! ## Where the comparisons agree -/

/-- **Two tokens that the access paths compare alike**, in the order of the types and
of the values within a type. -/
def SamePaths (a b : DataToken) : AstOperator → Prop
  | .lt => if Ordered a b then a.rank = b.rank else b.rank ≤ a.rank
  | .lte => if Ordered a b then a.rank = b.rank else b.rank < a.rank
  | .gr => Ordered a b ∨ a.rank ≤ b.rank
  | .gre => Ordered a b ∨ a.rank < b.rank
  | _ => True

section

variable (hb : IsValue b.type) (hranked : a.Ranked) (hranked' : b.Ranked)

include hb hranked hranked'

/-- What is greater for the evaluator. -/
theorem greater_iff : greater a b = true ↔ Ordered a b ∧ b.rank < a.rank := by
  by_cases h : Ordered a b
  · rw [greater_of_ordered h hb, DataToken.lt_iff_rank_of_ranked hranked' hranked]
    exact (and_iff_right h).symm
  · rw [greater_of_not_ordered h]
    exact iff_of_false Bool.false_ne_true fun h' => h h'.1

theorem greaterEq_iff : greaterEq a b = true ↔ Ordered a b ∧ b.rank ≤ a.rank := by
  by_cases h : Ordered a b
  · rw [greaterEq_of_ordered h hb hranked hranked', Bool.not_eq_true', Bool.eq_false_iff, Ne,
      DataToken.lt_iff_rank_of_ranked hranked hranked', not_lt]
    exact (and_iff_right h).symm
  · rw [greaterEq_of_not_ordered h]
    exact iff_of_false Bool.false_ne_true fun h' => h h'.1

/-- **The two families of comparisons** agree on the tokens that the paths compare
alike, and on no others. -/
theorem evaluateTokens_eq_compare_iff {op : AstOperator} {compare : DataToken → DataToken → Bool}
    (ha : a.type ≠ .null) (hop : op.compare = some compare) :
    evaluateTokens a b op = compare a b ↔ SamePaths a b op := by
  have hgreater := greater_iff hb hranked hranked'
  have hgreaterEq := greaterEq_iff hb hranked hranked'
  have hlt := DataToken.lt_iff_rank_of_ranked hranked hranked'
  have hgt := DataToken.lt_iff_rank_of_ranked hranked' hranked
  have heq := DataToken.eq_iff_rank_of_ranked hranked hranked'
  cases op with
  | eq =>
    obtain rfl := Option.some.inj hop
    exact iff_of_true (eq_eq ha hb) trivial
  | neq =>
    obtain rfl := Option.some.inj hop
    exact iff_of_true (congrArg Bool.not (eq_eq ha hb)) trivial
  | lt =>
    obtain rfl := Option.some.inj hop
    show greater a b = a.lt b ↔ if Ordered a b then a.rank = b.rank else b.rank ≤ a.rank
    rw [Bool.eq_iff_iff, hgreater, hlt]
    by_cases h : Ordered a b
    · rw [if_pos h, and_iff_right h]
      refine ⟨fun hiff => ?_, fun hrank => ?_⟩
      · exact le_antisymm (not_lt.mp fun h => lt_asymm h (hiff.mp h))
          (not_lt.mp fun h => lt_asymm h (hiff.mpr h))
      · rw [hrank]
    · rw [if_neg h, ← not_lt]
      exact ⟨fun hiff hless => h (hiff.mpr hless).1,
        fun hnot => iff_of_false (fun h' => h h'.1) hnot⟩
  | lte =>
    obtain rfl := Option.some.inj hop
    show greaterEq a b = a.le b ↔ if Ordered a b then a.rank = b.rank else b.rank < a.rank
    have hle : a.le b = true ↔ a.rank ≤ b.rank := by
      unfold DataToken.le
      rw [Bool.or_eq_true, hlt, heq, le_iff_lt_or_eq]
    rw [Bool.eq_iff_iff, hgreaterEq, hle]
    by_cases h : Ordered a b
    · rw [if_pos h, and_iff_right h]
      refine ⟨fun hiff => ?_, fun hrank => ?_⟩
      · rcases le_total a.rank b.rank with h | h
        · exact le_antisymm h (hiff.mpr h)
        · exact le_antisymm (hiff.mp h) h
      · rw [hrank]
    · rw [if_neg h, ← not_le]
      exact ⟨fun hiff hless => h (hiff.mpr hless).1,
        fun hnot => iff_of_false (fun h' => h h'.1) hnot⟩
  | gr =>
    obtain rfl := Option.some.inj hop
    show greater a b = b.lt a ↔ Ordered a b ∨ a.rank ≤ b.rank
    rw [Bool.eq_iff_iff, hgreater, hgt, ← not_lt]
    refine ⟨fun hiff => ?_, fun h => ⟨fun h' => h'.2, fun hless => ⟨?_, hless⟩⟩⟩
    · by_cases hless : b.rank < a.rank
      · exact Or.inl (hiff.mpr hless).1
      · exact Or.inr hless
    · exact h.resolve_right (not_not.mpr hless)
  | gre =>
    obtain rfl := Option.some.inj hop
    show greaterEq a b = a.ge b ↔ Ordered a b ∨ a.rank < b.rank
    have hge : a.ge b = true ↔ b.rank ≤ a.rank := by
      unfold DataToken.ge
      rw [Bool.not_eq_true', Bool.eq_false_iff, Ne, hlt, not_lt]
    rw [Bool.eq_iff_iff, hgreaterEq, hge, ← not_le]
    refine ⟨fun hiff => ?_, fun h => ⟨fun h' => h'.2, fun hless => ⟨?_, hless⟩⟩⟩
    · by_cases hless : b.rank ≤ a.rank
      · exact Or.inl (hiff.mpr hless).1
      · exact Or.inr hless
    · exact h.resolve_right (not_not.mpr hless)
  | _ => cases hop

end

/-! ## Conditions -/

section

variable {mt : MetaTable} {row : DataRow} {op : AstOperator} {column value : SqlToken}
  {literal : SqlLiteral}

/-- A literal other than `NULL` is a value, and has a place in the order. -/
theorem isValue_of_ofSqlToken (hvalue : value.detail = .literal literal)
    (hliteral : literal ≠ .null) (h : DataToken.ofSqlToken value = .ok b) :
    IsValue b.type ∧ b.Ranked := by
  have hofLiteral : DataToken.ofLiteral value.value literal = .ok b := by
    rw [DataToken.ofSqlToken, hvalue] at h
    exact h
  refine ⟨?_, DataToken.ranked_ofLiteral hofLiteral⟩
  rw [DataToken.type_ofLiteral hofLiteral]
  cases literal with
  | integer => exact Or.inl rfl
  | real => exact Or.inr (Or.inl rfl)
  | char => exact Or.inr (Or.inr (Or.inl rfl))
  | bool => exact Or.inr (Or.inr (Or.inr (Or.inl rfl)))
  | string => exact Or.inr (Or.inr (Or.inr (Or.inr rfl)))
  | null => exact absurd rfl hliteral
  | count => cases hofLiteral

/-- **The access paths agree on a row** exactly if they compare its value and that of
the literal alike. -/
theorem evaluate_eq_matchesCondition_iff (hop : op.compare.isSome = true)
    (hcolumn : column.detail = .identifier) (hvalue : value.detail = .literal literal)
    (hliteral : literal ≠ .null) (hrow : columnToken mt row column.value = .ok a)
    (ha : a.type ≠ .null) (hranked : a.Ranked) :
    evaluate mt row (.binaryExpr op (.identifier column) (.literal value))
        = StdDbInstance.matchesCondition mt row
          (.binaryExpr op (.identifier column) (.literal value))
      ↔ ∀ b, DataToken.ofSqlToken value = .ok b → SamePaths a b op := by
  obtain ⟨compare, hcompare⟩ := Option.isSome_iff_exists.mp hop
  rw [evaluate_comparison hcolumn hvalue, StdDbInstance.matchesCondition_comparison, hrow,
    StdDbInstance.valueOfNode_of_columnToken hrow, hcompare]
  cases htoken : DataToken.ofSqlToken value with
  | error e => exact iff_of_true rfl fun b hb => nomatch hb
  | ok b =>
    obtain ⟨hb, hranked'⟩ := isValue_of_ofSqlToken hvalue hliteral htoken
    show Except.ok (evaluateTokens a b op) = Except.ok (compare a b) ↔ _
    rw [Except.ok.injEq, evaluateTokens_eq_compare_iff hb hranked hranked' ha hcompare]
    refine ⟨fun h b' hb' => ?_, fun h => h b rfl⟩
    rwa [← Except.ok.inj hb']

end

/-- The table of `CREATE TABLE t (a INTEGER)`. -/
def comparedTable : MetaTable where
  id := 1
  schemaId := 2
  name := [116]
  columns := [{ id := 3, tableId := 1, name := [97], type := .integer }]

/-- A row with the value 1. -/
def comparedRow : DataRow := { id := 1, tokens := [⟨[1, 0, 0, 0], .integer⟩] }

/-- `a` and `2`. -/
def comparedColumn : SqlToken := ⟨[97], 1, 0, .identifier⟩

def comparedValue : SqlToken := ⟨[50], 1, 5, .literal .integer⟩

/-- `a >= 2`. -/
theorem evaluate_greaterEq :
    evaluate comparedTable comparedRow
        (.binaryExpr .gre (.identifier comparedColumn) (.literal comparedValue))
      = StdDbInstance.matchesCondition comparedTable comparedRow
        (.binaryExpr .gre (.identifier comparedColumn) (.literal comparedValue)) := by
  have hrow : columnToken comparedTable comparedRow comparedColumn.value
      = .ok ⟨[1, 0, 0, 0], .integer⟩ := by
    decide +kernel
  have hvalue : comparedValue.detail = .literal .integer := rfl
  refine (evaluate_eq_matchesCondition_iff rfl rfl hvalue (fun h => nomatch h) hrow
    (fun h => nomatch h) trivial).mpr fun b hb => ?_
  have htoken : DataToken.ofSqlToken comparedValue = .ok ⟨[2, 0, 0, 0], .integer⟩ := by
    decide +kernel
  obtain rfl := Except.ok.inj (htoken.symm.trans hb)
  exact Or.inl ⟨rfl, fun h => nomatch h⟩

/-- The analyzer accepts `a < 2`, and of a row with the value 1 the filter says that
it is not less. -/
theorem not_evaluate_eq_matchesCondition : ¬ ∀ (mt : MetaTable) (row : DataRow)
    (op : AstOperator) (column value : SqlToken) (literal : SqlLiteral) (a : DataToken),
    SemanticAnalyzer.Passes (SemanticAnalyzer.analyzeWhere mt
        (.binaryExpr op (.identifier column) (.literal value))) →
      op.compare.isSome = true → column.detail = .identifier → value.detail = .literal literal →
      literal ≠ .null → columnToken mt row column.value = .ok a → a.type ≠ .null → a.WellFormed →
      evaluate mt row (.binaryExpr op (.identifier column) (.literal value))
        = StdDbInstance.matchesCondition mt row
          (.binaryExpr op (.identifier column) (.literal value)) := by
  intro h
  have hrow : columnToken comparedTable comparedRow comparedColumn.value
      = .ok ⟨[1, 0, 0, 0], .integer⟩ := by
    decide +kernel
  have hpasses : SemanticAnalyzer.Passes (SemanticAnalyzer.analyzeWhere comparedTable
      (.binaryExpr .lt (.identifier comparedColumn) (.literal comparedValue))) :=
    ⟨.valid, by decide +kernel, rfl⟩
  have hsame := h comparedTable comparedRow .lt comparedColumn comparedValue .integer _ hpasses
    rfl rfl rfl (fun h => nomatch h) hrow (fun h => nomatch h) (by decide)
  have hfilter : evaluate comparedTable comparedRow
      (.binaryExpr .lt (.identifier comparedColumn) (.literal comparedValue)) = .ok false := by
    decide +kernel
  have hscan : StdDbInstance.matchesCondition comparedTable comparedRow
      (.binaryExpr .lt (.identifier comparedColumn) (.literal comparedValue)) = .ok true := by
    decide +kernel
  exact Bool.false_ne_true (Except.ok.inj (hfilter.symm.trans (hsame.trans hscan)))

end Evaluator
