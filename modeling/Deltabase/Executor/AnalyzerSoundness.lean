import Deltabase.Executor.ColumnTypes
import Deltabase.Executor.Evaluator
import Deltabase.Sql.ParsedStatements

/-!
# What the analyzer finds out about conditions

The analyzer, the planner and the evaluator walk the same condition, each with
its own idea of what it can meet. The analyzer takes the operands of `AND` and
`OR` for expressions with an operator, and a `NOT` for something with a left side;
it throws when they are not (`Sql.ExprNode.isCondition`). What it accepts may
combine comparisons of columns with literals, in whatever order
(`MetaTable.FitsWhere`).
-/

/-! ## What the analyzer can walk -/

/-- **What the analyzer can walk**: operands of `AND` and `OR`, and what a `NOT`
between two expressions looks at, are conditions themselves. -/
def Sql.ExprNode.isCondition : Sql.ExprNode → Bool
  | .binaryExpr op left right =>
    if op = .and ∨ op = .or then left.isCondition && right.isCondition
    else if op = .not then left.isCondition
    else true
  | _ => false

namespace MetaTable

open SemanticAnalyzer

/-- A comparison of a column of the table with a literal that its type takes. -/
def Compares (mt : MetaTable) (op : AstOperator) (column value : SqlToken) : Prop :=
  ∃ (literal : SqlLiteral) (c : MetaColumn), value.detail = .literal literal
    ∧ (op = .is → literal = .null) ∧ mt.getColumn column.value = .ok c
    ∧ c.Takes Compatible literal.dataType

/-- The column may be on either side. -/
def FitsComparison (mt : MetaTable) (op : AstOperator) : Sql.ExprNode → Sql.ExprNode → Prop
  | .identifier column, .literal value => mt.Compares op column value
  | .literal value, .identifier column => mt.Compares op column value
  | _, _ => False

/-- **A condition that fits the table**: each of its comparisons is one of a column
with a literal, in whatever order. -/
def FitsWhere (mt : MetaTable) : Sql.ExprNode → Prop
  | .binaryExpr op left right =>
    if op = .and ∨ op = .or then mt.FitsWhere left ∧ mt.FitsWhere right
    else if op = .not then mt.FitsWhere left
    else op ≠ .assign ∧ mt.FitsComparison op left right
  | _ => False

/-- An assignment of a literal to a column whose type takes it. -/
def FitsAssignment (mt : MetaTable) (e : Sql.ExprNode) : Prop :=
  ∃ (column value : SqlToken) (literal : SqlLiteral) (c : MetaColumn),
    e = .binaryExpr .assign (.identifier column) (.literal value)
    ∧ value.detail = .literal literal ∧ mt.getColumn column.value = .ok c
    ∧ c.Takes Compatible literal.dataType

end MetaTable

namespace SemanticAnalyzer

open AnalysisResult StdDbInstance

variable {check next : Except Exn AnalysisResult} {mt : MetaTable}

/-- **A check comes to a verdict** and names an error when that is not valid. -/
def Judges (check : Except Exn AnalysisResult) : Prop :=
  check = .ok valid ∨ ∃ what, check = .ok (invalid what)

theorem judges_valid : Judges (.ok valid) := .inl rfl

theorem judges_invalid (what : Bytes) : Judges (.ok (invalid what)) := .inr ⟨what, rfl⟩

theorem Judges.exists_ok (h : Judges check) : ∃ analysis, check = .ok analysis := by
  rcases h with h | ⟨_, h⟩
  · exact ⟨_, h⟩
  · exact ⟨_, h⟩

/-- A check that does not pass is refused with an error. -/
theorem Judges.refused (h : Judges check) (hnot : ¬ Passes check) :
    ∃ what, check = .ok (invalid what) :=
  h.resolve_left fun hvalid => hnot ⟨valid, hvalid, rfl⟩

/-- A check that passes is valid. -/
theorem Judges.eq_valid (h : Judges check) (hpasses : Passes check) : check = .ok valid := by
  refine h.resolve_right fun ⟨what, hinvalid⟩ => ?_
  rw [hinvalid] at hpasses
  exact Bool.false_ne_true (passes_ok.mp hpasses)

theorem Judges.ite {c : Prop} [Decidable c] {x y : Except Exn AnalysisResult} (hx : Judges x)
    (hy : Judges y) : Judges (if c then x else y) := by
  split_ifs
  · exact hx
  · exact hy

/-- A loop comes to a verdict when every round does. -/
theorem judges_firstInvalid {α : Type} {check : α → Except Exn AnalysisResult} {l : List α}
    (h : ∀ a ∈ l, Judges (check a)) : Judges (firstInvalid check l) := by
  induction l with
  | nil => exact judges_valid
  | cons a l ih =>
    rw [firstInvalid]
    rcases h a List.mem_cons_self with hvalid | ⟨what, hinvalid⟩
    · rw [hvalid]
      exact ih fun b hb => h b (List.mem_cons_of_mem a hb)
    · rw [hinvalid]
      exact judges_invalid what

/-! ## Conditions -/

/-- What is found out about a comparison of a column with a literal. -/
theorem analyzeComparison_spec {op : AstOperator} {column value : SqlToken} {literal : SqlLiteral}
    (hvalue : value.detail = .literal literal) :
    Judges (analyzeComparison op mt column value)
      ∧ (Passes (analyzeComparison op mt column value) ↔ mt.Compares op column value) := by
  unfold analyzeComparison MetaTable.Compares
  simp only [hvalue]
  by_cases his : op = .is ∧ literal ≠ .null
  · rw [if_pos his]
    refine ⟨judges_invalid _, iff_of_false (fun h => Bool.false_ne_true (passes_ok.mp h)) ?_⟩
    rintro ⟨_, _, hliteral, hnull, -⟩
    cases hliteral
    exact his.2 (hnull his.1)
  · rw [if_neg his]
    have hnull : op = .is → literal = .null := fun hop => not_not.mp fun hne => his ⟨hop, hne⟩
    cases hthere : mt.hasColumn column.value with
    | false =>
      refine ⟨judges_invalid _, iff_of_false (fun h => Bool.false_ne_true (passes_ok.mp h)) ?_⟩
      rintro ⟨_, c, -, -, hget, -⟩
      exact Bool.false_ne_true (hthere.symm.trans (MetaTable.hasColumn_iff.mpr ⟨c, hget⟩))
    | true =>
      obtain ⟨c, hget⟩ := MetaTable.hasColumn_iff.mp hthere
      simp only [Bool.not_true, Bool.false_eq_true, if_false]
      constructor
      · rw [hget]
        exact Judges.ite judges_valid (judges_invalid _)
      · rw [passes_verdict fun _ => _]
        constructor
        · rintro ⟨c', hget', htakes⟩
          exact ⟨literal, c', rfl, hnull, hget', htakes⟩
        · rintro ⟨_, c', hliteral, -, hget', htakes⟩
          cases hliteral
          exact ⟨c', hget', htakes⟩

/-- What is found out about a comparison: there is a verdict, and it is valid for
a comparison of a column with a literal that fits. -/
theorem analyzeColumnComparison_spec {op : AstOperator} {left right : Sql.ExprNode}
    (hleft : left.Parsed) (hright : right.Parsed) :
    Judges (analyzeColumnComparison op mt left right)
      ∧ (Passes (analyzeColumnComparison op mt left right)
        ↔ mt.FitsComparison op left right) := by
  have hother : ∀ what, Judges (.ok (invalid what)) ∧ (Passes (.ok (invalid what)) ↔ False) :=
    fun what => ⟨judges_invalid what,
      iff_of_false (fun h => Bool.false_ne_true (passes_ok.mp h)) not_false⟩
  cases hleft with
  | identifier h =>
    cases hright with
    | literal hvalue => exact analyzeComparison_spec hvalue
    | _ => exact hother _
  | literal hvalue =>
    cases hright with
    | identifier h => exact analyzeComparison_spec hvalue
    | _ => exact hother _
  | _ => exact hother _

/-- What is known of the verdict on a condition. -/
structure WhereSpec (mt : MetaTable) (e : Sql.ExprNode) : Prop where
  judges : e.isCondition = true → Judges (analyzeWhere mt e)
  walks : ∀ analysis, analyzeWhere mt e = .ok analysis → e.isCondition = true
  passes : Passes (analyzeWhere mt e) ↔ mt.FitsWhere e

/-- The operands of `AND` and `OR` are both looked at. -/
theorem WhereSpec.junction {op : AstOperator} (hop : op = .and ∨ op = .or)
    {left right : Sql.ExprNode} (hleft : WhereSpec mt left) (hright : WhereSpec mt right) :
    WhereSpec mt (.binaryExpr op left right) := by
  have heq : analyzeWhere mt (.binaryExpr op left right) = (do
      let where₁ ← analyzeWhere mt left
      let where₂ ← analyzeWhere mt right
      if !where₁.isValid then pure where₁
      else if !where₂.isValid then pure where₂
      else pure valid) := by
    rcases hop with rfl | rfl <;> rfl
  have hcondition : (Sql.ExprNode.binaryExpr op left right).isCondition = true
      ↔ left.isCondition = true ∧ right.isCondition = true := by
    rw [Sql.ExprNode.isCondition, if_pos hop, Bool.and_eq_true]
  have hfits : mt.FitsWhere (.binaryExpr op left right)
      ↔ mt.FitsWhere left ∧ mt.FitsWhere right := by
    rw [MetaTable.FitsWhere, if_pos hop]
  refine ⟨fun h => ?_, fun analysis h => ?_, ?_⟩
  · obtain ⟨hl, hr⟩ := hcondition.mp h
    rw [heq]
    rcases hleft.judges hl with hl | ⟨what, hl⟩
    · rcases hright.judges hr with hr | ⟨what, hr⟩
      · rw [hl, hr]
        exact judges_valid
      · rw [hl, hr]
        exact judges_invalid what
    · obtain ⟨analysis, hr⟩ := (hright.judges hr).exists_ok
      rw [hl, hr]
      exact judges_invalid what
  · rw [heq] at h
    obtain ⟨where₁, hl, h⟩ := bind_eq_ok.mp h
    obtain ⟨where₂, hr, -⟩ := bind_eq_ok.mp h
    exact hcondition.mpr ⟨hleft.walks where₁ hl, hright.walks where₂ hr⟩
  · rw [heq, hfits, ← hleft.passes, ← hright.passes, passes_bind]
    constructor
    · rintro ⟨where₁, hl, h⟩
      obtain ⟨where₂, hr, h⟩ := passes_bind.mp h
      cases hv₁ : where₁.isValid with
      | false =>
        rw [hv₁] at h
        exact absurd (hv₁.symm.trans (passes_ok.mp h)) Bool.false_ne_true
      | true =>
        cases hv₂ : where₂.isValid with
        | false =>
          rw [hv₁, hv₂] at h
          exact absurd (hv₂.symm.trans (passes_ok.mp h)) Bool.false_ne_true
        | true => exact ⟨⟨where₁, hl, hv₁⟩, where₂, hr, hv₂⟩
    · rintro ⟨⟨where₁, hl, hv₁⟩, where₂, hr, hv₂⟩
      refine ⟨where₁, hl, passes_bind.mpr ⟨where₂, hr, ?_⟩⟩
      rw [hv₁, hv₂]
      exact passes_ok.mpr rfl

/-- The operator of an expression of the parser. -/
theorem operator_cases {op : AstOperator} (h : op ≠ .undefined) :
    op = .assign ∨ op.isComparison = true ∨ (op = .and ∨ op = .or) ∨ op = .not := by
  cases op <;> first | exact absurd rfl h | decide

/-- **What the analyzer finds out about a condition of the parser.** -/
theorem analyzeWhere_spec {e : Sql.ExprNode} (h : e.Parsed) : WhereSpec mt e := by
  induction h with
  | identifier | literal =>
    exact ⟨(fun h => nomatch h), (fun _ h => nomatch h),
      iff_of_false (not_passes_error _) not_false⟩
  | negation =>
    exact ⟨(fun h => nomatch h), (fun _ h => nomatch h),
      iff_of_false (not_passes_error _) not_false⟩
  | @binaryExpr op left right hop hl hr hleft hright =>
    rcases operator_cases hop with rfl | hcomparison | hjunction | rfl
    · refine ⟨fun _ => judges_invalid _, fun _ _ => rfl, iff_of_false ?_ fun h => h.1 rfl⟩
      exact fun h => Bool.false_ne_true (passes_ok.mp h)
    · have hassign : op ≠ .assign := fun h => by rw [h] at hcomparison; cases hcomparison
      have hjunction : ¬ (op = .and ∨ op = .or) := by
        rintro (rfl | rfl) <;> cases hcomparison
      have hnot : op ≠ .not := fun h => by rw [h] at hcomparison; cases hcomparison
      have heq : analyzeWhere mt (.binaryExpr op left right)
          = analyzeColumnComparison op mt left right := by
        rw [analyzeWhere, if_neg hassign, if_pos hcomparison]
      obtain ⟨hjudges, hpasses⟩ := @analyzeColumnComparison_spec mt op _ _ hl hr
      refine ⟨fun _ => heq ▸ hjudges, fun _ _ => ?_, ?_⟩
      · rw [Sql.ExprNode.isCondition, if_neg hjunction, if_neg hnot]
      · rw [heq, hpasses, MetaTable.FitsWhere, if_neg hjunction, if_neg hnot]
        exact (and_iff_right hassign).symm
    · exact hleft.junction hjunction hright
    · exact ⟨hleft.judges, hleft.walks, hleft.passes⟩

/-! ## Statements -/

/-- **What the analyzer finds out about an assignment of the parser.** -/
theorem analyzeColumnAssignment_spec {e : Sql.ExprNode} (hassignment : Sql.IsAssignment e)
    (hparsed : e.Parsed) :
    Judges (analyzeColumnAssignment mt e)
      ∧ (Passes (analyzeColumnAssignment mt e) ↔ mt.FitsAssignment e) := by
  constructor
  · obtain ⟨left, right, rfl⟩ := hassignment
    cases hparsed with
    | binaryExpr _ hleft hright =>
      cases hleft with
      | identifier =>
        cases hright with
        | @literal value literal hvalue =>
          rename_i column _
          unfold analyzeColumnAssignment
          simp only [hvalue]
          rw [if_neg (not_not.mpr rfl)]
          cases hthere : mt.hasColumn column.value with
          | false => exact judges_invalid _
          | true =>
            obtain ⟨c, hget⟩ := MetaTable.hasColumn_iff.mp hthere
            simp only [Bool.not_true, Bool.false_eq_true, if_false]
            rw [hget]
            exact Judges.ite judges_valid (judges_invalid _)
        | _ => exact judges_invalid _
      | _ => exact judges_invalid _
  · constructor
    · intro h
      obtain ⟨column, value, c, literal, heq, hget, hvalue, htakes⟩ := h.assignment
      exact ⟨column, value, literal, c, heq, hvalue, hget, htakes⟩
    · rintro ⟨column, value, literal, c, rfl, hvalue, hget, htakes⟩
      have hthere := MetaTable.hasColumn_iff.mpr ⟨c, hget⟩
      unfold analyzeColumnAssignment
      simp only [hvalue, hthere, Bool.not_true, Bool.false_eq_true, if_false]
      rw [if_neg (not_not.mpr rfl)]
      exact (passes_verdict fun _ => _).mpr ⟨c, hget, htakes⟩

/-- **The condition is looked at**: nothing else is wrong with the statement, which
is about this table. -/
def Reaches (analyzer : SemanticAnalyzer) (mt : MetaTable) : Sql.Statement → Prop
  | .select stmt => stmt.table.tableName.value ≠ [] ∧ analyzer.getTable stmt.table = some mt
    ∧ ∀ col ∈ stmt.columns, mt.hasColumn col.value = true
  | .update stmt => stmt.table.tableName.value ≠ [] ∧ stmt.assignments ≠ []
    ∧ analyzer.getTable stmt.table = some mt ∧ ∀ e ∈ stmt.assignments, mt.FitsAssignment e
  | .delete stmt => stmt.table.tableName.value ≠ [] ∧ analyzer.getTable stmt.table = some mt
  | _ => False

/-- What an analysis comes to: the verdict on the condition, or a refusal before. -/
inductive Analysis (analyzer : SemanticAnalyzer) (stmt : Sql.Statement) : Prop
  | condition {mt : MetaTable} (hreaches : analyzer.Reaches mt stmt)
      (hanalyze : analyzer.analyze stmt = analyzeCondition mt stmt.condition)
  | refused (hreaches : ∀ mt, ¬ analyzer.Reaches mt stmt) {what : Bytes}
      (hanalyze : analyzer.analyze stmt = .ok (invalid what))

/-- A check in front of the condition. -/
theorem Analysis.of_check {analyzer : SemanticAnalyzer} {stmt : Sql.Statement}
    {check : Except Exn AnalysisResult} (hjudges : Judges check)
    (hreaches : ∀ mt', analyzer.Reaches mt' stmt ↔ Passes check ∧ mt' = mt)
    (hanalyze : analyzer.analyze stmt = (check >>= fun verdict =>
      if !verdict.isValid then pure verdict else analyzeCondition mt stmt.condition)) :
    Analysis analyzer stmt := by
  by_cases hpasses : Passes check
  · refine .condition ((hreaches mt).mpr ⟨hpasses, rfl⟩) ?_
    rw [hanalyze, hjudges.eq_valid hpasses]
    rfl
  · obtain ⟨what, hinvalid⟩ := hjudges.refused hpasses
    have hrefused : analyzer.analyze stmt = .ok (invalid what) := by
      rw [hanalyze, hinvalid]
      rfl
    exact .refused (fun mt' h => hpasses ((hreaches mt').mp h).1) hrefused

theorem analysis_select (analyzer : SemanticAnalyzer) (stmt : Sql.SelectStatement) :
    Analysis analyzer (.select stmt) := by
  have hunfold : analyzer.analyze (.select stmt) = analyzer.analyzeSelect stmt := rfl
  rw [analyzeSelect] at hunfold
  cases hname : stmt.table.tableName.value with
  | nil =>
    rw [hname] at hunfold
    exact .refused (fun mt h => h.1 hname) hunfold
  | cons c name =>
    rw [hname, if_neg (by simp)] at hunfold
    cases htable : analyzer.getTable stmt.table with
    | none =>
      rw [htable] at hunfold
      exact .refused (fun mt h => Option.some_ne_none mt (h.2.1.symm.trans htable)) hunfold
    | some mt =>
      rw [htable] at hunfold
      refine .of_check (judges_firstInvalid fun col _ => ?_) (fun mt' => ?_) hunfold
      · show Judges (.ok (if _ then _ else _))
        split_ifs
        · exact judges_valid
        · exact judges_invalid _
      · rw [← analyzeColumns, passes_analyzeColumns]
        constructor
        · rintro ⟨-, hmt', hcolumns⟩
          obtain rfl := Option.some.inj (htable.symm.trans hmt')
          exact ⟨hcolumns, rfl⟩
        · rintro ⟨hcolumns, rfl⟩
          exact ⟨hname ▸ List.cons_ne_nil c name, htable, hcolumns⟩

theorem analysis_update (analyzer : SemanticAnalyzer) {stmt : Sql.UpdateStatement}
    (hassignments : ∀ e ∈ stmt.assignments, Sql.IsAssignment e ∧ e.Parsed) :
    Analysis analyzer (.update stmt) := by
  have hunfold : analyzer.analyze (.update stmt) = analyzer.analyzeUpdate stmt := rfl
  rw [analyzeUpdate] at hunfold
  cases hname : stmt.table.tableName.value with
  | nil =>
    rw [hname] at hunfold
    exact .refused (fun mt h => h.1 hname) hunfold
  | cons c name =>
    rw [hname, if_neg (by simp)] at hunfold
    by_cases hsome : stmt.assignments = []
    · rw [hsome] at hunfold
      exact .refused (fun mt h => h.2.1 hsome) hunfold
    · rw [if_neg (by simpa using hsome)] at hunfold
      cases htable : analyzer.getTable stmt.table with
      | none =>
        rw [htable] at hunfold
        exact .refused (fun mt h => Option.some_ne_none mt (h.2.2.1.symm.trans htable)) hunfold
      | some mt =>
        rw [htable] at hunfold
        have hspec := fun e he => @analyzeColumnAssignment_spec mt e (hassignments e he).1
          (hassignments e he).2
        refine .of_check (judges_firstInvalid fun e he => (hspec e he).1) (fun mt' => ?_) hunfold
        rw [passes_firstInvalid, forall₂_congr fun e he => (hspec e he).2]
        constructor
        · rintro ⟨-, -, hmt', hfits⟩
          obtain rfl := Option.some.inj (htable.symm.trans hmt')
          exact ⟨hfits, rfl⟩
        · rintro ⟨hfits, rfl⟩
          exact ⟨hname ▸ List.cons_ne_nil c name, hsome, htable, hfits⟩

theorem analysis_delete (analyzer : SemanticAnalyzer) (stmt : Sql.DeleteStatement) :
    Analysis analyzer (.delete stmt) := by
  have hunfold : analyzer.analyze (.delete stmt) = analyzer.analyzeDelete stmt := rfl
  rw [analyzeDelete] at hunfold
  cases hname : stmt.table.tableName.value with
  | nil =>
    rw [hname] at hunfold
    exact .refused (fun mt h => h.1 hname) hunfold
  | cons c name =>
    rw [hname, if_neg (by simp)] at hunfold
    cases htable : analyzer.getTable stmt.table with
    | none =>
      rw [htable] at hunfold
      exact .refused (fun mt h => Option.some_ne_none mt (h.2.symm.trans htable)) hunfold
    | some mt =>
      rw [htable] at hunfold
      exact .condition ⟨hname ▸ List.cons_ne_nil c name, htable⟩ hunfold

end SemanticAnalyzer
