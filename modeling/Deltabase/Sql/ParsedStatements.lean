import Deltabase.Sql.ParserSoundness

/-!
# What parsed statements look like

The trees of the parser are less varied than the type of trees. A leaf is what its
node says it is, an operator is a known one, and the only operator without a left
side is `NOT`. A condition is an expression with an operator, and an assignment
assigns. The stages behind the parser rely on some of this without looking.
-/

namespace Sql

open SqlParser

/-- **An expression of the parser.** -/
inductive ExprNode.Parsed : ExprNode → Prop
  | identifier {token : SqlToken} (h : token.detail = .identifier) : Parsed (.identifier token)
  | literal {token : SqlToken} {literal : SqlLiteral} (h : token.detail = .literal literal) :
      Parsed (.literal token)
  | binaryExpr {op : AstOperator} {left right : ExprNode} (hop : op ≠ .undefined)
      (hleft : left.Parsed) (hright : right.Parsed) : Parsed (.binaryExpr op left right)
  | negation {right : ExprNode} (hright : right.Parsed) : Parsed (.prefixExpr .not right)

/-- An operand is a leaf. -/
theorem Operand.parsed {e : ExprNode} {t : SqlToken} (h : Operand e t) : e.Parsed := by
  cases h with
  | identifier h => exact .identifier h
  | literal h => exact .literal h
  | null h => exact .literal rfl

/-- A token that is an operator is a known one. -/
theorem operatorOf_ne_undefined {t : SqlToken} {op : AstOperator} (h : operatorOf t = some op) :
    op ≠ .undefined := by
  rintro rfl
  unfold operatorOf at h
  split at h
  · rename_i o _
    cases o <;> cases h
  · cases h
  · cases h

theorem OperatorTokens.ne_undefined {op op' : AstOperator} {o : List SqlToken}
    (h : OperatorTokens op op' o) : op' ≠ .undefined := by
  cases h with
  | single h => exact operatorOf_ne_undefined h
  | isNot => exact fun h => nomatch h

/-- What the parser reads as an expression is one. -/
theorem OpenRendering.parsed {k p : ℕ} {e : ExprNode} {w : List SqlToken}
    (h : OpenRendering k p e w) : e.Parsed := by
  induction h with
  | operand h => exact h.parsed
  | paren _ _ _ ih => exact ih
  | negation _ _ ih => exact .negation ih
  | binary ho _ _ _ ihl ihr => exact .binaryExpr ho.ne_undefined ihl ihr

/-! ## Statements -/

/-- The `WHERE` of a statement. -/
def Statement.condition : Statement → Option ExprNode
  | .select stmt => stmt.where_
  | .update stmt => stmt.where_
  | .delete stmt => stmt.where_
  | _ => none

theorem WhereReads.parsed {e : ExprNode} {k : ℕ} {w after : List SqlToken}
    (h : WhereReads (Option.some e) k w after) : e.Parsed ∧ e.isBinaryExpr = true := by
  cases h with
  | some _ hw he _ => exact ⟨hw.parsed, he⟩

theorem AssignmentsRead.parsed {es : List ExprNode} {k : ℕ} {w after : List SqlToken}
    (h : AssignmentsRead es k w after) : ∀ e ∈ es, IsAssignment e ∧ e.Parsed := by
  induction h with
  | single hw he => exact fun e h => List.mem_singleton.mp h ▸ ⟨he, hw.parsed⟩
  | cons hw he _ _ ih => exact List.forall_mem_cons.mpr ⟨⟨he, hw.parsed⟩, ih⟩

variable {fuel : ℕ} {ts : List SqlToken}

/-- What has been read of a statement that the parser returns. -/
theorem exists_reads_of_run {stmt : Statement} (hcovered : Covered stmt)
    (h : SqlParser.run fuel ts = .ok stmt) : ∃ k surplus w after, Reads stmt k surplus w after := by
  obtain ⟨_, _, haccepts⟩ := accepts_of_run hcovered h
  cases haccepts with
  | intro hreads => exact ⟨_, _, _, _, hreads⟩

/-- **A condition that the parser returns.** -/
theorem parsed_of_condition {stmt : Statement} (h : SqlParser.run fuel ts = .ok stmt)
    {e : ExprNode} (he : stmt.condition = some e) : e.Parsed ∧ e.isBinaryExpr = true := by
  have hcovered : Covered stmt := by
    cases stmt with
    | select stmt => exact .select stmt
    | update stmt => exact .update stmt
    | delete stmt => exact .delete stmt
    | _ => cases he
  obtain ⟨_, _, _, _, hreads⟩ := exists_reads_of_run hcovered h
  cases hreads with
  | select _ _ _ _ _ hw | update _ _ _ _ hw | delete _ _ _ _ hw =>
    cases he
    exact hw.parsed
  | _ => cases he

/-- **The assignments that the parser returns.** -/
theorem parsed_of_assignments {stmt : UpdateStatement}
    (h : SqlParser.run fuel ts = .ok (.update stmt)) :
    ∀ e ∈ stmt.assignments, IsAssignment e ∧ e.Parsed := by
  obtain ⟨_, _, _, _, hreads⟩ := exists_reads_of_run (.update stmt) h
  cases hreads with
  | update _ _ _ ha _ => exact ha.parsed

end Sql
