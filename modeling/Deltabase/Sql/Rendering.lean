import Deltabase.Sql.SqlParser

/-!
# Renderings

A **rendering** of a statement is a list of tokens that spells it: its keywords,
its table, which may be qualified with a schema, its lists with commas between
their members, and its expressions. A syntax tree has many renderings: the
spelling and the place of a keyword do not occur in it, `!=` may be spelt `IS NOT`,
and parentheses may stand around any expression (`Rendering`). What stands
without parentheses is grouped by the priorities of the operators, to the left.

The parser does not read every rendering, and what it reads need not be one. An
expression that it has read is an **open rendering** of which some parentheses
are still open at the end (`OpenRendering`); none are when there are no
parentheses at all.

The renderings of statements take those of expressions as a parameter.
-/

namespace Sql

open SqlParser

/-! ## Expressions -/

/-- **The token of an operand.** -/
inductive Operand : ExprNode → SqlToken → Prop
  | identifier {t : SqlToken} (h : t.detail = .identifier) : Operand (.identifier t) t
  | literal {t : SqlToken} {l : SqlLiteral} (h : t.detail = .literal l) : Operand (.literal t) t
  | null {t : SqlToken} (h : t.detail = .keyword .null) : Operand (.literal t.asNull) t

/-- **The tokens of an operator**: the operator whose priority they have, and the
one that they stand for. -/
inductive OperatorTokens : AstOperator → AstOperator → List SqlToken → Prop
  | single {op : AstOperator} {t : SqlToken} (h : operatorOf t = some op) :
      OperatorTokens op op [t]
  | isNot {t n : SqlToken} (h : operatorOf t = some .is) (hnot : n.detail = .keyword .not) :
      OperatorTokens .is .neq [t, n]

/-- A priority above that of every operator. -/
def operandPriority : ℕ := 5

/-- **A rendering of an expression** whose operators outside of parentheses have a
priority of at least `p`. -/
inductive Rendering : ℕ → ExprNode → List SqlToken → Prop
  | operand {p : ℕ} {e : ExprNode} {t : SqlToken} (h : Operand e t) : Rendering p e [t]
  | paren {p : ℕ} {e : ExprNode} {lp rp : SqlToken} {w : List SqlToken}
      (hlp : lp.detail = .symbol .lparen) (hrp : rp.detail = .symbol .rparen)
      (h : Rendering 0 e w) : Rendering p e (lp :: (w ++ [rp]))
  | negation {p : ℕ} {e : ExprNode} {n : SqlToken} {w : List SqlToken}
      (hn : n.detail = .operator .not) (h : Rendering operandPriority e w) :
      Rendering p (.prefixExpr .not e) (n :: w)
  | binary {p : ℕ} {op op' : AstOperator} {l r : ExprNode} {wl o wr : List SqlToken}
      (ho : OperatorTokens op op' o) (hp : p ≤ priority op)
      (hl : Rendering (priority op) l wl) (hr : Rendering (priority op + 1) r wr) :
      Rendering p (.binaryExpr op' l r) (wl ++ (o ++ wr))

/-- **An open rendering**: `k` parentheses are open at its end, and no other
parentheses occur in it. -/
inductive OpenRendering : ℕ → ℕ → ExprNode → List SqlToken → Prop
  | operand {p : ℕ} {e : ExprNode} {t : SqlToken} (h : Operand e t) : OpenRendering 0 p e [t]
  | paren {k p : ℕ} {e : ExprNode} {lp : SqlToken} {w : List SqlToken}
      (hlp : lp.detail = .symbol .lparen) (he : e.isBinaryExpr = true)
      (h : OpenRendering k 0 e w) : OpenRendering (k + 1) p e (lp :: w)
  | negation {k p : ℕ} {e : ExprNode} {n : SqlToken} {w : List SqlToken}
      (hn : n.detail = .operator .not) (h : OpenRendering k operandPriority e w) :
      OpenRendering k p (.prefixExpr .not e) (n :: w)
  | binary {k p : ℕ} {op op' : AstOperator} {l r : ExprNode} {wl o wr : List SqlToken}
      (ho : OperatorTokens op op' o) (hp : p ≤ priority op)
      (hl : OpenRendering 0 (priority op) l wl) (hr : OpenRendering k (priority op + 1) r wr) :
      OpenRendering k p (.binaryExpr op' l r) (wl ++ (o ++ wr))

theorem priority_lt (op : AstOperator) : priority op < operandPriority := by
  cases op <;> decide

theorem operatorOf_operand {e : ExprNode} {t : SqlToken} (h : Operand e t) :
    operatorOf t = none := by
  unfold operatorOf
  cases h with
  | identifier h => rw [h]
  | literal h => rw [h]
  | null h => rw [h]

theorem OperatorTokens.head {op op' : AstOperator} {o : List SqlToken}
    (h : OperatorTokens op op' o) : ∃ t o', o = t :: o' ∧ operatorOf t = some op := by
  cases h with
  | single h => exact ⟨_, [], rfl, h⟩
  | isNot h hnot => exact ⟨_, _, rfl, h⟩

namespace OpenRendering

variable {k p : ℕ} {e : ExprNode} {w : List SqlToken}

theorem ne_nil (h : OpenRendering k p e w) : w ≠ [] := by
  induction h with
  | operand _ => exact List.cons_ne_nil _ _
  | paren _ _ _ _ => exact List.cons_ne_nil _ _
  | negation _ _ _ => exact List.cons_ne_nil _ _
  | binary _ _ _ _ ihl _ => exact fun hnil => ihl (List.append_eq_nil_iff.mp hnil).1

/-- Fewer operators may stand outside of parentheses when their priorities have
to be higher. -/
theorem mono {p' : ℕ} (hp : p' ≤ p) (h : OpenRendering k p e w) : OpenRendering k p' e w := by
  cases h with
  | operand h => exact .operand h
  | paren hlp he h => exact .paren hlp he h
  | negation hn h => exact .negation hn h
  | binary ho hpo hl hr => exact .binary ho (hp.trans hpo) hl hr

/-- Only an operand has a rendering of one token. -/
theorem operand_of_single {t : SqlToken} (h : OpenRendering k p e [t]) : Operand e t := by
  generalize hw : [t] = w at h
  cases h with
  | operand h =>
    obtain rfl := (List.cons.inj hw).1
    exact h
  | paren _ _ h => exact absurd (List.cons.inj hw).2.symm h.ne_nil
  | negation _ h => exact absurd (List.cons.inj hw).2.symm h.ne_nil
  | binary ho _ hl hr =>
    obtain ⟨x, wl', rfl⟩ := List.exists_cons_of_ne_nil hl.ne_nil
    have hnil := (List.cons.inj hw).2.symm
    obtain ⟨-, hor⟩ := List.append_eq_nil_iff.mp hnil
    exact absurd (List.append_eq_nil_iff.mp hor).2 hr.ne_nil

/-- **An open rendering ends with an operand.** -/
theorem last (h : OpenRendering k p e w) : ∃ w' t e', w = w' ++ [t] ∧ Operand e' t := by
  induction h with
  | operand h => exact ⟨[], _, _, rfl, h⟩
  | paren _ _ _ ih =>
    obtain ⟨w', t, e', rfl, ht⟩ := ih
    exact ⟨_ :: w', t, e', rfl, ht⟩
  | negation _ _ ih =>
    obtain ⟨w', t, e', rfl, ht⟩ := ih
    exact ⟨_ :: w', t, e', rfl, ht⟩
  | @binary k p op op' l r wl o wr _ _ _ _ _ ihr =>
    obtain ⟨w', t, e', rfl, ht⟩ := ihr
    refine ⟨wl ++ (o ++ w'), t, e', ?_, ht⟩
    rw [List.append_assoc, List.append_assoc]

/-- **Without open parentheses it is a rendering.** -/
theorem rendering (h : OpenRendering 0 p e w) : Rendering p e w := by
  generalize hk : 0 = k at h
  induction h with
  | operand h => exact .operand h
  | paren _ _ _ _ => cases hk
  | negation hn _ ih => exact .negation hn (ih hk)
  | binary ho hp _ _ ihl ihr => exact .binary ho hp (ihl rfl) (ihr hk)

/-- **With one open parenthesis it is a rendering when the parenthesis is
closed.** -/
theorem rendering_close {rp : SqlToken} (hrp : rp.detail = .symbol .rparen)
    (h : OpenRendering 1 p e w) : Rendering p e (w ++ [rp]) := by
  generalize hk : 1 = k at h
  induction h with
  | operand _ => cases hk
  | paren hlp _ h _ =>
    obtain rfl := Nat.succ.inj hk
    exact .paren hlp hrp h.rendering
  | negation hn _ ih => exact .negation hn (ih hk)
  | binary ho hp hl _ _ ihr =>
    rw [List.append_assoc, List.append_assoc]
    exact .binary ho hp hl.rendering (ihr hk)

end OpenRendering

/-! ## Lists, tables and conditions -/

/-- **Members with commas between them**, at least one. -/
inductive Commas {α : Type} (X : α → List SqlToken → Prop) : List α → List SqlToken → Prop
  | single {a : α} {w : List SqlToken} (h : X a w) : Commas X [a] w
  | cons {a : α} {as : List α} {w ws : List SqlToken} {c : SqlToken} (h : X a w)
      (hc : c.detail = .symbol .comma) (hs : Commas X as ws) : Commas X (a :: as) (w ++ c :: ws)

/-- A token that stands for itself. -/
inductive Itself (P : SqlToken → Prop) : SqlToken → List SqlToken → Prop
  | intro {t : SqlToken} (h : P t) : Itself P t [t]

/-- An identifier. -/
def IsIdentifier (t : SqlToken) : Prop := t.detail = .identifier

/-- A literal. -/
def IsLiteral (t : SqlToken) : Prop := ∃ l, t.detail = .literal l

/-- **The tokens of a table.** -/
inductive TableTokens : TableIdentifier → List SqlToken → Prop
  | plain {t : SqlToken} (h : IsIdentifier t) : TableTokens { tableName := t } [t]
  | qualified {s d t : SqlToken} (hs : IsIdentifier s) (hd : d.detail = .symbol .period)
      (h : IsIdentifier t) : TableTokens { tableName := t, schemaName := some s } [s, d, t]

/-- The tokens of an optional `WHERE`. -/
inductive WhereTokens (X : ExprNode → List SqlToken → Prop) :
    Option ExprNode → List SqlToken → Prop
  | none : WhereTokens X none []
  | some {e : ExprNode} {t : SqlToken} {w : List SqlToken} (ht : t.detail = .keyword .where_)
      (h : X e w) : WhereTokens X (some e) (t :: w)

/-- The tokens of the columns of a `SELECT` or an `INSERT`: a `*` when there are
none. -/
inductive ColumnTokens : List SqlToken → List SqlToken → Prop
  | all {t : SqlToken} (h : t.detail = .operator .mul) : ColumnTokens [] [t]
  | listed {columns w : List SqlToken} (h : Commas (Itself IsIdentifier) columns w) :
      ColumnTokens columns w

/-! ## Statements -/

/-- **A rendering of a statement**, with the renderings `X` of the expressions. -/
inductive Renders (X : ExprNode → List SqlToken → Prop) : Statement → List SqlToken → Prop
  | select {table : TableIdentifier} {columns : List SqlToken} {where_ : Option ExprNode}
      {s f : SqlToken} {cw tw ww : List SqlToken} (hs : s.detail = .keyword .select)
      (hc : ColumnTokens columns cw) (hf : f.detail = .keyword .from_) (ht : TableTokens table tw)
      (hw : WhereTokens X where_ ww) :
      Renders X (.select { table, columns, where_ }) (s :: (cw ++ f :: (tw ++ ww)))
  | insert {table : TableIdentifier} {columns values : List SqlToken}
      {i n lp rp v lp' rp' : SqlToken} {tw cw vw : List SqlToken}
      (hi : i.detail = .keyword .insert) (hn : n.detail = .keyword .into)
      (ht : TableTokens table tw) (hlp : lp.detail = .symbol .lparen)
      (hc : ColumnTokens columns cw) (hrp : rp.detail = .symbol .rparen)
      (hv : v.detail = .keyword .values) (hlp' : lp'.detail = .symbol .lparen)
      (hw : Commas (Itself IsLiteral) values vw) (hrp' : rp'.detail = .symbol .rparen) :
      Renders X (.insert { table, columns, values := [values] })
        (i :: n :: (tw ++ lp :: (cw ++ rp :: v :: lp' :: (vw ++ [rp']))))
  | update {table : TableIdentifier} {assignments : List ExprNode} {where_ : Option ExprNode}
      {u s : SqlToken} {tw aw ww : List SqlToken} (hu : u.detail = .keyword .update)
      (ht : TableTokens table tw) (hs : s.detail = .keyword .set) (ha : Commas X assignments aw)
      (hw : WhereTokens X where_ ww) :
      Renders X (.update { table, assignments, where_ }) (u :: (tw ++ s :: (aw ++ ww)))
  | delete {table : TableIdentifier} {where_ : Option ExprNode} {d f : SqlToken}
      {tw ww : List SqlToken} (hd : d.detail = .keyword .delete)
      (hf : f.detail = .keyword .from_) (ht : TableTokens table tw)
      (hw : WhereTokens X where_ ww) :
      Renders X (.delete { table, where_ }) (d :: f :: (tw ++ ww))
  | createIndex {table : TableIdentifier} {name column c i o lp rp : SqlToken}
      {tw : List SqlToken} (hc : c.detail = .keyword .create) (hi : i.detail = .keyword .index)
      (hname : IsIdentifier name) (ho : o.detail = .keyword .on_) (ht : TableTokens table tw)
      (hlp : lp.detail = .symbol .lparen) (hcolumn : IsIdentifier column)
      (hrp : rp.detail = .symbol .rparen) :
      Renders X (.createIndex { table, indexName := name, columnName := column, isUnique := none })
        (c :: i :: name :: o :: (tw ++ [lp, column, rp]))
  | createUniqueIndex {table : TableIdentifier} {name column c u i o lp rp : SqlToken}
      {tw : List SqlToken} (hc : c.detail = .keyword .create) (hu : u.detail = .keyword .unique)
      (hi : i.detail = .keyword .index) (hname : IsIdentifier name)
      (ho : o.detail = .keyword .on_) (ht : TableTokens table tw)
      (hlp : lp.detail = .symbol .lparen) (hcolumn : IsIdentifier column)
      (hrp : rp.detail = .symbol .rparen) :
      Renders X (.createIndex
          { table, indexName := name, columnName := column, isUnique := some true })
        (c :: u :: i :: name :: o :: (tw ++ [lp, column, rp]))
  | dropIndex {table : TableIdentifier} {name d i o : SqlToken} {tw : List SqlToken}
      (hd : d.detail = .keyword .drop) (hi : i.detail = .keyword .index)
      (hname : IsIdentifier name) (ho : o.detail = .keyword .on_) (ht : TableTokens table tw) :
      Renders X (.dropIndex { table, indexName := name }) (d :: i :: name :: o :: tw)

end Sql
