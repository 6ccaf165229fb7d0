import Deltabase.Sql.ExpressionParsing

/-!
# What the parser accepts as a statement

The tokens that the parser moves over when it reads a statement, with those of
them that do not occur in the syntax tree it returns (`Reads`). Such **surplus
tokens** get in where the parser moves on without looking: behind the columns of
a `SELECT`, in the column list of an `INSERT`, and behind a statement (`Trailing`),
where the last check accepts one token more because it does not know whether the
cursor is on the last token or behind it.

The relations say where the cursor is: with `k = 0` behind the statement, with
`k > 0` in front of a right parenthesis that closes `k` left ones.
-/

namespace Sql

open SqlParser

/-! ## Tables, conditions and lists -/

/-- The next token is not one of some detail. -/
def NotNext (d : SqlTokenDetail) (after : List SqlToken) : Prop :=
  ∀ t ts, after = t :: ts → t.detail ≠ d

/-- Nothing goes on with a table: no period behind a name without a schema. -/
def TableEnds (table : TableIdentifier) (after : List SqlToken) : Prop :=
  table.schemaName = none → NotNext (.symbol .period) after

/-- **A `WHERE` that is read**, or none. -/
inductive WhereReads : Option ExprNode → ℕ → List SqlToken → List SqlToken → Prop
  | none {after : List SqlToken} (h : NotNext (.keyword .where_) after) :
      WhereReads none 0 [] after
  | some {e : ExprNode} {k : ℕ} {t : SqlToken} {w after : List SqlToken}
      (ht : t.detail = .keyword .where_) (hw : OpenRendering k 0 e w)
      (he : e.isBinaryExpr = true) (hf : Follows k 0 after) :
      WhereReads (some e) k (t :: w) after

/-- The expression is an assignment. -/
def IsAssignment (e : ExprNode) : Prop := ∃ l r, e = .binaryExpr .assign l r

/-- **The assignments of an `UPDATE`.** Only the last can end with a
parenthesis. -/
inductive AssignmentsRead : List ExprNode → ℕ → List SqlToken → List SqlToken → Prop
  | single {e : ExprNode} {k : ℕ} {w after : List SqlToken} (hw : OpenRendering k 0 e w)
      (he : IsAssignment e) (hf : Follows k 0 after) (hcomma : NotNext (.symbol .comma) after) :
      AssignmentsRead [e] k w after
  | cons {e : ExprNode} {es : List ExprNode} {k : ℕ} {c : SqlToken} {w ws after : List SqlToken}
      (hw : OpenRendering 0 0 e w) (he : IsAssignment e) (hc : c.detail = .symbol .comma)
      (hs : AssignmentsRead es k ws after) : AssignmentsRead (e :: es) k (w ++ c :: ws) after

/-- **The columns of a `SELECT`**, with the surplus tokens among them: the token
in front of `FROM` is not looked at, be it a `*` or not. -/
inductive SelectList : List SqlToken → List SqlToken → List SqlToken → Prop
  | all {x : SqlToken} (hx : x.detail = .operator .mul) : SelectList [] [] [x]
  | other {x : SqlToken} (hx : x.detail ≠ .operator .mul) (hid : ¬ IsIdentifier x) :
      SelectList [] [x] [x]
  | columns {columns cs : List SqlToken} {x : SqlToken}
      (h : Commas (Itself IsIdentifier) columns cs) (hx : x.detail ≠ .symbol .comma) :
      SelectList columns [x] (cs ++ [x])
  | comma {columns cs : List SqlToken} {c x : SqlToken}
      (h : Commas (Itself IsIdentifier) columns cs) (hc : c.detail = .symbol .comma)
      (hx : ¬ IsIdentifier x) : SelectList columns [c, x] (cs ++ [c, x])

/-- **The columns of an `INSERT`**: a token that is no identifier ends the list
without being looked at. -/
inductive InsertList : List SqlToken → List SqlToken → List SqlToken → Prop
  | all {x : SqlToken} (hx : x.detail = .operator .mul) : InsertList [] [] [x]
  | other {x : SqlToken} (hx : x.detail ≠ .operator .mul) (hid : ¬ IsIdentifier x) :
      InsertList [] [x] [x]
  | columns {columns cs : List SqlToken} (h : Commas (Itself IsIdentifier) columns cs) :
      InsertList columns [] cs
  | comma {columns cs : List SqlToken} {c x : SqlToken}
      (h : Commas (Itself IsIdentifier) columns cs) (hc : c.detail = .symbol .comma)
      (hx : ¬ IsIdentifier x) : InsertList columns [c, x] (cs ++ [c, x])

/-! ## Statements -/

/-- **A statement that is read**: its syntax tree, the number of left parentheses
that the next token closes, the surplus tokens, the tokens that the parser moves
over and those that follow. -/
inductive Reads : Statement → ℕ → List SqlToken → List SqlToken → List SqlToken → Prop
  | select {table : TableIdentifier} {columns : List SqlToken} {where_ : Option ExprNode} {k : ℕ}
      {s f : SqlToken} {surplus cw tw ww after : List SqlToken} (hs : s.detail = .keyword .select)
      (hc : SelectList columns surplus cw) (hf : f.detail = .keyword .from_)
      (ht : TableTokens table tw) (hend : TableEnds table (ww ++ after))
      (hw : WhereReads where_ k ww after) :
      Reads (.select { table, columns, where_ }) k surplus (s :: (cw ++ f :: (tw ++ ww))) after
  | insert {table : TableIdentifier} {columns values : List SqlToken}
      {i n lp rp v lp' : SqlToken} {surplus tw cw vw after : List SqlToken}
      (hi : i.detail = .keyword .insert) (hn : n.detail = .keyword .into)
      (ht : TableTokens table tw) (hlp : lp.detail = .symbol .lparen)
      (hc : InsertList columns surplus cw) (hrp : rp.detail = .symbol .rparen)
      (hv : v.detail = .keyword .values) (hlp' : lp'.detail = .symbol .lparen)
      (hw : Commas (Itself IsLiteral) values vw) (hclose : Closes after) :
      Reads (.insert { table, columns, values := [values] }) 1 surplus
        (i :: n :: (tw ++ lp :: (cw ++ rp :: v :: lp' :: vw))) after
  | update {table : TableIdentifier} {assignments : List ExprNode} {where_ : Option ExprNode}
      {k k' : ℕ} {u s : SqlToken} {tw aw ww after : List SqlToken}
      (hu : u.detail = .keyword .update) (ht : TableTokens table tw)
      (hs : s.detail = .keyword .set) (ha : AssignmentsRead assignments k aw (ww ++ after))
      (hw : WhereReads where_ k' ww after) :
      Reads (.update { table, assignments, where_ }) (k + k') [] (u :: (tw ++ s :: (aw ++ ww)))
        after
  | delete {table : TableIdentifier} {where_ : Option ExprNode} {k : ℕ} {d f : SqlToken}
      {tw ww after : List SqlToken} (hd : d.detail = .keyword .delete)
      (hf : f.detail = .keyword .from_) (ht : TableTokens table tw)
      (hend : TableEnds table (ww ++ after)) (hw : WhereReads where_ k ww after) :
      Reads (.delete { table, where_ }) k [] (d :: f :: (tw ++ ww)) after
  | createIndex {table : TableIdentifier} {name column c i o lp : SqlToken}
      {tw after : List SqlToken} (hc : c.detail = .keyword .create)
      (hi : i.detail = .keyword .index) (hname : IsIdentifier name)
      (ho : o.detail = .keyword .on_) (ht : TableTokens table tw)
      (hlp : lp.detail = .symbol .lparen) (hcolumn : IsIdentifier column)
      (hclose : Closes after) :
      Reads (.createIndex { table, indexName := name, columnName := column, isUnique := none }) 1 []
        (c :: i :: name :: o :: (tw ++ [lp, column])) after
  | createUniqueIndex {table : TableIdentifier} {name column c u i o lp : SqlToken}
      {tw after : List SqlToken} (hc : c.detail = .keyword .create)
      (hu : u.detail = .keyword .unique) (hi : i.detail = .keyword .index)
      (hname : IsIdentifier name) (ho : o.detail = .keyword .on_) (ht : TableTokens table tw)
      (hlp : lp.detail = .symbol .lparen) (hcolumn : IsIdentifier column)
      (hclose : Closes after) :
      Reads (.createIndex
          { table, indexName := name, columnName := column, isUnique := some true }) 1 []
        (c :: u :: i :: name :: o :: (tw ++ [lp, column])) after
  | dropIndex {table : TableIdentifier} {name d i o : SqlToken} {tw after : List SqlToken}
      (hd : d.detail = .keyword .drop) (hi : i.detail = .keyword .index)
      (hname : IsIdentifier name) (ho : o.detail = .keyword .on_) (ht : TableTokens table tw)
      (hend : TableEnds table after) :
      Reads (.dropIndex { table, indexName := name }) 0 [] (d :: i :: name :: o :: tw) after

/-- The final semicolon. -/
def IsSemicolon (t : SqlToken) : Prop := t.detail = .symbol .semicolon

/-- **What the last check accepts** behind a statement, with its surplus token. -/
inductive Trailing : ℕ → List SqlToken → List SqlToken → Prop
  | nothing : Trailing 0 [] []
  | semicolon {t : SqlToken} (h : IsSemicolon t) : Trailing 0 [] [t]
  | surplus {x : SqlToken} (h : ¬ IsSemicolon x) : Trailing 0 [x] [x]
  | surplusSemicolon {x t : SqlToken} (h : IsSemicolon t) : Trailing 0 [x] [x, t]
  | closed {k : ℕ} {rp : SqlToken} (hrp : rp.detail = .symbol .rparen) : Trailing (k + 1) [] [rp]
  | closedSemicolon {k : ℕ} {rp t : SqlToken} (hrp : rp.detail = .symbol .rparen)
      (h : IsSemicolon t) : Trailing (k + 1) [] [rp, t]

/-- **The parser's grammar**: a syntax tree, the number of right parentheses that
are missing, the surplus tokens and the input. -/
inductive Accepts : Statement → ℕ → List SqlToken → List SqlToken → Prop
  | intro {stmt : Statement} {k : ℕ} {inner extra w after : List SqlToken}
      (hreads : Reads stmt k inner w after) (htrailing : Trailing k extra after) :
      Accepts stmt (k - 1) (inner ++ extra) (w ++ after)

end Sql
