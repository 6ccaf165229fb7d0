import Deltabase.Types.SqlLiteral
import Deltabase.Types.SqlStatement

/-!
# Evaluating a condition

`exq::Evaluator`, which a filter asks whether a row satisfies its condition. It
has comparisons of its own beside those of `DataToken`: tokens of different
types are never in order, `NULL` equals `NULL` only, and the functions behind
`<` and `<=` compare with `>` and `>=`. A condition is evaluated as it was parsed: the
data tokens of its literals are made for each row.
-/

namespace Evaluator

/-- `std::get<SqlToken>(node->value)`. -/
def sqlToken : Sql.ExprNode → Except Exn SqlToken
  | .identifier token => .ok token
  | .columnIdentifier token => .ok token
  | .literal token => .ok token
  | _ => .error .badVariantAccess

/-- The token of the column an identifier names. -/
def columnToken (table : MetaTable) (row : DataRow) (name : Bytes) : Except Exn DataToken :=
  match table.getColumnIdxByName name with
  | none => .error .outOfRange
  | some colIdx =>
    match row.tokens[colIdx]? with
    | some token => .ok token
    | none => .error .outOfRange

/-- `eq`. -/
def eq (left right : DataToken) : Bool :=
  if left.type = .null ∨ right.type = .null then decide (left.type = right.type)
  else if left.type ≠ right.type then false
  else match left.type with
    | .integer => decide (asInt left.bytes = asInt right.bytes)
    | .real => doubleEq (asDoubleBits left.bytes) (asDoubleBits right.bytes)
    | .string => decide (left.bytes = right.bytes)
    | .bool => asBool left.bytes == asBool right.bytes
    | .char => decide (asChar left.bytes = asChar right.bytes)
    | _ => false

/-- `left > right` at the C++ type of the tokens. -/
def greater (left right : DataToken) : Bool :=
  if left.type ≠ right.type then false
  else match left.type with
    | .integer => decide (asInt left.bytes > asInt right.bytes)
    | .real => doubleLt (asDoubleBits right.bytes) (asDoubleBits left.bytes)
    | .string => bytesLt right.bytes left.bytes
    | .char => decide (asChar left.bytes > asChar right.bytes)
    | _ => false

/-- `left >= right` at the C++ type of the tokens. -/
def greaterEq (left right : DataToken) : Bool :=
  if left.type ≠ right.type then false
  else match left.type with
    | .integer => decide (asInt left.bytes ≥ asInt right.bytes)
    | .real => doubleLt (asDoubleBits right.bytes) (asDoubleBits left.bytes)
        || doubleEq (asDoubleBits left.bytes) (asDoubleBits right.bytes)
    | .string => !bytesLt left.bytes right.bytes
    | .char => decide (asChar left.bytes ≥ asChar right.bytes)
    | _ => false

/-- `lt`, whose overloads compare with `>`. -/
def lt (left right : DataToken) : Bool := greater left right

/-- `lte`, whose overloads compare with `>=`. -/
def lte (left right : DataToken) : Bool := greaterEq left right

/-- `gr`. -/
def gr (left right : DataToken) : Bool := greater left right

/-- `gre`. -/
def gre (left right : DataToken) : Bool := greaterEq left right

/-- `evaluate(left, right, op)`. -/
def evaluateTokens (left right : DataToken) : AstOperator → Bool
  | .eq => eq left right
  | .neq => !eq left right
  | .lt => lt left right
  | .lte => lte left right
  | .gr => gr left right
  | .gre => gre left right
  | .is => eq left right
  | _ => false

/-- `evaluate(table, row, expr)`, which makes the data tokens of the literals. -/
def evaluate (table : MetaTable) (row : DataRow) : Sql.ExprNode → Except Exn Bool
  | .binaryExpr op left right => do
    let left ← sqlToken left
    let right ← sqlToken right
    if left.type = .identifier ∧ right.type = .literal then do
      let leftValue ← columnToken table row left.value
      let rightLiteral ← DataToken.ofSqlToken right
      pure (evaluateTokens leftValue rightLiteral op)
    else if left.type = .identifier ∧ right.type = .identifier then do
      let leftValue ← columnToken table row left.value
      let rightValue ← columnToken table row right.value
      pure (evaluateTokens leftValue rightValue op)
    else if left.type = .literal ∧ right.type = .literal then do
      let leftLiteral ← DataToken.ofSqlToken left
      let rightLiteral ← DataToken.ofSqlToken right
      pure (evaluateTokens leftLiteral rightLiteral op)
    else .error (.runtimeError "Evaluator::evaluate: Invalid comparison")
  | .prefixExpr .. => .error .nullDereference
  | _ => .error .badVariantAccess

variable {table : MetaTable} {row : DataRow}

/-- **A comparison of a column with a literal.** -/
theorem evaluate_comparison {op : AstOperator} {column value : SqlToken} {literal : SqlLiteral}
    (hcolumn : column.detail = .identifier) (hvalue : value.detail = .literal literal) :
    evaluate table row (.binaryExpr op (.identifier column) (.literal value)) = (do
      let leftValue ← columnToken table row column.value
      let rightLiteral ← DataToken.ofSqlToken value
      pure (evaluateTokens leftValue rightLiteral op)) := by
  have hcolumn := SqlToken.type_eq_identifier.mpr hcolumn
  have hvalue := SqlToken.type_eq_literal.mpr ⟨_, hvalue⟩
  show (if column.type = .identifier ∧ value.type = .literal then _ else _) = _
  rw [if_pos ⟨hcolumn, hvalue⟩]

/-- An expression with an operator is no token. -/
theorem sqlToken_ne_ok {e : Sql.ExprNode} (h : e.isBinaryExpr = true) (token : SqlToken) :
    sqlToken e ≠ .ok token := by
  cases e with
  | identifier | columnIdentifier | literal => cases h
  | binaryExpr | prefixExpr => exact fun htoken => nomatch htoken

/-- Only tokens are compared. -/
theorem evaluate_ne_ok {op : AstOperator} {left right : Sql.ExprNode}
    (h : left.isBinaryExpr = true ∨ right.isBinaryExpr = true) (verdict : Bool) :
    evaluate table row (.binaryExpr op left right) ≠ .ok verdict := by
  intro heval
  obtain ⟨_, hleft, heval⟩ := bind_eq_ok.mp heval
  obtain ⟨_, hright, -⟩ := bind_eq_ok.mp heval
  rcases h with h | h
  · exact sqlToken_ne_ok h _ hleft
  · exact sqlToken_ne_ok h _ hright

/-- A literal is not compared with a column. -/
theorem evaluate_swapped_ne_ok {op : AstOperator} {column value : SqlToken}
    {literal : SqlLiteral} (hcolumn : column.detail = .identifier)
    (hvalue : value.detail = .literal literal) (verdict : Bool) :
    evaluate table row (.binaryExpr op (.literal value) (.identifier column))
      ≠ .ok verdict := by
  have hcolumn := SqlToken.type_eq_identifier.mpr hcolumn
  have hvalue := SqlToken.type_eq_literal.mpr ⟨_, hvalue⟩
  show (if value.type = .identifier ∧ column.type = .literal then _
    else if value.type = .identifier ∧ column.type = .identifier then _
    else if value.type = .literal ∧ column.type = .literal then _ else _) ≠ _
  rw [hcolumn, hvalue]
  exact fun h => nomatch h

end Evaluator
