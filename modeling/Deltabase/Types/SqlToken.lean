import Deltabase.Lib.Codec

/-!
# Tokens

What the lexer makes of a query and the parser reads. In the source a token has
a type and, apart from it, a detail that says which keyword, operator, symbol or
kind of literal it is. The lexer, which is where tokens come from, only makes
tokens whose detail is one of their type, so here the detail comes first and the
type is the type of the detail.
-/

/-- `types::SqlTokenType`. -/
inductive SqlTokenType where
  | unknown
  | keyword
  | identifier
  | literal
  | operator
  | symbol
  deriving DecidableEq

/-- `types::SqlKeyword`. -/
inductive SqlKeyword where
  | unknown
  | select
  | from_
  | insert
  | into
  | values
  | update
  | set
  | delete
  | where_
  | create
  | drop
  | database
  | table
  | string
  | integer
  | real
  | char
  | bool
  | null
  | primary
  | key
  | not
  | autoincrement
  | unique
  | schema
  | index
  | on_
  | is
  | alter
  | add
  | column
  deriving DecidableEq

/-- `types::SqlSymbol`. -/
inductive SqlSymbol where
  | unknown
  | lparen
  | rparen
  | comma
  | period
  | semicolon
  deriving DecidableEq

/-- `types::SqlOperator`. -/
inductive SqlOperator where
  | eq
  | neq
  | gr
  | gre
  | lt
  | lte
  | is
  | and
  | or
  | not
  | plus
  | minus
  | mul
  | div
  | assign
  deriving DecidableEq

/-- `types::SqlLiteral`. -/
inductive SqlLiteral where
  | integer
  | string
  | bool
  | char
  | real
  | null
  | count
  deriving DecidableEq

/-- `types::SqlTokenDetail`; the first two stand for `std::monostate`, in a token
of no type and in an identifier. -/
inductive SqlTokenDetail where
  | unknown
  | identifier
  | keyword (k : SqlKeyword)
  | operator (o : SqlOperator)
  | symbol (s : SqlSymbol)
  | literal (l : SqlLiteral)
  deriving DecidableEq

/-- `types::SqlToken`. -/
structure SqlToken where
  value : Bytes
  line : ℕ
  pos : ℕ
  detail : SqlTokenDetail
  deriving DecidableEq

namespace SqlToken

/-- `type`. -/
def type (t : SqlToken) : SqlTokenType :=
  match t.detail with
  | .unknown => .unknown
  | .identifier => .identifier
  | .keyword _ => .keyword
  | .operator _ => .operator
  | .symbol _ => .symbol
  | .literal _ => .literal

/-- `get_detail<SqlKeyword>` of a keyword. -/
def keyword? (t : SqlToken) : Option SqlKeyword :=
  match t.detail with
  | .keyword k => some k
  | _ => none

/-- `is_data_type`: the keyword is one of `data_types_map`. -/
def isDataType (t : SqlToken) : Bool :=
  match t.keyword? with
  | some k => [.string, .integer, .real, .char, .bool, .null].contains k
  | none => false

/-- `is_constraint`. -/
def isConstraint (t : SqlToken) : Bool :=
  match t.keyword? with
  | some k => k == .primary || k == .unique || k == .not || k == .null || k == .autoincrement
  | none => false

/-- The literal that the parser makes of the keyword `NULL`. -/
def asNull (t : SqlToken) : SqlToken := { t with detail := .literal .null }

theorem type_eq_identifier {t : SqlToken} : t.type = .identifier ↔ t.detail = .identifier := by
  unfold type
  cases t.detail <;> simp

theorem type_eq_literal {t : SqlToken} : t.type = .literal ↔ ∃ l, t.detail = .literal l := by
  unfold type
  cases t.detail <;> simp

end SqlToken
