import Deltabase.Types.AstTree
import Deltabase.Types.SqlToken

/-!
# Statements

The syntax trees that the parser makes. An expression is an `AstNode` whose
alternatives are a token and a `BinaryExpr`; a `BinaryExpr` without a left side
is a negation. The statements keep the tokens they were made of; they are in a
namespace of their own, apart from the statements that the executors are given,
whose tokens have been converted.

The parser makes an `IDENTIFIER` of every identifier in an expression. A
`COLUMN_IDENTIFIER` is what the analyzer makes of the left side of an assignment.
-/

namespace Sql

/-- `types::AstNode`, as it occurs in an expression. -/
inductive ExprNode where
  | identifier (token : SqlToken)
  | columnIdentifier (token : SqlToken)
  | literal (token : SqlToken)
  | binaryExpr (op : AstOperator) (left right : ExprNode)
  /-- A `BinaryExpr` whose `left` is null. -/
  | prefixExpr (op : AstOperator) (right : ExprNode)
  deriving DecidableEq

/-- `type == AstNodeType::BINARY_EXPR`. -/
def ExprNode.isBinaryExpr : ExprNode → Bool
  | .binaryExpr .. => true
  | .prefixExpr .. => true
  | _ => false

/-- `types::TableIdentifier`. -/
structure TableIdentifier where
  tableName : SqlToken
  schemaName : Option SqlToken := none
  deriving DecidableEq

/-- `types::SelectStatement`; the parser sets no limit. -/
structure SelectStatement where
  table : TableIdentifier
  columns : List SqlToken
  where_ : Option ExprNode
  limit : Option ℕ := none
  deriving DecidableEq

/-- `types::InsertStatement`. -/
structure InsertStatement where
  table : TableIdentifier
  columns : List SqlToken
  values : List (List SqlToken)
  deriving DecidableEq

/-- `types::UpdateStatement`. -/
structure UpdateStatement where
  table : TableIdentifier
  assignments : List ExprNode
  where_ : Option ExprNode
  deriving DecidableEq

/-- `types::DeleteStatement`. -/
structure DeleteStatement where
  table : TableIdentifier
  where_ : Option ExprNode
  deriving DecidableEq

/-- `types::ColumnDefinition`. -/
structure ColumnDefinition where
  name : SqlToken
  type : SqlToken
  constraints : List SqlToken := []
  deriving DecidableEq

/-- `types::CreateTableStatement`. -/
structure CreateTableStatement where
  table : TableIdentifier
  columns : List ColumnDefinition := []
  deriving DecidableEq

/-- `types::AlterTableStatement`; its operations all add a column. -/
structure AlterTableStatement where
  table : TableIdentifier
  operations : List ColumnDefinition
  deriving DecidableEq

/-- `types::CreateIndexStatement`; `isUnique` is `none` when nothing has been
assigned to it. -/
structure CreateIndexStatement where
  table : TableIdentifier
  indexName : SqlToken
  columnName : SqlToken
  isUnique : Option Bool
  deriving DecidableEq

/-- `types::DropIndexStatement`. -/
structure DropIndexStatement where
  table : TableIdentifier
  indexName : SqlToken
  deriving DecidableEq

/-- `types::AstNode`, as `parse` returns it. -/
inductive Statement where
  | select (stmt : SelectStatement)
  | insert (stmt : InsertStatement)
  | update (stmt : UpdateStatement)
  | delete (stmt : DeleteStatement)
  | createTable (stmt : CreateTableStatement)
  | createDatabase (name : SqlToken)
  | createSchema (name : SqlToken)
  | createIndex (stmt : CreateIndexStatement)
  | dropIndex (stmt : DropIndexStatement)
  | alterTable (stmt : AlterTableStatement)
  deriving DecidableEq

end Sql
