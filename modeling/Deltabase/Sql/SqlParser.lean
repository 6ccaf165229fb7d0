import Deltabase.Lib.Stateful
import Deltabase.Types.SqlStatement

/-!
# The parser

`sql::SqlParser` is a recursive descent over a vector of tokens with a cursor.
`advance` moves the cursor, but not behind the last token: there it stays on the
token that has just been read, and only its result says so. The parser is
modelled with the tokens before the cursor and those from the cursor on, so
`current_ + 1 < tokens_.size()` says that the latter are two at least.

The functions that call themselves, and the loops, have a fuel. A parser that has
run out of fuel has not come to an end; one that throws has.
-/

namespace Sql

/-! ## Errors -/

/-- The exceptions that the parser throws. -/
inductive ParseError where
  | invalidStatementSyntax (message : String)
  | runtimeError (message : String)
  /-- `runtime_error` with the message that names a token. -/
  | unexpectedToken (token : SqlToken)
  deriving DecidableEq

/-- Why a run of the parser has no result. -/
inductive ParseStop where
  | threw (e : ParseError)
  /-- A token behind the end has been read through a null pointer. -/
  | nullPointer
  | outOfFuel
  deriving DecidableEq

/-- `sql::SqlParser`. -/
structure SqlParser where
  /-- The tokens before `current_`, the last of them first. -/
  passed : List SqlToken := []
  /-- The tokens from `current_` on. -/
  rest : List SqlToken
  deriving DecidableEq

/-- A method of the parser. -/
abbrev Parse (α : Type) := EStateM ParseStop SqlParser α

namespace SqlParser

/-- `InvalidStatementSyntax` without a message of its own. -/
def invalidStatementSyntax : ParseStop :=
  .threw (.invalidStatementSyntax "Invalid statement syntax")

/-! ## The cursor -/

/-- `advance`. -/
def advance : Parse Bool := fun s =>
  match s.rest with
  | t :: t' :: ts => .ok true { passed := t :: s.passed, rest := t' :: ts }
  | _ => .ok false s

/-- `advance_or_throw`. -/
def advanceOrThrow (message : String := "Invalid statement syntax") : Parse Unit := do
  if ← advance then pure () else throw (.threw (.runtimeError message))

/-- `current_--`, which is never done at the first token. -/
def stepBack : Parse Unit := fun s =>
  match s.passed with
  | t :: ts => .ok () { passed := ts, rest := t :: s.rest }
  | [] => .ok () s

/-- `*current()`. -/
def current : Parse SqlToken := fun s =>
  match s.rest with
  | t :: _ => .ok t s
  | [] => .error .nullPointer s

/-- The token at the cursor has a property; there may be no token. -/
def isAt (p : SqlToken → Bool) : Parse Bool := fun s => .ok (s.rest.head?.any p) s

/-- `match` of a keyword, an operator or a symbol. -/
def matches_ (expected : SqlTokenDetail) : Parse Bool := isAt fun t => t.detail == expected

/-- `match` of a type. -/
def matchesType (expected : SqlTokenType) : Parse Bool := isAt fun t => t.type == expected

/-- `match_or_throw`. -/
def matchOrThrow (expected : SqlTokenDetail) (message : String := "Invalid syntax") :
    Parse Unit := do
  if ← matches_ expected then pure () else throw (.threw (.invalidStatementSyntax message))

/-- `match_or_throw` of a type. -/
def matchTypeOrThrow (expected : SqlTokenType) (message : String := "Invalid syntax") :
    Parse Unit := do
  if ← matchesType expected then pure () else throw (.threw (.invalidStatementSyntax message))

/-! ## Expressions -/

/-- `to_ast_operator`. -/
def toAstOperator : SqlOperator → Option AstOperator
  | .or => some .or
  | .and => some .and
  | .eq => some .eq
  | .neq => some .neq
  | .not => some .not
  | .gr => some .gr
  | .gre => some .gre
  | .lt => some .lt
  | .lte => some .lte
  | .is => some .is
  | .assign => some .assign
  | _ => none

/-- `ast_operators_priorities().at(op)`; `UNDEFINED` has none, and no token stands
for it. -/
def priority : AstOperator → ℕ
  | .undefined => 0
  | .or => 1
  | .and => 2
  | .not => 3
  | .eq => 4
  | .neq => 4
  | .gr => 4
  | .gre => 4
  | .lt => 4
  | .lte => 4
  | .is => 4
  | .assign => 4

/-- The operator that a token stands for between two expressions. -/
def operatorOf (token : SqlToken) : Option AstOperator :=
  match token.detail with
  | .operator o => toAstOperator o
  | .keyword .is => some .is
  | _ => none

/-- The `NOT` that makes an `IS` a comparison for inequality. -/
def readIsNot (op : AstOperator) : Parse AstOperator := do
  if op = .is ∧ (← matches_ (.keyword .not)) then do
    let _ ← advance
    pure .neq
  else pure op

/-- The checks of `parse_binary_expr`, whose result is the node of the
expression. -/
def toBinaryExpr (node : ExprNode) : Parse ExprNode :=
  if node.isBinaryExpr then pure node
  else throw (.threw (.runtimeError "Expected binary expression"))

mutual

/-- `parse_primary`. -/
def parsePrimary : ℕ → Parse ExprNode
  | 0 => throw .outOfFuel
  | fuel + 1 => do
    let token ← current
    if ← matches_ (.symbol .lparen) then do
      let _ ← advance
      let tree ← parseBinaryTree fuel 0
      let node ← toBinaryExpr tree
      if ← matches_ (.symbol .rparen) then pure node
      else throw (.threw (.runtimeError "Expected right parenthesis"))
    else if ← matches_ (.operator .not) then do
      let _ ← advance
      let right ← parsePrimary fuel
      pure (.prefixExpr .not right)
    else if ← matches_ (.keyword .null) then do
      let _ ← advance
      pure (.literal token.asNull)
    else if ← matchesType .literal then do
      let _ ← advance
      pure (.literal token)
    else if ← matchesType .identifier then do
      let _ ← advance
      pure (.identifier token)
    else throw (.threw (.unexpectedToken token))

/-- `parse_binary_tree`. -/
def parseBinaryTree : ℕ → ℕ → Parse ExprNode
  | 0, _ => throw .outOfFuel
  | fuel + 1, minPriority => do
    let left ← parsePrimary fuel
    parseBinaryLoop fuel minPriority left

/-- The loop of `parse_binary_tree`. -/
def parseBinaryLoop : ℕ → ℕ → ExprNode → Parse ExprNode
  | 0, _, _ => throw .outOfFuel
  | fuel + 1, minPriority, left => do
    let token ← current
    match operatorOf token with
    | none => pure left
    | some op =>
      if priority op < minPriority then pure left
      else do
        let _ ← advance
        let op' ← readIsNot op
        let right ← parseBinaryTree fuel (priority op + 1)
        parseBinaryLoop fuel minPriority (.binaryExpr op' left right)

end

/-- `parse_binary_expr`. -/
def parseBinaryExpr (fuel minPriority : ℕ) : Parse ExprNode := do
  let node ← parseBinaryTree fuel minPriority
  toBinaryExpr node

/-! ## The parts of statements -/

/-- `parse_table_identifier`. -/
def parseTableIdentifier : Parse TableIdentifier := do
  matchTypeOrThrow .identifier
  let firstToken ← current
  let _ ← advance
  if ← matches_ (.symbol .period) then do
    advanceOrThrow "Expected table name after schema"
    matchTypeOrThrow .identifier "Expected table identifier after schema name"
    let secondToken ← current
    let _ ← advance
    pure { tableName := secondToken, schemaName := some firstToken }
  else pure { tableName := firstToken }

/-- Moves on and says whether there is a comma. -/
def advanceToComma : Parse Bool := do
  if ← advance then matches_ (.symbol .comma) else pure false

/-- The loops of `parse_select` and `parse_insert` over tokens of a type, with commas
between them: what is done at a token of another type, and when no comma
follows. -/
def parseTokens (type : SqlTokenType) (other : Parse (List SqlToken)) (finish : Parse Unit) :
    ℕ → Parse (List SqlToken)
  | 0 => throw .outOfFuel
  | fuel + 1 => do
    advanceOrThrow
    if ← matchesType type then do
      let token ← current
      if ← advanceToComma then do
        let tokens ← parseTokens type other finish fuel
        pure (token :: tokens)
      else do
        finish
        pure [token]
    else other

/-- The loop of `parse_select` over the columns. -/
def parseSelectColumns : ℕ → Parse (List SqlToken) :=
  parseTokens .identifier (pure []) (pure ())

/-- The loop of `parse_insert` over the columns. -/
def parseInsertColumns : ℕ → Parse (List SqlToken) :=
  parseTokens .identifier (pure []) stepBack

/-- The loop of `parse_insert` over the values. -/
def parseInsertValues : ℕ → Parse (List SqlToken) :=
  parseTokens .literal
    (throw (.threw (.invalidStatementSyntax "Expected a literal in VALUES expression"))) stepBack

/-- The loop of `parse_update` over the assignments. -/
def parseAssignments : ℕ → Parse (List ExprNode)
  | 0 => throw .outOfFuel
  | fuel + 1 => do
    advanceOrThrow
    let expr ← parseBinaryExpr fuel 0
    match expr with
    | .binaryExpr .assign _ _ =>
      if ← matches_ (.symbol .comma) then do
        let assignments ← parseAssignments fuel
        pure (expr :: assignments)
      else pure [expr]
    | _ => throw (.threw (.runtimeError "Expected assignment expression (col = value)"))

/-- The loop of `parse_column_def` over the constraints. -/
def parseConstraints : ℕ → Parse (List SqlToken)
  | 0 => throw .outOfFuel
  | fuel + 1 => do
    let cur ← current
    if (← matches_ (.symbol .comma)) || (← matches_ (.symbol .rparen)) then pure []
    else if cur.keyword? = none then throw invalidStatementSyntax
    else if !cur.isConstraint || !cur.isDataType then throw invalidStatementSyntax
    else do
      advanceOrThrow
      let constraints ← parseConstraints fuel
      pure (cur :: constraints)

/-- `parse_column_def`. -/
def parseColumnDef (fuel : ℕ) : Parse ColumnDefinition := do
  matchTypeOrThrow .identifier "Expected column identifier"
  let name ← current
  advanceOrThrow
  let type ← current
  advanceOrThrow
  if (← matches_ (.symbol .comma)) || (← matches_ (.symbol .rparen)) then pure { name, type }
  else do
    advanceOrThrow
    let constraints ← parseConstraints fuel
    pure { name, type, constraints }

/-- The loop of `parse_create_table`. -/
def parseColumnDefs : ℕ → Parse (List ColumnDefinition)
  | 0 => throw .outOfFuel
  | fuel + 1 => do
    let column ← parseColumnDef fuel
    let stop ← matches_ (.symbol .rparen)
    let _ ← advance
    if stop then pure [column]
    else do
      let columns ← parseColumnDefs fuel
      pure (column :: columns)

/-- The loop of `parse_alter_table`. -/
def parseAlterOperations : ℕ → Parse (List ColumnDefinition)
  | 0 => throw .outOfFuel
  | fuel + 1 => do
    if ← matches_ (.keyword .add) then do
      advanceOrThrow "You need to specify what to add in 'ALTER TABLE'"
      if ← matches_ (.keyword .column) then do
        advanceOrThrow "Missing column definition"
        let column ← parseColumnDef fuel
        let operations ← parseAlterOperations fuel
        pure (column :: operations)
      else throw (.threw (.invalidStatementSyntax "Expected COLUMN after ADD"))
    else if ← isAt fun _ => true then
      throw (.threw (.invalidStatementSyntax "Unsupported ALTER TABLE operation"))
    else pure []

/-! ## Statements -/

/-- `parse_select`. The `*` is looked for at the keyword `SELECT`. -/
def parseSelect (fuel : ℕ) : Parse SelectStatement := do
  let columns ← (do
    if ← matches_ (.operator .mul) then do
      let _ ← advance
      pure []
    else parseSelectColumns fuel)
  advanceOrThrow
  matchOrThrow (.keyword .from_) "Expected 'FROM'"
  advanceOrThrow
  let table ← parseTableIdentifier
  if ← matches_ (.keyword .where_) then do
    advanceOrThrow
    let expr ← parseBinaryExpr fuel 0
    pure { table, columns, where_ := some expr }
  else pure { table, columns, where_ := none }

/-- `parse_insert`. The `*` is looked for at the left parenthesis. -/
def parseInsert (fuel : ℕ) : Parse InsertStatement := do
  advanceOrThrow
  matchOrThrow (.keyword .into) "Expected 'INTO' keyword"
  advanceOrThrow
  let table ← parseTableIdentifier
  matchOrThrow (.symbol .lparen) "Expected left parenthesis"
  let columns ← (do
    if ← matches_ (.operator .mul) then do
      advanceOrThrow
      pure []
    else parseInsertColumns fuel)
  advanceOrThrow
  matchOrThrow (.symbol .rparen) "Expected right parenthesis"
  advanceOrThrow
  matchOrThrow (.keyword .values) "Expected 'VALUES' keyword"
  advanceOrThrow
  matchOrThrow (.symbol .lparen) "Expected left parenthesis"
  let values ← parseInsertValues fuel
  advanceOrThrow
  matchOrThrow (.symbol .rparen) "Expected right parenthesis"
  pure { table, columns, values := [values] }

/-- The `WHERE` of `parse_update` and `parse_delete`. -/
def parseWhere (fuel : ℕ) : Parse (Option ExprNode) := do
  if ← matches_ (.keyword .where_) then do
    let _ ← advance
    let expr ← parseBinaryExpr fuel 0
    pure (some expr)
  else pure none

/-- `parse_update`. -/
def parseUpdate (fuel : ℕ) : Parse UpdateStatement := do
  advanceOrThrow
  let table ← parseTableIdentifier
  matchOrThrow (.keyword .set) "Expected 'SET' keyword"
  let assignments ← parseAssignments fuel
  let where_ ← parseWhere fuel
  pure { table, assignments, where_ }

/-- `parse_delete`. -/
def parseDelete (fuel : ℕ) : Parse DeleteStatement := do
  advanceOrThrow
  matchOrThrow (.keyword .from_) "Expected 'FROM' keyword after DELETE"
  advanceOrThrow
  let table ← parseTableIdentifier
  let where_ ← parseWhere fuel
  pure { table, where_ }

/-- `parse_create_table`. -/
def parseCreateTable (fuel : ℕ) : Parse CreateTableStatement := do
  matchOrThrow (.keyword .table) "Expected 'TABLE' after 'CREATE'"
  advanceOrThrow
  let table ← parseTableIdentifier
  if ← matches_ (.symbol .lparen) then do
    advanceOrThrow
    let columns ← parseColumnDefs fuel
    pure { table, columns }
  else pure { table }

/-- `parse_alter_table`. -/
def parseAlterTable (fuel : ℕ) : Parse AlterTableStatement := do
  matchOrThrow (.keyword .table) "Expected 'TABLE' after 'ALTER'"
  advanceOrThrow
  let table ← parseTableIdentifier
  advanceOrThrow "Expected statement for 'ALTER TABLE'"
  let operations ← parseAlterOperations fuel
  pure { table, operations }

/-- `parse_create_db`. -/
def parseCreateDb : Parse SqlToken := do
  matchOrThrow (.keyword .database)
  advanceOrThrow "Expected database identifier"
  current

/-- `parse_create_schema`. -/
def parseCreateSchema : Parse SqlToken := do
  matchOrThrow (.keyword .schema)
  advanceOrThrow "Expected schema identifier"
  current

/-- `parse_create_index`, after `UNIQUE`. -/
def parseIndexDefinition (isUnique : Option Bool) : Parse CreateIndexStatement := do
  matchOrThrow (.keyword .index)
  advanceOrThrow "Expected index identifier"
  matchTypeOrThrow .identifier "Expected index identifier"
  let indexName ← current
  advanceOrThrow "Incomplete CREATE INDEX syntax"
  matchOrThrow (.keyword .on_)
  advanceOrThrow "Expected table name after 'ON'"
  let table ← parseTableIdentifier
  matchOrThrow (.symbol .lparen) "Expected '(' after table identifier"
  advanceOrThrow "Expected column name after '('"
  matchTypeOrThrow .identifier "Expected column name after '('"
  let columnName ← current
  advanceOrThrow "Expected ')' after column identifier"
  matchOrThrow (.symbol .rparen) "Expected ')' after column identifier"
  pure { table, indexName, columnName, isUnique }

/-- `parse_create_index`. -/
def parseCreateIndex : Parse CreateIndexStatement := do
  if ← matches_ (.keyword .unique) then do
    advanceOrThrow "Expected 'INDEX' after 'UNIQUE'"
    parseIndexDefinition (some true)
  else parseIndexDefinition none

/-- `parse_drop_index`. -/
def parseDropIndex : Parse DropIndexStatement := do
  matchOrThrow (.keyword .index)
  advanceOrThrow "Expected index identifier"
  matchTypeOrThrow .identifier "Expected index identifier"
  let indexName ← current
  advanceOrThrow "Expected 'ON' after index identifier"
  matchOrThrow (.keyword .on_) "Expected 'ON' after index identifier"
  advanceOrThrow "Expected table identifier after 'ON'"
  let table ← parseTableIdentifier
  pure { table, indexName }

/-- `if (!advance()) throw InvalidStatementSyntax();`. -/
def advanceOrInvalid : Parse Unit := do
  if ← advance then pure () else throw invalidStatementSyntax

/-- `InvalidStatementSyntax("Unsupported statement")`. -/
def unsupportedStatement : ParseStop :=
  .threw (.invalidStatementSyntax "Unsupported statement")

/-- The cases of `parse` after `CREATE`. -/
def parseCreate (fuel : ℕ) : Parse Statement := do
  advanceOrInvalid
  if ← matches_ (.keyword .table) then .createTable <$> parseCreateTable fuel
  else if ← matches_ (.keyword .database) then .createDatabase <$> parseCreateDb
  else if ← matches_ (.keyword .schema) then .createSchema <$> parseCreateSchema
  else if (← matches_ (.keyword .index)) || (← matches_ (.keyword .unique)) then
    .createIndex <$> parseCreateIndex
  else throw unsupportedStatement

/-- The cases of `parse` after `DROP`. -/
def parseDrop : Parse Statement := do
  advanceOrInvalid
  if ← matches_ (.keyword .index) then .dropIndex <$> parseDropIndex
  else throw unsupportedStatement

/-- The cases of `parse` after `ALTER`. -/
def parseAlter (fuel : ℕ) : Parse Statement := do
  advanceOrInvalid
  if ← matches_ (.keyword .table) then .alterTable <$> parseAlterTable fuel
  else throw unsupportedStatement

/-- The cases of `parse`. -/
def parseStatement (fuel : ℕ) : Parse Statement := do
  if ← matches_ (.keyword .select) then .select <$> parseSelect fuel
  else if ← matches_ (.keyword .insert) then .insert <$> parseInsert fuel
  else if ← matches_ (.keyword .update) then .update <$> parseUpdate fuel
  else if ← matches_ (.keyword .delete) then .delete <$> parseDelete fuel
  else if ← matches_ (.keyword .create) then parseCreate fuel
  else if ← matches_ (.keyword .drop) then parseDrop
  else if ← matches_ (.keyword .alter) then parseAlter fuel
  else throw unsupportedStatement

/-- `is_trailing_sequence_valid`, of the tokens from the index on. -/
def isTrailingSequenceValid : List SqlToken → Bool
  | [] => true
  | [t] => t.detail == .symbol .semicolon
  | _ => false

/-- The check at the end of `parse`. -/
def checkTrailing : Parse Unit := fun s =>
  if isTrailingSequenceValid s.rest || isTrailingSequenceValid s.rest.tail then .ok () s
  else .error (.threw (.invalidStatementSyntax "Unexpected tokens after statement")) s

/-- `parse`. -/
def parse (fuel : ℕ) : Parse Statement := do
  let parsed ← parseStatement fuel
  checkTrailing
  pure parsed

end SqlParser

/-- `set_tokens` and `parse`, on a parser that has been reset. -/
def SqlParser.run (fuel : ℕ) (tokens : List SqlToken) : Except ParseStop Statement :=
  match SqlParser.parse fuel { rest := tokens } with
  | .ok parsed _ => .ok parsed
  | .error stop _ => .error stop

end Sql
