import Deltabase.Types.SqlToken

/-!
# The lexer

`sql::lex` goes over the bytes of a query and makes tokens of them. One round of
its loop (`iterate`) looks at what is left of the query from `i` on and says which
token it adds, if any, by how much it moves on and what the line and the position
are then. A byte that no case of the loop knows moves nothing.

Words are looked up in lower case, among the keywords first, so `not` and `is`
are keywords and never operators. The lengths of operators are tried from three
down, and not at all where fewer than three bytes are left.
-/

namespace Sql

/-- The exceptions that the lexer throws. -/
inductive LexError where
  | unterminatedString
  | unterminatedIdentifier
  | unknownOperator (pos : ℕ)
  deriving DecidableEq

/-- `what()`. -/
def LexError.message : LexError → String
  | .unterminatedString => "Unterminated string literal"
  | .unterminatedIdentifier => "Unterminated quoted identifier"
  | .unknownOperator pos => "Unknown operator at position " ++ toString pos

/-- Why a run of the lexer has no result. -/
inductive LexStop where
  | threw (e : LexError)
  | outOfFuel
  deriving DecidableEq

namespace Lexer

/-! ## Bytes -/

/-- `isspace`. -/
def isSpace (c : UInt8) : Bool := c = 32 || (9 ≤ c && c ≤ 13)

/-- `isdigit`. -/
def isDigit (c : UInt8) : Bool := 48 ≤ c && c ≤ 57

/-- `std::isalpha`. -/
def isLetter (c : UInt8) : Bool := (65 ≤ c && c ≤ 90) || (97 ≤ c && c ≤ 122)

/-- `isalpha` of `lex`. -/
def isAlpha (c : UInt8) : Bool := isLetter c || c = 95

/-- `std::tolower`. -/
def toLowerByte (c : UInt8) : UInt8 := if 65 ≤ c && c ≤ 90 then c + 32 else c

/-- `to_lower`. -/
def toLower (str : Bytes) : Bytes := str.map toLowerByte

/-! ## Dictionaries -/

/-- The bytes of a key. -/
def key (s : String) : Bytes := s.toUTF8.toList

/-- `keywords_map`. -/
def keywordsMap : List (Bytes × SqlKeyword) :=
  [(key "add", .add), (key "alter", .alter), (key "autoincrement", .autoincrement),
    (key "bool", .bool), (key "char", .char), (key "column", .column), (key "create", .create),
    (key "database", .database), (key "delete", .delete), (key "drop", .drop),
    (key "from", .from_), (key "index", .index), (key "insert", .insert),
    (key "integer", .integer), (key "into", .into), (key "is", .is), (key "key", .key),
    (key "not", .not), (key "null", .null), (key "on", .on_), (key "primary", .primary),
    (key "real", .real), (key "schema", .schema), (key "select", .select), (key "set", .set),
    (key "string", .string), (key "table", .table), (key "unique", .unique),
    (key "update", .update), (key "values", .values), (key "where", .where_)]

/-- `symbols_map`. -/
def symbolsMap : List (Bytes × SqlSymbol) :=
  [(key "(", .lparen), (key ")", .rparen), (key ",", .comma), (key ".", .period),
    (key ";", .semicolon)]

/-- `operators_map`. -/
def operatorsMap : List (Bytes × SqlOperator) :=
  [(key "==", .eq), (key "!=", .neq), (key ">", .gr), (key ">=", .gre), (key "<", .lt),
    (key "<=", .lte), (key "is", .is), (key "and", .and), (key "or", .or), (key "not", .not),
    (key "+", .plus), (key "-", .minus), (key "*", .mul), (key "/", .div), (key "=", .assign)]

/-! ## Lexemes -/

/-- `get_word_length`. -/
def getWordLength (str : Bytes) : ℕ :=
  (str.takeWhile fun c => isLetter c || isDigit c || c = 95).length

/-- `get_number_length`, with `dot_found`. -/
def getNumberLength (dotFound : Bool) : Bytes → ℕ
  | [] => 0
  | c :: str =>
    if isDigit c then getNumberLength dotFound str + 1
    else if !dotFound && c = 46 then getNumberLength true str + 1
    else 0

/-- `starts_as_operator`. -/
def startsAsOperator (c : UInt8) : Bool := operatorsMap.any fun op => op.1.head? = some c

/-- The loop over the lengths of operators, from a length down. -/
def findOperator (str : Bytes) : ℕ → Option (Bytes × SqlOperator)
  | 0 => none
  | maxLen + 1 =>
    if maxLen + 1 ≤ str.length then
      let candidate := toLower (str.take (maxLen + 1))
      match operatorsMap.lookup candidate with
      | some op => some (candidate, op)
      | none => findOperator str maxLen
    else none

/-- The detail of a word. -/
def wordDetail (word : Bytes) : SqlTokenDetail :=
  match keywordsMap.lookup word with
  | some keyword => .keyword keyword
  | none =>
    match operatorsMap.lookup word with
    | some op => .operator op
    | none => .identifier

/-- The detail of a number. -/
def numberDetail (word : Bytes) : SqlTokenDetail :=
  if word.contains 46 || word.contains 101 || word.contains 69 then .literal .real
  else .literal .integer

/-! ## The loop -/

/-- **What one round of the loop does.** -/
structure Iteration where
  /-- The token that is added. -/
  token : Option SqlToken := none
  /-- By how much `i` grows. -/
  consumed : ℕ
  line : ℕ
  pos : ℕ
  deriving DecidableEq

/-- A round that adds a token. -/
def Iteration.ofToken (value : Bytes) (detail : SqlTokenDetail) (consumed line pos : ℕ) :
    Iteration where
  token := some { value, line, pos, detail }
  consumed := consumed
  line := line
  pos := pos + consumed

/-- A text between two quotes, from behind the first, and the round that reads it. -/
def quoted (quote : UInt8) (detail : SqlTokenDetail) (error : LexError) (str : Bytes)
    (line pos : ℕ) : Except LexStop Iteration :=
  if str.contains quote then
    let word := str.takeWhile fun c => c != quote
    .ok (.ofToken word detail (word.length + 2) line pos)
  else .error (.threw error)

/-- **A round of the loop of `lex`** at the byte `c`, with `str` behind it. -/
def iterate (c : UInt8) (str : Bytes) (line pos : ℕ) : Except LexStop Iteration :=
  if isSpace c then
    if c = 10 then .ok { consumed := 1, line := line + 1, pos := 0 }
    else .ok { consumed := 1, line, pos := pos + 1 }
  else if isAlpha c then
    let word := toLower ((c :: str).take (getWordLength (c :: str)))
    .ok (.ofToken word (wordDetail word) word.length line pos)
  else if c = 39 then quoted 39 (.literal .string) .unterminatedString str line pos
  else if c = 34 then quoted 34 .identifier .unterminatedIdentifier str line pos
  else if isDigit c then
    let word := (c :: str).take (getNumberLength false (c :: str))
    .ok (.ofToken word (numberDetail word) word.length line pos)
  else if startsAsOperator c then
    match findOperator (c :: str) 3 with
    | some (op, detail) => .ok (.ofToken op (.operator detail) op.length line pos)
    | none => .error (.threw (.unknownOperator pos))
  else
    match symbolsMap.lookup [c] with
    | some symbol => .ok (.ofToken [c] (.symbol symbol) 1 line pos)
    | none =>
      if c = 46 then .ok (.ofToken [c] (.symbol .period) 1 line pos)
      else .ok { consumed := 0, line, pos }

/-- The loop of `lex` over what is left of the query. -/
def lexLoop : ℕ → Bytes → ℕ → ℕ → Except LexStop (List SqlToken)
  | 0, _, _, _ => .error .outOfFuel
  | _ + 1, [], _, _ => .ok []
  | fuel + 1, c :: str, line, pos => do
    let round ← iterate c str line pos
    let tokens ← lexLoop fuel ((c :: str).drop round.consumed) round.line round.pos
    pure (round.token.toList ++ tokens)

end Lexer

/-- `lex`. -/
def lex (fuel : ℕ) (query : Bytes) : Except LexStop (List SqlToken) :=
  Lexer.lexLoop fuel query 1 0

/-- **The tokens of a query**: what `lex` returns of it. -/
def Lexed (query : Bytes) (tokens : List SqlToken) : Prop :=
  ∃ fuel, lex fuel query = .ok tokens

end Sql
