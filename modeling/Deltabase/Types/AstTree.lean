import Deltabase.Types.MetaTable

/-!
# Operators

The operators of the syntax tree, and the comparisons of data tokens that some of
them stand for.
-/

/-- `types::AstOperator`. -/
inductive AstOperator where
  | undefined
  | or
  | and
  | not
  | eq
  | neq
  | gr
  | gre
  | lt
  | lte
  | is
  | assign
  deriving DecidableEq

namespace DataToken

/-- `operator!=`. -/
def ne (lhs rhs : DataToken) : Bool := !lhs.eq rhs

/-- `operator<=`. -/
def le (lhs rhs : DataToken) : Bool := lhs.lt rhs || lhs.eq rhs

/-- `operator>`. -/
def gt (lhs rhs : DataToken) : Bool := rhs.lt lhs

/-- `operator>=`. -/
def ge (lhs rhs : DataToken) : Bool := !lhs.lt rhs

end DataToken

/-- The comparison of data tokens that an operator stands for. -/
def AstOperator.compare : AstOperator → Option (DataToken → DataToken → Bool)
  | eq => some DataToken.eq
  | neq => some DataToken.ne
  | lt => some DataToken.lt
  | lte => some DataToken.le
  | gr => some DataToken.gt
  | gre => some DataToken.ge
  | _ => none
