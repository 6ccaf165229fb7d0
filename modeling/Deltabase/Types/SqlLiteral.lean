import Deltabase.Lib.Program
import Deltabase.Sql.Lexer
import Deltabase.Types.DataPage

/-!
# The values of literals

A literal of a query is a text until a `DataToken` is made of it, which reads
the text with `std::stoi` or `std::stod`. Both skip white space, take the longest
beginning of the text that is a number and look at no more; they throw when
there is none, and when the number has no place in an `int` or a `double`.

The type of the token is that of the literal. Nothing here knows the column that
the value is meant for.
-/

namespace SqlLiteral

/-! ## Numbers -/

/-- The sign of a number, and what is behind it. -/
def splitSign : Bytes → Bool × Bytes
  | 45 :: str => (true, str)
  | 43 :: str => (false, str)
  | str => (false, str)

/-- The number that decimal digits stand for. -/
def decimal (digits : Bytes) : ℕ := digits.foldl (fun n c => 10 * n + (c.toNat - 48)) 0

/-- `std::stoi`. -/
def stoi (str : Bytes) : Except Exn ℤ :=
  let (negative, str) := splitSign (str.dropWhile Sql.Lexer.isSpace)
  let digits := str.takeWhile Sql.Lexer.isDigit
  let n : ℤ := if negative then -decimal digits else decimal digits
  if digits.isEmpty then .error (.invalidArgument "stoi" [])
  else if -2 ^ 31 ≤ n ∧ n < 2 ^ 31 then .ok n
  else .error .outOfRange

/-- `n / d` as the nearest integer, of two the even one. -/
def roundHalfEven (n d : ℕ) : ℕ :=
  if 2 * (n % d) < d ∨ 2 * (n % d) = d ∧ n / d % 2 = 0 then n / d else n / d + 1

/-- The numerator and the denominator of `n / d` in units of `2 ^ e`. -/
def scaled (n d : ℕ) (e : ℤ) : ℕ × ℕ :=
  if e < 0 then (n * 2 ^ (-e).toNat, d) else (n, d * 2 ^ e.toNat)

/-- The exponent of the last place of the `double` nearest to `n / d`, which is not
zero. -/
def lastPlace (n d : ℕ) : ℤ :=
  let e : ℤ := (Nat.log2 n : ℤ) - Nat.log2 d
  let (n', d') := scaled n d e
  max ((if n' < d' then e - 1 else e) - 52) (-1074)

/-- The bits of the `double` nearest to `n / d`. A significand that is rounded up to
the next power of two carries over into the exponent. -/
def doubleBits (n d : ℕ) : ℕ :=
  if n = 0 then 0
  else
    let e := lastPlace n d
    let (n', d') := scaled n d e
    (e + 1074).toNat * 2 ^ 52 + roundHalfEven n' d'

/-- Whether `n / d` is not a `double` and would, rounded to 53 bits, be below the
smallest normal one. -/
def underflows (n d : ℕ) : Bool :=
  n * 2 ^ 1074 % d ≠ 0 && roundHalfEven (n * 2 ^ 1075) d < 2 ^ 53

/-- The exponent that a decimal number ends in, if it does. -/
def exponent : Bytes → ℤ
  | c :: str =>
    let (negative, str) := splitSign str
    let digits := str.takeWhile Sql.Lexer.isDigit
    if (c = 101 ∨ c = 69) ∧ !digits.isEmpty then
      if negative then -decimal digits else decimal digits
    else 0
  | [] => 0

/-- The digits behind the point, and what is behind them. -/
def fraction : Bytes → Bytes × Bytes
  | 46 :: str => (str.takeWhile Sql.Lexer.isDigit, str.dropWhile Sql.Lexer.isDigit)
  | str => ([], str)

/-- `std::stod`, whose result is given by its bits. It is that of decimal numbers:
hexadecimal ones and the names of infinity and NaN begin with letters or have
letters in them, and the lexer makes no literals of those. -/
def stod (str : Bytes) : Except Exn ℕ :=
  let (negative, str) := splitSign (str.dropWhile Sql.Lexer.isSpace)
  let whole := str.takeWhile Sql.Lexer.isDigit
  let (part, str) := fraction (str.dropWhile Sql.Lexer.isDigit)
  let scale := exponent str - part.length
  let n := decimal (whole ++ part) * 10 ^ scale.toNat
  let d := 10 ^ (-scale).toNat
  if (whole ++ part).isEmpty then .error (.invalidArgument "stod" [])
  else if 0x7FF0000000000000 ≤ doubleBits n d ∨ underflows n d then .error .outOfRange
  else .ok ((if negative then 0x8000000000000000 else 0) + doubleBits n d)

end SqlLiteral

/-! ## Data tokens -/

/-- The data type that a literal stands for. -/
def SqlLiteral.dataType : SqlLiteral → DataType
  | .integer => .integer
  | .string => .string
  | .bool => .bool
  | .char => .char
  | .real => .real
  | .null => .null
  | .count => .undefined

namespace DataToken

/-- The constructor of a `DataToken` from a literal. -/
def ofLiteral (value : Bytes) : SqlLiteral → Except Exn DataToken
  | .integer => do
    let temp ← SqlLiteral.stoi value
    pure ⟨leBytes 4 (temp % 2 ^ 32).toNat, .integer⟩
  | .real => do
    let temp ← SqlLiteral.stod value
    pure ⟨leBytes 8 temp, .real⟩
  | .string => .ok ⟨value, .string⟩
  | .bool =>
    .ok ⟨[if value = Sql.Lexer.key "true" ∨ value = Sql.Lexer.key "1" then 1 else 0], .bool⟩
  | .char => .ok ⟨[value.headD 0], .char⟩
  | .null => .ok ⟨[], .null⟩
  | .count => .error (.invalidArgument
      "Cannot convert SQL token to a data token: invalid value type: " value)

/-- `DataToken(sql_token)`. -/
def ofSqlToken (sqlToken : SqlToken) : Except Exn DataToken :=
  match sqlToken.detail with
  | .literal literal => ofLiteral sqlToken.value literal
  | _ => .error (.invalidArgument "Cannot convert non-literal SQL token to a data token" [])

/-- **A data token has the type of its literal.** -/
theorem type_ofLiteral {value : Bytes} {literal : SqlLiteral} {token : DataToken}
    (h : ofLiteral value literal = .ok token) : token.type = literal.dataType := by
  cases literal with
  | integer =>
    obtain ⟨_, _, hpure⟩ := bind_eq_ok.mp h
    exact (congrArg DataToken.type (Except.ok.inj hpure)).symm
  | real =>
    obtain ⟨_, _, hpure⟩ := bind_eq_ok.mp h
    exact (congrArg DataToken.type (Except.ok.inj hpure)).symm
  | count => cases h
  | string | bool | char | null => exact (congrArg DataToken.type (Except.ok.inj h)).symm

/-- The number that is read as a `double` is no NaN. -/
theorem isNaN_stod {value : Bytes} {bits : ℕ} (h : SqlLiteral.stod value = .ok bits) :
    isNaN (asDoubleBits (leBytes 8 bits)) = false := by
  obtain ⟨sign, m, rfl, hsign, hm⟩ : ∃ sign m, bits = sign + m
      ∧ (sign = 0x8000000000000000 ∨ sign = 0) ∧ m < 0x7FF0000000000000 := by
    unfold SqlLiteral.stod at h
    dsimp only at h
    split_ifs at h with hempty hrange hnegative
    · exact ⟨_, _, (Except.ok.inj h).symm, Or.inl rfl, by omega⟩
    · exact ⟨_, _, (Except.ok.inj h).symm, Or.inr rfl, by omega⟩
  have hbound : sign + m < 256 ^ 8 := by omega
  have hbits : asDoubleBits (leBytes 8 (sign + m)) = sign + m := by
    unfold asDoubleBits
    rw [List.take_of_length_le (length_leBytes 8 _).le, leNat_leBytes hbound]
  rw [hbits]
  refine decide_eq_false ?_
  rcases hsign with rfl | rfl <;> omega

/-- **A literal has a place in the order.** -/
theorem ranked_ofLiteral {value : Bytes} {literal : SqlLiteral} {token : DataToken}
    (h : ofLiteral value literal = .ok token) : token.Ranked := by
  cases literal with
  | integer =>
    obtain ⟨_, _, hpure⟩ := bind_eq_ok.mp h
    obtain rfl := Except.ok.inj hpure
    exact trivial
  | real =>
    obtain ⟨bits, hbits, hpure⟩ := bind_eq_ok.mp h
    obtain rfl := Except.ok.inj hpure
    exact isNaN_stod hbits
  | count => cases h
  | string | bool | char =>
    obtain rfl := Except.ok.inj h
    exact trivial
  | null =>
    obtain rfl := Except.ok.inj h
    exact rfl

end DataToken
