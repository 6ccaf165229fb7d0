import Deltabase.Engine.QueryExecution
import Deltabase.Lib.Relations

/-!
# What a statement means

A statement names columns, and the names of the columns of its table are all that is
needed to say what it does to tuples: which of them its `WHERE` selects, what its
`SET` makes of one, and which tuples its `VALUES` are. On the way to the storage the
names become positions, ids and positions again; this is where it is shown that the
detour makes no difference.

A comparison is about the values that tokens stand for (`Value`): they are the same or
not, and within a type they are in order. The evaluator agrees with that for all
operators but `<` and `<=`, which it takes for `>` and `>=`
(`Evaluator.evaluateTokens_eq_means`). A condition without these two is upward.
-/

open Relational

/-! ## Values and their comparison -/

/-- **The value that a token stands for.** -/
inductive Value where
  | null
  | integer (n : ℤ)
  | real (bits : ℕ)
  | char (c : ℤ)
  | bool (b : Bool)
  | string (s : Bytes)
  /-- A token of none of these types stands for nothing. -/
  | nothing

/-- The value of a token. -/
def DataToken.value (token : DataToken) : Value :=
  match token.type with
  | .null => .null
  | .integer => .integer (asInt token.bytes)
  | .real => .real (asDoubleBits token.bytes)
  | .char => .char (asChar token.bytes)
  | .bool => .bool (asBool token.bytes)
  | .string => .string token.bytes
  | _ => .nothing

namespace Value

/-- Two values are the same: `NULL` is the same as itself, and no values of different
types are. -/
def same : Value → Value → Bool
  | null, null => true
  | integer m, integer n => m == n
  | real x, real y => doubleEq x y
  | char c, char d => c == d
  | bool b, bool c => b == c
  | string s, string t => s == t
  | _, _ => false

/-- A value is less than another of its type; `NULL` and the values of `BOOL` are in no
order. -/
def less : Value → Value → Bool
  | integer m, integer n => m < n
  | real x, real y => doubleLt x y
  | char c, char d => c < d
  | string s, string t => bytesLt s t
  | _, _ => false

/-- A value of a type that is in order. -/
def isOrdered : Value → Bool
  | integer _ | real _ | char _ | string _ => true
  | _ => false

/-- Less than another, or the same in the order. -/
def lessOrSame (a b : Value) : Bool := a.less b || a.isOrdered && a.same b

end Value

/-- **What an operator means.** -/
def AstOperator.means : AstOperator → Value → Value → Bool
  | .eq, a, b => a.same b
  | .is, a, b => a.same b
  | .neq, a, b => !a.same b
  | .lt, a, b => a.less b
  | .lte, a, b => a.lessOrSame b
  | .gr, a, b => b.less a
  | .gre, a, b => b.lessOrSame a
  | _, _, _ => false

/-- An operator that does not ask for what is below a value. -/
def AstOperator.isUpward (op : AstOperator) : Bool := op ≠ .lt && op ≠ .lte

namespace Evaluator

variable (a b : DataToken)

/-- A number that is not greater is less or the same. -/
theorem decide_le_int (m n : ℤ) : decide (m ≤ n) = (decide (m < n) || m == n) := by
  rw [Bool.eq_iff_iff, Bool.or_eq_true, decide_eq_true_eq, decide_eq_true_eq, beq_iff_eq]
  exact le_iff_lt_or_eq

/-- A text that is not greater is less or the same. -/
theorem bytesLt_eq (s t : Bytes) : bytesLt s t = (!bytesLt t s && !t == s) := by
  rw [Bool.eq_iff_iff, Bool.and_eq_true, Bool.not_eq_true', Bool.not_eq_true', Bool.eq_false_iff,
    Ne, bytesLt_iff, bytesLt_iff, not_lt, beq_eq_false_iff_ne, lt_iff_le_and_ne]
  exact and_congr_right fun _ => not_congr (toNat_map_injective.eq_iff.trans eq_comm)

theorem doubleEq_comm (x y : ℕ) : doubleEq x y = doubleEq y x := by
  unfold doubleEq
  rw [Bool.and_comm (!isNaN x), decide_eq_decide.mpr eq_comm]

theorem eq_eq_same : eq a b = a.value.same b.value := by
  unfold eq DataToken.value
  cases a.type <;> cases b.type <;> simp [Value.same, beq_eq_decide]

theorem greater_eq_less : greater a b = b.value.less a.value := by
  unfold greater DataToken.value
  cases a.type <;> cases b.type <;> simp [Value.less]

theorem greaterEq_eq_lessOrSame : greaterEq a b = b.value.lessOrSame a.value := by
  unfold greaterEq DataToken.value
  cases a.type <;> cases b.type <;> simp [Value.lessOrSame, Value.less, Value.same, Value.isOrdered]
  case integer.integer => exact decide_le_int _ _
  case real.real => rw [doubleEq_comm]
  case char.char => exact decide_le_int _ _
  case string.string => exact bytesLt_eq _ _

/-- **The evaluator compares as it is meant**, if it is not asked for what is below. -/
theorem evaluateTokens_eq_means {op : AstOperator} (hop : op.isUpward = true) :
    evaluateTokens a b op = op.means a.value b.value := by
  cases op with
  | eq | is => exact eq_eq_same a b
  | neq => exact congrArg Bool.not (eq_eq_same a b)
  | gr => exact greater_eq_less a b
  | gre => exact greaterEq_eq_lessOrSame a b
  | lt | lte => cases hop
  | _ => rfl

end Evaluator

namespace Sql

/-- The value of a literal. -/
def literalValue (token : SqlToken) : DataToken :=
  match DataToken.ofSqlToken token with
  | .ok value => value
  | .error _ => MetaTable.nullToken

theorem literalValue_eq {token : SqlToken} {value : DataToken}
    (h : DataToken.ofSqlToken token = .ok value) : literalValue token = value := by
  unfold literalValue
  rw [h]

/-- **Whether a condition selects a tuple**: it is the comparison of a column with a
literal. -/
def ExprNode.selects (names : List Bytes) : ExprNode → List DataToken → Bool
  | .binaryExpr op (.identifier column) (.literal token), tuple =>
    (field names column.value tuple).any fun value =>
      op.means value.value (literalValue token).value
  | _, _ => false

/-- A condition that does not compare by `<` or `<=`. -/
def ExprNode.isUpward : ExprNode → Bool
  | .binaryExpr op _ _ => op.isUpward
  | _ => true

/-- A statement whose condition does not compare by `<` or `<=`. -/
def Statement.isUpward (stmt : Statement) : Bool := stmt.condition.all ExprNode.isUpward

/-- A statement without a condition selects everything. -/
def selects (names : List Bytes) (where_ : Option ExprNode) (tuple : List DataToken) : Bool :=
  where_.all fun condition => condition.selects names tuple

/-- The value that an assignment writes, and where. -/
def ExprNode.assignment : ExprNode → Option (Bytes × DataToken)
  | .binaryExpr _ (.identifier column) (.literal token) =>
    some (column.value, literalValue token)
  | _ => none

/-- **What an `UPDATE` makes of a tuple.** -/
def UpdateStatement.replace (stmt : UpdateStatement) (names : List Bytes) :
    List DataToken → List DataToken :=
  assignAll names (stmt.assignments.filterMap ExprNode.assignment)

/-- **The tuples of an `INSERT`**: what is not given is `NULL`. -/
def InsertStatement.tuples (stmt : InsertStatement) (names : List Bytes) :
    List (List DataToken) :=
  stmt.values.map fun values =>
    assignAll names ((stmt.columns.map SqlToken.value).zip (values.map literalValue))
      (List.replicate names.length MetaTable.nullToken)

end Sql

namespace MetaTable

variable {mt : MetaTable}

/-- The names of the columns. -/
def names (mt : MetaTable) : List Bytes := mt.columns.map MetaColumn.name

theorem getColumnIdxByName_eq (name : Bytes) :
    mt.getColumnIdxByName name = mt.names.findIdx? fun n => n == name := by
  unfold getColumnIdxByName names
  rw [List.findIdx?_map]
  rfl

end MetaTable

/-! ## `WHERE` -/

namespace Evaluator

variable {mt : MetaTable} {row : DataRow}

/-- **The evaluator reads a value by its name.** -/
theorem columnToken_eq_ok {name : Bytes} {token : DataToken}
    (h : columnToken mt row name = .ok token) : field mt.names name row.tokens = some token := by
  unfold columnToken at h
  unfold field
  rw [← MetaTable.getColumnIdxByName_eq]
  cases hidx : mt.getColumnIdxByName name with
  | none =>
    rw [hidx] at h
    cases h
  | some i =>
    rw [hidx] at h
    show row.tokens[i]? = some token
    cases htoken : row.tokens[i]? with
    | none =>
      simp only [htoken] at h
      cases h
    | some token' =>
      simp only [htoken] at h
      rw [Except.ok.inj h]

/-- **A condition that has a value has the one that is meant.** -/
theorem evaluate_eq_selects {e : Sql.ExprNode} {verdict : Bool} (hparsed : e.Parsed)
    (hfits : mt.FitsWhere e) (hup : e.isUpward = true) (h : evaluate mt row e = .ok verdict) :
    verdict = e.selects mt.names row.tokens := by
  obtain ⟨op, column, value, literal, token, rfl, hliteral, htoken⟩ :=
    (exists_evaluate_iff hparsed hfits).mp ⟨verdict, h⟩
  cases hparsed with
  | binaryExpr _ hleft hright =>
    cases hleft with
    | identifier hcolumn =>
      cases hright with
      | literal hvalue =>
        rw [evaluate_comparison hcolumn hvalue, htoken, hliteral] at h
        rw [Sql.ExprNode.selects, columnToken_eq_ok htoken, Sql.literalValue_eq hliteral]
        exact (Except.ok.inj h).symm.trans (evaluateTokens_eq_means token literal hup)

end Evaluator

/-! ## `VALUES` -/

namespace MetaTable

variable {mt : MetaTable}

/-- **A new row is made by name.** -/
theorem reorderedTokens_some (names : List Bytes) (row : List DataToken) :
    mt.reorderedTokens (some names) row
      = assignAll mt.names (names.zip row) (List.replicate mt.names.length nullToken) := by
  have hlength : mt.names.length = mt.columns.length := List.length_map _
  unfold reorderedTokens assignAll assign
  rw [hlength]
  dsimp only
  congr 1
  funext tokens nv
  have hidx := mt.getColumnIdxByName_eq nv.1
  cases hfind : mt.getColumnIdxByName nv.1 with
  | none =>
    rw [hfind] at hidx
    simp only [← hidx]
  | some i =>
    rw [hfind] at hidx
    simp only [← hidx]

theorem reorderedTokens_none_nil :
    mt.reorderedTokens none [] = List.replicate mt.names.length nullToken := by
  have hlength : mt.names.length = mt.columns.length := List.length_map _
  unfold reorderedTokens
  rw [hlength, List.take_nil, List.nil_append, List.length_nil, Nat.sub_zero]

end MetaTable

/-- What each call of a loop returns, the loop returns for all. -/
theorem eq_map_of_mapM {ε α β : Type} {f : α → Except ε β} {g : α → β}
    (hf : ∀ a b, f a = .ok b → b = g a) {l : List α} {bs : List β} (h : l.mapM f = .ok bs) :
    bs = l.map g := by
  induction l generalizing bs with
  | nil => exact (Except.ok.inj h).symm
  | cons a l ih =>
    rw [List.mapM_cons] at h
    obtain ⟨b, hb, h⟩ := bind_eq_ok.mp h
    obtain ⟨rest, hrest, h⟩ := bind_eq_ok.mp h
    rw [← Except.ok.inj h, List.map_cons, hf a b hb, ih hrest]

/-- **The rows that are planned** for an `INSERT` become its tuples; without names there
are no values. -/
theorem Sql.InsertStatement.map_reorderedTokens {stmt : Sql.InsertStatement} {mt : MetaTable}
    {rows : List (List DataToken)}
    (hrows : stmt.values.mapM (fun values => values.mapM DataToken.ofSqlToken) = .ok rows)
    (hnil : stmt.columns = [] → ∀ values ∈ stmt.values, values = []) :
    rows.map (mt.reorderedTokens
        (if stmt.columns.isEmpty then none else some (stmt.columns.map SqlToken.value)))
      = stmt.tuples mt.names := by
  have hvalues : rows = stmt.values.map fun values => values.map literalValue :=
    eq_map_of_mapM (fun values _ => eq_map_of_mapM fun _ _ h => (literalValue_eq h).symm) hrows
  rw [hvalues, List.map_map]
  refine List.map_congr_left fun values hmem => ?_
  show mt.reorderedTokens _ (values.map literalValue) = _
  cases hcolumns : stmt.columns with
  | nil =>
    rw [hnil hcolumns values hmem]
    exact MetaTable.reorderedTokens_none_nil
  | cons column columns => exact MetaTable.reorderedTokens_some _ _

/-! ## `SET` -/

namespace StdDbInstance

open MetaTable

variable {mt : MetaTable}

/-- A column has one position, by its name and by its id. -/
theorem getColumnIdx_of_name (hnodup : (mt.columns.map MetaColumn.id).Nodup) {name : Bytes}
    {column : MetaColumn} (hcolumn : mt.getColumn name = .ok column) {i : ℕ}
    (hi : mt.getColumnIdx column.id = .ok i) : mt.getColumnIdxByName name = some i := by
  have hat : mt.columns[i]? = some column :=
    getElem?_of_getColumnIdx hnodup (mem_of_getColumn hcolumn) hi
  have hmem := mem_of_getColumn hcolumn
  cases hidx : mt.getColumnIdxByName name with
  | none =>
    unfold getColumnIdxByName at hidx
    unfold getColumn at hcolumn
    have hfind : mt.columns.find? (fun c => c.name == name) = none := by
      rw [List.find?_eq_none]
      exact fun c hc => by simpa using List.findIdx?_eq_none_iff.mp hidx c hc
    rw [hfind] at hcolumn
    cases hcolumn
  | some j =>
    obtain ⟨column', hj, hget⟩ := getColumn_of_getColumnIdxByName hidx
    obtain rfl := Except.ok.inj (hcolumn.symm.trans hget)
    -- the ids are distinct, so both positions are that of the column
    have hlt : i < mt.columns.length := (List.getElem?_eq_some_iff.mp hat).1
    have hids : (mt.columns.map MetaColumn.id)[i]? = (mt.columns.map MetaColumn.id)[j]? := by
      rw [List.getElem?_map, List.getElem?_map, hat, hj]
    rw [(List.getElem?_inj (by rwa [List.length_map]) hnodup).mp hids]

/-- **An assignment is made by name.** -/
theorem foldlM_planAssignment (hnodup : (mt.columns.map MetaColumn.id).Nodup) {e : Sql.ExprNode}
    {part : RowUpdate} (hpart : StdPlanner.planAssignment mt e = .ok part) {row : DataRow}
    {before after : List DataToken}
    (h : part.foldlM (assignToken mt row) before = .ok after) :
    after = assignAll mt.names e.assignment.toList before := by
  have hnone : part = [] → e.assignment = none → after = assignAll mt.names e.assignment.toList
      before := by
    intro hnil hassignment
    rw [hnil] at h
    rw [hassignment]
    exact (Except.ok.inj h).symm
  cases e with
  | identifier | columnIdentifier | literal | prefixExpr => cases hpart
  | binaryExpr op left right =>
    cases left with
    | identifier name =>
      cases right with
      | literal value =>
        obtain ⟨column, hcolumn, hpart⟩ := bind_eq_ok.mp hpart
        obtain ⟨token, htoken, hpart⟩ := bind_eq_ok.mp hpart
        obtain rfl := Except.ok.inj hpart
        rw [List.foldlM_cons] at h
        obtain ⟨tokens, hassign, h⟩ := bind_eq_ok.mp h
        obtain rfl := Except.ok.inj h
        obtain ⟨i, hi, hset⟩ := bind_eq_ok.mp hassign
        split_ifs at hset
        have hidx := getColumnIdx_of_name hnodup hcolumn hi
        rw [getColumnIdxByName_eq] at hidx
        show _ = assign mt.names before (name.value, Sql.literalValue value)
        unfold assign
        rw [hidx, Sql.literalValue_eq htoken]
        exact (Except.ok.inj hset).symm
      | _ => exact hnone (Except.ok.inj hpart).symm rfl
    | _ => exact hnone (Except.ok.inj hpart).symm rfl

/-- **The assignments of an `UPDATE`**, one after another. -/
theorem assignTokens_eq (hnodup : (mt.columns.map MetaColumn.id).Nodup)
    {assignments : List Sql.ExprNode} {parts : List RowUpdate}
    (hparts : assignments.mapM (StdPlanner.planAssignment mt) = .ok parts) {row : DataRow}
    {tokens : List DataToken} (h : assignTokens mt parts.flatten row = .ok tokens) :
    tokens = assignAll mt.names (assignments.filterMap Sql.ExprNode.assignment) row.tokens := by
  unfold assignTokens at h
  generalize row.tokens = before at h ⊢
  induction assignments generalizing parts before with
  | nil =>
    obtain rfl := Except.ok.inj hparts
    exact (Except.ok.inj h).symm
  | cons e assignments ih =>
    rw [List.mapM_cons] at hparts
    obtain ⟨part, hpart, hparts⟩ := bind_eq_ok.mp hparts
    obtain ⟨rest, hrest, hparts⟩ := bind_eq_ok.mp hparts
    obtain rfl := Except.ok.inj hparts
    rw [List.flatten_cons, List.foldlM_append] at h
    obtain ⟨between, hbetween, h⟩ := bind_eq_ok.mp h
    rw [ih hrest between h, foldlM_planAssignment hnodup hpart hbetween]
    unfold assignAll
    rw [← List.foldl_append]
    cases hassignment : e.assignment with
    | none => rw [List.filterMap_cons_none hassignment]; rfl
    | some a => rw [List.filterMap_cons_some hassignment]; rfl

end StdDbInstance

/-! ## Statements -/

/-- **The meaning of a statement** about a table, with the answer that it got. A
`SELECT` of some columns, or by an index, is not said to mean anything. -/
def Sql.Statement.meaning (mt : MetaTable) :
    Sql.Statement → Engine.Answer → Event TableId (List DataToken)
  | .insert stmt, _ => .change mt.id (.insert (stmt.tuples mt.names))
  | .update stmt, _ =>
    .change mt.id (.update (Sql.selects mt.names stmt.where_) (stmt.replace mt.names))
  | .delete stmt, _ => .change mt.id (.delete (Sql.selects mt.names stmt.where_))
  | .select stmt, .scanned rows =>
    if stmt.columns.isEmpty ∧ stmt.limit = none then
      .answer mt.id (Sql.selects mt.names stmt.where_) ↑(rows.map DataRow.tokens)
    else .silent
  | _, _ => .silent
