import Deltabase.Executor.StdPlanner

/-!
# The types of the values that a statement stores

A value is stored with the type of its literal, whatever the type of its column:
no conversion comes between the analyzer, which compares the two types, and the
storage. So the types of what a statement stores can be read off the statement.

Which types a column may hold is a parameter, a relation `R` between the type of a
value and that of its column; `NULL` is held by every column. With equality for
`R` the values have the types of their columns. What the analyzer sees to is less,
it is `Compatible` (`Accepts.matches_insert`, `Accepts.matches_update`).
-/

/-- **A column takes values of a type.** -/
def MetaColumn.Takes (R : DataType → DataType → Prop) (column : MetaColumn) (type : DataType) :
    Prop := type = .null ∨ R type column.type

namespace MetaTable

variable {R : DataType → DataType → Prop} {mt mt' : MetaTable}

/-- **The tokens of a row**: one for each column, of a type that it takes. -/
structure Holds (R : DataType → DataType → Prop) (mt : MetaTable) (tokens : List DataToken) :
    Prop where
  length : tokens.length = mt.columns.length
  takes : ∀ (i : ℕ) (column : MetaColumn) (token : DataToken), mt.columns[i]? = some column →
    tokens[i]? = some token → column.Takes R token.type

theorem Holds.congr {tokens : List DataToken} (h : mt.Holds R tokens)
    (hcolumns : mt'.columns = mt.columns) : mt'.Holds R tokens :=
  ⟨hcolumns ▸ h.length, hcolumns ▸ h.takes⟩

/-- A token is replaced by one that the column takes. -/
theorem Holds.set {tokens : List DataToken} (h : mt.Holds R tokens) {i : ℕ} {column : MetaColumn}
    {token : DataToken} (hcolumn : mt.columns[i]? = some column)
    (htakes : column.Takes R token.type) : mt.Holds R (tokens.set i token) where
  length := List.length_set.trans h.length
  takes j c t hc ht := by
    rw [List.getElem?_set] at ht
    split_ifs at ht with hij
    · rw [← hij, hcolumn] at hc
      rw [← Option.some.inj hc, ← Option.some.inj ht]
      exact htakes
    · exact h.takes j c t hc ht

/-- Every column takes `NULL`. -/
theorem holds_nulls (R : DataType → DataType → Prop) (mt : MetaTable) :
    mt.Holds R (List.replicate mt.columns.length nullToken) where
  length := List.length_replicate
  takes i column token _ htoken := by
    have hnull := List.eq_of_mem_replicate (List.mem_of_getElem? htoken)
    exact .inl (congrArg DataToken.type hnull)

/-! ## New rows -/

/-- The position and the column that are found by a name go together. -/
theorem getColumn_of_getColumnIdxByName {colName : Bytes} {i : ℕ}
    (h : mt.getColumnIdxByName colName = some i) :
    ∃ column, mt.columns[i]? = some column ∧ mt.getColumn colName = .ok column := by
  unfold getColumnIdxByName at h
  have hfind : mt.columns.find? (fun c => c.name == colName) = mt.columns[i]? := by
    rw [List.find?_eq_bind_findIdx?_getElem?, h]
    rfl
  obtain ⟨hlt, -⟩ := List.findIdx?_eq_some_iff_getElem.mp h
  have hcolumn : mt.columns[i]? = some mt.columns[i] := List.getElem?_eq_getElem hlt
  refine ⟨mt.columns[i], hcolumn, ?_⟩
  unfold getColumn
  rw [hfind, hcolumn]

/-- The columns of a table decide what a new row is. -/
theorem reorderedTokens_congr (hcolumns : mt'.columns = mt.columns) :
    mt'.reorderedTokens = mt.reorderedTokens := by
  funext cols row
  unfold reorderedTokens getColumnIdxByName
  rw [hcolumns]

/-- **A new row** whose values go with the columns they are named for. -/
theorem holds_reorderedTokens {names : List Bytes} {row : List DataToken}
    (h : ∀ (i : ℕ) name token (column : MetaColumn), names[i]? = some name → row[i]? = some token →
      mt.getColumn name = .ok column → column.Takes R token.type) :
    mt.Holds R (mt.reorderedTokens (some names) row) := by
  refine reorderedTokens_some_rec (holds_nulls R mt) fun tokens htokens p hp i hidx => ?_
  obtain ⟨column, hcolumn, hget⟩ := getColumn_of_getColumnIdxByName hidx
  obtain ⟨k, hk⟩ := List.getElem?_of_mem hp
  obtain ⟨hname, htoken⟩ := List.getElem?_zip_eq_some.mp hk
  exact htokens.set hcolumn (h k p.1 p.2 column hname htoken hget)

/-- A new row without values. -/
theorem holds_reorderedTokens_nil (R : DataType → DataType → Prop) (mt : MetaTable) :
    mt.Holds R (mt.reorderedTokens none []) := by
  rw [reorderedTokens, List.take_nil, List.nil_append, List.length_nil, Nat.sub_zero]
  exact holds_nulls R mt

/-! ## New versions of rows -/

/-- **An assignment of a value** that its column takes. -/
def Assigns (R : DataType → DataType → Prop) (mt : MetaTable) : Assignment → Prop
  | .literal columnId value => ∃ column ∈ mt.columns, column.id = columnId
      ∧ column.Takes R value.type
  | .column .. => False

theorem Assigns.congr {assignment : Assignment} (h : mt.Assigns R assignment)
    (hcolumns : mt'.columns = mt.columns) : mt'.Assigns R assignment := by
  cases assignment with
  | literal columnId value =>
    obtain ⟨column, hmem, hrest⟩ := h
    exact ⟨column, hcolumns ▸ hmem, hrest⟩
  | column => exact h.elim

/-- A column that is found by its name is one of the table. -/
theorem mem_of_getColumn {colName : Bytes} {column : MetaColumn}
    (h : mt.getColumn colName = .ok column) : column ∈ mt.columns := by
  unfold getColumn at h
  cases hfind : mt.columns.find? fun c => c.name == colName with
  | none =>
    rw [hfind] at h
    cases h
  | some c =>
    rw [hfind] at h
    exact Except.ok.inj h ▸ List.mem_of_find?_eq_some hfind

/-- A column is where its id is found. -/
theorem getElem?_of_getColumnIdx (hnodup : (mt.columns.map MetaColumn.id).Nodup)
    {column : MetaColumn} (hmem : column ∈ mt.columns) {i : ℕ}
    (h : mt.getColumnIdx column.id = .ok i) : mt.columns[i]? = some column := by
  unfold getColumnIdx at h
  cases hidx : mt.columns.findIdx? fun c => c.id == column.id with
  | none =>
    rw [hidx] at h
    cases h
  | some j =>
    rw [hidx] at h
    obtain rfl := Except.ok.inj h
    obtain ⟨hlt, hid, -⟩ := List.findIdx?_eq_some_iff_getElem.mp hidx
    have heq : mt.columns[j] = column :=
      List.inj_on_of_nodup_map hnodup (List.getElem_mem hlt) hmem (beq_iff_eq.mp hid)
    rw [List.getElem?_eq_getElem hlt, heq]

/-- **The new version of a row.** -/
theorem holds_assignTokens (hnodup : (mt.columns.map MetaColumn.id).Nodup) {update : RowUpdate}
    (hupdate : ∀ assignment ∈ update, mt.Assigns R assignment) {row : DataRow}
    (hrow : mt.Holds R row.tokens) {tokens : List DataToken}
    (h : StdDbInstance.assignTokens mt update row = .ok tokens) : mt.Holds R tokens := by
  have hfold : ∀ (update : RowUpdate) (before : List DataToken),
      (∀ assignment ∈ update, mt.Assigns R assignment) → mt.Holds R before →
      update.foldlM (StdDbInstance.assignToken mt row) before = .ok tokens →
      mt.Holds R tokens := by
    intro update
    induction update with
    | nil => exact fun before _ hbefore hfold => Except.ok.inj hfold ▸ hbefore
    | cons assignment update ih =>
      intro before hassigns hbefore hfold
      rw [List.foldlM_cons] at hfold
      obtain ⟨after, hafter, hrest⟩ := bind_eq_ok.mp hfold
      refine ih after (fun a ha => hassigns a (List.mem_cons_of_mem _ ha)) ?_ hrest
      have hassign := hassigns assignment List.mem_cons_self
      cases assignment with
      | column => exact hassign.elim
      | literal columnId value =>
        obtain ⟨column, hmem, rfl, htakes⟩ := hassign
        obtain ⟨i, hi, hset⟩ := bind_eq_ok.mp hafter
        split_ifs at hset
        exact Except.ok.inj hset ▸ hbefore.set (getElem?_of_getColumnIdx hnodup hmem hi) htakes
  exact hfold update row.tokens hupdate hrow h

end MetaTable

/-! ## Statements -/

namespace Sql

open SqlLiteral

/-- **The values of an `INSERT`** are of types that their columns take. -/
def InsertStatement.Matches (R : DataType → DataType → Prop) (stmt : InsertStatement)
    (mt : MetaTable) : Prop :=
  ∀ values ∈ stmt.values, ∀ (i : ℕ) value name (column : MetaColumn) literal,
    values[i]? = some value →
    stmt.columns[i]? = some name → mt.getColumn name.value = .ok column →
    value.detail = .literal literal → column.Takes R (dataType literal)

/-- **The values of an `UPDATE`** are of types that their columns take. -/
def UpdateStatement.Matches (R : DataType → DataType → Prop) (stmt : UpdateStatement)
    (mt : MetaTable) : Prop :=
  ∀ op name value (column : MetaColumn) literal,
    .binaryExpr op (.identifier name) (.literal value) ∈ stmt.assignments →
    mt.getColumn name.value = .ok column → value.detail = .literal literal →
    column.Takes R (dataType literal)

end Sql

namespace SemanticAnalyzer

open AnalysisResult StdDbInstance

variable {R : DataType → DataType → Prop}

/-- The types that the table of the analyzer lets through. -/
def Compatible (type columnType : DataType) : Prop := type ∈ compatTable columnType

theorem isCompatible_iff {literal : SqlLiteral} {column : MetaColumn} :
    isCompatible literal column.type = true ↔ column.Takes Compatible literal.dataType := by
  unfold isCompatible MetaColumn.Takes Compatible
  rw [Bool.or_eq_true, beq_iff_eq, List.contains_iff_mem]
  refine or_congr_left ⟨fun h => by rw [h]; rfl, fun h => ?_⟩
  cases literal with
  | null => rfl
  | _ => cases h

/-! ## What is accepted -/

/-- The names of columns that pass are those of columns. -/
theorem passes_analyzeColumns {mt : MetaTable} {columns : List SqlToken} :
    Passes (analyzeColumns mt columns) ↔ ∀ col ∈ columns, mt.hasColumn col.value = true := by
  unfold analyzeColumns
  rw [passes_firstInvalid]
  refine forall₂_congr fun col _ => ?_
  rw [passes_ok]
  cases mt.hasColumn col.value with
  | true => exact iff_of_true rfl rfl
  | false => exact iff_of_false Bool.false_ne_true Bool.false_ne_true

/-- The verdict on a literal that is meant for a column. -/
theorem passes_verdict {x : Except Exn MetaColumn} {literal : SqlLiteral}
    (what : DataType → Bytes) :
    Passes (x >>= fun column =>
        if isCompatible literal column.type then pure valid else pure (invalid (what column.type)))
      ↔ ∃ column, x = .ok column ∧ column.Takes Compatible literal.dataType := by
  rw [passes_bind]
  refine exists_congr fun column => and_congr_right fun _ => ?_
  rw [← isCompatible_iff]
  cases isCompatible literal column.type with
  | true => exact iff_of_true (passes_ok.mpr rfl) rfl
  | false =>
    exact iff_of_false (fun h => Bool.false_ne_true (passes_ok.mp h)) Bool.false_ne_true

/-- A value that passes is a literal of a type that its column is compatible
with. -/
theorem Passes.value {mt : MetaTable} {columns : List SqlToken} {value : SqlToken} {i : ℕ}
    (h : Passes (analyzeValue mt columns (value, i))) :
    ∃ literal name, value.detail = .literal literal ∧ columns[i]? = some name
      ∧ ∀ column, mt.getColumn name.value = .ok column →
        column.Takes Compatible literal.dataType := by
  unfold analyzeValue at h
  cases hdetail : value.detail with
  | literal literal =>
    simp only [hdetail] at h
    cases hname : columns[i]? with
    | none =>
      rw [hname] at h
      exact absurd h (not_passes_error _)
    | some name =>
      refine ⟨literal, name, rfl, rfl, fun column hcolumn => ?_⟩
      have hthere : mt.hasColumn name.value = true := MetaTable.hasColumn_iff.mpr ⟨column, hcolumn⟩
      simp only [hname, hthere, Bool.not_true, Bool.false_eq_true, if_false] at h
      obtain ⟨column', hcolumn', htakes⟩ := (passes_verdict (incompatibleTypes literal)).mp h
      obtain rfl := Except.ok.inj (hcolumn.symm.trans hcolumn')
      exact htakes
  | _ =>
    simp only [hdetail] at h
    exact absurd (passes_ok.mp h) Bool.false_ne_true

/-- **An assignment that passes** assigns a literal to a column that is compatible
with its type. -/
theorem Passes.assignment {mt : MetaTable} {e : Sql.ExprNode}
    (h : Passes (analyzeColumnAssignment mt e)) :
    ∃ name value column literal, e = .binaryExpr .assign (.identifier name) (.literal value)
      ∧ mt.getColumn name.value = .ok column ∧ value.detail = .literal literal
      ∧ column.Takes Compatible literal.dataType := by
  cases e with
  | identifier | columnIdentifier | literal => exact absurd h (not_passes_error _)
  | prefixExpr op right =>
    rw [analyzeColumnAssignment] at h
    split_ifs at h
    · exact absurd (passes_ok.mp h) Bool.false_ne_true
    · exact absurd h (not_passes_error _)
  | binaryExpr op left right =>
    unfold analyzeColumnAssignment at h
    dsimp only at h
    split_ifs at h with hop
    · exact absurd (passes_ok.mp h) Bool.false_ne_true
    · obtain rfl := not_not.mp hop
      cases left with
      | identifier name =>
        cases right with
        | literal value =>
          dsimp only at h
          split_ifs at h with hthere
          · exact absurd (passes_ok.mp h) Bool.false_ne_true
          · cases hdetail : value.detail with
            | literal literal =>
              simp only [hdetail] at h
              obtain ⟨column, hcolumn, htakes⟩ := (passes_verdict fun _ => _).mp h
              exact ⟨name, value, column, literal, rfl, hcolumn, hdetail, htakes⟩
            | _ =>
              simp only [hdetail] at h
              obtain ⟨_, _, h⟩ := passes_bind.mp h
              exact absurd h (not_passes_error _)
        | _ => exact absurd (passes_ok.mp h) Bool.false_ne_true
      | _ => exact absurd (passes_ok.mp h) Bool.false_ne_true

/-- **An `INSERT` that is accepted.** -/
theorem accepts_insert_iff {analyzer : SemanticAnalyzer} {stmt : Sql.InsertStatement} :
    analyzer.Accepts (.insert stmt) ↔ stmt.table.tableName.value ≠ [] ∧
      ∃ mt, analyzer.getTable stmt.table = some mt
        ∧ (∀ col ∈ stmt.columns, mt.hasColumn col.value = true)
        ∧ ∀ values ∈ stmt.values, ∀ p ∈ values.zipIdx, Passes (analyzeValue mt stmt.columns p) := by
  show Passes (analyzer.analyzeInsert stmt) ↔ _
  unfold analyzeInsert
  cases hname : stmt.table.tableName.value with
  | nil => exact iff_of_false (by simp) fun h => h.1 rfl
  | cons c name =>
    rw [if_neg (by simp)]
    cases htable : analyzer.getTable stmt.table with
    | none => exact iff_of_false (by simp) fun ⟨_, _, h, _⟩ => nomatch h
    | some mt =>
      show Passes (analyzeColumns mt stmt.columns >>= fun columns =>
        if !columns.isValid then pure columns else analyzeValues mt stmt.columns stmt.values) ↔ _
      rw [passes_then, passes_analyzeColumns]
      unfold analyzeValues
      simp only [passes_firstInvalid]
      exact ⟨fun h => ⟨List.cons_ne_nil _ _, mt, rfl, h⟩,
        fun ⟨_, mt', hmt', h⟩ => Option.some.inj hmt' ▸ h⟩

/-- **An `UPDATE` that is accepted.** -/
theorem accepts_update_iff {analyzer : SemanticAnalyzer} {stmt : Sql.UpdateStatement} :
    analyzer.Accepts (.update stmt) ↔ stmt.table.tableName.value ≠ [] ∧ stmt.assignments ≠ [] ∧
      ∃ mt, analyzer.getTable stmt.table = some mt
        ∧ (∀ e ∈ stmt.assignments, Passes (analyzeColumnAssignment mt e))
        ∧ Passes (analyzeCondition mt stmt.where_) := by
  show Passes (analyzer.analyzeUpdate stmt) ↔ _
  unfold analyzeUpdate
  cases hname : stmt.table.tableName.value with
  | nil => exact iff_of_false (by simp) fun h => h.1 rfl
  | cons c name =>
    rw [if_neg (by simp)]
    cases hassignments : stmt.assignments with
    | nil => exact iff_of_false (by simp) fun h => h.2.1 rfl
    | cons e rest =>
      rw [if_neg (by simp)]
      cases htable : analyzer.getTable stmt.table with
      | none => exact iff_of_false (by simp) fun ⟨_, _, _, h, _⟩ => nomatch h
      | some mt =>
        show Passes (firstInvalid (analyzeColumnAssignment mt) (e :: rest) >>= fun assignments =>
          if !assignments.isValid then pure assignments else analyzeCondition mt stmt.where_) ↔ _
        rw [passes_then, passes_firstInvalid]
        exact ⟨fun h => ⟨List.cons_ne_nil _ _, List.cons_ne_nil _ _, mt, rfl, h⟩,
          fun ⟨_, _, mt', hmt', h⟩ => Option.some.inj hmt' ▸ h⟩

/-- **What the analyzer sees to**: the values of an `INSERT` are of types that are
compatible with those of their columns. -/
theorem Accepts.matches_insert {analyzer : SemanticAnalyzer} {stmt : Sql.InsertStatement}
    {mt : MetaTable} (h : analyzer.Accepts (.insert stmt))
    (htable : analyzer.getTable stmt.table = some mt) : stmt.Matches Compatible mt := by
  obtain ⟨-, mt', htable', -, hvalues⟩ := accepts_insert_iff.mp h
  obtain rfl := Option.some.inj (htable.symm.trans htable')
  intro values hmem i value name column literal hvalue hname hcolumn hdetail
  obtain ⟨literal', name', hdetail', hname', htakes⟩ :=
    (hvalues values hmem _ (List.mk_mem_zipIdx_iff_getElem?.mpr hvalue)).value
  obtain rfl := SqlTokenDetail.literal.inj (hdetail.symm.trans hdetail')
  obtain rfl := Option.some.inj (hname.symm.trans hname')
  exact htakes column hcolumn

/-- So are those of an `UPDATE`. -/
theorem Accepts.matches_update {analyzer : SemanticAnalyzer} {stmt : Sql.UpdateStatement}
    {mt : MetaTable} (h : analyzer.Accepts (.update stmt))
    (htable : analyzer.getTable stmt.table = some mt) : stmt.Matches Compatible mt := by
  obtain ⟨-, -, mt', htable', hassignments, -⟩ := accepts_update_iff.mp h
  obtain rfl := Option.some.inj (htable.symm.trans htable')
  intro op name value column literal hmem hcolumn hdetail
  obtain ⟨name', value', column', literal', heq, hcolumn', hdetail', htakes⟩ :=
    (hassignments _ hmem).assignment
  cases heq
  obtain rfl := Except.ok.inj (hcolumn.symm.trans hcolumn')
  obtain rfl := SqlTokenDetail.literal.inj (hdetail.symm.trans hdetail')
  exact htakes

end SemanticAnalyzer

/-! ## What is planned -/

namespace DataToken

/-- A data token is made of a literal, whose type it has. -/
theorem exists_literal_of_ofSqlToken {sqlToken : SqlToken} {token : DataToken}
    (h : ofSqlToken sqlToken = .ok token) :
    ∃ literal, sqlToken.detail = .literal literal ∧ token.type = literal.dataType := by
  unfold ofSqlToken at h
  cases hdetail : sqlToken.detail with
  | literal literal =>
    rw [hdetail] at h
    exact ⟨literal, rfl, type_ofLiteral h⟩
  | _ =>
    rw [hdetail] at h
    cases h

end DataToken

namespace EngineSetup

open SemanticAnalyzer

variable {R : DataType → DataType → Prop} {setup : EngineSetup} {db : StdDbInstance}

/-- **The rows that an `INSERT` makes** hold values of types that the columns
take. -/
theorem holds_of_planInsert {stmt : Sql.InsertStatement} {plan : Sql.PlanNode}
    {rows : Except Exn (List DataRow)} {st : Statement} {mt : MetaTable}
    (haccepts : (setup.analyzer db).Accepts (.insert stmt))
    (htable : (setup.analyzer db).getTable stmt.table = some mt) (hmatches : stmt.Matches R mt)
    (hplan : (setup.planner db).planInsert stmt = .ok plan)
    (hst : Statement.ofPlan rows plan = some st) :
    ∃ cols tokens, st = .insert stmt.table.tableName.value
        (stmt.table.schema setup.defaultSchema) cols tokens
      ∧ ∀ row ∈ tokens, mt.Holds R (mt.reorderedTokens cols row) := by
  obtain ⟨-, mt', htable', -, hvalues⟩ := accepts_insert_iff.mp haccepts
  obtain rfl := Option.some.inj (htable.symm.trans htable')
  obtain ⟨tokens, htokens, hpure⟩ := bind_eq_ok.mp hplan
  obtain rfl := Except.ok.inj hpure
  obtain rfl := Option.some.inj hst
  refine ⟨_, tokens, rfl, fun row hrow => ?_⟩
  obtain ⟨values, hmem, hvals⟩ := exists_of_mem_mapM htokens hrow
  have hrowTakes : ∀ (i : ℕ) name token column, stmt.columns[i]? = some name →
      row[i]? = some token →
      mt.getColumn name.value = .ok column → column.Takes R token.type := by
    intro i name token column hname htoken hcolumn
    obtain ⟨value, hvalue, hof⟩ := getElem?_of_mapM hvals htoken
    obtain ⟨literal, hdetail, htype⟩ := DataToken.exists_literal_of_ofSqlToken hof
    rw [htype]
    exact hmatches values hmem i value name column literal hvalue hname hcolumn hdetail
  cases hcolumns : stmt.columns with
  | nil =>
    -- without columns, no value passes
    have hnil : row = [] := by
      refine List.eq_nil_iff_forall_not_mem.mpr fun token htoken => ?_
      obtain ⟨i, hi⟩ := List.getElem?_of_mem htoken
      obtain ⟨value, hvalue, -⟩ := getElem?_of_mapM hvals hi
      obtain ⟨literal, name, -, hname, -⟩ :=
        (hvalues values hmem _ (List.mk_mem_zipIdx_iff_getElem?.mpr hvalue)).value
      rw [hcolumns] at hname
      cases hname
    rw [hnil]
    exact MetaTable.holds_reorderedTokens_nil R mt
  | cons col columns =>
    refine MetaTable.holds_reorderedTokens fun i name token column hname htoken hcolumn => ?_
    rw [← hcolumns, List.getElem?_map] at hname
    obtain ⟨sqlName, hsqlName, rfl⟩ := Option.map_eq_some_iff.mp hname
    exact hrowTakes i sqlName token column hsqlName htoken hcolumn

/-- What is planned is the assignment of a literal to a column. -/
theorem planned_assignment {mt : MetaTable} {e : Sql.ExprNode} {part : RowUpdate}
    (h : StdPlanner.planAssignment mt e = .ok part) {assignment : Assignment}
    (hmem : assignment ∈ part) :
    ∃ op name value column token, e = .binaryExpr op (.identifier name) (.literal value)
      ∧ mt.getColumn name.value = .ok column ∧ DataToken.ofSqlToken value = .ok token
      ∧ assignment = .literal column.id token := by
  have hnone : part = [] → False := fun hpart => List.not_mem_nil (hpart ▸ hmem)
  cases e with
  | identifier | columnIdentifier | literal | prefixExpr => cases h
  | binaryExpr op left right =>
    cases left with
    | identifier name =>
      cases right with
      | literal value =>
        obtain ⟨column, hcolumn, hrest⟩ := bind_eq_ok.mp h
        obtain ⟨token, htoken, hpure⟩ := bind_eq_ok.mp hrest
        obtain rfl := Except.ok.inj hpure
        exact ⟨op, name, value, column, token, rfl, hcolumn, htoken, List.mem_singleton.mp hmem⟩
      | _ => exact (hnone (Except.ok.inj h).symm).elim
    | _ => exact (hnone (Except.ok.inj h).symm).elim

/-- **The assignments of an `UPDATE`** assign values of types that the columns
take. -/
theorem assigns_of_planUpdate {stmt : Sql.UpdateStatement} {plan : Sql.PlanNode}
    {rows : Except Exn (List DataRow)} {st : Statement} {mt : MetaTable}
    (htable : (setup.analyzer db).getTable stmt.table = some mt) (hmatches : stmt.Matches R mt)
    (hplan : (setup.planner db).planUpdate stmt = .ok plan)
    (hst : Statement.ofPlan rows plan = some st) :
    ∃ update, st = .update stmt.table.tableName.value
        (stmt.table.schema setup.defaultSchema) update rows
      ∧ ∀ assignment ∈ update, mt.Assigns R assignment := by
  obtain ⟨mt', hmt', hplan₁⟩ := bind_eq_ok.mp hplan
  have hderef : (setup.planner db).derefTable stmt.table = .ok mt := by
    unfold StdPlanner.derefTable
    rw [show (setup.planner db).db.findNamed (setup.planner db).defaultSchema stmt.table = some mt
      from htable]
  obtain rfl := Except.ok.inj (hderef.symm.trans hmt')
  obtain ⟨assignments, hassignments, hplan₂⟩ := bind_eq_ok.mp hplan₁
  obtain ⟨root, hroot, hpure⟩ := bind_eq_ok.mp hplan₂
  obtain rfl := Except.ok.inj hpure
  obtain rfl := Option.some.inj hst
  refine ⟨assignments.flatten, rfl, fun assignment hassignment => ?_⟩
  obtain ⟨part, hpart, hin⟩ := List.mem_flatten.mp hassignment
  obtain ⟨e, he, hof⟩ := exists_of_mem_mapM hassignments hpart
  obtain ⟨op, name, value, column, token, rfl, hcolumn, htoken, rfl⟩ := planned_assignment hof hin
  obtain ⟨literal, hdetail, htype⟩ := DataToken.exists_literal_of_ofSqlToken htoken
  refine ⟨column, MetaTable.mem_of_getColumn hcolumn, rfl, ?_⟩
  rw [htype]
  exact hmatches op name value column literal he hcolumn hdetail

end EngineSetup
