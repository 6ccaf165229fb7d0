import Deltabase.Executor.StreamedResult

/-!
# The rows of a projection

`Engine::execute_query` asks an executor for one row after another and passes
the same variable each time. A projection adds the tokens it selects to what
the variable holds, and nobody takes out what the row before has left there. So
the row it hands out for a row of its child holds the selected tokens of that
row and of all rows before it (`executeQuery_projection`).

The result is the projection of the child's rows exactly when the child has at
most one row or no column is selected.
-/

namespace NodeExecutor

open StdDbInstance

variable {table : MetaTable} {columns : List Bytes} {indices : List ℕ} {child : NodeExecutor}
variable {rounds : ℕ} {db : StdDbInstance} {row out : DataRow} {rows : List DataRow}

/-! ## What a child hands out -/

/-- **The rows an executor hands out** from a state on: it finds these and
then no more. -/
inductive HandsOut (child : NodeExecutor) (rounds : ℕ) :
    child.State → StdDbInstance → List DataRow → Prop where
  | done {s : child.State} {db : StdDbInstance} {out : DataRow} {s' : child.State}
      {db' : StdDbInstance} (hnext : child.next rounds s .blank db = .ok (false, out, s') db') :
      HandsOut child rounds s db []
  | row {s : child.State} {db : StdDbInstance} {row : DataRow} {s' : child.State}
      {db' : StdDbInstance} {rows : List DataRow}
      (hnext : child.next rounds s .blank db = .ok (true, row, s') db')
      (hrest : HandsOut child rounds s' db' rows) : HandsOut child rounds s db (row :: rows)

/-- A sequential scan hands out the rows before its cursor. -/
theorem handsOut_seqScan {tableName schemaName : Bytes} {m : ℕ} {cursor : ScanCursor}
    (hinit : cursor.initialized = true) (h : cursorRows db.page m cursor = some rows) :
    HandsOut (seqScan tableName schemaName) (m + 1) cursor db rows := by
  induction rows generalizing cursor db with
  | nil =>
    obtain ⟨r, db', hnext, -, -, hfound, -⟩ := (ensures_seqScanNextLoop h .blank).exists_ok
    have hnext' : (seqScan tableName schemaName).next (m + 1) cursor .blank db
        = .ok (false, r.2.1, r.2.2) db' := by
      show seqScanNext (m + 1) cursor .blank db = _
      rw [seqScanNext, if_pos hinit, hnext, ← hfound]
      rfl
    exact .done hnext'
  | cons row rows ih =>
    obtain ⟨r, db', hnext, hsame, hinit', hfound, hrow, hrest⟩ :=
      (ensures_seqScanNextLoop h .blank).exists_ok
    have hnext' : (seqScan tableName schemaName).next (m + 1) cursor .blank db
        = .ok (true, row, r.2.2) db' := by
      show seqScanNext (m + 1) cursor .blank db = _
      rw [seqScanNext, if_pos hinit, hnext, ← hfound, ← hrow]
      rfl
    exact .row hnext' (ih (hinit'.trans hinit) (hsame.page ▸ hrest))

/-- **A sequential scan that is opened** hands out the rows reached from the
first page of its table. -/
theorem exists_handsOut_seqScan {tableName schemaName : Bytes} {mt : MetaTable} {m : ℕ}
    (h : LooksUp db tableName schemaName mt)
    (hrows : scanRows db.page (m + 1) (db.scanStart mt) = some rows) :
    ∃ s db₁, (seqScan tableName schemaName).opened (seqScan tableName schemaName).init db
        = .ok s db₁
      ∧ HandsOut (seqScan tableName schemaName) (m + 1) s db₁ rows := by
  obtain ⟨db₁, hbegin, hsame⟩ := (readsAs_seqScanBegin h).eq_ok_iff.mp rfl
  refine ⟨⟨db.scanStart mt, 0, true⟩, db₁, run_bind_eq_ok.mpr ⟨_, db₁, hbegin, rfl⟩, ?_⟩
  refine handsOut_seqScan rfl ?_
  rw [cursorRows_start, hsame.page]
  exact hrows

/-! ## What a projection makes of them -/

/-- The tokens of a row that a projection selects. -/
def selectedTokens (indices : List ℕ) (row : DataRow) : List DataToken :=
  indices.filterMap (row.tokens[·]?)

/-- The variable after a row of the child. -/
def pushed (indices : List ℕ) (out row : DataRow) : DataRow :=
  { out with tokens := out.tokens ++ selectedTokens indices row }

/-- **The rows a projection hands out**, from what the variable holds on. -/
def accumulate (indices : List ℕ) : DataRow → List DataRow → List DataRow
  | _, [] => []
  | out, row :: rows => pushed indices out row :: accumulate indices (pushed indices out row) rows

/-- Without columns nothing is added. -/
theorem tokens_accumulate_nil (out : DataRow) (rows : List DataRow) :
    (accumulate [] out rows).map DataRow.tokens = rows.map fun _ => out.tokens := by
  induction rows generalizing out with
  | nil => rfl
  | cons row rows ih =>
    have htokens : (pushed [] out row).tokens = out.tokens := List.append_nil _
    show (pushed [] out row).tokens :: (accumulate [] (pushed [] out row) rows).map _ = _
    rw [ih, htokens]
    rfl

/-- The row has a token in each of these columns. -/
def HasTokens (indices : List ℕ) (row : DataRow) : Prop := ∀ i ∈ indices, i < row.tokens.length

theorem map_some_selectedTokens (h : HasTokens indices row) :
    (selectedTokens indices row).map some = indices.map (row.tokens[·]?) := by
  induction indices with
  | nil => rfl
  | cons i indices ih =>
    have hlt : i < row.tokens.length := h i List.mem_cons_self
    have hi : row.tokens[i]? = some row.tokens[i] := List.getElem?_eq_getElem hlt
    have hrest := ih fun j hj => h j (List.mem_cons_of_mem i hj)
    unfold selectedTokens at hrest ⊢
    rw [List.filterMap_cons_some hi, List.map_cons, List.map_cons, hrest, hi]

theorem length_selectedTokens (h : HasTokens indices row) :
    (selectedTokens indices row).length = indices.length := by
  rw [← List.length_map some, map_some_selectedTokens h, List.length_map]

/-- The loop of `next`. -/
theorem pushTokens_eq_ok (h : HasTokens indices row) (out : DataRow) :
    pushTokens row out indices = .ok (pushed indices out row) := by
  induction indices generalizing out with
  | nil =>
    show Except.ok out = .ok { out with tokens := out.tokens ++ [] }
    rw [List.append_nil]
  | cons i indices ih =>
    have hlt : i < row.tokens.length := h i List.mem_cons_self
    have hi : row.tokens[i]? = some row.tokens[i] := List.getElem?_eq_getElem hlt
    unfold pushTokens pushed selectedTokens
    rw [hi, List.filterMap_cons_some hi]
    show pushTokens row { out with tokens := out.tokens ++ _ } indices = _
    rw [ih fun j hj => h j (List.mem_cons_of_mem i hj)]
    unfold pushed selectedTokens
    rw [List.append_assoc, List.singleton_append]

/-- **Asking a projection until there is no row**: each row of the child adds
to the same variable. -/
theorem drain_projection (table : MetaTable) (columns : List Bytes) {s : child.State} {fuel : ℕ}
    (h : HandsOut child rounds s db rows)
    (htokens : ∀ row ∈ rows, HasTokens indices row) (hfuel : rows.length < fuel) (out : DataRow) :
    ∃ s' db', drain ((projection table columns child).next rounds) fuel (indices, s) out db
      = .ok (accumulate indices out rows, (indices, s')) db' := by
  induction h generalizing fuel out with
  | @done s db row s' db' hnext =>
    obtain ⟨fuel, rfl⟩ := Nat.exists_eq_succ_of_ne_zero (Nat.ne_of_gt (Nat.zero_lt_of_lt hfuel))
    refine ⟨s', db', run_bind_eq_ok.mpr ⟨(false, out, (indices, s')), db', ?_, rfl⟩⟩
    exact run_bind_eq_ok.mpr ⟨_, db', hnext, rfl⟩
  | @row s db row s₁ db₁ rows hnext hrest ih =>
    obtain ⟨fuel, rfl⟩ := Nat.exists_eq_succ_of_ne_zero (Nat.ne_of_gt (Nat.zero_lt_of_lt hfuel))
    have hpush := pushTokens_eq_ok (htokens row List.mem_cons_self) out
    obtain ⟨s', db', hdrain⟩ := ih (fun r hr => htokens r (List.mem_cons_of_mem row hr))
      (Nat.lt_of_succ_lt_succ hfuel) (pushed indices out row)
    refine ⟨s', db', run_bind_eq_ok.mpr
      ⟨(true, pushed indices out row, (indices, s₁)), db₁, ?_, ?_⟩⟩
    · refine run_bind_eq_ok.mpr ⟨_, db₁, hnext, ?_⟩
      exact run_bind_eq_ok.mpr ⟨_, db₁, run_liftExcept_eq_ok.mpr ⟨hpush, rfl⟩, rfl⟩
    · exact run_bind_eq_ok.mpr ⟨_, db', hdrain, rfl⟩

/-! ## The columns of a projection -/

/-- **The loop of `open`** finds the columns it is given. -/
theorem columnIndices_eq_ok (h : ∀ column ∈ columns, (table.getColumnIdxByName column).isSome) :
    columnIndices table columns = .ok (columns.filterMap table.getColumnIdxByName) := by
  induction columns with
  | nil => rfl
  | cons column columns ih =>
    obtain ⟨i, hi⟩ := Option.isSome_iff_exists.mp (h column List.mem_cons_self)
    unfold columnIndices
    rw [hi, List.filterMap_cons_some hi, ih fun c hc => h c (List.mem_cons_of_mem column hc)]
    rfl

/-- What the schema of a projection says of a column. -/
def columnAt (table : MetaTable) (colIdx : ℕ) : Bytes × DataType :=
  match table.columns[colIdx]? with
  | some column => (column.name, column.type)
  | none => ([], .undefined)

/-- The column at the index of a name has that name. -/
theorem fst_columnAt {column : Bytes} {i : ℕ} (h : table.getColumnIdxByName column = some i) :
    (columnAt table i).1 = column := by
  obtain ⟨hi, hname, -⟩ := List.findIdx?_eq_some_iff_getElem.mp h
  unfold columnAt
  rw [List.getElem?_eq_getElem hi]
  exact eq_of_beq hname

/-- These are indices of names. -/
def Named (table : MetaTable) (indices : List ℕ) : Prop :=
  ∀ i ∈ indices, ∃ column, table.getColumnIdxByName column = some i

theorem named_filterMap (table : MetaTable) (columns : List Bytes) :
    Named table (columns.filterMap table.getColumnIdxByName) := by
  intro i hi
  obtain ⟨column, -, hcolumn⟩ := List.mem_filterMap.mp hi
  exact ⟨column, hcolumn⟩

/-- The names of the schema have the indices that the projection selects. -/
theorem map_columnAt (h : Named table indices) :
    (indices.map (columnAt table)).map (fun column => table.getColumnIdxByName column.1)
      = indices.map some := by
  rw [List.map_map]
  refine List.map_congr_left fun i hi => ?_
  obtain ⟨column, hcolumn⟩ := h i hi
  show table.getColumnIdxByName (columnAt table i).1 = some i
  rw [fst_columnAt hcolumn, hcolumn]

/-- The names of the schema, before the indices are sorted, are the columns. -/
theorem map_fst_columnAt (h : ∀ column ∈ columns, (table.getColumnIdxByName column).isSome) :
    ((columns.filterMap table.getColumnIdxByName).map (columnAt table)).map Prod.fst = columns := by
  induction columns with
  | nil => rfl
  | cons column columns ih =>
    obtain ⟨i, hi⟩ := Option.isSome_iff_exists.mp (h column List.mem_cons_self)
    have hrest := ih fun c hc => h c (List.mem_cons_of_mem column hc)
    rw [List.filterMap_cons_some hi, List.map_cons, List.map_cons, hrest, fst_columnAt hi]

end NodeExecutor

namespace Engine

open NodeExecutor StdDbInstance

/-! ## The result of a query -/

section Results

variable {table : MetaTable} {columns : List Bytes} {child : NodeExecutor}
variable {rounds : ℕ} {db db₁ : StdDbInstance} {rows : List DataRow}

/-- The tokens that a row has in the columns of a schema. -/
def tokensIn (table : MetaTable) (schema : OutputSchema) (row : DataRow) :
    List (Option DataToken) :=
  schema.map fun column => (table.getColumnIdxByName column.1).bind (row.tokens[·]?)

/-- **The projection of some rows**: its schema has the selected columns, and it
has one row for each of them, in order, with exactly the tokens in the columns
of the schema. -/
def IsProjection (table : MetaTable) (columns : List Bytes) (rows result : List DataRow)
    (schema : OutputSchema) : Prop :=
  (schema.map Prod.fst).Perm columns
    ∧ result.map (fun row => row.tokens.map some) = rows.map (tokensIn table schema)

/-- The indices of the columns, in order. -/
def sortedIndices (table : MetaTable) (columns : List Bytes) : List ℕ :=
  (columns.filterMap table.getColumnIdxByName).mergeSort

theorem mem_sortedIndices {i : ℕ} :
    i ∈ sortedIndices table columns ↔ i ∈ columns.filterMap table.getColumnIdxByName :=
  (List.mergeSort_perm _ _).mem_iff

/-- A row with a token for each column of the table has the selected tokens. -/
theorem hasTokens_sortedIndices {row : DataRow} (h : table.columns.length ≤ row.tokens.length) :
    HasTokens (sortedIndices table columns) row := by
  intro i hi
  obtain ⟨column, hcolumn⟩ := named_filterMap table columns i (mem_sortedIndices.mp hi)
  obtain ⟨hlt, -⟩ := List.findIdx?_eq_some_iff_getElem.mp hcolumn
  exact Nat.lt_of_lt_of_le hlt h

/-- **What `execute_query` returns** for a projection. -/
theorem executeQuery_projection {s : child.State}
    (hcolumns : ∀ column ∈ columns, (table.getColumnIdxByName column).isSome)
    (hopen : child.opened child.init db = .ok s db₁) (hrows : HandsOut child rounds s db₁ rows)
    (htokens : ∀ row ∈ rows, table.columns.length ≤ row.tokens.length)
    (hrounds : rows.length < rounds) :
    ∃ db', executeQuery rounds (projection table columns child) false db
      = .ok (.materialized (accumulate (sortedIndices table columns) .blank rows)
          ((sortedIndices table columns).map (columnAt table)) 0) db' := by
  obtain ⟨s', db', hdrain⟩ := drain_projection table columns hrows
    (fun row hrow => hasTokens_sortedIndices (htokens row hrow)) hrounds .blank
  refine ⟨db', ?_⟩
  unfold executeQuery
  rw [if_neg Bool.false_ne_true]
  refine run_bind_eq_ok.mpr ⟨(sortedIndices table columns, s), db₁, ?_, ?_⟩
  · refine run_bind_eq_ok.mpr ⟨s, db₁, hopen, ?_⟩
    exact run_bind_eq_ok.mpr
      ⟨_, db₁, run_liftExcept_eq_ok.mpr ⟨columnIndices_eq_ok hcolumns, rfl⟩, rfl⟩
  · exact run_bind_eq_ok.mpr ⟨_, db', hdrain, rfl⟩

/-- The tokens in the columns of the schema are the selected ones. -/
theorem tokensIn_columnAt {row : DataRow} (h : table.columns.length ≤ row.tokens.length) :
    tokensIn table ((sortedIndices table columns).map (columnAt table)) row
      = (selectedTokens (sortedIndices table columns) row).map some := by
  have hnamed : Named table (sortedIndices table columns) := fun i hi =>
    named_filterMap table columns i (mem_sortedIndices.mp hi)
  calc tokensIn table ((sortedIndices table columns).map (columnAt table)) row
      = (((sortedIndices table columns).map (columnAt table)).map
          fun column => table.getColumnIdxByName column.1).map
          fun i => i.bind (row.tokens[·]?) := by
        rw [List.map_map]
        rfl
    _ = (sortedIndices table columns).map (row.tokens[·]?) := by
        rw [map_columnAt hnamed, List.map_map]
        rfl
    _ = (selectedTokens (sortedIndices table columns) row).map some :=
        (map_some_selectedTokens (hasTokens_sortedIndices h)).symm

/-- The schema has the selected columns. -/
theorem perm_schema (hcolumns : ∀ column ∈ columns, (table.getColumnIdxByName column).isSome) :
    (((sortedIndices table columns).map (columnAt table)).map Prod.fst).Perm columns := by
  have hperm : (sortedIndices table columns).Perm (columns.filterMap table.getColumnIdxByName) :=
    List.mergeSort_perm _ _
  exact ((hperm.map (columnAt table)).map Prod.fst).trans (.of_eq (map_fst_columnAt hcolumns))

/-- **What is accumulated is the projection** exactly when there is at most one
row or no column. -/
theorem isProjection_accumulate_iff
    (hcolumns : ∀ column ∈ columns, (table.getColumnIdxByName column).isSome)
    (htokens : ∀ row ∈ rows, table.columns.length ≤ row.tokens.length) :
    IsProjection table columns rows (accumulate (sortedIndices table columns) .blank rows)
        ((sortedIndices table columns).map (columnAt table))
      ↔ rows.length ≤ 1 ∨ columns = [] := by
  have hschema := perm_schema hcolumns
  match rows with
  | [] => exact ⟨fun _ => .inl (Nat.zero_le 1), fun _ => ⟨hschema, rfl⟩⟩
  | [row] =>
    refine ⟨fun _ => .inl (Nat.le_refl 1), fun _ => ⟨hschema, ?_⟩⟩
    show [(selectedTokens _ row).map some] = [tokensIn table _ row]
    rw [tokensIn_columnAt (htokens row List.mem_cons_self)]
  | first :: second :: rows =>
    have hsecond := htokens second (List.mem_cons_of_mem first List.mem_cons_self)
    constructor
    · -- the second row has the tokens of the first as well
      rintro ⟨-, hresult⟩
      have hheads := (List.cons.inj (List.cons.inj hresult).2).1
      have hlength := congrArg List.length hheads
      rw [tokensIn_columnAt hsecond, List.length_map, List.length_map] at hlength
      have hfirst : (selectedTokens (sortedIndices table columns) first).length = 0 := by
        have happend : (pushed (sortedIndices table columns)
            (pushed (sortedIndices table columns) .blank first) second).tokens.length
            = (selectedTokens (sortedIndices table columns) first).length
              + (selectedTokens (sortedIndices table columns) second).length := by
          show (([] ++ selectedTokens _ first) ++ selectedTokens _ second).length = _
          rw [List.nil_append, List.length_append]
        omega
      rw [length_selectedTokens (hasTokens_sortedIndices (htokens first List.mem_cons_self))]
        at hfirst
      have hcount := hschema.length_eq
      rw [List.length_map, List.length_map, hfirst] at hcount
      exact .inr (List.length_eq_zero_iff.mp hcount.symm)
    · rintro (hshort | rfl)
      · exact absurd hshort (by rw [List.length_cons, List.length_cons]; omega)
      · refine ⟨hschema, ?_⟩
        have hnone := congrArg (List.map (List.map some))
          (tokens_accumulate_nil .blank (first :: second :: rows))
        have hnil : sortedIndices table [] = [] := by
          unfold sortedIndices
          rw [List.filterMap_nil, List.mergeSort_nil]
        rw [List.map_map, List.map_map] at hnone
        rw [hnil]
        exact hnone

/-- **`execute_query` returns the projection** of the rows its child hands out
exactly when there is at most one row or no column is selected. -/
theorem executeQuery_isProjection_iff {s : child.State}
    (hcolumns : ∀ column ∈ columns, (table.getColumnIdxByName column).isSome)
    (hopen : child.opened child.init db = .ok s db₁) (hrows : HandsOut child rounds s db₁ rows)
    (htokens : ∀ row ∈ rows, table.columns.length ≤ row.tokens.length)
    (hrounds : rows.length < rounds) :
    (∃ result schema current db',
        executeQuery rounds (projection table columns child) false db
          = .ok (.materialized result schema current) db'
        ∧ IsProjection table columns rows result schema)
      ↔ rows.length ≤ 1 ∨ columns = [] := by
  obtain ⟨db₂, hquery⟩ := executeQuery_projection hcolumns hopen hrows htokens hrounds
  rw [← isProjection_accumulate_iff hcolumns htokens]
  constructor
  · rintro ⟨result, schema, current, db', heq, hresult⟩
    rw [hquery] at heq
    cases heq
    exact hresult
  · exact fun hresult => ⟨_, _, 0, db₂, hquery, hresult⟩

end Results

/-! ## A table with two columns -/

/-- A table with two columns. -/
def pairTable : MetaTable :=
  { id := 2, schemaId := 1, name := [112],
    columns := [{ id := 3, tableId := 2, name := [97], type := .integer },
      { id := 4, tableId := 2, name := [98], type := .integer }],
    lastRid := 2, totalRows := 2, liveRows := 2 }

/-- An instance with that table, whose rows are on one page. -/
def pairInstance (rows : List DataRow) : StdDbInstance where
  pool :=
    { dataPages := fun id => if id = 5 then
        some { value := { DataPage.make ([115], [112]) 2 5 with rows := rows } } else none
      dataPagesPerTable := fun id => if id = 2 then some [5] else none }
  catalog :=
    { schemas := [{ id := 1, name := [115], dbName := [100] }]
      tables := [pairTable]
      schemas_nodup := List.nodup_singleton _ }
  clock := 6

/-- A row of that table. -/
def pairRow (id : ℕ) (a b : UInt8) : DataRow :=
  { id := id, tokens := [⟨[a, 0, 0, 0], .integer⟩, ⟨[b, 0, 0, 0], .integer⟩] }

theorem looksUp_pairTable (rows : List DataRow) :
    LooksUp (pairInstance rows) [112] [115] pairTable :=
  ⟨{ id := 1, name := [115], dbName := [100] }, rfl, rfl⟩

/-- One row is handed out as it should be. -/
theorem executeQuery_isProjection_one : ∃ result schema current db',
    executeQuery 3 (projection pairTable [[98]] (seqScan [112] [115])) false
        (pairInstance [pairRow 0 7 8])
      = .ok (.materialized result schema current) db'
    ∧ IsProjection pairTable [[98]] [pairRow 0 7 8] result schema := by
  have hscan : scanRows (pairInstance [pairRow 0 7 8]).page 3
      ((pairInstance [pairRow 0 7 8]).scanStart pairTable) = some [pairRow 0 7 8] := by
    decide +kernel
  obtain ⟨s, db₁, hopen, hrows⟩ := exists_handsOut_seqScan (looksUp_pairTable _) hscan
  exact (executeQuery_isProjection_iff (by decide) hopen hrows (by decide) (by decide)).mpr
    (.inl (by decide))

/-- **The second row of a table** comes with the token of the first. -/
theorem not_executeQuery_isProjection :
    (∃ s db₁, (seqScan [112] [115]).opened (seqScan [112] [115]).init
          (pairInstance [pairRow 0 7 8, pairRow 1 9 10]) = .ok s db₁
        ∧ HandsOut (seqScan [112] [115]) 3 s db₁ [pairRow 0 7 8, pairRow 1 9 10])
      ∧ ¬ ∃ result schema current db',
        executeQuery 3 (projection pairTable [[98]] (seqScan [112] [115])) false
            (pairInstance [pairRow 0 7 8, pairRow 1 9 10])
          = .ok (.materialized result schema current) db'
        ∧ IsProjection pairTable [[98]] [pairRow 0 7 8, pairRow 1 9 10] result schema := by
  have hscan : scanRows (pairInstance [pairRow 0 7 8, pairRow 1 9 10]).page 3
      ((pairInstance [pairRow 0 7 8, pairRow 1 9 10]).scanStart pairTable)
      = some [pairRow 0 7 8, pairRow 1 9 10] := by
    decide +kernel
  have hcolumns : ∀ column ∈ [[98]], (pairTable.getColumnIdxByName column).isSome := by decide
  obtain ⟨s, db₁, hopen, hrows⟩ := exists_handsOut_seqScan (looksUp_pairTable _) hscan
  refine ⟨⟨s, db₁, hopen, hrows⟩, ?_⟩
  rintro ⟨result, schema, current, db', heq, hresult⟩
  obtain ⟨db₂, hquery⟩ := executeQuery_projection hcolumns hopen hrows (by decide) (by decide)
  rw [hquery] at heq
  cases heq
  rcases (isProjection_accumulate_iff hcolumns (by decide)).mp hresult with hshort | hnone
  · exact absurd hshort (by decide)
  · cases hnone

end Engine
