import Deltabase.Storage.RowOperations
import Deltabase.Types.SqlLiteral
import Deltabase.Types.SqlStatement

/-!
# Scanning an index

`StdDbInstance::index_scan` goes through all leaves of the tree, looks up the
row each entry points to, and keeps the rows that are not obsolete and satisfy
the condition. The condition is taken as it was parsed, and the data token of a
literal is made anew for each row. For a condition `column = literal` there is a
shorter way, but it is taken for a `COLUMN_IDENTIFIER` only, which the parser does
not put into a condition.
-/

namespace StdDbInstance

open BufferPool BPIndexPager IndexBPlusTree

variable (mt : MetaTable) (condition : Sql.ExprNode)

/-- `value_of_node`. -/
def valueOfNode (row : DataRow) : Sql.ExprNode → Except Exn DataToken
  | .identifier col =>
    match mt.getColumnIdxByName col.value with
    | none => .error (.runtimeError "StdDbInstance::index_scan: column not found")
    | some colIdx =>
      match row.tokens[colIdx]? with
      | some token => .ok token
      | none => .error .outOfRange
  | .literal token => DataToken.ofSqlToken token
  | _ => .error (.runtimeError "StdDbInstance::index_scan: unsupported condition node")

/-- `matches_condition`. -/
def matchesCondition (row : DataRow) : Sql.ExprNode → Except Exn Bool
  | .binaryExpr op left right => do
    let left ← valueOfNode mt row left
    let right ← valueOfNode mt row right
    match op.compare with
    | some compare => pure (compare left right)
    | none => .error (.runtimeError "StdDbInstance::index_scan: unsupported condition op")
  | .prefixExpr .. => .error .nullDereference
  | _ => .error .badVariantAccess

/-- `append_row_by_ptr`; `rows` are the rows of the result so far. -/
def appendRowByPtr (rows : List DataRow) (rowPtr : RowPtr) : Prog (List DataRow) := do
  match ← getDp rowPtr.1 with
  | none => pure rows
  | some page =>
    match page.rows.find? fun row => row.id = rowPtr.2 with
    | none => pure rows
    | some row =>
      if row.obsolete then pure rows
      else
        let matched ← liftExcept (matchesCondition mt row condition)
        pure (if matched then rows ++ [row] else rows)

/-- `is_eq_for_indexed_column` of a `COLUMN_IDENTIFIER` and a `LITERAL`. -/
def isEqForIndexedColumn (metaIndex : MetaIndex) (columnToken : SqlToken) : Bool :=
  match mt.getColumnIdxByName columnToken.value with
  | none => false
  | some colIdx => (mt.columns[colIdx]?).map MetaColumn.id == some metaIndex.columnId

/-- The branches for equality with the indexed column: the literal to look
for. -/
def eqKey (metaIndex : MetaIndex) : Sql.ExprNode → Except Exn (Option SqlToken)
  | .binaryExpr .eq (.columnIdentifier column) (.literal value) =>
    .ok (if isEqForIndexedColumn mt metaIndex column then some value else none)
  | .binaryExpr .eq (.literal value) (.columnIdentifier column) =>
    .ok (if isEqForIndexedColumn mt metaIndex column then some value else none)
  | .prefixExpr .eq _ => .error .nullDereference
  | _ => .ok none

/-- The loop of `index_scan` along the leaves. A loop that goes through more
leaves than the file has pages never ends. -/
def leafScanLoop (indexId : IndexId) : ℕ → ℕ → List DataRow → Prog (List DataRow)
  | 0, _, _ => throw .divergence
  | rounds + 1, cur, rows => do
    let file ← fileOrThrow mt.id indexId
    let page ← liftExcept (deref file cur)
    let leaf ← liftExcept page.data.getLeaf
    let rows ← leaf.rows.foldlM (appendRowByPtr mt condition) rows
    if leaf.nextLeaf = 0 then pure rows
    else
      let file ← fileOrThrow mt.id indexId
      let cur ← liftExcept
        (getPageOrThrow file leaf.nextLeaf "StdDbInstance::index_scan: broken leaf chain")
      leafScanLoop indexId rounds cur rows

/-- The part of `index_scan` that goes through the tree. -/
def leafScan (indexId : IndexId) : Prog (List DataRow) := do
  let file ← fileOrThrow mt.id indexId
  match getPage file file.rootPage with
  | none => pure []
  | some cur =>
    match ← liftExcept (leftmostLeafLoop file (file.pages.length + 1) cur) with
    | none => pure []
    | some cur => leafScanLoop mt condition indexId (file.pages.length + 1) cur []

/-- `index_scan`: the rows of the table it returns. -/
def indexScan (tableName schemaName : Bytes) (indexId : IndexId) (condition : Sql.ExprNode) :
    Prog (List DataRow) := do
  let mt ← getTable tableName schemaName
  match mt.indexes.find? fun index => index.id = indexId with
  | none => throw (.runtimeError "StdDbInstance::index_scan: index is not part of table")
  | some metaIndex =>
    match ← liftExcept (eqKey mt metaIndex condition) with
    | some literal =>
      let key ← liftExcept (DataToken.ofSqlToken literal)
      match ← treeFind mt.id indexId key with
      | some rowPtr => appendRowByPtr mt condition [] rowPtr
      | none => pure []
    | none => leafScan mt condition indexId

/-! ## The rows a scan finds -/

section Found

variable (pageRows : DataPageId → List DataRow)

/-- What `append_row_by_ptr` makes of an entry, given the rows of the pages. -/
def pickRow (rows : List DataRow) (rowPtr : RowPtr) : Except Exn (List DataRow) :=
  match (pageRows rowPtr.1).find? fun row => row.id = rowPtr.2 with
  | none => .ok rows
  | some row =>
    if row.obsolete then .ok rows
    else do
      let matched ← matchesCondition mt row condition
      pure (if matched then rows ++ [row] else rows)

/-- What the loop along the leaves finds. -/
def leafRowsLoop (file : IndexFile) : ℕ → ℕ → List DataRow → Except Exn (List DataRow)
  | 0, _, _ => .error .divergence
  | rounds + 1, cur, rows => do
    let page ← deref file cur
    let leaf ← page.data.getLeaf
    let rows ← leaf.rows.foldlM (pickRow mt condition pageRows) rows
    if leaf.nextLeaf = 0 then pure rows
    else
      let cur ← getPageOrThrow file leaf.nextLeaf "StdDbInstance::index_scan: broken leaf chain"
      leafRowsLoop file rounds cur rows

/-- The rows the entries of an index file lead to. -/
def leafRows (file : IndexFile) : Except Exn (List DataRow) :=
  match getPage file file.rootPage with
  | none => .ok []
  | some cur => do
    match ← leftmostLeafLoop file (file.pages.length + 1) cur with
    | none => pure []
    | some cur => leafRowsLoop mt condition pageRows file (file.pages.length + 1) cur []

end Found

/-- **The rows an index scan of a table finds**, given the pages and files that
are seen. -/
def indexRows (db : StdDbInstance) (indexId : IndexId) : Except Exn (List DataRow) :=
  match mt.indexes.find? fun index => index.id = indexId with
  | none => .error (.runtimeError "StdDbInstance::index_scan: index is not part of table")
  | some metaIndex => do
    match ← eqKey mt metaIndex condition with
    | some literal =>
      let key ← DataToken.ofSqlToken literal
      let file ← db.listedFile mt.id indexId
      match ← IndexBPlusTree.find file key with
      | some rowPtr => pickRow mt condition db.pageRows [] rowPtr
      | none => pure []
    | none =>
      let file ← db.listedFile mt.id indexId
      leafRows mt condition db.pageRows file

section Reads

variable {mt condition} {db db' : StdDbInstance}

theorem readsAs_appendRowByPtr (rows : List DataRow) (rowPtr : RowPtr) (db : StdDbInstance) :
    ReadsAs (appendRowByPtr mt condition rows rowPtr) db
      (pickRow mt condition db.pageRows rows rowPtr) := by
  unfold appendRowByPtr pickRow pageRows
  refine (readsAs_getDp rowPtr.1 db).bind_ok fun db₁ _ => ?_
  cases db.page rowPtr.1 with
  | none => exact readsAs_pure rows db₁
  | some page =>
    show ReadsAs (match page.rows.find? fun row => row.id = rowPtr.2 with
      | none => pure rows
      | some row => _) db₁ (match page.rows.find? fun row => row.id = rowPtr.2 with
      | none => .ok rows
      | some row => _)
    cases page.rows.find? fun row => row.id = rowPtr.2 with
    | none => exact readsAs_pure rows db₁
    | some row =>
      show ReadsAs (if row.obsolete then _ else _) db₁ (if row.obsolete then _ else _)
      split_ifs
      · exact readsAs_pure rows db₁
      · exact (readsAs_liftExcept _ db₁).bind fun matched db₂ _ => readsAs_pure _ db₂

theorem readsAs_leafScanLoop {indexId : IndexId} {file : IndexFile}
    {seen : DataPageId → List DataRow} (hfile : db.listedFile mt.id indexId = .ok file)
    (hseen : db.pageRows = seen) (rounds cur : ℕ) (rows : List DataRow) :
    ReadsAs (leafScanLoop mt condition indexId rounds cur rows) db
      (leafRowsLoop mt condition seen file rounds cur rows) := by
  induction rounds generalizing cur rows db with
  | zero => exact readsAs_throw _ db
  | succ rounds ih =>
    -- neither the file nor the rows of the pages change on the way
    have hkept : ∀ {db'}, SameView db db' →
        db'.listedFile mt.id indexId = .ok file ∧ db'.pageRows = seen :=
      fun h => ⟨h.listedFile ▸ hfile, h.pageRows.trans hseen⟩
    unfold leafScanLoop leafRowsLoop
    refine (hfile ▸ readsAs_fileOrThrow mt.id indexId db).bind_ok fun db₁ hsame₁ => ?_
    refine (readsAs_liftExcept _ db₁).bind fun page db₂ hsame₂ => ?_
    refine (readsAs_liftExcept _ db₂).bind fun leaf db₃ hsame₃ => ?_
    have hsame := hsame₁.trans (hsame₂.trans hsame₃)
    refine ReadsAs.bind (.foldlM (fun rows rowPtr db' hsame' => ?_) leaf.rows rows)
      fun rows db₄ hsame₄ => ?_
    · rw [← (hkept (hsame.trans hsame')).2]
      exact readsAs_appendRowByPtr rows rowPtr db'
    · split_ifs
      · exact readsAs_pure rows db₄
      · have hfile₄ := (hkept (hsame.trans hsame₄)).1
        refine (hfile₄ ▸ readsAs_fileOrThrow mt.id indexId db₄).bind_ok fun db₅ hsame₅ => ?_
        refine (readsAs_liftExcept _ db₅).bind fun cur db₆ hsame₆ => ?_
        have hview := (hsame.trans hsame₄).trans (hsame₅.trans hsame₆)
        exact ih (hkept hview).1 (hkept hview).2 cur rows

theorem readsAs_leafScan (indexId : IndexId) (db : StdDbInstance) :
    ReadsAs (leafScan mt condition indexId) db
      (db.listedFile mt.id indexId >>= leafRows mt condition db.pageRows) := by
  unfold leafScan ReadsAs
  rw [ensures_bind]
  refine (readsAs_fileOrThrow mt.id indexId db).mono (fun file db₁ ⟨hfile, hsame⟩ => ?_)
    fun e db₁ ⟨he, hsame⟩ => ?_
  · rw [hfile]
    have hread : ReadsAs (match getPage file file.rootPage with
        | none => pure []
        | some cur => do
          match ← liftExcept (leftmostLeafLoop file (file.pages.length + 1) cur) with
          | none => pure []
          | some cur => leafScanLoop mt condition indexId (file.pages.length + 1) cur []) db₁
        (leafRows mt condition db.pageRows file) := by
      unfold leafRows
      cases getPage file file.rootPage with
      | none => exact readsAs_pure [] db₁
      | some cur =>
        refine (readsAs_liftExcept _ db₁).bind fun found db₂ hsame₂ => ?_
        cases found with
        | none => exact readsAs_pure [] db₂
        | some cur =>
          exact readsAs_leafScanLoop ((hsame.trans hsame₂).listedFile ▸ hfile)
            (hsame.trans hsame₂).pageRows _ cur []
    exact hread.mono (fun _ _ h => ⟨h.1, hsame.trans h.2⟩) fun _ _ h => ⟨h.1, hsame.trans h.2⟩
  · rw [he]
    exact ⟨rfl, hsame⟩

/-- **`index_scan`** of a table that is there only reads. -/
theorem readsAs_indexScan {tableName schemaName : Bytes} {db : StdDbInstance}
    (hlook : LooksUp db tableName schemaName mt) (indexId : IndexId) (condition : Sql.ExprNode) :
    ReadsAs (indexScan tableName schemaName indexId condition) db
      (indexRows mt condition db indexId) := by
  unfold indexScan
  refine (readsAs_getTable hlook).bind_ok fun db₁ hsame => ?_
  unfold indexRows
  cases mt.indexes.find? fun index => index.id = indexId with
  | none => exact readsAs_throw _ db₁
  | some metaIndex =>
    refine (readsAs_liftExcept _ db₁).bind fun literal db₂ hsame₂ => ?_
    have hview := hsame.trans hsame₂
    rw [← hview.listedFile, ← hview.pageRows]
    cases literal with
    | none => exact readsAs_leafScan indexId db₂
    | some literal =>
      refine (readsAs_liftExcept _ db₂).bind fun key db₃ hsame₃ => ?_
      show ReadsAs (treeFind mt.id indexId key >>= _) db₃ _
      unfold treeFind
      rw [bind_assoc, ← hsame₃.listedFile]
      refine (readsAs_fileOrThrow mt.id indexId db₃).bind fun file db₄ hsame₄ => ?_
      refine (readsAs_liftExcept _ db₄).bind fun found db₅ hsame₅ => ?_
      cases found with
      | none => exact readsAs_pure [] db₅
      | some rowPtr =>
        rw [← (hsame₃.trans (hsame₄.trans hsame₅)).pageRows]
        exact readsAs_appendRowByPtr [] rowPtr db₅

end Reads

end StdDbInstance
