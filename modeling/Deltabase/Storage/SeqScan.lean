import Deltabase.Storage.RowOperations

/-!
# Scanning a table

`seq_scan_begin` and `seq_scan_next`, row by row, and the rows they hand out: a
scan starts at a page that no page of the table links to and follows the links.
`scanRows` are the rows that are reached from a page on, when the links come to
an end; `cursorRows` those that a cursor has before it.
-/

/-- `types::ScanCursor`. -/
structure ScanCursor where
  page : DataPageId := UUID.null
  slot : ℕ := 0
  initialized : Bool := false
  deriving DecidableEq

/-- A row that has been declared and not assigned. -/
def DataRow.blank : DataRow := {}

/-- Asks for rows until there is none; each row is written to the same
variable. -/
def drain {σ : Type} (next : σ → DataRow → Prog (Bool × DataRow × σ)) :
    ℕ → σ → DataRow → Prog (List DataRow × σ)
  | 0, _, _ => throw .divergence
  | rounds + 1, state, row => do
    let (found, row, state) ← next state row
    if found then
      let (rows, state) ← drain next rounds state row
      pure (row :: rows, state)
    else pure ([], state)

/-- The rows that are not obsolete. -/
def live (rows : List DataRow) : List DataRow := rows.filter fun row => !row.obsolete

/-- **The rows reached from a page on**, if the links come to an end within
this many pages. -/
def scanRows (page : DataPageId → Option DataPage) : ℕ → DataPageId → Option (List DataRow)
  | 0, _ => none
  | n + 1, id =>
    if id = UUID.null then some []
    else match page id with
      | none => some []
      | some p => (scanRows page n p.next).map (live p.rows ++ ·)

/-- The rows a cursor has before it. -/
def cursorRows (page : DataPageId → Option DataPage) (n : ℕ) (cursor : ScanCursor) :
    Option (List DataRow) :=
  if cursor.page = UUID.null then some []
  else match page cursor.page with
    | none => some []
    | some p => (scanRows page n p.next).map (live (p.rows.drop cursor.slot) ++ ·)

section Rows

variable {page : DataPageId → Option DataPage} {m n : ℕ} {id : DataPageId} {rows : List DataRow}

/-- More pages do no harm. -/
theorem scanRows_mono (hmn : m ≤ n) (h : scanRows page m id = some rows) :
    scanRows page n id = some rows := by
  induction m generalizing n id rows with
  | zero => cases h
  | succ m ih =>
    obtain ⟨n, rfl⟩ : ∃ k, n = k + 1 := ⟨n - 1, by omega⟩
    unfold scanRows at h ⊢
    split_ifs at h ⊢ with hnull
    · exact h
    cases hpage : page id with
    | none => rw [hpage] at h; exact h
    | some p =>
      rw [hpage] at h
      obtain ⟨rest, hrest, hrows⟩ := Option.map_eq_some_iff.mp h
      exact Option.map_eq_some_iff.mpr ⟨rest, ih (Nat.le_of_succ_le_succ hmn) hrest, hrows⟩

theorem cursorRows_mono {cursor : ScanCursor} (hmn : m ≤ n)
    (h : cursorRows page m cursor = some rows) : cursorRows page n cursor = some rows := by
  unfold cursorRows at h ⊢
  split_ifs at h ⊢ with hnull
  · exact h
  cases hpage : page cursor.page with
  | none => rw [hpage] at h; exact h
  | some p =>
    rw [hpage] at h
    obtain ⟨rest, hrest, hrows⟩ := Option.map_eq_some_iff.mp h
    exact Option.map_eq_some_iff.mpr ⟨rest, scanRows_mono hmn hrest, hrows⟩

/-- A cursor at the beginning of a page has the rows from that page on before
it. -/
theorem cursorRows_start (n : ℕ) (id : DataPageId) (b : Bool) :
    cursorRows page n ⟨id, 0, b⟩ = scanRows page (n + 1) id := rfl

end Rows

namespace StdDbInstance

open BufferPool

variable {db : StdDbInstance}

/-- The loop of `seq_scan_next`: whether a row was found, the row and the
cursor. -/
def seqScanNextLoop : ℕ → ScanCursor → DataRow → Prog (Bool × DataRow × ScanCursor)
  | 0, _, _ => throw .divergence
  | rounds + 1, cursor, out =>
    if cursor.page = UUID.null then pure (false, out, cursor)
    else do
      match ← getDp cursor.page with
      | none => pure (false, out, { cursor with page := UUID.null })
      | some page =>
        match (page.rows.drop cursor.slot).findIdx? fun row => !row.obsolete with
        | some i =>
          match page.rows[cursor.slot + i]? with
          | some row => pure (true, row, { cursor with slot := cursor.slot + i + 1 })
          | none => throw .outOfRange
        | none => seqScanNextLoop rounds { cursor with page := page.next, slot := 0 } out

/-- `seq_scan_next`. -/
def seqScanNext (rounds : ℕ) (cursor : ScanCursor) (out : DataRow) :
    Prog (Bool × DataRow × ScanCursor) :=
  if cursor.initialized then seqScanNextLoop rounds cursor out else pure (false, out, cursor)

/-- What the inner loop of `seq_scan_next` finds. -/
theorem live_drop (rows : List DataRow) (slot : ℕ) :
    ((rows.drop slot).findIdx? (fun row => !row.obsolete) = none ∧ live (rows.drop slot) = [])
      ∨ ∃ i row, (rows.drop slot).findIdx? (fun row => !row.obsolete) = some i
        ∧ rows[slot + i]? = some row
        ∧ live (rows.drop slot) = row :: live (rows.drop (slot + i + 1)) := by
  cases hfind : (rows.drop slot).findIdx? fun row => !row.obsolete with
  | none =>
    refine .inl ⟨rfl, ?_⟩
    rw [List.findIdx?_eq_none_iff] at hfind
    exact List.filter_eq_nil_iff.mpr fun row hrow => by rw [hfind row hrow]; simp
  | some i =>
    rw [List.findIdx?_eq_some_iff_getElem] at hfind
    obtain ⟨hlt, hlive, hbefore⟩ := hfind
    refine .inr ⟨i, (rows.drop slot)[i], rfl, ?_, ?_⟩
    · rw [← List.getElem?_drop, List.getElem?_eq_getElem hlt]
    · -- the rows before the one found are obsolete
      have hskip : live ((rows.drop slot).take i) = [] := by
        refine List.filter_eq_nil_iff.mpr fun row hrow => ?_
        obtain ⟨j, hj, rfl⟩ := List.getElem_of_mem hrow
        rw [List.length_take] at hj
        rw [List.getElem_take]
        exact hbefore j (by omega)
      have hsplit : rows.drop slot
          = (rows.drop slot).take i ++ (rows.drop slot)[i] :: rows.drop (slot + i + 1) := by
        rw [← List.drop_drop, ← List.drop_drop, List.drop_drop, ← List.drop_eq_getElem_cons hlt,
          List.take_append_drop]
      unfold live at hskip ⊢
      conv_lhs => rw [hsplit]
      rw [List.filter_append, hskip, List.nil_append,
        List.filter_cons_of_pos (p := fun row : DataRow => !row.obsolete) hlive]

/-- **What a call hands out** when these rows are before the cursor: the first,
and the others are before the cursor then. -/
def Handed (page : DataPageId → Option DataPage) (n : ℕ) (out : DataRow)
    (r : Bool × DataRow × ScanCursor) : List DataRow → Prop
  | [] => r.1 = false ∧ r.2.1 = out
  | row :: rest => r.1 = true ∧ r.2.1 = row ∧ cursorRows page n r.2.2 = some rest

/-- **One call of `seq_scan_next`**, with rounds enough. -/
theorem ensures_seqScanNextLoop {n : ℕ} {cursor : ScanCursor} {rows : List DataRow}
    (h : cursorRows db.page n cursor = some rows) (out : DataRow) :
    Ensures (seqScanNextLoop (n + 1) cursor out) db
      (fun r db' => SameView db db' ∧ r.2.2.initialized = cursor.initialized
        ∧ Handed db.page n out r rows)
      fun _ _ => False := by
  induction n generalizing cursor rows db with
  | zero =>
    unfold cursorRows at h
    unfold seqScanNextLoop
    split_ifs at h ⊢ with hnull
    · obtain rfl := Option.some.inj h
      exact ⟨.refl db, rfl, rfl, rfl⟩
    rw [ensures_bind]
    refine (ensures_getDp cursor.page db).mono_ok fun found db₁ ⟨hfound, hsame, _⟩ => ?_
    rw [← hfound] at h
    cases found with
    | none =>
      obtain rfl := Option.some.inj h
      exact ⟨hsame, rfl, rfl, rfl⟩
    | some p => cases h
  | succ n ih =>
    unfold cursorRows at h
    unfold seqScanNextLoop
    split_ifs at h ⊢ with hnull
    · obtain rfl := Option.some.inj h
      exact ⟨.refl db, rfl, rfl, rfl⟩
    rw [ensures_bind]
    refine (ensures_getDp cursor.page db).mono_ok fun found db₁ ⟨hfound, hsame, _⟩ => ?_
    rw [← hfound] at h
    cases found with
    | none =>
      obtain rfl := Option.some.inj h
      exact ⟨hsame, rfl, rfl, rfl⟩
    | some p =>
      obtain ⟨rest, hrest, rfl⟩ := Option.map_eq_some_iff.mp h
      rcases live_drop p.rows cursor.slot with ⟨hfind, hlive⟩ | ⟨i, row, hfind, hrow, hlive⟩
      · -- the page is done: the rows are those from the next page on
        simp only [hfind, hlive, List.nil_append]
        rw [← cursorRows_start n p.next cursor.initialized, ← hsame.page] at hrest
        refine (ih hrest).mono_ok fun r db' ⟨hsame', hinit, hr⟩ => ?_
        refine ⟨hsame.trans hsame', hinit, ?_⟩
        cases rest with
        | nil => exact hr
        | cons row rest =>
          exact ⟨hr.1, hr.2.1, cursorRows_mono (Nat.le_succ n) (hsame.page ▸ hr.2.2)⟩
      · simp only [hfind, hrow, hlive]
        refine ⟨hsame, rfl, rfl, rfl, ?_⟩
        unfold cursorRows
        rw [if_neg hnull, ← hfound]
        exact Option.map_eq_some_iff.mpr ⟨rest, hrest, rfl⟩

/-- **What a call of `seq_scan_next` has found**, whatever the rounds: if
nothing, there was nothing before the cursor. -/
theorem ensures_seqScanNextLoop_found (rounds : ℕ) (cursor : ScanCursor) (out : DataRow)
    (db : StdDbInstance) :
    Ensures (seqScanNextLoop rounds cursor out) db
      (fun r db' => SameView db db' ∧ r.2.2.initialized = cursor.initialized
        ∧ (r.1 = false → ∃ n, cursorRows db.page n cursor = some [])
        ∧ (r.1 = true → ∀ n rows, cursorRows db.page n r.2.2 = some rows →
          ∃ n', cursorRows db.page n' cursor = some (r.2.1 :: rows)))
      fun _ _ => True := by
  induction rounds generalizing cursor db with
  | zero => trivial
  | succ rounds ih =>
    unfold seqScanNextLoop
    split_ifs with hnull
    · refine ⟨.refl db, rfl, fun _ => ⟨0, if_pos hnull⟩, fun h => by cases h⟩
    rw [ensures_bind]
    refine (ensures_getDp cursor.page db).mono (fun found db₁ ⟨hfound, hsame, _⟩ => ?_)
      fun _ _ _ => trivial
    cases found with
    | none =>
      refine ⟨hsame, rfl, fun _ => ⟨0, ?_⟩, fun h => by cases h⟩
      unfold cursorRows
      rw [if_neg hnull, ← hfound]
    | some p =>
      have hcursor : ∀ n, cursorRows db.page n cursor
          = (scanRows db.page n p.next).map (live (p.rows.drop cursor.slot) ++ ·) := by
        intro n
        unfold cursorRows
        rw [if_neg hnull, ← hfound]
      rcases live_drop p.rows cursor.slot with ⟨hfind, hlive⟩ | ⟨i, row, hfind, hrow, hlive⟩
      · simp only [hfind]
        have hnext : ∀ n rows, cursorRows db.page n ⟨p.next, 0, cursor.initialized⟩ = some rows →
            cursorRows db.page (n + 1) cursor = some rows := by
          intro n rows hrows
          rw [cursorRows_start] at hrows
          rw [hcursor, hrows, hlive]
          rfl
        refine (ih _ db₁).mono (fun r db' ⟨hsame', hinit, hnone, hsome⟩ => ?_) fun _ _ _ => trivial
        rw [hsame.page] at hnone hsome
        refine ⟨hsame.trans hsame', hinit, fun hr => ?_, fun hr n rows hrows => ?_⟩
        · obtain ⟨n, hn⟩ := hnone hr
          exact ⟨n + 1, hnext n [] hn⟩
        · obtain ⟨n', hn'⟩ := hsome hr n rows hrows
          exact ⟨n' + 1, hnext n' _ hn'⟩
      · simp only [hfind, hrow]
        refine ⟨hsame, rfl, fun h => (by cases h), fun _ n rows hrows => ⟨n, ?_⟩⟩
        unfold cursorRows at hrows
        rw [if_neg hnull] at hrows
        simp only [← hfound] at hrows
        obtain ⟨rest, hrest, rfl⟩ := Option.map_eq_some_iff.mp hrows
        rw [hcursor, hrest, hlive]
        rfl

/-- `seq_scan`, as far as the rows go. -/
def seqScan (rounds : ℕ) (tableName schemaName : Bytes) : Prog (List DataRow) := do
  let _ ← getTable tableName schemaName
  let page ← seqScanBegin tableName schemaName
  let (rows, _) ← drain (seqScanNext rounds) rounds
    { page := page, slot := 0, initialized := true } .blank
  pure rows

/-- **Asking for rows until there is none** yields the rows before the cursor,
with rounds enough. -/
theorem ensures_drain {m n : ℕ} {cursor : ScanCursor} {rows : List DataRow}
    (hinit : cursor.initialized = true) (hrows : cursorRows db.page m cursor = some rows)
    (hn : rows.length < n) (out : DataRow) :
    Ensures (drain (seqScanNext (m + 1)) n cursor out) db
      (fun r db' => r.1 = rows ∧ SameView db db') fun _ _ => False := by
  induction rows generalizing n cursor out db with
  | nil =>
    obtain ⟨n, rfl⟩ := Nat.exists_eq_succ_of_ne_zero hn.ne'
    unfold drain seqScanNext
    rw [ensures_bind, if_pos hinit]
    refine (ensures_seqScanNextLoop hrows out).mono_ok fun r db₁ ⟨hsame, _, hfound, _⟩ => ?_
    obtain ⟨found, row, cursor'⟩ := r
    obtain rfl : found = false := hfound
    exact ⟨rfl, hsame⟩
  | cons row rows ih =>
    obtain ⟨n, rfl⟩ := Nat.exists_eq_succ_of_ne_zero (Nat.ne_of_gt (Nat.zero_lt_of_lt hn))
    unfold drain seqScanNext
    rw [ensures_bind, if_pos hinit]
    refine (ensures_seqScanNextLoop hrows out).mono_ok
      fun r db₁ ⟨hsame, hinit₁, hfound, hrow, hrest⟩ => ?_
    obtain ⟨found, row', cursor'⟩ := r
    obtain rfl : found = true := hfound
    obtain rfl : row' = row := hrow
    show Ensures (drain (seqScanNext (m + 1)) n cursor' row' >>= _) db₁ _ _
    rw [ensures_bind]
    refine (ih (hinit₁.trans hinit) (hsame.page ▸ hrest) (Nat.lt_of_succ_lt_succ hn) row').mono_ok
      fun r db₂ ⟨hr, hsame₂⟩ => ?_
    exact ⟨congrArg (List.cons row') hr, hsame.trans hsame₂⟩

/-- The page a scan of a table begins at. -/
def scanStart (db : StdDbInstance) (mt : MetaTable) : DataPageId :=
  scanHead ((db.pageIds mt.id).filterMap db.page)

/-- **`seq_scan_begin`** only reads. -/
theorem readsAs_seqScanBegin {tableName schemaName : Bytes} {mt : MetaTable}
    (h : LooksUp db tableName schemaName mt) :
    ReadsAs (seqScanBegin tableName schemaName) db (.ok (db.scanStart mt)) := by
  refine (readsAs_getTable h).bind_ok fun db₁ hsame => ?_
  have hdata : ReadsAs (getTableData mt.id) db₁ (.ok ((db.pageIds mt.id).map db.page)) := by
    refine (ensures_getTableData mt.id db₁).mono (fun pages db₂ ⟨hpages, hsame₂, _⟩ => ?_)
      fun _ _ h => h.elim
    rw [hpages, hsame.pageIds, hsame.page]
    exact ⟨rfl, hsame₂⟩
  refine hdata.bind_ok fun db₂ _ => ?_
  rw [filterMap_pages]
  exact readsAs_pure _ db₂

/-- **`seq_scan`** returns the rows reached from its first page. -/
theorem ensures_seqScan {tableName schemaName : Bytes} {mt : MetaTable} {m rounds : ℕ}
    {rows : List DataRow} (h : LooksUp db tableName schemaName mt)
    (hrows : scanRows db.page m (db.scanStart mt) = some rows) (hm : m ≤ rounds)
    (hn : rows.length < rounds) :
    Ensures (seqScan rounds tableName schemaName) db (fun r db' => r = rows ∧ SameView db db')
      fun _ _ => False := by
  obtain ⟨k, rfl⟩ := Nat.exists_eq_succ_of_ne_zero (Nat.ne_of_gt (Nat.zero_lt_of_lt hn))
  have htable : ReadsAs (getTable tableName schemaName) db (.ok mt) := readsAs_getTable h
  unfold seqScan
  rw [ensures_bind]
  refine htable.mono (fun _ db₁ ⟨_, hsame⟩ => ?_) fun _ _ ⟨he, _⟩ => by cases he
  have hstart : db₁.scanStart mt = db.scanStart mt := by
    unfold scanStart
    rw [hsame.pageIds, hsame.page]
  rw [ensures_bind]
  refine (readsAs_seqScanBegin (hsame.looksUp.mpr h)).mono (fun page db₂ ⟨hpage, hsame₂⟩ => ?_)
    fun _ _ ⟨he, _⟩ => by cases he
  rw [← Except.ok.inj hpage, hstart, ensures_bind]
  have hcursor : cursorRows db₂.page k ⟨db.scanStart mt, 0, true⟩ = some rows := by
    rw [cursorRows_start, hsame₂.page, hsame.page]
    exact scanRows_mono hm hrows
  exact (ensures_drain rfl hcursor hn .blank).mono_ok fun r db₃ ⟨hr, hsame₃⟩ =>
    ⟨hr, (hsame.trans hsame₂).trans hsame₃⟩

end StdDbInstance
