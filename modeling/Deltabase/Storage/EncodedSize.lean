import Deltabase.Storage.StdStorageSerializer

/-!
# The sizes of rows and pages

How many bytes a row and a page come to, and what `estimate_size` takes a row to
come to. The estimate is a second description of the format of a row, and it has
its own rule for which tokens are written with their length: strings, it says,
where `serialize_dt` writes the length of every token that is not `NULL`. So it
is eight bytes short for each of the other tokens (`rowSize_eq_estimateSize`), and
exact only for rows that have none (`estimateSize_eq_iff`).
-/

/-! ## Sizes -/

namespace StdStorageSerializer

/-- The bytes that a row takes on its page. -/
def rowSize (row : DataRow) : ℕ := (serializeDr row).size

/-- The bytes that rows take. -/
def rowsSize (rows : List DataRow) : ℕ := (rows.map rowSize).sum

theorem rowsSize_append (rows rows' : List DataRow) :
    rowsSize (rows ++ rows') = rowsSize rows + rowsSize rows' := by
  unfold rowsSize
  rw [List.map_append, List.sum_append]

theorem rowsSize_cons (row : DataRow) (rows : List DataRow) :
    rowsSize (row :: rows) = rowSize row + rowsSize rows := by
  unfold rowsSize
  rw [List.map_cons, List.sum_cons]

theorem rowsSize_singleton (row : DataRow) : rowsSize [row] = rowSize row := by
  rw [rowsSize_cons]
  rfl

/-- The tokens decide how many bytes a row takes. -/
theorem rowSize_eq (row : DataRow) :
    rowSize row = 20 + (row.tokens.map fun t => (serializeDt t).buffer.length).sum := by
  unfold rowSize MemoryStream.size
  rw [buffer_serializeDr]
  simp only [List.length_append, length_leBytes, List.length_flatMap]
  omega

theorem rowSize_congr {row row' : DataRow} (h : row'.tokens = row.tokens) :
    rowSize row' = rowSize row := by
  rw [rowSize_eq, rowSize_eq, h]

/-- **The size of a page** is that of its header and its rows. -/
theorem size_serializeDp (page : DataPage) :
    (serializeDp page).size = DataPage.headerSize + rowsSize page.rows := by
  unfold MemoryStream.size rowsSize
  rw [buffer_serializeDp]
  simp only [List.length_append, length_leBytes, length_uuidBytes, List.length_flatMap]
  show 16 + (16 + (16 + (8 + (8 + (8 + (8 + _)))))) = 80 + _
  rw [show (page.rows.map fun r => (serializeDr r).buffer.length) = page.rows.map rowSize from rfl]
  omega

/-- A mark takes no room. -/
theorem rowsSize_modify (rows : List DataRow) (i : ℕ) :
    rowsSize (rows.modify i DataRow.markObsolete) = rowsSize rows := by
  induction rows generalizing i with
  | nil => rw [List.modify_nil]
  | cons row rows ih =>
    cases i with
    | zero =>
      rw [List.modify_zero_cons, rowsSize_cons, rowsSize_cons,
        rowSize_congr row.markObsolete_tokens]
    | succ i => rw [List.modify_succ_cons, rowsSize_cons, rowsSize_cons, ih]

/-! ## The estimate -/

/-- **A token whose length the estimate leaves out** and the serializer writes. -/
def omitsLength (token : DataToken) : Bool :=
  decide (token.type ≠ .null ∧ token.type ≠ .string)

variable {token : DataToken} {row : DataRow}

/-- A token comes to what is estimated and, if its length has been left out, to the
eight bytes of that. -/
theorem size_serializeDt (hnull : token.type = .null → token.bytes = []) :
    (serializeDt token).buffer.length
      = estimateSizeToken token + 8 * (omitsLength token).toNat := by
  rw [buffer_serializeDt]
  unfold estimateSizeToken omitsLength hasDynamicSize strBytes
  by_cases hn : token.type = .null
  · simp [hn, hnull hn]
  · by_cases hs : token.type = .string
    · simp [hs]
      omega
    · simp [hn, hs]
      omega

/-- The loop of `estimate_size` adds up the tokens. -/
theorem estimateSize_eq (row : DataRow) :
    estimateSize row = 20 + (row.tokens.map estimateSizeToken).sum := by
  unfold estimateSize
  have hloop : ∀ (tokens : List DataToken) (size : ℕ),
      tokens.foldl (fun size t => size + estimateSizeToken t) size
        = size + (tokens.map estimateSizeToken).sum := by
    intro tokens
    induction tokens with
    | nil => exact fun size => rfl
    | cons t tokens ih =>
      intro size
      rw [List.foldl_cons, ih, List.map_cons, List.sum_cons]
      exact Nat.add_assoc _ _ _
  exact hloop row.tokens 20

/-- **By how much the estimate falls short**: eight bytes for each token whose
length it leaves out. -/
theorem rowSize_eq_estimateSize (hnull : ∀ t ∈ row.tokens, t.type = .null → t.bytes = []) :
    rowSize row = estimateSize row + 8 * row.tokens.countP omitsLength := by
  rw [rowSize_eq, estimateSize_eq]
  generalize row.tokens = tokens at hnull
  induction tokens with
  | nil => rfl
  | cons t tokens ih =>
    have htail := ih fun t' ht' => hnull t' (List.mem_cons_of_mem t ht')
    have hhead := size_serializeDt (hnull t List.mem_cons_self)
    rw [List.map_cons, List.sum_cons, List.map_cons, List.sum_cons, List.countP_cons, hhead]
    cases omitsLength t <;> simp <;> omega

/-- **The estimate is the size of the row** exactly when every token is `NULL` or a
string. -/
theorem estimateSize_eq_iff (row : DataRow)
    (hnull : ∀ t ∈ row.tokens, t.type = .null → t.bytes = []) :
    estimateSize row = (serializeDr row).size
      ↔ ∀ t ∈ row.tokens, t.type = .null ∨ t.type = .string := by
  have hsize : (serializeDr row).size = _ := rowSize_eq_estimateSize hnull
  rw [hsize, show estimateSize row = estimateSize row + 8 * row.tokens.countP omitsLength
      ↔ row.tokens.countP omitsLength = 0 from by omega, List.countP_eq_zero]
  refine forall_congr' fun t => forall_congr' fun _ => ?_
  unfold omitsLength
  rw [decide_eq_true_eq, not_and_or, not_not, not_not]

/-- A row of a string and a `NULL` comes to 39 bytes, as is estimated. -/
theorem estimateSize_eq_iff_text :
    estimateSize { tokens := [⟨[97, 98, 99], .string⟩, ⟨[], .null⟩] }
      = (serializeDr { tokens := [⟨[97, 98, 99], .string⟩, ⟨[], .null⟩] }).size :=
  (estimateSize_eq_iff _ (by decide)).mpr (by decide)

/-- A row of one `INTEGER` is estimated at 32 bytes and comes to 40. -/
theorem not_estimateSize_eq :
    ¬ ∀ row : DataRow, (∀ t ∈ row.tokens, t.type = .null → t.bytes = []) →
      estimateSize row = (serializeDr row).size := by
  intro h
  exact absurd (h { tokens := [⟨[5, 0, 0, 0], .integer⟩] } (by decide)) (by decide)

end StdStorageSerializer
