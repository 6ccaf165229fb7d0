import Deltabase.Executor.SelectExecution
import Deltabase.Lib.Chunks
import Deltabase.Lib.Stateful
import Deltabase.Network.NetServer

/-!
# The chunks of a result

A result is asked for one row after another, and the client is sent chunks of 1024
rows. `next_chunk` asks until the chunk is full or there is no row, and
`stream_handler` asks for chunks until one is empty. When the rows come to a multiple
of 1024, the last full chunk is returned without asking whether there are more, and
the next call finds that there are none.

`Hands` says what is asked of a result: it hands out certain rows, whatever the
variable holds that is passed to it, and then keeps saying that there are no more. The
rows may come from anywhere, a table in memory (`hands_materialized`) or a tree of
executors (`hands_streamed`). From such a result the chunks are the rows cut into
pieces of 1024 (`streamChunks_hands`), and one call does what the server on the level
of connections is taken to do (`nextChunk_refines`).
-/

/-- **`types::IExecutionResult`**: an object with a state of its own. A row is written
to the variable that is passed. -/
structure IExecutionResult where
  State : Type
  next : State → DataRow → Prog (Bool × DataRow × State)

namespace IExecutionResult

variable (result : IExecutionResult)

/-! ## The loops -/

/-- The loop of `next_chunk`: `row` is the variable that every call is passed, `rows`
are `out.rows`. -/
def nextChunkLoop (state : result.State) (row : DataRow) (rows : List DataRow) (hasMore : Bool) :
    Prog (List DataRow × Bool × result.State) :=
  if rows.length < NetServer.batchSize then do
    let (found, row, state) ← result.next state row
    if found then nextChunkLoop state row (rows ++ [row]) true
    else pure (rows, false, state)
  else pure (rows, hasMore, state)
  termination_by NetServer.batchSize - rows.length
  decreasing_by
    rw [List.length_append, List.length_singleton]
    omega

/-- `next_chunk`: whether the chunk has a row, the chunk and `has_more`. -/
def nextChunk (state : result.State) (out : DataTable) :
    Prog (Bool × DataTable × Bool × result.State) := do
  let (rows, hasMore, state) ← result.nextChunkLoop state .blank [] false
  pure (!rows.isEmpty, { out with rows := rows }, hasMore, state)

/-- The loop of `stream_handler`, of a stream that is not cancelled: the chunks that
`send_chunk` is called with. -/
def streamChunks : ℕ → result.State → DataTable → Prog (List DataTable × result.State)
  | 0, _, _ => throw .divergence
  | rounds + 1, state, chunk => do
    let (found, chunk, _, state) ← result.nextChunk state chunk
    if found then do
      let (chunks, state) ← streamChunks rounds state chunk
      pure (chunk :: chunks, state)
    else pure ([], state)

/-! ## What a result hands out -/

variable {result}

/-- **There are no more rows**, however often the result is asked. -/
def Exhausted (result : IExecutionResult) (state : result.State) (db : StdDbInstance) : Prop :=
  ∃ I : result.State → StdDbInstance → Prop, I state db
    ∧ ∀ s db, I s db → ∀ out, ∃ out' s' db',
      result.next s out db = .ok (false, out', s') db' ∧ I s' db'

theorem Exhausted.next {state : result.State} {db : StdDbInstance}
    (h : result.Exhausted state db) (out : DataRow) :
    ∃ out' state' db', result.next state out db = .ok (false, out', state') db'
      ∧ result.Exhausted state' db' := by
  obtain ⟨I, hI, hstep⟩ := h
  obtain ⟨out', state', db', hnext, hI'⟩ := hstep state db hI out
  exact ⟨out', state', db', hnext, I, hI', hstep⟩

/-- **The result hands out these rows** and then no more. -/
def Hands (result : IExecutionResult) : List DataRow → result.State → StdDbInstance → Prop
  | [], state, db => result.Exhausted state db
  | row :: rows, state, db => ∀ out, ∃ state' db',
      result.next state out db = .ok (true, row, state') db' ∧ Hands result rows state' db'

section Chunks

variable {state : result.State} {db : StdDbInstance} {rows : List DataRow}

/-- **The loop of `next_chunk`** takes the rows that there is room for, and leaves the
others. The induction is on the rows that are left; a chunk that is full asks for
none of them. -/
theorem nextChunkLoop_hands (h : result.Hands rows state db) (row : DataRow)
    (taken : List DataRow) (hasMore : Bool) :
    ∃ hasMore' state' db',
      result.nextChunkLoop state row taken hasMore db
          = .ok (taken ++ rows.take (NetServer.batchSize - taken.length), hasMore', state') db'
        ∧ result.Hands (rows.drop (NetServer.batchSize - taken.length)) state' db' := by
  induction rows generalizing state db row taken hasMore with
  | nil =>
    rw [List.take_nil, List.append_nil, List.drop_nil, nextChunkLoop]
    by_cases hroom : taken.length < NetServer.batchSize
    · obtain ⟨out', state', db', hnext, hrest⟩ := h.next row
      refine ⟨false, state', db', ?_, hrest⟩
      rw [if_pos hroom, Stateful.bind_ok hnext]
      rfl
    · refine ⟨hasMore, state, db, ?_, h⟩
      rw [if_neg hroom]
      rfl
  | cons r rows ih =>
    rw [nextChunkLoop]
    by_cases hroom : taken.length < NetServer.batchSize
    · obtain ⟨state₁, db₁, hnext, hrest⟩ := h row
      obtain ⟨hasMore', state', db', hloop, hleft⟩ := ih hrest r (taken ++ [r]) true
      have hone : NetServer.batchSize - taken.length
          = NetServer.batchSize - (taken ++ [r]).length + 1 := by
        rw [List.length_append, List.length_singleton]
        omega
      refine ⟨hasMore', state', db', ?_, ?_⟩
      · rw [if_pos hroom, Stateful.bind_ok hnext, hone, List.take_succ_cons,
          show taken ++ r :: rows.take (NetServer.batchSize - (taken ++ [r]).length)
            = taken ++ [r] ++ rows.take (NetServer.batchSize - (taken ++ [r]).length) from by
              rw [List.append_assoc, List.singleton_append]]
        exact hloop
      · rw [hone, List.drop_succ_cons]
        exact hleft
    · have hfull : NetServer.batchSize - taken.length = 0 := by omega
      refine ⟨hasMore, state, db, ?_, ?_⟩
      · rw [if_neg hroom, hfull, List.take_zero, List.append_nil]
        rfl
      · rw [hfull, List.drop_zero]
        exact h

/-- **A call of `next_chunk`** returns the first 1024 rows, or as many as there are,
and says whether there were any. -/
theorem nextChunk_hands (h : result.Hands rows state db) (out : DataTable) :
    ∃ hasMore state' db',
      result.nextChunk state out db = .ok (!rows.isEmpty,
          { out with rows := rows.take NetServer.batchSize }, hasMore, state') db'
        ∧ result.Hands (rows.drop NetServer.batchSize) state' db' := by
  obtain ⟨hasMore, state', db', hloop, hrest⟩ := nextChunkLoop_hands h .blank [] false
  refine ⟨hasMore, state', db', ?_, hrest⟩
  have hempty : (rows.take NetServer.batchSize).isEmpty = rows.isEmpty := by
    cases rows <;> rfl
  rw [nextChunk, Stateful.bind_ok hloop, ← hempty]
  rfl

/-- **The chunks of a stream** are the rows, cut into pieces of 1024. -/
theorem streamChunks_cut (h : result.Hands rows state db) (chunk : DataTable) {rounds : ℕ}
    (hrounds : rows.length < rounds) :
    ∃ chunks state' db', result.streamChunks rounds state chunk db = .ok (chunks, state') db'
      ∧ (∀ c ∈ chunks, c.outputSchema = chunk.outputSchema)
      ∧ CutInto NetServer.batchSize rows (chunks.map DataTable.rows) := by
  induction rounds generalizing rows state db chunk with
  | zero => exact absurd hrounds (Nat.not_lt_zero _)
  | succ rounds ih =>
    obtain ⟨hasMore, state₁, db₁, hnext, hrest⟩ := nextChunk_hands h chunk
    rw [streamChunks, Stateful.bind_ok hnext]
    by_cases hrows : rows = []
    · rw [hrows]
      exact ⟨[], state₁, db₁, rfl, fun c hc => absurd hc List.not_mem_nil, .nil⟩
    · have hfound : (!rows.isEmpty) = true := by
        rw [List.isEmpty_eq_false_iff.mpr hrows]
        rfl
      have hpos := List.length_pos_iff.mpr hrows
      have hfewer : (rows.drop NetServer.batchSize).length < rounds := by
        rw [List.length_drop, NetServer.batchSize]
        omega
      obtain ⟨chunks, state', db', hchunks, hschema, hcut⟩ := ih hrest
        { chunk with rows := rows.take NetServer.batchSize } hfewer
      refine ⟨{ chunk with rows := rows.take NetServer.batchSize } :: chunks,
        state', db', ?_, ?_, ?_⟩
      · rw [hfound]
        exact Stateful.bind_ok hchunks
      · exact List.forall_mem_cons.mpr ⟨rfl, hschema⟩
      · exact .cons (by decide) hrows hcut

/-- **Streaming a result.** From a result that hands out finitely many rows,
`next_chunk` is called until it returns `false`, and the chunks before have all the
rows, in order and each once; none is empty or has more than 1024 rows, and all but the
last have exactly 1024. -/
theorem streamChunks_hands (h : result.Hands rows state db) (chunk : DataTable) {rounds : ℕ}
    (hrounds : rows.length < rounds) :
    ∃ chunks state' db', result.streamChunks rounds state chunk db = .ok (chunks, state') db'
      ∧ (∀ c ∈ chunks, c.rows ≠ [] ∧ c.rows.length ≤ 1024)
      ∧ (∀ c ∈ chunks.dropLast, c.rows.length = 1024)
      ∧ chunks.flatMap DataTable.rows = rows
      ∧ ∀ c ∈ chunks, c.outputSchema = chunk.outputSchema := by
  obtain ⟨chunks, state', db', hchunks, hschema, hcut⟩ := streamChunks_cut h chunk hrounds
  refine ⟨chunks, state', db', hchunks, fun c hc => ?_, fun c hc => ?_, ?_, hschema⟩
  · have hmem : c.rows ∈ chunks.map DataTable.rows := List.mem_map_of_mem hc
    exact ⟨hcut.ne_nil _ hmem, hcut.length_le _ hmem⟩
  · refine hcut.full _ ?_
    rw [← List.map_dropLast]
    exact List.mem_map_of_mem hc
  · rw [List.flatMap_def]
    exact hcut.flatten

/-- **One call does what the server of a connection does** with the rows that the result
is going to hand out. -/
theorem nextChunk_refines {q : QueryResult} (h : result.Hands q.rows state db)
    (hthrows : q.throws = false) (out : DataTable) :
    ∃ found out' hasMore state' db',
      result.nextChunk state out db = .ok (found, out', hasMore, state') db'
        ∧ match NetServer.nextChunk q with
          | .empty => found = false ∧ result.Hands [] state' db'
          | .rows rows rest => found = true ∧ out' = { out with rows := rows }
              ∧ result.Hands rest.rows state' db'
          | .throws => False := by
  obtain ⟨hasMore, state', db', hnext, hrest⟩ := nextChunk_hands h out
  refine ⟨_, _, hasMore, state', db', hnext, ?_⟩
  unfold NetServer.nextChunk
  rw [if_neg fun hboth => Bool.false_ne_true (hthrows.symm.trans hboth.2)]
  by_cases hrows : q.rows = []
  · rw [if_pos hrows]
    rw [hrows] at hrest ⊢
    exact ⟨rfl, hrest⟩
  · rw [if_neg hrows, List.isEmpty_eq_false_iff.mpr hrows]
    exact ⟨rfl, rfl, hrest⟩

end Chunks

/-! ## Results -/

/-- `types::MaterializedResult` and `types::StreamedResult` as results. -/
def ofExecution (executor : NodeExecutor) (rounds : ℕ) : IExecutionResult where
  State := ExecutionResult executor
  next := ExecutionResult.next rounds

/-- The executor of a streamed result, asked for rows by itself. -/
def ofExecutor (executor : NodeExecutor) (rounds : ℕ) : IExecutionResult where
  State := executor.State
  next := executor.next rounds

/-- **A materialized result** hands out the rows of its table from the current one on. -/
theorem hands_materialized (executor : NodeExecutor) (rounds : ℕ) (table : List DataRow)
    (schema : OutputSchema) (current : ℕ) (db : StdDbInstance) :
    (ofExecution executor rounds).Hands (table.drop current) (.materialized table schema current)
      db := by
  generalize hrows : table.drop current = rows
  induction rows generalizing current with
  | nil =>
    have hend : table[current]? = none :=
      List.getElem?_eq_none (List.drop_eq_nil_iff.mp hrows)
    refine ⟨fun s _ => s = .materialized table schema current, rfl, ?_⟩
    rintro s db rfl out
    refine ⟨out, _, db, ?_, rfl⟩
    show ExecutionResult.next rounds (.materialized table schema current) out db = _
    rw [ExecutionResult.next, hend]
    rfl
  | cons row rows ih =>
    have hrow : table[current]? = some row := by
      rw [← List.head?_drop, hrows]
      rfl
    intro out
    refine ⟨.materialized table schema (current + 1), db, ?_, ih (current + 1) ?_⟩
    · show ExecutionResult.next rounds (.materialized table schema current) out db = _
      rw [ExecutionResult.next, hrow]
      rfl
    · rw [← List.tail_drop, hrows]
      rfl

/-- **A streamed result** hands out what its executor does. -/
theorem hands_streamed {executor : NodeExecutor} {rounds : ℕ} {rows : List DataRow}
    {state : executor.State} {db : StdDbInstance}
    (h : (ofExecutor executor rounds).Hands rows state db) :
    (ofExecution executor rounds).Hands rows (.streamed state) db := by
  have hnext :
    ∀ {found : Bool} {out out' : DataRow} {s s' : executor.State} {db db' : StdDbInstance},
      (ofExecutor executor rounds).next s out db = .ok (found, out', s') db' →
        (ofExecution executor rounds).next (.streamed s) out db
          = .ok (found, out', .streamed s') db' :=
    fun h => Stateful.bind_ok h
  induction rows generalizing state db with
  | nil =>
    obtain ⟨I, hI, hstep⟩ := h
    refine ⟨fun s db => ∃ t, s = .streamed t ∧ I t db, ⟨state, rfl, hI⟩, ?_⟩
    rintro s db ⟨t, rfl, ht⟩ out
    obtain ⟨out', t', db', hcall, ht'⟩ := hstep t db ht out
    exact ⟨out', .streamed t', db', hnext hcall, t', rfl, ht'⟩
  | cons row rows ih =>
    intro out
    obtain ⟨state', db', hcall, hrest⟩ := h out
    exact ⟨.streamed state', db', hnext hcall, ih hrest⟩

/-- A table of 1024 rows makes one chunk; the call for a second finds it empty. -/
theorem streamChunks_hands_fullChunk :
    ∃ chunks state' db',
      (ofExecution (.seqScan [116] [115]) 1).streamChunks 1025
          (.materialized (List.replicate 1024 {}) [] 0) { outputSchema := [], rows := [] } {}
        = .ok (chunks, state') db'
        ∧ chunks.flatMap DataTable.rows = List.replicate 1024 {} := by
  have hlength : ((List.replicate 1024 ({} : DataRow)).drop 0).length < 1025 := by
    rw [List.drop_zero, List.length_replicate]
    exact Nat.lt_succ_self 1024
  obtain ⟨chunks, state', db', hchunks, -, -, hrows, -⟩ := streamChunks_hands
    (hands_materialized (.seqScan [116] [115]) 1 (List.replicate 1024 {}) [] 0 {})
    { outputSchema := [], rows := [] } hlength
  exact ⟨chunks, state', db', hchunks, hrows⟩

end IExecutionResult
