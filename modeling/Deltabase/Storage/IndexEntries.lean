import Deltabase.Storage.IndexContents
import Deltabase.Storage.IndexCreation
import Deltabase.Storage.SeqScan

/-!
# What the operations do to indexes

An index file as the multiset of its entries (`Contains`): `insert_row` adds an
entry to each index in which the row has a value, `delete_rows` leaves all
indexes alone, and `create_index` fills a new file with an entry for each live
row that has a value.
-/

/-- An entry of an index: a value and the row it belongs to. -/
abbrev IndexEntry := DataToken × RowPtr

/-- **The entries of an index file** of an instance. -/
def Contains (files : IndexId → Option IndexFile) (id : IndexId) (es : List IndexEntry) : Prop :=
  ∃ file leaves Ls, files id = some file ∧ Represents {} file leaves Ls
    ∧ (leafEntries leaves).Perm es

/-- The entry of a row in an index on a column: none when it has no value
there. -/
def entryOf (mt : MetaTable) (columnId : ColumnId) (pageId : DataPageId) (row : DataRow) :
    Option IndexEntry :=
  (columnValue mt columnId row.tokens).map fun key => (key, (pageId, row.id))

section Contents

variable {files files' : IndexId → Option IndexFile} {id : IndexId} {es es' : List IndexEntry}

theorem Contains.perm (h : Contains files id es) (hperm : es.Perm es') : Contains files id es' := by
  obtain ⟨file, leaves, Ls, hfile, hrep, hes⟩ := h
  exact ⟨file, leaves, Ls, hfile, hrep, hes.trans hperm⟩

theorem Contains.congr (h : Contains files id es) (hfile : files' id = files id) :
    Contains files' id es := by
  obtain ⟨file, leaves, Ls, hf, hrep, hes⟩ := h
  exact ⟨file, leaves, Ls, hfile.trans hf, hrep, hes⟩

/-- The LSN of a file has nothing to do with its tree. -/
theorem Represents.withLastLsn {tree : IndexBPlusTree} {file : IndexFile} {leaves : List LeafBlock}
    {Ls : List (List IndexBlock)} (h : Represents tree file leaves Ls) (lsn : ℕ) :
    Represents tree { file with lastLsn := lsn } leaves Ls where
  stored := ⟨h.stored.ids, h.stored.nodup, h.stored.bound, h.stored.leaves.congr fun _ _ => rfl,
    h.stored.node, h.stored.parent, h.stored.distinct⟩
  chain := h.chain
  root := h.root
  rootParent := h.rootParent
  blocks := h.blocks
  leafSize := h.leafSize
  nonempty := h.nonempty
  wf := h.wf
  sorted := h.sorted

theorem Contains.of_sameTrees (h : Contains files id es)
    (hsame : StdDbInstance.SameTrees files files') : Contains files' id es := by
  obtain ⟨file, leaves, Ls, hfile, hrep, hes⟩ := h
  obtain ⟨f, hf⟩ := hsame id
  refine ⟨{ file with lastLsn := f file.lastLsn }, leaves, Ls, ?_, hrep.withLastLsn _, hes⟩
  rw [hf, hfile]
  rfl

/-- **Inserting into a tree** adds an entry. -/
theorem Contains.insert {file file' : IndexFile} {key : DataToken} {ptr : RowPtr}
    (h : Contains files id es) (hkey : key.WellFormed) (hfile : files id = some file)
    (hinsert : IndexBPlusTree.insert {} file key ptr = .ok file') :
    Contains (Function.update files id (some file')) id ((key, ptr) :: es) := by
  obtain ⟨file₀, leaves, Ls, hfile₀, hrep, hes⟩ := h
  obtain rfl : file₀ = file := Option.some.inj (hfile₀.symm.trans hfile)
  obtain ⟨file₁, leaves', Ls', X, Y, hinsert₁, hrep', hold, hnew⟩ :=
    hrep.insert_spec (by decide) (by decide) hkey ptr
  obtain rfl : file₁ = file' := Except.ok.inj (hinsert₁.symm.trans hinsert)
  refine ⟨file₁, leaves', Ls', Function.update_self _ _ _, hrep', ?_⟩
  rw [hnew]
  exact List.perm_middle.trans (.cons _ (hold ▸ hes))

/-- The value that goes into an index for a row. -/
theorem columnValue_eq_of_indexKey {mt : MetaTable} {mi : MetaIndex} {row : DataRow}
    {key : DataToken} (h : StdDbInstance.indexKey mt mi row = .ok key) :
    columnValue mt mi.columnId row.tokens = if key.type = .null then none else some key := by
  unfold StdDbInstance.indexKey at h
  obtain ⟨colIdx, hidx, h⟩ := bind_eq_ok.mp h
  unfold columnValue
  rw [hidx]
  show (row.tokens[colIdx]?).filter _ = _
  cases htoken : row.tokens[colIdx]? with
  | none =>
    rw [htoken] at h
    cases h
  | some token =>
    rw [htoken] at h
    obtain rfl := Except.ok.inj h
    simp [Option.filter]

end Contents

namespace StdDbInstance

open BufferPool Transaction FileIOManager RowView

variable {db db' : StdDbInstance}

namespace EntriesAdded

variable {mt : MetaTable} {row : DataRow} {pageId : DataPageId} {mis : List MetaIndex}
  {files files' : IndexId → Option IndexFile}

/-- Other index files stay. -/
theorem of_not_mem (h : EntriesAdded mt row pageId mis files files') {id : IndexId}
    (hid : id ∉ mis.map MetaIndex.id) : files' id = files id := by
  induction h with
  | nil files => rfl
  | null _ _ _ ih => exact ih fun hmem => hid (List.mem_cons_of_mem _ hmem)
  | added _ _ _ _ _ ih =>
    rw [ih fun hmem => hid (List.mem_cons_of_mem _ hmem), Function.update_of_ne]
    exact fun heq => hid (heq ▸ List.mem_cons_self)

/-- **Each index gets the entry of the row**, if the row has a value there. -/
theorem contains (h : EntriesAdded mt row pageId mis files files')
    (hnodup : (mis.map MetaIndex.id).Nodup) (hwf : ∀ token ∈ row.tokens, token.WellFormed)
    {mi : MetaIndex} (hmi : mi ∈ mis) {es : List IndexEntry} (hes : Contains files mi.id es) :
    Contains files' mi.id ((entryOf mt mi.columnId pageId row).toList ++ es) := by
  induction h with
  | nil files => cases hmi
  | @null mi' mis files files' key hkey hnull h ih =>
    have htail := List.nodup_cons.mp hnodup
    cases hmi with
    | tail _ hmi => exact ih htail.2 hmi hes
    | head =>
      have hnone : entryOf mt mi.columnId pageId row = none := by
        unfold entryOf
        rw [columnValue_eq_of_indexKey hkey, if_pos hnull]
        rfl
      rw [hnone]
      exact hes.congr (h.of_not_mem htail.1)
  | @added mi' mis files files' key file file' hkey hnull hfile hinsert h ih =>
    have htail := List.nodup_cons.mp hnodup
    cases hmi with
    | tail _ hmi =>
      have hne : mi.id ≠ mi'.id := fun heq => htail.1 (heq ▸ List.mem_map_of_mem hmi)
      exact ih htail.2 hmi (hes.congr (Function.update_of_ne hne _ _))
    | head =>
      have hsome : entryOf mt mi.columnId pageId row = some (key, (pageId, row.id)) := by
        unfold entryOf
        rw [columnValue_eq_of_indexKey hkey, if_neg hnull]
        rfl
      have hkeywf : key.WellFormed := by
        unfold indexKey at hkey
        obtain ⟨colIdx, -, hkey⟩ := bind_eq_ok.mp hkey
        cases htoken : row.tokens[colIdx]? with
        | none =>
          rw [htoken] at hkey
          cases hkey
        | some token =>
          rw [htoken] at hkey
          obtain rfl := Except.ok.inj hkey
          exact hwf token (List.mem_of_getElem? htoken)
      rw [hsome]
      exact (hes.insert hkeywf hfile hinsert).congr (h.of_not_mem htail.1)

end EntriesAdded

/-! ## Operations that leave indexes alone -/

/-- The same index files are seen. -/
structure SameIndexes (db db' : StdDbInstance) : Prop extends SameListing db db' where
  indexFile : db'.indexFile = db.indexFile

theorem SameIndexes.refl (db : StdDbInstance) : SameIndexes db db := ⟨.refl db, rfl⟩

theorem SameIndexes.trans {db'' : StdDbInstance} (h : SameIndexes db db')
    (h' : SameIndexes db' db'') : SameIndexes db db'' :=
  ⟨h.toSameListing.trans h'.toSameListing, h'.indexFile.trans h.indexFile⟩

theorem SameView.indexes (h : SameView db db') : SameIndexes db db' := ⟨h.listing, h.indexFile⟩

/-- A program that leaves the indexes alone, however it ends. -/
def LeavesIndexes {α : Type} (m : Prog α) : Prop :=
  ∀ db, Ensures m db (fun _ db' => SameIndexes db db') fun _ db' => SameIndexes db db'

section LeavesIndexes

variable {α β ι : Type}

theorem leavesIndexes_pure (a : α) : LeavesIndexes (pure a : Prog α) :=
  fun db => SameIndexes.refl db

theorem leavesIndexes_throw (e : Exn) : LeavesIndexes (throw e : Prog α) :=
  fun db => SameIndexes.refl db

theorem leavesIndexes_get : LeavesIndexes (get : Prog StdDbInstance) :=
  fun db => SameIndexes.refl db

theorem leavesIndexes_modify {f : StdDbInstance → StdDbInstance}
    (hf : ∀ db, SameIndexes db (f db)) : LeavesIndexes (modify f : Prog PUnit) := hf

theorem LeavesIndexes.bind {m : Prog α} {f : α → Prog β} (hm : LeavesIndexes m)
    (hf : ∀ a, LeavesIndexes (f a)) : LeavesIndexes (m >>= f) := by
  intro db
  rw [ensures_bind]
  exact (hm db).mono (fun a db₁ hsame => (hf a db₁).mono (fun _ _ h => hsame.trans h)
    fun _ _ h => hsame.trans h) fun _ _ h => h

theorem LeavesIndexes.foldlM {f : β → ι → Prog β} (hf : ∀ b i, LeavesIndexes (f b i))
    (l : List ι) (b : β) : LeavesIndexes (l.foldlM f b) := by
  induction l generalizing b with
  | nil => exact leavesIndexes_pure b
  | cons i l ih =>
    rw [List.foldlM_cons]
    exact (hf b i).bind ih

theorem leavesIndexes_getTable (tableName schemaName : Bytes) :
    LeavesIndexes (getTable tableName schemaName) :=
  fun db => (ensures_getTable tableName schemaName db).mono
    (fun _ _ h => h.1 ▸ SameIndexes.refl db) fun _ _ h => h.2 ▸ SameIndexes.refl db

theorem leavesIndexes_getTableData (tableId : TableId) : LeavesIndexes (getTableData tableId) :=
  fun db => (ensures_getTableData tableId db).mono (fun _ _ h => h.2.1.indexes)
    fun _ _ h => h.elim

theorem leavesIndexes_derefDp (id : DataPageId) : LeavesIndexes (derefDp id) := by
  unfold derefDp
  refine leavesIndexes_get.bind fun db => ?_
  cases db.pool.dataPages id with
  | none => exact leavesIndexes_throw _
  | some entry => exact leavesIndexes_pure _

theorem leavesIndexes_modifyDp (id : DataPageId) (f : DataPage → DataPage) :
    LeavesIndexes (modifyDp id f) := leavesIndexes_modify fun _ => ⟨⟨rfl, rfl⟩, rfl⟩

theorem leavesIndexes_dirtyDp (id : DataPageId) : LeavesIndexes (dirtyDp id) :=
  leavesIndexes_modify fun _ => ⟨⟨rfl, rfl⟩, rfl⟩

theorem leavesIndexes_saveTable (mt : MetaTable) : LeavesIndexes (saveTable mt) :=
  leavesIndexes_modify fun _ => ⟨⟨rfl, rfl⟩, rfl⟩

theorem leavesIndexes_appendLog (body : WalBody) : LeavesIndexes (appendLog body) := by
  unfold appendLog
  refine leavesIndexes_get.bind fun db => ?_
  have happend : LeavesIndexes (modify (appendRecord body) : Prog PUnit) :=
    leavesIndexes_modify fun _ => ⟨⟨rfl, rfl⟩, rfl⟩
  split_ifs
  · exact (leavesIndexes_throw _).bind fun _ => happend
  · exact happend

theorem leavesIndexes_getLastLsn : LeavesIndexes getLastLsn :=
  leavesIndexes_get.bind fun _ => leavesIndexes_pure _

theorem leavesIndexes_targetAt (ids : List ℕ) (pageId : DataPageId) (i : ℕ) :
    LeavesIndexes (targetAt ids pageId i) := by
  unfold targetAt
  refine (leavesIndexes_derefDp pageId).bind fun page => ?_
  cases page.rows[i]? with
  | none => exact leavesIndexes_throw _
  | some row =>
    show LeavesIndexes (if row.id ∉ ids then pure none
      else if row.obsolete then pure none else pure (some row))
    split_ifs <;> exact leavesIndexes_pure _

/-- The loops over rows leave indexes alone, if what is done with a row does. -/
theorem leavesIndexes_changePage {body : DataPageId → PageLoop → ℕ → DataRow → Prog PageLoop}
    (hbody : ∀ pageId loop i row, LeavesIndexes (body pageId loop i row)) (ids : List ℕ)
    (mt : MetaTable) (pointer : Option DataPage) :
    LeavesIndexes (changePage body ids mt pointer) := by
  cases pointer with
  | none => exact leavesIndexes_throw _
  | some p =>
    refine (leavesIndexes_derefDp p.id).bind fun page => ?_
    refine LeavesIndexes.bind (.foldlM (fun loop i => ?_) _ _) fun loop => ?_
    · refine (leavesIndexes_targetAt ids page.id i).bind fun found => ?_
      cases found with
      | none => exact leavesIndexes_pure _
      | some row => exact hbody page.id loop i row
    · split_ifs
      · exact (leavesIndexes_modifyDp _ _).bind fun _ =>
          (leavesIndexes_dirtyDp _).bind fun _ => leavesIndexes_pure _
      · exact leavesIndexes_pure _

theorem leavesIndexes_deleteRowAt (unchangedMt : MetaTable) (pageId : DataPageId)
    (loop : PageLoop) (i : ℕ) (row : DataRow) :
    LeavesIndexes (deleteRowAt unchangedMt pageId loop i row) :=
  (leavesIndexes_modifyDp _ _).bind fun _ => (leavesIndexes_saveTable _).bind fun _ =>
    (leavesIndexes_appendLog _).bind fun _ => leavesIndexes_getLastLsn.bind fun _ =>
      (leavesIndexes_appendLog _).bind fun _ => leavesIndexes_pure _

/-- **`delete_rows`** leaves the entries of the rows in the indexes. -/
theorem leavesIndexes_deleteRows (tableName schemaName : Bytes) (rows : List DataRow) :
    LeavesIndexes (deleteRows tableName schemaName rows) :=
  (leavesIndexes_getTable tableName schemaName).bind fun mt =>
    (leavesIndexes_getTableData mt.id).bind fun pages =>
      (LeavesIndexes.foldlM
        (leavesIndexes_changePage (leavesIndexes_deleteRowAt mt) _) pages mt).bind
        fun _ => leavesIndexes_pure _

end LeavesIndexes

/-! ## Filling a new index -/

/-- The entries that the live rows of pages get in an index on a column. -/
def liveEntriesOf (mt : MetaTable) (columnId : ColumnId) (pages : List DataPage) :
    List IndexEntry :=
  pages.flatMap fun p => (live p.rows).filterMap (entryOf mt columnId p.id)

theorem liveKey_eq_ok {mt : MetaTable} {columnId : ColumnId} {colIdx : ℕ} {row : DataRow}
    {found : Option DataToken} (hidx : mt.getColumnIdx columnId = .ok colIdx)
    (h : liveKey colIdx row = .ok found) :
    found = if row.obsolete then none else columnValue mt columnId row.tokens := by
  unfold liveKey at h
  unfold columnValue
  rw [hidx]
  split_ifs at h ⊢ with hobsolete
  · exact (Except.ok.inj h).symm
  · cases htoken : row.tokens[colIdx]? with
    | none =>
      rw [htoken] at h
      cases h
    | some key =>
      rw [htoken] at h
      rw [← Except.ok.inj h]
      show _ = (row.tokens[colIdx]?).filter _
      rw [htoken]
      simp [Option.filter]

/-- What filling an index changes: the file of the index, which gets these
entries. -/
structure Filled (db : StdDbInstance) (indexId : IndexId) (entries : List IndexEntry)
    (db' : StdDbInstance) : Prop where
  rows : SameRows db db'
  listing : SameListing db db'
  others : ∀ id, id ≠ indexId → db'.indexFile id = db.indexFile id
  contains : ∀ es, Contains db.indexFile indexId es →
    Contains db'.indexFile indexId (entries ++ es)

theorem Filled.refl (db : StdDbInstance) (indexId : IndexId) : Filled db indexId [] db :=
  ⟨.refl db, .refl db, fun _ _ => rfl, fun _ h => h⟩

theorem Filled.trans {db'' : StdDbInstance} {indexId : IndexId} {entries entries' : List IndexEntry}
    (h : Filled db indexId entries db') (h' : Filled db' indexId entries' db'') :
    Filled db indexId (entries ++ entries') db'' where
  rows := h.rows.trans h'.rows
  listing := h.listing.trans h'.listing
  others id hid := (h'.others id hid).trans (h.others id hid)
  contains es hes := by
    refine (h'.contains _ (h.contains es hes)).perm ?_
    rw [← List.append_assoc]
    exact List.perm_append_comm.append_right es

section Fill

variable {mt : MetaTable} {columnId : ColumnId} {colIdx : ℕ}
  (hidx : mt.getColumnIdx columnId = .ok colIdx)
include hidx

/-- One row of the loop that fills an index. -/
theorem ensures_indexExistingRow {row : DataRow} (hwf : ∀ token ∈ row.tokens, token.WellFormed)
    (tableId : TableId) (indexId : IndexId) (pageId : DataPageId) (db : StdDbInstance) :
    Ensures (indexExistingRow tableId indexId colIdx pageId row) db
      (fun _ db' => Filled db indexId ((live [row]).filterMap (entryOf mt columnId pageId)) db')
      fun _ _ => True := by
  unfold indexExistingRow
  rw [ensures_bind, ensures_liftExcept]
  refine ⟨fun found hfound => ?_, fun _ _ => trivial⟩
  have hvalue := liveKey_eq_ok hidx hfound
  cases hobsolete : row.obsolete with
  | true =>
    rw [hobsolete, if_pos rfl] at hvalue
    subst hvalue
    have hnil : live [row] = [] := List.filter_cons_of_neg (by simp [hobsolete])
    rw [hnil]
    exact .refl db indexId
  | false =>
    rw [hobsolete, if_neg (by simp)] at hvalue
    have hlive : live [row] = [row] := List.filter_cons_of_pos (by simp [hobsolete])
    rw [hlive]
    cases found with
    | none =>
      have hnone : entryOf mt columnId pageId row = none := by
        unfold entryOf
        rw [← hvalue]
        rfl
      rw [List.filterMap_cons_none hnone]
      exact .refl db indexId
    | some key =>
      have hsome : entryOf mt columnId pageId row = some (key, (pageId, row.id)) := by
        unfold entryOf
        rw [← hvalue]
        rfl
      have hkey : key.WellFormed := by
        unfold columnValue at hvalue
        rw [hidx] at hvalue
        exact hwf key (List.mem_of_getElem? (Option.filter_eq_some_iff.mp hvalue.symm).1)
      rw [List.filterMap_cons_some hsome]
      refine (ensures_treeInsert tableId indexId key (pageId, row.id) db).mono
        (fun _ db' ⟨hrows, hio, hlists, file, file', hfile, hinsert, hfiles⟩ => ?_)
        fun _ _ _ => trivial
      refine ⟨hrows, ⟨hio, hlists⟩, fun id hid => ?_, fun es hes => ?_⟩
      · rw [hfiles, Function.update_of_ne hid]
      · rw [hfiles]
        exact hes.insert hkey hfile hinsert

/-- The rows of a page. -/
theorem ensures_indexPageRows (tableId : TableId) (indexId : IndexId) (pageId : DataPageId)
    (rows : List DataRow) (hwf : ∀ row ∈ rows, ∀ token ∈ row.tokens, token.WellFormed)
    (db : StdDbInstance) :
    Ensures (rows.forM (indexExistingRow tableId indexId colIdx pageId)) db
      (fun _ db' => Filled db indexId ((live rows).filterMap (entryOf mt columnId pageId)) db')
      fun _ _ => True := by
  induction rows generalizing db with
  | nil => exact .refl db indexId
  | cons row rows ih =>
    show Ensures (indexExistingRow tableId indexId colIdx pageId row >>= fun _ =>
      rows.forM (indexExistingRow tableId indexId colIdx pageId)) db _ _
    rw [ensures_bind]
    have hsplit : live ([row] ++ rows) = live [row] ++ live rows := List.filter_append ..
    change live (row :: rows) = _ at hsplit
    rw [hsplit, List.filterMap_append]
    refine
      (ensures_indexExistingRow hidx (hwf row List.mem_cons_self) tableId indexId pageId db).mono
      (fun _ db₁ hfilled => ?_) fun _ _ h => h
    exact (ih (fun r hr => hwf r (List.mem_cons_of_mem row hr)) db₁).mono
      (fun _ _ h => hfilled.trans h) fun _ _ h => h

/-- **The loop that fills an index** gives it the entries of all live rows. -/
theorem ensures_indexPages (tableId : TableId) (indexId : IndexId) (pages : List DataPage)
    (hwf : ∀ p ∈ pages, ∀ row ∈ p.rows, ∀ token ∈ row.tokens, token.WellFormed)
    (db : StdDbInstance) :
    Ensures ((pages.map some).forM fun pointer => do
        let page ← derefPage pointer
        page.rows.forM (indexExistingRow tableId indexId colIdx page.id)) db
      (fun _ db' => Filled db indexId (liveEntriesOf mt columnId pages) db') fun _ _ => True := by
  induction pages generalizing db with
  | nil => exact .refl db indexId
  | cons p pages ih =>
    show Ensures (p.rows.forM (indexExistingRow tableId indexId colIdx p.id) >>= fun _ =>
      (pages.map some).forM _) db _ _
    rw [ensures_bind]
    refine
      (ensures_indexPageRows hidx tableId indexId p.id p.rows (hwf p List.mem_cons_self) db).mono
      (fun _ db₁ hfilled => ?_) fun _ _ h => h
    exact (ih (fun q hq => hwf q (List.mem_cons_of_mem p hq)) db₁).mono
      (fun _ _ h => hfilled.trans h) fun _ _ h => h

end Fill

/-- **`create_table_index`** makes the file of an index and lists it. -/
theorem ensures_createTableIndex_files (schemaName : Bytes) (table : MetaTable) (index : MetaIndex)
    (lsn : ℕ) (db : StdDbInstance) :
    Ensures (createTableIndex schemaName table index lsn) db
      (fun _ db' => db'.pool.indexFilesPerTable
          = listId db.pool.indexFilesPerTable table.id index.id
        ∧ db'.indexFile = Function.update db.indexFile index.id
          (some { IndexFile.create index.id with lastLsn := lsn }))
      fun _ _ => False := by
  unfold createTableIndex dirtyIf
  simp only [ensures_bind, ensures_modify]
  refine ⟨rfl, ?_⟩
  show (changeIf index.id (fun entry => { entry with dirty := true }) _).indexFile = _
  rw [indexFile_mark]
  show (putIf index.id { IndexFile.create index.id with lastLsn := lsn }
    { db with io := (createIndexFile db.io schemaName table.name index).2 }).indexFile = _
  rw [indexFile_putIf]
  funext id
  rw [Function.update_apply, Function.update_apply]
  split_ifs with hid
  · rfl
  · unfold indexFile
    dsimp only
    have hread : readIndexFile (createIndexFile db.io schemaName table.name index).2 id
        = readIndexFile db.io id := by
      show (Function.update db.io.indexFiles index.id _ id).map _ = _
      rw [Function.update_of_ne hid]
      rfl
    rw [hread]

/-- **What `create_index` does to the indexes** when it returns: there is a new
file, which is listed for the table and has the entries of its live rows. -/
structure MadeIndex (db : StdDbInstance) (table : MetaTable) (mi : MetaIndex)
    (db' : StdDbInstance) : Prop where
  lists : db'.pool.indexFilesPerTable = listId db.pool.indexFilesPerTable table.id mi.id
  others : ∀ id, id ≠ mi.id → db'.indexFile id = db.indexFile id
  contains : Contains db'.indexFile mi.id
    (liveEntriesOf table mi.columnId (db.rowView.pages table.id))

/-- The part of `create_index` after the uniqueness check. -/
theorem ensures_fillIndex_entries {table table' : MetaTable} {mi : MetaIndex} {colIdx : ℕ}
    (hidx : table.getColumnIdx mi.columnId = .ok colIdx) {pages : List DataPage}
    (hwf : ∀ p ∈ pages, ∀ row ∈ p.rows, ∀ token ∈ row.tokens, token.WellFormed) (lsn : ℕ)
    {db₀ : StdDbInstance} (hpages : pages = db₀.rowView.pages table.id)
    (hlists : db.pool.indexFilesPerTable = listId db₀.pool.indexFilesPerTable table.id mi.id)
    (hothers : ∀ id, id ≠ mi.id → db.indexFile id = db₀.indexFile id)
    (hempty : Contains db.indexFile mi.id []) :
    Ensures (do
        (pages.map some).forM fun pointer => do
          let page ← derefPage pointer
          page.rows.forM (indexExistingRow table.id mi.id colIdx page.id)
        setIfLsn mi.id lsn
        saveTable table') db
      (fun _ db' => MadeIndex db₀ table mi db') fun _ _ => True := by
  rw [ensures_bind]
  refine (ensures_indexPages hidx table.id mi.id pages hwf db).mono (fun _ db₁ hfilled => ?_)
    fun _ _ h => h
  unfold setIfLsn saveTable
  rw [ensures_bind, ensures_modify, ensures_modify]
  refine ⟨hfilled.listing.indexLists.trans hlists, fun id hid => ?_, ?_⟩
  · exact (indexFile_changeIf_of_ne hid _ db₁).trans
      ((hfilled.others id hid).trans (hothers id hid))
  · have hes := (hfilled.contains [] hempty).of_sameTrees (sameTrees_setIfLsn mi.id lsn db₁)
    rw [List.append_nil, hpages] at hes
    exact hes

theorem ensures_createIndex_entries (hactive : db.txn.state = .active) (hok : db.rowView.Ok)
    (indexName tableName columnName schemaName : Bytes) (isUnique : Bool)
    (hwf : ∀ mt, LooksUp db tableName schemaName mt → ∀ row ∈ db.tableRows mt.id,
      ∀ token ∈ row.tokens, token.WellFormed) :
    Ensures (createIndex indexName tableName columnName schemaName isUnique) db
      (fun _ db' => ∃ table column, LooksUp db tableName schemaName table
        ∧ table.getColumn columnName = .ok column
        ∧ MadeIndex db table (newIndex db table column indexName isUnique) db')
      fun _ _ => True := by
  unfold createIndex
  rw [ensures_bind]
  refine (ensures_getTable tableName schemaName db).mono (fun table db₀ hfound => ?_)
    fun _ _ _ => trivial
  obtain ⟨hdb, hlook⟩ := hfound
  subst hdb
  rw [ensures_bind, ensures_liftExcept]
  refine ⟨fun column hcolumn => ?_, fun _ _ => trivial⟩
  rw [ensures_bind]
  show Ensures (appendLog (.createIndex (newIndex db₀ table column indexName isUnique)) >>= _)
    { db₀ with clock := db₀.generator.next db₀.clock } _ _
  set mi := newIndex db₀ table column indexName isUnique with hmi
  rw [ensures_bind, ensures_appendLog (by exact hactive)]
  unfold getLastLsn
  simp only [ensures_bind, ensures_get, ensures_pure]
  set db₁ := appendRecord (.createIndex mi)
    { db₀ with clock := db₀.generator.next db₀.clock } with hdb₁
  have hmade : Ensures (createTableIndex schemaName table mi db₁.txn.lastLsn) db₁
      (fun _ db₂ => SameRows db₁ db₂
        ∧ db₂.pool.indexFilesPerTable = listId db₀.pool.indexFilesPerTable table.id mi.id
        ∧ (∀ id, id ≠ mi.id → db₂.indexFile id = db₀.indexFile id)
        ∧ Contains db₂.indexFile mi.id []) fun _ _ => False := by
    have hrows := ensures_createTableIndex schemaName table mi db₁.txn.lastLsn db₁
    have hfiles := ensures_createTableIndex_files schemaName table mi db₁.txn.lastLsn db₁
    refine ensures_iff.mpr ⟨fun _ db₂ h => ?_, fun _ _ h => hrows.of_error h⟩
    obtain ⟨hlists, hfile⟩ := hfiles.of_ok h
    refine ⟨hrows.of_ok h, hlists, fun id hid => ?_, ?_⟩
    · rw [hfile, Function.update_of_ne hid]
      rfl
    · refine ⟨_, [⟨1, []⟩], [], ?_, (represents_create {} mi.id).withLastLsn db₁.txn.lastLsn,
        List.Perm.refl _⟩
      rw [hfile, Function.update_self]
  refine hmade.mono (fun _ db₂ hdb₂ => ?_) fun _ _ h => h.elim
  obtain ⟨hsame₂, hlists, hothers, hempty⟩ := hdb₂
  rw [ensures_liftExcept]
  refine ⟨fun colIdx hcolIdx => ?_, fun _ _ => trivial⟩
  refine (ensures_getTableData table.id db₂).mono (fun found db₃ hdata => ?_) fun _ _ h => h.elim
  obtain ⟨hfound, hsame₃, -⟩ := hdata
  have hpages : found = (db₀.rowView.pages table.id).map some := by
    rw [hfound, hsame₂.pageIds, hsame₂.page]
    exact (pages_of_ok hok table.id).1
  have hwf' : ∀ p ∈ db₀.rowView.pages table.id, ∀ row ∈ p.rows, ∀ token ∈ row.tokens,
      token.WellFormed := by
    intro p hp row hrow
    refine hwf table hlook row ?_
    show row ∈ db₀.rowView.rows table.id
    rw [rows_eq_pages]
    exact List.mem_flatMap.mpr ⟨p, hp, hrow⟩
  have hlists₃ := hsame₃.indexLists.trans hlists
  have hothers₃ : ∀ id, id ≠ mi.id → db₃.indexFile id = db₀.indexFile id := by
    intro id hid
    rw [hsame₃.indexFile, hothers id hid]
  have hempty₃ : Contains db₃.indexFile mi.id [] := by
    rw [hsame₃.indexFile]
    exact hempty
  rw [hpages]
  split_ifs with hunique
  · simp only [ensures_bind]
    refine (ensures_checkPages _ colIdx _ [] db₃).mono (fun seen db₄ hchecked => ?_)
      fun _ _ _ => trivial
    obtain ⟨hdb, -⟩ := hchecked
    subst hdb
    simp only [← ensures_bind]
    exact (ensures_fillIndex_entries hcolIdx hwf' _ rfl hlists₃ hothers₃ hempty₃).mono
      (fun _ db' h => ⟨table, column, hlook, hcolumn, h⟩) fun _ _ h => h
  · exact (ensures_fillIndex_entries hcolIdx hwf' _ rfl hlists₃ hothers₃ hempty₃).mono
      (fun _ db' h => ⟨table, column, hlook, hcolumn, h⟩) fun _ _ h => h

end StdDbInstance
