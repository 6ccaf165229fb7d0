import Deltabase.Lib.LinkedChain
import Deltabase.Recovery.RedoPass
import Deltabase.Storage.TableRows

/-!
# An instance in step with its log

While a transaction runs, pages in the pool are ahead of their files and the
catalog is ahead of the meta files; the log has what is missing. `Logged H T v`
says so of a view `v`, for a history `H` and the tables in `T`: the catalog is
what `H` makes of the metadata, and each page is what the records of `H` that
its file has not seen make of the file.

Records name rows by their ids. What `update_row` does to the row at a position
is what redo does to the row with the id only when no other row of the page has
the id; `PageLogged` is about pages whose rows have distinct ids.

The links between pages are in no record. They are as they should be in the
pool (`Chained`), which says nothing about the files.
-/

namespace RowView

open History RecoveryManager FileIOManager

variable {H : List WalRecord} {T : Set TableId} {v v' : RowView}

/-- The files, as far as rows are concerned. -/
def disk (v : RowView) : Disk where
  schemas := v.ioSchemas
  tables := v.ioTables
  pages := v.ioPages

/-- The page after a page. -/
def nextOf (v : RowView) (id : DataPageId) : DataPageId :=
  ((v.page id).map DataPage.next).getD UUID.null

/-- **The pages of a table form one chain.** -/
def Chained (v : RowView) (tableId : TableId) : Prop :=
  ∃ order, order.Perm (v.ids tableId) ∧ Linked v.nextOf UUID.null order

/-- The record that `log` appends. -/
def record (v : RowView) (body : WalBody) : WalRecord where
  lsn := v.wal.nextLsn
  prevLsn := v.txn.lastLsn
  txnId := v.txn.id
  body := body

theorem log_kept (v : RowView) (body : WalBody) :
    (v.log body).wal.kept = v.wal.kept ++ [v.record body] := rfl

theorem log_nextLsn (v : RowView) (body : WalBody) :
    (v.log body).wal.nextLsn = v.wal.nextLsn + 1 := by
  unfold AppendOnlyLog.nextLsn
  rw [log_kept, List.length_append]
  rfl

/-- The path of a page is that of its table, which the history creates. -/
def PlacedPage (H : List WalRecord) (p : DataPage) : Prop :=
  ∃ t ∈ createdTables H, t.id = p.tableId
    ∧ ∃ s ∈ createdSchemas H, s.id = t.schemaId ∧ p.path = (s.name, t.name)

/-- **The page redo would start from**: the file of a page, or the empty page
that is made when there is none. -/
structure Base (v : RowView) (id : DataPageId) (p base : DataPage) : Prop where
  found : v.ioPages id = some base
    ∨ v.ioPages id = none ∧ base = DataPage.make p.path p.tableId id
  tableId : base.tableId = p.tableId
  path : base.path = p.path
  lastLsn : base.lastLsn ≤ p.lastLsn

/-- **A page in step with the log.** -/
structure PageLogged (H : List WalRecord) (v : RowView) (id : DataPageId) (p : DataPage) :
    Prop where
  pos : 0 < id
  placed : PlacedPage H p
  listed : id ∈ v.ids p.tableId
  owner : ∀ r ∈ H, ∀ t, r.body.dataRef = some (t, id) → t = p.tableId
  seen : ∀ r ∈ dataRecords id H, r.lsn ≤ p.lastLsn
  lsn : p.lastLsn < v.wal.nextLsn
  base : ∃ base, Base v id p base ∧ ((p.rows.map DataRow.id).Nodup → p.rows
    = replayRows base.rows ((dataRecords id H).filter fun r => base.lastLsn < r.lsn))
  clean : v.dirty id = false → ∃ d, v.ioPages id = some d ∧ d.rows = p.rows ∧ d.next = p.next
    ∧ d.lastLsn = p.lastLsn

/-- **The catalog in step with a history**: it is what the history makes of the
schemas and tables, and the ids in the history have been handed out. Of a table
outside `T` only its id, name and schema are known. -/
structure CatalogLogged (H : List WalRecord) (T : Set TableId) (v : RowView) : Prop where
  log : InstanceLog H
  lsns : ∀ r ∈ H, r.lsn < v.wal.nextLsn
  txns : ∀ r ∈ H, r.txnId < v.clock
  schemaIds : ∀ s ∈ createdSchemas H, 0 < s.id ∧ s.id < v.clock
  tableIds : ∀ t ∈ createdTables H, t.id < v.clock
  schemas : ∀ s, s ∈ v.catalog.schemas ↔ s ∈ createdSchemas H
  tables : ∀ t, Option.Rel MetaTable.SameTable (tableAfter t H) (v.entry t)
  entries : ∀ t ∈ T, v.entry t = tableAfter t H
  ioSchemas : ∀ s ∈ v.ioSchemas, s ∈ createdSchemas H
  ioTables : ∀ file ∈ v.ioTables, Placed H file

/-- **The pages in step with a history**, those of the tables in `T`. -/
structure PagesLogged (H : List WalRecord) (T : Set TableId) (v : RowView) : Prop where
  ok : v.Ok
  pages : ∀ id p, v.page id = some p → p.tableId ∈ T → PageLogged H v id p
  missing : ∀ id, v.page id = none → v.ioPages id = none ∧ dataRecords id H = []
  chains : ∀ t ∈ T, Chained v t
  named : ∀ id d, v.ioPages id = some d → d.id = id

/-- **A view in step with a history**, as far as the tables in `T` go. -/
structure Logged (H : List WalRecord) (T : Set TableId) (v : RowView) : Prop where
  catalog : CatalogLogged H T v
  pages : PagesLogged H T v

/-! ## More records -/

/-- More history puts nothing out of place. -/
theorem placed_append {file : TableFile} (h : Placed H file) (rs : List WalRecord) :
    Placed (H ++ rs) file := by
  obtain ⟨t, ht, hsame, s, hs, hid, hname⟩ := h
  refine ⟨t, ?_, hsame, s, ?_, hid, hname⟩
  · rw [createdTables_append]
    exact List.mem_append_left _ ht
  · rw [createdSchemas_append]
    exact List.mem_append_left _ hs

theorem PlacedPage.append {p : DataPage} (h : PlacedPage H p) (rs : List WalRecord) :
    PlacedPage (H ++ rs) p := by
  obtain ⟨t, ht, hid, s, hs, hsid, hpath⟩ := h
  refine ⟨t, ?_, hid, s, ?_, hsid, hpath⟩
  · rw [createdTables_append]
    exact List.mem_append_left _ ht
  · rw [createdSchemas_append]
    exact List.mem_append_left _ hs

/-- A page stays in step when records are written that are not about it. -/
theorem PageLogged.append {id : DataPageId} {p : DataPage} (h : PageLogged H v id p)
    {rs : List WalRecord} (hrs : dataRecords id rs = [])
    (hids : ∀ t, v.ids t ⊆ v'.ids t) (hlsn : v.wal.nextLsn ≤ v'.wal.nextLsn)
    (hio : v'.ioPages id = v.ioPages id) (hdirty : v'.dirty id = v.dirty id) :
    PageLogged (H ++ rs) v' id p := by
  have hrecords : dataRecords id (H ++ rs) = dataRecords id H := by
    rw [dataRecords_append, hrs, List.append_nil]
  refine ⟨h.pos, h.placed.append rs, hids _ h.listed, fun r hr t href => ?_, ?_,
    h.lsn.trans_le hlsn, ?_, ?_⟩
  · rcases List.mem_append.mp hr with hr | hr
    · exact h.owner r hr t href
    · have hmem : r ∈ dataRecords id rs := mem_dataRecords.mpr ⟨hr, t, href⟩
      rw [hrs] at hmem
      cases hmem
  · rw [hrecords]
    exact h.seen
  · obtain ⟨base, hbase, hrows⟩ := h.base
    rw [hrecords]
    exact ⟨base, ⟨hio ▸ hbase.found, hbase.tableId, hbase.path, hbase.lastLsn⟩, hrows⟩
  · rw [hio, hdirty]
    exact h.clean

theorem chained_congr {t : TableId} (h : Chained v t) (hids : v'.ids t = v.ids t)
    (hnext : v'.nextOf = v.nextOf) : Chained v' t := by
  obtain ⟨order, hperm, hlinked⟩ := h
  exact ⟨order, hids ▸ hperm, hnext ▸ hlinked⟩

/-! ## The catalog -/

namespace CatalogLogged

/-- Only the catalog, the meta files, the end of the log and the clock
matter. -/
theorem congr (h : CatalogLogged H T v) (hcatalog : v'.catalog = v.catalog)
    (hschemas : v'.ioSchemas = v.ioSchemas) (htables : v'.ioTables = v.ioTables)
    (hwal : v.wal.nextLsn ≤ v'.wal.nextLsn) (hclock : v.clock ≤ v'.clock) :
    CatalogLogged H T v' where
  log := h.log
  lsns r hr := (h.lsns r hr).trans_le hwal
  txns r hr := (h.txns r hr).trans_le hclock
  schemaIds s hs := ⟨(h.schemaIds s hs).1, (h.schemaIds s hs).2.trans_le hclock⟩
  tableIds t ht := (h.tableIds t ht).trans_le hclock
  schemas := hcatalog ▸ h.schemas
  tables t := by
    unfold entry
    rw [hcatalog]
    exact h.tables t
  entries t ht := by
    unfold entry
    rw [hcatalog]
    exact h.entries t ht
  ioSchemas := hschemas ▸ h.ioSchemas
  ioTables := htables ▸ h.ioTables

/-- **One more record**, and the catalog that goes with it. -/
theorem append (h : CatalogLogged H T v) {body : WalBody} (hadm : Admissible H body)
    (hsilent : ∀ c ∈ H, c.body = .commitTxn → c.txnId ≠ v.txn.id) (htxn : v.txn.id < v.clock)
    (hwal : v'.wal.nextLsn = v.wal.nextLsn + 1) (hclock : v.clock ≤ v'.clock)
    (hioSchemas : v'.ioSchemas = v.ioSchemas) (hioTables : v'.ioTables = v.ioTables)
    (hnewSchemas : ∀ s ∈ createdSchemas [v.record body], 0 < s.id ∧ s.id < v'.clock)
    (hnewTables : ∀ t ∈ createdTables [v.record body], t.id < v'.clock)
    (hschemas : ∀ s, s ∈ v'.catalog.schemas
      ↔ s ∈ v.catalog.schemas ∨ s ∈ createdSchemas [v.record body])
    (hentries : ∀ t, v'.entry t = tableImage t body (v.entry t)) :
    CatalogLogged (H ++ [v.record body]) T v' where
  log := .snoc h.log (Nat.succ_pos _) (fun r hr => h.lsns r hr) (fun c hc hcommit =>
    hsilent c hc hcommit) hadm
  lsns r hr := by
    rw [hwal]
    rcases List.mem_append.mp hr with hr | hr
    · exact (h.lsns r hr).trans (Nat.lt_succ_self _)
    · rw [List.mem_singleton.mp hr]
      exact Nat.lt_succ_self _
  txns r hr := by
    rcases List.mem_append.mp hr with hr | hr
    · exact (h.txns r hr).trans_le hclock
    · rw [List.mem_singleton.mp hr]
      exact htxn.trans_le hclock
  schemaIds s hs := by
    rw [createdSchemas_append] at hs
    rcases List.mem_append.mp hs with hs | hs
    · exact ⟨(h.schemaIds s hs).1, (h.schemaIds s hs).2.trans_le hclock⟩
    · exact hnewSchemas s hs
  tableIds t ht := by
    rw [createdTables_append] at ht
    rcases List.mem_append.mp ht with ht | ht
    · exact (h.tableIds t ht).trans_le hclock
    · exact hnewTables t ht
  schemas s := by
    rw [hschemas, h.schemas, createdSchemas_append, List.mem_append]
  tables t := by
    rw [tableAfter_snoc, hentries]
    have hrel := h.tables t
    rcases tableImage_cases t body with ⟨mt, -, -, himage⟩ | ⟨f, hf, himage⟩
    · show Option.Rel _ (tableImage t body _) _
      rw [himage, himage]
      exact .some ⟨rfl, rfl, rfl⟩
    · show Option.Rel _ (tableImage t body _) _
      rw [himage, himage]
      revert hrel
      generalize tableAfter t H = x, v.entry t = y
      rintro (⟨hsame⟩ | _)
      · rename_i a b
        obtain ⟨ha, hb⟩ := And.intro (hf a) (hf b)
        exact .some ⟨ha.1.symm.trans (hsame.1.trans hb.1),
          ha.2.1.symm.trans (hsame.2.1.trans hb.2.1), ha.2.2.symm.trans (hsame.2.2.trans hb.2.2)⟩
      · exact .none
  entries t ht := by
    rw [tableAfter_snoc, hentries, h.entries t ht]
    rfl
  ioSchemas s hs := by
    rw [createdSchemas_append]
    exact List.mem_append_left _ (h.ioSchemas s (hioSchemas ▸ hs))
  ioTables file hfile := placed_append (h.ioTables file (hioTables ▸ hfile)) _

/-- A record that creates nothing and changes no table. -/
theorem append_log (h : CatalogLogged H T v) {b : WalBody} (hadm : Admissible H b)
    (hsilent : ∀ c ∈ H, c.body = .commitTxn → c.txnId ≠ v.txn.id) (htxn : v.txn.id < v.clock)
    (hschemas : createdSchemas [v.record b] = []) (htables : createdTables [v.record b] = [])
    (himage : ∀ t image, tableImage t b image = image) :
    CatalogLogged (H ++ [v.record b]) T (v.log b) := by
  refine h.append hadm hsilent htxn (log_nextLsn v b) le_rfl rfl rfl ?_ ?_ (fun s => ?_)
    fun t => (himage t _).symm
  · rw [hschemas]
    exact fun s hs => by cases hs
  · rw [htables]
    exact fun t ht => by cases ht
  · rw [hschemas]
    exact ⟨.inl, fun hs => hs.resolve_right (List.not_mem_nil)⟩

/-- A table of the catalog is one that the history creates. -/
theorem exists_created (h : CatalogLogged H T v) {t : TableId} {mt : MetaTable}
    (hmt : v.entry t = some mt) : ∃ t₀ ∈ createdTables H, t₀.id = t ∧ t₀.SameTable mt := by
  have hrel := h.tables t
  rw [hmt] at hrel
  cases hafter : tableAfter t H with
  | none => rw [hafter] at hrel; cases hrel
  | some mt' =>
    rw [hafter] at hrel
    obtain ⟨t₀, ht₀, hid, hsame⟩ := h.log.created_of_tableAfter hafter
    cases hrel with
    | some hrel =>
      exact ⟨t₀, ht₀, hid, hsame.1.trans hrel.1, hsame.2.1.trans hrel.2.1,
        hsame.2.2.trans hrel.2.2⟩

/-- A table that the history creates is in the catalog. -/
theorem exists_entry (h : CatalogLogged H T v) {t : MetaTable} (ht : t ∈ createdTables H) :
    ∃ mt, v.entry t.id = some mt ∧ t.SameTable mt := by
  obtain ⟨mt, hmt⟩ := h.log.exists_tableAfter ht
  have hrel := h.tables t.id
  rw [hmt] at hrel
  cases hentry : v.entry t.id with
  | none => rw [hentry] at hrel; cases hrel
  | some mt' =>
    obtain ⟨t₀, ht₀, hid, hsame⟩ := h.exists_created hentry
    obtain rfl := (h.log.table_unique t₀ ht₀ t ht).1 hid
    exact ⟨mt', rfl, hsame⟩

end CatalogLogged

/-! ## The pages -/

/-- Time passes. -/
theorem Ok.congr (h : v.Ok) (hpage : v'.page = v.page) (hlists : v'.lists = v.lists)
    (hclock : v.clock ≤ v'.clock) : v'.Ok where
  named := hpage ▸ h.named
  older id p hp := (h.older id p (hpage ▸ hp)).trans_le hclock
  clock_pos := h.clock_pos.trans_le hclock
  listed t id hid := by
    unfold ids at hid
    rw [hlists] at hid
    rw [hpage]
    exact h.listed t id hid
  nodup t := by
    unfold ids
    rw [hlists]
    exact h.nodup t

theorem nextOf_update {id : DataPageId} {p p' : DataPage} (hp : v.page id = some p)
    (hpage : v'.page = Function.update v.page id (some p')) (hnext : p'.next = p.next) :
    v'.nextOf = v.nextOf := by
  funext id'
  unfold nextOf
  rw [hpage, Function.update_apply]
  split_ifs with hid
  · rw [hid, hp, Option.map_some, Option.map_some, hnext]
  · rfl

/-- A page of the table is a page of the chain, and is not the null page. -/
theorem PagesLogged.pos (h : PagesLogged H T v) {t : TableId} (ht : t ∈ T) {id : DataPageId}
    (hid : id ∈ v.ids t) : 0 < id := by
  obtain ⟨p, hp, htable⟩ := h.ok.listed t id hid
  exact (h.pages id p hp (htable ▸ ht)).pos

namespace PagesLogged

/-- **Records without a page** leave the pages in step. -/
theorem append (h : PagesLogged H T v) {R : List WalRecord} (hrs : ∀ id, dataRecords id R = [])
    (hpage : v'.page = v.page) (hlists : v'.lists = v.lists) (hdirty : v'.dirty = v.dirty)
    (hio : v'.ioPages = v.ioPages) (hwal : v.wal.nextLsn ≤ v'.wal.nextLsn)
    (hclock : v.clock ≤ v'.clock) : PagesLogged (H ++ R) T v' := by
  have hids : v'.ids = v.ids := by
    funext t
    unfold ids
    rw [hlists]
  refine ⟨h.ok.congr hpage hlists hclock, fun id p hp ht => ?_, fun id hid => ?_, fun t ht => ?_,
    hio ▸ h.named⟩
  · exact (h.pages id p (hpage ▸ hp) ht).append (hrs id) (fun t => hids ▸ List.Subset.refl _) hwal
      (congrFun hio id) (congrFun hdirty id)
  · rw [hio, dataRecords_append, hrs id, List.append_nil]
    exact h.missing id (hpage ▸ hid)
  · refine chained_congr (h.chains t ht) (congrFun hids t) ?_
    funext id
    unfold nextOf
    rw [hpage]

/-- **A data record and what it is about**: a page changes the way redo would
change it, and is marked. -/
theorem change (h : PagesLogged H T v) {id : DataPageId} {p p' : DataPage} {r : WalRecord}
    {rs : List WalRecord} (hp : v.page id = some p)
    (hpage : v'.page = Function.update v.page id (some p'))
    (hdirty : v'.dirty = Function.update v.dirty id true) (hlists : v'.lists = v.lists)
    (hio : v'.ioPages = v.ioPages) (hclock : v'.clock = v.clock)
    (hid : p'.id = p.id) (htable : p'.tableId = p.tableId) (hpath : p'.path = p.path)
    (hnext : p'.next = p.next) (hrs : dataRecords id rs = [r])
    (hother : ∀ id', id' ≠ id → dataRecords id' rs = [])
    (howner : ∀ t, r.body.dataRef = some (t, id) → t = p.tableId)
    (hlsn : v.wal.nextLsn ≤ r.lsn) (hstamp : r.lsn ≤ p'.lastLsn)
    (hend : p'.lastLsn < v'.wal.nextLsn)
    (hrows : (p'.rows.map DataRow.id).Nodup →
      (p.rows.map DataRow.id).Nodup ∧ p'.rows = redoRows r.body p.rows) :
    PagesLogged (H ++ rs) T v' := by
  have hids : v'.ids = v.ids := by
    funext t
    unfold ids
    rw [hlists]
  have hwal : v.wal.nextLsn ≤ v'.wal.nextLsn := (hlsn.trans hstamp).trans hend.le
  refine ⟨⟨fun id' q hq => ?_, fun id' q hq => ?_, hclock ▸ h.ok.clock_pos, fun t id' hid' => ?_,
    fun t => hids ▸ h.ok.nodup t⟩, fun id' q hq ht => ?_, fun id' hid' => ?_, fun t ht => ?_,
    hio ▸ h.named⟩
  · rw [hpage, Function.update_apply] at hq
    split_ifs at hq with heq
    · rw [← Option.some.inj hq, hid, heq]
      exact h.ok.named id p hp
    · exact h.ok.named id' q hq
  · rw [hclock]
    rw [hpage, Function.update_apply] at hq
    split_ifs at hq with heq
    · rw [heq]
      exact h.ok.older id p hp
    · exact h.ok.older id' q hq
  · rw [hids] at hid'
    obtain ⟨q, hq, hqt⟩ := h.ok.listed t id' hid'
    rw [hpage, Function.update_apply]
    split_ifs with heq
    · rw [heq, hp] at hq
      obtain rfl := Option.some.inj hq
      exact ⟨p', rfl, htable.trans hqt⟩
    · exact ⟨q, hq, hqt⟩
  · rw [hpage, Function.update_apply] at hq
    split_ifs at hq with heq
    · obtain rfl := Option.some.inj hq
      rw [heq]
      have hlogged := h.pages id p hp (htable ▸ ht)
      have hrecords : dataRecords id (H ++ rs) = dataRecords id H ++ [r] := by
        rw [dataRecords_append, hrs]
      refine ⟨hlogged.pos, ?_, ?_, fun r' hr' t href => ?_, fun r' hr' => ?_, hend, ?_,
        fun hclean => ?_⟩
      · obtain ⟨t, ht, hid, s, hs, hsid, hp'⟩ := hlogged.placed.append rs
        exact ⟨t, ht, hid.trans htable.symm, s, hs, hsid, hpath.trans hp'⟩
      · rw [htable, hids]
        exact hlogged.listed
      · rw [htable]
        rcases List.mem_append.mp hr' with hr' | hr'
        · exact hlogged.owner r' hr' t href
        · have hmem : r' ∈ dataRecords id rs := mem_dataRecords.mpr ⟨hr', t, href⟩
          rw [hrs] at hmem
          exact howner t (List.mem_singleton.mp hmem ▸ href)
      · rw [hrecords] at hr'
        rcases List.mem_append.mp hr' with hr' | hr'
        · exact (hlogged.seen r' hr').trans ((hlogged.lsn.le.trans hlsn).trans hstamp)
        · rw [List.mem_singleton.mp hr']
          exact hstamp
      · obtain ⟨base, hbase, hreplay⟩ := hlogged.base
        have hlt : base.lastLsn < r.lsn := (hbase.lastLsn.trans_lt hlogged.lsn).trans_le hlsn
        refine ⟨base, ⟨?_, hbase.tableId.trans htable.symm, hbase.path.trans hpath.symm,
          hlt.le.trans hstamp⟩, fun hnodup => ?_⟩
        · rw [hio, htable, hpath]
          exact hbase.found
        · obtain ⟨hnodup', heq'⟩ := hrows hnodup
          rw [hrecords, List.filter_append, List.filter_singleton, decide_eq_true hlt, cond_true,
            replayRows_append, ← hreplay hnodup', heq']
          rfl
      · rw [hdirty, Function.update_self] at hclean
        cases hclean
    · refine (h.pages id' q hq ht).append (hother id' heq) (fun t => hids ▸ List.Subset.refl _) hwal
        (congrFun hio id') ?_
      rw [hdirty, Function.update_of_ne heq]
  · have hne : id' ≠ id := by
      intro heq
      rw [hpage, heq, Function.update_self] at hid'
      cases hid'
    rw [hpage, Function.update_of_ne hne] at hid'
    rw [hio, dataRecords_append, hother id' hne, List.append_nil]
    exact h.missing id' hid'
  · exact chained_congr (h.chains t ht) (congrFun hids t) (nextOf_update hp hpage hnext)

end PagesLogged

end RowView
