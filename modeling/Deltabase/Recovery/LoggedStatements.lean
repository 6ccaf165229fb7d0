import Deltabase.Executor.NodeExecutor
import Deltabase.Recovery.LoggedView
import Deltabase.Storage.IndexCreation

/-!
# Statements keep an instance in step with its log

Each statement writes the records of what it does to the catalog and to pages,
and links a new page to the end of the chain of its table. `Running` says of an
instance in the middle of a transaction that it is in step with its log and that
all other transactions are committed; whatever a statement does, `Running` holds
when it returns (`Running.body`). A row at a time is enough: what `update_row`
and `delete_rows` leave of a page they are still going through is in step once
the page is stamped.
-/

namespace RowView

open History RecoveryManager FileIOManager StdDbInstance

variable {H : List WalRecord} {T : Set TableId} {v v' : RowView} {t : TableId}

/-! ## The last page of a chain -/

/-- A search that has found a page goes on to find one. -/
theorem foldl_laterTail_eq_none {rest : List DataPage} {tail : Option DataPage}
    (h : rest.foldl laterTail tail = none) : tail = none ∧ ∀ p ∈ rest, p.next ≠ UUID.null := by
  induction rest generalizing tail with
  | nil => exact ⟨h, fun p hp => by cases hp⟩
  | cons page rest ih =>
    obtain ⟨hnone, hrest⟩ := ih h
    unfold laterTail at hnone
    split_ifs at hnone with hnext
    · refine ⟨hnone, fun p hp => ?_⟩
      rcases List.mem_cons.mp hp with rfl | hp
      exacts [hnext, hrest p hp]
    · cases tail with
      | none => cases hnone
      | some t =>
        simp only at hnone
        split_ifs at hnone

/-- The page of an id that is listed. -/
theorem Ok.mem_pages (hok : v.Ok) {p : DataPage} :
    p ∈ v.pages t ↔ p.id ∈ v.ids t ∧ v.page p.id = some p := by
  unfold pages
  rw [List.mem_filterMap]
  constructor
  · rintro ⟨id, hid, hp⟩
    rw [hok.named id p hp]
    exact ⟨hid, hp⟩
  · rintro ⟨hid, hp⟩
    exact ⟨p.id, hid, hp⟩

theorem nextOf_eq {id : DataPageId} {p : DataPage} (hp : v.page id = some p) :
    v.nextOf id = p.next := by
  unfold nextOf
  rw [hp]
  rfl

/-- **`insert_row` finds the last page of the chain.** -/
theorem PagesLogged.getLast?_eq (h : PagesLogged H T v) (ht : t ∈ T) {order : List DataPageId}
    (hperm : order.Perm (v.ids t)) (hlinked : Linked v.nextOf UUID.null order) :
    order.getLast? = (tailPage (v.pages t)).map DataPage.id := by
  have hnil : UUID.null ∉ order := fun hin => (h.pos ht (hperm.mem_iff.mp hin)).ne rfl
  have hnodup : order.Nodup := hperm.nodup_iff.mpr (h.ok.nodup t)
  cases htail : tailPage (v.pages t) with
  | some tail =>
    obtain ⟨hmem, hnext⟩ := mem_of_tailPage htail
    obtain ⟨hid, hp⟩ := h.ok.mem_pages.mp hmem
    refine (hlinked.next_eq_nil_iff hnil hnodup (hperm.mem_iff.mpr hid)).mp ?_
    rw [nextOf_eq hp, hnext]
  | none =>
    show order.getLast? = none
    cases hlast : order.getLast? with
    | none => rfl
    | some id =>
      have hid := List.mem_of_getLast? hlast
      obtain ⟨p, hp, -⟩ := h.ok.listed t id (hperm.mem_iff.mp hid)
      have hnext := (hlinked.next_eq_nil_iff hnil hnodup hid).mpr hlast
      rw [nextOf_eq hp] at hnext
      refine absurd hnext ((foldl_laterTail_eq_none htail).2 p (h.ok.mem_pages.mpr ?_))
      rw [h.ok.named id p hp]
      exact ⟨hperm.mem_iff.mp hid, hp⟩

/-! ## The page for a row -/

theorem page_link (v : RowView) (tail : Option DataPage) (id id' : DataPageId) :
    (v.link tail id).page id' = if tail.map DataPage.id = some id' then
      (v.page id').map fun p => { p with next := id } else v.page id' := by
  cases tail with
  | none => rfl
  | some t =>
    show Function.update v.page t.id _ id' = _
    have hid : (Option.map DataPage.id (some t) = some id') ↔ id' = t.id :=
      Option.some_inj.trans eq_comm
    rw [Function.update_apply, if_congr hid rfl rfl]
    split_ifs with h
    · rw [h]
    · rfl

theorem dirty_link (v : RowView) (tail : Option DataPage) (id id' : DataPageId) :
    (v.link tail id).dirty id' = if tail.map DataPage.id = some id' then true
      else v.dirty id' := by
  cases tail with
  | none => rfl
  | some t =>
    show Function.update v.dirty t.id true id' = _
    rw [Function.update_apply]
    exact if_congr (eq_comm.trans Option.some_inj.symm) rfl rfl

theorem link_rest (v : RowView) (tail : Option DataPage) (id : DataPageId) :
    (v.link tail id).ioPages = v.ioPages ∧ (v.link tail id).wal = v.wal
      ∧ (v.link tail id).txn = v.txn ∧ (v.link tail id).catalog = v.catalog
      ∧ (v.link tail id).ioSchemas = v.ioSchemas ∧ (v.link tail id).ioTables = v.ioTables := by
  unfold link
  split <;> exact ⟨rfl, rfl, rfl, rfl, rfl, rfl⟩

/-- A page stays in step when it is linked to another and marked; the log has
nothing to say about links. -/
theorem PageLogged.relink {id : DataPageId} {p q : DataPage} (h : PageLogged H v id p)
    (htable : q.tableId = p.tableId) (hpath : q.path = p.path) (hlsn : q.lastLsn = p.lastLsn)
    (hrows : q.rows = p.rows) (hids : ∀ t, v.ids t ⊆ v'.ids t) (hwal : v'.wal = v.wal)
    (hio : v'.ioPages id = v.ioPages id)
    (hclean : v'.dirty id = false → v.dirty id = false ∧ q.next = p.next) :
    PageLogged H v' id q := by
  refine ⟨h.pos, ?_, htable ▸ hids _ h.listed, htable ▸ h.owner, hlsn ▸ h.seen,
    hlsn ▸ hwal ▸ h.lsn, ?_, fun hd => ?_⟩
  · obtain ⟨t, ht, hid, s, hs, hsid, hp⟩ := h.placed
    exact ⟨t, ht, hid.trans htable.symm, s, hs, hsid, hpath.trans hp⟩
  · obtain ⟨base, hbase, hreplay⟩ := h.base
    refine ⟨base, ⟨?_, hbase.tableId.trans htable.symm, hbase.path.trans hpath.symm,
      hlsn ▸ hbase.lastLsn⟩, hrows ▸ hreplay⟩
    rw [hio, htable, hpath]
    exact hbase.found
  · obtain ⟨hd', hnext⟩ := hclean hd
    obtain ⟨d, hd, hdrows, hdnext, hdlsn⟩ := h.clean hd'
    exact ⟨d, hio.trans hd, hdrows.trans hrows.symm, hdnext.trans hnext.symm,
      hdlsn.trans hlsn.symm⟩

/-- Marking a page. -/
theorem PagesLogged.mark (h : PagesLogged H T v) (id : DataPageId) :
    PagesLogged H T (v.mark id) where
  ok := (keeps_mark v id).ok h.ok
  pages id' p hp ht := by
    refine (h.pages id' p hp ht).relink rfl rfl rfl rfl (fun _ => List.Subset.refl _) rfl rfl
      fun hd => ⟨?_, rfl⟩
    change Function.update v.dirty id true id' = false at hd
    rw [Function.update_apply] at hd
    split_ifs at hd
    exact hd
  missing := h.missing
  chains t ht := chained_congr (h.chains t ht) rfl rfl
  named := h.named

/-- Saving a table, or time passing, is not a page's business. -/
theorem PagesLogged.congr (h : PagesLogged H T v) (hpage : v'.page = v.page)
    (hlists : v'.lists = v.lists) (hdirty : v'.dirty = v.dirty) (hio : v'.ioPages = v.ioPages)
    (hwal : v.wal.nextLsn ≤ v'.wal.nextLsn) (hclock : v.clock ≤ v'.clock) : PagesLogged H T v' := by
  have happend := h.append (R := []) (fun _ => rfl) hpage hlists hdirty hio hwal hclock
  rwa [List.append_nil] at happend

section Create

variable {p : DataPage}

/-- The page after a page, when a new page has been linked to a chain. -/
theorem nextOf_created {tail : Option DataPage} (hp : p.next = UUID.null)
    (hnew : tail.map DataPage.id ≠ some v.clock)
    (htail : ∀ id, tail.map DataPage.id = some id → (v.page id).isSome) (id : DataPageId) :
    ((v.create t p).link tail v.clock).nextOf id = if id = v.clock then UUID.null
      else if tail.map DataPage.id = some id then v.clock else v.nextOf id := by
  have hpage : (v.create t p).page id = if id = v.clock then some p else v.page id :=
    Function.update_apply ..
  unfold nextOf
  rw [page_link, hpage]
  by_cases hid : id = v.clock
  · rw [if_pos hid, if_pos hid, hid, if_neg hnew]
    exact hp
  · rw [if_neg hid, if_neg hid]
    split_ifs with hlast
    · obtain ⟨q, hq⟩ := Option.isSome_iff_exists.mp (htail id hlast)
      rw [hq]
      rfl
    · rfl

/-- **A new page for a table**, at the end of its chain. It is marked; until
then it has neither a file nor a mark. -/
theorem PagesLogged.create (h : PagesLogged H T v) (hp : p = DataPage.make p.path t v.clock)
    (hplaced : PlacedPage H p) :
    PagesLogged H T (((v.create t p).link (tailPage (v.pages t)) v.clock).mark v.clock) := by
  have hnone : v.page v.clock = none := by
    rw [Option.eq_none_iff_forall_ne_some]
    exact fun q hq => lt_irrefl _ (h.ok.older v.clock q hq)
  have hpid : p.id = v.clock := by rw [hp]; rfl
  have hptable : p.tableId = t := by rw [hp]; rfl
  have hptail : ∀ id, (tailPage (v.pages t)).map DataPage.id = some id →
      id ∈ v.ids t ∧ (v.page id).isSome := by
    intro id hid
    obtain ⟨tail, htail, rfl⟩ := Option.map_eq_some_iff.mp hid
    obtain ⟨hmem, hpage⟩ := h.ok.mem_pages.mp (mem_of_tailPage htail).1
    exact ⟨hmem, by rw [hpage]; rfl⟩
  have hnew : (tailPage (v.pages t)).map DataPage.id ≠ some v.clock := by
    intro hid
    have hsome := (hptail _ hid).2
    rw [hnone] at hsome
    cases hsome
  obtain ⟨hio, hwal, -, -, -, -⟩ := link_rest (v.create t p) (tailPage (v.pages t)) v.clock
  have hkeeps := keeps_link (v.create t p) (tailPage (v.pages t)) v.clock
  have hnext := nextOf_created (t := t) (show p.next = UUID.null by rw [hp]; rfl) hnew
    fun id hid => (hptail id hid).2
  set w := (v.create t p).link (tailPage (v.pages t)) v.clock with hw
  have hpage : ∀ id, w.page id = if id = v.clock then some p
      else if (tailPage (v.pages t)).map DataPage.id = some id then
        (v.page id).map fun q => { q with next := v.clock } else v.page id := by
    intro id
    have hcreate : (v.create t p).page id = if id = v.clock then some p else v.page id :=
      Function.update_apply ..
    rw [hw, page_link, hcreate]
    by_cases hid : id = v.clock
    · rw [if_pos hid, if_pos hid, hid, if_neg hnew]
    · rw [if_neg hid, if_neg hid]
  have hids : ∀ t', w.ids t' = if t' = t then v.ids t' ++ [v.clock] else v.ids t' := by
    intro t'
    rw [hkeeps.ids, ids_create]
  have hsub : ∀ t', v.ids t' ⊆ w.ids t' := by
    intro t'
    rw [hids]
    split_ifs
    exacts [List.subset_append_left _ _, List.Subset.refl _]
  refine ⟨(keeps_mark w v.clock).ok (hkeeps.ok (h.ok.create hpid hptable)), fun id q hq ht => ?_,
    fun id hid => ?_, fun t' ht' => ?_, ?_⟩
  · change w.page id = some q at hq
    rw [hpage] at hq
    split_ifs at hq with hclock hlast
    · -- the new page has no records and is not on disk
      obtain rfl := Option.some.inj hq
      obtain ⟨hfile, hrecords⟩ := h.missing v.clock hnone
      rw [hclock]
      refine ⟨h.ok.clock_pos, hplaced, ?_, fun r hr t' href => ?_, ?_, ?_, ⟨p, ⟨.inr ⟨?_, ?_⟩, rfl,
        rfl, le_rfl⟩, fun _ => ?_⟩, fun hd => ?_⟩
      · show v.clock ∈ w.ids p.tableId
        rw [hptable, hids, if_pos rfl]
        exact List.mem_append_right _ (List.mem_singleton_self _)
      · have hmem : r ∈ dataRecords v.clock H := mem_dataRecords.mpr ⟨hr, t', href⟩
        rw [hrecords] at hmem
        cases hmem
      · rw [hrecords]
        exact fun r hr => by cases hr
      · rw [hp]
        exact Nat.succ_pos _
      · exact (congrFun hio v.clock).trans hfile
      · rw [hptable]
        exact hp
      · rw [hrecords, hp]
        rfl
      · change Function.update w.dirty v.clock true v.clock = false at hd
        rw [Function.update_self] at hd
        cases hd
    · -- the last page of the chain is linked, and marked
      obtain ⟨q₀, hq₀, rfl⟩ := Option.map_eq_some_iff.mp hq
      refine (h.pages id q₀ hq₀ ht).relink rfl rfl rfl rfl hsub hwal (congrFun hio id) fun hd => ?_
      change Function.update w.dirty v.clock true id = false at hd
      rw [Function.update_of_ne hclock, hw, dirty_link, if_pos hlast] at hd
      cases hd
    · refine (h.pages id q hq ht).relink rfl rfl rfl rfl hsub hwal (congrFun hio id) fun hd => ?_
      change Function.update w.dirty v.clock true id = false at hd
      rw [Function.update_of_ne hclock, hw, dirty_link, if_neg hlast] at hd
      exact ⟨hd, rfl⟩
  · change w.page id = none at hid
    show w.ioPages id = none ∧ _
    rw [hio]
    refine h.missing id ?_
    rw [hpage] at hid
    split_ifs at hid with hclock hlast
    exacts [Option.map_eq_none_iff.mp hid, hid]
  · show Chained w t'
    obtain ⟨order, hperm, hlinked⟩ := h.chains t' ht'
    have hlisted : ∀ b ∈ order, b ≠ v.clock := by
      intro b hb heq
      obtain ⟨q, hq, -⟩ := h.ok.listed t' b (hperm.mem_iff.mp hb)
      rw [heq, hnone] at hq
      cases hq
    by_cases htt : t' = t
    · subst htt
      refine ⟨order ++ [v.clock], ?_, ?_⟩
      · rw [hids, if_pos rfl]
        exact hperm.append_right _
      have hget := h.getLast?_eq ht' hperm hlinked
      refine hlinked.snoc (hperm.nodup_iff.mpr (h.ok.nodup t')) ?_ (fun b hb => ?_)
        fun b hb hne => ?_
      · rw [hnext, if_pos rfl]
      · rw [hnext, if_neg (hlisted b (List.mem_of_getLast? hb)), if_pos (hget ▸ hb)]
      · rw [hnext, if_neg (hlisted b hb), if_neg (hget ▸ hne)]
    · refine ⟨order, ?_, hlinked.congr fun b hb => ?_⟩
      · rw [hids, if_neg htt]
        exact hperm
      · rw [hnext, if_neg (hlisted b hb), if_neg]
        exact fun hlast => htt (h.ok.table_eq (hperm.mem_iff.mp hb) (hptail b hlast).1)
  · show ∀ id d, w.ioPages id = some d → d.id = id
    rw [hio]
    exact h.named

end Create

/-! ## Transactions at work -/

/-- The indexes of a table are indexes on it. -/
def Owned (v : RowView) : Prop :=
  ∀ t mt, v.entry t = some mt → ∀ mi ∈ mt.indexes, mi.tableId = t

/-- A table is saved with no index that it did not have. -/
theorem Owned.save (h : Owned v) {mt₀ mt : MetaTable} (hentry : v.entry mt.id = some mt₀)
    (hindexes : mt.indexes ⊆ mt₀.indexes)
    (hentries : ∀ t, v'.entry t = if mt.id = t then some mt else v.entry t) : Owned v' := by
  intro t mt' hmt'
  rw [hentries] at hmt'
  split_ifs at hmt' with hid
  · obtain rfl := Option.some.inj hmt'
    exact fun mi hmi => hid ▸ h mt.id mt₀ hentry mi (hindexes hmi)
  · exact h t mt' hmt'

theorem Owned.congr (h : Owned v) (hentries : v'.entry = v.entry) : Owned v' := by
  unfold Owned
  rw [hentries]
  exact h

/-- A page without a file has records that redo makes it from. -/
def RecordedAt (v : RowView) (id : DataPageId) : Prop :=
  (v.page id).isSome → v.ioPages id = none → dataRecords id v.wal.kept ≠ []

/-- More records, and no other page. -/
theorem RecordedAt.mono {id : DataPageId} (h : RecordedAt v id) {R : List WalRecord}
    (hpage : (v'.page id).isSome → (v.page id).isSome) (hio : v'.ioPages id = v.ioPages id)
    (hkept : v'.wal.kept = v.wal.kept ++ R) : RecordedAt v' id := by
  intro hsome hnone
  rw [hkept, dataRecords_append]
  exact List.append_ne_nil_of_left_ne_nil (h (hpage hsome) (hio ▸ hnone)) _

/-- **In the middle of a statement**: the view is in step with its log, in
which the other transactions are committed and this one is not. -/
structure Underway (T : Set TableId) (v : RowView) : Prop where
  logged : Logged v.wal.kept T v
  active : v.txn.state = .active
  txn : v.txn.id < v.clock
  silent : ∀ c ∈ v.wal.kept, c.body = .commitTxn → c.txnId ≠ v.txn.id
  others : ∀ r ∈ v.wal.kept, r.txnId ≠ v.txn.id →
    ∃ c ∈ v.wal.kept, c.body = .commitTxn ∧ c.txnId = r.txnId
  owned : Owned v

/-- **In the middle of a transaction**: each page has been written or has
records. -/
structure Running (T : Set TableId) (v : RowView) : Prop extends Underway T v where
  recorded : ∀ id, RecordedAt v id

/-- More records of the transaction, none of which commits it. -/
theorem Underway.of_append (h : Underway T v) {R : List WalRecord}
    (hkept : v'.wal.kept = v.wal.kept ++ R) (hlogged : Logged (v.wal.kept ++ R) T v')
    (hid : v'.txn.id = v.txn.id) (hstate : v'.txn.state = v.txn.state) (hclock : v.clock ≤ v'.clock)
    (hrs : ∀ r ∈ R, r.txnId = v.txn.id ∧ r.body ≠ .commitTxn) (howned : Owned v') :
    Underway T v' := by
  refine ⟨hkept ▸ hlogged, hstate.trans h.active, hid ▸ h.txn.trans_le hclock,
    fun c hc hcommit => ?_,
    fun r hr hne => ?_, howned⟩
  · rw [hid]
    rw [hkept] at hc
    rcases List.mem_append.mp hc with hc | hc
    exacts [h.silent c hc hcommit, absurd hcommit (hrs c hc).2]
  · rw [hid] at hne
    rw [hkept] at hr ⊢
    rcases List.mem_append.mp hr with hr | hr
    · obtain ⟨c, hc, hcommit, htxn⟩ := h.others r hr hne
      exact ⟨c, List.mem_append_left _ hc, hcommit, htxn⟩
    · exact absurd (hrs r hr).1 hne

/-- Records that leave the pages alone. -/
theorem Running.of_append (h : Running T v) {R : List WalRecord}
    (hkept : v'.wal.kept = v.wal.kept ++ R) (hlogged : Logged (v.wal.kept ++ R) T v')
    (hpage : v'.page = v.page) (hio : v'.ioPages = v.ioPages)
    (hid : v'.txn.id = v.txn.id) (hstate : v'.txn.state = v.txn.state) (hclock : v.clock ≤ v'.clock)
    (hrs : ∀ r ∈ R, r.txnId = v.txn.id ∧ r.body ≠ .commitTxn) (howned : Owned v') :
    Running T v' :=
  ⟨h.toUnderway.of_append hkept hlogged hid hstate hclock hrs howned, fun id =>
    (h.recorded id).mono (hpage ▸ fun hsome => hsome) (congrFun hio id) hkept⟩

/-! ## Inserting -/

/-- Preparing a page concerns neither the log nor the catalog. -/
theorem Prepared.rest {mt : MetaTable} {size : ℕ} {id : DataPageId}
    (h : Prepared mt size v id v') :
    v'.ioPages = v.ioPages ∧ v'.wal = v.wal ∧ v'.txn = v.txn ∧ v'.catalog = v.catalog
      ∧ v'.ioSchemas = v.ioSchemas ∧ v'.ioTables = v.ioTables := by
  cases h with
  | existing => exact ⟨rfl, rfl, rfl, rfl, rfl, rfl⟩
  | created => exact link_rest _ _ _

/-- Preparing a page makes no other page. -/
theorem Prepared.isSome_page {mt : MetaTable} {size : ℕ} {id id' : DataPageId}
    (h : Prepared mt size v id v') (hne : id' ≠ id) (hsome : (v'.page id').isSome) :
    (v.page id').isSome := by
  cases h with
  | existing => exact hsome
  | @created schema hschema =>
    have hcreate : (v.create mt.id (DataPage.make (schema.name, mt.name) mt.id v.clock)).page id'
        = v.page id' := Function.update_of_ne hne _ _
    rw [page_link, hcreate] at hsome
    split_ifs at hsome
    · rwa [Option.isSome_map] at hsome
    · exact hsome

/-- **The schema of a table** is found under the table's directory; the null id
is no schema's. -/
theorem schema_of_read (hlog : InstanceLog H) (hpos : ∀ s ∈ createdSchemas H, 0 < s.id)
    {t₀ : MetaTable} (ht₀ : t₀ ∈ createdTables H) {disk : Disk} {schema : MetaSchema}
    (hschema : readSchemaMeta disk t₀.schemaId = .ok schema) :
    schema ∈ disk.schemas ∧ schema.id = t₀.schemaId := by
  obtain ⟨s, hs, hsid⟩ := hlog.exists_schema t₀ ht₀
  have hnil := (readSchemaMeta_eq_ok hschema).1
  unfold readSchemaMeta at hschema
  rw [if_neg (not_not.mpr hnil)] at hschema
  cases hfind : (disk.schemas.reverse.find? fun s => s.id = t₀.schemaId) with
  | some s' =>
    simp only [hfind] at hschema
    obtain rfl := Except.ok.inj hschema
    have hid := List.find?_some hfind
    exact ⟨List.mem_reverse.mp (List.mem_of_find?_eq_some hfind), of_decide_eq_true hid⟩
  | none =>
    simp only [hfind] at hschema
    split_ifs at hschema with hnull
    rw [← hsid] at hnull
    exact absurd hnull (hpos s hs).ne'

/-- The directory that a page of a table is made in. -/
theorem placedPage_make (hlog : InstanceLog H) (hio : ∀ s ∈ v.ioSchemas, s ∈ createdSchemas H)
    (hpos : ∀ s ∈ createdSchemas H, 0 < s.id) {mt t₀ : MetaTable} (ht₀ : t₀ ∈ createdTables H)
    (hsame : t₀.SameTable mt) {schema : MetaSchema}
    (hschema : readSchemaMeta { schemas := v.ioSchemas } mt.schemaId = .ok schema)
    (id : DataPageId) : PlacedPage H (DataPage.make (schema.name, mt.name) mt.id id) := by
  rw [← hsame.2.2] at hschema
  obtain ⟨hmem, hid⟩ := schema_of_read hlog hpos ht₀ hschema
  refine ⟨t₀, ht₀, hsame.1, schema, hio schema hmem, hid, ?_⟩
  rw [hsame.2.1]
  rfl

/-- **A page that has been prepared** is in step, once it is marked. -/
theorem PagesLogged.prepared (h : PagesLogged H T v) (hlog : InstanceLog H)
    (hio : ∀ s ∈ v.ioSchemas, s ∈ createdSchemas H) (hpos : ∀ s ∈ createdSchemas H, 0 < s.id)
    {mt t₀ : MetaTable} (ht₀ : t₀ ∈ createdTables H) (hsame : t₀.SameTable mt) {size : ℕ}
    {id : DataPageId} (hprep : Prepared mt size v id v') : PagesLogged H T (v'.mark id) := by
  cases hprep with
  | existing hmem hpage hroom => exact h.mark id
  | created hschema => exact h.create rfl (placedPage_make hlog hio hpos ht₀ hsame hschema _)

/-- A table of the catalog and what becomes of it: the record that has the new
image can be written. -/
theorem CatalogLogged.updateTable (h : CatalogLogged H T v) {mt₀ mt : MetaTable}
    (hentry : v.entry mt.id = some mt₀) (hsame : mt₀.SameTable mt)
    (hsilent : ∀ c ∈ H, c.body = .commitTxn → c.txnId ≠ v.txn.id) (htxn : v.txn.id < v.clock)
    {before : MetaTable} (hwal : v'.wal.nextLsn = v.wal.nextLsn + 1) (hclock : v.clock ≤ v'.clock)
    (hioSchemas : v'.ioSchemas = v.ioSchemas) (hioTables : v'.ioTables = v.ioTables)
    (hschemas : v'.catalog.schemas = v.catalog.schemas)
    (hentries : ∀ t, v'.entry t = if mt.id = t then some mt else v.entry t) :
    CatalogLogged (H ++ [v.record (.updateTable before mt)]) T v' := by
  obtain ⟨t₀, ht₀, -, hsame₀⟩ := h.exists_created hentry
  have hadm : Admissible H (.updateTable before mt) :=
    ⟨t₀, ht₀, hsame₀.1.trans hsame.1, hsame₀.2.1.trans hsame.2.1, hsame₀.2.2.trans hsame.2.2⟩
  refine h.append hadm hsilent htxn hwal hclock hioSchemas hioTables (fun s hs => ?_)
    (fun t ht => ?_) (fun s => ?_) hentries
  · cases hs
  · cases ht
  · rw [hschemas]
    exact ⟨.inl, fun hs => hs.resolve_right List.not_mem_nil⟩

/-- What a data record is not: it creates nothing, changes no table and ends no
transaction. -/
theorem dataRecord_spec {body : WalBody} {pageId : DataPageId}
    (href : body.dataRef = some (t, pageId)) :
    (∀ H, (∃ t₀ ∈ createdTables H, t₀.id = t) → Admissible H body)
      ∧ (∀ id image, tableImage id body image = image) ∧ body ≠ .commitTxn
      ∧ ∀ v : RowView,
        createdSchemas [v.record body] = [] ∧ createdTables [v.record body] = [] := by
  cases body with
  | insert tableId | update tableId | delete tableId | clrInsert tableId | clrUpdate tableId
  | clrDelete tableId =>
    obtain rfl := congrArg Prod.fst (Option.some.inj href)
    exact ⟨fun H h => h, fun _ _ => rfl, by simp, fun _ => ⟨rfl, rfl⟩⟩
  | _ => cases href

/-- The records of one changed row, for each page. -/
theorem dataRecords_pair {body : WalBody} {pageId : DataPageId}
    (href : body.dataRef = some (t, pageId)) (before mt : MetaTable) (id : DataPageId) :
    dataRecords id [v.record body, v'.record (.updateTable before mt)]
      = if id = pageId then [v.record body] else [] := by
  have hbody : (v.record body).body.dataRef.map Prod.snd = some pageId := by
    show body.dataRef.map Prod.snd = _
    rw [href]
    rfl
  have htable : dataRecords id [v'.record (.updateTable before mt)] = [] := rfl
  rw [← List.singleton_append, dataRecords_append, htable, List.append_nil]
  unfold dataRecords
  rw [List.filter_singleton, hbody]
  split_ifs with hid
  · rw [hid, decide_eq_true rfl]
    rfl
  · rw [decide_eq_false fun h => hid (Option.some.inj h).symm]
    rfl

/-- **A row is changed**: a page is changed as its record says, and the table is
saved with what the second record says. -/
theorem Underway.changeRow (h : Underway T v) {pageId : DataPageId} {p q : DataPage}
    (hrecorded : ∀ id ≠ pageId, RecordedAt v id) {mt₀ mt m : MetaTable} {b : WalBody}
    (hp : v.page pageId = some p)
    (htable : p.tableId = mt.id) (hentry : v.entry mt.id = some mt₀) (hsame : mt₀.SameTable mt)
    (hindexes : mt.indexes = mt₀.indexes) (href : b.dataRef = some (mt.id, pageId))
    (hpage : v'.page = Function.update v.page pageId (some q))
    (hdirty : v'.dirty = Function.update v.dirty pageId true) (hlists : v'.lists = v.lists)
    (hio : v'.ioPages = v.ioPages) (hioSchemas : v'.ioSchemas = v.ioSchemas)
    (hioTables : v'.ioTables = v.ioTables) (hclock : v'.clock = v.clock)
    (hwal : v'.wal = ((v.log b).log (.updateTable m mt)).wal)
    (htxn : v'.txn = ((v.log b).log (.updateTable m mt)).txn)
    (hschemas : v'.catalog.schemas = v.catalog.schemas)
    (hentries : ∀ t, v'.entry t = if mt.id = t then some mt else v.entry t)
    (hsamePage : q.id = p.id ∧ q.tableId = p.tableId ∧ q.path = p.path ∧ q.next = p.next)
    (hstamp : v.wal.nextLsn ≤ q.lastLsn ∧ q.lastLsn ≤ v.wal.nextLsn + 1)
    (hrows : (q.rows.map DataRow.id).Nodup →
      (p.rows.map DataRow.id).Nodup ∧ q.rows = redoRows b p.rows) : Running T v' := by
  obtain ⟨hadm, himage, hcommit, hcreated⟩ := dataRecord_spec href
  obtain ⟨t₀, ht₀, hid₀, -⟩ := h.logged.catalog.exists_created hentry
  have hnext : v'.wal.nextLsn = v.wal.nextLsn + 1 + 1 := by
    rw [hwal, log_nextLsn, log_nextLsn]
  have hid : v'.txn.id = v.txn.id := by rw [htxn]; rfl
  have hstate : v'.txn.state = v.txn.state := by rw [htxn]; rfl
  have hkept : v'.wal.kept = v.wal.kept
      ++ [v.record b, (v.log b).record (.updateTable m mt)] := by
    rw [hwal, log_kept, log_kept, List.append_assoc]
    rfl
  refine ⟨h.of_append hkept ⟨?_, ?_⟩ hid hstate hclock.ge (fun r hr => ?_)
    (h.owned.save hentry (hindexes ▸ List.Subset.refl _) hentries), fun id => ?_⟩
  · have hdata := h.logged.catalog.append_log (hadm _ ⟨t₀, ht₀, hid₀⟩) h.silent h.txn
      (hcreated v).1 (hcreated v).2 himage
    rw [List.append_cons]
    refine hdata.updateTable hentry hsame (fun c hc hc' => ?_) h.txn ?_ hclock.ge hioSchemas
      hioTables hschemas hentries
    · rcases List.mem_append.mp hc with hc | hc
      · exact h.silent c hc hc'
      · rw [List.mem_singleton.mp hc] at hc'
        exact absurd hc' hcommit
    · rw [hnext, log_nextLsn]
  · refine h.logged.pages.change (r := v.record b) hp hpage hdirty hlists hio hclock
      hsamePage.1 hsamePage.2.1 hsamePage.2.2.1 hsamePage.2.2.2 ?_ (fun id hid => ?_)
        (fun t ht => ?_) le_rfl hstamp.1 ?_ hrows
    · rw [dataRecords_pair href, if_pos rfl]
    · rw [dataRecords_pair href, if_neg hid]
    · rw [htable]
      exact congrArg Prod.fst (Option.some.inj (ht.symm.trans href))
    · rw [hnext]
      exact Nat.lt_succ_of_le hstamp.2
  · rcases List.mem_cons.mp hr with rfl | hr
    · exact ⟨rfl, hcommit⟩
    · rw [List.mem_singleton.mp hr]
      exact ⟨rfl, by simp [record]⟩
  · by_cases hid : id = pageId
    · intro _ _
      rw [hkept, dataRecords_append, dataRecords_pair href, if_pos hid]
      exact List.append_ne_nil_of_right_ne_nil _ (List.cons_ne_nil _ _)
    · refine (hrecorded id hid).mono (fun hsome => ?_) (congrFun hio id) hkept
      rwa [hpage, Function.update_of_ne hid] at hsome

/-- **An insert** keeps an instance in step. -/
theorem Running.insert (h : Running T v) {mt₀ mt : MetaTable} (hentry : v.entry mt.id = some mt₀)
    (hsame : mt₀.SameTable mt) (hindexes : mt.indexes = mt₀.indexes) {size : ℕ} {id : DataPageId}
    (hprep : Prepared mt size (v.save mt) id v') (row : DataRow) :
    Running T (v'.inserted id row mt₀ mt) := by
  obtain ⟨hio, hwal, htxn, hcatalog, hioSchemas, hioTables⟩ := hprep.rest
  change v'.wal = v.wal at hwal
  change v'.txn = v.txn at htxn
  have hclock : v.clock ≤ v'.clock := hprep.clock_le
  obtain ⟨t₀, ht₀, -, hsame₀⟩ := h.logged.catalog.exists_created hentry
  have hsaved : PagesLogged v.wal.kept T (v.save mt) :=
    h.logged.pages.congr rfl rfl rfl rfl le_rfl le_rfl
  obtain ⟨hok, hmem, -, -⟩ := hprep.spec hsaved.ok
  have hmarked : PagesLogged v.wal.kept T (v'.mark id) :=
    hsaved.prepared h.logged.catalog.log h.logged.catalog.ioSchemas
      (fun s hs => (h.logged.catalog.schemaIds s hs).1) ht₀
      ⟨hsame₀.1.trans hsame.1, hsame₀.2.1.trans hsame.2.1, hsame₀.2.2.trans hsame.2.2⟩ hprep
  -- the page is prepared and marked, and the table not yet saved
  let w : RowView := { v'.mark id with catalog := v.catalog }
  have hw : Underway T w := by
    refine h.toUnderway.of_append (R := []) ?_ ?_ (congrArg Transaction.id htxn)
      (congrArg Transaction.state htxn) hclock (fun r hr => by cases hr) (h.owned.congr rfl)
    · rw [List.append_nil]
      exact congrArg AppendOnlyLog.kept hwal
    · rw [List.append_nil]
      refine ⟨h.logged.catalog.congr rfl hioSchemas hioTables ?_ hclock,
        hmarked.congr rfl rfl rfl rfl le_rfl le_rfl⟩
      rw [show w.wal = v.wal from hwal]
  obtain ⟨p, hp, htable⟩ := hok.listed mt.id id hmem
  have hassign : (v'.assign id fun p => { p with rows := p.rows ++ [row] }).page id
      = some { p with rows := p.rows ++ [row] } := assign_page hp _
  have hrecorded : ∀ id' ≠ id, RecordedAt w id' := fun id' hne =>
    (h.recorded id').mono (R := []) (fun hsome => hprep.isSome_page hne hsome) (congrFun hio id')
      (by rw [List.append_nil]; exact congrArg AppendOnlyLog.kept hwal)
  refine hw.changeRow (q := { p with rows := p.rows ++ [row], lastLsn := v'.wal.nextLsn + 1 })
    hrecorded (b := .insert mt.id id row) (m := mt₀) hp htable hentry hsame hindexes rfl ?_ ?_ rfl
    rfl rfl rfl rfl rfl rfl ?_ (fun t => ?_) ⟨rfl, rfl, rfl, rfl⟩ ⟨Nat.le_succ _, le_rfl⟩
    fun hnodup => ⟨?_, rfl⟩
  · show Function.update (Function.update v'.page id _) id (Option.map _ _) = _
    rw [Function.update_idem]
    congr 1
    show Option.map _ ((v'.assign id fun p => { p with rows := p.rows ++ [row] }).page id) = _
    rw [hassign, ← log_nextLsn]
    rfl
  · show Function.update v'.dirty id true
      = Function.update (Function.update v'.dirty id true) id true
    rw [Function.update_idem]
  · show v'.catalog.schemas = v.catalog.schemas
    rw [hcatalog]
    rfl
  · show (v'.inserted id row mt₀ mt).entry t = if mt.id = t then some mt else v.entry t
    rw [← entry_save]
    unfold entry
    rw [← hcatalog]
    rfl
  · rw [List.map_append] at hnodup
    exact (List.nodup_append.mp hnodup).1

/-! ## Updating and deleting -/

/-- **In the middle of a page**: the view is in step once the page is stamped,
which is what happens when the loop leaves it. -/
structure Looping (T : Set TableId) (pageId : DataPageId) (s : LoopState) : Prop where
  running : Running T (leave pageId s)
  entry : s.1.entry s.2.mt.id = some s.2.mt
  mem : s.2.mt.id ∈ T
  page : ∃ p, s.1.page pageId = some p ∧ p.tableId = s.2.mt.id
    ∧ (s.2.changed = false → p.lastLsn = s.2.pageLsn)

/-- What leaving a page has no part in. -/
theorem leave_rest (pageId : DataPageId) (s : LoopState) :
    (leave pageId s).lists = s.1.lists ∧ (leave pageId s).ioPages = s.1.ioPages
      ∧ (leave pageId s).ioSchemas = s.1.ioSchemas ∧ (leave pageId s).ioTables = s.1.ioTables
      ∧ (leave pageId s).clock = s.1.clock ∧ (leave pageId s).wal = s.1.wal
      ∧ (leave pageId s).txn = s.1.txn ∧ (leave pageId s).catalog = s.1.catalog := by
  unfold leave
  split_ifs <;> exact ⟨rfl, rfl, rfl, rfl, rfl, rfl, rfl, rfl⟩

/-- The pages and marks when the loop leaves a page. -/
theorem leave_page {pageId : DataPageId} {s : LoopState} {p : DataPage}
    (hp : s.1.page pageId = some p) (hstamp : s.2.changed = false → p.lastLsn = s.2.pageLsn) :
    (leave pageId s).page
        = Function.update s.1.page pageId (some { p with lastLsn := s.2.pageLsn })
      ∧ Function.update (leave pageId s).dirty pageId true
        = Function.update s.1.dirty pageId true := by
  unfold leave
  split_ifs with hchanged
  · refine ⟨?_, Function.update_idem ..⟩
    show Function.update s.1.page pageId (Option.map _ (s.1.page pageId)) = _
    rw [hp]
    rfl
  · refine ⟨?_, rfl⟩
    rw [← hstamp (Bool.eq_false_iff.mpr hchanged), ← hp, Function.update_eq_self]

/-- **One row of a page**, whatever is done with it. -/
theorem Looping.step {pageId : DataPageId} {s s' : LoopState} (h : Looping T pageId s)
    {p q : DataPage} {b : WalBody} {m : MetaTable} (hp : s.1.page pageId = some p)
    (href : b.dataRef = some (s.2.mt.id, pageId)) (hsame : s.2.mt.SameTable s'.2.mt)
    (hindexes : s'.2.mt.indexes = s.2.mt.indexes)
    (hpage : s'.1.page = Function.update s.1.page pageId (some q))
    (hdirty : s'.1.dirty = s.1.dirty) (hlists : s'.1.lists = s.1.lists)
    (hio : s'.1.ioPages = s.1.ioPages) (hioSchemas : s'.1.ioSchemas = s.1.ioSchemas)
    (hioTables : s'.1.ioTables = s.1.ioTables) (hclock : s'.1.clock = s.1.clock)
    (hwal : s'.1.wal = ((s.1.log b).log (.updateTable m s'.2.mt)).wal)
    (htxn : s'.1.txn = ((s.1.log b).log (.updateTable m s'.2.mt)).txn)
    (hschemas : s'.1.catalog.schemas = s.1.catalog.schemas)
    (hentries : ∀ t, s'.1.entry t = if s'.2.mt.id = t then some s'.2.mt else s.1.entry t)
    (hsamePage : q.id = p.id ∧ q.tableId = p.tableId ∧ q.path = p.path ∧ q.next = p.next)
    (hlsn : s'.2.pageLsn = max s.2.pageLsn s.1.wal.nextLsn) (hchanged : s'.2.changed = true)
    (hrows : (q.rows.map DataRow.id).Nodup →
      (p.rows.map DataRow.id).Nodup ∧ q.rows = redoRows b p.rows) : Looping T pageId s' := by
  obtain ⟨p₀, hp₀, htable, hstamp⟩ := h.page
  obtain rfl := Option.some.inj (hp.symm.trans hp₀)
  obtain ⟨hleave, hleaveDirty⟩ := leave_page hp hstamp
  have hp' : s'.1.page pageId = some q := by rw [hpage, Function.update_self]
  obtain ⟨hleave', hleaveDirty'⟩ := leave_page hp' (s := s') fun hne => by
    rw [hchanged] at hne
    cases hne
  obtain ⟨hl, hi, his, hit, hc, hw, ht, hcat⟩ := leave_rest pageId s
  obtain ⟨hl', hi', his', hit', hc', hw', ht', hcat'⟩ := leave_rest pageId s'
  have hpageLsn : s.2.pageLsn < s.1.wal.nextLsn := by
    have hfound : (leave pageId s).page pageId = some { p with lastLsn := s.2.pageLsn } := by
      rw [hleave, Function.update_self]
    have hlogged := h.running.logged.pages.pages pageId _ hfound (htable ▸ h.mem)
    rw [← hw]
    exact hlogged.lsn
  have hmax : s'.2.pageLsn = s.1.wal.nextLsn := hlsn.trans (max_eq_right hpageLsn.le)
  refine ⟨?_, ?_, hsame.1 ▸ h.mem, q, hp', hsamePage.2.1.trans (htable.trans hsame.1),
    fun hne => ?_⟩
  · refine h.running.toUnderway.changeRow (p := { p with lastLsn := s.2.pageLsn })
      (fun id _ => h.running.recorded id) (q := { q with lastLsn := s'.2.pageLsn })
      (m := m) (b := b) (by rw [hleave, Function.update_self])
      (htable.trans hsame.1) ?_ hsame hindexes (hsame.1 ▸ href) ?_ ?_ ?_ ?_ ?_ ?_ ?_ ?_ ?_ ?_
        (fun t => ?_)
      hsamePage ?_ hrows
    · rw [entry_leave, ← hsame.1]
      exact h.entry
    · rw [hleave', hleave, hpage, Function.update_idem, Function.update_idem]
    · rw [hleaveDirty, ← hdirty, ← hleaveDirty']
      unfold leave
      rw [if_pos hchanged]
      exact (Function.update_idem ..).symm
    · rw [hl', hl, hlists]
    · rw [hi', hi, hio]
    · rw [his', his, hioSchemas]
    · rw [hit', hit, hioTables]
    · rw [hc', hc, hclock]
    · rw [hw', hwal]
      unfold log
      rw [hw, ht]
    · rw [ht', htxn]
      unfold log
      rw [hw, ht]
    · rw [hcat', hcat, hschemas]
    · rw [entry_leave, entry_leave, hentries]
    · rw [hw, hmax]
      exact ⟨le_rfl, Nat.le_succ _⟩
  · rw [hentries, if_pos rfl]
  · rw [hchanged] at hne
    cases hne

/-- Looking for the row with an id finds the row at a position, when ids are
distinct. -/
theorem modifyRow_eq_modify {rows : List DataRow} {i : ℕ} {row : DataRow}
    (hrow : rows[i]? = some row) (hnodup : (rows.map DataRow.id).Nodup) (f : DataRow → DataRow) :
    modifyRow row.id f rows = rows.modify i f := by
  have hlt := (List.getElem?_eq_some_iff.mp hrow).1
  have hget := (List.getElem?_eq_some_iff.mp hrow).2
  have hfind : rows.findIdx (fun r => r.id = row.id) = i := by
    refine (List.findIdx_eq hlt).mpr ⟨by simp [hget], fun j hj => ?_⟩
    have hne : rows[j].id ≠ rows[i].id := by
      intro heq
      have hj' : j < (rows.map DataRow.id).length := by
        rw [List.length_map]
        exact hj.trans hlt
      have hi' : i < (rows.map DataRow.id).length := by
        rw [List.length_map]
        exact hlt
      have hmap : (rows.map DataRow.id)[j] = (rows.map DataRow.id)[i] := by
        rw [List.getElem_map, List.getElem_map]
        exact heq
      exact hj.ne ((hnodup.getElem_inj_iff).mp hmap)
    rw [hget] at hne
    exact decide_eq_false hne
  unfold modifyRow
  rw [hfind]

theorem nodup_modify_markObsolete {rows : List DataRow} {i : ℕ} {row : DataRow}
    (hrow : rows[i]? = some row) :
    (rows.modify i DataRow.markObsolete).map DataRow.id = rows.map DataRow.id :=
  (marked_modify hrow).map_id

/-- **Updating a row** of a page. -/
theorem Looping.updates {update : RowUpdate} {unchangedMt : MetaTable} {ids : List ℕ}
    {pageId : DataPageId} {i : ℕ} {row : DataRow} {s s' : LoopState} (h : Looping T pageId s)
    (htarget : Target s.1 ids pageId i row)
    (hupdate : Updates update unchangedMt pageId i row s s') :
    Looping T pageId s' := by
  obtain ⟨p, hp, hrow, -, -⟩ := htarget
  cases hupdate with
  | @intro v loop tokens hassign =>
    set newRow : DataRow := { row with id := loop.mt.lastRid + 1, tokens := tokens }
    refine h.step (b := .update loop.mt.id pageId row.markObsolete newRow)
      (m := unchangedMt) (q := { p with
        rows := p.rows.modify i DataRow.markObsolete ++ [newRow],
        maxRid := max p.maxRid newRow.id })
      hp rfl ⟨rfl, rfl, rfl⟩ rfl ?_ rfl rfl rfl rfl rfl rfl rfl rfl rfl
      (fun t => entry_replaced v pageId i row newRow unchangedMt loop.mt t) ⟨rfl, rfl, rfl, rfl⟩ rfl
      rfl fun hnodup => ?_
    · have hpage := replaced_page hp i row newRow unchangedMt loop.mt
      show Function.update (Function.update v.page pageId _) pageId _ = _
      rw [Function.update_idem]
      congr 1
      rw [← hpage]
      exact (Function.update_self pageId _ (Function.update v.page pageId _)).symm
    · rw [List.map_append, nodup_modify_markObsolete hrow] at hnodup
      have hnodup' := (List.nodup_append.mp hnodup).1
      refine ⟨hnodup', ?_⟩
      show _ = modifyRow row.id DataRow.markObsolete p.rows ++ [newRow]
      rw [modifyRow_eq_modify hrow hnodup']

/-- **Deleting a row** of a page. -/
theorem Looping.deletes {unchangedMt : MetaTable} {ids : List ℕ} {pageId : DataPageId} {i : ℕ}
    {row : DataRow} {s s' : LoopState} (h : Looping T pageId s)
    (htarget : Target s.1 ids pageId i row) (hdelete : Deletes unchangedMt pageId i row s s') :
    Looping T pageId s' := by
  obtain ⟨p, hp, hrow, -, -⟩ := htarget
  cases hdelete with
  | @intro v loop =>
    refine h.step (b := .delete loop.mt.id pageId row.markObsolete) (m := unchangedMt)
      (q := { p with rows := p.rows.modify i DataRow.markObsolete }) hp rfl
        ⟨rfl, rfl, rfl⟩ rfl ?_ rfl
      rfl rfl rfl rfl rfl rfl rfl rfl (fun t => entry_superseded v pageId i (discounted loop.mt) t)
      ⟨rfl, rfl, rfl, rfl⟩ rfl rfl fun hnodup => ?_
    · show Function.update v.page pageId (Option.map _ (v.page pageId)) = _
      rw [hp]
      rfl
    · rw [nodup_modify_markObsolete hrow] at hnodup
      refine ⟨hnodup, ?_⟩
      show _ = modifyRow row.id DataRow.markObsolete p.rows
      rw [modifyRow_eq_modify hrow hnodup]

/-- What each change of a row keeps in step, the inner loop does. -/
theorem Visits.looping {R : DataPageId → ℕ → DataRow → LoopState → LoopState → Prop}
    {ids : List ℕ} (hR : ∀ pageId i row s s', Target s.1 ids pageId i row → R pageId i row s s' →
      Looping T pageId s → Looping T pageId s')
    {pageId : DataPageId} {positions : List ℕ} {s s' : LoopState}
    (h : Visits R ids pageId positions s s') (hs : Looping T pageId s) : Looping T pageId s' := by
  induction h with
  | nil s => exact hs
  | skip _ _ ih => exact ih hs
  | change htarget hrow _ ih => exact ih (hR _ _ _ _ _ htarget hrow hs)

/-- **The loops over the rows of a table** keep an instance in step. -/
theorem PagesVisited.running {R : DataPageId → ℕ → DataRow → LoopState → LoopState → Prop}
    {ids : List ℕ} (hR : ∀ pageId i row s s', Target s.1 ids pageId i row → R pageId i row s s' →
      Looping T pageId s → Looping T pageId s')
    (hkeeps : ∀ pageId i row s s', R pageId i row s s' → Keeps s.1 s'.1)
    (hid : ∀ pageId i row s s', R pageId i row s s' → s'.2.mt.id = s.2.mt.id)
    {pageIds : List DataPageId} {mt mt' : MetaTable} (h : PagesVisited R ids pageIds v mt v' mt')
    (hv : Running T v) (hentry : v.entry mt.id = some mt) (hmem : mt.id ∈ T)
    (hlisted : ∀ id ∈ pageIds, id ∈ v.ids mt.id) : Running T v' := by
  induction h with
  | nil => exact hv
  | @cons pageId rest p v v' mt mt' s hpage hvisits _ ih =>
    obtain ⟨q, hq, htable⟩ := hv.logged.pages.ok.listed mt.id pageId (hlisted _ List.mem_cons_self)
    obtain rfl := Option.some.inj (hpage.symm.trans hq)
    have hs := hvisits.looping hR ⟨hv, hentry, hmem, p, hpage, htable, fun _ => rfl⟩
    have hsid : s.2.mt.id = mt.id := hvisits.preserves (P := fun _ mw => mw.id = mt.id)
      (fun i row s s' _ hrow hw => (hid _ _ _ _ _ hrow).trans hw) rfl
    refine ih hs.running ?_ hs.mem fun id hin => ?_
    · rw [entry_leave]
      exact hs.entry
    · rw [hsid, ((hvisits.keeps hkeeps).trans (keeps_leave pageId s)).ids]
      exact hlisted id (List.mem_cons_of_mem _ hin)

end RowView
