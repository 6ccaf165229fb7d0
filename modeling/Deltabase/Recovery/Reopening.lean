import Deltabase.Recovery.StatementRuns
import Deltabase.Storage.OpenInstance
import Deltabase.Transactions.PrevLsnChain

/-!
# Opening a database whose transactions are all committed

`recover` then only redoes, and what it redoes brings every file to where its
page was. What is found in the files is what was in the pool, but for two
things that no record tells: the link to the next page, and which of several
rows with one id a record was about. For a page that had been written, there is
nothing to be told.

`Resting.reopen` says that the new instance is in step with the log and sees the
tables and rows of the old one, provided the pages that had not been written are
harmless in these respects.
-/

namespace History

open RecoveryManager FileIOManager

variable {logs : List WalRecord}

/-- **Nothing is unfinished** when every transaction is committed. -/
theorem activeTxns_eq_nil (hlog : InstanceLog logs) (hall : AllCommitted logs) :
    activeTxns logs = [] := by
  refine List.filter_eq_nil_iff.mpr fun entry hentry hactive => ?_
  obtain ⟨r, hr, htxn, -⟩ := exists_of_mem_getLastLsns hentry
  obtain ⟨c, hc, hcommit, hid⟩ := hall r hr
  obtain ⟨lsn, hlsn, -⟩ := exists_lsnsOf hlog.sorted hc hcommit
  rw [hid, htxn] at hlsn
  have hnone := (Bool.and_eq_true_iff.mp hactive).1
  unfold getCommitLsns at hnone
  rw [hlsn] at hnone
  cases hnone

/-- **Recovery is the redo pass** then. -/
theorem recover_eq_ok {visit : List (TxnId × ℕ) → List (TxnId × ℕ)} {disk disk' : Disk}
    {wal wal' : AppendOnlyLog} (hvisit : ∀ active, (visit active).Perm active)
    (hlog : InstanceLog wal.kept) (hall : AllCommitted wal.kept) :
    recover 0 visit disk wal = .ok (disk', wal')
      ↔ wal.kept.foldlM redoRecord disk = .ok disk' ∧ wal' = wal := by
  have hnil : visit (activeTxns wal.kept) = [] := by
    rw [activeTxns_eq_nil hlog hall]
    exact (hvisit []).eq_nil
  unfold recover
  rw [redoPass_eq_foldlM hlog hall]
  cases wal.kept.foldlM redoRecord disk with
  | error e => exact iff_of_false (fun h => by cases h) fun h => by cases h.1
  | ok disk₁ =>
    show undo disk₁ wal (visit (activeTxns wal.kept)) = _ ↔ _
    rw [hnil]
    show Except.ok (disk₁, wal) = _ ↔ _
    rw [Except.ok.injEq, Except.ok.injEq, Prod.mk.injEq, eq_comm (a := wal)]

end History

namespace CatalogCache

variable {α : Type} {key : α → UUID}

/-- **An entry that is there is kept**: the first value with a key stays. -/
theorem find?_foldl_emplace (xs acc : List α) (k : UUID) :
    (xs.foldl (emplace key) acc).find? (fun x => key x = k)
      = (acc.find? fun x => key x = k).or (xs.find? fun x => key x = k) := by
  induction xs generalizing acc with
  | nil => rw [List.foldl_nil, List.find?_nil, Option.or_none]
  | cons x xs ih =>
    rw [List.foldl_cons, ih]
    unfold emplace
    split_ifs with hmem
    · by_cases hx : key x = k
      · obtain ⟨y, hy, hkey⟩ := List.mem_map.mp hmem
        cases hfind : acc.find? fun x => key x = k with
        | some z => rfl
        | none =>
          refine absurd ?_ (List.find?_eq_none.mp hfind y hy)
          exact decide_eq_true (hkey.trans hx)
      · rw [List.find?_cons_of_neg (by simpa using hx)]
    · rw [List.find?_append, Option.or_assoc]
      congr 1
      rw [List.find?_singleton, List.find?_cons]
      by_cases hx : key x = k
      · simp [hx]
      · simp [hx]

theorem mem_of_mem_foldl_emplace {xs acc : List α} {y : α}
    (h : y ∈ xs.foldl (emplace key) acc) : y ∈ acc ∨ y ∈ xs := by
  induction xs generalizing acc with
  | nil => exact .inl h
  | cons x xs ih =>
    rcases ih h with hacc | hxs
    · unfold emplace at hacc
      split_ifs at hacc
      · exact .inl hacc
      · rcases List.mem_append.mp hacc with hacc | hx
        · exact .inl hacc
        · exact .inr (List.mem_singleton.mp hx ▸ List.mem_cons_self)
    · exact .inr (List.mem_cons_of_mem x hxs)

/-- **What the catalog has of a table** is what its meta file says. -/
theorem find?_hydrate (io : Disk) (t : TableId) :
    ((hydrate io).tables.find? fun mt => mt.id = t)
      = (io.tables.find? fun file => file.table.id = t).map TableFile.table := by
  show ((io.tables.map TableFile.table).foldl (emplace MetaTable.id) []).find? _ = _
  rw [find?_foldl_emplace, List.find?_nil, Option.none_or, List.find?_map]
  rfl

end CatalogCache

namespace FileIOManager

/-- **What is listed for a table** is what is in its directory. -/
theorem mapFilesForTable_getD {disk : Disk} {entries : Bytes × Bytes → List UUID} {t : TableId}
    {file : TableFile} (hfile : file ∈ disk.tables) (ht : file.table.id = t)
    (hpath : ∀ f ∈ disk.tables, f.table.id = t → f.path = file.path) :
    (mapFilesForTable disk entries t).getD [] = entries file.path := by
  have hfold : ∀ (fs : List TableFile) (acc : TableId → Option (List UUID)), fs ⊆ disk.tables →
      (acc t).getD [] = entries file.path ∨ acc t = none ∧ file ∈ fs →
      ((fs.foldl (fun (ids : TableId → Option (List UUID)) f => if entries f.path = [] then ids
        else Function.update ids f.table.id (some (entries f.path))) acc) t).getD []
        = entries file.path := by
    intro fs
    induction fs with
    | nil =>
      rintro acc - (hacc | ⟨-, hin⟩)
      · exact hacc
      · cases hin
    | cons f fs ih =>
      intro acc hsub hacc
      refine ih _ (fun x hx => hsub (List.mem_cons_of_mem f hx)) ?_
      beta_reduce
      by_cases hf : f.table.id = t
      · rw [hpath f (hsub List.mem_cons_self) hf]
        split_ifs with hnil
        · rcases hacc with hacc | ⟨hacc, -⟩
          · exact .inl hacc
          · rw [hacc, hnil]
            exact .inl rfl
        · rw [hf, Function.update_self]
          exact .inl rfl
      · have hrest : (if entries f.path = [] then acc
            else Function.update acc f.table.id (some (entries f.path))) t = acc t := by
          split_ifs
          · rfl
          · exact Function.update_of_ne (Ne.symm hf) _ _
        rw [hrest]
        refine hacc.imp_right fun ⟨hnone, hin⟩ => ⟨hnone, ?_⟩
        rcases List.mem_cons.mp hin with rfl | hin
        exacts [absurd ht hf, hin]
  exact hfold disk.tables _ (List.Subset.refl _) (.inr ⟨rfl, hfile⟩)

theorem mapFilesForTable_eq_none {disk : Disk} {entries : Bytes × Bytes → List UUID} {t : TableId}
    (hnone : ∀ f ∈ disk.tables, f.table.id ≠ t) : mapFilesForTable disk entries t = none := by
  have hfold : ∀ (fs : List TableFile) (acc : TableId → Option (List UUID)), fs ⊆ disk.tables →
      acc t = none → (fs.foldl (fun (ids : TableId → Option (List UUID)) f =>
        if entries f.path = [] then ids
        else Function.update ids f.table.id (some (entries f.path))) acc) t = none := by
    intro fs
    induction fs with
    | nil => exact fun acc _ hacc => hacc
    | cons f fs ih =>
      intro acc hsub hacc
      refine ih _ (fun x hx => hsub (List.mem_cons_of_mem f hx)) ?_
      beta_reduce
      split_ifs
      · exact hacc
      · rw [Function.update_of_ne (hnone f (hsub List.mem_cons_self)).symm]
        exact hacc
  exact hfold disk.tables _ (List.Subset.refl _) rfl

end FileIOManager

namespace RowView

open History RecoveryManager FileIOManager StdDbInstance

variable {v : RowView} {disk : Disk} {clock : ℕ} {db' : StdDbInstance}

/-- **Pages that have not been written and are harmless**: the file of a page
that is marked has the same link, and none if there is no file, and redo can tell
its rows apart. -/
def Redoable (v : RowView) : Prop :=
  ∀ id p, v.page id = some p → v.dirty id = true →
    ((v.ioPages id).map DataPage.next).getD UUID.null = p.next
      ∧ (p.rows.map DataRow.id).Nodup

/-- A page and what recovery makes of its file: the size and the counters of
the file do not matter. -/
structure Restored (p d : DataPage) : Prop where
  id : d.id = p.id
  tableId : d.tableId = p.tableId
  path : d.path = p.path
  next : d.next = p.next
  rows : d.rows = p.rows

/-- **The file of a page after redo.** -/
theorem Resting.restored (h : Resting v) (hredo : v.Redoable) {disk₀ : Disk}
    (hpages : disk₀.pages = v.ioPages) (hredone : Redone v.wal.kept v.wal.kept disk₀ disk)
    (id : DataPageId) :
    Option.Rel Restored (v.page id) (disk.pages id)
      ∧ ∀ d, disk.pages id = some d → d.lastLsn < v.wal.nextLsn
        ∧ ∀ r ∈ dataRecords id v.wal.kept, r.lsn ≤ d.lastLsn := by
  have hredone' := hredone.pages id
  rw [hpages] at hredone'
  cases hp : v.page id with
  | none =>
    obtain ⟨hio, hrecords⟩ := h.logged.pages.missing id hp
    rcases hredone' with ⟨-, -, hnone⟩ | ⟨base, d, hstart, -⟩
    · rw [hnone]
      exact ⟨.none, fun d hd => by cases hd⟩
    · rcases hstart with hfound | ⟨-, -, -, -, -, -, -, r, hr, -⟩
      · rw [hio] at hfound
        cases hfound
      · rw [hrecords] at hr
        cases hr
  | some p =>
    have hlogged := h.logged.pages.pages id p hp trivial
    obtain ⟨base₀, hbase₀, hreplay⟩ := hlogged.base
    rcases hredone' with ⟨hio, hrecords, -⟩ | ⟨base, d, hstart, hd, hgrown⟩
    · exact absurd hrecords (h.recorded id (by rw [hp]; rfl) hio)
    · have hbase : base = base₀ := by
        rcases hstart with hfound | ⟨hio, t, ht, s, hs, hsid, hmake, r, hr, href⟩
        · rcases hbase₀.found with hfound' | ⟨hio, -⟩
          · exact Option.some.inj (hfound.symm.trans hfound')
          · rw [hio] at hfound
            cases hfound
        · rcases hbase₀.found with hfound' | ⟨-, hmake'⟩
          · rw [hio] at hfound'
            cases hfound'
          · have howner := hlogged.owner r (mem_dataRecords.mp hr).1 t.id href
            obtain ⟨t', ht', hid', s', hs', hsid', hpath⟩ := hlogged.placed
            obtain rfl := (h.logged.catalog.log.table_unique t ht t' ht').1 (howner.trans hid'.symm)
            obtain rfl := (h.logged.catalog.log.schema_unique s hs s' hs').1 (hsid.trans hsid'.symm)
            rw [hmake, hmake', hpath, howner]
      subst hbase
      have hfilter : base.lastLsn = p.lastLsn →
          (dataRecords id v.wal.kept).filter (fun r => base.lastLsn < r.lsn) = [] := fun heq =>
        List.filter_eq_nil_iff.mpr fun r hr hlt =>
          absurd (of_decide_eq_true hlt) (heq ▸ hlogged.seen r hr).not_gt
      have hsame : p.next = base.next ∧ d.rows = p.rows := by
        by_cases hdirty : v.dirty id = true
        · obtain ⟨hnext, hnodup⟩ := hredo id p hp hdirty
          refine ⟨?_, hgrown.rows.trans (hreplay hnodup).symm⟩
          rw [← hnext]
          rcases hbase₀.found with hfound | ⟨hio, hmake⟩
          · rw [hfound]
            rfl
          · rw [hio, hmake]
            rfl
        · obtain ⟨f, hf, hrows, hnext, hlsn⟩ := hlogged.clean (Bool.eq_false_iff.mpr hdirty)
          obtain rfl : base = f := by
            rcases hbase₀.found with hfound | ⟨hio, -⟩
            · exact Option.some.inj (hfound.symm.trans hf)
            · rw [hio] at hf
              cases hf
          refine ⟨hnext.symm, ?_⟩
          rw [hgrown.rows, hfilter hlsn]
          exact hrows
      rw [hd]
      refine ⟨.some ⟨?_, hgrown.tableId.trans hbase₀.tableId, hgrown.path.trans hbase₀.path,
        hgrown.next.trans hsame.1.symm, hsame.2⟩, fun d' hd' => ?_⟩
      · rw [hredone.left.pages id d hd, h.logged.pages.ok.named id p hp]
      · obtain rfl := Option.some.inj hd'
        refine ⟨?_, hgrown.le_lastLsn⟩
        rcases hgrown.lastLsn with heq | ⟨-, r, hr, hlsn⟩
        · rw [heq]
          exact hbase₀.lastLsn.trans_lt hlogged.lsn
        · rw [← hlsn]
          exact h.logged.catalog.lsns r (mem_dataRecords.mp hr).1

/-- The directory of a table and the pages of the table: a page is in it when
it belongs to the table. -/
theorem path_eq_iff (hlog : InstanceLog v.wal.kept) {p : DataPage} (hp : PlacedPage v.wal.kept p)
    {file : TableFile} (hfile : Placed v.wal.kept file) :
    p.path = file.path ↔ p.tableId = file.table.id := by
  obtain ⟨t, ht, hid, s, hs, hsid, hpath⟩ := hp
  obtain ⟨t', ht', ⟨hid', hname', hschema'⟩, s', hs', hsid', hsname'⟩ := hfile
  have hfpath : file.path = (s'.name, t'.name) := by
    unfold TableFile.path
    rw [hsname', hname']
  rw [hpath, hfpath, ← hid, ← hid', Prod.mk.injEq]
  constructor
  · rintro ⟨hsname, hname⟩
    obtain rfl := (hlog.schema_unique s hs s' hs').2 hsname
    exact congrArg MetaTable.id ((hlog.table_unique t ht t' ht').2 (hsid.symm.trans hsid') hname)
  · intro heq
    obtain rfl := (hlog.table_unique t ht t' ht').1 heq
    obtain rfl := (hlog.schema_unique s hs s' hs').1 (hsid.trans hsid'.symm)
    exact ⟨rfl, rfl⟩

/-- **What a new instance finds**: the tables and pages that the old one saw. -/
structure Found (v v' : RowView) : Prop where
  entry : v'.entry = v.entry
  wal : v'.wal = v.wal
  clean : ∀ id, v'.dirty id = false
  ids : ∀ t, (v'.ids t).Perm (v.ids t)
  pages : ∀ id, Option.Rel Restored (v.page id) (v'.page id)

theorem Found.pageRows {v' : RowView} (h : Found v v') : v'.pageRows = v.pageRows := by
  funext id
  unfold RowView.pageRows
  have hrel := h.pages id
  revert hrel
  generalize v.page id = x, v'.page id = y
  rintro (⟨hrestored⟩ | _)
  · exact hrestored.rows
  · rfl

theorem Found.nextOf {v' : RowView} (h : Found v v') : v'.nextOf = v.nextOf := by
  funext id
  unfold RowView.nextOf
  have hrel := h.pages id
  revert hrel
  generalize v.page id = x, v'.page id = y
  rintro (⟨hrestored⟩ | _)
  · exact hrestored.next
  · rfl

/-- The rows of a table are the same, in the order in which its directory is
listed. -/
theorem Found.rows_perm {v' : RowView} (h : Found v v') (t : TableId) :
    (v'.rows t).Perm (v.rows t) := by
  unfold RowView.rows
  rw [h.pageRows]
  exact (h.ids t).flatMap_right _

/-- The pages listed for a table are those that belong to it. -/
theorem mem_ids_iff (h : Logged v.wal.kept Set.univ v) {t : TableId} {id : DataPageId} :
    id ∈ v.ids t ↔ ∃ p, v.page id = some p ∧ p.tableId = t := by
  constructor
  · exact h.pages.ok.listed t id
  · rintro ⟨p, hp, rfl⟩
    exact (h.pages.pages id p hp trivial).listed

/-- What a file holds and what is read from it. -/
theorem rel_reread {x : Option DataPage} {y : Option DataPage} (h : Option.Rel Restored x y) :
    Option.Rel Restored x (y.map DataPage.reread) := by
  cases h with
  | none => exact .none
  | some h => exact .some ⟨h.id, h.tableId, h.path, h.next, h.rows⟩

/-- **The meta files after redo** are the tables that the old instance had. -/
theorem Resting.hydrated (h : Resting v) {disk₀ : Disk}
    (hredone : Redone v.wal.kept v.wal.kept disk₀ disk) (t : TableId) :
    ((disk.tables.find? fun file => file.table.id = t).map TableFile.table)
      = tableAfter t v.wal.kept := by
  cases hafter : tableAfter t v.wal.kept with
  | some mt =>
    have hread := hredone.tables t mt hafter
    unfold readTableMeta at hread
    cases hfind : disk.tables.find? fun file => file.table.id = t with
    | none => simp only [hfind] at hread; cases hread
    | some file =>
      simp only [hfind] at hread
      rw [Option.map_some, Except.ok.inj hread]
  | none =>
    cases hfind : disk.tables.find? fun file => file.table.id = t with
    | none => rfl
    | some file =>
      have hid := List.find?_some hfind
      obtain ⟨t₀, ht₀, hsame, -⟩ := hredone.left.tables file (List.mem_of_find?_eq_some hfind)
      obtain ⟨mt, hmt⟩ := h.logged.catalog.log.exists_tableAfter ht₀
      rw [hsame.1, of_decide_eq_true hid, hafter] at hmt
      cases hmt

/-- **The pages listed after redo** are those that the old instance listed. -/
theorem Resting.listed (h : Resting v) {disk₀ : Disk}
    (hredone : Redone v.wal.kept v.wal.kept disk₀ disk)
    (hrel : ∀ id, Option.Rel Restored (v.page id) (disk.pages id)) (listing : DirectoryListing disk)
    (t : TableId) :
    ((mapFilesForTable disk listing.pages t).getD []).Perm (v.ids t) := by
  have hlog := h.logged.catalog.log
  have hplaced : ∀ file ∈ disk.tables, Placed v.wal.kept file := hredone.left.tables
  have hmem : ∀ file ∈ disk.tables, file.table.id = t → ∀ id,
      id ∈ listing.pages file.path ↔ id ∈ v.ids t := by
    intro file hfile ht id
    rw [listing.mem_pages, mem_ids_iff h.logged]
    have hid := hrel id
    constructor
    · rintro ⟨d, hd, hpath⟩
      rw [hd] at hid
      cases hp : v.page id with
      | none => rw [hp] at hid; cases hid
      | some p =>
        rw [hp] at hid
        cases hid with
        | some hrestored =>
          refine ⟨p, rfl, ?_⟩
          rw [← ht]
          refine (path_eq_iff hlog (h.logged.pages.pages id p hp trivial).placed
            (hplaced file hfile)).mp ?_
          rw [← hrestored.path, hpath]
    · rintro ⟨p, hp, htable⟩
      rw [hp] at hid
      cases hd : disk.pages id with
      | none => rw [hd] at hid; cases hid
      | some d =>
        rw [hd] at hid
        cases hid with
        | some hrestored =>
          refine ⟨d, rfl, ?_⟩
          rw [hrestored.path]
          exact (path_eq_iff hlog (h.logged.pages.pages id p hp trivial).placed
            (hplaced file hfile)).mpr (htable.trans ht.symm)
  by_cases hex : ∃ file ∈ disk.tables, file.table.id = t
  · obtain ⟨file, hfile, ht⟩ := hex
    have hpath : ∀ f ∈ disk.tables, f.table.id = t → f.path = file.path := fun f hf hft =>
      ((hplaced f hf).path_iff hlog (hplaced file hfile)).mpr (hft.trans ht.symm)
    rw [mapFilesForTable_getD hfile ht hpath]
    exact (List.perm_ext_iff_of_nodup (listing.nodup_pages _) (h.logged.pages.ok.nodup t)).mpr
      (hmem file hfile ht)
  · have hnone : ∀ f ∈ disk.tables, f.table.id ≠ t := fun f hf hid => hex ⟨f, hf, hid⟩
    rw [mapFilesForTable_eq_none hnone]
    have hempty : v.ids t = [] := by
      refine List.eq_nil_iff_forall_not_mem.mpr fun id hid => ?_
      obtain ⟨p, hp, htable⟩ := h.logged.pages.ok.listed t id hid
      obtain ⟨t₀, ht₀, hid₀, -⟩ := (h.logged.pages.pages id p hp trivial).placed
      obtain ⟨mt, hmt⟩ := hlog.exists_tableAfter ht₀
      have hhydrated := h.hydrated hredone t
      rw [← htable, ← hid₀, hmt] at hhydrated
      obtain ⟨file, hfind, -⟩ := Option.map_eq_some_iff.mp hhydrated
      have hfid := List.find?_some hfind
      refine hnone file (List.mem_of_find?_eq_some hfind) ?_
      rw [of_decide_eq_true hfid, hid₀, htable]
    rw [hempty]
    exact List.Perm.refl _

theorem sameTable_refl (x : Option MetaTable) : Option.Rel MetaTable.SameTable x x := by
  cases x with
  | none => exact .none
  | some mt => exact .some ⟨rfl, rfl, rfl⟩

/-- **A database is opened again**: the new instance is in step with the log
and sees what the old one saw. -/
theorem Resting.reopen (h : Resting v) (hredo : v.Redoable) {disk₀ : Disk}
    (hpages : disk₀.pages = v.ioPages) (hleft : FilesOf v.wal.kept disk₀) (hclock : v.clock ≤ clock)
    (hopens : Opens disk₀ v.wal clock db') : Resting db'.rowView ∧ Found v db'.rowView := by
  have hlog := h.logged.catalog.log
  obtain ⟨hvisit, hrecover, hclock', listing, generator⟩ := hopens
  rename_i visit disk wal' clock'
  obtain ⟨hfold, rfl⟩ := (recover_eq_ok hvisit hlog h.committed).mp hrecover
  have hredone := Redone.of_foldlM hleft hlog hlog (List.Subset.refl _) hfold
  set v' := (init generator clock' disk v.wal listing).rowView with hv'
  have hle : v.clock ≤ v'.clock := hclock.trans hclock'
  have hrestored := fun id => h.restored hredo hpages hredone id
  have hrel : ∀ id, Option.Rel Restored (v.page id) (v'.page id) := fun id =>
    rel_reread (hrestored id).1
  have hids : ∀ t, (v'.ids t).Perm (v.ids t) :=
    h.listed hredone (fun id => (hrestored id).1) listing
  have hafter : ∀ t, v'.entry t = tableAfter t v.wal.kept := fun t =>
    (CatalogCache.find?_hydrate disk t).trans (h.hydrated hredone t)
  have hentry : v'.entry = v.entry := by
    funext t
    rw [hafter, h.logged.catalog.entries t trivial]
  have hfound : Found v v' := ⟨hentry, rfl, fun _ => rfl, hids, hrel⟩
  -- a page of the new instance, its file and the page it was
  have hpage : ∀ id q, v'.page id = some q → ∃ p d, v.page id = some p ∧ disk.pages id = some d
      ∧ q = d.reread ∧ Restored p q := by
    intro id q hq
    obtain ⟨d, hd, hdq⟩ := Option.map_eq_some_iff.mp
      (show (disk.pages id).map DataPage.reread = some q from hq)
    have hid := hrel id
    rw [hq] at hid
    cases hp : v.page id with
    | none => rw [hp] at hid; cases hid
    | some p =>
      rw [hp] at hid
      cases hid with
      | some hid => exact ⟨p, d, rfl, hd, hdq.symm, hid⟩
  refine ⟨⟨⟨⟨hlog, h.logged.catalog.lsns, fun r hr => (h.logged.catalog.txns r hr).trans_le hle,
    fun s hs =>
      ⟨(h.logged.catalog.schemaIds s hs).1, (h.logged.catalog.schemaIds s hs).2.trans_le hle⟩,
    fun t ht => (h.logged.catalog.tableIds t ht).trans_le hle, fun s => ?_, fun t => ?_,
    fun t _ => hafter t, hredone.left.schemas, hredone.left.tables⟩, ⟨⟨fun id q hq => ?_,
    fun id q hq => ?_, h.logged.pages.ok.clock_pos.trans_le hle, fun t id hid => ?_, fun t => ?_⟩,
    fun id q hq _ => ?_, fun id hid => ?_, fun t _ => ?_, hredone.left.pages⟩⟩, h.committed,
    h.owned.congr hentry, fun id hsome hnone => ?_⟩, hfound⟩
  · constructor
    · intro hs
      exact hredone.left.schemas s
        ((CatalogCache.mem_of_mem_foldl_emplace hs).resolve_left List.not_mem_nil)
    · intro hs
      have hfind := @CatalogCache.find?_foldl_emplace _ MetaSchema.id disk.schemas [] s.id
      cases hs' : disk.schemas.find? fun x => x.id = s.id with
      | none =>
        exact absurd (decide_eq_true rfl) (List.find?_eq_none.mp hs' s (hredone.schemas s hs))
      | some s' =>
        have hid := List.find?_some hs'
        have hmem := hredone.left.schemas s' (List.mem_of_find?_eq_some hs')
        obtain rfl := (hlog.schema_unique s' hmem s hs).1 (of_decide_eq_true hid)
        rw [hs'] at hfind
        exact List.mem_of_find?_eq_some hfind
  · rw [hafter]
    exact sameTable_refl _
  · obtain ⟨p, d, -, hd, rfl, -⟩ := hpage id q hq
    exact hredone.left.pages id d hd
  · obtain ⟨p, d, hp, -, -, -⟩ := hpage id q hq
    exact (h.logged.pages.ok.older id p hp).trans_le hle
  · obtain ⟨p, hp, htable⟩ := h.logged.pages.ok.listed t id ((hids t).mem_iff.mp hid)
    have hid := hrel id
    rw [hp] at hid
    cases hq : v'.page id with
    | none => rw [hq] at hid; cases hid
    | some q =>
      rw [hq] at hid
      cases hid with
      | some hid => exact ⟨q, rfl, hid.tableId.trans htable⟩
  · exact (hids t).nodup_iff.mpr (h.logged.pages.ok.nodup t)
  · obtain ⟨p, d, hp, hd, rfl, hrest⟩ := hpage id q hq
    have hlogged := h.logged.pages.pages id p hp trivial
    obtain ⟨hlsn, hseen⟩ := (hrestored id).2 d hd
    refine ⟨hlogged.pos, ?_, ?_, hrest.tableId ▸ hlogged.owner, hseen, hlsn,
      ⟨d, ⟨.inl hd, rfl, rfl, le_rfl⟩, fun _ => ?_⟩, fun _ => ⟨d, hd, rfl, rfl, rfl⟩⟩
    · obtain ⟨t, ht, htid, s, hs, hsid, hpath⟩ := hlogged.placed
      exact ⟨t, ht, htid.trans hrest.tableId.symm, s, hs, hsid, hrest.path.trans hpath⟩
    · rw [hrest.tableId]
      exact (hids _).mem_iff.mpr hlogged.listed
    · have hnone : (dataRecords id v.wal.kept).filter (fun r => d.lastLsn < r.lsn) = [] :=
        List.filter_eq_nil_iff.mpr fun r hr hlt =>
          absurd (of_decide_eq_true hlt) (hseen r hr).not_gt
      show d.rows
        = replayRows d.rows ((dataRecords id v.wal.kept).filter fun r => d.lastLsn < r.lsn)
      rw [hnone]
      rfl
  · have hnone : disk.pages id = none := Option.map_eq_none_iff.mp hid
    refine ⟨hnone, ?_⟩
    have hid' := (hrestored id).1
    rw [hnone] at hid'
    cases hp : v.page id with
    | none => exact (h.logged.pages.missing id hp).2
    | some p => rw [hp] at hid'; cases hid'
  · obtain ⟨order, hperm, hlinked⟩ := h.logged.pages.chains t trivial
    refine ⟨order, hperm.trans (hids t).symm, ?_⟩
    rw [hfound.nextOf]
    exact hlinked
  · obtain ⟨q, hq⟩ := Option.isSome_iff_exists.mp hsome
    obtain ⟨p, d, -, hd, -, -⟩ := hpage id q hq
    change disk.pages id = none at hnone
    rw [hd] at hnone
    cases hnone

end RowView
