import Deltabase.Recovery.UndoTrails

/-!
# Recovery that is cut short

A recovery writes to the log and to the files, and a crash can come between any
two of its writes. What it leaves is a **stop** of the recovery: the redo loop
has come to some record, or undo to some record of some transaction, or the
compensation record of a change is durable and the change is not made yet.

What makes a stop harmless is that the redo pass of the next recovery goes on
where this one was. The records that redo lets through (`redoable`) are the same
as before, with the compensation records that are there now; a page that has
seen some of them is brought up to date by those it has not seen, as if they had
all been applied at once (`PageRedone.trans`); and taking a record back is to
redo its compensation record (`Redone.takeBack`).
-/

namespace RecoveryManager

open FileIOManager History AppendOnlyLog

/-! ## Where a recovery can stop -/

/-- **Where undo of a transaction can stop**, from an LSN on. -/
inductive LoopStops : UndoState → ℕ → UndoState → Prop
  | here (s : UndoState) (current : ℕ) : LoopStops s current s
  | compensated {s s' : UndoState} {current undoNextLsn : ℕ} {record : WalRecord}
      (hread : s.wal.readLog current = .ok record)
      (hnext : record.body.undoNext = some undoNextLsn)
      (hrest : LoopStops { s with txnPrevLsn := record.lsn } undoNextLsn s') :
      LoopStops s current s'
  /-- The compensation record has been flushed; the change is not written. -/
  | logged {s : UndoState} {current : ℕ} {record : WalRecord} {clr : WalBody}
      (hread : s.wal.readLog current = .ok record)
      (hclr : makeClr record.prevLsn record.body = some clr)
      (hpage : ∀ ref, record.body.dataRef = some ref → (readDataPage s.disk ref.2).isSome) :
      LoopStops s current (s.appendClr record.txnId clr)
  | undone {s s' s'' : UndoState} {current : ℕ} {record : WalRecord}
      (hread : s.wal.readLog current = .ok record) (hbody : record.body ≠ .rollbackTxn)
      (hnext : record.body.undoNext = none) (hundo : undoRecord s record = .ok s')
      (hrest : LoopStops s' record.prevLsn s'') : LoopStops s current s''

/-- **Where undo of some transactions can stop.** -/
inductive UndoStops : Disk × AppendOnlyLog → List (TxnId × ℕ) → Disk × AppendOnlyLog → Prop
  | here (files : Disk × AppendOnlyLog) (active : List (TxnId × ℕ)) : UndoStops files active files
  | within {files : Disk × AppendOnlyLog} {entry : TxnId × ℕ} {active : List (TxnId × ℕ)}
      {s : UndoState} (hstops : LoopStops ⟨files.1, files.2, entry.2⟩ entry.2 s) :
      UndoStops files (entry :: active) (s.disk, s.wal)
  | past {files files₁ files' : Disk × AppendOnlyLog} {entry : TxnId × ℕ}
      {active : List (TxnId × ℕ)} (hundo : undoTxn files.1 files.2 entry.1 entry.2 = .ok files₁)
      (hrest : UndoStops files₁ active files') : UndoStops files (entry :: active) files'

/-- **Where a recovery can stop.** -/
inductive RecoverStops (visit : List (TxnId × ℕ) → List (TxnId × ℕ)) (disk : Disk)
    (wal : AppendOnlyLog) : Disk × AppendOnlyLog → Prop
  | redoing {before rest : List WalRecord} {disk' : Disk} (hkept : wal.kept = before ++ rest)
      (hredo : before.foldlM (redo 0 (getCommitLsns wal.kept)) disk = .ok disk') :
      RecoverStops visit disk wal (disk', wal)
  | undoing {disk₁ : Disk} {files : Disk × AppendOnlyLog}
      (hredo : redoPass 0 wal.kept disk = .ok disk₁)
      (hstops : UndoStops (disk₁, wal) (visit (activeTxns wal.kept)) files) :
      RecoverStops visit disk wal files

/-- **A recovery that a crash has cut short**: the files are as they were where
it stopped, and of the log there is what was durable. -/
def CutShort (files files' : Disk × List WalRecord) : Prop :=
  ∃ visit : List (TxnId × ℕ) → List (TxnId × ℕ), (∀ active, (visit active).Perm active)
    ∧ ∃ stop, RecoverStops visit files.1 ⟨files.2, files.2.length⟩ stop
      ∧ files' = (stop.1, stop.2.kept.take stop.2.durable)

/-- Undo that comes to its end has stopped there. -/
theorem undoStops_of_undo {active : List (TxnId × ℕ)} {disk : Disk} {wal : AppendOnlyLog}
    {files : Disk × AppendOnlyLog} (h : undo disk wal active = .ok files) :
    UndoStops (disk, wal) active files := by
  induction active generalizing disk wal with
  | nil =>
    rw [← Except.ok.inj h]
    exact .here _ _
  | cons entry active ih =>
    obtain ⟨disk₁, wal₁, htxn, hrest⟩ := undo_cons h
    refine .past ?_ (ih hrest)
    exact htxn

/-- **A recovery that comes to its end** has stopped there. -/
theorem recoverStops_of_recover {visit : List (TxnId × ℕ) → List (TxnId × ℕ)} {disk : Disk}
    {wal : AppendOnlyLog} {files : Disk × AppendOnlyLog}
    (h : recover 0 visit disk wal = .ok files) : RecoverStops visit disk wal files := by
  obtain ⟨disk₁, hredo, hundo⟩ := recover_eq_ok h
  exact .undoing hredo (undoStops_of_undo hundo)

/-! ## The records that are redone -/

/-- Whether redo lets a record through. -/
def redoes (commitLsns : TxnId → Option ℕ) (r : WalRecord) : Bool :=
  r.body.undoNext.isSome || (commitLsns r.txnId).any fun commitLsn => r.lsn ≤ commitLsn

/-- **The records that the redo pass repeats.** -/
def redoable (logs : List WalRecord) : List WalRecord := logs.filter (redoes (getCommitLsns logs))

variable {logs tail : List WalRecord} {r : WalRecord}

theorem redo_eq {commitLsns : TxnId → Option ℕ} (hpos : 0 < r.lsn) (disk : Disk) :
    redo 0 commitLsns disk r = if redoes commitLsns r then redoRecord disk r else pure disk := by
  have hpos' : ¬ r.lsn ≤ 0 := not_le.mpr hpos
  unfold redo redoes
  cases r.body.undoNext with
  | some _ => exact if_neg hpos'
  | none =>
    cases commitLsns r.txnId with
    | none => rfl
    | some commitLsn =>
      dsimp only
      rw [if_neg hpos']
      show _ = if decide (r.lsn ≤ commitLsn) = true then _ else _
      by_cases hle : r.lsn ≤ commitLsn
      · rw [if_neg (not_lt.mpr hle), if_pos (decide_eq_true hle)]
      · rw [if_pos (not_le.mp hle), if_neg (by simpa using hle)]

/-- The redo loop is a loop over the records that are let through. -/
theorem foldlM_redo {commitLsns : TxnId → Option ℕ} {records : List WalRecord}
    (hpos : ∀ r ∈ records, 0 < r.lsn) (disk : Disk) :
    records.foldlM (redo 0 commitLsns) disk
      = (records.filter (redoes commitLsns)).foldlM redoRecord disk := by
  induction records generalizing disk with
  | nil => rfl
  | cons r records ih =>
    have hrest := fun d => ih (fun r' hr' => hpos r' (List.mem_cons_of_mem r hr')) d
    rw [List.foldlM_cons, redo_eq (hpos r List.mem_cons_self)]
    by_cases hr : redoes commitLsns r = true
    · rw [if_pos hr, List.filter_cons_of_pos hr, List.foldlM_cons]
      exact bind_congr hrest
    · rw [if_neg hr, List.filter_cons_of_neg hr]
      exact hrest disk

theorem mem_of_mem_redoable (h : r ∈ redoable logs) : r ∈ logs := List.mem_of_mem_filter h

theorem lsnsOf_append_of_none {kind : WalBody} (h : ∀ r ∈ tail, r.body ≠ kind) :
    lsnsOf kind (logs ++ tail) = lsnsOf kind logs := by
  induction tail using List.reverseRecOn with
  | nil => rw [List.append_nil]
  | append_singleton tail r ih =>
    rw [← List.append_assoc, lsnsOf_snoc, if_neg (h r (by simp))]
    exact ih fun r' hr' => h r' (List.mem_append_left _ hr')

/-- **What unfinished transactions add to a log** is redone as far as it is
compensation records. -/
theorem redoable_append (htail : ∀ r ∈ tail, Unfinished logs r.txnId ∧ r.body ≠ .commitTxn) :
    redoable (logs ++ tail)
      = redoable logs ++ tail.filter fun r => r.body.undoNext.isSome := by
  have hcommits : getCommitLsns (logs ++ tail) = getCommitLsns logs :=
    lsnsOf_append_of_none fun r hr => (htail r hr).2
  unfold redoable
  rw [hcommits, List.filter_append]
  refine congrArg _ (List.filter_congr fun r hr => ?_)
  have hnone : getCommitLsns logs r.txnId = none :=
    lsnsOf_eq_none.mpr fun r' hr' htxn => ((htail r hr).1.2 r' hr' htxn).1
  unfold redoes
  rw [hnone]
  exact Bool.or_false _

end RecoveryManager

namespace History

open RecoveryManager FileIOManager

variable {H H' A : List WalRecord} {disk disk₀ : Disk} {r : WalRecord} {pageId : DataPageId}

/-! ## Histories that create the same -/

/-- Two histories create the same schemas and tables. -/
def SameCreations (H H' : List WalRecord) : Prop :=
  createdTables H = createdTables H' ∧ createdSchemas H = createdSchemas H'

/-- A record that creates neither a schema nor a table. -/
theorem sameCreations_snoc (htable : createdTables [r] = []) (hschema : createdSchemas [r] = []) :
    SameCreations H (H ++ [r]) := by
  unfold SameCreations
  rw [createdTables_append, createdSchemas_append, htable, hschema, List.append_nil,
    List.append_nil]
  exact ⟨rfl, rfl⟩

theorem Placed.congr {file : TableFile} (h : Placed H file) (hsame : SameCreations H H') :
    Placed H' file := by
  unfold Placed at h ⊢
  rw [← hsame.1, ← hsame.2]
  exact h

theorem FilesOf.congr (h : FilesOf H disk) (hsame : SameCreations H H') : FilesOf H' disk :=
  ⟨fun s hs => hsame.2 ▸ h.schemas s hs, fun file hfile => (h.tables file hfile).congr hsame,
    h.pages⟩

theorem StartsFrom.congr {records records' : List WalRecord} {found : Option DataPage}
    {base : DataPage} (h : StartsFrom H pageId records found base) (hsame : SameCreations H H')
    (hsub : records ⊆ records') : StartsFrom H' pageId records' found base := by
  rcases h with h | ⟨hfound, t, ht, s, hs, hsid, hbase, r, hr, href⟩
  · exact .inl h
  · exact .inr ⟨hfound, t, hsame.1 ▸ ht, s, hsame.2 ▸ hs, hsid, hbase, r, hsub hr, href⟩

theorem PageRedone.congr {records : List WalRecord} {found after : Option DataPage}
    (h : PageRedone H pageId records found after) (hsame : SameCreations H H') :
    PageRedone H' pageId records found after := by
  rcases h with h | ⟨base, page, hstart, hafter, hgrown⟩
  · exact .inl h
  · exact .inr ⟨base, page, hstart.congr hsame fun _ hr => hr, hafter, hgrown⟩

theorem Redone.congr (h : Redone H A disk₀ disk) (hsame : SameCreations H H') :
    Redone H' A disk₀ disk :=
  ⟨h.left.congr hsame, h.schemas, h.headless, h.tables, fun id => (h.pages id).congr hsame⟩

/-- What may follow a history may follow one that creates more, when it creates
nothing itself. -/
theorem Admissible.mono {body : WalBody} (h : Admissible H body) (hnext : body.undoNext.isSome)
    (hsub : createdTables H ⊆ createdTables H') : Admissible H' body := by
  cases body <;> first
    | exact absurd hnext Bool.false_ne_true
    | exact h.elim
    | exact h.imp fun t ht => ⟨hsub ht.1, ht.2⟩

/-! ## A page in two goes -/

/-- **A page brought forward in two goes**, the second time further. -/
theorem Grown.trans {base mid page : DataPage} {P S : List WalRecord}
    (hsorted : (P ++ S).Pairwise fun r r' => r.lsn < r'.lsn) (h : Grown base P mid)
    (h' : Grown mid (P ++ S) page) : Grown base (P ++ S) page where
  rows := by
    obtain ⟨-, -, hlt⟩ := List.pairwise_append.mp hsorted
    have hseen : P.filter (fun r => decide (mid.lastLsn < r.lsn)) = [] :=
      List.filter_eq_nil_iff.mpr fun r hr => by
        simpa using h.le_lastLsn r hr
    -- a record that comes later is new to both pages or to neither
    have hlater : S.filter (fun r => decide (mid.lastLsn < r.lsn))
        = S.filter fun r => decide (base.lastLsn < r.lsn) := by
      refine List.filter_congr fun r hr => ?_
      rcases h.lastLsn with hlast | ⟨hle, r', hr', hlast⟩
      · rw [hlast]
      · have hnew : mid.lastLsn < r.lsn := hlast ▸ hlt r' hr' r hr
        rw [decide_eq_true hnew, decide_eq_true (hle.trans_lt hnew)]
    rw [h'.rows, h.rows, ← replayRows_append, List.filter_append, hseen, List.nil_append, hlater,
      List.filter_append]
  next := h'.next.trans h.next
  id := h'.id.trans h.id
  tableId := h'.tableId.trans h.tableId
  path := h'.path.trans h.path
  le_lastLsn := h'.le_lastLsn
  lastLsn := by
    rcases h'.lastLsn with hlast' | ⟨hle', r', hr', hlast'⟩
    · rcases h.lastLsn with hlast | ⟨hle, r, hr, hlast⟩
      · exact .inl (hlast'.trans hlast)
      · exact .inr ⟨hle.trans hlast'.ge, r, List.mem_append_left S hr, hlast.trans hlast'.symm⟩
    · exact .inr ⟨h.base_le.trans hle', r', hr', hlast'⟩

/-- **A page that is not brought forward**: it has seen all that the second go
has for it. -/
theorem Grown.seen {base page : DataPage} {records : List WalRecord} (h : Grown base records page)
    (hseen : ∀ r ∈ records, r.lsn ≤ base.lastLsn) :
    page.rows = base.rows ∧ page.lastLsn = base.lastLsn := by
  have hnone : records.filter (fun r => decide (base.lastLsn < r.lsn)) = [] :=
    List.filter_eq_nil_iff.mpr fun r hr => by simpa using hseen r hr
  refine ⟨?_, ?_⟩
  · rw [h.rows, hnone]
    rfl
  · rcases h.lastLsn with hlast | ⟨hle, r, hr, hlast⟩
    · exact hlast
    · exact le_antisymm (hlast ▸ hseen r hr) hle

theorem Grown.stays {base mid page : DataPage} {P Q : List WalRecord} (h : Grown base P mid)
    (h' : Grown mid Q page) (hsub : Q ⊆ P) : Grown base P page := by
  obtain ⟨hrows, hlast⟩ := h'.seen fun r hr => h.le_lastLsn r (hsub hr)
  exact ⟨hrows.trans h.rows, h'.next.trans h.next, h'.id.trans h.id, h'.tableId.trans h.tableId,
    h'.path.trans h.path, hlast ▸ h.le_lastLsn, hlast ▸ h.lastLsn⟩

/-- **A page redone in two goes** is as if it had been redone at once, as far as
the one that went further. -/
theorem PageRedone.trans {P Q R : List WalRecord} {found mid after : Option DataPage}
    (hsorted : R.Pairwise fun r r' => r.lsn < r'.lsn) (hP : P <+: R) (hQ : Q <+: R)
    (h : PageRedone H pageId P found mid) (h' : PageRedone H pageId Q mid after) :
    ∃ S, S <+: R ∧ Q <+: S ∧ PageRedone H pageId S found after := by
  rcases h with ⟨rfl, rfl, rfl⟩ | ⟨base, page, hstart, rfl, hgrown⟩
  · exact ⟨Q, hQ, List.prefix_rfl, h'⟩
  rcases h' with ⟨hmid, -⟩ | ⟨base', page', hstart', rfl, hgrown'⟩
  · cases hmid
  have hbase : base' = page := by
    rcases hstart' with heq | ⟨heq, -⟩
    · exact (Option.some.inj heq).symm
    · cases heq
  subst hbase
  rcases List.prefix_or_prefix_of_prefix hP hQ with ⟨S, rfl⟩ | hle
  · exact ⟨P ++ S, hQ, List.prefix_rfl, .inr ⟨base, page',
      hstart.congr ⟨rfl, rfl⟩ (List.subset_append_left P S), rfl,
      hgrown.trans (hsorted.sublist hQ.sublist) hgrown'⟩⟩
  · exact ⟨P, hP, hle, .inr ⟨base, page', hstart, rfl, hgrown.stays hgrown' hle.subset⟩⟩

/-- A page has no LSN that neither it nor a record had. -/
theorem PageRedone.lastLsn_le {records : List WalRecord} {found : Option DataPage}
    {page : DataPage} {n : ℕ} (h : PageRedone H pageId records found (some page))
    (hfound : ∀ p, found = some p → p.lastLsn ≤ n) (hrecords : ∀ r ∈ records, r.lsn ≤ n) :
    page.lastLsn ≤ n := by
  rcases h with ⟨-, -, hnone⟩ | ⟨base, page', hstart, hafter, hgrown⟩
  · cases hnone
  obtain rfl := Option.some.inj hafter
  rcases hgrown.lastLsn with hlast | ⟨-, r, hr, hlast⟩
  · rw [hlast]
    rcases hstart with hfound' | ⟨-, t, -, s, -, -, rfl, -⟩
    · exact hfound base hfound'
    · exact Nat.zero_le n
  · exact hlast ▸ hrecords r hr

/-- What redo starts a page from: the page there was, or an empty one. -/
theorem StartsFrom.base_eq {records : List WalRecord} {found : Option DataPage} {base : DataPage}
    (h : StartsFrom H pageId records found base) :
    base.rows = found.elim [] DataPage.rows ∧ base.lastLsn = found.elim 0 DataPage.lastLsn
      ∧ base.next = found.elim UUID.null DataPage.next := by
  rcases h with rfl | ⟨rfl, t, -, s, -, -, rfl, -⟩
  · exact ⟨rfl, rfl, rfl⟩
  · exact ⟨rfl, rfl, rfl⟩

/-- **The pages that are there** when the records have been redone. -/
theorem PageRedone.isSome_iff {records : List WalRecord} {found after : Option DataPage}
    (h : PageRedone H pageId records found after) :
    after.isSome = (found.isSome || !records.isEmpty) := by
  rcases h with ⟨rfl, rfl, rfl⟩ | ⟨base, page, hstart, rfl, -⟩
  · rfl
  · rcases hstart with rfl | ⟨-, t, -, s, -, -, -, r, hr, -⟩
    · rfl
    · have hne : records.isEmpty = false :=
        List.isEmpty_eq_false_iff.mpr (List.ne_nil_of_mem hr)
      rw [hne]
      exact (Bool.or_true _).symm

/-! ## Taking a record back -/

/-- A compensation record is about what the record it compensates is about. -/
theorem dataRef_makeClr {undoNextLsn : ℕ} {body clr : WalBody}
    (h : makeClr undoNextLsn body = some clr) :
    clr.dataRef = body.dataRef ∧ createdTables [{ r with body := clr }] = []
      ∧ createdSchemas [{ r with body := clr }] = [] := by
  cases body <;> cases h <;> exact ⟨rfl, rfl, rfl⟩

/-- **Taking a record back is to redo its compensation record**, which is the
last record of the log by then. -/
theorem Redone.takeBack {s : UndoState} {record : WalRecord} {clr : WalBody}
    (h : Redone H H disk₀ s.disk) (hclr : makeClr record.prevLsn record.body = some clr)
    (hr : r = { lsn := s.wal.nextLsn, prevLsn := 0, txnId := record.txnId, body := clr })
    (hH : InstanceLog (H ++ [r]))
    (hpage : ∀ ref, record.body.dataRef = some ref →
      ∃ page, s.disk.pages ref.2 = some page ∧ page.lastLsn < s.wal.nextLsn) :
    ∃ disk', undoRecord s record = .ok { s.appendClr record.txnId clr with disk := disk' }
      ∧ Redone (H ++ [r]) (H ++ [r]) disk₀ disk' := by
  have hbody : r.body = clr := by rw [hr]
  obtain ⟨href, htables, hschemas⟩ := dataRef_makeClr (r := r) hclr
  have hself : ({ r with body := clr } : WalRecord) = r := by rw [hr]
  rw [hself] at htables hschemas
  obtain ⟨disk', hredo, hredone⟩ :=
    (h.congr (sameCreations_snoc htables hschemas)).step hH hH (List.Subset.refl _)
      (h.headless_of_not_table htables)
  refine ⟨disk', ?_, hredone⟩
  unfold redoRecord at hredo
  rw [hbody, href] at hredo
  unfold undoRecord
  rw [hclr]
  dsimp only
  cases hdata : record.body.dataRef with
  | none =>
    rw [hdata] at hredo
    dsimp only at hredo ⊢
    rw [undoMeta_eq_redoMeta s.disk hclr, hredo]
    rfl
  | some ref =>
    obtain ⟨page, hthere, hlt⟩ := hpage ref hdata
    have hread : readDataPage s.disk ref.2 = some page.reread := by
      unfold readDataPage
      rw [hthere]
      rfl
    have hnew : page.reread.lastLsn < r.lsn := by
      rw [hr]
      exact hlt
    rw [hdata] at hredo
    dsimp only at hredo ⊢
    unfold RecoveryManager.redoData readOrCreatePage at hredo
    rw [hread] at hredo ⊢
    obtain ⟨mt, -, hredo⟩ := bind_eq_ok.mp hredo
    change (if page.reread.lastLsn < r.lsn then _ else _) = _ at hredo
    rw [if_pos hnew] at hredo
    rw [← Except.ok.inj hredo, hbody, ← undoRows_eq_redoRows page.reread.rows hclr, hr]
    rfl

end History
