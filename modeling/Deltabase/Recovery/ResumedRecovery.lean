import Deltabase.Recovery.RepeatedRecovery

/-!
# Recovery goes on where it was stopped

The log and the files together, through recoveries that are cut short anywhere
and to one that comes to its end.

Undo is followed along the trail of a transaction: each round takes back the
next record that is owed, or passes it over when there is no file for its page
(`UndoAt.undoRecord`). Where a recovery stops, the log owes each transaction the
rest of its trail and the pages are on their way (`StoppedAt`), whatever the
stop; from there the redo pass leads to `UndoAt` again.

A recovery may visit the unfinished transactions in an order of its own each
time, so that the log it ends with is not determined. The records it has for
each transaction are (`recover_cutShort`), and so are the rows of every page
that no two of the transactions have written to (`rows_agree`).
-/

namespace RecoveryManager

open FileIOManager History AppendOnlyLog

variable {disk₀ disk : Disk} {logs tail : List WalRecord} {wal : AppendOnlyLog}
  {txnId t : TxnId} {r record : WalRecord} {clr : WalBody} {todo : List WalRecord} {lsn : ℕ}

/-! ## The files during undo, and where a recovery stopped -/

/-- **Undo is under way**: the files are what redoing the log as it is now makes
of those there were at first. -/
structure UndoAt (disk₀ : Disk) (logs tail : List WalRecord) (disk : Disk) (wal : AppendOnlyLog) :
    Prop where
  kept : wal.kept = logs ++ tail
  durable : wal.durable = wal.kept.length
  compensates : Compensates disk₀ logs tail
  redone : Redone (redoable (logs ++ tail)) (redoable (logs ++ tail)) disk₀ disk

/-- **A recovery has stopped**: each page has seen some of its records, those up
to some point. -/
structure StoppedAt (disk₀ : Disk) (logs tail : List WalRecord) (disk : Disk)
    (wal : AppendOnlyLog) : Prop where
  kept : wal.kept = logs ++ tail
  durable : wal.durable = wal.kept.length
  compensates : Compensates disk₀ logs tail
  left : LeftBy (redoable (logs ++ tail)) disk
  pages : ∀ id, ∃ seen, seen <+: dataRecords id (redoable (logs ++ tail))
    ∧ PageRedone (redoable (logs ++ tail)) id seen (disk₀.pages id) (disk.pages id)

theorem UndoAt.stopped (h : UndoAt disk₀ logs tail disk wal) :
    StoppedAt disk₀ logs tail disk wal :=
  ⟨h.kept, h.durable, h.compensates, h.redone.leftBy rfl, fun id =>
    ⟨_, List.prefix_rfl, h.redone.pages id⟩⟩

/-- A database that has not been recovered yet. -/
theorem Recoverable.stoppedAt (h : Recoverable disk₀ logs) :
    StoppedAt disk₀ logs [] disk₀ ⟨logs, logs.length⟩ := by
  have hnil : logs ++ [] = logs := List.append_nil logs
  refine ⟨hnil.symm, rfl, ⟨?_, ?_, fun r hr => absurd hr List.not_mem_nil, fun t ht => ?_,
    fun t ht hends => ?_⟩, ?_, fun id => ⟨[], List.nil_prefix, .refl _ id _⟩⟩
  · rw [hnil]
    exact h.links.numbered
  · rw [hnil]
    exact h.history
  · rw [hnil] at ht ⊢
    exact ⟨toUndo logs t, ⟨[], rfl, rfl⟩, hnil.symm ▸ trail_toUndo h.links h.own ht⟩
  · rw [hnil] at hends
    exact absurd ht hends
  · rw [hnil]
    exact h.left

/-- **The pages that are there** are the same all through undo. -/
theorem UndoAt.isSome_page (h : UndoAt disk₀ logs tail disk wal) (id : DataPageId) :
    (disk.pages id).isSome = pageThere disk₀ logs id := by
  rw [(h.redone.pages id).isSome_iff, redoable_append h.compensates.added_ne_commit,
    dataRecords_append]
  unfold pageThere
  cases hadded : dataRecords id (tail.filter fun r => r.body.undoNext.isSome) with
  | nil => rw [List.append_nil]
  | cons r rest =>
    -- a compensation record is about a page that was there
    have hmem : r ∈ dataRecords id (tail.filter fun r => r.body.undoNext.isSome) := by
      rw [hadded]
      exact List.mem_cons_self
    obtain ⟨hr, tableId, href⟩ := mem_dataRecords.mp hmem
    obtain ⟨hr, hnext⟩ := List.mem_filter.mp hr
    obtain ⟨-, hbody | ⟨record, hrecord⟩⟩ := h.compensates.added r hr
    · rw [hbody] at hnext
      cases hnext
    · obtain ⟨hclr, hthere⟩ := compensation_eq_some.mp hrecord
      rw [(dataRef_makeClr (r := r) hclr).1] at href
      have hpage : pageThere disk₀ logs id = true := hthere _ href
      unfold pageThere at hpage
      rw [hpage, List.isEmpty_eq_false_iff.mpr (List.append_ne_nil_of_right_ne_nil _
        (List.cons_ne_nil r rest))]
      exact Bool.or_true _

/-- No page is ahead of the log. -/
theorem UndoAt.lastLsn_lt (h : UndoAt disk₀ logs tail disk wal) (hrec : Recoverable disk₀ logs)
    {id : DataPageId} {page : DataPage} (hpage : disk.pages id = some page) :
    page.lastLsn < (logs ++ tail).length + 1 := by
  have hpages := h.redone.pages id
  rw [hpage] at hpages
  refine Nat.lt_succ_of_le (hpages.lastLsn_le (fun p hp => ?_) fun r hr => ?_)
  · rw [List.length_append]
    exact (hrec.stamped id p hp).trans (Nat.le_add_right _ _)
  · have hmem := mem_of_mem_redoable (mem_dataRecords.mp hr).1
    exact (h.compensates.numbered.lsn_bounds hmem).2

/-! ## Undo -/

/-- **A compensation record is durable**: the files are on their way to it. -/
theorem UndoAt.logged {s : UndoState} (h : UndoAt disk₀ logs tail s.disk s.wal)
    (hrec : Recoverable disk₀ logs) (ht : Unfinished (logs ++ tail) t)
    (howes : Owes disk₀ logs tail t lsn (record :: todo)) (htxn : record.txnId = t)
    (htrail : Trail (logs ++ tail) t record.prevLsn todo)
    (hclr : compensation (pageThere disk₀ logs) record = some clr) :
    ∃ added, StoppedAt disk₀ logs (tail ++ [added]) s.disk (s.appendClr record.txnId clr).wal
      ∧ added.txnId = t ∧ Unfinished (logs ++ (tail ++ [added])) t
      ∧ Owes disk₀ logs (tail ++ [added]) t record.prevLsn todo
      ∧ ∃ disk', undoRecord s record = .ok { s.appendClr record.txnId clr with disk := disk' }
        ∧ UndoAt disk₀ logs (tail ++ [added]) disk' (s.appendClr record.txnId clr).wal := by
  obtain ⟨hmake, hthere⟩ := compensation_eq_some.mp hclr
  have hlsn : s.wal.nextLsn = (logs ++ tail).length + 1 := by
    unfold AppendOnlyLog.nextLsn
    rw [h.kept]
  obtain ⟨hcomp, ht', howes', hredoable⟩ :=
    h.compensates.pushClr hrec ht howes htrail hclr rfl
  have hkept : (s.appendClr record.txnId clr).wal.kept = logs ++ (tail
      ++ [{ lsn := (logs ++ tail).length + 1, prevLsn := 0, txnId := t, body := clr }]) := by
    show s.wal.kept ++ [_] = _
    rw [← List.append_assoc, ← h.kept, ← htxn]
    rfl
  have hsame := sameCreations_snoc (H := redoable (logs ++ tail))
    (dataRef_makeClr (r := { lsn := (logs ++ tail).length + 1, txnId := t, body := clr }) hmake).2.1
    (dataRef_makeClr (r := { lsn := (logs ++ tail).length + 1, txnId := t, body := clr }) hmake).2.2
  refine ⟨_, ⟨hkept, rfl, hcomp, ?_, fun id => ?_⟩, rfl, ht', howes', ?_⟩
  · rw [hredoable]
    exact (h.redone.congr hsame).leftBy hsame.1.symm
  · rw [hredoable]
    refine ⟨_, ?_, (h.redone.pages id).congr hsame⟩
    rw [dataRecords_append]
    exact List.prefix_append _ _
  · have hpage : ∀ ref, record.body.dataRef = some ref →
        ∃ page, s.disk.pages ref.2 = some page ∧ page.lastLsn < s.wal.nextLsn := by
      intro ref href
      obtain ⟨page, hpage⟩ := Option.isSome_iff_exists.mp ((h.isSome_page ref.2).trans
        (hthere ref href))
      exact ⟨page, hpage, hlsn ▸ h.lastLsn_lt hrec hpage⟩
    obtain ⟨disk', hundo, hredone⟩ := h.redone.takeBack hmake
      (r := { lsn := (logs ++ tail).length + 1, prevLsn := 0, txnId := t, body := clr })
      (by rw [hlsn, htxn]) (hredoable ▸ hcomp.history) hpage
    exact ⟨disk', hundo, hkept, rfl, hcomp, hredoable ▸ hredone⟩

/-- A record without a file for its page is passed over. -/
theorem UndoAt.undoRecord_of_none {s : UndoState} (h : UndoAt disk₀ logs tail s.disk s.wal)
    (hclr : compensation (pageThere disk₀ logs) record = none) :
    RecoveryManager.undoRecord s record = .ok s := by
  unfold RecoveryManager.undoRecord
  cases hmake : makeClr record.prevLsn record.body with
  | none => rfl
  | some clr =>
    dsimp only
    unfold compensation at hclr
    cases hdata : record.body.dataRef with
    | none =>
      rw [hdata, hmake] at hclr
      cases hclr
    | some ref =>
      rw [hdata, hmake] at hclr
      change (if pageThere disk₀ logs ref.2 = true then _ else _) = _ at hclr
      split_ifs at hclr with hthere
      have hnone : s.disk.pages ref.2 = none := by
        rw [← Option.not_isSome_iff_eq_none, h.isSome_page]
        exact hthere
      dsimp only
      have hread : readDataPage s.disk ref.2 = none := by
        unfold readDataPage
        rw [hnone]
        rfl
      rw [hread]
      rfl

/-- **One round of undo**: a record is taken back and owed no longer. -/
theorem UndoAt.undoRecord {s : UndoState} (h : UndoAt disk₀ logs tail s.disk s.wal)
    (hrec : Recoverable disk₀ logs) (ht : Unfinished (logs ++ tail) t)
    (howes : Owes disk₀ logs tail t lsn (record :: todo)) (htxn : record.txnId = t)
    (htrail : Trail (logs ++ tail) t record.prevLsn todo) :
    ∃ s' added, RecoveryManager.undoRecord s record = .ok s'
      ∧ UndoAt disk₀ logs (tail ++ added) s'.disk s'.wal
      ∧ Unfinished (logs ++ (tail ++ added)) t
      ∧ Owes disk₀ logs (tail ++ added) t record.prevLsn todo
      ∧ ∀ r ∈ added, r.txnId = t := by
  cases hclr : compensation (pageThere disk₀ logs) record with
  | none =>
    refine ⟨s, [], h.undoRecord_of_none hclr, ?_, ?_, ?_, fun r hr => absurd hr List.not_mem_nil⟩
    · rw [List.append_nil]
      exact h
    · rw [List.append_nil]
      exact ht
    · obtain ⟨done, hsplit, hbodies⟩ := howes.split
      rw [List.append_nil]
      refine ⟨⟨done ++ [record], ?_, ?_⟩, htrail⟩
      · rw [hsplit, List.append_assoc, List.singleton_append]
      · rw [hbodies, List.filterMap_append, List.filterMap_cons_none hclr]
        exact (List.append_nil _).symm
  | some clr =>
    obtain ⟨added, -, hadded, ht', howes', disk', hundo, hat⟩ :=
      h.logged hrec ht howes htxn htrail hclr
    exact ⟨_, [added], hundo, hat, ht', howes', fun r hr => by
      rw [List.mem_singleton.mp hr]
      exact hadded⟩

/-- **The loop of undo** takes back all that a transaction is owed. -/
theorem UndoAt.undoLoop (hrec : Recoverable disk₀ logs) {s : UndoState} {current rounds : ℕ}
    (h : UndoAt disk₀ logs tail s.disk s.wal) (ht : Unfinished (logs ++ tail) t)
    (howes : Owes disk₀ logs tail t current todo) (hrounds : current < rounds) :
    ∃ s' added, RecoveryManager.undoLoop rounds s current = .ok (s', false)
      ∧ UndoAt disk₀ logs (tail ++ added) s'.disk s'.wal
      ∧ Unfinished (logs ++ (tail ++ added)) t ∧ Owes disk₀ logs (tail ++ added) t 0 []
      ∧ ∀ r ∈ added, r.txnId = t := by
  induction current using Nat.strongRecOn generalizing s rounds tail todo with
  | ind current ih =>
    obtain ⟨rounds, rfl⟩ := Nat.exists_eq_succ_of_ne_zero (Nat.ne_of_gt (Nat.zero_lt_of_lt hrounds))
    have htrail : Trail s.wal.kept t current todo := h.kept ▸ howes.trail
    have hnumbered : Numbered s.wal.kept := h.kept ▸ h.compensates.numbered
    by_cases hzero : current = 0
    · subst hzero
      obtain rfl : todo = [] := howes.trail.eq_nil_of_zero
        (fun r hr => (h.compensates.numbered.lsn_bounds hr).1) rfl
      refine ⟨s, [], rfl, ?_, ?_, ?_, fun r hr => absurd hr List.not_mem_nil⟩
      · rw [List.append_nil]
        exact h
      · rw [List.append_nil]
        exact ht
      · rw [List.append_nil]
        exact howes
    obtain ⟨record, hread⟩ : ∃ record, s.wal.readLog current = .ok record := by
      cases htrail with
      | done => exact absurd rfl hzero
      | compensated hmem => exact ⟨_, readLog_of_mem hnumbered hmem⟩
      | record hmem => exact ⟨_, readLog_of_mem hnumbered hmem⟩
    obtain ⟨-, htxn, hlsn, ⟨next, hnext, hlt, hrest⟩ | ⟨hnext, hbody, hlt, todo', rfl, hrest⟩⟩ :=
      htrail.read hnumbered hread
    · have hbody : record.body ≠ .rollbackTxn := fun hbody => by
        rw [hbody] at hnext
        cases hnext
      obtain ⟨s', added, hloop, hat, ht', howes', hadded⟩ :=
        ih next hlt (s := { s with txnPrevLsn := record.lsn }) h ht
          ⟨howes.split, h.kept ▸ hrest⟩
          (show next < rounds from hlt.trans_le (Nat.le_of_lt_succ hrounds))
      refine ⟨s', added, ?_, hat, ht', howes', hadded⟩
      unfold RecoveryManager.undoLoop
      rw [if_neg hzero, hread]
      show (if _ then _ else _) = _
      rw [if_neg hbody, hnext]
      exact hloop
    · obtain ⟨s₁, added₁, hundo, hat₁, ht₁, howes₁, hadded₁⟩ :=
        h.undoRecord hrec ht howes htxn (h.kept ▸ hrest)
      obtain ⟨s', added, hloop, hat, ht', howes', hadded⟩ :=
        ih record.prevLsn hlt hat₁ ht₁ howes₁
          (show record.prevLsn < rounds from hlt.trans_le (Nat.le_of_lt_succ hrounds))
      rw [List.append_assoc] at hat ht' howes'
      refine ⟨s', added₁ ++ added, ?_, hat, ht', howes', fun r hr => ?_⟩
      · unfold RecoveryManager.undoLoop
        rw [if_neg hzero, hread]
        show (if _ then _ else _) = _
        rw [if_neg hbody, hnext]
        show (RecoveryManager.undoRecord s record >>= _) = _
        rw [hundo]
        exact hloop
      · rcases List.mem_append.mp hr with hr | hr
        exacts [hadded₁ r hr, hadded r hr]

/-- **What undo does for one transaction** ends it. -/
theorem UndoAt.undoTxn (hrec : Recoverable disk₀ logs) (h : UndoAt disk₀ logs tail disk wal)
    (ht : Unfinished (logs ++ tail) t) :
    ∃ files added, RecoveryManager.undoTxn disk wal t (lastLsnOf t (logs ++ tail)) = .ok files
      ∧ UndoAt disk₀ logs (tail ++ added) files.1 files.2
      ∧ ¬ Unfinished (logs ++ (tail ++ added)) t ∧ ∀ r ∈ added, r.txnId = t := by
  obtain ⟨todo, howes⟩ := h.compensates.owes t ht
  obtain ⟨r₀, hr₀, -, hlsn⟩ := exists_lastLsnOf ht.1
  have hle : lastLsnOf t (logs ++ tail) ≤ wal.kept.length := by
    rw [← hlsn, h.kept]
    exact (h.compensates.numbered.lsn_bounds hr₀).2
  obtain ⟨s', added, hloop, hat, ht', howes', hadded⟩ :=
    UndoAt.undoLoop hrec (s := ⟨disk, wal, lastLsnOf t (logs ++ tail)⟩) h ht howes
      (Nat.lt_succ_of_le hle)
  obtain ⟨hcomp, hends, hredoable⟩ := hat.compensates.pushRollback ht' howes' rfl
  unfold RecoveryManager.undoTxn
  rw [hloop]
  refine ⟨_, added
    ++ [{ lsn := (logs ++ (tail ++ added)).length + 1, txnId := t, body := .rollbackTxn }],
    rfl, ⟨?_, rfl, ?_, ?_⟩, ?_, fun r hr => ?_⟩
  · show s'.wal.kept ++ [FileWalManager.stamp _ (s'.wal.kept.length + 1)] = _
    rw [hat.kept]
    simp only [List.append_assoc]
    rfl
  · rw [← List.append_assoc tail]
    exact hcomp
  · rw [← List.append_assoc tail, hredoable]
    exact hat.redone
  · rw [← List.append_assoc tail]
    exact hends
  · rcases List.mem_append.mp hr with hr | hr
    · exact hadded r hr
    · rw [List.mem_singleton.mp hr]

/-! ## The transactions that undo is started with -/

/-- **These are the transactions that have not ended**, each once and with the
LSN of its last record. -/
structure Pending (logs : List WalRecord) (active : List (TxnId × ℕ)) : Prop where
  nodup : (active.map Prod.fst).Nodup
  each : ∀ entry ∈ active, Unfinished logs entry.1 ∧ entry.2 = lastLsnOf entry.1 logs
  all : ∀ txnId, Unfinished logs txnId → txnId ∈ active.map Prod.fst

theorem pending_visit {visit : List (TxnId × ℕ) → List (TxnId × ℕ)}
    (hvisit : ∀ active, (visit active).Perm active) (logs : List WalRecord) :
    Pending logs (visit (activeTxns logs)) where
  nodup := (((hvisit _).map Prod.fst).nodup_iff).mpr (nodup_activeTxns logs)
  each _ hentry := mem_activeTxns.mp ((hvisit _).subset hentry)
  all txnId h := List.mem_map.mpr ⟨(txnId, lastLsnOf txnId logs),
    (hvisit _).symm.subset (mem_activeTxns.mpr ⟨h, rfl⟩), rfl⟩

/-- Records of one transaction change nothing for the others. -/
theorem unfinished_append_other (logs : List WalRecord) {added : List WalRecord}
    (hadded : ∀ r ∈ added, r.txnId = t)
    (hne : txnId ≠ t) : (Unfinished (logs ++ added) txnId ↔ Unfinished logs txnId)
      ∧ lastLsnOf txnId (logs ++ added) = lastLsnOf txnId logs := by
  induction added using List.reverseRecOn with
  | nil =>
    rw [List.append_nil]
    exact ⟨Iff.rfl, rfl⟩
  | append_singleton added r ih =>
    have hother : r.txnId ≠ txnId := fun h => hne (h.symm.trans (hadded r (by simp)))
    obtain ⟨hiff, hlsn⟩ := ih fun r' hr' => hadded r' (List.mem_append_left _ hr')
    rw [← List.append_assoc, unfinished_snoc_other hother, lastLsnOf_snoc, if_neg hother]
    exact ⟨hiff, hlsn⟩

/-- The first transaction has ended. -/
theorem Pending.rest {entry : TxnId × ℕ} {active : List (TxnId × ℕ)} {added : List WalRecord}
    (h : Pending logs (entry :: active)) (hadded : ∀ r ∈ added, r.txnId = entry.1)
    (hends : ¬ Unfinished (logs ++ added) entry.1) : Pending (logs ++ added) active := by
  obtain ⟨hnew, hnodup⟩ := List.nodup_cons.mp h.nodup
  refine ⟨hnodup, fun e he => ?_, fun txnId ht => ?_⟩
  · have hne : e.1 ≠ entry.1 := fun heq => hnew (heq ▸ List.mem_map_of_mem he)
    obtain ⟨hiff, hlsn⟩ := unfinished_append_other logs hadded hne
    obtain ⟨hunfinished, hlast⟩ := h.each e (List.mem_cons_of_mem _ he)
    exact ⟨hiff.mpr hunfinished, hlast.trans hlsn.symm⟩
  · have hne : txnId ≠ entry.1 := fun heq => hends (heq ▸ ht)
    have hmem := h.all txnId ((unfinished_append_other logs hadded hne).1.mp ht)
    exact (List.mem_cons.mp hmem).resolve_left hne

/-- **Undo ends every transaction.** -/
theorem UndoAt.undo (hrec : Recoverable disk₀ logs) {active : List (TxnId × ℕ)}
    (h : UndoAt disk₀ logs tail disk wal) (hpending : Pending (logs ++ tail) active) :
    ∃ files added, RecoveryManager.undo disk wal active = .ok files
      ∧ UndoAt disk₀ logs (tail ++ added) files.1 files.2
      ∧ ∀ txnId, ¬ Unfinished (logs ++ (tail ++ added)) txnId := by
  induction active generalizing disk wal tail with
  | nil =>
    refine ⟨(disk, wal), [], rfl, ?_, fun txnId ht => ?_⟩
    · rw [List.append_nil]
      exact h
    · rw [List.append_nil] at ht
      exact absurd (hpending.all txnId ht) List.not_mem_nil
  | cons entry active ih =>
    obtain ⟨hunfinished, hlast⟩ := hpending.each entry List.mem_cons_self
    obtain ⟨files₁, added₁, htxn, hat, hends, hadded⟩ := UndoAt.undoTxn hrec h hunfinished
    have hpending' : Pending (logs ++ (tail ++ added₁)) active := by
      rw [← List.append_assoc] at hends ⊢
      exact hpending.rest hadded hends
    obtain ⟨files, added, hundo, hat', hall⟩ := ih hat hpending'
    rw [List.append_assoc] at hat' hall
    refine ⟨files, added₁ ++ added, ?_, hat', hall⟩
    unfold RecoveryManager.undo
    rw [List.foldlM_cons]
    show (RecoveryManager.undoTxn disk wal entry.1 entry.2 >>= _) = _
    rw [hlast, htxn]
    exact hundo

/-! ## Stops -/

/-- **Wherever undo of a transaction stops.** -/
theorem UndoAt.loopStops (hrec : Recoverable disk₀ logs) {s s' : UndoState} {current : ℕ}
    (hstops : LoopStops s current s') (h : UndoAt disk₀ logs tail s.disk s.wal)
    (ht : Unfinished (logs ++ tail) t) (howes : Owes disk₀ logs tail t current todo) :
    ∃ added, StoppedAt disk₀ logs (tail ++ added) s'.disk s'.wal := by
  induction hstops generalizing tail todo with
  | here s current =>
    refine ⟨[], ?_⟩
    rw [List.append_nil]
    exact h.stopped
  | compensated hread hnext _ ih =>
    have hnumbered := h.kept ▸ h.compensates.numbered
    obtain ⟨-, -, -, ⟨next, hnext', -, hrest⟩ | ⟨hnone, -⟩⟩ :=
      (h.kept ▸ howes.trail : Trail _ t _ todo).read hnumbered hread
    · rw [hnext] at hnext'
      obtain rfl := Option.some.inj hnext'
      exact ih h ht ⟨howes.split, h.kept ▸ hrest⟩
    · rw [hnext] at hnone
      cases hnone
  | @logged s current record clr hread hclr hpage =>
    have hnumbered := h.kept ▸ h.compensates.numbered
    obtain ⟨-, htxn, -, ⟨next, hnext, -⟩ | ⟨-, -, -, todo', rfl, hrest⟩⟩ :=
      (h.kept ▸ howes.trail : Trail _ t _ todo).read hnumbered hread
    · rw [(undoNext_makeClr hclr).2] at hnext
      cases hnext
    · have hcomp : compensation (pageThere disk₀ logs) record = some clr := by
        refine compensation_eq_some.mpr ⟨hclr, fun ref href => ?_⟩
        have hthere := hpage ref href
        unfold readDataPage at hthere
        rw [Option.isSome_map] at hthere
        exact (h.isSome_page ref.2).symm.trans hthere
      obtain ⟨added, hstopped, -⟩ := h.logged hrec ht howes htxn (h.kept ▸ hrest) hcomp
      exact ⟨[added], hstopped⟩
  | undone hread hbody hnext hundo _ ih =>
    have hnumbered := h.kept ▸ h.compensates.numbered
    obtain ⟨-, htxn, -, ⟨next, hnext', -⟩ | ⟨-, -, -, todo', rfl, hrest⟩⟩ :=
      (h.kept ▸ howes.trail : Trail _ t _ todo).read hnumbered hread
    · rw [hnext] at hnext'
      cases hnext'
    · obtain ⟨s₁, added₁, hundo', hat, ht', howes', -⟩ :=
        h.undoRecord hrec ht howes htxn (h.kept ▸ hrest)
      rw [hundo] at hundo'
      obtain rfl := Except.ok.inj hundo'
      obtain ⟨added, hstopped⟩ := ih hat ht' howes'
      exact ⟨added₁ ++ added, List.append_assoc tail added₁ added ▸ hstopped⟩

/-- **Wherever undo stops.** -/
theorem UndoAt.undoStops (hrec : Recoverable disk₀ logs) {files files' : Disk × AppendOnlyLog}
    {active : List (TxnId × ℕ)} (hstops : UndoStops files active files')
    (h : UndoAt disk₀ logs tail files.1 files.2) (hpending : Pending (logs ++ tail) active) :
    ∃ added, StoppedAt disk₀ logs (tail ++ added) files'.1 files'.2 := by
  induction hstops generalizing tail with
  | here files active =>
    refine ⟨[], ?_⟩
    rw [List.append_nil]
    exact h.stopped
  | @within files entry active s hloop =>
    obtain ⟨hunfinished, hlast⟩ := hpending.each entry List.mem_cons_self
    obtain ⟨todo, howes⟩ := h.compensates.owes entry.1 hunfinished
    exact UndoAt.loopStops hrec hloop h hunfinished (hlast ▸ howes)
  | @past files files₁ files' entry active hundo _ ih =>
    obtain ⟨hunfinished, hlast⟩ := hpending.each entry List.mem_cons_self
    obtain ⟨files₂, added₁, htxn, hat, hends, hadded⟩ := UndoAt.undoTxn hrec h hunfinished
    rw [← hlast, hundo] at htxn
    obtain rfl := Except.ok.inj htxn
    have hpending' : Pending (logs ++ (tail ++ added₁)) active := by
      rw [← List.append_assoc] at hends ⊢
      exact hpending.rest hadded hends
    obtain ⟨added, hstopped⟩ := ih hat hpending'
    exact ⟨added₁ ++ added, List.append_assoc tail added₁ added ▸ hstopped⟩

/-- **The redo loop of a recovery** goes on with each page where the ones before
stopped, and brings all pages up to date. -/
theorem StoppedAt.redo (h : StoppedAt disk₀ logs tail disk wal) {before rest : List WalRecord}
    (hkept : wal.kept = before ++ rest) :
    ∃ disk', before.foldlM (RecoveryManager.redo 0 (getCommitLsns wal.kept)) disk = .ok disk'
      ∧ StoppedAt disk₀ logs tail disk' wal
      ∧ (rest = [] → UndoAt disk₀ logs tail disk' wal) := by
  have hpos : ∀ r ∈ before, 0 < r.lsn := fun r hr => by
    have hmem : r ∈ logs ++ tail := by
      rw [← h.kept, hkept]
      exact List.mem_append_left _ hr
    exact (h.compensates.numbered.lsn_bounds hmem).1
  have hH := h.compensates.history
  have hsplit : redoable (logs ++ tail) = before.filter (redoes (getCommitLsns (logs ++ tail)))
      ++ rest.filter (redoes (getCommitLsns (logs ++ tail))) := by
    rw [← List.filter_append, ← hkept, h.kept]
    rfl
  have hbefore : InstanceLog (before.filter (redoes (getCommitLsns (logs ++ tail)))) :=
    InstanceLog.of_append (hsplit ▸ hH)
  obtain ⟨disk', hfold, hredone⟩ := Redone.foldlM h.left hH hbefore
    (hsplit ▸ List.prefix_append _ _)
  have hmended : Mended (redoable (logs ++ tail)) disk' :=
    h.left.mended.mono fun name hname => ((mem_headless_foldlM hbefore hfold).mp hname).1
  -- every page in two goes
  have hpages : ∀ id, ∃ seen, seen <+: dataRecords id (redoable (logs ++ tail))
      ∧ dataRecords id (before.filter (redoes (getCommitLsns (logs ++ tail)))) <+: seen
      ∧ PageRedone (redoable (logs ++ tail)) id seen (disk₀.pages id) (disk'.pages id) := by
    intro id
    obtain ⟨seen, hseen, hpage⟩ := h.pages id
    refine hpage.trans (hH.sorted.filter _) hseen ?_ (hredone.pages id)
    rw [hsplit, dataRecords_append]
    exact List.prefix_append _ _
  refine ⟨disk', ?_,
    ⟨h.kept, h.durable, h.compensates, ⟨hredone.left, hmended⟩, fun id => ?_⟩, ?_⟩
  · rw [foldlM_redo hpos, h.kept]
    exact hfold
  · obtain ⟨seen, hseen, -, hpage⟩ := hpages id
    exact ⟨seen, hseen, hpage⟩
  · rintro rfl
    rw [List.filter_nil, List.append_nil] at hsplit
    refine ⟨h.kept, h.durable, h.compensates, hredone.left, ?_, ?_, ?_, fun id => ?_⟩
    · exact hsplit ▸ hredone.schemas
    · exact hsplit ▸ hredone.headless
    · exact hsplit ▸ hredone.tables
    · obtain ⟨seen, hseen, hall, hpage⟩ := hpages id
      rw [← hsplit] at hall
      rw [← hseen.eq_of_length_le hall.length_le]
      exact hpage

/-- **Wherever a recovery stops.** -/
theorem StoppedAt.recoverStops (hrec : Recoverable disk₀ logs)
    {visit : List (TxnId × ℕ) → List (TxnId × ℕ)} (hvisit : ∀ active, (visit active).Perm active)
    (h : StoppedAt disk₀ logs tail disk wal) {stop : Disk × AppendOnlyLog}
    (hstops : RecoverStops visit disk wal stop) :
    ∃ added, StoppedAt disk₀ logs (tail ++ added) stop.1 stop.2 := by
  cases hstops with
  | redoing hkept hredo =>
    obtain ⟨disk', hredo', hstopped, -⟩ := h.redo hkept
    rw [hredo] at hredo'
    obtain rfl := Except.ok.inj hredo'
    refine ⟨[], ?_⟩
    rw [List.append_nil]
    exact hstopped
  | undoing hredo hstops =>
    obtain ⟨disk', hredo', -, hat⟩ := h.redo (List.append_nil wal.kept).symm
    unfold redoPass at hredo
    rw [hredo] at hredo'
    obtain rfl := Except.ok.inj hredo'
    have hpending := pending_visit hvisit wal.kept
    rw [h.kept] at hpending hstops
    exact (hat rfl).undoStops hrec hstops hpending

/-- **Whatever recoveries were cut short.** -/
theorem stoppedAt_of_cutShort (hrec : Recoverable disk₀ logs) {files : Disk × List WalRecord}
    (h : Relation.ReflTransGen CutShort (disk₀, logs) files) :
    ∃ tail, StoppedAt disk₀ logs tail files.1 ⟨files.2, files.2.length⟩ := by
  induction h with
  | refl => exact ⟨[], hrec.stoppedAt⟩
  | tail _ hcut ih =>
    obtain ⟨tail, hstopped⟩ := ih
    obtain ⟨visit, hvisit, stop, hstops, rfl⟩ := hcut
    obtain ⟨added, hstopped'⟩ := hstopped.recoverStops hrec hvisit hstops
    refine ⟨tail ++ added, ?_⟩
    dsimp only
    rw [hstopped'.durable, List.take_length]
    exact ⟨hstopped'.kept, rfl, hstopped'.compensates, hstopped'.left, hstopped'.pages⟩

/-! ## A recovery that comes to its end -/

/-- A recovery from where others stopped comes to its end, with nothing left
unfinished. -/
theorem StoppedAt.recover (hrec : Recoverable disk₀ logs)
    {visit : List (TxnId × ℕ) → List (TxnId × ℕ)} (hvisit : ∀ active, (visit active).Perm active)
    (h : StoppedAt disk₀ logs tail disk wal) :
    ∃ files added, RecoveryManager.recover 0 visit disk wal = .ok files
      ∧ UndoAt disk₀ logs (tail ++ added) files.1 files.2
      ∧ ∀ txnId, ¬ Unfinished (logs ++ (tail ++ added)) txnId := by
  obtain ⟨disk₁, hredo, -, hat⟩ := h.redo (List.append_nil wal.kept).symm
  have hpending := pending_visit hvisit wal.kept
  rw [h.kept] at hpending
  obtain ⟨files, added, hundo, hat', hall⟩ := (hat rfl).undo hrec hpending
  rw [← h.kept] at hundo
  refine ⟨files, added, ?_, hat', hall⟩
  unfold RecoveryManager.recover redoPass
  rw [hredo]
  exact hundo

/-- When nothing is left unfinished, the log has for each transaction what it
was owed. -/
theorem Compensates.bodiesOf_eq (h : Compensates disk₀ logs tail)
    (hall : ∀ txnId, ¬ Unfinished (logs ++ tail) txnId) (txnId : TxnId) :
    bodiesOf txnId tail
      = if Unfinished logs txnId then compensations disk₀ logs txnId ++ [.rollbackTxn] else [] := by
  split_ifs with ht
  · exact h.ended txnId ht (hall txnId)
  · refine List.map_eq_nil_iff.mpr (List.filter_eq_nil_iff.mpr fun r hr htxn => ht ?_)
    rw [← of_decide_eq_true htxn]
    exact (h.added r hr).1

/-- **Recovery survives being cut short.** After any number of recoveries that
crashes have cut short, each between any two of its writes and each with an
order of its own, a recovery comes to its end. The log is then the one there was
at first, and behind it, for each transaction that was unfinished, the
compensation records of what it did, each exactly once and the last one first,
and one rollback record. The files are what redoing this log makes of the files
there were at first. -/
theorem recover_cutShort (hrec : Recoverable disk₀ logs) {files : Disk × List WalRecord}
    (hcut : Relation.ReflTransGen CutShort (disk₀, logs) files)
    {visit : List (TxnId × ℕ) → List (TxnId × ℕ)}
    (hvisit : ∀ active, (visit active).Perm active) :
    ∃ disk wal tail, recover 0 visit files.1 ⟨files.2, files.2.length⟩ = .ok (disk, wal)
      ∧ wal.kept = logs ++ tail ∧ wal.durable = wal.kept.length
      ∧ (∀ txnId, bodiesOf txnId tail = if Unfinished logs txnId then
          compensations disk₀ logs txnId ++ [.rollbackTxn] else [])
      ∧ Redone (redoable wal.kept) (redoable wal.kept) disk₀ disk := by
  obtain ⟨tail, hstopped⟩ := stoppedAt_of_cutShort hrec hcut
  obtain ⟨⟨disk, wal⟩, added, hrecover, hat, hall⟩ := hstopped.recover hrec hvisit
  refine ⟨disk, wal, tail ++ added, hrecover, hat.kept, hat.durable,
    hat.compensates.bodiesOf_eq hall, ?_⟩
  rw [hat.kept]
  exact hat.redone

/-! ## Pages after a recovery -/

/-- The records of the tail are younger than the log. -/
theorem Compensates.length_lt (h : Compensates disk₀ logs tail) (hr : r ∈ tail) :
    logs.length < r.lsn := by
  obtain ⟨i, hget⟩ := List.mem_iff_getElem?.mp hr
  have hget' : (logs ++ tail)[logs.length + i]? = some r := by
    rw [List.getElem?_append_right (Nat.le_add_right _ _), Nat.add_sub_cancel_left]
    exact hget
  rw [h.numbered.lsn_get hget']
  omega

/-- **A page that one unfinished transaction has written to**, or none: every
record of an unfinished transaction about the page is one of this
transaction. -/
def WrittenBy (logs : List WalRecord) (txnId : TxnId) (id : DataPageId) : Prop :=
  ∀ t, Unfinished logs t → ∀ record ∈ toUndo logs t,
    record.body.dataRef.map Prod.snd = some id → t = txnId

/-- The compensation records of such a page are among those of the
transaction. -/
theorem UndoAt.clrs_of_page (h : UndoAt disk₀ logs tail disk wal)
    (hall : ∀ t, ¬ Unfinished (logs ++ tail) t) {id : DataPageId}
    (hwritten : WrittenBy logs txnId id) :
    (dataRecords id (tail.filter fun r => r.body.undoNext.isSome)).map WalRecord.body
      = (bodiesOf txnId tail).filter fun body => body.dataRef.map Prod.snd = some id := by
  unfold dataRecords bodiesOf
  rw [List.filter_map, List.filter_filter, List.filter_filter]
  refine congrArg _ (List.filter_congr fun r hr => ?_)
  show (_ && _) = (decide (r.body.dataRef.map Prod.snd = some id) && _)
  by_cases hpage : r.body.dataRef.map Prod.snd = some id
  · obtain ⟨hunfinished, hbody | ⟨record, hrecord⟩⟩ := h.compensates.added r hr
    · rw [hbody] at hpage
      cases hpage
    have hmake := (compensation_eq_some.mp hrecord).1
    have hnext : r.body.undoNext.isSome = true := by
      rw [(undoNext_makeClr hmake).1]
      rfl
    -- the record is one of those that its transaction was owed
    have hmem : r.body ∈ bodiesOf r.txnId tail :=
      List.mem_map_of_mem (List.mem_filter.mpr ⟨hr, decide_eq_true rfl⟩)
    rw [h.compensates.bodiesOf_eq hall, if_pos hunfinished] at hmem
    rcases List.mem_append.mp hmem with hmem | hmem
    · obtain ⟨record', hrecord', hclr⟩ := List.mem_filterMap.mp hmem
      have href := (dataRef_makeClr (r := r) (compensation_eq_some.mp hclr).1).1
      have htxn : r.txnId = txnId :=
        hwritten r.txnId hunfinished record' hrecord' (by rw [← href]; exact hpage)
      rw [hnext, decide_eq_true htxn]
    · rw [List.mem_singleton.mp hmem] at hpage
      cases hpage
  · rw [decide_eq_false hpage, Bool.false_and, Bool.false_and]

/-- **The rows of a page after a recovery**, when no two unfinished transactions
have written to it. -/
theorem UndoAt.rows_eq (hrec : Recoverable disk₀ logs) (h : UndoAt disk₀ logs tail disk wal)
    (hall : ∀ t, ¬ Unfinished (logs ++ tail) t) {id : DataPageId}
    (hwritten : WrittenBy logs txnId id) :
    (disk.pages id).map (fun page => (page.next, page.rows))
      = if pageThere disk₀ logs id then
          some ((disk₀.pages id).elim UUID.null DataPage.next,
            List.foldl (fun rows body => redoRows body rows)
              (replayRows ((disk₀.pages id).elim [] DataPage.rows)
                ((dataRecords id (redoable logs)).filter fun r =>
                  (disk₀.pages id).elim 0 DataPage.lastLsn < r.lsn))
              ((if Unfinished logs txnId then compensations disk₀ logs txnId ++ [.rollbackTxn]
                else []).filter fun body => body.dataRef.map Prod.snd = some id))
        else none := by
  rw [← h.isSome_page id]
  rcases h.redone.pages id with ⟨-, -, hnone⟩ | ⟨base, page, hstart, hpage, hgrown⟩
  · rw [hnone]
    rfl
  obtain ⟨hrows, hlsn, hnext⟩ := hstart.base_eq
  have hlsn₀ : base.lastLsn ≤ logs.length := by
    rw [hlsn]
    cases hfound : disk₀.pages id with
    | none => exact Nat.zero_le _
    | some page₀ => exact hrec.stamped id page₀ hfound
  -- every compensation record is new to the page
  have hnew : (dataRecords id (tail.filter fun r => r.body.undoNext.isSome)).filter
      (fun r => decide (base.lastLsn < r.lsn))
      = dataRecords id (tail.filter fun r => r.body.undoNext.isSome) := by
    refine List.filter_eq_self.mpr fun r hr => decide_eq_true ?_
    exact hlsn₀.trans_lt
      (h.compensates.length_lt (List.mem_of_mem_filter (mem_dataRecords.mp hr).1))
  rw [hpage, Option.isSome_some, if_pos rfl, Option.map_some, hgrown.rows, hgrown.next, hnext,
    redoable_append h.compensates.added_ne_commit, dataRecords_append, List.filter_append, hnew,
    replayRows_append, ← h.compensates.bodiesOf_eq hall, ← h.clrs_of_page hall hwritten,
    List.foldl_map, ← hrows, ← hlsn]
  rfl

/-- **Cutting recovery short makes no difference.** Two recoveries of one
database that have come to their ends, after whatever others were cut short and
in whatever orders, agree on the rows and on the link of every page that no two
of the unfinished transactions have written to. -/
theorem rows_agree (hrec : Recoverable disk₀ logs) {files files' : Disk × List WalRecord}
    (hcut : Relation.ReflTransGen CutShort (disk₀, logs) files)
    (hcut' : Relation.ReflTransGen CutShort (disk₀, logs) files')
    {visit visit' : List (TxnId × ℕ) → List (TxnId × ℕ)}
    (hvisit : ∀ active, (visit active).Perm active)
    (hvisit' : ∀ active, (visit' active).Perm active) {disk disk' : Disk}
    {wal wal' : AppendOnlyLog}
    (hrecover : recover 0 visit files.1 ⟨files.2, files.2.length⟩ = .ok (disk, wal))
    (hrecover' : recover 0 visit' files'.1 ⟨files'.2, files'.2.length⟩ = .ok (disk', wal'))
    {id : DataPageId} (hwritten : WrittenBy logs txnId id) :
    (disk.pages id).map (fun page => (page.next, page.rows))
      = (disk'.pages id).map fun page => (page.next, page.rows) := by
  obtain ⟨tail, hstopped⟩ := stoppedAt_of_cutShort hrec hcut
  obtain ⟨tail', hstopped'⟩ := stoppedAt_of_cutShort hrec hcut'
  obtain ⟨end₁, added, hend, hat, hall⟩ := hstopped.recover hrec hvisit
  obtain ⟨end₂, added', hend', hat', hall'⟩ := hstopped'.recover hrec hvisit'
  rw [hrecover] at hend
  rw [hrecover'] at hend'
  obtain rfl := Except.ok.inj hend
  obtain rfl := Except.ok.inj hend'
  exact (hat.rows_eq hrec hall hwritten).trans (hat'.rows_eq hrec hall' hwritten).symm

/-- **A recovered database has nothing to recover.** Another recovery, in any
order, writes nothing to the log and leaves the rows, the links and the LSNs of
all pages as they are. -/
theorem recover_again (hrec : Recoverable disk₀ logs) {files : Disk × List WalRecord}
    (hcut : Relation.ReflTransGen CutShort (disk₀, logs) files)
    {visit visit' : List (TxnId × ℕ) → List (TxnId × ℕ)}
    (hvisit : ∀ active, (visit active).Perm active)
    (hvisit' : ∀ active, (visit' active).Perm active) {disk : Disk} {wal : AppendOnlyLog}
    (hrecover : recover 0 visit files.1 ⟨files.2, files.2.length⟩ = .ok (disk, wal)) :
    ∃ disk', recover 0 visit' disk wal = .ok (disk', wal)
      ∧ ∀ id, (disk'.pages id).map (fun page => (page.next, page.lastLsn, page.rows))
        = (disk.pages id).map fun page => (page.next, page.lastLsn, page.rows) := by
  obtain ⟨tail, hstopped⟩ := stoppedAt_of_cutShort hrec hcut
  obtain ⟨stop, added, hend, hat, hall⟩ := hstopped.recover hrec hvisit
  rw [hrecover] at hend
  obtain rfl := Except.ok.inj hend
  dsimp only at hat
  have hH := hat.compensates.history
  obtain ⟨disk', hfold, hredone⟩ := Redone.foldlM (hat.redone.leftBy rfl) hH hH List.prefix_rfl
  have hpos : ∀ r ∈ wal.kept, 0 < r.lsn := fun r hr =>
    (hat.compensates.numbered.lsn_bounds (hat.kept ▸ hr)).1
  have hnone : visit' (activeTxns wal.kept) = [] := by
    have hnil := activeTxns_eq_nil_of_ended hall
    rw [← hat.kept] at hnil
    have hperm := hvisit' (activeTxns wal.kept)
    rw [hnil] at hperm ⊢
    exact hperm.eq_nil
  refine ⟨disk', ?_, fun id => ?_⟩
  · have hredo : redoPass 0 wal.kept disk = .ok disk' := by
      unfold redoPass
      rw [foldlM_redo hpos, hat.kept]
      exact hfold
    unfold RecoveryManager.recover
    rw [hredo]
    show RecoveryManager.undo disk' wal (visit' (activeTxns wal.kept)) = _
    rw [hnone]
    rfl
  · rcases hredone.pages id with ⟨hfound, -, hafter⟩ | ⟨base, page, hstart, hafter, hgrown⟩
    · rw [hfound, hafter]
    -- the page had seen all of its records
    rcases hat.redone.pages id with ⟨-, hrecs, hnopage⟩ | ⟨base₀, page₀, -, hpage₀, hgrown₀⟩
    · rcases hstart with hfound | ⟨-, t, -, s, -, -, -, r, hr, -⟩
      · rw [hnopage] at hfound
        cases hfound
      · rw [hrecs] at hr
        cases hr
    · have hbase : base = page₀ := by
        rcases hstart with hfound | ⟨hfound, -⟩
        · exact Option.some.inj (hfound.symm.trans hpage₀)
        · rw [hpage₀] at hfound
          cases hfound
      subst hbase
      obtain ⟨hrows, hlast⟩ := hgrown.seen hgrown₀.le_lastLsn
      rw [hpage₀, hafter, Option.map_some, Option.map_some, hrows, hlast, hgrown.next]

/-! ## A database whose last transaction has not ended -/

/-- A table with one row, and a transaction that has deleted it and inserted
another one. -/
def unfinishedLog : List WalRecord :=
  let schema : MetaSchema := { id := 1, name := [99], dbName := [100] }
  let table : MetaTable := { id := 2, schemaId := 1, name := [116], columns := [] }
  [{ lsn := 1, txnId := 1, body := .beginTxn },
   { lsn := 2, prevLsn := 1, txnId := 1, body := .createSchema schema },
   { lsn := 3, prevLsn := 2, txnId := 1, body := .createTable table },
   { lsn := 4, prevLsn := 3, txnId := 1, body := .insert 2 10 { id := 0 } },
   { lsn := 5, prevLsn := 4, txnId := 1, body := .commitTxn },
   { lsn := 6, txnId := 2, body := .beginTxn },
   { lsn := 7, prevLsn := 6, txnId := 2, body := .delete 2 10 { id := 0 } },
   { lsn := 8, prevLsn := 7, txnId := 2, body := .insert 2 10 { id := 1 } }]

/-- The page with all of these changes, the only file. -/
def unfinishedDisk : Disk where
  pages id := if id = 10 then
      some { id := 10, tableId := 2, lastLsn := 8, size := 0, path := ([99], [116]),
             rows := [{ id := 0, flags := 1 }, { id := 1 }] }
    else none

/-- The calls of the two transactions. -/
def unfinishedWork : List TxnAction :=
  [.make, .call 1 .begin,
    .call 1 (.append (.createSchema { id := 1, name := [99], dbName := [100] })),
    .call 1 (.append (.createTable { id := 2, schemaId := 1, name := [116], columns := [] })),
    .call 1 (.append (.insert 2 10 { id := 0 })), .call 1 .commit,
    .make, .call 2 .begin, .call 2 (.append (.delete 2 10 { id := 0 })),
    .call 2 (.append (.insert 2 10 { id := 1 }))]

/-- They leave this log when the database crashes. -/
theorem run_unfinishedLog :
    Run PhaseStep (.serving {}) (unfinishedWork.map PhaseAction.work ++ [.crash])
      (.stopped unfinishedLog 3) := by
  have hwork : ∃ s, Run PhaseStep (.serving {}) (unfinishedWork.map PhaseAction.work) (.serving s)
      ∧ s.db.wal = ⟨unfinishedLog, 5⟩ ∧ s.db.clock = 3 :=
    ⟨_, .cons (.work (.make rfl)) (.cons (.work (.call rfl trivial rfl))
      (.cons (.work (.call rfl rfl rfl)) (.cons (.work (.call rfl rfl rfl))
      (.cons (.work (.call rfl rfl rfl)) (.cons (.work (.call rfl trivial rfl))
      (.cons (.work (.make rfl)) (.cons (.work (.call rfl trivial rfl))
      (.cons (.work (.call rfl rfl rfl)) (.single (.work (.call rfl rfl rfl))))))))))), rfl, rfl⟩
  obtain ⟨s, hrun, hwal, hclock⟩ := hwork
  have hcrash : PhaseStep (.serving s) .crash (.stopped (s.db.wal.kept.take 8) s.db.clock) :=
    .crash (by rw [hwal]; decide)
  rw [hwal, hclock] at hcrash
  exact hrun.append (.single hcrash)

theorem recoverable_unfinishedLog : Recoverable unfinishedDisk unfinishedLog := by
  have honly : ∀ id page, unfinishedDisk.pages id = some page →
      id = 10 ∧ page.id = 10 ∧ page.lastLsn = 8 := by
    intro id page hpage
    change (if id = 10 then _ else none) = some page at hpage
    split_ifs at hpage with hid
    obtain rfl := Option.some.inj hpage
    exact ⟨hid, rfl, rfl⟩
  refine ⟨⟨_, _, _, run_unfinishedLog⟩, by decide, ⟨⟨fun s hs => absurd hs List.not_mem_nil,
      fun f hf => absurd hf List.not_mem_nil, fun id page hpage => ?_⟩, mended_of_nil rfl⟩,
    fun id page hpage => ?_, fun txnId ht record hrecord clr hclr => ?_⟩
  · obtain ⟨rfl, hid, -⟩ := honly id page hpage
    exact hid
  · rw [(honly id page hpage).2.2]
    decide
  · obtain rfl : txnId = 2 := by
      have hall : ∀ r ∈ unfinishedLog, Unfinished unfinishedLog r.txnId → r.txnId = 2 := by decide
      obtain ⟨r, hr, rfl⟩ := ht.1
      exact hall r hr ht
    have hall : ∀ record ∈ toUndo unfinishedLog 2,
        (makeClr record.prevLsn record.body).all fun clr =>
          decide (Admissible (redoable unfinishedLog) clr) := by decide
    have hone := hall record hrecord
    rw [hclr] at hone
    exact of_decide_eq_true hone

/-- Recovery is cut short when the first compensation record is durable and its
change is not made. -/
theorem cutShort_unfinishedLog : ∃ files, CutShort (unfinishedDisk, unfinishedLog) files
    ∧ files.2.length = 9 := by
  have hstops : ∃ disk, RecoverStops id unfinishedDisk ⟨unfinishedLog, 8⟩
      (disk, ((AppendOnlyLog.mk unfinishedLog 8).push
        { lsn := 8, txnId := 2, body := .clrInsert 2 10 7 { id := 1 } }).flush) := by
    let record : WalRecord :=
      { lsn := 8, prevLsn := 7, txnId := 2, body := .insert 2 10 { id := 1 } }
    refine ⟨_, .undoing rfl (.within (@LoopStops.logged _ _ record _ rfl rfl ?_))⟩
    rintro ref href
    rw [← Option.some.inj href]
    rfl
  obtain ⟨disk, hstops⟩ := hstops
  exact ⟨_, ⟨id, fun active => .refl active, _, hstops, rfl⟩, rfl⟩

/-- The next recovery compensates the two changes, each once. -/
theorem recover_cutShort_unfinished : ∃ files, CutShort (unfinishedDisk, unfinishedLog) files
    ∧ files.2.length = 9
    ∧ ∃ disk wal tail, recover 0 id files.1 ⟨files.2, files.2.length⟩ = .ok (disk, wal)
      ∧ wal.kept = unfinishedLog ++ tail ∧ wal.durable = wal.kept.length
      ∧ (∀ txnId, bodiesOf txnId tail = if Unfinished unfinishedLog txnId then
          compensations unfinishedDisk unfinishedLog txnId ++ [.rollbackTxn] else [])
      ∧ Redone (redoable wal.kept) (redoable wal.kept) unfinishedDisk disk := by
  obtain ⟨files, hcut, hlength⟩ := cutShort_unfinishedLog
  exact ⟨files, hcut, hlength, recover_cutShort recoverable_unfinishedLog (.single hcut)
    fun active => .refl active⟩

example : compensations unfinishedDisk unfinishedLog 2
    = [.clrInsert 2 10 7 { id := 1 }, .clrDelete 2 10 6 { id := 0 }] := by decide

theorem exists_recover_unfinished {files : Disk × List WalRecord}
    (hcut : Relation.ReflTransGen CutShort (unfinishedDisk, unfinishedLog) files) :
    ∃ disk wal, recover 0 id files.1 ⟨files.2, files.2.length⟩ = .ok (disk, wal) := by
  obtain ⟨tail, hstopped⟩ := stoppedAt_of_cutShort recoverable_unfinishedLog hcut
  have hvisit : ∀ active : List (TxnId × ℕ), (id active).Perm active := fun active => .refl active
  obtain ⟨stop, -, hrecover, -⟩ := hstopped.recover recoverable_unfinishedLog hvisit
  exact ⟨stop.1, stop.2, hrecover⟩

/-- The page is the same with a recovery cut short and without. -/
theorem rows_agree_unfinished : ∃ files disk disk' wal wal',
    CutShort (unfinishedDisk, unfinishedLog) files
      ∧ recover 0 id files.1 ⟨files.2, files.2.length⟩ = .ok (disk, wal)
      ∧ recover 0 id unfinishedDisk ⟨unfinishedLog, unfinishedLog.length⟩ = .ok (disk', wal')
      ∧ (disk.pages 10).map (fun page => (page.next, page.rows))
        = (disk'.pages 10).map fun page => (page.next, page.rows) := by
  have hvisit : ∀ active : List (TxnId × ℕ), (id active).Perm active := fun active => .refl active
  obtain ⟨files, hcut, -⟩ := cutShort_unfinishedLog
  obtain ⟨disk, wal, hrecover⟩ := exists_recover_unfinished (.single hcut)
  obtain ⟨disk', wal', hrecover'⟩ := exists_recover_unfinished .refl
  refine ⟨files, disk, disk', wal, wal', hcut, hrecover, hrecover', ?_⟩
  have hall : ∀ r ∈ unfinishedLog, Unfinished unfinishedLog r.txnId → r.txnId = 2 := by decide
  have hwritten : WrittenBy unfinishedLog 2 10 := fun t ht _ _ _ => by
    obtain ⟨r, hr, rfl⟩ := ht.1
    exact hall r hr ht
  exact rows_agree recoverable_unfinishedLog (.single hcut) .refl hvisit hvisit hrecover hrecover'
    hwritten

/-- Recovered, the database has nothing to recover. -/
theorem recover_again_unfinished : ∃ disk disk' wal,
    recover 0 id unfinishedDisk ⟨unfinishedLog, unfinishedLog.length⟩ = .ok (disk, wal)
      ∧ recover 0 List.reverse disk wal = .ok (disk', wal)
      ∧ (disk'.pages 10).map (fun page => (page.next, page.lastLsn, page.rows))
        = (disk.pages 10).map fun page => (page.next, page.lastLsn, page.rows) := by
  have hvisit : ∀ active : List (TxnId × ℕ), (id active).Perm active := fun active => .refl active
  obtain ⟨disk, wal, hrecover⟩ := exists_recover_unfinished .refl
  obtain ⟨disk', hagain, hpages⟩ := recover_again recoverable_unfinishedLog .refl hvisit
    List.reverse_perm hrecover
  exact ⟨disk, disk', wal, hrecover, hagain, hpages 10⟩

end RecoveryManager
