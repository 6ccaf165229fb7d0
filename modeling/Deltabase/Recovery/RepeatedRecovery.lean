import Deltabase.Recovery.InterruptedRecovery

/-!
# Recovery after recoveries that were cut short

However often a recovery is cut short, and wherever, the next one takes back
what the unfinished transactions did exactly once. The log says how far undo has
come: each compensation record in it leads past the record it compensates, so
that what a transaction is still owed (`Owes`) is what the trail from its last
record has. A record without a file for its page is passed over each time.

The files follow the log. When the redo pass of a recovery has come to its end
they are what one redo pass over the log as it is now would have made of the
files there were at first (`UndoAt`), and undo keeps it that way, record by
record. In between, a page is somewhere on the way (`StoppedAt`).
-/

namespace RecoveryManager

open FileIOManager History AppendOnlyLog

/-! ## What is owed to a transaction -/

/-- What the records of a transaction are about, in order. -/
def bodiesOf (txnId : TxnId) (logs : List WalRecord) : List WalBody :=
  (logs.filter fun r => r.txnId = txnId).map WalRecord.body

/-- The pages that are there when redo has come to its end. -/
def pageThere (disk : Disk) (logs : List WalRecord) (id : DataPageId) : Bool :=
  (disk.pages id).isSome || !(dataRecords id (redoable logs)).isEmpty

/-- **The compensation record of a record**; a record without a file for its
page has none. -/
def compensation (there : DataPageId → Bool) (record : WalRecord) : Option WalBody :=
  if record.body.dataRef.all fun ref => there ref.2 then makeClr record.prevLsn record.body
  else none

/-- **The compensation records of a transaction**, that of its last record
first. -/
def compensations (disk : Disk) (logs : List WalRecord) (txnId : TxnId) : List WalBody :=
  (toUndo logs txnId).filterMap (compensation (pageThere disk logs))

/-- **A database that recovery can be run on**: its log is one that a history of
transactions, crashes and recoveries that were cut short has left, what is redone
is the log of an instance, the files are those this log may have left with no LSN
the log does not have, and what the unfinished transactions did is about tables
that are there without them. -/
structure Recoverable (disk : Disk) (logs : List WalRecord) : Prop where
  reached : ∃ generator as clock,
    Run PhaseStep (.serving { db := { generator } }) as (.stopped logs clock)
  history : InstanceLog (redoable logs)
  left : LeftBy (redoable logs) disk
  stamped : ∀ id page, disk.pages id = some page → page.lastLsn ≤ logs.length
  undoable : ∀ txnId, Unfinished logs txnId → ∀ record ∈ toUndo logs txnId,
    ∀ clr, makeClr record.prevLsn record.body = some clr → Admissible (redoable logs) clr

namespace Recoverable

variable {disk : Disk} {logs : List WalRecord}

/-- The links of its log lead back. -/
theorem links (h : Recoverable disk logs) : LinksBack logs := by
  obtain ⟨generator, as, clock, hrun⟩ := h.reached
  exact (DbPhase.ownLinks_of_run hrun).1

/-- They stay within their transactions. -/
theorem own (h : Recoverable disk logs) : OwnLinks logs := by
  obtain ⟨generator, as, clock, hrun⟩ := h.reached
  exact (DbPhase.ownLinks_of_run hrun).2

end Recoverable

/-- **What a transaction is owed** at an LSN, when recoveries have added a tail
to the log: the records that are not yet taken back. -/
structure Owes (disk : Disk) (logs tail : List WalRecord) (txnId : TxnId) (lsn : ℕ)
    (todo : List WalRecord) : Prop where
  split : ∃ done, toUndo logs txnId = done ++ todo
    ∧ bodiesOf txnId tail = done.filterMap (compensation (pageThere disk logs))
  trail : Trail (logs ++ tail) txnId lsn todo

/-- **What recoveries may have added to a log.** -/
structure Compensates (disk : Disk) (logs tail : List WalRecord) : Prop where
  numbered : Numbered (logs ++ tail)
  history : InstanceLog (redoable (logs ++ tail))
  added : ∀ r ∈ tail, Unfinished logs r.txnId ∧ (r.body = .rollbackTxn
    ∨ ∃ record, compensation (pageThere disk logs) record = some r.body)
  owes : ∀ txnId, Unfinished (logs ++ tail) txnId →
    ∃ todo, Owes disk logs tail txnId (lastLsnOf txnId (logs ++ tail)) todo
  ended : ∀ txnId, Unfinished logs txnId → ¬ Unfinished (logs ++ tail) txnId →
    bodiesOf txnId tail = compensations disk logs txnId ++ [.rollbackTxn]

variable {disk₀ disk : Disk} {logs tail : List WalRecord} {wal : AppendOnlyLog}
  {txnId t : TxnId} {r record : WalRecord} {clr : WalBody} {todo : List WalRecord} {lsn : ℕ}

theorem bodiesOf_snoc_self (h : r.txnId = txnId) :
    bodiesOf txnId (logs ++ [r]) = bodiesOf txnId logs ++ [r.body] := by
  unfold bodiesOf
  rw [List.filter_append, List.map_append, List.filter_cons_of_pos (by simpa using h)]
  rfl

theorem bodiesOf_snoc_other (h : r.txnId ≠ txnId) :
    bodiesOf txnId (logs ++ [r]) = bodiesOf txnId logs := by
  unfold bodiesOf
  rw [List.filter_append, List.map_append, List.filter_cons_of_neg (by simpa using h)]
  exact List.append_nil _

/-- A compensation record is one of a record whose page is there. -/
theorem compensation_eq_some {there : DataPageId → Bool} :
    compensation there record = some clr ↔ makeClr record.prevLsn record.body = some clr
      ∧ ∀ ref, record.body.dataRef = some ref → there ref.2 = true := by
  unfold compensation
  cases hdata : record.body.dataRef with
  | none => exact ⟨fun h => ⟨h, fun ref href => by cases href⟩, And.left⟩
  | some ref =>
    show (if there ref.2 = true then _ else _) = _ ↔ _
    by_cases hthere : there ref.2 = true
    · rw [if_pos hthere]
      refine ⟨fun h => ⟨h, fun ref' href => ?_⟩, And.left⟩
      rw [← Option.some.inj href]
      exact hthere
    · rw [if_neg hthere]
      exact ⟨fun h => absurd h.symm (Option.some_ne_none _), fun h => absurd (h.2 ref rfl) hthere⟩

theorem makeClr_ne_end {undoNextLsn : ℕ} {body : WalBody}
    (h : makeClr undoNextLsn body = some clr) :
    clr ≠ .commitTxn ∧ clr ≠ .rollbackTxn := by
  refine ⟨?_, makeClr_ne_rollback h⟩
  rintro rfl
  cases (undoNext_makeClr h).1

namespace Compensates

/-- What is added is no commit record. -/
theorem added_ne_commit (h : Compensates disk₀ logs tail) :
    ∀ r ∈ tail, Unfinished logs r.txnId ∧ r.body ≠ .commitTxn := by
  intro r hr
  obtain ⟨hunfinished, hbody | ⟨record, hrecord⟩⟩ := h.added r hr
  · exact ⟨hunfinished, by rw [hbody]; exact fun h => by cases h⟩
  · exact ⟨hunfinished, (makeClr_ne_end (compensation_eq_some.mp hrecord).1).1⟩

/-- Only transactions that were unfinished at first are unfinished later. -/
theorem unfinished (h : Compensates disk₀ logs tail) (ht : Unfinished (logs ++ tail) t) :
    Unfinished logs t := by
  refine ⟨?_, fun r hr => ht.2 r (List.mem_append_left _ hr)⟩
  obtain ⟨⟨r, hr, htxn⟩, -⟩ := ht
  rcases List.mem_append.mp hr with hr | hr
  · exact ⟨r, hr, htxn⟩
  · exact htxn ▸ (h.added r hr).1.1

/-- What is redone of the grown log has what was redone before. -/
theorem redoable_subset (h : Compensates disk₀ logs tail) :
    createdTables (redoable logs) ⊆ createdTables (redoable (logs ++ tail)) := by
  rw [redoable_append h.added_ne_commit, createdTables_append]
  exact List.subset_append_left _ _

/-- **One more record**, of a transaction that has not ended. -/
theorem push (h : Compensates disk₀ logs tail) (ht : Unfinished (logs ++ tail) t)
    (hr : r.txnId = t ∧ r.lsn = (logs ++ tail).length + 1)
    (hadded : r.body = .rollbackTxn
      ∨ ∃ record, compensation (pageThere disk₀ logs) record = some r.body)
    (hhistory : InstanceLog (redoable (logs ++ (tail ++ [r]))))
    (howes : Unfinished (logs ++ (tail ++ [r])) t →
      ∃ todo, Owes disk₀ logs (tail ++ [r]) t r.lsn todo)
    (hended : ¬ Unfinished (logs ++ (tail ++ [r])) t →
      bodiesOf t (tail ++ [r]) = compensations disk₀ logs t ++ [.rollbackTxn]) :
    Compensates disk₀ logs (tail ++ [r]) where
  numbered := by
    have hstamp : FileWalManager.stamp r ((logs ++ tail).length + 1) = r := by
      rw [← hr.2]
      rfl
    rw [← List.append_assoc, ← hstamp]
    exact h.numbered.snoc r
  history := hhistory
  added r' hr' := by
    rcases List.mem_append.mp hr' with hr' | hr'
    · exact h.added r' hr'
    · rw [List.mem_singleton.mp hr', hr.1]
      exact ⟨h.unfinished ht, hadded⟩
  owes t' ht' := by
    by_cases heq : r.txnId = t'
    · rw [← List.append_assoc, lastLsnOf_snoc, if_pos heq, ← heq, hr.1]
      rw [← heq, hr.1] at ht'
      exact howes ht'
    · rw [← List.append_assoc, unfinished_snoc_other heq] at ht'
      obtain ⟨todo, ⟨done, hsplit, hbodies⟩, htrail⟩ := h.owes t' ht'
      rw [← List.append_assoc, lastLsnOf_snoc, if_neg heq]
      refine ⟨todo, ⟨done, hsplit, (bodiesOf_snoc_other heq).trans hbodies⟩, ?_⟩
      rw [← List.append_assoc]
      exact htrail.mono (List.subset_append_left _ _)
  ended t' ht' hends := by
    by_cases heq : r.txnId = t'
    · rw [← heq, hr.1] at hends ⊢
      exact hended hends
    · rw [← List.append_assoc, unfinished_snoc_other heq] at hends
      rw [bodiesOf_snoc_other heq]
      exact h.ended t' ht' hends

/-- **A compensation record is added**: the transaction is owed one record
less. -/
theorem pushClr (h : Compensates disk₀ logs tail) (hrec : Recoverable disk₀ logs)
    (ht : Unfinished (logs ++ tail) t) (howes : Owes disk₀ logs tail t lsn (record :: todo))
    (htrail : Trail (logs ++ tail) t record.prevLsn todo)
    (hclr : compensation (pageThere disk₀ logs) record = some clr)
    (hr : r = { lsn := (logs ++ tail).length + 1, prevLsn := 0, txnId := t, body := clr }) :
    Compensates disk₀ logs (tail ++ [r]) ∧ Unfinished (logs ++ (tail ++ [r])) t
      ∧ Owes disk₀ logs (tail ++ [r]) t record.prevLsn todo
      ∧ redoable (logs ++ (tail ++ [r])) = redoable (logs ++ tail) ++ [r] := by
  have hmake := (compensation_eq_some.mp hclr).1
  have hnext : r.body.undoNext = some record.prevLsn := by
    rw [hr]
    exact (undoNext_makeClr hmake).1
  have hends : r.body ≠ .commitTxn ∧ r.body ≠ .rollbackTxn := by
    rw [hr]
    exact makeClr_ne_end hmake
  have htxn : r.txnId = t := by rw [hr]
  have hlsn : r.lsn = (logs ++ tail).length + 1 := by rw [hr]
  obtain ⟨⟨done, hsplit, hbodies⟩, hfrom⟩ := howes
  have hrecord : record ∈ toUndo logs t := by
    rw [hsplit]
    exact List.mem_append_right _ List.mem_cons_self
  have ht' : Unfinished (logs ++ (tail ++ [r])) t := by
    rw [← List.append_assoc]
    exact ht.snoc hends
  have hredoable : redoable (logs ++ (tail ++ [r])) = redoable (logs ++ tail) ++ [r] := by
    have hadded : ∀ r' ∈ [r], Unfinished (logs ++ tail) r'.txnId ∧ r'.body ≠ .commitTxn :=
      fun r' hr' => by
        rw [List.mem_singleton.mp hr']
        exact ⟨htxn.symm ▸ ht, hends.1⟩
    rw [← List.append_assoc, redoable_append hadded,
      List.filter_cons_of_pos (by rw [hnext]; rfl)]
    rfl
  have howes' : Owes disk₀ logs (tail ++ [r]) t record.prevLsn todo := by
    refine ⟨⟨done ++ [record], ?_, ?_⟩, ?_⟩
    · rw [hsplit, List.append_assoc, List.singleton_append]
    · rw [bodiesOf_snoc_self htxn, hbodies, List.filterMap_append, List.filterMap_cons_some hclr,
        hr]
      rfl
    · rw [← List.append_assoc]
      exact htrail.mono (List.subset_append_left _ _)
  refine ⟨h.push ht ⟨htxn, hlsn⟩ (.inr ⟨record, by rw [hr]; exact hclr⟩) ?_ (fun _ => ⟨todo, ?_⟩)
    (fun hnot => absurd ht' hnot), ht', howes', hredoable⟩
  · rw [hredoable]
    refine .snoc h.history (by rw [hlsn]; exact Nat.succ_pos _) (fun r' hr' => ?_)
      (fun r' hr' hcommit htxn' => ?_) ?_
    · rw [hlsn]
      exact Nat.lt_succ_of_le (h.numbered.lsn_bounds (mem_of_mem_redoable hr')).2
    · exact (ht.2 r' (mem_of_mem_redoable hr') (htxn'.trans htxn)).1 hcommit
    · have hadm := hrec.undoable t (h.unfinished ht) record hrecord clr hmake
      rw [hr]
      exact hadm.mono (by rw [(undoNext_makeClr hmake).1]; rfl) h.redoable_subset
  · -- the new record is where the transaction's trail begins, and leads on to the old one
    have hmem : r ∈ logs ++ (tail ++ [r]) := by simp
    have hprev : record.prevLsn < r.lsn := by
      rw [hlsn]
      have hmem' := ((⟨⟨done, hsplit, hbodies⟩, hfrom⟩ :
        Owes disk₀ logs tail t lsn (record :: todo)).trail.mem record List.mem_cons_self).1
      have hback : record.prevLsn < record.lsn := by
        obtain ⟨hlog, -⟩ := (trail_toUndo hrec.links hrec.own (h.unfinished ht)).mem record hrecord
        exact hrec.links.prev record hlog
      have hbound := (h.numbered.lsn_bounds hmem').2
      omega
    exact ⟨howes'.split, .compensated hmem htxn hnext hprev howes'.trail⟩

/-- **The rollback record is added** when nothing is owed any more. -/
theorem pushRollback (h : Compensates disk₀ logs tail) (ht : Unfinished (logs ++ tail) t)
    (howes : Owes disk₀ logs tail t lsn [])
    (hr : r = { lsn := (logs ++ tail).length + 1, prevLsn := 0, txnId := t,
                body := .rollbackTxn }) :
    Compensates disk₀ logs (tail ++ [r]) ∧ ¬ Unfinished (logs ++ (tail ++ [r])) t
      ∧ redoable (logs ++ (tail ++ [r])) = redoable (logs ++ tail) := by
  have htxn : r.txnId = t := by rw [hr]
  have hbody : r.body = .rollbackTxn := by rw [hr]
  have hends : ¬ Unfinished (logs ++ (tail ++ [r])) t := fun ht' =>
    (ht'.2 r (by simp) htxn).2 hbody
  have hredoable : redoable (logs ++ (tail ++ [r])) = redoable (logs ++ tail) := by
    have hadded : ∀ r' ∈ [r], Unfinished (logs ++ tail) r'.txnId ∧ r'.body ≠ .commitTxn :=
      fun r' hr' => by
        rw [List.mem_singleton.mp hr', hbody]
        exact ⟨htxn.symm ▸ ht, fun h => by cases h⟩
    rw [← List.append_assoc, redoable_append hadded,
      List.filter_cons_of_neg (by rw [hbody]; exact Bool.false_ne_true)]
    exact List.append_nil _
  refine ⟨h.push ht ⟨htxn, by rw [hr]⟩ (.inl hbody) (by rw [hredoable]; exact h.history)
    (fun ht' => absurd ht' hends) fun _ => ?_, hends, hredoable⟩
  obtain ⟨done, hsplit, hbodies⟩ := howes.split
  rw [List.append_nil] at hsplit
  rw [bodiesOf_snoc_self htxn, hbodies, hbody, ← hsplit]
  rfl

end Compensates

end RecoveryManager
