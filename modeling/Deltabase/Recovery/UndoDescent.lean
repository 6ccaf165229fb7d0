import Deltabase.Transactions.PrevLsnChain

/-!
# Where undo looks

Undo goes back through the log from the last record of a transaction. A record
that a transaction wrote sends it to `prev_lsn`; a compensation record, which an
earlier undo wrote, sends it to `undo_next_lsn`.

Both lead to an earlier record: a transaction has the LSN of its last record,
and a compensation record is younger than the record it compensates, whose
`prev_lsn` it was given (`LinksBack`). Nothing else is needed for the loop to go
down and to end, and what is needed holds after any number of crashes and of
recoveries that were themselves cut short (`linksBack_of_run`).
-/

namespace RecoveryManager

open FileIOManager History AppendOnlyLog

/-! ## The records that are asked for -/

/-- **The loop of `undo`, with the LSNs it asks `read_log` for** and what it
ends in. Every record it asks for is there. -/
inductive Visits : UndoState → ℕ → List ℕ → Except Exn (UndoState × Bool) → Prop
  | done (s : UndoState) : Visits s 0 [] (.ok (s, false))
  | rollback {s : UndoState} {current : ℕ} {record : WalRecord} (hpos : current ≠ 0)
      (hread : s.wal.readLog current = .ok record) (hbody : record.body = .rollbackTxn) :
      Visits s current [current] (.ok ({ s with txnPrevLsn := record.lsn }, true))
  | compensated {s : UndoState} {current undoNextLsn : ℕ} {record : WalRecord} {lsns : List ℕ}
      {outcome : Except Exn (UndoState × Bool)} (hpos : current ≠ 0)
      (hread : s.wal.readLog current = .ok record)
      (hnext : record.body.undoNext = some undoNextLsn)
      (hrest : Visits { s with txnPrevLsn := record.lsn } undoNextLsn lsns outcome) :
      Visits s current (current :: lsns) outcome
  | undone {s s' : UndoState} {current : ℕ} {record : WalRecord} {lsns : List ℕ}
      {outcome : Except Exn (UndoState × Bool)} (hpos : current ≠ 0)
      (hread : s.wal.readLog current = .ok record) (hbody : record.body ≠ .rollbackTxn)
      (hnext : record.body.undoNext = none) (hundo : undoRecord s record = .ok s')
      (hrest : Visits s' record.prevLsn lsns outcome) :
      Visits s current (current :: lsns) outcome
  /-- An exception comes from reading or writing what the record is about. -/
  | thrown {s : UndoState} {current : ℕ} {record : WalRecord} {e : Exn} (hpos : current ≠ 0)
      (hread : s.wal.readLog current = .ok record) (hbody : record.body ≠ .rollbackTxn)
      (hnext : record.body.undoNext = none) (hundo : undoRecord s record = .error e) :
      Visits s current [current] (.error e)

/-- **The loop goes round once for each record**, so it ends. -/
theorem Visits.undoLoop {s : UndoState} {current rounds : ℕ} {lsns : List ℕ}
    {outcome : Except Exn (UndoState × Bool)} (h : Visits s current lsns outcome)
    (hrounds : lsns.length < rounds) : undoLoop rounds s current = outcome := by
  induction h generalizing rounds with
  | done s =>
    obtain ⟨rounds, rfl⟩ := Nat.exists_eq_succ_of_ne_zero (Nat.ne_of_gt (Nat.zero_lt_of_lt hrounds))
    rfl
  | rollback hpos hread hbody =>
    obtain ⟨rounds, rfl⟩ := Nat.exists_eq_succ_of_ne_zero (Nat.ne_of_gt (Nat.zero_lt_of_lt hrounds))
    unfold RecoveryManager.undoLoop
    rw [if_neg hpos, hread]
    exact if_pos hbody
  | compensated hpos hread hnext _ ih =>
    obtain ⟨rounds, rfl⟩ := Nat.exists_eq_succ_of_ne_zero (Nat.ne_of_gt (Nat.zero_lt_of_lt hrounds))
    unfold RecoveryManager.undoLoop
    rw [if_neg hpos, hread]
    show (if _ then _ else _) = _
    have hbody : ‹WalRecord›.body ≠ .rollbackTxn := fun hbody => by
      rw [hbody] at hnext
      cases hnext
    rw [if_neg hbody, hnext]
    exact ih (Nat.lt_of_succ_lt_succ hrounds)
  | undone hpos hread hbody hnext hundo _ ih =>
    obtain ⟨rounds, rfl⟩ := Nat.exists_eq_succ_of_ne_zero (Nat.ne_of_gt (Nat.zero_lt_of_lt hrounds))
    unfold RecoveryManager.undoLoop
    rw [if_neg hpos, hread]
    show (if _ then _ else _) = _
    rw [if_neg hbody, hnext, hundo]
    exact ih (Nat.lt_of_succ_lt_succ hrounds)
  | thrown hpos hread hbody hnext hundo =>
    obtain ⟨rounds, rfl⟩ := Nat.exists_eq_succ_of_ne_zero (Nat.ne_of_gt (Nat.zero_lt_of_lt hrounds))
    unfold RecoveryManager.undoLoop
    rw [if_neg hpos, hread]
    show (if _ then _ else _) = _
    rw [if_neg hbody, hnext, hundo]
    rfl

/-! ## Links that lead back -/

/-- **Every link leads to an earlier record**, or to none. -/
structure LinksBack (logs : List WalRecord) : Prop where
  numbered : Numbered logs
  prev : ∀ r ∈ logs, r.prevLsn < r.lsn
  undoNext : ∀ r ∈ logs, ∀ lsn, r.body.undoNext = some lsn → lsn < r.lsn

theorem linksBack_nil : LinksBack [] :=
  ⟨rfl, fun _ hr => (nomatch hr), fun _ hr => (nomatch hr)⟩

/-- What a crash leaves of the log. -/
theorem LinksBack.take {logs : List WalRecord} (h : LinksBack logs) (n : ℕ) :
    LinksBack (logs.take n) :=
  ⟨h.numbered.take n, fun r hr => h.prev r (List.take_subset _ _ hr),
    fun r hr => h.undoNext r (List.take_subset _ _ hr)⟩

/-- A record whose links lead to records that are there. -/
theorem LinksBack.push {wal : AppendOnlyLog} (h : LinksBack wal.kept) {record : WalRecord}
    (hprev : record.prevLsn ≤ wal.kept.length)
    (hnext : ∀ lsn, record.body.undoNext = some lsn → lsn ≤ wal.kept.length) :
    LinksBack (wal.push record).kept := by
  refine ⟨h.numbered.snoc record, fun r hr => ?_, fun r hr lsn hlsn => ?_⟩
  · rcases List.mem_append.mp hr with hr | hr
    · exact h.prev r hr
    · rw [List.mem_singleton.mp hr]
      exact Nat.lt_succ_of_le hprev
  · rcases List.mem_append.mp hr with hr | hr
    · exact h.undoNext r hr lsn hlsn
    · rw [List.mem_singleton.mp hr] at hlsn ⊢
      exact Nat.lt_succ_of_le (hnext lsn hlsn)

/-- LSNs up to the length of the log are there. -/
theorem exists_readLog {wal : AppendOnlyLog} (hnumbered : Numbered wal.kept) {lsn : ℕ}
    (hpos : lsn ≠ 0) (hle : lsn ≤ wal.kept.length) :
    ∃ r ∈ wal.kept, r.lsn = lsn ∧ wal.readLog lsn = .ok r := by
  obtain ⟨i, rfl⟩ := Nat.exists_eq_succ_of_ne_zero hpos
  have hget : wal.kept[i]? = some wal.kept[i] := List.getElem?_eq_getElem hle
  exact ⟨wal.kept[i], List.getElem_mem hle, hnumbered.lsn_get hget, readLog_eq_ok.mpr ⟨hpos, hget⟩⟩

theorem undoNext_makeClr {undoNextLsn : ℕ} {body clr : WalBody}
    (h : makeClr undoNextLsn body = some clr) :
    clr.undoNext = some undoNextLsn ∧ body.undoNext = none := by
  cases body <;> cases h <;> exact ⟨rfl, rfl⟩

/-- **The compensation record of a record of the log** leads to where the record
itself does. -/
theorem LinksBack.pushClr {wal : AppendOnlyLog} (h : LinksBack wal.kept) {record : WalRecord}
    (hmem : record ∈ wal.kept) {clr : WalBody}
    (hclr : makeClr record.prevLsn record.body = some clr) (lsn : ℕ) (txnId : TxnId) :
    LinksBack (wal.push { lsn := lsn, prevLsn := 0, txnId := txnId, body := clr }).kept := by
  refine h.push (Nat.zero_le _) fun next hnext => ?_
  rw [(undoNext_makeClr hclr).1] at hnext
  obtain rfl := Option.some.inj hnext
  exact (h.prev record hmem).le.trans (h.numbered.lsn_bounds hmem).2

/-- **Taking a record back** keeps the links. -/
theorem LinksBack.undoRecord {s s' : UndoState} {record : WalRecord} (h : LinksBack s.wal.kept)
    (hmem : record ∈ s.wal.kept) (hundo : undoRecord s record = .ok s') :
    LinksBack s'.wal.kept ∧ s.wal.kept <+: s'.wal.kept := by
  rcases undoRecord_wal hundo with hwal | ⟨clr, txnPrevLsn, hclr, hwal⟩
  · rw [hwal]
    exact ⟨h, List.prefix_rfl⟩
  · rw [hwal]
    exact ⟨h.pushClr hmem hclr txnPrevLsn record.txnId, List.prefix_append _ _⟩

/-- **The loop goes down**: from any record of the log on it asks for ever
smaller LSNs, all of them in the log. -/
theorem LinksBack.exists_visits {s : UndoState} (h : LinksBack s.wal.kept) {current : ℕ}
    (hle : current ≤ s.wal.kept.length) :
    ∃ lsns outcome, Visits s current lsns outcome ∧ lsns.Pairwise (· > ·)
      ∧ (∀ lsn ∈ lsns, 0 < lsn ∧ lsn ≤ current) ∧ lsns.length ≤ current := by
  induction current using Nat.strongRecOn generalizing s with
  | ind current ih =>
    by_cases hpos : current = 0
    · subst hpos
      exact ⟨[], _, .done s, .nil, fun _ hlsn => (nomatch hlsn), le_rfl⟩
    obtain ⟨record, hmem, hlsn, hread⟩ := exists_readLog h.numbered hpos hle
    -- what comes after a record is smaller than it
    have hcons : ∀ {next : ℕ} {lsns : List ℕ}, next < current → lsns.Pairwise (· > ·) →
        (∀ lsn ∈ lsns, 0 < lsn ∧ lsn ≤ next) → lsns.length ≤ next →
          (current :: lsns).Pairwise (· > ·)
          ∧ (∀ lsn ∈ current :: lsns, 0 < lsn ∧ lsn ≤ current)
          ∧ (current :: lsns).length ≤ current := by
      intro next lsns hnext hpairwise hbound hlength
      refine ⟨.cons (fun lsn hlsn => (hbound lsn hlsn).2.trans_lt hnext) hpairwise, ?_,
        Nat.succ_le_of_lt (hlength.trans_lt hnext)⟩
      intro lsn hlsn
      rcases List.mem_cons.mp hlsn with rfl | hlsn
      · exact ⟨Nat.pos_of_ne_zero hpos, le_rfl⟩
      · exact ⟨(hbound lsn hlsn).1, (hbound lsn hlsn).2.trans hnext.le⟩
    have hself := hcons (Nat.pos_of_ne_zero hpos) List.Pairwise.nil
      (fun lsn hlsn => (nomatch hlsn)) (Nat.zero_le 0)
    by_cases hbody : record.body = .rollbackTxn
    · exact ⟨[current], _, .rollback hpos hread hbody, hself⟩
    cases hnext : record.body.undoNext with
    | some undoNextLsn =>
      have hlt : undoNextLsn < current := hlsn ▸ h.undoNext record hmem undoNextLsn hnext
      obtain ⟨lsns, outcome, hvisits, hpairwise, hbound, hlength⟩ :=
        ih undoNextLsn hlt (s := { s with txnPrevLsn := record.lsn }) h
          (hlt.le.trans hle)
      exact ⟨current :: lsns, outcome, .compensated hpos hread hnext hvisits,
        hcons hlt hpairwise hbound hlength⟩
    | none =>
      cases hundo : RecoveryManager.undoRecord s record with
      | error e =>
        exact ⟨[current], _, .thrown hpos hread hbody hnext hundo, hself⟩
      | ok s' =>
        have hlt : record.prevLsn < current := hlsn ▸ h.prev record hmem
        obtain ⟨hlinks, hpre⟩ := h.undoRecord hmem hundo
        obtain ⟨lsns, outcome, hvisits, hpairwise, hbound, hlength⟩ :=
          ih record.prevLsn hlt hlinks ((hlt.le.trans hle).trans hpre.length_le)
        exact ⟨current :: lsns, outcome, .undone hpos hread hbody hnext hundo hvisits,
          hcons hlt hpairwise hbound hlength⟩

/-! ## The log while undo is under way -/

/-- **One round of the loop**, as far as the log and `current` go, whatever is
on disk and whether the round comes to its end or not. -/
inductive LogRound : AppendOnlyLog × ℕ → AppendOnlyLog × ℕ → Prop
  | compensated {wal : AppendOnlyLog} {current undoNextLsn : ℕ} {record : WalRecord}
      (hread : wal.readLog current = .ok record)
      (hnext : record.body.undoNext = some undoNextLsn) :
      LogRound (wal, current) (wal, undoNextLsn)
  /-- The record has no compensation record, or there is no file for its page. -/
  | passed {wal : AppendOnlyLog} {current : ℕ} {record : WalRecord}
      (hread : wal.readLog current = .ok record) (hnext : record.body.undoNext = none) :
      LogRound (wal, current) (wal, record.prevLsn)
  | undone {wal : AppendOnlyLog} {current : ℕ} {record : WalRecord} {clr : WalBody}
      (hread : wal.readLog current = .ok record)
      (hclr : makeClr record.prevLsn record.body = some clr) :
      LogRound (wal, current)
        ((wal.push { prevLsn := 0, txnId := record.txnId, body := clr }).flush, record.prevLsn)

/-- **The logs that undo of some transactions comes by**, with the one it starts
and the one it ends with. -/
inductive Passes : AppendOnlyLog → List (TxnId × ℕ) → AppendOnlyLog → Prop
  | here (wal : AppendOnlyLog) (active : List (TxnId × ℕ)) : Passes wal active wal
  | within {wal wal' : AppendOnlyLog} {entry : TxnId × ℕ} {active : List (TxnId × ℕ)} {current : ℕ}
      (hrounds : Relation.ReflTransGen LogRound (wal, entry.2) (wal', current)) :
      Passes wal (entry :: active) wal'
  /-- A transaction that met its rollback record gets no second one. -/
  | ended {wal wal₁ wal' : AppendOnlyLog} {entry : TxnId × ℕ} {active : List (TxnId × ℕ)}
      {current : ℕ} (hrounds : Relation.ReflTransGen LogRound (wal, entry.2) (wal₁, current))
      (hrest : Passes wal₁ active wal') : Passes wal (entry :: active) wal'
  | marked {wal wal₁ wal' : AppendOnlyLog} {entry : TxnId × ℕ} {active : List (TxnId × ℕ)}
      (hrounds : Relation.ReflTransGen LogRound (wal, entry.2) (wal₁, 0))
      (hrest : Passes (wal₁.push { prevLsn := 0, txnId := entry.1, body := .rollbackTxn }).flush
        active wal') :
      Passes wal (entry :: active) wal'

/-- The loop goes round in such rounds. -/
theorem rounds_of_undoLoop {rounds current : ℕ} {s s' : UndoState} {seen : Bool}
    (h : undoLoop rounds s current = .ok (s', seen)) :
    ∃ last, Relation.ReflTransGen LogRound (s.wal, current) (s'.wal, last)
      ∧ (seen = false → last = 0) := by
  induction rounds generalizing s current with
  | zero => cases h
  | succ rounds ih =>
    unfold undoLoop at h
    split_ifs at h with hzero
    · obtain ⟨rfl, rfl⟩ := Prod.mk.inj (Except.ok.inj h)
      exact ⟨current, .refl, fun _ => hzero⟩
    obtain ⟨record, hread, h⟩ := bind_eq_ok.mp h
    split_ifs at h with hbody
    · obtain ⟨rfl, rfl⟩ := Prod.mk.inj (Except.ok.inj h)
      exact ⟨current, .refl, fun hseen => by cases hseen⟩
    cases hnext : record.body.undoNext with
    | some undoNextLsn =>
      rw [hnext] at h
      obtain ⟨last, hrounds, hlast⟩ := ih (s := { s with txnPrevLsn := record.lsn }) h
      exact ⟨last, .head (.compensated hread hnext) hrounds, hlast⟩
    | none =>
      rw [hnext] at h
      obtain ⟨s₁, hundo, h⟩ := bind_eq_ok.mp h
      obtain ⟨last, hrounds, hlast⟩ := ih h
      refine ⟨last, ?_, hlast⟩
      rcases undoRecord_wal hundo with hwal | ⟨clr, txnPrevLsn, hclr, hwal⟩
      · rw [hwal] at hrounds
        exact .head (.passed hread hnext) hrounds
      · rw [hwal] at hrounds
        exact .head (.undone hread hclr) hrounds

/-- **Undo that comes to its end** has come by the log it leaves. -/
theorem passes_of_undo {active : List (TxnId × ℕ)} {disk disk' : Disk} {wal wal' : AppendOnlyLog}
    (h : undo disk wal active = .ok (disk', wal')) : Passes wal active wal' := by
  induction active generalizing disk wal with
  | nil =>
    obtain ⟨-, rfl⟩ := Prod.mk.inj (Except.ok.inj h)
    exact .here wal []
  | cons entry active ih =>
    obtain ⟨disk₁, wal₁, htxn, hrest⟩ := undo_cons h
    unfold undoTxn at htxn
    obtain ⟨⟨s, seen⟩, hloop, htxn⟩ := bind_eq_ok.mp htxn
    obtain ⟨last, hrounds, hlast⟩ := rounds_of_undoLoop hloop
    cases seen with
    | true =>
      obtain ⟨-, rfl⟩ := Prod.mk.inj (Except.ok.inj htxn)
      exact .ended hrounds (ih hrest)
    | false =>
      obtain ⟨-, rfl⟩ := Prod.mk.inj (Except.ok.inj htxn)
      obtain rfl := hlast rfl
      exact .marked hrounds (ih hrest)

/-- **A round keeps the links**, and stays within the log. -/
theorem LinksBack.logRound {c c' : AppendOnlyLog × ℕ} (h : LogRound c c')
    (hlinks : LinksBack c.1.kept) :
    LinksBack c'.1.kept ∧ c.1.kept <+: c'.1.kept := by
  cases h with
  | compensated => exact ⟨hlinks, List.prefix_rfl⟩
  | passed => exact ⟨hlinks, List.prefix_rfl⟩
  | @undone wal current record clr hread hclr =>
    exact ⟨hlinks.pushClr (mem_of_readLog hread) hclr 0 record.txnId, List.prefix_append _ _⟩

theorem LinksBack.rounds {c c' : AppendOnlyLog × ℕ} (h : Relation.ReflTransGen LogRound c c')
    (hlinks : LinksBack c.1.kept) : LinksBack c'.1.kept ∧ c.1.kept <+: c'.1.kept := by
  induction h with
  | refl => exact ⟨hlinks, List.prefix_rfl⟩
  | tail _ hround ih =>
    obtain ⟨hlinks', hpre⟩ := LinksBack.logRound hround ih.1
    exact ⟨hlinks', ih.2.trans hpre⟩

/-- **Undo keeps the links**, wherever it stops. -/
theorem LinksBack.passes {wal wal' : AppendOnlyLog} {active : List (TxnId × ℕ)}
    (h : Passes wal active wal') (hlinks : LinksBack wal.kept) :
    LinksBack wal'.kept ∧ wal.kept <+: wal'.kept := by
  induction h with
  | here => exact ⟨hlinks, List.prefix_rfl⟩
  | within hrounds => exact LinksBack.rounds hrounds hlinks
  | ended hrounds _ ih =>
    obtain ⟨hlinks', hpre⟩ := LinksBack.rounds hrounds hlinks
    exact ⟨(ih hlinks').1, hpre.trans (ih hlinks').2⟩
  | marked hrounds _ ih =>
    obtain ⟨hlinks', hpre⟩ := LinksBack.rounds hrounds hlinks
    have hmarked := ih (hlinks'.push (Nat.zero_le _) fun _ hlsn => (nomatch hlsn))
    exact ⟨hmarked.1, (hpre.trans (List.prefix_append _ _)).trans hmarked.2⟩

end RecoveryManager

/-! ## Histories with crashes -/

/-- Where a database is in its history: it is served by an instance, or there
are only its files, whose clock says which ids have been handed out. -/
inductive DbPhase where
  | serving (s : TxnSystem)
  | stopped (logs : List WalRecord) (clock : ℕ)

/-- What can happen to a database. -/
inductive PhaseAction where
  | work (a : TxnAction)
  | crash
  | interruptedRecovery
  | opening

open RecoveryManager History StdDbInstance in
/-- **A step of a history.** A crash leaves the log up to the end of some
record, with what was durable in any case. A recovery can be interrupted at any
of the logs it comes by, and the crash that does so is one like any other; it
can also come to its end, whatever the files are. -/
inductive PhaseStep : DbPhase → PhaseAction → DbPhase → Prop
  | work {s s' : TxnSystem} {a : TxnAction} (h : TxnStep s a s') :
      PhaseStep (.serving s) (.work a) (.serving s')
  | crash {s : TxnSystem} {n : ℕ} (hn : s.db.wal.durable ≤ n) :
      PhaseStep (.serving s) .crash (.stopped (s.db.wal.kept.take n) s.db.clock)
  | interruptedRecovery {logs : List WalRecord} {clock clock' n : ℕ}
      {visit : List (TxnId × ℕ) → List (TxnId × ℕ)} {wal : AppendOnlyLog}
      (hvisit : ∀ active, (visit active).Perm active)
      (h : Passes ⟨logs, logs.length⟩ (visit (activeTxns logs)) wal) (hn : logs.length ≤ n)
      (hclock : clock ≤ clock') :
      PhaseStep (.stopped logs clock) .interruptedRecovery (.stopped (wal.kept.take n) clock')
  | opening {logs : List WalRecord} {clock : ℕ} {disk : Disk} {db : StdDbInstance}
      (h : Opens disk ⟨logs, logs.length⟩ clock db) :
      PhaseStep (.stopped logs clock) .opening (.serving ⟨db, fun _ => none⟩)

namespace DbPhase

open RecoveryManager History StdDbInstance AppendOnlyLog TxnSystem

/-- **The links of a history lead back**, and no transaction is ahead of the
log. -/
def Linked : DbPhase → Prop
  | serving s => LinksBack s.db.wal.kept
      ∧ ∀ txnId txn, s.txns txnId = some txn → txn.lastLsn ≤ s.db.wal.kept.length
  | stopped logs _ => LinksBack logs

/-- The record that a call of a transaction appends is not a compensation
record. -/
theorem appended_of_run {db db' : StdDbInstance} {txn : Transaction} {c : TxnCall}
    (hc : c.Describes) (h : c.run { db with txn := txn } = .ok () db') :
    ∃ body, body.undoNext = none ∧ db'.wal.kept
      = (db.wal.push { prevLsn := txn.lastLsn, txnId := txn.id, body := body }).kept := by
  cases c with
  | begin =>
    have hends : Ensures Transaction.begin { db with txn := txn } (fun _ db' =>
        db'.wal.kept = (db.wal.push
          { prevLsn := txn.lastLsn, txnId := txn.id, body := .beginTxn }).kept)
        fun _ _ => True := by
      unfold Transaction.begin
      rw [ensures_bind, ensures_get]
      split_ifs
      · trivial
      · exact rfl
    exact ⟨.beginTxn, rfl, hends.of_ok h⟩
  | append body =>
    have hends : Ensures (Transaction.appendLog body) { db with txn := txn } (fun _ db' =>
        db'.wal.kept = (db.wal.push
          { prevLsn := txn.lastLsn, txnId := txn.id, body := body }).kept)
        fun _ _ => True := by
      unfold Transaction.appendLog
      rw [ensures_bind, ensures_get]
      split_ifs
      · trivial
      · exact rfl
    obtain ⟨clr, hclr⟩ := Option.isSome_iff_exists.mp hc
    exact ⟨body, (undoNext_makeClr hclr).2, hends.of_ok h⟩
  | commit =>
    have hends : Ensures Transaction.commit { db with txn := txn } (fun _ db' =>
        db'.wal.kept = (db.wal.push
          { prevLsn := txn.lastLsn, txnId := txn.id, body := .commitTxn }).kept)
        fun _ _ => True := by
      unfold Transaction.commit Transaction.commitLog
      simp only [ensures_bind, ensures_get]
      split_ifs
      · trivial
      · exact rfl
    exact ⟨.commitTxn, rfl, hends.of_ok h⟩

/-- **A call of a transaction** writes a record that leads to its last one. -/
theorem Linked.call {s : TxnSystem} (h : Linked (.serving s)) {txnId : TxnId} {txn : Transaction}
    {c : TxnCall} {db' : StdDbInstance} (htxn : s.txns txnId = some txn) (hc : c.Describes)
    (hrun : c.run { s.db with txn := txn } = .ok () db') :
    Linked (.serving ⟨db', Function.update s.txns txnId (some db'.txn)⟩) := by
  obtain ⟨hlinks, htxns⟩ := h
  obtain ⟨body, hbody, hkept⟩ := appended_of_run hc hrun
  have happ := appends_of_run hc hrun
  refine ⟨?_, fun id t ht => ?_⟩
  · show LinksBack db'.wal.kept
    rw [hkept]
    refine hlinks.push (htxns txnId txn htxn) fun lsn hlsn => ?_
    rw [show body.undoNext = some lsn from hlsn] at hbody
    cases hbody
  · show t.lastLsn ≤ db'.wal.kept.length
    have hlength : db'.wal.kept.length = s.db.wal.kept.length + 1 := by
      rw [hkept]
      exact List.length_append
    rw [hlength]
    change Function.update s.txns txnId (some db'.txn) id = some t at ht
    rw [Function.update_apply] at ht
    split_ifs at ht with heq
    · obtain rfl := Option.some.inj ht
      exact happ.lastLsn.le
    · exact (htxns id t ht).trans (Nat.le_succ _)

/-- Opening a database keeps the links of its log. -/
theorem linked_of_opens {disk : Disk} {wal : AppendOnlyLog} {clock : ℕ} {db : StdDbInstance}
    (hlinks : LinksBack wal.kept) (h : Opens disk wal clock db) :
    Linked (.serving ⟨db, fun _ => none⟩) := by
  cases h with
  | @intro visit disk' wal' clock' hvisit hrecover hclock listing generator =>
    obtain ⟨disk₁, -, hundo⟩ := recover_eq_ok hrecover
    exact ⟨(LinksBack.passes (passes_of_undo hundo) hlinks).1, fun _ _ ht => (nomatch ht)⟩

/-- **Every step keeps the links.** -/
theorem Linked.step {p p' : DbPhase} {a : PhaseAction} (h : Linked p) (hstep : PhaseStep p a p') :
    Linked p' := by
  cases hstep with
  | @work s s' a hwork =>
    cases hwork with
    | @make db' hmake =>
      obtain rfl : _ = db' := (EStateM.Result.ok.inj hmake).2
      refine ⟨h.1, fun id t ht => ?_⟩
      change Function.update s.txns s.db.clock (some { id := s.db.clock }) id = some t at ht
      rw [Function.update_apply] at ht
      split_ifs at ht with heq
      · obtain rfl := Option.some.inj ht
        exact Nat.zero_le _
      · exact h.2 id t ht
    | call htxn hc hrun => exact h.call htxn hc hrun
    | flush => exact h
    | restart hopens => exact linked_of_opens (h.1.take _) hopens
  | crash => exact h.1.take _
  | interruptedRecovery hvisit hpasses =>
    exact (LinksBack.passes hpasses h).1.take _
  | @opening logs clock disk db hopens =>
    have hlinks : LinksBack (AppendOnlyLog.mk logs logs.length).kept := h
    exact linked_of_opens hlinks hopens

/-- **The links of every history lead back.** -/
theorem linksBack_of_run {generator : UUIDGenerator} {as : List PhaseAction}
    {logs : List WalRecord} {clock : ℕ}
    (hrun : Run PhaseStep (.serving { db := { generator } }) as (.stopped logs clock)) :
    LinksBack logs :=
  hrun.invariant (P := Linked) (fun _ _ _ h hstep => h.step hstep)
    ⟨linksBack_nil, fun _ _ ht => (nomatch ht)⟩

/-- **Undo goes down the log and ends.** In every history of a database, with
crashes at the end of any record and recoveries that were interrupted anywhere,
whatever the files are, undo asks for strictly decreasing LSNs within each
transaction, each of a record of the log, and its loop ends. -/
theorem undo_descends {generator : UUIDGenerator} {as : List PhaseAction}
    {logs : List WalRecord} {clock : ℕ}
    (hrun : Run PhaseStep (.serving { db := { generator } }) as (.stopped logs clock))
    {visit : List (TxnId × ℕ) → List (TxnId × ℕ)} (hvisit : ∀ active, (visit active).Perm active)
    {disk disk' : Disk} {wal : AppendOnlyLog} {before after : List (TxnId × ℕ)}
    {entry : TxnId × ℕ} (hactive : visit (activeTxns logs) = before ++ entry :: after)
    (hbefore : undo disk ⟨logs, logs.length⟩ before = .ok (disk', wal)) :
    ∃ lsns outcome, Visits ⟨disk', wal, entry.2⟩ entry.2 lsns outcome
      ∧ lsns.Pairwise (· > ·) ∧ (∀ lsn ∈ lsns, ∃ r ∈ wal.kept, r.lsn = lsn)
      ∧ ∀ rounds, wal.kept.length < rounds →
        undoLoop rounds ⟨disk', wal, entry.2⟩ entry.2 = outcome := by
  have hlinks := linksBack_of_run hrun
  obtain ⟨hwal, hpre⟩ := LinksBack.passes (passes_of_undo hbefore) hlinks
  have hmem : entry ∈ activeTxns logs :=
    (hvisit _).subset (hactive ▸ List.mem_append_right before List.mem_cons_self)
  obtain ⟨r, hr, -, hlsn⟩ := exists_of_mem_getLastLsns (List.mem_filter.mp hmem).1
  have hle : entry.2 ≤ wal.kept.length :=
    (hlsn ▸ (hlinks.numbered.lsn_bounds hr).2).trans hpre.length_le
  obtain ⟨lsns, outcome, hvisits, hpairwise, hbound, hlength⟩ :=
    hwal.exists_visits (s := ⟨disk', wal, entry.2⟩) hle
  refine ⟨lsns, outcome, hvisits, hpairwise, fun lsn hmem => ?_, fun rounds hrounds =>
    hvisits.undoLoop ((hlength.trans hle).trans_lt hrounds)⟩
  obtain ⟨r, hr, hlsn, -⟩ := exists_readLog hwal.numbered (Nat.ne_of_gt (hbound lsn hmem).1)
    ((hbound lsn hmem).2.trans hle)
  exact ⟨r, hr, hlsn⟩

/-- A log whose transaction has been undone in part: the insert is compensated,
and the rollback record is missing. -/
def partlyUndone : List WalRecord :=
  [{ lsn := 1, txnId := 1, body := .beginTxn },
    { lsn := 2, prevLsn := 1, txnId := 1, body := .insert 4 7 {} },
    { lsn := 3, txnId := 1, body := .clrInsert 4 7 1 {} }]

/-- A transaction begins and inserts a row; the database crashes, and crashes
again while it recovers. -/
theorem run_partlyUndone : Run PhaseStep (.serving {})
    [.work .make, .work (.call 1 .begin), .work .flush, .work (.call 1 (.append (.insert 4 7 {}))),
      .crash, .interruptedRecovery] (.stopped partlyUndone 2) := by
  have htxn : oneBegun.txns 1 = some { id := 1, state := .active, lastLsn := 1 } := rfl
  have hinsert := TxnStep.call (c := .append (.insert 4 7 {})) htxn rfl rfl
  have hread : AppendOnlyLog.readLog ⟨partlyUndone.take 2, 2⟩ 2
      = .ok { lsn := 2, prevLsn := 1, txnId := 1, body := .insert 4 7 {} } := rfl
  have hround : LogRound (⟨partlyUndone.take 2, 2⟩, 2) (⟨partlyUndone, 3⟩, 1) := .undone hread rfl
  have hpasses : Passes ⟨partlyUndone.take 2, 2⟩ (id (activeTxns (partlyUndone.take 2)))
      ⟨partlyUndone, 3⟩ := .within (.single hround)
  have hwork : Run PhaseStep (.serving {}) [.work .make, .work (.call 1 .begin), .work .flush]
      (.serving oneBegun) := by
    have hmake : TxnStep {} .make oneTxn := .make rfl
    have htxn : oneTxn.txns 1 = some { id := 1 } := rfl
    exact .cons (.work hmake) (.cons (.work (.call htxn trivial rfl)) (.single (.work (.flush _))))
  refine hwork.append (.cons (.work hinsert) (.cons (.crash (n := 2) (by decide)) (.single ?_)))
  exact .interruptedRecovery (n := 3) (fun active => (.refl active : (id active).Perm active))
    hpasses (by decide) le_rfl

/-- Undo of that transaction goes from the compensation record to the begin
record. -/
theorem undo_descends_partlyUndone : ∃ lsns outcome,
    Visits ⟨{}, ⟨partlyUndone, 3⟩, 3⟩ 3 lsns outcome
      ∧ lsns.Pairwise (· > ·) ∧ (∀ lsn ∈ lsns, ∃ r ∈ partlyUndone, r.lsn = lsn)
      ∧ ∀ rounds, partlyUndone.length < rounds →
        undoLoop rounds ⟨{}, ⟨partlyUndone, 3⟩, 3⟩ 3 = outcome := by
  have hvisit : ∀ active : List (TxnId × ℕ), (id active).Perm active := fun active => .refl active
  have hactive : id (activeTxns partlyUndone) = [] ++ (1, 3) :: [] := rfl
  have hbefore : undo {} ⟨partlyUndone, 3⟩ [] = .ok ({}, ⟨partlyUndone, 3⟩) := rfl
  exact undo_descends run_partlyUndone hvisit hactive hbefore

end DbPhase
