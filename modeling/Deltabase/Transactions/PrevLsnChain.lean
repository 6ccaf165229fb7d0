import Deltabase.Storage.OpenInstance

/-!
# The records of a transaction

Every record names, in `prev_lsn`, the record before it of its transaction. The
transactions of an instance keep this up, each with the LSN of its own last
record, however their calls interleave. Undo does not: it puts the LSN of the
record before into `lsn`, which the log manager overwrites, and leaves
`prev_lsn` at `0` in every record it writes.

`TxnStep` is the system the transactions live in: transactions are made, begun,
appended to and committed in any order, and the database is closed or crashes
and is opened again.
-/

namespace History

open RecoveryManager

/-- The LSN of the last record of a transaction; `0` when it has none. -/
def lastLsnOf (txnId : TxnId) (logs : List WalRecord) : ℕ :=
  logs.foldl (fun lsn r => if r.txnId = txnId then r.lsn else lsn) 0

/-- **Every record names the one before it** of its transaction. -/
def PrevContinuous (logs : List WalRecord) : Prop :=
  ∀ before r after, logs = before ++ r :: after → r.prevLsn = lastLsnOf r.txnId before

theorem lastLsnOf_snoc (txnId : TxnId) (logs : List WalRecord) (r : WalRecord) :
    lastLsnOf txnId (logs ++ [r]) = if r.txnId = txnId then r.lsn else lastLsnOf txnId logs :=
  List.foldl_concat ..

/-- A transaction without records has none that could be named. -/
theorem lastLsnOf_eq_zero {txnId : TxnId} {logs : List WalRecord}
    (h : ∀ r ∈ logs, r.txnId ≠ txnId) : lastLsnOf txnId logs = 0 := by
  induction logs using List.reverseRecOn with
  | nil => rfl
  | append_singleton logs r ih =>
    rw [lastLsnOf_snoc, if_neg (h r (by simp))]
    exact ih fun r' hr' => h r' (List.mem_append_left _ hr')

/-- A transaction with a record has a last one. -/
theorem lastLsnOf_pos {txnId : TxnId} {logs : List WalRecord} (hpos : ∀ r ∈ logs, 0 < r.lsn)
    {r : WalRecord} (hr : r ∈ logs) (htxn : r.txnId = txnId) : 0 < lastLsnOf txnId logs := by
  induction logs using List.reverseRecOn with
  | nil => cases hr
  | append_singleton logs r' ih =>
    rw [lastLsnOf_snoc]
    split_ifs with htxn'
    · exact hpos r' (by simp)
    · rcases List.mem_append.mp hr with hr | hr
      · exact ih (fun x hx => hpos x (List.mem_append_left _ hx)) hr
      · exact absurd (List.mem_singleton.mp hr ▸ htxn) htxn'

theorem prevContinuous_nil : PrevContinuous [] := by
  intro before r after h
  simp at h

/-- One more record. -/
theorem prevContinuous_snoc {logs : List WalRecord} {r : WalRecord} :
    PrevContinuous (logs ++ [r])
      ↔ PrevContinuous logs ∧ r.prevLsn = lastLsnOf r.txnId logs := by
  constructor
  · intro h
    refine ⟨fun before r' after heq => h before r' (after ++ [r]) ?_, h logs r [] rfl⟩
    rw [heq, List.append_assoc, List.cons_append]
  · rintro ⟨hlogs, hr⟩ before r' after heq
    rcases List.eq_nil_or_concat after with rfl | ⟨after', last, rfl⟩
    · obtain ⟨rfl, hlast⟩ := List.append_inj' heq rfl
      rw [← List.singleton_inj.mp hlast]
      exact hr
    · rw [List.concat_eq_append, ← List.cons_append, ← List.append_assoc] at heq
      exact hlogs before r' after' (List.append_inj' heq rfl).1

theorem PrevContinuous.mono {logs logs' : List WalRecord} (h : PrevContinuous logs')
    (hpre : logs <+: logs') : PrevContinuous logs := by
  obtain ⟨rest, rfl⟩ := hpre
  intro before r after heq
  refine h before r (after ++ rest) ?_
  rw [heq, List.append_assoc, List.cons_append]

/-- The transactions of a log that have not ended. -/
def activeTxns (logs : List WalRecord) : List (TxnId × ℕ) :=
  getActiveTxns (getLastLsns logs) (getCommitLsns logs) (getRollbackLsns logs)

/-- A transaction that has not ended has a last record. -/
theorem exists_of_mem_getLastLsns {logs : List WalRecord} {entry : TxnId × ℕ}
    (h : entry ∈ getLastLsns logs) : ∃ r ∈ logs, r.txnId = entry.1 ∧ r.lsn = entry.2 := by
  induction logs using List.reverseRecOn with
  | nil => cases h
  | append_singleton logs r ih =>
    unfold getLastLsns at h
    rw [List.foldl_concat] at h
    rcases mem_of_mem_upsert h with rfl | h
    · exact ⟨r, by simp, rfl, rfl⟩
    · obtain ⟨r', hr', hlast⟩ := ih h
      exact ⟨r', List.mem_append_left _ hr', hlast⟩

end History

namespace AppendOnlyLog

/-- **A log that has grown**, if at all, by numbered records that are durable. -/
def Grows (a b : AppendOnlyLog) : Prop :=
  b = a ∨ a.kept <+: b.kept ∧ b.durable = b.kept.length ∧ (Numbered a.kept → Numbered b.kept)

theorem Grows.trans {a b c : AppendOnlyLog} (h : Grows a b) (h' : Grows b c) : Grows a c := by
  rcases h' with rfl | ⟨hpre', hdur', hnum'⟩
  · exact h
  · rcases h with rfl | ⟨hpre, -, hnum⟩
    · exact .inr ⟨hpre', hdur', hnum'⟩
    · exact .inr ⟨hpre.trans hpre', hdur', hnum' ∘ hnum⟩

theorem grows_push_flush (a : AppendOnlyLog) (record : WalRecord) : Grows a (a.push record).flush :=
  .inr ⟨List.prefix_append _ _, rfl, fun h => h.snoc record⟩

theorem Grows.kept_le {a b : AppendOnlyLog} (h : Grows a b) : a.kept <+: b.kept := by
  rcases h with rfl | ⟨hpre, -⟩
  exacts [List.prefix_rfl, hpre]

theorem Grows.numbered {a b : AppendOnlyLog} (h : Grows a b) (hnum : Numbered a.kept) :
    Numbered b.kept := by
  rcases h with rfl | ⟨-, -, h⟩
  exacts [hnum, h hnum]

end AppendOnlyLog

namespace RecoveryManager

open FileIOManager History AppendOnlyLog

/-! ## What undo writes -/

theorem makeClr_ne_rollback {undoNextLsn : ℕ} {body clr : WalBody}
    (h : makeClr undoNextLsn body = some clr) : clr ≠ .rollbackTxn := by
  cases body <;> cases h <;> exact fun h => by cases h

/-- Undoing a record writes its compensation record, if anything. -/
theorem undoRecord_wal {s s' : UndoState} {record : WalRecord}
    (h : undoRecord s record = .ok s') :
    s'.wal = s.wal ∨ ∃ clr txnPrevLsn, makeClr record.prevLsn record.body = some clr
      ∧ s'.wal = (s.wal.push
          { lsn := txnPrevLsn, prevLsn := 0, txnId := record.txnId, body := clr }).flush := by
  unfold undoRecord at h
  cases hclr : makeClr record.prevLsn record.body with
  | none =>
    rw [hclr] at h
    obtain rfl := Except.ok.inj h
    exact .inl rfl
  | some clr =>
    rw [hclr] at h
    cases href : record.body.dataRef with
    | some ref =>
      simp only [href] at h
      cases hpage : readDataPage s.disk ref.2 with
      | none =>
        rw [hpage] at h
        obtain rfl := Except.ok.inj h
        exact .inl rfl
      | some page =>
        rw [hpage] at h
        obtain rfl := Except.ok.inj h
        exact .inr ⟨clr, s.txnPrevLsn, rfl, rfl⟩
    | none =>
      simp only [href] at h
      cases hmeta : undoMeta s.disk record.body with
      | error e => rw [hmeta] at h; cases h
      | ok disk =>
        rw [hmeta] at h
        obtain rfl := Except.ok.inj h
        exact .inr ⟨clr, s.txnPrevLsn, rfl, rfl⟩

/-- A log without a rollback record. -/
def NoRollback (logs : List WalRecord) : Prop := ∀ r ∈ logs, r.body ≠ .rollbackTxn

/-- **The loop over the records of a transaction** only adds to the log, and
meets a rollback record only when there is one. -/
theorem undoLoop_wal {rounds current : ℕ} {s s' : UndoState} {seen : Bool}
    (h : undoLoop rounds s current = .ok (s', seen)) :
    Grows s.wal s'.wal ∧ (NoRollback s.wal.kept → seen = false) := by
  induction rounds generalizing s current with
  | zero => cases h
  | succ rounds ih =>
    unfold undoLoop at h
    split_ifs at h with hzero
    · obtain ⟨rfl, rfl⟩ := Prod.mk.inj (Except.ok.inj h)
      exact ⟨.inl rfl, fun _ => rfl⟩
    · cases hread : s.wal.readLog current with
      | error e => rw [hread] at h; cases h
      | ok record =>
        rw [hread] at h
        have hmem : record ∈ s.wal.kept := mem_of_readLog hread
        simp only [bind, Except.bind] at h
        split_ifs at h with hrollback
        · obtain ⟨rfl, rfl⟩ := Prod.mk.inj (Except.ok.inj h)
          exact ⟨.inl rfl, fun hno => absurd hrollback (hno record hmem)⟩
        · cases hnext : record.body.undoNext with
          | some undoNextLsn =>
            rw [hnext] at h
            exact ih (s := { s with txnPrevLsn := record.lsn }) h
          | none =>
            rw [hnext] at h
            simp only at h
            cases hundo : undoRecord s record with
            | error e => rw [hundo] at h; cases h
            | ok s₁ =>
              rw [hundo] at h
              obtain ⟨hgrows, hseen⟩ := ih h
              rcases undoRecord_wal hundo with hwal | ⟨clr, prev, hclr, hwal⟩
              · rw [hwal] at hgrows hseen
                exact ⟨hgrows, hseen⟩
              · rw [hwal] at hgrows hseen
                refine ⟨(grows_push_flush _ _).trans hgrows, fun hno => hseen fun r hr => ?_⟩
                rcases List.mem_append.mp hr with hr | hr
                · exact hno r hr
                · rw [List.mem_singleton.mp hr]
                  exact makeClr_ne_rollback hclr

/-- **What undo does for one transaction** adds to the log; without a rollback
record in the log its last addition is one, which names no record before it. -/
theorem undoTxn_wal {disk disk' : Disk} {wal wal' : AppendOnlyLog} {txnId : TxnId} {lastLsn : ℕ}
    (h : undoTxn disk wal txnId lastLsn = .ok (disk', wal')) :
    Grows wal wal' ∧ (NoRollback wal.kept → ∃ wal₁ r, Grows wal wal₁
      ∧ wal'.kept = wal₁.kept ++ [r] ∧ r.txnId = txnId ∧ r.prevLsn = 0) := by
  unfold undoTxn at h
  cases hloop : undoLoop (wal.kept.length + 1) ⟨disk, wal, lastLsn⟩ lastLsn with
  | error e => rw [hloop] at h; cases h
  | ok result =>
    obtain ⟨s, seen⟩ := result
    rw [hloop] at h
    obtain ⟨hgrows, hseen⟩ := undoLoop_wal hloop
    simp only [bind, Except.bind] at h
    split_ifs at h with hmarker
    · obtain ⟨rfl, rfl⟩ := Prod.mk.inj (Except.ok.inj h)
      exact ⟨hgrows, fun hno => by rw [hseen hno] at hmarker; cases hmarker⟩
    · obtain ⟨rfl, rfl⟩ := Prod.mk.inj (Except.ok.inj h)
      exact ⟨hgrows.trans (grows_push_flush _ _), fun _ =>
        ⟨s.wal, _, hgrows, rfl, rfl, rfl⟩⟩

theorem undo_cons {disk disk' : Disk} {wal wal' : AppendOnlyLog} {entry : TxnId × ℕ}
    {active : List (TxnId × ℕ)} (h : undo disk wal (entry :: active) = .ok (disk', wal')) :
    ∃ disk₁ wal₁, undoTxn disk wal entry.1 entry.2 = .ok (disk₁, wal₁)
      ∧ undo disk₁ wal₁ active = .ok (disk', wal') := by
  unfold undo at h
  rw [List.foldlM_cons] at h
  cases htxn : undoTxn disk wal entry.1 entry.2 with
  | error e => simp only [htxn] at h; cases h
  | ok s₁ =>
    simp only [htxn] at h
    exact ⟨s₁.1, s₁.2, rfl, h⟩

theorem undo_wal {active : List (TxnId × ℕ)} {disk disk' : Disk} {wal wal' : AppendOnlyLog}
    (h : undo disk wal active = .ok (disk', wal')) : Grows wal wal' := by
  induction active generalizing disk wal with
  | nil => exact .inl (Prod.mk.inj (Except.ok.inj h)).2.symm
  | cons entry active ih =>
    obtain ⟨disk₁, wal₁, htxn, hrest⟩ := undo_cons h
    exact (undoTxn_wal htxn).1.trans (ih hrest)

/-- Recovery is a redo pass, and undo of what has not ended. -/
theorem recover_eq_ok {visit : List (TxnId × ℕ) → List (TxnId × ℕ)} {disk disk' : Disk}
    {wal wal' : AppendOnlyLog} (h : recover 0 visit disk wal = .ok (disk', wal')) :
    ∃ disk₁, redoPass 0 wal.kept disk = .ok disk₁
      ∧ undo disk₁ wal (visit (activeTxns wal.kept)) = .ok (disk', wal') := by
  unfold recover at h
  cases hredo : redoPass 0 wal.kept disk with
  | error e => rw [hredo] at h; cases h
  | ok disk₁ =>
    rw [hredo] at h
    exact ⟨disk₁, rfl, h⟩

/-- **With nothing to undo the log stays as it is.** -/
theorem recover_wal_of_no_active {visit : List (TxnId × ℕ) → List (TxnId × ℕ)}
    {disk disk' : Disk} {wal wal' : AppendOnlyLog}
    (hvisit : ∀ active, (visit active).Perm active) (hactive : activeTxns wal.kept = [])
    (h : recover 0 visit disk wal = .ok (disk', wal')) : wal' = wal := by
  obtain ⟨disk₁, -, hundo⟩ := recover_eq_ok h
  have hvisited := hvisit (activeTxns wal.kept)
  rw [hactive] at hvisited hundo
  rw [hvisited.eq_nil] at hundo
  exact (Prod.mk.inj (Except.ok.inj hundo)).2.symm

/-- **Undo breaks the chain of the first transaction it comes to.** -/
theorem not_prevContinuous_of_active {visit : List (TxnId × ℕ) → List (TxnId × ℕ)}
    {disk disk' : Disk} {wal wal' : AppendOnlyLog}
    (hvisit : ∀ active, (visit active).Perm active) (hactive : activeTxns wal.kept ≠ [])
    (hnumbered : Numbered wal.kept) (hno : NoRollback wal.kept)
    (h : recover 0 visit disk wal = .ok (disk', wal')) :
    ¬ PrevContinuous wal'.kept ∧ wal'.durable = wal'.kept.length := by
  obtain ⟨disk₁, -, hundo⟩ := recover_eq_ok h
  have hvisited := hvisit (activeTxns wal.kept)
  cases hlist : visit (activeTxns wal.kept) with
  | nil =>
    rw [hlist] at hvisited
    exact absurd hvisited.symm.eq_nil hactive
  | cons entry active =>
    rw [hlist] at hvisited hundo
    obtain ⟨disk₂, wal₂, htxn, hrest⟩ := undo_cons hundo
    obtain ⟨hgrows, hmarker⟩ := undoTxn_wal htxn
    obtain ⟨wal₁, r, hgrows₁, hkept, hid, hprev⟩ := hmarker hno
    -- the transaction has a record, so that the marker should name one
    have hentry : entry ∈ activeTxns wal.kept := hvisited.subset List.mem_cons_self
    obtain ⟨r₀, hr₀, htxn₀, -⟩ := exists_of_mem_getLastLsns (List.mem_filter.mp hentry).1
    refine ⟨fun hall => ?_, ?_⟩
    · have hsnoc := hall.mono (undo_wal hrest).kept_le
      rw [hkept, prevContinuous_snoc, hprev, hid] at hsnoc
      have hpos := lastLsnOf_pos
        (fun x hx => ((hgrows₁.numbered hnumbered).lsn_bounds hx).1)
        (hgrows₁.kept_le.subset hr₀) htxn₀
      exact hpos.ne hsnoc.2
    · have hdur : wal₂.durable = wal₂.kept.length := by
        rcases hgrows with rfl | ⟨-, hdur, -⟩
        · have hlen := hgrows₁.kept_le.length_le
          rw [hkept, List.length_append, List.length_singleton] at hlen
          exact absurd hlen (Nat.not_succ_le_self _)
        · exact hdur
      rcases undo_wal hrest with rfl | ⟨-, hdur', -⟩
      exacts [hdur, hdur']

end RecoveryManager

/-! ## Many transactions -/

/-- A call of a transaction. -/
inductive TxnCall where
  | begin
  | append (body : WalBody)
  | commit

namespace TxnCall

open RecoveryManager

/-- What the call does, with the transaction at hand. -/
def run : TxnCall → Prog Unit
  | begin => Transaction.begin
  | append body => Transaction.appendLog body
  | commit => Transaction.commit

/-- Records that are appended describe a change of a row or of metadata, which
is what the operations of an instance append: they are the records that undo has
a compensation record for. -/
def Describes : TxnCall → Prop
  | append body => (makeClr 0 body).isSome
  | _ => True

end TxnCall

/-- An instance and the transactions made from it. -/
structure TxnSystem where
  db : StdDbInstance := {}
  txns : TxnId → Option Transaction := fun _ => none

/-- What can happen to an instance with transactions. -/
inductive TxnAction where
  | make
  | call (txnId : TxnId) (c : TxnCall)
  | flush
  /-- A restart, with the transactions it finds unfinished. -/
  | restart (active : List (TxnId × ℕ))

open StdDbInstance History in
/-- **A step of the system.** A restart finds the durable part of the log, and
whatever files there are. -/
inductive TxnStep : TxnSystem → TxnAction → TxnSystem → Prop
  | make {s : TxnSystem} {db' : StdDbInstance} (h : Transaction.makeTransaction s.db = .ok () db') :
      TxnStep s .make ⟨db', Function.update s.txns db'.txn.id (some db'.txn)⟩
  | call {s : TxnSystem} {txnId : TxnId} {c : TxnCall} {txn : Transaction} {db' : StdDbInstance}
      (htxn : s.txns txnId = some txn) (hc : c.Describes)
      (h : c.run { s.db with txn := txn } = .ok () db') :
      TxnStep s (.call txnId c) ⟨db', Function.update s.txns txnId (some db'.txn)⟩
  | flush (s : TxnSystem) : TxnStep s .flush { s with db := { s.db with wal := s.db.wal.flush } }
  | restart {s : TxnSystem} {disk : Disk} {db' : StdDbInstance}
      (h : Opens disk s.db.keptLog s.db.clock db') :
      TxnStep s (.restart (activeTxns s.db.keptLog.kept)) ⟨db', fun _ => none⟩

namespace TxnSystem

open StdDbInstance RecoveryManager History AppendOnlyLog

/-- What a call of a transaction does to the log. -/
structure Appends (db : StdDbInstance) (txn : Transaction) (db' : StdDbInstance) : Prop where
  wal : ∃ body, body ≠ .rollbackTxn ∧ db'.wal.kept
    = (db.wal.push { prevLsn := txn.lastLsn, txnId := txn.id, body := body }).kept
  durable : db'.wal.durable = db.wal.durable ∨ db'.wal.durable = db'.wal.kept.length
  id : db'.txn.id = txn.id
  lastLsn : db'.txn.lastLsn = db.wal.nextLsn
  clock : db'.clock = db.clock

/-- **Every call appends one record**, which names the transaction's last. -/
theorem appends_of_run {db db' : StdDbInstance} {txn : Transaction} {c : TxnCall}
    (hc : c.Describes) (h : c.run { db with txn := txn } = .ok () db') : Appends db txn db' := by
  cases c with
  | begin =>
    have hends : Ensures Transaction.begin { db with txn := txn } (fun _ db' => Appends db txn db')
        fun _ _ => True := by
      unfold Transaction.begin
      rw [ensures_bind, ensures_get]
      split_ifs
      · trivial
      · exact ⟨⟨.beginTxn, by simp, rfl⟩, .inl rfl, rfl, rfl, rfl⟩
    exact hends.of_ok h
  | append body =>
    have hends : Ensures (Transaction.appendLog body) { db with txn := txn }
        (fun _ db' => Appends db txn db') fun _ _ => True := by
      unfold Transaction.appendLog
      rw [ensures_bind, ensures_get]
      split_ifs
      · trivial
      · refine ⟨⟨body, ?_, rfl⟩, .inl rfl, rfl, rfl, rfl⟩
        rintro rfl
        cases hc
    exact hends.of_ok h
  | commit =>
    have hends : Ensures Transaction.commit { db with txn := txn }
        (fun _ db' => Appends db txn db') fun _ _ => True := by
      unfold Transaction.commit Transaction.commitLog
      simp only [ensures_bind, ensures_get]
      split_ifs
      · trivial
      · refine ⟨⟨.commitTxn, by simp, rfl⟩, ?_, rfl, rfl, rfl⟩
        show (if _ then _ else _) = _ ∨ (if _ then _ else _) = _
        split_ifs
        · exact .inl rfl
        · exact .inr rfl
    exact hends.of_ok h

/-- **The chains of an instance whose restarts found nothing to undo**: every
record names the one before it, every transaction has the LSN of its last record,
and there is no rollback record. -/
structure Continuous (s : TxnSystem) : Prop where
  prev : PrevContinuous s.db.wal.kept
  numbered : Numbered s.db.wal.kept
  noRollback : NoRollback s.db.wal.kept
  older : ∀ r ∈ s.db.wal.kept, r.txnId < s.db.clock
  txns : ∀ txnId txn, s.txns txnId = some txn →
    txn.id = txnId ∧ txnId < s.db.clock ∧ txn.lastLsn = lastLsnOf txnId s.db.wal.kept

/-- **A broken chain that stays**: the durable part of the log has it. -/
def Broken (s : TxnSystem) : Prop :=
  ∃ n logs, DurablePrefix n logs s.db.wal ∧ ¬ PrevContinuous logs

theorem continuous_init (generator : UUIDGenerator) : Continuous { db := { generator } } where
  prev := prevContinuous_nil
  numbered := rfl
  noRollback r hr := by cases hr
  older r hr := by cases hr
  txns txnId txn h := by cases h

/-- A call keeps the chains. -/
theorem Continuous.call {s : TxnSystem} (h : Continuous s) {txnId : TxnId} {txn : Transaction}
    {db' : StdDbInstance} (htxn : s.txns txnId = some txn) (happ : Appends s.db txn db') :
    Continuous ⟨db', Function.update s.txns txnId (some db'.txn)⟩ := by
  obtain ⟨hid, hlt, hlast⟩ := h.txns txnId txn htxn
  obtain ⟨body, hbody, hkept⟩ := happ.wal
  refine ⟨?_, ?_, ?_, ?_, fun id t ht => ?_⟩
  · rw [hkept]
    refine prevContinuous_snoc.mpr ⟨h.prev, ?_⟩
    show txn.lastLsn = lastLsnOf txn.id s.db.wal.kept
    rw [hid, hlast]
  · rw [hkept]
    exact h.numbered.snoc _
  · rw [hkept]
    intro r hr
    rcases List.mem_append.mp hr with hr | hr
    · exact h.noRollback r hr
    · rw [List.mem_singleton.mp hr]
      exact hbody
  · rw [hkept, happ.clock]
    intro r hr
    rcases List.mem_append.mp hr with hr | hr
    · exact h.older r hr
    · rw [List.mem_singleton.mp hr]
      exact hid ▸ hlt
  · show t.id = id ∧ id < db'.clock ∧ t.lastLsn = lastLsnOf id db'.wal.kept
    rw [hkept, happ.clock]
    rw [AppendOnlyLog.push, lastLsnOf_snoc]
    change Function.update s.txns txnId (some db'.txn) id = some t at ht
    rw [Function.update_apply] at ht
    split_ifs at ht with heq
    · obtain rfl := Option.some.inj ht
      rw [heq]
      exact ⟨happ.id.trans hid, hlt, happ.lastLsn.trans (if_pos hid).symm⟩
    · obtain ⟨hid', hlt', hlast'⟩ := h.txns id t ht
      exact ⟨hid', hlt', hlast'.trans (if_neg fun h => heq (h.symm.trans hid)).symm⟩

/-- **A restart that finds nothing to undo** keeps the chains. -/
theorem Continuous.restart {s : TxnSystem} (h : Continuous s) {disk : Disk} {db' : StdDbInstance}
    (hopens : Opens disk s.db.keptLog s.db.clock db')
    (hactive : activeTxns s.db.keptLog.kept = []) : Continuous ⟨db', fun _ => none⟩ := by
  cases hopens with
  | intro hvisit hrecover hclock listing generator =>
    have hwal := recover_wal_of_no_active hvisit hactive hrecover
    subst hwal
    have hsub : s.db.keptLog.kept ⊆ s.db.wal.kept := List.take_subset _ _
    exact ⟨h.prev.mono (List.take_prefix _ _), h.numbered.take _,
      fun r hr => h.noRollback r (hsub hr),
      fun r hr => (h.older r (hsub hr)).trans_le hclock, fun _ _ ht => by cases ht⟩

/-- **A restart that finds something to undo** breaks a chain for good. -/
theorem Continuous.broken {s : TxnSystem} (h : Continuous s) {disk : Disk} {db' : StdDbInstance}
    (hopens : Opens disk s.db.keptLog s.db.clock db')
    (hactive : activeTxns s.db.keptLog.kept ≠ []) : Broken ⟨db', fun _ => none⟩ := by
  cases hopens with
  | @intro visit disk' wal' clock' hvisit hrecover hclock listing generator =>
    obtain ⟨hnot, hdur⟩ := not_prevContinuous_of_active hvisit hactive (h.numbered.take _)
      (fun r hr => h.noRollback r (List.take_subset _ _ hr)) hrecover
    refine ⟨wal'.durable, wal'.kept, ⟨le_rfl, hdur.le, ?_⟩, hnot⟩
    show wal'.kept.take wal'.durable = wal'.kept
    rw [hdur, List.take_length]

/-- **A step whose restart, if it is one, finds nothing to undo** keeps the
chains. -/
theorem Continuous.step {s s' : TxnSystem} {a : TxnAction} (h : Continuous s)
    (hstep : TxnStep s a s') (hquiet : ∀ active, a = .restart active → active = []) :
    Continuous s' := by
  cases hstep with
  | @make db' hmake =>
    obtain rfl : _ = db' := (EStateM.Result.ok.inj hmake).2
    have hlt := s.db.generator.lt_next s.db.clock
    refine ⟨h.prev, h.numbered, h.noRollback, fun r hr => (h.older r hr).trans hlt,
      fun id t ht => ?_⟩
    change Function.update s.txns s.db.clock (some { id := s.db.clock }) id = some t at ht
    rw [Function.update_apply] at ht
    split_ifs at ht with heq
    · obtain rfl := Option.some.inj ht
      rw [heq]
      -- nothing in the log can be of a transaction that is made now
      exact ⟨rfl, hlt,
        (lastLsnOf_eq_zero fun r hr hid => (h.older r hr).ne hid).symm⟩
    · obtain ⟨hid, holder, hlast⟩ := h.txns id t ht
      exact ⟨hid, holder.trans hlt, hlast⟩
  | call htxn hc hrun => exact h.call htxn (appends_of_run hc hrun)
  | flush => exact ⟨h.prev, h.numbered, h.noRollback, h.older, h.txns⟩
  | restart hopens => exact h.restart hopens (hquiet _ rfl)

/-- **A chain once broken stays broken.** -/
theorem Broken.step {s s' : TxnSystem} {a : TxnAction} (h : Broken s) (hstep : TxnStep s a s') :
    Broken s' := by
  obtain ⟨n, logs, hdurable, hnot⟩ := h
  refine ⟨n, logs, ?_, hnot⟩
  have hle := hdurable.2.1
  cases hstep with
  | @make db' hmake =>
    obtain rfl : _ = db' := (EStateM.Result.ok.inj hmake).2
    exact hdurable
  | @call txnId c txn db' htxn hc hrun =>
    have happ := appends_of_run hc hrun
    have hpre : s.db.wal.kept <+: db'.wal.kept := by
      obtain ⟨body, -, hkept⟩ := happ.wal
      rw [hkept]
      exact List.prefix_append _ _
    have hlen := hpre.length_le
    refine hdurable.grow ?_ ?_ hpre
    · rcases happ.durable with hdur | hdur
      exacts [hdur.ge, hdur ▸ hle.trans hlen]
    · rcases happ.durable with hdur | hdur
      exacts [hdur ▸ hle.trans hlen, hdur.le]
  | flush => exact hdurable.step (.flush _)
  | restart hopens =>
    cases hopens with
    | intro hvisit hrecover hclock listing generator =>
      obtain ⟨disk₁, -, hundo⟩ := recover_eq_ok hrecover
      have hreopen : DurablePrefix n logs s.db.keptLog := hdurable.step (.reopen s.db.wal)
      rcases undo_wal hundo with heq | ⟨hpre, hdur, -⟩
      · show DurablePrefix n logs _
        rw [show (init _ _ _ _ listing).wal = s.db.keptLog from heq]
        exact hreopen
      · refine hreopen.grow ?_ hdur.le hpre
        exact (hreopen.2.1.trans hpre.length_le).trans hdur.ge

/-- In a broken state some record does not name the one before it. -/
theorem Broken.not_prevContinuous {s : TxnSystem} (h : Broken s) :
    ¬ PrevContinuous s.db.wal.kept := by
  obtain ⟨n, logs, ⟨-, -, rfl⟩, hnot⟩ := h
  exact fun hall => hnot (hall.mono (List.take_prefix _ _))

/-- What a run from unbroken chains leads to. -/
theorem Continuous.run_iff {s₀ s : TxnSystem} {as : List TxnAction} (h₀ : Continuous s₀)
    (hrun : Run TxnStep s₀ as s) :
    PrevContinuous s.db.wal.kept ↔ ∀ active, .restart active ∈ as → active = [] := by
  induction hrun with
  | nil s => exact ⟨fun _ _ hmem => absurd hmem List.not_mem_nil, fun _ => h₀.prev⟩
  | @cons s₀ s₁ s a as hstep hrest ih =>
    by_cases hquiet : ∀ active, a = .restart active → active = []
    · rw [ih (h₀.step hstep hquiet)]
      refine forall_congr' fun active => ⟨fun h hmem => ?_, fun h hmem =>
        h (List.mem_cons_of_mem a hmem)⟩
      rcases List.mem_cons.mp hmem with heq | hmem
      exacts [hquiet active heq.symm, h hmem]
    · -- the restart breaks a chain, and what follows does not mend it
      push Not at hquiet
      obtain ⟨active, rfl, hactive⟩ := hquiet
      have hbroken : Broken s₁ := by
        cases hstep with
        | restart hopens => exact h₀.broken hopens hactive
      have hend : Broken s :=
        hrest.invariant (P := Broken) (fun _ _ _ hs hstep => hs.step hstep) hbroken
      exact ⟨fun h => absurd h hend.not_prevContinuous, fun h =>
        absurd (h active List.mem_cons_self) hactive⟩

end TxnSystem

section

open TxnSystem History StdDbInstance

/-- **Records name the record before them exactly as long as there was nothing
to undo.** In every run of an instance, with any number of transactions whose
calls come in any order and any number of restarts, every record of the log names
the record before it of its transaction if and only if no restart found a
transaction in the log that had not ended. -/
theorem prevContinuous_iff {generator : UUIDGenerator} {as : List TxnAction} {s : TxnSystem}
    (hrun : Run TxnStep { db := { generator } } as s) :
    PrevContinuous s.db.wal.kept ↔ ∀ active, .restart active ∈ as → active = [] :=
  (continuous_init generator).run_iff hrun

/-- The system after a transaction has been made. -/
def oneTxn : TxnSystem where
  db := { clock := 2, txn := { id := 1 } }
  txns := Function.update (fun _ => none) 1 (some { id := 1 })

/-- A transaction that has begun, and whose begin record is durable. -/
def oneBegun : TxnSystem where
  db :=
    { clock := 2
      txn := { id := 1, state := .active, lastLsn := 1 }
      wal := { kept := [{ lsn := 1, txnId := 1, body := .beginTxn }], durable := 1 } }
  txns := Function.update (Function.update (fun _ => none) 1 (some { id := 1 })) 1
    (some { id := 1, state := .active, lastLsn := 1 })

/-- A database without files is listed as one. -/
def emptyListing : FileIOManager.DirectoryListing {} :=
  .upTo {} 0 (fun _ _ h => by cases h) (fun _ _ h => by cases h)

/-- The instance that is opened on the log of `oneBegun`: undo has written a
rollback record. -/
def oneUndone : StdDbInstance :=
  init {} 2 {} { kept := [{ lsn := 1, txnId := 1, body := .beginTxn },
    { lsn := 2, txnId := 1, body := .rollbackTxn }], durable := 2 } emptyListing

/-- The steps to a transaction that has begun. -/
theorem run_oneBegun : Run TxnStep {} [.make, .call 1 .begin, .flush] oneBegun := by
  have hmake : TxnStep {} .make oneTxn := .make rfl
  have htxn : oneTxn.txns 1 = some { id := 1 } := rfl
  exact .cons hmake (.cons (.call htxn trivial rfl) (.single (.flush _)))

/-- Undo writes a record that names none. -/
theorem opens_oneUndone : Opens {} oneBegun.db.keptLog 2 oneUndone :=
  .intro (fun active => (.refl active : (id active).Perm active)) rfl le_rfl emptyListing _

/-- **The rollback record of a transaction that was begun names no record.** -/
theorem not_prevContinuous_rollback :
    ¬ ∀ (as : List TxnAction) (s : TxnSystem), Run TxnStep {} as s →
      PrevContinuous s.db.wal.kept := by
  intro h
  have hall := h _ _ (run_oneBegun.append (.single (.restart opens_oneUndone)))
  have hlast := hall [{ lsn := 1, txnId := 1, body := .beginTxn }]
    { lsn := 2, txnId := 1, body := .rollbackTxn } [] rfl
  exact absurd hlast (by decide)

/-- A transaction that has begun, without a restart. -/
theorem prevContinuous_oneBegun : PrevContinuous oneBegun.db.wal.kept :=
  (prevContinuous_iff run_oneBegun).mpr fun active hmem => by simp at hmem

end
