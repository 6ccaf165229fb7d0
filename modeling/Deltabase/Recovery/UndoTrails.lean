import Deltabase.Recovery.RedoPass
import Deltabase.Recovery.UndoDescent

/-!
# What undo has before it

The records of a transaction are linked, each to the one before it, and undo
follows the links. A compensation record is a shortcut: it leads past the record
it compensates, so that a recovery that finds compensation records in the log
goes on where the one before it was stopped.

`toUndo` is the list of the records that undo still has to take back for a
transaction, the last one first. `Trail` is the same as a relation, which knows
that the links stay within the transaction (`OwnLinks`).
-/

namespace History

open RecoveryManager AppendOnlyLog

variable {logs logs' : List WalRecord} {txnId : TxnId} {r : WalRecord}

/-! ## Transactions without an end -/

/-- **A transaction that has not ended**: it has records, and none of them is a
commit or a rollback record. -/
def Unfinished (logs : List WalRecord) (txnId : TxnId) : Prop :=
  (∃ r ∈ logs, r.txnId = txnId)
    ∧ ∀ r ∈ logs, r.txnId = txnId → r.body ≠ .commitTxn ∧ r.body ≠ .rollbackTxn

instance (logs : List WalRecord) (txnId : TxnId) : Decidable (Unfinished logs txnId) := by
  unfold Unfinished
  infer_instance

theorem lsnsOf_eq_none {kind : WalBody} :
    lsnsOf kind logs txnId = none ↔ ∀ r ∈ logs, r.txnId = txnId → r.body ≠ kind := by
  induction logs using List.reverseRecOn with
  | nil => exact ⟨fun _ r hr => absurd hr List.not_mem_nil, fun _ => rfl⟩
  | append_singleton logs r ih =>
    rw [lsnsOf_snoc, List.forall_mem_append, List.forall_mem_singleton]
    split_ifs with hkind
    · rw [Function.update_apply]
      by_cases htxn : txnId = r.txnId
      · rw [if_pos htxn]
        exact ⟨fun h => absurd h (Option.some_ne_none _), fun h => absurd hkind (h.2 htxn.symm)⟩
      · rw [if_neg htxn, ih]
        exact ⟨fun h => ⟨h, fun heq => absurd heq.symm htxn⟩, And.left⟩
    · rw [ih]
      exact ⟨fun h => ⟨h, fun _ => hkind⟩, And.left⟩

theorem nodup_getLastLsns (logs : List WalRecord) : ((getLastLsns logs).map Prod.fst).Nodup := by
  induction logs using List.reverseRecOn with
  | nil => exact List.nodup_nil
  | append_singleton logs r ih =>
    unfold getLastLsns
    rw [List.foldl_concat]
    exact nodup_upsert ih

theorem mem_getLastLsns {entry : TxnId × ℕ} :
    entry ∈ getLastLsns logs
      ↔ (∃ r ∈ logs, r.txnId = entry.1) ∧ entry.2 = lastLsnOf entry.1 logs := by
  induction logs using List.reverseRecOn with
  | nil =>
    refine ⟨fun h => absurd h List.not_mem_nil, fun h => ?_⟩
    obtain ⟨r, hr, -⟩ := h.1
    cases hr
  | append_singleton logs r ih =>
    have hfold : getLastLsns (logs ++ [r])
        = upsert Prod.fst (r.txnId, r.lsn) (getLastLsns logs) := List.foldl_concat ..
    rw [hfold, mem_upsert_iff_of_nodup (nodup_getLastLsns logs), ih, lastLsnOf_snoc]
    by_cases htxn : r.txnId = entry.1
    · rw [if_pos htxn]
      constructor
      · rintro (rfl | ⟨-, hne⟩)
        · exact ⟨⟨r, by simp, rfl⟩, rfl⟩
        · exact absurd htxn.symm hne
      · rintro ⟨-, hlsn⟩
        exact .inl (Prod.ext htxn.symm hlsn)
    · rw [if_neg htxn]
      constructor
      · rintro (rfl | ⟨⟨⟨r', hr', htxn'⟩, hlsn⟩, -⟩)
        · exact absurd rfl htxn
        · exact ⟨⟨r', List.mem_append_left _ hr', htxn'⟩, hlsn⟩
      · rintro ⟨⟨r', hr', htxn'⟩, hlsn⟩
        rcases List.mem_append.mp hr' with hr' | hr'
        · exact .inr ⟨⟨⟨r', hr', htxn'⟩, hlsn⟩, Ne.symm htxn⟩
        · exact absurd (List.mem_singleton.mp hr' ▸ htxn') htxn

/-- **What undo is started with**: the transactions that have not ended, each
with the LSN of its last record. -/
theorem mem_activeTxns {entry : TxnId × ℕ} :
    entry ∈ activeTxns logs ↔ Unfinished logs entry.1 ∧ entry.2 = lastLsnOf entry.1 logs := by
  unfold activeTxns getActiveTxns
  rw [List.mem_filter, mem_getLastLsns, Bool.and_eq_true, Option.isNone_iff_eq_none,
    Option.isNone_iff_eq_none]
  unfold getCommitLsns getRollbackLsns Unfinished
  rw [lsnsOf_eq_none, lsnsOf_eq_none]
  constructor
  · rintro ⟨⟨hrec, hlsn⟩, hcommit, hrollback⟩
    exact ⟨⟨hrec, fun r hr htxn => ⟨hcommit r hr htxn, hrollback r hr htxn⟩⟩, hlsn⟩
  · rintro ⟨⟨hrec, hends⟩, hlsn⟩
    exact ⟨⟨hrec, hlsn⟩, fun r hr htxn => (hends r hr htxn).1, fun r hr htxn =>
      (hends r hr htxn).2⟩

theorem nodup_activeTxns (logs : List WalRecord) : ((activeTxns logs).map Prod.fst).Nodup :=
  (nodup_getLastLsns logs).sublist (List.filter_sublist.map Prod.fst)

/-- With nothing unfinished there is nothing to undo. -/
theorem activeTxns_eq_nil_of_ended (h : ∀ txnId, ¬ Unfinished logs txnId) : activeTxns logs = [] :=
  List.eq_nil_iff_forall_not_mem.mpr fun entry hentry => h entry.1 (mem_activeTxns.mp hentry).1

/-- The last record of a transaction is one of its records. -/
theorem exists_lastLsnOf (h : ∃ r ∈ logs, r.txnId = txnId) :
    ∃ r ∈ logs, r.txnId = txnId ∧ r.lsn = lastLsnOf txnId logs := by
  have hmem : (txnId, lastLsnOf txnId logs) ∈ getLastLsns logs := mem_getLastLsns.mpr ⟨h, rfl⟩
  exact exists_of_mem_getLastLsns hmem

/-- A record of another transaction changes nothing. -/
theorem unfinished_snoc_other (h : r.txnId ≠ txnId) :
    Unfinished (logs ++ [r]) txnId ↔ Unfinished logs txnId := by
  unfold Unfinished
  simp only [List.mem_append, List.mem_singleton, or_imp, forall_and, or_and_right, exists_or,
    forall_eq, exists_eq_left, h, or_false, false_imp_iff, and_true]

/-- A record that is no end leaves its transaction unfinished. -/
theorem Unfinished.snoc (h : Unfinished logs txnId)
    (hbody : r.body ≠ .commitTxn ∧ r.body ≠ .rollbackTxn) : Unfinished (logs ++ [r]) txnId := by
  obtain ⟨⟨r', hr', htxn⟩, hends⟩ := h
  refine ⟨⟨r', List.mem_append_left _ hr', htxn⟩, fun r'' hr'' htxn'' => ?_⟩
  rcases List.mem_append.mp hr'' with hr'' | hr''
  · exact hends r'' hr'' htxn''
  · rw [List.mem_singleton.mp hr'']
    exact hbody

/-! ## Links within a transaction -/

/-- **No link leaves its transaction.** -/
structure OwnLinks (logs : List WalRecord) : Prop where
  prev : ∀ r ∈ logs, ∀ r' ∈ logs, r'.lsn = r.prevLsn → r'.txnId = r.txnId
  undoNext : ∀ r ∈ logs, ∀ r' ∈ logs, r.body.undoNext = some r'.lsn → r'.txnId = r.txnId

/-- The records that are still to be taken back when undo is at an LSN. -/
def trailFrom (wal : AppendOnlyLog) : ℕ → ℕ → List WalRecord
  | 0, _ => []
  | rounds + 1, lsn =>
    match wal.readLog lsn with
    | .error _ => []
    | .ok record =>
      match record.body.undoNext with
      | some undoNextLsn => trailFrom wal rounds undoNextLsn
      | none => record :: trailFrom wal rounds record.prevLsn

/-- **The records of a transaction that undo has to take back**, the last one
first. -/
def toUndo (logs : List WalRecord) (txnId : TxnId) : List WalRecord :=
  trailFrom ⟨logs, logs.length⟩ (logs.length + 1) (lastLsnOf txnId logs)

/-- **A trail**: from an LSN the links lead through these records of the
transaction, compensation records left out, and to the end. -/
inductive Trail (logs : List WalRecord) (txnId : TxnId) : ℕ → List WalRecord → Prop
  | done : Trail logs txnId 0 []
  | compensated {undoNextLsn : ℕ} {record : WalRecord} {todo : List WalRecord}
      (hmem : record ∈ logs) (htxn : record.txnId = txnId)
      (hnext : record.body.undoNext = some undoNextLsn) (hlt : undoNextLsn < record.lsn)
      (hrest : Trail logs txnId undoNextLsn todo) : Trail logs txnId record.lsn todo
  | record {record : WalRecord} {todo : List WalRecord}
      (hmem : record ∈ logs) (htxn : record.txnId = txnId) (hbody : record.body ≠ .rollbackTxn)
      (hnext : record.body.undoNext = none) (hlt : record.prevLsn < record.lsn)
      (hrest : Trail logs txnId record.prevLsn todo) :
      Trail logs txnId record.lsn (record :: todo)

/-- A log that has grown has the same trails. -/
theorem Trail.mono {lsn : ℕ} {todo : List WalRecord} (h : Trail logs txnId lsn todo)
    (hsub : logs ⊆ logs') : Trail logs' txnId lsn todo := by
  induction h with
  | done => exact .done
  | compensated hmem htxn hnext hlt _ ih => exact .compensated (hsub hmem) htxn hnext hlt ih
  | record hmem htxn hbody hnext hlt _ ih => exact .record (hsub hmem) htxn hbody hnext hlt ih

/-- A trail has records of the transaction only. -/
theorem Trail.mem {lsn : ℕ} {todo : List WalRecord} (h : Trail logs txnId lsn todo) :
    ∀ r ∈ todo, r ∈ logs ∧ r.txnId = txnId ∧ r.body.undoNext = none := by
  induction h with
  | done => exact fun r hr => by cases hr
  | compensated _ _ _ _ _ ih => exact ih
  | record hmem htxn _ hnext _ _ ih =>
    intro r hr
    rcases List.mem_cons.mp hr with rfl | hr
    exacts [⟨hmem, htxn, hnext⟩, ih r hr]

/-- A record of a numbered log is the one that is read under its LSN. -/
theorem readLog_of_mem {wal : AppendOnlyLog} (hnumbered : Numbered wal.kept) (hr : r ∈ wal.kept) :
    wal.readLog r.lsn = .ok r := by
  obtain ⟨hpos, hle⟩ := hnumbered.lsn_bounds hr
  obtain ⟨r', hr', hlsn, hread⟩ := exists_readLog hnumbered (Nat.ne_of_gt hpos) hle
  have hnodup : (wal.kept.map WalRecord.lsn).Nodup := by
    rw [hnumbered]
    exact List.nodup_range'
  rwa [List.inj_on_of_nodup_map hnodup hr' hr hlsn] at hread

/-- Nothing is before the beginning of the log. -/
theorem Trail.eq_nil_of_zero {lsn : ℕ} {todo : List WalRecord} (h : Trail logs txnId lsn todo)
    (hpos : ∀ r ∈ logs, 0 < r.lsn) (hzero : lsn = 0) : todo = [] := by
  cases h with
  | done => rfl
  | compensated hmem => exact absurd hzero (Nat.ne_of_gt (hpos _ hmem))
  | record hmem => exact absurd hzero (Nat.ne_of_gt (hpos _ hmem))

/-- **Where a record leads on a trail**: a compensation record past what it
compensates, any other record to the one before it. -/
theorem Trail.read {wal : AppendOnlyLog} (hnumbered : Numbered wal.kept) {lsn : ℕ}
    {todo : List WalRecord} (h : Trail wal.kept txnId lsn todo)
    (hread : wal.readLog lsn = .ok r) :
    r ∈ wal.kept ∧ r.txnId = txnId ∧ r.lsn = lsn
      ∧ ((∃ undoNextLsn, r.body.undoNext = some undoNextLsn ∧ undoNextLsn < lsn
          ∧ Trail wal.kept txnId undoNextLsn todo)
        ∨ r.body.undoNext = none ∧ r.body ≠ .rollbackTxn ∧ r.prevLsn < lsn
          ∧ ∃ todo', todo = r :: todo' ∧ Trail wal.kept txnId r.prevLsn todo') := by
  cases h with
  | done => exact absurd rfl (readLog_eq_ok.mp hread).1
  | compensated hmem htxn hnext hlt hrest =>
    rw [readLog_of_mem hnumbered hmem] at hread
    obtain rfl := Except.ok.inj hread
    exact ⟨hmem, htxn, rfl, .inl ⟨_, hnext, hlt, hrest⟩⟩
  | record hmem htxn hbody hnext hlt hrest =>
    rw [readLog_of_mem hnumbered hmem] at hread
    obtain rfl := Except.ok.inj hread
    exact ⟨hmem, htxn, rfl, .inr ⟨hnext, hbody, hlt, _, rfl, hrest⟩⟩

/-- **The trail is what `trailFrom` computes**, when it may go round once for
each record. -/
theorem Trail.trailFrom_eq {wal : AppendOnlyLog} (hnumbered : Numbered wal.kept) {lsn rounds : ℕ}
    {todo : List WalRecord} (h : Trail wal.kept txnId lsn todo) (hrounds : lsn < rounds) :
    trailFrom wal rounds lsn = todo := by
  induction h generalizing rounds with
  | done =>
    obtain ⟨rounds, rfl⟩ := Nat.exists_eq_succ_of_ne_zero (Nat.ne_of_gt hrounds)
    rfl
  | compensated hmem _ hnext hlt _ ih =>
    obtain ⟨rounds, rfl⟩ := Nat.exists_eq_succ_of_ne_zero (Nat.ne_of_gt (Nat.zero_lt_of_lt hrounds))
    unfold trailFrom
    rw [readLog_of_mem hnumbered hmem]
    dsimp only
    rw [hnext]
    exact ih (hlt.trans_le (Nat.le_of_lt_succ hrounds))
  | record hmem _ _ hnext hlt _ ih =>
    obtain ⟨rounds, rfl⟩ := Nat.exists_eq_succ_of_ne_zero (Nat.ne_of_gt (Nat.zero_lt_of_lt hrounds))
    unfold trailFrom
    rw [readLog_of_mem hnumbered hmem]
    dsimp only
    rw [hnext]
    dsimp only
    rw [ih (hlt.trans_le (Nat.le_of_lt_succ hrounds))]

/-- **The links of a transaction without a rollback record make a trail.** -/
theorem exists_trail (hlinks : LinksBack logs) (hown : OwnLinks logs)
    (hends : ∀ r ∈ logs, r.txnId = txnId → r.body ≠ .rollbackTxn) {lsn : ℕ}
    (hlsn : ∀ r ∈ logs, r.lsn = lsn → r.txnId = txnId) (hle : lsn ≤ logs.length) :
    ∃ todo, Trail logs txnId lsn todo := by
  have hnumbered : Numbered (AppendOnlyLog.mk logs logs.length).kept := hlinks.numbered
  induction lsn using Nat.strongRecOn with
  | ind lsn ih =>
    by_cases hpos : lsn = 0
    · subst hpos
      exact ⟨[], .done⟩
    obtain ⟨r, hr, rfl, -⟩ := exists_readLog hnumbered hpos hle
    have htxn := hlsn r hr rfl
    cases hnext : r.body.undoNext with
    | some next =>
      have hlt := hlinks.undoNext r hr next hnext
      obtain ⟨todo, htodo⟩ := ih next hlt
        (fun r' hr' heq => (hown.undoNext r hr r' hr' (heq ▸ hnext)).trans htxn)
        (hlt.le.trans hle)
      exact ⟨todo, .compensated hr htxn hnext hlt htodo⟩
    | none =>
      have hlt := hlinks.prev r hr
      obtain ⟨todo, htodo⟩ := ih r.prevLsn hlt
        (fun r' hr' heq => (hown.prev r hr r' hr' heq).trans htxn) (hlt.le.trans hle)
      exact ⟨r :: todo, .record hr htxn (hends r hr htxn) hnext hlt htodo⟩

/-- **What undo has to take back** is the trail from the transaction's last
record. -/
theorem trail_toUndo (hlinks : LinksBack logs) (hown : OwnLinks logs)
    (hunfinished : Unfinished logs txnId) :
    Trail logs txnId (lastLsnOf txnId logs) (toUndo logs txnId) := by
  obtain ⟨r, hr, htxn, hlsn⟩ := exists_lastLsnOf hunfinished.1
  have hle : lastLsnOf txnId logs ≤ logs.length := hlsn ▸ (hlinks.numbered.lsn_bounds hr).2
  have hnodup : (logs.map WalRecord.lsn).Nodup := by
    rw [hlinks.numbered]
    exact List.nodup_range'
  obtain ⟨todo, htodo⟩ := exists_trail hlinks hown (fun r hr h => (hunfinished.2 r hr h).2)
    (fun r' hr' heq => List.inj_on_of_nodup_map hnodup hr' hr (heq.trans hlsn.symm) ▸ htxn) hle
  have hnumbered : Numbered (AppendOnlyLog.mk logs logs.length).kept := hlinks.numbered
  have htrail : Trail (AppendOnlyLog.mk logs logs.length).kept txnId (lastLsnOf txnId logs) todo :=
    htodo
  have heq : toUndo logs txnId = todo := htrail.trailFrom_eq hnumbered (Nat.lt_succ_of_le hle)
  rw [heq]
  exact htodo

/-! ## Logs whose links stay within their transactions -/

theorem ownLinks_nil : OwnLinks [] :=
  ⟨fun _ hr => absurd hr List.not_mem_nil, fun _ hr => absurd hr List.not_mem_nil⟩

theorem OwnLinks.take (h : OwnLinks logs) (n : ℕ) : OwnLinks (logs.take n) :=
  ⟨fun r hr r' hr' => h.prev r (List.take_subset _ _ hr) r' (List.take_subset _ _ hr'),
    fun r hr r' hr' => h.undoNext r (List.take_subset _ _ hr) r' (List.take_subset _ _ hr')⟩

/-- A record whose links lead to records of its own transaction. -/
theorem OwnLinks.push {wal : AppendOnlyLog} (h : OwnLinks wal.kept) (hlinks : LinksBack wal.kept)
    {record : WalRecord}
    (hprev : ∀ r ∈ wal.kept, r.lsn = record.prevLsn → r.txnId = record.txnId)
    (hnext : ∀ r ∈ wal.kept, record.body.undoNext = some r.lsn → r.txnId = record.txnId) :
    OwnLinks (wal.push record).kept := by
  have hold : ∀ r ∈ wal.kept, r.lsn < wal.kept.length + 1 := fun r hr =>
    Nat.lt_succ_of_le (hlinks.numbered.lsn_bounds hr).2
  refine ⟨fun r hr r' hr' heq => ?_, fun r hr r' hr' heq => ?_⟩
  · rcases List.mem_append.mp hr with hr | hr <;> rcases List.mem_append.mp hr' with hr' | hr'
    · exact h.prev r hr r' hr' heq
    · -- no older record leads to the new one
      rw [List.mem_singleton.mp hr'] at heq
      have hlt := (hlinks.prev r hr).trans (hold r hr)
      exact absurd hlt (Nat.not_lt.mpr heq.le)
    · rw [List.mem_singleton.mp hr] at heq ⊢
      exact hprev r' hr' heq
    · rw [List.mem_singleton.mp hr, List.mem_singleton.mp hr']
  · rcases List.mem_append.mp hr with hr | hr <;> rcases List.mem_append.mp hr' with hr' | hr'
    · exact h.undoNext r hr r' hr' heq
    · rw [List.mem_singleton.mp hr'] at heq
      have hlt := (hlinks.undoNext r hr _ heq).trans (hold r hr)
      exact absurd hlt (Nat.lt_irrefl _)
    · rw [List.mem_singleton.mp hr] at heq ⊢
      exact hnext r' hr' heq
    · rw [List.mem_singleton.mp hr, List.mem_singleton.mp hr']

/-- No record has the LSN `0`. -/
theorem lsn_ne_zero {wal : AppendOnlyLog} (hlinks : LinksBack wal.kept) (hr : r ∈ wal.kept) :
    r.lsn ≠ 0 := Nat.ne_of_gt (hlinks.numbered.lsn_bounds hr).1

/-- **One round of undo** leads to records of the same transaction. -/
theorem OwnLinks.logRound {c c' : AppendOnlyLog × ℕ} (h : OwnLinks c.1.kept)
    (hlinks : LinksBack c.1.kept) (hround : LogRound c c') : OwnLinks c'.1.kept := by
  cases hround with
  | compensated => exact h
  | passed => exact h
  | @undone wal current record clr hread hclr =>
    have hmem := mem_of_readLog hread
    refine h.push hlinks (fun r hr heq => absurd heq (lsn_ne_zero hlinks hr)) fun r hr heq => ?_
    rw [(undoNext_makeClr hclr).1] at heq
    exact h.prev record hmem r hr (Option.some.inj heq).symm

theorem OwnLinks.rounds {c c' : AppendOnlyLog × ℕ} (h : OwnLinks c.1.kept)
    (hlinks : LinksBack c.1.kept) (hrounds : Relation.ReflTransGen LogRound c c') :
    OwnLinks c'.1.kept := by
  induction hrounds with
  | refl => exact h
  | tail hrounds hround ih => exact ih.logRound (LinksBack.rounds hrounds hlinks).1 hround

/-- **Undo**, wherever it stops. -/
theorem OwnLinks.passes {wal wal' : AppendOnlyLog} {active : List (TxnId × ℕ)}
    (h : OwnLinks wal.kept) (hlinks : LinksBack wal.kept) (hpasses : Passes wal active wal') :
    OwnLinks wal'.kept := by
  induction hpasses with
  | here => exact h
  | within hrounds => exact h.rounds hlinks hrounds
  | ended hrounds _ ih => exact ih (h.rounds hlinks hrounds) (LinksBack.rounds hrounds hlinks).1
  | marked hrounds _ ih =>
    have hlinks' := (LinksBack.rounds hrounds hlinks).1
    have hrollback : ∀ lsn, WalBody.undoNext .rollbackTxn ≠ some lsn := fun lsn heq => by
      cases heq
    exact ih ((h.rounds hlinks hrounds).push hlinks'
        (fun r hr heq => absurd heq (lsn_ne_zero hlinks' hr))
        fun r _ heq => absurd heq (hrollback r.lsn))
      (hlinks'.push (Nat.zero_le _) fun lsn heq => absurd heq (hrollback lsn))

end History

namespace DbPhase

open History StdDbInstance RecoveryManager AppendOnlyLog

/-- **The links of a history stay within their transactions**, and every
transaction has the LSN of a record of its own. -/
def Own : DbPhase → Prop
  | serving s => OwnLinks s.db.wal.kept ∧ ∀ txnId txn, s.txns txnId = some txn →
      ∀ r ∈ s.db.wal.kept, r.lsn = txn.lastLsn → r.txnId = txn.id
  | stopped logs _ => OwnLinks logs

theorem Own.call {s : TxnSystem} (h : Own (.serving s)) (hlinked : Linked (.serving s))
    {txnId : TxnId} {txn : Transaction} {c : TxnCall} {db' : StdDbInstance}
    (htxn : s.txns txnId = some txn) (hc : c.Describes)
    (hrun : c.run { s.db with txn := txn } = .ok () db') :
    Own (.serving ⟨db', Function.update s.txns txnId (some db'.txn)⟩) := by
  obtain ⟨body, hbody, hkept⟩ := appended_of_run hc hrun
  have happ := TxnSystem.appends_of_run hc hrun
  refine ⟨?_, fun id t ht r hr hlsn => ?_⟩
  · show OwnLinks db'.wal.kept
    rw [hkept]
    refine h.1.push hlinked.1 (h.2 txnId txn htxn) fun r _ heq => ?_
    rw [show body.undoNext = some r.lsn from heq] at hbody
    cases hbody
  · change r ∈ db'.wal.kept at hr
    rw [hkept] at hr
    change Function.update s.txns txnId (some db'.txn) id = some t at ht
    rw [Function.update_apply] at ht
    split_ifs at ht with heq
    · obtain rfl := Option.some.inj ht
      rw [happ.id]
      rcases List.mem_append.mp hr with hr | hr
      · have hle := (hlinked.1.numbered.lsn_bounds hr).2
        rw [hlsn, happ.lastLsn] at hle
        exact absurd hle (Nat.not_succ_le_self _)
      · rw [List.mem_singleton.mp hr]
        rfl
    · rcases List.mem_append.mp hr with hr | hr
      · exact h.2 id t ht r hr hlsn
      · have hle := hlinked.2 id t ht
        rw [← hlsn, List.mem_singleton.mp hr] at hle
        exact absurd hle (Nat.not_succ_le_self _)

theorem own_of_opens {disk : Disk} {wal : AppendOnlyLog} {clock : ℕ} {db : StdDbInstance}
    (hown : OwnLinks wal.kept) (hlinks : LinksBack wal.kept) (h : Opens disk wal clock db) :
    Own (.serving ⟨db, fun _ => none⟩) := by
  cases h with
  | @intro visit disk' wal' clock' hvisit hrecover hclock listing generator =>
    obtain ⟨disk₁, -, hundo⟩ := recover_eq_ok hrecover
    exact ⟨hown.passes hlinks (passes_of_undo hundo), fun _ _ ht => absurd ht.symm
      (Option.some_ne_none _)⟩

/-- **Every step keeps links within their transactions.** -/
theorem Own.step {p p' : DbPhase} {a : PhaseAction} (h : Own p) (hlinked : Linked p)
    (hstep : PhaseStep p a p') : Own p' := by
  cases hstep with
  | @work s s' a hwork =>
    cases hwork with
    | @make db' hmake =>
      obtain rfl : _ = db' := (EStateM.Result.ok.inj hmake).2
      refine ⟨h.1, fun id t ht r hr hlsn => ?_⟩
      change Function.update s.txns s.db.clock (some { id := s.db.clock }) id = some t at ht
      rw [Function.update_apply] at ht
      split_ifs at ht with heq
      · obtain rfl := Option.some.inj ht
        exact absurd hlsn (lsn_ne_zero hlinked.1 hr)
      · exact h.2 id t ht r hr hlsn
    | call htxn hc hrun => exact h.call hlinked htxn hc hrun
    | flush => exact h
    | restart hopens => exact own_of_opens (h.1.take _) (hlinked.1.take _) hopens
  | crash => exact h.1.take _
  | interruptedRecovery hvisit hpasses =>
    refine OwnLinks.take (OwnLinks.passes ?_ ?_ hpasses) _
    · exact h
    · exact hlinked
  | @opening logs clock disk db hopens =>
    have hown : OwnLinks (AppendOnlyLog.mk logs logs.length).kept := h
    exact own_of_opens hown hlinked hopens

/-- **The links of every history stay within their transactions**, and lead
back. -/
theorem ownLinks_of_run {generator : UUIDGenerator} {as : List PhaseAction}
    {logs : List WalRecord} {clock : ℕ}
    (hrun : Run PhaseStep (.serving { db := { generator } }) as (.stopped logs clock)) :
    LinksBack logs ∧ OwnLinks logs :=
  hrun.invariant (P := fun p => Linked p ∧ Own p)
    (fun _ _ _ h hstep => ⟨h.1.step hstep, h.2.step h.1 hstep⟩)
    ⟨⟨linksBack_nil, fun _ _ ht => absurd ht.symm (Option.some_ne_none _)⟩,
      ownLinks_nil, fun _ _ ht => absurd ht.symm (Option.some_ne_none _)⟩

end DbPhase
