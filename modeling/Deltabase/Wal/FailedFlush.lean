import Deltabase.Wal.TornTail

/-!
# A flush that throws

`flush` takes the pending records out of the shared list before it writes them.
When writing throws, the local list is destroyed with the exception: the records
are in neither list any more, whatever part of them has reached the files, and
no later flush knows of them. The counter of durable records stays where it was,
below their LSNs, and the list is empty, so `wait_for_durable` goes round for
ever – the loop flushes, the flush finds nothing to do and returns, and the
counter has not moved.

The device is a parameter: `Device` says how many bytes each system call gets
through. With a device that never fails this is the manager of the other modules
(`flushOn_eq_flush`).
-/

/-- **What the device does** in one call of `write_logs`: the `n`-th system call
gets this many bytes through. One that opens a file or looks at the directory
fails when it is none. -/
abbrev Device := ℕ → ℕ

namespace FileWalManager

open StdWalSerializer

/-! ## Writing to a device -/

/-- The loop of `write_logs`; `calls` have been made before. A `write` that gets
only a part of the bytes through leaves that part in the file. -/
def writeLogsLoopOn (device : Device) (calls : ℕ) (dir : List LogFile) (opened : Option ℕ) :
    List WalRecord → List LogFile × Except Exn Unit
  | [] => (dir, .ok ())
  | record :: logs =>
    let first := fileFirstLsn record.lsn
    let last := fileLastLsn record.lsn
    if opened ≠ some first ∧ device calls = 0 then
      (dir, .error (.runtimeError "Failed to open WAL log file"))
    else
      let calls := if opened = some first then calls else calls + 1
      let dir := if opened = some first then dir else openLogfile dir first last
      let size := leBytes 8 (serialize record).size
      let content := (serialize record).buffer
      if device calls < size.length then
        (appendToLogfile dir first last (size.take (device calls)),
          .error (.runtimeError "Failed to write WAL record size"))
      else if device (calls + 1) < content.length then
        (appendToLogfile dir first last (size ++ content.take (device (calls + 1))),
          .error (.runtimeError "Failed to write WAL record"))
      else
        writeLogsLoopOn device (calls + 2) (appendToLogfile dir first last (logfileEntry record))
          (some first) logs

/-- `write_logs`, which looks at the directory first. -/
def writeLogsOn (device : Device) (dir : List LogFile) (logs : List WalRecord) :
    List LogFile × Except Exn Unit :=
  if device 0 = 0 then (dir, .error (.runtimeError "filesystem error"))
  else writeLogsLoopOn device 1 dir none logs

/-- `flush`: the pending records have been taken out of the list when they are
written. -/
def flushOn (device : Device) (m : FileWalManager) : FileWalManager × Except Exn Unit :=
  match m.dirty.getLast? with
  | none => (m, .ok ())
  | some last =>
    match writeLogsOn device m.dir m.dirty with
    | (dir, .error e) => ({ m with dir := dir, dirty := [] }, .error e)
    | (dir, .ok ()) =>
      ({ m with
          dir := dir
          flushed := m.flushed ++ m.dirty
          flushedLsn := if last.lsn > m.flushedLsn then last.lsn else m.flushedLsn
          dirty := [] }, .ok ())

/-- `wait_for_durable`, with no other thread flushing: what it has come to after
so many rounds, or nothing if it is still going round. Each flush meets the
device as it is then. -/
def waitForDurableOn : (ℕ → Device) → ℕ → FileWalManager → ℕ →
    Option (FileWalManager × Except Exn Unit)
  | _, 0, _, _ => none
  | devices, rounds + 1, m, lsn =>
    if m.flushedLsn < lsn then
      match m.flushOn (devices 0) with
      | (m, .error e) => some (m, .error e)
      | (m, .ok ()) => waitForDurableOn (fun n => devices (n + 1)) rounds m lsn
    else some (m, .ok ())

/-! ## A device that does not fail -/

theorem writeLogsLoopOn_ok {device : Device} {calls : ℕ} {dir dir' : List LogFile}
    {opened : Option ℕ} {logs : List WalRecord}
    (h : writeLogsLoopOn device calls dir opened logs = (dir', .ok ())) :
    dir' = writeLogsLoop dir opened logs := by
  induction logs generalizing calls dir opened with
  | nil => exact (Prod.mk.inj h).1.symm
  | cons record logs ih =>
    unfold writeLogsLoopOn at h
    unfold writeLogsLoop
    -- each call that fails ends in an exception
    by_cases hopened : opened = some (fileFirstLsn record.lsn)
    · simp only [hopened, ne_eq, not_true_eq_false, false_and, if_false, if_true] at h ⊢
      split_ifs at h
      · cases (Prod.mk.inj h).2
      · cases (Prod.mk.inj h).2
      · exact ih h
    · simp only [hopened, ne_eq, not_false_eq_true, true_and, if_false] at h ⊢
      split_ifs at h
      · cases (Prod.mk.inj h).2
      · cases (Prod.mk.inj h).2
      · cases (Prod.mk.inj h).2
      · exact ih h

/-- **A flush that returns** has done what a flush does. -/
theorem flushOn_eq_flush {device : Device} {m m' : FileWalManager}
    (h : m.flushOn device = (m', .ok ())) : m' = m.flush := by
  unfold flushOn at h
  unfold flush
  cases hlast : m.dirty.getLast? with
  | none =>
    simp only [hlast] at h ⊢
    exact (Prod.mk.inj h).1.symm
  | some last =>
    simp only [hlast] at h ⊢
    cases hwrite : writeLogsOn device m.dir m.dirty with
    | mk dir result =>
      rw [hwrite] at h
      cases result with
      | error e => cases (Prod.mk.inj h).2
      | ok _ =>
        obtain rfl := (Prod.mk.inj h).1
        unfold writeLogsOn at hwrite
        split_ifs at hwrite
        · cases (Prod.mk.inj hwrite).2
        · unfold writeLogs
          rw [writeLogsLoopOn_ok hwrite]

/-- **A flush that throws** has written some part, and keeps nothing. -/
theorem flushOn_error {device : Device} {m m' : FileWalManager} {e : Exn}
    (h : m.flushOn device = (m', .error e)) :
    m.dirty ≠ [] ∧ ∃ dir, m' = { m with dir := dir, dirty := [] } := by
  unfold flushOn at h
  cases hlast : m.dirty.getLast? with
  | none =>
    simp only [hlast] at h
    cases (Prod.mk.inj h).2
  | some last =>
    have hne : m.dirty ≠ [] := fun hnil => by
      rw [hnil] at hlast
      cases hlast
    simp only [hlast] at h
    cases hwrite : writeLogsOn device m.dir m.dirty with
    | mk dir result =>
      rw [hwrite] at h
      cases result with
      | error e' => exact ⟨hne, dir, (Prod.mk.inj h).1.symm⟩
      | ok _ => cases (Prod.mk.inj h).2

/-- With nothing pending a flush does nothing, on any device. -/
theorem flushOn_of_nil {m : FileWalManager} (h : m.dirty = []) (device : Device) :
    m.flushOn device = (m, .ok ()) := by
  unfold flushOn
  rw [h]
  rfl

/-! ## What can happen to a manager -/

end FileWalManager

/-- **What is asked of a manager** while the device does what it does. -/
inductive LogCall where
  | append (record : WalRecord)
  | appendBatch (records : List WalRecord)
  | flush (device : Device)
  | waitForDurable (devices : ℕ → Device) (lsn : ℕ)

namespace FileWalManager

variable {m m' m'' : FileWalManager}

/-- A call that comes to an end, by returning or by throwing. -/
inductive Called (m : FileWalManager) : LogCall → FileWalManager → Prop
  | append (record : WalRecord) : Called m (.append record) (m.appendLog record).2
  | appendBatch (records : List WalRecord) :
      Called m (.appendBatch records) (m.appendLogs records).2
  | flush (device : Device) : Called m (.flush device) (m.flushOn device).1
  | waitForDurable {devices : ℕ → Device} {rounds lsn : ℕ} {m' : FileWalManager}
      {result : Except Exn Unit} (h : m.waitForDurableOn devices rounds lsn = some (m', result)) :
      Called m (.waitForDurable devices lsn) m'

/-- **The counters are in order**: the flushed records are below the counter of
durable records, the pending ones above it, in the order of their LSNs, and the
next LSN is above all. -/
structure InOrder (m : FileWalManager) : Prop where
  flushed : ∀ r ∈ m.flushed, r.lsn ≤ m.flushedLsn
  dirty : ∀ r ∈ m.dirty, m.flushedLsn < r.lsn ∧ r.lsn < m.nextLsn
  sorted : m.dirty.Pairwise fun r r' => r.lsn < r'.lsn
  next : m.flushedLsn < m.nextLsn

/-- What appending and flushing preserve, every call preserves. -/
theorem Called.preserves {P : FileWalManager → Prop}
    (happend : ∀ m record, P m → P (m.appendLog record).2)
    (hflush : ∀ m device, P m → P (m.flushOn device).1) {call : LogCall} (h : Called m call m')
    (hm : P m) : P m' := by
  cases h with
  | append record => exact happend m record hm
  | appendBatch records =>
    have hloop : ∀ (records : List WalRecord) (m : FileWalManager) (lastLsn : ℕ), P m →
        P (m.appendLogsLoop lastLsn records).2 := by
      intro records
      induction records with
      | nil => exact fun m _ hm => hm
      | cons record records ih =>
        exact fun m lastLsn hm => ih (m.appendLog record).2 _ (happend m record hm)
    exact hloop records m 0 hm
  | flush device => exact hflush m device hm
  | @waitForDurable devices rounds lsn m' result h =>
    induction rounds generalizing devices m with
    | zero => cases h
    | succ rounds ih =>
      rw [waitForDurableOn] at h
      have hflushed := hflush m (devices 0) hm
      split_ifs at h
      · cases hrun : m.flushOn (devices 0) with
        | mk m₁ result₁ =>
          rw [hrun] at h hflushed
          match result₁ with
          | .error _ =>
            cases h
            exact hflushed
          | .ok () => exact ih hflushed h
      · cases h
        exact hm

namespace InOrder

theorem appendLog (h : InOrder m) (record : WalRecord) : InOrder (m.appendLog record).2 where
  flushed := h.flushed
  dirty r hr := by
    show m.flushedLsn < r.lsn ∧ r.lsn < m.nextLsn + 1
    rcases List.mem_append.mp hr with hr | hr
    · exact ⟨(h.dirty r hr).1, (h.dirty r hr).2.trans (Nat.lt_succ_self _)⟩
    · rw [List.mem_singleton.mp hr]
      exact ⟨h.next, Nat.lt_succ_self _⟩
  sorted := by
    refine List.pairwise_append.mpr ⟨h.sorted, List.pairwise_singleton _ _, fun r hr r' hr' => ?_⟩
    rw [List.mem_singleton.mp hr']
    exact (h.dirty r hr).2
  next := h.next.trans (Nat.lt_succ_self _)

theorem flush (h : InOrder m) : InOrder m.flush := by
  unfold FileWalManager.flush
  cases hlast : m.dirty.getLast? with
  | none => exact h
  | some last =>
    have hmem : last ∈ m.dirty := List.mem_of_getLast? hlast
    obtain ⟨habove, hbelow⟩ := h.dirty last hmem
    have hcounter : (if last.lsn > m.flushedLsn then last.lsn else m.flushedLsn) = last.lsn :=
      if_pos habove
    refine ⟨fun r hr => ?_, fun r hr => (nomatch hr), List.Pairwise.nil, ?_⟩
    · show r.lsn ≤ if last.lsn > m.flushedLsn then last.lsn else m.flushedLsn
      rw [hcounter]
      rcases List.mem_append.mp hr with hr | hr
      · exact (h.flushed r hr).trans habove.le
      · -- the last of the pending records has the greatest LSN
        obtain ⟨init, hinit⟩ := List.getLast?_eq_some_iff.mp hlast
        rw [hinit] at hr
        rcases List.mem_append.mp hr with hr | hr
        · have hsorted := h.sorted
          rw [hinit] at hsorted
          exact ((List.pairwise_append.mp hsorted).2.2 r hr last List.mem_cons_self).le
        · rw [List.mem_singleton.mp hr]
    · show (if last.lsn > m.flushedLsn then last.lsn else m.flushedLsn) < m.nextLsn
      rw [hcounter]
      exact hbelow

theorem flushOn (h : InOrder m) (device : Device) : InOrder (m.flushOn device).1 := by
  cases hrun : m.flushOn device with
  | mk m' result =>
    cases result with
    | ok _ =>
      rw [flushOn_eq_flush hrun]
      exact h.flush
    | error e =>
      obtain ⟨-, dir, rfl⟩ := flushOn_error hrun
      exact ⟨h.flushed, fun r hr => (nomatch hr), List.Pairwise.nil, h.next⟩

/-- **Every call keeps the counters in order.** -/
theorem run (h : InOrder m) {calls : List LogCall} (hrun : Run Called m calls m') : InOrder m' :=
  hrun.invariant (fun _ _ _ hm hcall =>
    hcall.preserves (fun _ record hm => hm.appendLog record) (fun _ device hm => hm.flushOn device)
      hm) h

end InOrder

/-- The LSN after a record is above those of the records gone through. -/
theorem lt_foldl_bump (logs : List WalRecord) (n : ℕ) :
    n ≤ logs.foldl bump n ∧ ∀ r ∈ logs, r.lsn < logs.foldl bump n := by
  induction logs generalizing n with
  | nil => exact ⟨le_rfl, fun r hr => nomatch hr⟩
  | cons record logs ih =>
    obtain ⟨hle, hall⟩ := ih (bump n record)
    have hbump : n ≤ bump n record ∧ record.lsn < bump n record := by
      unfold bump
      split_ifs <;> omega
    refine ⟨hbump.1.trans hle, fun r hr => ?_⟩
    rcases List.mem_cons.mp hr with rfl | hr
    · exact hbump.2.trans_le hle
    · exact hall r hr

/-- The manager the records read are given to, in the order of their LSNs. -/
theorem inOrder_hydrated {dir : List LogFile} {logs : List WalRecord} {next : ℕ} (hone : 1 ≤ next)
    (hall : ∀ r ∈ logs, r.lsn < next) :
    InOrder
      { dir := dir
        flushed := logs.mergeSort fun r r' => decide (r.lsn ≤ r'.lsn)
        nextLsn := next
        flushedLsn :=
          match (logs.mergeSort fun r r' => decide (r.lsn ≤ r'.lsn)).getLast? with
          | none => 0
          | some r => r.lsn } := by
  have hmem : ∀ r, r ∈ logs.mergeSort (fun r r' => decide (r.lsn ≤ r'.lsn)) ↔ r ∈ logs :=
    fun r => List.mem_mergeSort
  have hsorted : (logs.mergeSort fun r r' => decide (r.lsn ≤ r'.lsn)).Pairwise
      fun r r' => r.lsn ≤ r'.lsn :=
    (List.pairwise_mergeSort (fun a b c => by simpa using le_trans)
      (fun a b => by simpa using le_total a.lsn b.lsn) logs).imp fun h => by simpa using h
  generalize logs.mergeSort (fun r r' => decide (r.lsn ≤ r'.lsn)) = sorted at hmem hsorted
  cases hlast : sorted.getLast? with
  | none =>
    rw [List.getLast?_eq_none_iff.mp hlast]
    exact ⟨fun r hr => (nomatch hr), fun r hr => (nomatch hr), List.Pairwise.nil, hone⟩
  | some last =>
    refine ⟨fun r hr => ?_, fun r hr => (nomatch hr), List.Pairwise.nil,
      hall last ((hmem last).mp (List.mem_of_getLast? hlast))⟩
    show r.lsn ≤ last.lsn
    -- the last record read has the greatest LSN
    obtain ⟨init, hinit⟩ := List.getLast?_eq_some_iff.mp hlast
    have hr' : r ∈ sorted := hr
    rw [hinit] at hsorted hr'
    rcases List.mem_append.mp hr' with hr' | hr'
    · exact (List.pairwise_append.mp hsorted).2.2 r hr' last List.mem_cons_self
    · rw [List.mem_singleton.mp hr']

/-- **A manager that has been made** on any files has its counters in order. -/
theorem inOrder_make {uninit : ℕ → UInt8} {dir : List LogFile} (h : make uninit dir = .ok m) :
    InOrder m := by
  unfold make hydrateCache at h
  simp only at h
  generalize (if dir.isEmpty then openLogfile dir 1 maxRecordsPerLogfile else dir) = dir' at h
  generalize hfiles : dir'.mergeSort (fun f g => decide (f.firstLsn ≤ g.firstLsn)) = files at h
  cases hloop : hydrateLoop uninit { dir := dir' } files with
  | error e =>
    rw [hloop] at h
    cases h
  | ok m₁ =>
    obtain ⟨logsOf, hlogsOf, rfl⟩ := hydrateLoop_ok uninit hloop
    rw [hloop] at h
    obtain rfl := Except.ok.inj h
    obtain ⟨hone, hall⟩ := lt_foldl_bump (files.flatMap logsOf) 1
    exact inOrder_hydrated hone hall

/-! ## What a flush that throws takes with it -/

/-- **No record of the gap**: there is none whose LSN is above the one bound and
below the other, and none will be appended. -/
structure Gap (lo hi : ℕ) (m : FileWalManager) : Prop where
  outside : ∀ r ∈ m.readAllLogs, r.lsn ≤ lo ∨ hi ≤ r.lsn
  next : hi ≤ m.nextLsn

theorem readAllLogs_flush (m : FileWalManager) : m.flush.readAllLogs = m.readAllLogs := by
  unfold flush
  cases m.dirty.getLast? with
  | none => rfl
  | some last => exact List.append_nil _

namespace Gap

variable {lo hi : ℕ}

theorem appendLog (h : Gap lo hi m) (record : WalRecord) : Gap lo hi (m.appendLog record).2 where
  outside r hr := by
    have hr' : r ∈ m.flushed ++ (m.dirty ++ [stamp record m.nextLsn]) := hr
    rw [← List.append_assoc] at hr'
    rcases List.mem_append.mp hr' with hr' | hr'
    · exact h.outside r hr'
    · rw [List.mem_singleton.mp hr']
      exact Or.inr h.next
  next := h.next.trans (Nat.le_succ _)

theorem flushOn (h : Gap lo hi m) (device : Device) : Gap lo hi (m.flushOn device).1 := by
  cases hrun : m.flushOn device with
  | mk m' result =>
    cases result with
    | ok _ =>
      rw [flushOn_eq_flush hrun]
      refine ⟨fun r hr => h.outside r (readAllLogs_flush m ▸ hr), ?_⟩
      unfold FileWalManager.flush
      cases m.dirty.getLast? with
      | none => exact h.next
      | some last => exact h.next
    | error e =>
      obtain ⟨-, dir, rfl⟩ := flushOn_error hrun
      refine ⟨fun r hr => h.outside r ?_, h.next⟩
      exact List.mem_append_left _ ((List.append_nil m.flushed) ▸ hr)

/-- **A gap is never filled.** -/
theorem run (h : Gap lo hi m) {calls : List LogCall} (hrun : Run Called m calls m') :
    Gap lo hi m' :=
  hrun.invariant (fun _ _ _ hm hcall =>
    hcall.preserves (fun _ record hm => hm.appendLog record) (fun _ device hm => hm.flushOn device)
      hm) h

/-- A flush that throws leaves the gap of the records it had taken. -/
theorem of_flushOn_error (h : InOrder m) {device : Device} {e : Exn}
    (hflush : m.flushOn device = (m', .error e)) : Gap m.flushedLsn m.nextLsn m' := by
  obtain ⟨-, dir, rfl⟩ := flushOn_error hflush
  refine ⟨fun r hr => Or.inl (h.flushed r ?_), le_rfl⟩
  exact (List.append_nil m.flushed) ▸ hr

end Gap

/-- **The wait that does not end**: nothing is pending, and the counter is below
the LSN waited for. Whatever the device does, the manager is as it was after
each round. -/
theorem waitForDurableOn_eq_none {lsn : ℕ} (hnil : m.dirty = []) (hlsn : m.flushedLsn < lsn)
    (devices : ℕ → Device) (rounds : ℕ) : m.waitForDurableOn devices rounds lsn = none := by
  induction rounds generalizing devices with
  | zero => rfl
  | succ rounds ih =>
    rw [waitForDurableOn, if_pos hlsn, flushOn_of_nil hnil]
    exact ih _

/-- **A flush that throws loses the pending records**, at whichever system call
and with whichever of them written. They are in neither list; whatever is
appended, flushed or waited for afterwards, not all that had been appended is
flushed, and none of those with their LSNs is held again; and a wait for any of
these LSNs does not come to an end. -/
theorem not_accounted_of_flushOn_error {uninit : ℕ → UInt8} {dir : List LogFile}
    {m₀ m m' : FileWalManager} {calls : List LogCall} {device : Device} {e : Exn}
    (hmake : make uninit dir = .ok m₀) (hrun : Run Called m₀ calls m)
    (hflush : m.flushOn device = (m', .error e)) :
    (¬ ∀ r ∈ m.readAllLogs, r ∈ m'.dirty ∨ r ∈ m'.flushed)
      ∧ (∀ (calls' : List LogCall) (m'' : FileWalManager), Run Called m' calls' m'' →
        ¬ (∀ r ∈ m.readAllLogs, r ∈ m''.flushed)
          ∧ ∀ r ∈ m.dirty, ∀ r'' ∈ m''.readAllLogs, r''.lsn ≠ r.lsn)
      ∧ (∃ lsn < m'.nextLsn, 1 ≤ lsn
        ∧ ∀ devices rounds, m'.waitForDurableOn devices rounds lsn = none)
      ∧ ∀ r ∈ m.dirty, ∀ devices rounds, m'.waitForDurableOn devices rounds r.lsn = none := by
  have horder : InOrder m := (inOrder_make hmake).run hrun
  have hgap : Gap m.flushedLsn m.nextLsn m' := .of_flushOn_error horder hflush
  obtain ⟨hne, dir', hm'⟩ := flushOn_error hflush
  obtain ⟨lost, hlost⟩ := List.exists_mem_of_ne_nil _ hne
  have hlsn := horder.dirty lost hlost
  have hnever : ∀ (calls' : List LogCall) (m'' : FileWalManager), Run Called m' calls' m'' →
      ∀ r ∈ m.dirty, ∀ r'' ∈ m''.readAllLogs, r''.lsn ≠ r.lsn := by
    intro calls' m'' hrun' r hr r'' hr'' heq
    have hbounds := horder.dirty r hr
    rcases (hgap.run hrun').outside r'' hr'' with hle | hge
    · exact absurd (heq ▸ hle) (not_le.mpr hbounds.1)
    · exact absurd (heq ▸ hge) (not_le.mpr hbounds.2)
  have hwaits : ∀ r ∈ m.dirty, ∀ devices rounds,
      m'.waitForDurableOn devices rounds r.lsn = none := by
    intro r hr
    rw [hm']
    exact waitForDurableOn_eq_none rfl (horder.dirty r hr).1
  have hmem : lost ∈ m.readAllLogs := List.mem_append_right _ hlost
  refine ⟨fun hall => ?_, fun calls' m'' hrun' => ⟨fun hall => ?_, hnever calls' m'' hrun'⟩,
    ⟨lost.lsn, ?_, (Nat.zero_le _).trans_lt hlsn.1, hwaits lost hlost⟩, hwaits⟩
  · exact hnever [] m' (.nil m') lost hlost lost
      (List.mem_append.mpr (hall lost hmem).symm) rfl
  · exact hnever calls' m'' hrun' lost hlost lost
      (List.mem_append_left _ (hall lost hmem)) rfl
  · rw [hm']
    exact hlsn.2

/-- A record is appended to a new log and the directory is gone when it is
flushed. -/
theorem not_accounted_of_flushOn_error_fresh :
    ∃ m m' : FileWalManager, Run Called fresh [.append { body := .beginTxn }] m
      ∧ m.flushOn (fun _ => 0) = (m', .error (.runtimeError "filesystem error"))
      ∧ ¬ ∀ r ∈ m.readAllLogs, r ∈ m'.dirty ∨ r ∈ m'.flushed := by
  have hrun : Run Called fresh [.append { body := .beginTxn }] _ := .single (.append _)
  have hflush : (fresh.appendLog { body := .beginTxn }).2.flushOn (fun _ => 0)
      = (_, .error (.runtimeError "filesystem error")) := rfl
  exact ⟨_, _, hrun, hflush,
    (not_accounted_of_flushOn_error (make_nil fun _ => 0) hrun hflush).1⟩

/-- **Not every record appended is still held** after a flush that has thrown,
and not every wait for its LSN ends. -/
theorem flushOn_error_loses :
    ¬ ∀ (record : WalRecord) (device : Device) (m' : FileWalManager) (e : Exn),
      (fresh.appendLog record).2.flushOn device = (m', .error e) →
      (∀ r ∈ (fresh.appendLog record).2.readAllLogs, r ∈ m'.dirty ∨ r ∈ m'.flushed)
        ∧ ∃ rounds, (m'.waitForDurableOn (fun _ => device) rounds 1).isSome := by
  intro h
  obtain ⟨hheld, -⟩ := h { body := .beginTxn } (fun _ => 0) _ _ rfl
  rcases hheld (stamp { body := .beginTxn } 1) List.mem_cons_self with hmem | hmem
  · exact absurd hmem List.not_mem_nil
  · exact absurd hmem List.not_mem_nil

end FileWalManager
