import Deltabase.Wal.FileWalManager
import Mathlib.Algebra.BigOperators.Group.List.Basic
import Mathlib.Data.List.Induction
import Mathlib.Data.List.Perm.Basic

/-!
# The log manager refines an append-only list

`AppendOnlyLog` says what a log is for: a list of records that only grows, the
`i`-th of which has LSN `i`, and of which a prefix is durable. Reopening keeps
the durable prefix and loses the rest.

`FileWalManager` spreads the same thing over two in-memory lists, two counters
and files of a thousand records. `Refines` relates the two: the lists
concatenate to the kept records, the counters are lengths, and each file holds
exactly the flushed records of its range (`HoldsLogs`). Every step of the
manager is a step of the list with the same answers (`step_refines`), so every
run is.

The one reopening argument worth knowing: the files partition the flushed
records by range, so whatever order they are listed and read in, their
concatenation is a permutation of the flushed records; sorting it by LSN, which
`hydrate_cache` does last, gives back the list itself because LSNs are
distinct.
-/

/-- Everything but the LSN fits its C++ type; the LSN is assigned later. -/
def WalRecord.FitsUnstamped (r : WalRecord) : Prop :=
  r.prevLsn < 256 ^ 8 ∧ r.txnId < 256 ^ 16 ∧ r.body.Fits

instance : DecidablePred WalRecord.FitsUnstamped := fun r => by
  unfold WalRecord.FitsUnstamped
  infer_instance

/-- **What is asked of a log and what it answers.** -/
inductive WalOp where
  | append (record : WalRecord) (lsn : ℕ)
  | appendBatch (records : List WalRecord) (lsn : ℕ)
  | readLog (lsn : ℕ) (result : Except Exn WalRecord)
  | readAllLogs (result : List WalRecord)
  | flush
  | waitForDurable (lsn : ℕ)
  | reopen

/-! ## The append-only list -/

/-- **The abstract log**: the records kept, and how many of them a reopen is
sure to find. -/
structure AppendOnlyLog where
  kept : List WalRecord := []
  durable : ℕ := 0

namespace AppendOnlyLog

open FileWalManager (stamp)

/-- The record becomes the last one and gets its position as LSN. -/
def push (a : AppendOnlyLog) (record : WalRecord) : AppendOnlyLog :=
  { a with kept := a.kept ++ [stamp record (a.kept.length + 1)] }

/-- The LSN the next record gets. -/
def nextLsn (a : AppendOnlyLog) : ℕ := a.kept.length + 1

/-- Makes every record durable. -/
def flush (a : AppendOnlyLog) : AppendOnlyLog := { a with durable := a.kept.length }

/-- The record with an LSN. -/
def readLog (a : AppendOnlyLog) (lsn : ℕ) : Except Exn WalRecord :=
  match if lsn = 0 then none else a.kept[lsn - 1]? with
  | some record => .ok record
  | none => .error (.runtimeError ("WAL record not found: LSN " ++ toString lsn))

/-- **What `read_log` finds**: the record at the position that the LSN is. -/
theorem readLog_eq_ok {a : AppendOnlyLog} {lsn : ℕ} {record : WalRecord} :
    a.readLog lsn = .ok record ↔ lsn ≠ 0 ∧ a.kept[lsn - 1]? = some record := by
  unfold readLog
  split_ifs with hzero
  · exact ⟨fun h => (nomatch h), fun h => absurd hzero h.1⟩
  cases a.kept[lsn - 1]? with
  | none => exact ⟨fun h => (nomatch h), fun h => (nomatch h.2)⟩
  | some r =>
    rw [Except.ok.injEq, Option.some.injEq]
    exact (and_iff_right hzero).symm

theorem mem_of_readLog {a : AppendOnlyLog} {lsn : ℕ} {record : WalRecord}
    (h : a.readLog lsn = .ok record) : record ∈ a.kept :=
  List.mem_of_getElem? (readLog_eq_ok.mp h).2

/-- What the log finds it still finds when there are more records. -/
theorem readLog_mono {a b : AppendOnlyLog} (hpre : a.kept <+: b.kept) {lsn : ℕ}
    {record : WalRecord} (h : a.readLog lsn = .ok record) : b.readLog lsn = .ok record := by
  obtain ⟨hzero, hget⟩ := readLog_eq_ok.mp h
  obtain ⟨rest, hrest⟩ := hpre
  refine readLog_eq_ok.mpr ⟨hzero, ?_⟩
  rw [← hrest, List.getElem?_append_left (List.getElem?_eq_some_iff.mp hget).1, hget]

/-- What the abstract log does. -/
inductive Step : AppendOnlyLog → WalOp → AppendOnlyLog → Prop
  | append (a : AppendOnlyLog) (record : WalRecord) :
      Step a (.append record (a.kept.length + 1)) (a.push record)
  | appendBatch (a : AppendOnlyLog) (records : List WalRecord) :
      Step a (.appendBatch records (if records = [] then 0 else a.kept.length + records.length))
        (records.foldl push a)
  | readLog (a : AppendOnlyLog) (i : ℕ) (r : WalRecord) (h : a.kept[i]? = some r) :
      Step a (.readLog (i + 1) (.ok r)) a
  | readLogMissing (a : AppendOnlyLog) (lsn : ℕ) (h : lsn = 0 ∨ a.kept.length < lsn) :
      Step a (.readLog lsn (.error (.runtimeError ("WAL record not found: LSN " ++ toString lsn))))
        a
  | readAllLogs (a : AppendOnlyLog) : Step a (.readAllLogs a.kept) a
  | flush (a : AppendOnlyLog) : Step a .flush { a with durable := a.kept.length }
  | waitForDurable (a : AppendOnlyLog) (lsn : ℕ) (h : lsn ≤ a.kept.length) :
      Step a (.waitForDurable lsn)
        { a with durable := if lsn ≤ a.durable then a.durable else a.kept.length }
  | reopen (a : AppendOnlyLog) : Step a .reopen { a with kept := a.kept.take a.durable }

/-- Pushing a batch. -/
theorem foldl_push (records : List WalRecord) (a : AppendOnlyLog) :
    (records.foldl push a).durable = a.durable
      ∧ (records.foldl push a).kept.length = a.kept.length + records.length
      ∧ a.kept <+: (records.foldl push a).kept := by
  induction records generalizing a with
  | nil => exact ⟨rfl, rfl, List.prefix_rfl⟩
  | cons r rs ih =>
    obtain ⟨hdur, hlen, hpre⟩ := ih (a.push r)
    refine ⟨hdur, ?_, (List.prefix_append _ _).trans hpre⟩
    rw [List.foldl_cons, hlen]
    simp only [push, List.length_append, List.length_cons, List.length_nil]
    ring

/-- The first `n` records are durable and are `l`. -/
def DurablePrefix (n : ℕ) (l : List WalRecord) (a : AppendOnlyLog) : Prop :=
  n ≤ a.durable ∧ a.durable ≤ a.kept.length ∧ a.kept.take n = l

/-- Growing the list changes no prefix of it. -/
theorem DurablePrefix.grow {n : ℕ} {l : List WalRecord} {a b : AppendOnlyLog}
    (h : DurablePrefix n l a) (hdur : a.durable ≤ b.durable) (hlen : b.durable ≤ b.kept.length)
    (hpre : a.kept <+: b.kept) : DurablePrefix n l b := by
  obtain ⟨hn, ha, htake⟩ := h
  refine ⟨hn.trans hdur, hlen, ?_⟩
  obtain ⟨t, ht⟩ := hpre
  rw [← ht, List.take_append_of_le_length (hn.trans ha), htake]

/-- **Nothing undoes durability**, not even a reopen. -/
theorem DurablePrefix.step {n : ℕ} {l : List WalRecord} {a b : AppendOnlyLog} {op : WalOp}
    (h : DurablePrefix n l a) (hstep : Step a op b) : DurablePrefix n l b := by
  have hle : a.durable ≤ a.kept.length := h.2.1
  cases hstep with
  | append record =>
    refine h.grow le_rfl ?_ (List.prefix_append _ _)
    simp only [push, List.length_append]
    exact hle.trans (Nat.le_add_right _ _)
  | appendBatch records =>
    obtain ⟨hdur, hlen, hpre⟩ := foldl_push records a
    refine h.grow hdur.ge ?_ hpre
    rw [hdur, hlen]
    exact hle.trans (Nat.le_add_right _ _)
  | readLog => exact h
  | readLogMissing => exact h
  | readAllLogs => exact h
  | flush => exact h.grow hle le_rfl List.prefix_rfl
  | waitForDurable lsn hlsn =>
    refine h.grow ?_ ?_ List.prefix_rfl
    · show a.durable ≤ if lsn ≤ a.durable then a.durable else a.kept.length
      split_ifs
      exacts [le_rfl, hle]
    · show (if lsn ≤ a.durable then a.durable else a.kept.length) ≤ a.kept.length
      split_ifs
      exacts [hle, le_rfl]
  | reopen =>
    obtain ⟨hn, _, htake⟩ := h
    refine ⟨hn, ?_, ?_⟩
    · show a.durable ≤ (a.kept.take a.durable).length
      rw [List.length_take, Nat.min_eq_left hle]
    · show (a.kept.take a.durable).take n = l
      rw [List.take_take, Nat.min_eq_left hn, htake]

end AppendOnlyLog

/-! ## Numbered lists -/

/-- **Record number `i` has LSN `i`**, counting from one. -/
def Numbered (logs : List WalRecord) : Prop :=
  logs.map WalRecord.lsn = List.range' 1 logs.length

namespace Numbered

variable {logs : List WalRecord}

theorem lsn_get (h : Numbered logs) {i : ℕ} {r : WalRecord} (hr : logs[i]? = some r) :
    r.lsn = i + 1 := by
  have hi : i < logs.length := (List.getElem?_eq_some_iff.mp hr).1
  have hmap : (logs.map WalRecord.lsn)[i]? = some r.lsn := by rw [List.getElem?_map, hr]; rfl
  rw [h, List.getElem?_range' hi, Option.some.injEq] at hmap
  omega

theorem snoc (h : Numbered logs) (record : WalRecord) :
    Numbered (logs ++ [FileWalManager.stamp record (logs.length + 1)]) := by
  unfold Numbered
  rw [List.map_append, h, List.length_append, List.length_singleton, List.range'_concat]
  simp [FileWalManager.stamp, add_comm]

theorem take (h : Numbered logs) (n : ℕ) : Numbered (logs.take n) := by
  unfold Numbered
  rw [List.map_take, h, List.length_take]
  refine List.ext_getElem (by simp) fun i h₁ h₂ => ?_
  rw [List.getElem_take, List.getElem_range', List.getElem_range']

/-- LSNs increase strictly along the list. -/
theorem pairwise_lt (h : Numbered logs) : logs.Pairwise fun r r' => r.lsn < r'.lsn := by
  rw [← List.pairwise_map, h]
  exact List.pairwise_lt_range'

theorem lsn_bounds (h : Numbered logs) {r : WalRecord} (hr : r ∈ logs) :
    1 ≤ r.lsn ∧ r.lsn ≤ logs.length := by
  have hmem : r.lsn ∈ logs.map WalRecord.lsn := List.mem_map_of_mem hr
  rw [h, List.mem_range'_1] at hmem
  omega

theorem getLast_lsn (h : Numbered logs) {r : WalRecord} (hr : logs.getLast? = some r) :
    r.lsn = logs.length := by
  rw [List.getLast?_eq_getElem?] at hr
  have hpos : 0 < logs.length := by
    have hlt := (List.getElem?_eq_some_iff.mp hr).1
    omega
  rw [h.lsn_get hr]
  omega

/-- **A permutation of a numbered list, sorted by LSN, is the list.** -/
theorem mergeSort_eq (h : Numbered logs) {l : List WalRecord} (hperm : l.Perm logs) :
    l.mergeSort (fun r r' => r.lsn ≤ r'.lsn) = logs := by
  have hsorted : (l.mergeSort fun r r' => decide (r.lsn ≤ r'.lsn)).Pairwise
      fun r r' => decide (r.lsn ≤ r'.lsn) = true :=
    List.pairwise_mergeSort (fun a b c => by simpa using le_trans)
      (fun a b => by simpa using le_total a.lsn b.lsn) l
  have hlogs := h.pairwise_lt
  refine ((List.mergeSort_perm l _).trans hperm).eq_of_pairwise ?_
    (hsorted.imp (by simp)) (hlogs.imp le_of_lt)
  -- equal LSNs in a numbered list are the same record
  intro a b ha hb hab hba
  have hnodup : (logs.map WalRecord.lsn).Nodup := by rw [h]; exact List.nodup_range'
  have ha' : a ∈ logs := ((List.mergeSort_perm l _).trans hperm).subset ha
  exact List.inj_on_of_nodup_map hnodup ha' hb (le_antisymm hab hba)

end Numbered

namespace FileWalManager

open StdWalSerializer

/-! ## What the files hold -/

theorem fileFirstLsn_bounds {lsn : ℕ} (h : 1 ≤ lsn) :
    fileFirstLsn lsn ≤ lsn ∧ lsn ≤ fileFirstLsn lsn + maxRecordsPerLogfile - 1 := by
  unfold fileFirstLsn maxRecordsPerLogfile
  omega

/-- **The files hold exactly these records**, each file those of its range, in
order. -/
structure HoldsLogs (dir : List LogFile) (logs : List WalRecord) : Prop where
  lastLsn : ∀ f ∈ dir, f.lastLsn = f.firstLsn + maxRecordsPerLogfile - 1
  distinct : (dir.map LogFile.firstLsn).Nodup
  content : ∀ f ∈ dir,
    f.content = (logs.filter fun r => fileFirstLsn r.lsn = f.firstLsn).flatMap logfileEntry
  covered : ∀ r ∈ logs, fileFirstLsn r.lsn ∈ dir.map LogFile.firstLsn

namespace HoldsLogs

variable {dir dir' : List LogFile} {logs : List WalRecord} {first : ℕ}

/-- The order of the files does not matter. -/
theorem perm (h : HoldsLogs dir logs) (hperm : dir'.Perm dir) : HoldsLogs dir' logs where
  lastLsn f hf := h.lastLsn f (hperm.subset hf)
  distinct := (hperm.map _).nodup_iff.mpr h.distinct
  content f hf := h.content f (hperm.subset hf)
  covered r hr := (hperm.map _).mem_iff.mpr (h.covered r hr)

/-- A file is found by the name `write_logs` gives it. -/
theorem any_name (h : HoldsLogs dir logs) (first : ℕ) :
    (dir.any fun f => f.firstLsn = first ∧ f.lastLsn = first + maxRecordsPerLogfile - 1) = true
      ↔ first ∈ dir.map LogFile.firstLsn := by
  rw [List.any_eq_true, List.mem_map]
  refine exists_congr fun f => and_congr_right fun hf => ?_
  rw [decide_eq_true_eq]
  refine ⟨fun hname => hname.1, fun hfirst => ⟨hfirst, ?_⟩⟩
  rw [h.lastLsn f hf, hfirst]

/-- Opening a file that is there changes nothing. -/
theorem openLogfile_eq (h : HoldsLogs dir logs) (hmem : first ∈ dir.map LogFile.firstLsn) :
    openLogfile dir first (first + maxRecordsPerLogfile - 1) = dir :=
  if_pos ((h.any_name first).mpr hmem)

/-- Opening a file makes sure it is there; a created file is empty, and no
record was missing it. -/
theorem openLogfile (h : HoldsLogs dir logs) (first : ℕ) :
    HoldsLogs (openLogfile dir first (first + maxRecordsPerLogfile - 1)) logs
      ∧ first ∈ (FileWalManager.openLogfile dir first
          (first + maxRecordsPerLogfile - 1)).map LogFile.firstLsn := by
  by_cases hmem : first ∈ dir.map LogFile.firstLsn
  · rw [h.openLogfile_eq hmem]
    exact ⟨h, hmem⟩
  have hnew : FileWalManager.openLogfile dir first (first + maxRecordsPerLogfile - 1)
      = dir ++ [⟨first, first + maxRecordsPerLogfile - 1, []⟩] :=
    if_neg fun hany => hmem ((h.any_name first).mp hany)
  rw [hnew]
  refine ⟨⟨?_, ?_, ?_, ?_⟩, by simp⟩
  · intro f hf
    rcases List.mem_append.mp hf with hf | hf
    · exact h.lastLsn f hf
    · rw [List.mem_singleton.mp hf]
  · rw [List.map_append, List.nodup_append]
    refine ⟨h.distinct, by simp, ?_⟩
    intro a ha b hb hab
    rw [List.map_singleton, List.mem_singleton] at hb
    have hfirst : a = first := hab.trans hb
    exact hmem (hfirst ▸ ha)
  · intro f hf
    rcases List.mem_append.mp hf with hf | hf
    · exact h.content f hf
    · rw [List.mem_singleton.mp hf]
      have hnone : logs.filter (fun r => fileFirstLsn r.lsn = first) = [] := by
        rw [List.filter_eq_nil_iff]
        intro r hr hfirst
        exact hmem (of_decide_eq_true hfirst ▸ h.covered r hr)
      rw [hnone]
      rfl
  · intro r hr
    rw [List.map_append]
    exact List.mem_append_left _ (h.covered r hr)

/-- Writing a record to the open file of its range. -/
theorem appendToLogfile (h : HoldsLogs dir logs) (r : WalRecord)
    (hmem : fileFirstLsn r.lsn ∈ dir.map LogFile.firstLsn) :
    HoldsLogs (appendToLogfile dir (fileFirstLsn r.lsn) (fileLastLsn r.lsn) (logfileEntry r))
      (logs ++ [r]) := by
  have hnames : (FileWalManager.appendToLogfile dir (fileFirstLsn r.lsn) (fileLastLsn r.lsn)
      (logfileEntry r)).map LogFile.firstLsn = dir.map LogFile.firstLsn := by
    unfold FileWalManager.appendToLogfile
    rw [List.map_map]
    refine List.map_congr_left fun f _ => ?_
    show (if _ then _ else _ : LogFile).firstLsn = _
    split_ifs <;> rfl
  refine ⟨?_, hnames ▸ h.distinct, ?_, ?_⟩
  · intro f hf
    obtain ⟨g, hg, rfl⟩ := List.mem_map.mp hf
    have hlast := h.lastLsn g hg
    split_ifs
    exacts [hlast, hlast]
  · intro f hf
    obtain ⟨g, hg, rfl⟩ := List.mem_map.mp hf
    have hcontent := h.content g hg
    by_cases hfirst : fileFirstLsn r.lsn = g.firstLsn
    · -- the record goes to this file, whose name is the one of its range
      have hlast : g.lastLsn = fileLastLsn r.lsn := by
        rw [h.lastLsn g hg, fileLastLsn, hfirst]
      rw [if_pos ⟨hfirst.symm, hlast⟩]
      show g.content ++ logfileEntry r = _
      rw [List.filter_append, List.flatMap_append, ← hcontent]
      simp [hfirst]
    · rw [if_neg fun hname => hfirst hname.1.symm, List.filter_append, hcontent]
      simp [hfirst]
  · intro r' hr'
    rw [hnames]
    rcases List.mem_append.mp hr' with hr' | hr'
    · exact h.covered r' hr'
    · rw [List.mem_singleton.mp hr']
      exact hmem

/-- **`write_logs` adds the records to the files.** By induction on the batch;
the open file, if any, is one of the directory. -/
theorem writeLogsLoop (h : HoldsLogs dir logs) {opened : Option ℕ}
    (hopened : ∀ first, opened = some first → first ∈ dir.map LogFile.firstLsn)
    (new : List WalRecord) : HoldsLogs (writeLogsLoop dir opened new) (logs ++ new) := by
  induction new generalizing dir logs opened with
  | nil => rwa [List.append_nil]
  | cons r new ih =>
    have hdir : (if opened = some (fileFirstLsn r.lsn) then dir
        else FileWalManager.openLogfile dir (fileFirstLsn r.lsn) (fileLastLsn r.lsn))
        = FileWalManager.openLogfile dir (fileFirstLsn r.lsn) (fileLastLsn r.lsn) := by
      split_ifs with hcur
      · exact (h.openLogfile_eq (hopened _ hcur)).symm
      · rfl
    obtain ⟨hopen, hmem⟩ := h.openLogfile (fileFirstLsn r.lsn)
    have hwrite := hopen.appendToLogfile r hmem
    rw [FileWalManager.writeLogsLoop, hdir, List.append_cons]
    refine ih hwrite ?_
    rintro first ⟨⟩
    exact hwrite.covered r (by simp)

theorem writeLogs (h : HoldsLogs dir logs) (new : List WalRecord) :
    HoldsLogs (writeLogs dir new) (logs ++ new) :=
  h.writeLogsLoop (fun _ hnone => absurd hnone (by simp)) new

end HoldsLogs

/-! ## Reading the files back -/

theorem one_le_length_logfileEntry (r : WalRecord) : 1 ≤ (logfileEntry r).length := by
  unfold logfileEntry
  rw [List.length_append, length_leBytes]
  omega

section Open

variable (uninit : ℕ → UInt8)

/-- The reader's loop takes whole records one by one, whatever follows them. -/
theorem readLogsLoop_append {logs : List WalRecord} (hfits : ∀ r ∈ logs, r.Fits) (rounds : ℕ)
    (t : Bytes) :
    readLogsLoop uninit (logs.length + rounds) (logs.flatMap logfileEntry ++ t)
      = (readLogsLoop uninit rounds t).map (logs ++ ·) := by
  induction logs with
  | nil =>
    rw [List.length_nil, Nat.zero_add, List.flatMap_nil, List.nil_append]
    cases readLogsLoop uninit rounds t <;> rfl
  | cons r logs ih =>
    have hbytes : (r :: logs).flatMap logfileEntry ++ t
        = leBytes 8 (serialize r).size
          ++ ((serialize r).buffer ++ (logs.flatMap logfileEntry ++ t)) := by
      rw [List.flatMap_cons, logfileEntry, List.append_assoc, List.append_assoc]
    have hsize := reads_readU64Some_bytes uninit (length_leBytes 8 (serialize r).size)
      ((serialize r).buffer ++ (logs.flatMap logfileEntry ++ t))
    have hrecord := reads_deserialize uninit (hfits r List.mem_cons_self)
      (logs.flatMap logfileEntry ++ t)
    have hrest := ih fun r' hr' => hfits r' (List.mem_cons_of_mem r hr')
    have hlong : ¬ ((serialize r).buffer ++ (logs.flatMap logfileEntry ++ t)).length
        < leNat (leBytes 8 (serialize r).size) := by
      have hle := leNat_leBytes_le 8 (serialize r).size
      rw [MemoryStream.size] at hle ⊢
      rw [List.length_append]
      omega
    have hsome : ¬ ((r :: logs).flatMap logfileEntry ++ t).length = 0 := by
      rw [hbytes, List.length_append, length_leBytes]
      omega
    rw [List.length_cons, Nat.add_right_comm, readLogsLoop, if_neg hsome, hbytes, hsize]
    simp only [if_neg hlong, hrecord, hrest]
    cases readLogsLoop uninit rounds t <;> rfl

/-- Every entry has a byte. -/
theorem length_le_flatMap_logfileEntry (logs : List WalRecord) :
    logs.length ≤ (logs.flatMap logfileEntry).length := by
  rw [List.length_flatMap]
  refine le_of_eq_of_le (List.length_map _).symm (List.length_le_sum_of_one_le _ ?_)
  intro n hn
  obtain ⟨r, _, rfl⟩ := List.mem_map.mp hn
  exact one_le_length_logfileEntry r

/-- A file of whole records with something behind them. -/
theorem readLogsFromFile_append {logs : List WalRecord} (hfits : ∀ r ∈ logs, r.Fits) {f : LogFile}
    {t : Bytes} (hcontent : f.content = logs.flatMap logfileEntry ++ t) :
    ∃ rounds, t.length ≤ rounds
      ∧ readLogsFromFile uninit f = (readLogsLoop uninit rounds t).map (logs ++ ·) := by
  have hle := length_le_flatMap_logfileEntry logs
  refine ⟨(logs.flatMap logfileEntry).length - logs.length + t.length, Nat.le_add_left _ _, ?_⟩
  rw [← readLogsLoop_append uninit hfits, readLogsFromFile, hcontent, List.length_append,
    ← Nat.add_assoc, Nat.add_sub_cancel' hle]

/-- **A file is read back as the flushed records of its range.** -/
theorem HoldsLogs.readLogsFromFile {dir : List LogFile} {logs : List WalRecord}
    (h : HoldsLogs dir logs) (hfits : ∀ r ∈ logs, r.Fits) {f : LogFile} (hf : f ∈ dir) :
    readLogsFromFile uninit f
      = .ok (logs.filter fun r => fileFirstLsn r.lsn = f.firstLsn) := by
  obtain ⟨rounds, -, hread⟩ := readLogsFromFile_append uninit (f := f) (t := [])
    (fun r hr => hfits r (List.mem_of_mem_filter hr))
    ((h.content f hf).trans (List.append_nil _).symm)
  rw [hread]
  cases rounds <;> exact congrArg _ (List.append_nil _)

/-- What `hydrate_cache` makes of the next LSN at each record. -/
def bump (n : ℕ) (r : WalRecord) : ℕ := if r.lsn ≥ n then r.lsn + 1 else n

instance : RightCommutative bump where
  right_comm n r r' := by
    unfold bump
    split_ifs <;> omega

/-- After a numbered list the next LSN is the one after its length. -/
theorem foldl_bump {logs : List WalRecord} (h : Numbered logs) :
    logs.foldl bump 1 = logs.length + 1 := by
  induction logs using List.reverseRecOn with
  | nil => rfl
  | append_singleton logs r ih =>
    have hlogs : Numbered logs := by
      have := h.take logs.length
      rwa [List.take_left] at this
    have hr : r.lsn = logs.length + 1 := h.lsn_get (by simp)
    rw [List.foldl_append, ih hlogs]
    show bump (logs.length + 1) r = _
    rw [bump, hr, if_pos le_rfl, List.length_append, List.length_singleton]

/-- The loop over the files concatenates what they hold. -/
theorem hydrateLoop_eq {logsOf : LogFile → List WalRecord} {files : List LogFile}
    (h : ∀ f ∈ files, readLogsFromFile uninit f = .ok (logsOf f)) (m : FileWalManager) :
    hydrateLoop uninit m files
      = .ok { m with
          flushed := m.flushed ++ files.flatMap logsOf
          nextLsn := (files.flatMap logsOf).foldl bump m.nextLsn } := by
  induction files generalizing m with
  | nil => simp [hydrateLoop]
  | cons f files ih =>
    rw [hydrateLoop, h f List.mem_cons_self]
    show hydrateLoop uninit _ files = _
    rw [ih fun g hg => h g (List.mem_cons_of_mem f hg)]
    simp only [List.flatMap_cons, List.foldl_append, List.append_assoc]
    rfl

/-- A list is, up to order, the concatenation of its classes under a key. -/
theorem flatMap_filter_perm {α : Type*} (key : α → ℕ) (l : List α) {ks : List ℕ}
    (hks : ks.Nodup) (hl : ∀ a ∈ l, key a ∈ ks) :
    (ks.flatMap fun k => l.filter fun a => key a = k).Perm l := by
  induction ks generalizing l with
  | nil =>
    have hnil : l = [] := List.eq_nil_iff_forall_not_mem.mpr fun a ha => by simpa using hl a ha
    rw [hnil]
    rfl
  | cons k ks ih =>
    rw [List.nodup_cons] at hks
    -- the classes of the other keys are those of the rest of the list
    have hrest : (ks.flatMap fun k' => l.filter fun a => key a = k')
        = ks.flatMap fun k' => (l.filter fun a => !decide (key a = k)).filter
            fun a => key a = k' := by
      refine List.flatMap_congr fun k' hk' => ?_
      rw [List.filter_filter]
      refine List.filter_congr fun a _ => ?_
      by_cases ha : key a = k'
      · have hne : k' ≠ k := fun heq => hks.1 (heq ▸ hk')
        simp [ha, hne]
      · simp [ha]
    rw [List.flatMap_cons, hrest]
    refine List.Perm.trans ?_ (List.filter_append_perm (fun a => decide (key a = k)) l)
    refine List.Perm.append_left _ (ih _ hks.2 fun a ha => ?_)
    rw [List.mem_filter] at ha
    exact (List.mem_cons.mp (hl a ha.1)).resolve_left (by simpa using ha.2)

/-- **The files partition the flushed records.** -/
theorem HoldsLogs.flatMap_perm {dir : List LogFile} {logs : List WalRecord}
    (h : HoldsLogs dir logs) :
    (dir.flatMap fun f => logs.filter fun r => fileFirstLsn r.lsn = f.firstLsn).Perm logs := by
  have hclasses := flatMap_filter_perm (fun r : WalRecord => fileFirstLsn r.lsn) logs
    h.distinct h.covered
  rwa [List.flatMap_map] at hclasses

/-- A manager made on files that are read as a numbered log, in whatever order,
is that log. -/
theorem make_of_reads {dir : List LogFile} {logs : List WalRecord}
    {logsOf : LogFile → List WalRecord} (hne : dir ≠ []) (hnum : Numbered logs)
    (hperm : (dir.flatMap logsOf).Perm logs)
    (hread : ∀ f ∈ dir, readLogsFromFile uninit f = .ok (logsOf f)) :
    make uninit dir = .ok
      { dir := dir, nextLsn := logs.length + 1, flushedLsn := logs.length, flushed := logs } := by
  have hdir : (if dir.isEmpty then openLogfile dir 1 maxRecordsPerLogfile else dir) = dir :=
    if_neg (by rwa [List.isEmpty_iff])
  have hsort := List.mergeSort_perm dir fun f g => decide (f.firstLsn ≤ g.firstLsn)
  have hperm' := (hsort.flatMap_right logsOf).trans hperm
  unfold make hydrateCache
  simp only [hdir, hydrateLoop_eq uninit fun f hf => hread f (hsort.subset hf), List.nil_append,
    hnum.mergeSort_eq hperm']
  rw [hperm'.foldl_eq, foldl_bump hnum]
  cases hlast : logs.getLast? with
  | none =>
    rw [List.getLast?_eq_none_iff] at hlast
    rw [hlast]
    rfl
  | some r => simp only [hnum.getLast_lsn hlast]

/-- **A manager made on the files of a numbered log is that log**, whatever
order the files are listed in. -/
theorem make_eq {dir : List LogFile} {logs : List WalRecord} (h : HoldsLogs dir logs)
    (hnum : Numbered logs) (hfits : ∀ r ∈ logs, r.Fits) :
    ∃ dir', HoldsLogs dir' logs ∧ make uninit dir = .ok
      { dir := dir', nextLsn := logs.length + 1, flushedLsn := logs.length, flushed := logs } := by
  -- an empty directory gets its first file, which holds nothing
  obtain ⟨dir', hmake, hholds, hne⟩ : ∃ dir', make uninit dir = make uninit dir'
      ∧ HoldsLogs dir' logs ∧ dir' ≠ [] := by
    cases dir with
    | nil => exact ⟨[⟨1, maxRecordsPerLogfile, []⟩], rfl, (h.openLogfile 1).1, List.cons_ne_nil _ _⟩
    | cons f dir => exact ⟨f :: dir, rfl, h, List.cons_ne_nil _ _⟩
  refine ⟨dir', hholds, hmake.trans ?_⟩
  exact make_of_reads uninit hne hnum hholds.flatMap_perm
    fun f hf => hholds.readLogsFromFile uninit hfits hf

end Open

/-! ## Refinement -/

/-- **What the manager does.** A record is one the C++ types can hold, and the
LSN counter does not wrap; the directory is listed in any order when the log is
reopened. -/
inductive Step : FileWalManager → WalOp → FileWalManager → Prop
  | append (m : FileWalManager) (record : WalRecord) (hfits : record.FitsUnstamped)
      (hroom : m.nextLsn + 1 < 256 ^ 8) :
      Step m (.append record (m.appendLog record).1) (m.appendLog record).2
  | appendBatch (m : FileWalManager) (records : List WalRecord)
      (hfits : ∀ r ∈ records, r.FitsUnstamped) (hroom : m.nextLsn + records.length < 256 ^ 8) :
      Step m (.appendBatch records (m.appendLogs records).1) (m.appendLogs records).2
  | readLog (m : FileWalManager) (lsn : ℕ) : Step m (.readLog lsn (m.readLog lsn)) m
  | readAllLogs (m : FileWalManager) : Step m (.readAllLogs m.readAllLogs) m
  | flush (m : FileWalManager) : Step m .flush m.flush
  | waitForDurable (m : FileWalManager) (lsn : ℕ) {m' : FileWalManager}
      (h : m.waitForDurable lsn = .ok m') : Step m (.waitForDurable lsn) m'
  | reopen (m : FileWalManager) (uninit : ℕ → UInt8) {dir : List LogFile} {m' : FileWalManager}
      (hdir : dir.Perm m.dir) (h : make uninit dir = .ok m') : Step m .reopen m'

/-- **The manager `m` is the log `a`.** -/
structure Refines (m : FileWalManager) (a : AppendOnlyLog) : Prop where
  kept : m.readAllLogs = a.kept
  numbered : Numbered a.kept
  fits : ∀ r ∈ a.kept, r.Fits
  nextLsn : m.nextLsn = a.kept.length + 1
  durable : m.flushed.length = a.durable
  flushedLsn : m.flushedLsn = a.durable
  holds : HoldsLogs m.dir m.flushed

/-- One record gets its position in the list as LSN. -/
theorem appendLog_spec {m : FileWalManager} {a : AppendOnlyLog} (hkept : m.readAllLogs = a.kept)
    (hnext : m.nextLsn = a.kept.length + 1) (record : WalRecord) :
    (m.appendLog record).1 = a.kept.length + 1
      ∧ (m.appendLog record).2.readAllLogs = (a.push record).kept
      ∧ (m.appendLog record).2.nextLsn = (a.push record).kept.length + 1 := by
  refine ⟨hnext, ?_, ?_⟩
  · show m.flushed ++ (m.dirty ++ [stamp record m.nextLsn])
      = a.kept ++ [stamp record (a.kept.length + 1)]
    rw [← List.append_assoc, hnext, ← hkept, readAllLogs]
  · show m.nextLsn + 1 = (a.kept ++ [_]).length + 1
    rw [hnext, List.length_append, List.length_singleton]

/-- A batch returns the LSN of its last record. -/
theorem appendLogsLoop_spec {m : FileWalManager} {a : AppendOnlyLog}
    (hkept : m.readAllLogs = a.kept) (hnext : m.nextLsn = a.kept.length + 1)
    (records : List WalRecord) (lastLsn : ℕ) :
    (m.appendLogsLoop lastLsn records).1
        = (if records = [] then lastLsn else a.kept.length + records.length)
      ∧ (m.appendLogsLoop lastLsn records).2.readAllLogs
        = (records.foldl AppendOnlyLog.push a).kept := by
  induction records generalizing m a lastLsn with
  | nil => exact ⟨rfl, hkept⟩
  | cons r records ih =>
    obtain ⟨hlsn, hkept', hnext'⟩ := appendLog_spec hkept hnext r
    obtain ⟨hret, hall⟩ := ih hkept' hnext' (m.appendLog r).1
    refine ⟨?_, hall⟩
    rw [appendLogsLoop, hret, if_neg (List.cons_ne_nil r records)]
    split_ifs with hnil
    · rw [hlsn, hnil, List.length_singleton]
    · simp only [AppendOnlyLog.push, List.length_append, List.length_cons, List.length_nil]
      omega

/-- `read_log` finds a kept record with the LSN, or reports that there is
none. -/
theorem readLog_spec (m : FileWalManager) (lsn : ℕ) :
    (∃ r ∈ m.readAllLogs, r.lsn = lsn ∧ m.readLog lsn = .ok r)
      ∨ ((∀ r ∈ m.readAllLogs, r.lsn ≠ lsn) ∧ m.readLog lsn
        = .error (.runtimeError ("WAL record not found: LSN " ++ toString lsn))) := by
  unfold readLog readAllLogs
  cases hdirty : m.dirty.find? fun r => r.lsn = lsn with
  | some r =>
    refine .inl ⟨r, List.mem_append_right _ (List.mem_of_find?_eq_some hdirty), ?_, rfl⟩
    simpa using List.find?_some hdirty
  | none =>
    cases hflushed : m.flushed.find? fun r => r.lsn = lsn with
    | some r =>
      refine .inl ⟨r, List.mem_append_left _ (List.mem_of_find?_eq_some hflushed), ?_, rfl⟩
      simpa using List.find?_some hflushed
    | none =>
      refine .inr ⟨fun r hr => ?_, rfl⟩
      rw [List.find?_eq_none] at hdirty hflushed
      rcases List.mem_append.mp hr with hr | hr
      · simpa using hflushed r hr
      · simpa using hdirty r hr

namespace Refines

variable {m m' : FileWalManager} {a : AppendOnlyLog}

theorem flushed_eq (h : Refines m a) : m.flushed = a.kept.take a.durable := by
  rw [← h.kept, ← h.durable, readAllLogs, List.take_left]

theorem durable_le (h : Refines m a) : a.durable ≤ a.kept.length := by
  rw [← h.durable, ← h.kept, readAllLogs, List.length_append]
  exact Nat.le_add_right _ _

/-- An appended record goes to the end of the list. -/
theorem appendLog (h : Refines m a) {record : WalRecord} (hfits : record.FitsUnstamped)
    (hroom : m.nextLsn < 256 ^ 8) : Refines (m.appendLog record).2 (a.push record) := by
  obtain ⟨-, hkept, hnext⟩ := appendLog_spec h.kept h.nextLsn record
  refine ⟨hkept, h.numbered.snoc record, ?_, hnext, h.durable, h.flushedLsn, h.holds⟩
  intro r hr
  rcases List.mem_append.mp hr with hr | hr
  · exact h.fits r hr
  · rw [List.mem_singleton.mp hr]
    exact ⟨h.nextLsn ▸ hroom, hfits⟩

/-- A batch is appended record by record. -/
theorem appendLogsLoop (h : Refines m a) {records : List WalRecord}
    (hfits : ∀ r ∈ records, r.FitsUnstamped) (hroom : m.nextLsn + records.length < 256 ^ 8)
    (lastLsn : ℕ) :
    Refines (m.appendLogsLoop lastLsn records).2 (records.foldl AppendOnlyLog.push a) := by
  induction records generalizing m a lastLsn with
  | nil => exact h
  | cons r records ih =>
    rw [List.length_cons] at hroom
    have hrel := h.appendLog (hfits r List.mem_cons_self) (by omega)
    refine ih hrel (fun r' hr' => hfits r' (List.mem_cons_of_mem r hr')) ?_ (m.appendLog r).1
    show m.nextLsn + 1 + records.length < 256 ^ 8
    omega

/-- A flush makes everything durable. -/
theorem flush (h : Refines m a) : Refines m.flush { a with durable := a.kept.length } := by
  unfold FileWalManager.flush
  cases hlast : m.dirty.getLast? with
  | none =>
    -- nothing to flush: everything already is durable
    rw [List.getLast?_eq_none_iff] at hlast
    have hdur : a.durable = a.kept.length := by
      rw [← h.durable, ← h.kept, readAllLogs, hlast, List.append_nil]
    show Refines m { a with durable := a.kept.length }
    rw [← hdur]
    exact h
  | some last =>
    have hkept : a.kept.getLast? = some last := by
      rw [← h.kept, readAllLogs, List.getLast?_append, hlast]
      rfl
    have hlsn := h.numbered.getLast_lsn hkept
    have hmax : (if last.lsn > m.flushedLsn then last.lsn else m.flushedLsn)
        = a.kept.length := by
      have hle := h.durable_le
      rw [h.flushedLsn, hlsn]
      split_ifs <;> omega
    refine ⟨?_, h.numbered, h.fits, h.nextLsn, ?_, hmax, h.holds.writeLogs m.dirty⟩
    · show m.flushed ++ m.dirty ++ [] = a.kept
      rw [List.append_nil, ← h.kept, readAllLogs]
    · show (m.flushed ++ m.dirty).length = a.kept.length
      rw [← h.kept, readAllLogs]

/-- **Waiting returns exactly for the LSNs already given out**, and then makes
them durable. -/
theorem waitForDurable (h : Refines m a) (lsn : ℕ) :
    (lsn ≤ a.durable → m.waitForDurable lsn = .ok m)
      ∧ (a.durable < lsn → lsn ≤ a.kept.length → m.waitForDurable lsn = .ok m.flush)
      ∧ (a.kept.length < lsn → m.waitForDurable lsn = .error .divergence) := by
  have hflush : m.flush.flushedLsn = a.kept.length := h.flush.flushedLsn
  have hflush₂ : m.flush.flush.flushedLsn = a.kept.length := h.flush.flush.flushedLsn
  have hle := h.durable_le
  unfold FileWalManager.waitForDurable
  simp only [waitForDurableLoop, h.flushedLsn, hflush, hflush₂]
  refine ⟨fun h₁ => ?_, fun h₁ h₂ => ?_, fun h₁ => ?_⟩
  · rw [if_neg (by omega)]
  · rw [if_pos h₁, if_neg (by omega)]
  · rw [if_pos (by omega), if_pos h₁, if_pos h₁]

/-- Every LSN given out is that of a kept record. -/
theorem exists_lsn (h : Refines m a) {lsn : ℕ} (h₁ : 1 ≤ lsn) (h₂ : lsn ≤ a.kept.length) :
    ∃ r, a.kept[lsn - 1]? = some r ∧ r.lsn = lsn := by
  have hlt : lsn - 1 < a.kept.length := by omega
  refine ⟨a.kept[lsn - 1], List.getElem?_eq_getElem hlt, ?_⟩
  rw [h.numbered.lsn_get (List.getElem?_eq_getElem hlt)]
  omega

/-- **Reading one record** is looking it up in the list. -/
theorem readLog (h : Refines m a) (lsn : ℕ) :
    AppendOnlyLog.Step a (.readLog lsn (m.readLog lsn)) a := by
  rcases readLog_spec m lsn with ⟨r, hr, hlsn, hread⟩ | ⟨hnone, hread⟩
  · rw [hread]
    rw [h.kept] at hr
    obtain ⟨i, hi⟩ := List.mem_iff_getElem?.mp hr
    rw [← hlsn, h.numbered.lsn_get hi]
    exact .readLog a i r hi
  · rw [hread]
    refine .readLogMissing a lsn ?_
    by_contra hcon
    rw [not_or, not_lt] at hcon
    obtain ⟨r, hr, hlsn⟩ := h.exists_lsn (Nat.one_le_iff_ne_zero.mpr hcon.1) hcon.2
    rw [h.kept] at hnone
    exact hnone r (List.mem_of_getElem? hr) hlsn

/-- A record is found exactly under its position. -/
theorem readLog_eq_ok (h : Refines m a) {lsn : ℕ} {r : WalRecord} :
    m.readLog lsn = .ok r ↔ 1 ≤ lsn ∧ a.kept[lsn - 1]? = some r := by
  have hread := h.readLog lsn
  constructor
  · intro hok
    rw [hok] at hread
    cases hread with
    | readLog i r hi => exact ⟨Nat.le_add_left 1 i, hi⟩
  · rintro ⟨hpos, hr⟩
    have hlt := (List.getElem?_eq_some_iff.mp hr).1
    generalize m.readLog lsn = res at hread
    cases hread with
    | readLog i r' hi =>
      rw [Nat.add_sub_cancel, hi, Option.some.injEq] at hr
      rw [hr]
    | readLogMissing lsn hmiss => omega

/-- **Reopening keeps exactly the durable records**, and always succeeds. -/
theorem make (h : Refines m a) (uninit : ℕ → UInt8) {dir : List LogFile}
    (hdir : dir.Perm m.dir) :
    ∃ m', FileWalManager.make uninit dir = .ok m'
      ∧ Refines m' { a with kept := a.kept.take a.durable } := by
  have hflushed := h.flushed_eq
  have hnum : Numbered m.flushed := hflushed ▸ h.numbered.take a.durable
  have hfits : ∀ r ∈ m.flushed, r.Fits := by
    intro r hr
    exact h.fits r (List.mem_of_mem_take (hflushed ▸ hr))
  obtain ⟨dir', hholds, hmake⟩ := make_eq uninit (h.holds.perm hdir) hnum hfits
  refine ⟨_, hmake, ?_⟩
  rw [← hflushed]
  exact ⟨List.append_nil _, hnum, hfits, rfl, h.durable, h.durable, hholds⟩

/-- **Every step of the manager is a step of the list**, with the same
answers. -/
theorem step (h : Refines m a) {op : WalOp} (hstep : Step m op m') :
    ∃ a', AppendOnlyLog.Step a op a' ∧ Refines m' a' := by
  cases hstep with
  | append record hfits hroom =>
    rw [(appendLog_spec h.kept h.nextLsn record).1]
    exact ⟨_, .append a record, h.appendLog hfits (by omega)⟩
  | appendBatch records hfits hroom =>
    unfold appendLogs
    rw [(appendLogsLoop_spec h.kept h.nextLsn records 0).1]
    exact ⟨_, .appendBatch a records, h.appendLogsLoop hfits hroom 0⟩
  | readLog lsn => exact ⟨a, h.readLog lsn, h⟩
  | readAllLogs =>
    rw [h.kept]
    exact ⟨a, .readAllLogs a, h⟩
  | flush => exact ⟨_, .flush a, h.flush⟩
  | waitForDurable lsn hwait =>
    obtain ⟨hdone, hflush, hnever⟩ := h.waitForDurable lsn
    rcases le_or_gt lsn a.durable with hle | hgt
    · rw [hdone hle, Except.ok.injEq] at hwait
      refine ⟨_, .waitForDurable a lsn (hle.trans h.durable_le), ?_⟩
      rw [if_pos hle, ← hwait]
      exact h
    · rcases le_or_gt lsn a.kept.length with hle' | hgt'
      · rw [hflush hgt hle', Except.ok.injEq] at hwait
        refine ⟨_, .waitForDurable a lsn hle', ?_⟩
        rw [if_neg (not_le.mpr hgt), ← hwait]
        exact h.flush
      · rw [hnever hgt'] at hwait
        exact absurd hwait (by simp)
  | reopen uninit hdir hmake =>
    obtain ⟨m₁, hmake', hrel⟩ := h.make uninit hdir
    rw [hmake', Except.ok.injEq] at hmake
    exact ⟨_, .reopen a, hmake ▸ hrel⟩

end Refines

/-- A manager on an empty directory. -/
def fresh : FileWalManager := { dir := [⟨1, maxRecordsPerLogfile, []⟩] }

/-- It is what the constructor makes of an empty directory. -/
theorem make_nil (uninit : ℕ → UInt8) : make uninit [] = .ok fresh := by
  simp [make, hydrateCache, hydrateLoop, openLogfile, readLogsFromFile, readLogsLoop, fresh]

theorem refines_fresh : Refines fresh {} where
  kept := rfl
  numbered := rfl
  fits r hr := absurd hr List.not_mem_nil
  nextLsn := rfl
  durable := rfl
  flushedLsn := rfl
  holds := by
    refine ⟨?_, by simp [fresh], ?_, fun r hr => absurd hr List.not_mem_nil⟩
    · intro f hf
      rw [List.mem_singleton.mp hf]
      rfl
    · intro f hf
      rw [List.mem_singleton.mp hf]
      rfl

/-- **The log manager refines an append-only list.** Every run of a manager on
an empty directory is a run of the abstract log with the same answers; and in
the state it reaches:
record number `i` has LSN `i`; one appended record gets the next LSN and a
non-empty batch returns the LSN of its last record, while an empty batch
returns `0` and changes nothing; all records are read back in order; a record
is found exactly under the LSNs given out; reopening always succeeds; what was
waited for survives everything that comes later; and every file holds durable
records of its range only, every durable record being in one. -/
theorem refines_appendOnlyLog {ops : List WalOp} {m : FileWalManager}
    (hrun : Run Step fresh ops m) :
    ∃ a, Run AppendOnlyLog.Step {} ops a
      ∧ (∀ i r, a.kept[i]? = some r → r.lsn = i + 1)
      ∧ m.getNextLsn = a.kept.length + 1
      ∧ (∀ record, (m.appendLog record).1 = a.kept.length + 1
          ∧ (m.appendLog record).2.readAllLogs
              = a.kept ++ [stamp record (a.kept.length + 1)])
      ∧ (∀ records, records ≠ [] →
          (m.appendLogs records).1 = a.kept.length + records.length
          ∧ (m.appendLogs records).2.readAllLogs = (records.foldl AppendOnlyLog.push a).kept)
      ∧ m.appendLogs [] = (0, m)
      ∧ m.readAllLogs = a.kept
      ∧ (∀ lsn r, m.readLog lsn = .ok r ↔ 1 ≤ lsn ∧ a.kept[lsn - 1]? = some r)
      ∧ (∀ lsn, (∃ r, m.readLog lsn = .ok r) ↔ 1 ≤ lsn ∧ lsn < m.getNextLsn)
      ∧ (∀ uninit dir, dir.Perm m.dir → ∃ m', make uninit dir = .ok m')
      ∧ (∀ lsn m', m.waitForDurable lsn = .ok m' →
          lsn ≤ a.kept.length ∧ ∀ ops' m'', Run Step m' ops' m'' →
            m''.readAllLogs.take lsn = a.kept.take lsn)
      ∧ (∀ uninit f, f ∈ m.dir → ∃ logs, readLogsFromFile uninit f = .ok logs
          ∧ ∀ r ∈ logs, f.firstLsn ≤ r.lsn ∧ r.lsn ≤ f.lastLsn)
      ∧ (∀ uninit, ∀ r ∈ a.kept.take a.durable, ∃ f ∈ m.dir, ∃ logs,
          readLogsFromFile uninit f = .ok logs ∧ r ∈ logs) := by
  obtain ⟨a, hspec, h⟩ := hrun.simulation (fun _ _ _ _ hrel hstep => hrel.step hstep)
    refines_fresh
  refine ⟨a, hspec, fun i r => h.numbered.lsn_get, h.nextLsn, ?_, ?_, rfl, h.kept, ?_, ?_, ?_, ?_,
    ?_, ?_⟩
  · intro record
    obtain ⟨hlsn, hkept, -⟩ := appendLog_spec h.kept h.nextLsn record
    exact ⟨hlsn, hkept⟩
  · intro records hne
    obtain ⟨hlsn, hkept⟩ := appendLogsLoop_spec h.kept h.nextLsn records 0
    rw [if_neg hne] at hlsn
    exact ⟨hlsn, hkept⟩
  · exact fun lsn r => h.readLog_eq_ok
  · intro lsn
    constructor
    · rintro ⟨r, hr⟩
      obtain ⟨hpos, hi⟩ := h.readLog_eq_ok.mp hr
      have hlt := (List.getElem?_eq_some_iff.mp hi).1
      refine ⟨hpos, ?_⟩
      rw [getNextLsn, h.nextLsn]
      omega
    · rintro ⟨hpos, hlt⟩
      rw [getNextLsn, h.nextLsn] at hlt
      obtain ⟨r, hr, -⟩ := h.exists_lsn hpos (Nat.le_of_lt_succ hlt)
      exact ⟨r, h.readLog_eq_ok.mpr ⟨hpos, hr⟩⟩
  · intro uninit dir hdir
    obtain ⟨m', hmake, -⟩ := h.make uninit hdir
    exact ⟨m', hmake⟩
  · intro lsn m' hwait
    obtain ⟨a', hstep, h'⟩ := h.step (.waitForDurable m lsn hwait)
    have hdur : AppendOnlyLog.DurablePrefix lsn (a.kept.take lsn) a' ∧ lsn ≤ a.kept.length := by
      have hle' := h'.durable_le
      cases hstep with
      | waitForDurable _ hle =>
        refine ⟨⟨?_, hle', rfl⟩, hle⟩
        show lsn ≤ if lsn ≤ a.durable then a.durable else a.kept.length
        split_ifs with hcond
        exacts [hcond, hle]
    refine ⟨hdur.2, fun ops' m'' hrun' => ?_⟩
    obtain ⟨b, hspec', hb⟩ := hrun'.simulation (fun _ _ _ _ hrel hstep => hrel.step hstep) h'
    rw [hb.kept]
    exact (hspec'.invariant (fun _ _ _ hP hstep => hP.step hstep) hdur.1).2.2
  · intro uninit f hf
    have hfits : ∀ r ∈ m.flushed, r.Fits := fun r hr =>
      h.fits r (h.kept ▸ List.mem_append_left _ hr)
    refine ⟨_, h.holds.readLogsFromFile uninit hfits hf, fun r hr => ?_⟩
    obtain ⟨hr, hfirst⟩ := List.mem_filter.mp hr
    have hpos : 1 ≤ r.lsn :=
      (h.numbered.lsn_bounds (h.kept ▸ List.mem_append_left _ hr)).1
    have hbounds := fileFirstLsn_bounds hpos
    rw [of_decide_eq_true hfirst, ← h.holds.lastLsn f hf] at hbounds
    exact hbounds
  · intro uninit r hr
    rw [← h.flushed_eq] at hr
    have hfits : ∀ r ∈ m.flushed, r.Fits := fun r hr =>
      h.fits r (h.kept ▸ List.mem_append_left _ hr)
    obtain ⟨f, hf, hfirst⟩ := List.mem_map.mp (h.holds.covered r hr)
    refine ⟨f, hf, _, h.holds.readLogsFromFile uninit hfits hf, List.mem_filter.mpr ⟨hr, ?_⟩⟩
    exact decide_eq_true hfirst.symm

/-- A run that appends a record, waits for it and appends a batch of two. -/
theorem refines_appendOnlyLog_waited :
    ∃ m, Run Step fresh [.append { body := .beginTxn } 1, .waitForDurable 1,
        .appendBatch [{ body := .commitTxn }, { body := .beginTxn }] 3] m
      ∧ ∃ a : AppendOnlyLog, m.readAllLogs = a.kept ∧ m.getNextLsn = a.kept.length + 1 := by
  have hrun : Run Step fresh [.append { body := .beginTxn } 1, .waitForDurable 1,
      .appendBatch [{ body := .commitTxn }, { body := .beginTxn }] 3] _ :=
    .cons (.append fresh { body := .beginTxn } (by decide) (by decide))
      (.cons (.waitForDurable _ 1 rfl)
        (.cons (.appendBatch _ [{ body := .commitTxn }, { body := .beginTxn }]
          (by decide) (by decide)) (.nil _)))
  obtain ⟨a, -, -, hnext, -, -, -, hkept, -⟩ := refines_appendOnlyLog hrun
  exact ⟨_, hrun, a, hkept, hnext⟩

/-- **A batch does not return the next LSN in general**: an empty one returns
`0`, which is the LSN of no record. -/
theorem appendLogs_ne_next :
    ¬ ∀ (ops : List WalOp) (m : FileWalManager) (records : List WalRecord),
      Run Step fresh ops m → (m.appendLogs records).1 = m.readAllLogs.length + 1 := by
  intro h
  have hempty := h [] fresh [] (.nil fresh)
  exact absurd hempty (by decide)

end FileWalManager
