import Deltabase.Wal.AppendOnlyLog

/-!
# A log whose last record is torn

A crash while a record is being written leaves its first bytes at the end of
the file. The reader stops at them, so the log that is reopened is the one
without the record. But it does not remove them, and the next record is written
behind them: the reader then takes the torn bytes for the size and the
beginning of a record, and everything behind them is read at the wrong place.

So records appended after a torn one are read back if nothing was left of it. For
every other crash point there is a record that is not read back: whatever the
torn bytes are, the type the reader finds at the place of the next record is not
both of two types (`HoldsTorn.not_recovers`). If nothing is appended nothing is
lost, unless the torn bytes end within the size of the record and look like a
size of zero (`PassedOver`).
-/

namespace Decoder

variable {α β : Type}

/-- Every value the decoder can return has the property. -/
def Yields (d : Decoder α) (P : α → Prop) : Prop := ∀ bs a rest, d bs = some (a, rest) → P a

theorem yields_pure {P : α → Prop} {a : α} (h : P a) : Yields (pure a) P := by
  rintro bs b rest ⟨⟩
  exact h

theorem yields_fail {P : α → Prop} : Yields (fail : Decoder α) P := fun _ _ _ h => nomatch h

theorem Yields.bind {d : Decoder α} {f : α → Decoder β} {P : β → Prop}
    (h : ∀ a, Yields (f a) P) : Yields (d >>= f) P := by
  intro bs b rest hb
  obtain ⟨a, rest', -, hb⟩ := bind_eq_some.mp hb
  exact h a rest' b rest hb

end Decoder

namespace StdWalSerializer

variable (uninit : ℕ → UInt8)

/-- Every case returns the alternative of its type. -/
theorem yields_deserializeBody (type : ℕ) :
    (deserializeBody uninit type).Yields fun b => b.type = type := by
  unfold deserializeBody
  split <;>
    repeat' first
      | with_reducible refine Decoder.Yields.bind fun _ => ?_
      | with_reducible exact Decoder.yields_fail
      | with_reducible refine Decoder.yields_pure ?_
  all_goals rfl

/-- A record has the type its first eight bytes say. -/
theorem type_of_deserialize {bs cs rest : Bytes} {r : WalRecord} (hlen : bs.length = 8)
    (h : deserialize uninit (bs ++ cs) = some (r, rest)) : r.body.type = leNat bs := by
  unfold deserialize at h
  obtain ⟨type, _, htype, hlsn⟩ := Decoder.bind_eq_some.mp h
  obtain ⟨lsn, _, -, hprev⟩ := Decoder.bind_eq_some.mp hlsn
  obtain ⟨prevLsn, _, -, htxn⟩ := Decoder.bind_eq_some.mp hprev
  obtain ⟨txnId, _, -, hrest⟩ := Decoder.bind_eq_some.mp htxn
  obtain ⟨body, _, hbody, hr⟩ := Decoder.bind_eq_some.mp hrest
  rw [reads_readU64Some_bytes uninit hlen cs] at htype
  have hbs : leNat bs = type := (Prod.mk.inj (Option.some.inj htype)).1
  have hrec := (Prod.mk.inj (Option.some.inj hr)).1
  rw [← hrec, hbs]
  exact yields_deserializeBody uninit type _ body _ hbody

end StdWalSerializer

namespace FileWalManager

open StdWalSerializer

/-- **The crash.** Of the entry of the record, the last one in its file, the
first `k` bytes are left. -/
def tear (dir : List LogFile) (record : WalRecord) (k : ℕ) : List LogFile :=
  dir.map fun f =>
    if f.firstLsn = fileFirstLsn record.lsn then
      { f with content :=
          f.content.take (f.content.length - ((logfileEntry record).length - k)) }
    else f

/-- **The files hold these records, and one of them something more**, behind
the records it holds. -/
structure HoldsTorn (dir : List LogFile) (logs : List WalRecord) (first : ℕ) (t : Bytes) :
    Prop where
  lastLsn : ∀ f ∈ dir, f.lastLsn = f.firstLsn + maxRecordsPerLogfile - 1
  distinct : (dir.map LogFile.firstLsn).Nodup
  content : ∀ f ∈ dir,
    f.content = (logs.filter fun r => fileFirstLsn r.lsn = f.firstLsn).flatMap logfileEntry
      ++ if f.firstLsn = first then t else []
  covered : ∀ r ∈ logs, fileFirstLsn r.lsn ∈ dir.map LogFile.firstLsn
  mem : first ∈ dir.map LogFile.firstLsn

/-- A crash leaves the records before the torn one, and what is left of that. -/
theorem HoldsLogs.tear {dir : List LogFile} {logs : List WalRecord} {r : WalRecord} {k : ℕ}
    (h : HoldsLogs dir (logs ++ [r])) (hk : k ≤ (logfileEntry r).length) :
    HoldsTorn (tear dir r k) logs (fileFirstLsn r.lsn) ((logfileEntry r).take k) := by
  have hnames : (FileWalManager.tear dir r k).map LogFile.firstLsn = dir.map LogFile.firstLsn := by
    unfold FileWalManager.tear
    rw [List.map_map]
    refine List.map_congr_left fun f _ => ?_
    show (if _ then _ else _ : LogFile).firstLsn = _
    split_ifs <;> rfl
  refine ⟨?_, hnames ▸ h.distinct, ?_, ?_, ?_⟩
  · intro f hf
    obtain ⟨g, hg, rfl⟩ := List.mem_map.mp hf
    have hlast := h.lastLsn g hg
    split_ifs
    exacts [hlast, hlast]
  · intro f hf
    obtain ⟨g, hg, rfl⟩ := List.mem_map.mp hf
    have hcontent := h.content g hg
    rw [List.filter_append, List.flatMap_append] at hcontent
    by_cases hfirst : g.firstLsn = fileFirstLsn r.lsn
    · rw [List.filter_cons_of_pos (by simpa using hfirst.symm), List.filter_nil,
        List.flatMap_singleton] at hcontent
      rw [if_pos hfirst]
      show g.content.take (g.content.length - ((logfileEntry r).length - k))
        = _ ++ if _ then _ else _
      rw [if_pos hfirst, hcontent, List.length_append,
        show ∀ n, n + (logfileEntry r).length - ((logfileEntry r).length - k) = n + k by omega,
        List.take_length_add_append]
    · rw [List.filter_cons_of_neg (by simpa using fun h => hfirst h.symm), List.filter_nil,
        List.flatMap_nil, List.append_nil] at hcontent
      rw [if_neg hfirst, if_neg hfirst, hcontent, List.append_nil]
  · intro r' hr'
    rw [hnames]
    exact h.covered r' (List.mem_append_left _ hr')
  · rw [hnames]
    exact h.covered r (by simp)

namespace HoldsTorn

variable {dir dir' : List LogFile} {logs : List WalRecord} {first : ℕ} {t : Bytes}

theorem perm (h : HoldsTorn dir logs first t) (hperm : dir'.Perm dir) :
    HoldsTorn dir' logs first t where
  lastLsn f hf := h.lastLsn f (hperm.subset hf)
  distinct := (hperm.map _).nodup_iff.mpr h.distinct
  content f hf := h.content f (hperm.subset hf)
  covered r hr := (hperm.map _).mem_iff.mpr (h.covered r hr)
  mem := (hperm.map _).mem_iff.mpr h.mem

theorem ne_nil (h : HoldsTorn dir logs first t) : dir ≠ [] := by
  rintro rfl
  exact absurd h.mem List.not_mem_nil

/-- Nothing was left of the torn record. -/
theorem holdsLogs (h : HoldsTorn dir logs first []) : HoldsLogs dir logs where
  lastLsn := h.lastLsn
  distinct := h.distinct
  content f hf := by
    rw [h.content f hf, ite_self, List.append_nil]
  covered := h.covered

/-- **What is written next comes behind the torn bytes.** -/
theorem writeLogs (h : HoldsTorn dir logs first t) {s : WalRecord}
    (hs : fileFirstLsn s.lsn = first) :
    HoldsTorn (FileWalManager.writeLogs dir [s]) logs first (t ++ logfileEntry s) := by
  obtain ⟨f₀, hf₀, hfirst⟩ := List.mem_map.mp h.mem
  have hopen : openLogfile dir (fileFirstLsn s.lsn) (fileLastLsn s.lsn) = dir := by
    refine if_pos (List.any_eq_true.mpr ⟨f₀, hf₀, decide_eq_true ⟨hfirst.trans hs.symm, ?_⟩⟩)
    rw [h.lastLsn f₀ hf₀, hfirst, fileLastLsn, hs]
  have hwrite : FileWalManager.writeLogs dir [s]
      = appendToLogfile dir first (first + maxRecordsPerLogfile - 1) (logfileEntry s) := by
    show appendToLogfile (if _ then _ else openLogfile dir _ _) _ _ _ = _
    rw [if_neg (by simp), hopen, fileLastLsn, hs]
  have hnames : (appendToLogfile dir first (first + maxRecordsPerLogfile - 1)
      (logfileEntry s)).map LogFile.firstLsn = dir.map LogFile.firstLsn := by
    unfold appendToLogfile
    rw [List.map_map]
    refine List.map_congr_left fun f _ => ?_
    show (if _ then _ else _ : LogFile).firstLsn = _
    split_ifs <;> rfl
  rw [hwrite]
  refine ⟨?_, hnames ▸ h.distinct, ?_, hnames ▸ h.covered, hnames ▸ h.mem⟩
  · intro f hf
    obtain ⟨g, hg, rfl⟩ := List.mem_map.mp hf
    have hlast := h.lastLsn g hg
    split_ifs
    exacts [hlast, hlast]
  · intro f hf
    obtain ⟨g, hg, rfl⟩ := List.mem_map.mp hf
    have hcontent := h.content g hg
    by_cases hg₀ : g.firstLsn = first
    · rw [if_pos ⟨hg₀, by rw [h.lastLsn g hg, hg₀]⟩]
      show g.content ++ logfileEntry s = _ ++ if _ then _ else _
      rw [if_pos hg₀, hcontent, if_pos hg₀, List.append_assoc]
    · rw [if_neg fun hname => hg₀ hname.1, hcontent, if_neg hg₀, if_neg hg₀]

/-- The records of the files, without what is behind them. -/
theorem flatMap_perm (h : HoldsTorn dir logs first t) :
    (dir.flatMap fun f => logs.filter fun r => fileFirstLsn r.lsn = f.firstLsn).Perm logs := by
  have hclasses := flatMap_filter_perm (fun r : WalRecord => fileFirstLsn r.lsn) logs
    h.distinct h.covered
  rwa [List.flatMap_map] at hclasses

end HoldsTorn

/-! ## Reading a torn log -/

/-- The list at one of distinct numbers. -/
theorem flatMap_ite_eq {α : Type*} {l : List ℕ} {a : ℕ} (X : List α) (hl : l.Nodup) (ha : a ∈ l) :
    (l.flatMap fun n => if n = a then X else []) = X := by
  induction l with
  | nil => exact absurd ha List.not_mem_nil
  | cons n l ih =>
    rw [List.nodup_cons] at hl
    rw [List.flatMap_cons]
    by_cases hn : n = a
    · have hrest : (l.flatMap fun m => if m = a then X else []) = [] := by
        refine List.flatMap_eq_nil_iff.mpr fun m hm => if_neg ?_
        rintro rfl
        exact hl.1 (hn ▸ hm)
      rw [if_pos hn, hrest, List.append_nil]
    · rw [if_neg hn, List.nil_append, ih hl.2 ((List.mem_cons.mp ha).resolve_left (Ne.symm hn))]

section Open

variable (uninit : ℕ → UInt8)

/-- A manager is only made when every file can be read. -/
theorem hydrateLoop_reads {files : List LogFile} {m m' : FileWalManager}
    (h : hydrateLoop uninit m files = .ok m') :
    ∀ f ∈ files, ∃ logs, readLogsFromFile uninit f = .ok logs := by
  induction files generalizing m with
  | nil => exact fun f hf => absurd hf List.not_mem_nil
  | cons g files ih =>
    unfold hydrateLoop at h
    cases hg : readLogsFromFile uninit g with
    | error e => rw [hg] at h; cases h
    | ok logs =>
      rw [hg] at h
      exact List.forall_mem_cons.mpr ⟨⟨logs, hg⟩, ih h⟩

/-- What the loop over the files leaves, once it has read them all. -/
theorem hydrateLoop_ok {files : List LogFile} {m m' : FileWalManager}
    (h : hydrateLoop uninit m files = .ok m') :
    ∃ logsOf : LogFile → List WalRecord,
      (∀ f ∈ files, readLogsFromFile uninit f = .ok (logsOf f))
        ∧ m' = { m with
            flushed := m.flushed ++ files.flatMap logsOf
            nextLsn := (files.flatMap logsOf).foldl bump m.nextLsn } := by
  choose! logsOf hlogsOf using hydrateLoop_reads uninit h
  rw [hydrateLoop_eq uninit hlogsOf, Except.ok.injEq] at h
  exact ⟨logsOf, hlogsOf, h.symm⟩

/-- **A manager holds what its files are read as.** -/
theorem exists_reads_of_make {dir : List LogFile} {m : FileWalManager} (hne : dir ≠ [])
    (h : make uninit dir = .ok m) :
    ∃ logsOf : LogFile → List WalRecord, (∀ f ∈ dir, readLogsFromFile uninit f = .ok (logsOf f))
      ∧ m.readAllLogs.Perm (dir.flatMap logsOf) := by
  have hdir : (if dir.isEmpty then openLogfile dir 1 maxRecordsPerLogfile else dir) = dir :=
    if_neg (by rwa [List.isEmpty_iff])
  have hsort := List.mergeSort_perm dir fun f g => decide (f.firstLsn ≤ g.firstLsn)
  unfold make hydrateCache at h
  simp only [hdir] at h
  cases hloop : hydrateLoop uninit { dir := dir }
      (dir.mergeSort fun f g => decide (f.firstLsn ≤ g.firstLsn)) with
  | error e => rw [hloop] at h; cases h
  | ok m' =>
    obtain ⟨logsOf, hlogsOf, rfl⟩ := hydrateLoop_ok uninit hloop
    rw [hloop] at h
    obtain rfl := Except.ok.inj h
    refine ⟨logsOf, fun f hf => hlogsOf f (hsort.mem_iff.mpr hf), ?_⟩
    unfold readAllLogs
    rw [List.append_nil, List.nil_append]
    exact (List.mergeSort_perm _ _).trans (hsort.flatMap_right logsOf)

/-- **A manager on torn files** holds the whole records and what the torn bytes
are read as. -/
theorem HoldsTorn.exists_of_make {dir : List LogFile} {logs : List WalRecord} {first : ℕ}
    {t : Bytes} {m : FileWalManager} (h : HoldsTorn dir logs first t) (hfits : ∀ r ∈ logs, r.Fits)
    (hmake : make uninit dir = .ok m) :
    ∃ rounds X, t.length ≤ rounds ∧ readLogsLoop uninit rounds t = .ok X
      ∧ m.readAllLogs.Perm (logs ++ X)
      ∧ ∀ f ∈ dir, readLogsFromFile uninit f
          = .ok ((logs.filter fun r => fileFirstLsn r.lsn = f.firstLsn)
            ++ if f.firstLsn = first then X else []) := by
  obtain ⟨logsOf, hread, hperm⟩ := exists_reads_of_make uninit h.ne_nil hmake
  have hfiltered : ∀ f : LogFile, ∀ r ∈ logs.filter fun r => fileFirstLsn r.lsn = f.firstLsn,
      r.Fits := fun f r hr => hfits r (List.mem_of_mem_filter hr)
  obtain ⟨f₀, hf₀, hfirst⟩ := List.mem_map.mp h.mem
  -- the torn bytes are those of one file, and were read with it
  have hcontent := h.content f₀ hf₀
  rw [if_pos hfirst] at hcontent
  obtain ⟨rounds, hrounds, hloop⟩ := readLogsFromFile_append uninit (hfiltered f₀) hcontent
  rw [hread f₀ hf₀] at hloop
  cases hX : readLogsLoop uninit rounds t with
  | error e => rw [hX] at hloop; cases hloop
  | ok X =>
    have hall : ∀ f ∈ dir, logsOf f = (logs.filter fun r => fileFirstLsn r.lsn = f.firstLsn)
        ++ if f.firstLsn = first then X else [] := by
      intro f hf
      by_cases hf₁ : f.firstLsn = first
      · obtain rfl := List.inj_on_of_nodup_map h.distinct hf hf₀ (hf₁.trans hfirst.symm)
        rw [hX] at hloop
        rw [if_pos hf₁]
        exact Except.ok.inj hloop
      · have hcontent := h.content f hf
        rw [if_neg hf₁] at hcontent
        obtain ⟨rounds', -, hloop'⟩ := readLogsFromFile_append uninit (hfiltered f) hcontent
        rw [hread f hf] at hloop'
        rw [if_neg hf₁]
        cases rounds' <;> exact Except.ok.inj hloop'
    refine ⟨rounds, X, hrounds, hX, hperm.trans ?_, fun f hf => by rw [hread f hf, hall f hf]⟩
    rw [List.flatMap_congr hall]
    have hX : (dir.flatMap fun f => if f.firstLsn = first then X else []) = X := by
      have hnames := flatMap_ite_eq X h.distinct h.mem
      rwa [List.flatMap_map] at hnames
    refine (List.flatMap_append_perm dir _ _).symm.trans ?_
    rw [hX]
    exact h.flatMap_perm.append_right X

/-- What is missing of eight bytes is what the variable held. -/
theorem readU64Some_of_le {bs : Bytes} (hne : bs ≠ []) (hle : bs.length ≤ 8) :
    readU64Some uninit bs
      = some (leNat (bs ++ ((List.range 8).map uninit).drop bs.length), []) := by
  have hlen : ((List.range 8).map uninit).length = 8 := by simp
  have hpos : bs.length ≠ 0 := (List.length_pos_iff.mpr hne).ne'
  have hread : ReadOnlyMemoryStream.read ((List.range 8).map uninit) bs
      = some ((bs.length, bs ++ ((List.range 8).map uninit).drop bs.length), []) := by
    unfold ReadOnlyMemoryStream.read
    simp only [hlen, Nat.min_eq_right hle, List.take_length, List.drop_length]
  have hsome : ReadOnlyMemoryStream.readSome ((List.range 8).map uninit) bs
      = some (bs ++ ((List.range 8).map uninit).drop bs.length, []) := by
    unfold ReadOnlyMemoryStream.readSome
    rw [Decoder.bind_of_eq_some hread, if_neg hpos]
    rfl
  unfold readU64Some
  rw [Decoder.bind_of_eq_some hsome]
  rfl

/-- **Torn bytes the reader passes over**: there are none, or they hold the whole
size of the record, or a part of it that is not zero. (What is missing of the
size is whatever the variable held before, and a size of zero is taken for that
of a record.) -/
def PassedOver (r : WalRecord) (k : ℕ) : Prop :=
  k = 0 ∨ 8 ≤ k ∨ ¬ 256 ^ k ∣ (serialize r).size

/-- A part of the size. -/
theorem take_logfileEntry {r : WalRecord} {k : ℕ} (hk : k ≤ 8) :
    (logfileEntry r).take k = (leBytes 8 (serialize r).size).take k := by
  rw [logfileEntry, List.take_append_of_le_length (by rw [length_leBytes]; exact hk)]

/-- **The reader ends at torn bytes it passes over**, whatever the variable held. -/
theorem readLogsLoop_of_passedOver {r : WalRecord} {k : ℕ} (h : PassedOver r k)
    (hsize : (serialize r).size < 256 ^ 8) (hk : k < (logfileEntry r).length) (rounds : ℕ) :
    readLogsLoop uninit rounds ((logfileEntry r).take k) = .ok [] := by
  cases rounds with
  | zero => rfl
  | succ rounds =>
    unfold readLogsLoop
    split_ifs with hempty
    · rfl
    rcases lt_or_ge k 8 with hlt | hge
    · have hlen : ((logfileEntry r).take k).length = k := List.length_take_of_le hk.le
      have hpart : ¬ 256 ^ k ∣ (serialize r).size := by
        rcases h with rfl | hwhole | hpart
        · exact absurd hlen hempty
        · omega
        · exact hpart
      rw [readU64Some_of_le uninit (List.length_pos_iff.mp (Nat.pos_of_ne_zero hempty)) (by omega),
        leNat_append, hlen, take_logfileEntry hlt.le, leNat_take_leBytes hlt.le]
      have hpos : 0 < (serialize r).size % 256 ^ k := by
        rw [Nat.pos_iff_ne_zero]
        exact fun hzero => hpart (Nat.dvd_of_mod_eq_zero hzero)
      exact if_pos (Nat.add_pos_left hpos _)
    · have htake : (logfileEntry r).take k
          = leBytes 8 (serialize r).size ++ (serialize r).buffer.take (k - 8) := by
        rw [logfileEntry, List.take_append, length_leBytes,
          List.take_of_length_le (by rw [length_leBytes]; exact hge)]
      have hless : ((serialize r).buffer.take (k - 8)).length < (serialize r).size := by
        rw [logfileEntry, List.length_append, length_leBytes] at hk
        rw [List.length_take, MemoryStream.size]
        omega
      rw [htake, reads_readU64Some uninit hsize ((serialize r).buffer.take (k - 8))]
      exact if_pos hless

/-- **The reader stops at a torn record**, or throws. -/
theorem readLogsLoop_torn {r : WalRecord} {k rounds : ℕ} {X : List WalRecord}
    (hsize : (serialize r).size < 256 ^ 8) (hk : k < (logfileEntry r).length)
    (h : readLogsLoop uninit rounds ((logfileEntry r).take k) = .ok X) : X = [] := by
  by_cases hpass : PassedOver r k
  · rw [readLogsLoop_of_passedOver uninit hpass hsize hk rounds] at h
    exact (Except.ok.inj h).symm
  · -- not even the size is whole: nothing is left behind it
    obtain ⟨hpos, hlt, -⟩ : k ≠ 0 ∧ k < 8 ∧ 256 ^ k ∣ (serialize r).size := by
      simpa only [PassedOver, not_or, not_le, not_not] using hpass
    have hlen : ((logfileEntry r).take k).length = k := List.length_take_of_le hk.le
    have hne : (logfileEntry r).take k ≠ [] := by
      rw [← List.length_pos_iff, hlen]
      exact Nat.pos_of_ne_zero hpos
    cases rounds with
    | zero => exact (Except.ok.inj h).symm
    | succ rounds =>
      unfold readLogsLoop at h
      rw [if_neg (by rw [hlen]; exact hpos), readU64Some_of_le uninit hne (by omega)] at h
      dsimp only at h
      split_ifs at h
      · exact (Except.ok.inj h).symm
      · have hnone : deserialize uninit [] = none := rfl
        rw [hnone] at h
        cases h

/-- Where a part of the size is zero and so was the variable, a record of size
zero is looked for behind it. -/
theorem readLogsLoop_of_zeros {r : WalRecord} {k : ℕ} (h : ¬ PassedOver r k)
    (hk : k < (logfileEntry r).length) (rounds : ℕ) :
    ∃ e, readLogsLoop (fun _ => 0) (rounds + 1) ((logfileEntry r).take k) = .error e := by
  obtain ⟨hpos, hlt, hzero⟩ : k ≠ 0 ∧ k < 8 ∧ 256 ^ k ∣ (serialize r).size := by
    simpa only [PassedOver, not_or, not_le, not_not] using h
  have hlen : ((logfileEntry r).take k).length = k := List.length_take_of_le hk.le
  have hne : (logfileEntry r).take k ≠ [] := by
    rw [← List.length_pos_iff, hlen]
    exact Nat.pos_of_ne_zero hpos
  have hzeros : ∀ n, leNat (List.replicate n 0) = 0 := by
    intro n
    induction n with
    | zero => rfl
    | succ n ih => rw [List.replicate_succ, leNat, ih]; rfl
  have hnat : leNat (((List.range 8).map fun _ => (0 : UInt8)).drop k) = 0 := by
    rw [List.map_const', List.drop_replicate, hzeros]
  unfold readLogsLoop
  rw [if_neg (by rw [hlen]; exact hpos), readU64Some_of_le _ hne (by omega), leNat_append, hlen,
    hnat, take_logfileEntry hlt.le, leNat_take_leBytes hlt.le, Nat.mod_eq_zero_of_dvd hzero]
  exact ⟨_, rfl⟩

/-- The type of the first record is at the place of the second eight bytes. -/
theorem type_of_readLogsLoop {rounds : ℕ} {a b c : Bytes} {r : WalRecord} {logs : List WalRecord}
    (ha : a.length = 8) (hb : b.length = 8)
    (h : readLogsLoop uninit rounds (a ++ (b ++ c)) = .ok (r :: logs)) : r.body.type = leNat b := by
  cases rounds with
  | zero => cases h
  | succ rounds =>
    unfold readLogsLoop at h
    split_ifs at h
    · cases h
    rw [reads_readU64Some_bytes uninit ha] at h
    dsimp only at h
    split_ifs at h
    · cases h
    cases hrec : deserialize uninit (b ++ c) with
    | none => rw [hrec] at h; cases h
    | some v =>
      obtain ⟨r', rest⟩ := v
      rw [hrec] at h
      dsimp only at h
      cases hrest : readLogsLoop uninit rounds rest with
      | error e => rw [hrest] at h; cases h
      | ok logs' =>
        rw [hrest] at h
        obtain ⟨rfl, -⟩ := List.cons.inj (Except.ok.inj h)
        exact type_of_deserialize uninit hb hrec

/-- **Behind torn bytes a record does not start where it is read**: the byte
read as the low byte of its type is one before its own, whatever the type. -/
theorem type_mod_of_readLogsLoop (rounds : ℕ) {t : Bytes} {s : WalRecord} (ht : t ≠ [])
    (h : readLogsLoop uninit rounds (t ++ logfileEntry s) = .ok [s]) :
    (t ++ leBytes 8 (serialize s).size)[8]? = some (UInt8.ofNat s.body.type) := by
  have hpos := List.length_pos_of_ne_nil ht
  have hentry : logfileEntry s = leBytes 8 (serialize s).size ++ (leBytes 8 s.body.type
      ++ (leBytes 8 s.lsn
        ++ (leBytes 8 s.prevLsn ++ (uuidBytes s.txnId ++ bodyBytes s.body)))) := by
    rw [logfileEntry, buffer_serialize]
  have hlong : 16 ≤ (t ++ logfileEntry s).length := by
    simp only [hentry, List.length_append, length_leBytes]
    omega
  have hbyte : (t ++ logfileEntry s)[8]? = (t ++ leBytes 8 (serialize s).size)[8]? := by
    rw [hentry, ← List.append_assoc, List.getElem?_append_left]
    rw [List.length_append, length_leBytes]
    omega
  rw [← hbyte]
  clear hbyte hentry
  generalize t ++ logfileEntry s = bytes at h hlong
  have hsplit : bytes = bytes.take 8 ++ ((bytes.drop 8).take 8 ++ (bytes.drop 8).drop 8) := by
    rw [List.take_append_drop, List.take_append_drop]
  have htype := type_of_readLogsLoop uninit (a := bytes.take 8) (b := (bytes.drop 8).take 8)
    (by rw [List.length_take]; omega) (by rw [List.length_take, List.length_drop]; omega)
    (hsplit ▸ h)
  have hget : bytes[8]? = ((bytes.drop 8).take 8)[0]? := by
    rw [List.getElem?_take_of_lt (by omega), List.getElem?_drop]
  rw [hget]
  cases hb : (bytes.drop 8).take 8 with
  | nil =>
    have hlen := congrArg List.length hb
    rw [List.length_take, List.length_drop, List.length_nil] at hlen
    omega
  | cons x b =>
    rw [hb, leNat] at htype
    rw [List.getElem?_cons_zero, htype]
    have hx := x.toNat_lt
    refine congrArg some (UInt8.toNat_inj.mp ?_)
    rw [UInt8.toNat_ofNat']
    omega

end Open

/-! ## The second reopening -/

/-- **What is asked of a log whose last record was torn**: it is reopened,
records are appended to it and flushed, and when it is reopened once more it
has the records before the torn one and the new ones. -/
def Recovers (dir : List LogFile) (logs new : List WalRecord) : Prop :=
  ∀ (uninit : ℕ → UInt8) (dir₁ : List LogFile), dir₁.Perm dir →
    ∃ m₁, make uninit dir₁ = .ok m₁
      ∧ ∀ (uninit' : ℕ → UInt8) (dir₂ : List LogFile), dir₂.Perm (m₁.appendLogs new).2.flush.dir →
        ∃ m₂, make uninit' dir₂ = .ok m₂
          ∧ m₂.readAllLogs
            = (new.foldl AppendOnlyLog.push { kept := logs, durable := logs.length }).kept

/-- Nothing was left of the torn record: the log is the one without it. -/
theorem HoldsLogs.recovers {dir : List LogFile} {logs new : List WalRecord} (h : HoldsLogs dir logs)
    (hnum : Numbered logs) (hfits : ∀ r ∈ logs, r.Fits) (hnew : ∀ r ∈ new, r.FitsUnstamped)
    (hroom : logs.length + 1 + new.length < 256 ^ 8) : Recovers dir logs new := by
  intro uninit dir₁ hdir₁
  obtain ⟨dir', hholds, hmake⟩ := make_eq uninit (h.perm hdir₁) hnum hfits
  refine ⟨_, hmake, fun uninit' dir₂ hdir₂ => ?_⟩
  have href : Refines ⟨dir', logs.length + 1, logs.length, logs, []⟩ ⟨logs, logs.length⟩ :=
    ⟨List.append_nil _, hnum, hfits, rfl, rfl, rfl, hholds⟩
  obtain ⟨m₂, hmake₂, href₂⟩ := (href.appendLogsLoop hnew hroom 0).flush.make uninit' hdir₂
  refine ⟨m₂, hmake₂, href₂.kept.trans ?_⟩
  exact List.take_length

/-- **A record read back behind torn bytes** has for its type a byte that is
before its own. -/
theorem HoldsTorn.type_of_recovers {dir : List LogFile} {logs : List WalRecord} {r : WalRecord}
    {k : ℕ} (h : HoldsTorn dir logs (fileFirstLsn r.lsn) ((logfileEntry r).take k))
    (hnum : Numbered (logs ++ [r])) (hfits : ∀ r ∈ logs, r.Fits)
    (hsize : (serialize r).size < 256 ^ 8) (hpos : 0 < k) (hk : k < (logfileEntry r).length)
    {b : WalBody} (hrec : Recovers dir logs [{ body := b }]) :
    ((logfileEntry r).take k
      ++ leBytes 8 (serialize (stamp { body := b } (logs.length + 1))).size)[8]?
        = some (UInt8.ofNat b.type) := by
  have hlsn : r.lsn = logs.length + 1 := hnum.lsn_get (by simp)
  have hlogs : Numbered logs := by
    have := hnum.take logs.length
    rwa [List.take_left] at this
  have ht : (logfileEntry r).take k ≠ [] := by
    rw [← List.length_pos_iff, List.length_take]
    omega
  -- the first reopening finds the whole records
  obtain ⟨m₁, hmake₁, hsecond⟩ := hrec (fun _ => 0) dir (.refl dir)
  obtain ⟨rounds, X, -, hX, -, hread⟩ := h.exists_of_make _ hfits hmake₁
  obtain rfl := readLogsLoop_torn _ hsize hk hX
  have hmake := make_of_reads _ h.ne_nil hlogs h.flatMap_perm fun f hf => by
    rw [hread f hf, ite_self, List.append_nil]
  obtain rfl := Except.ok.inj (hmake₁.symm.trans hmake)
  -- the second finds them and the new one, which is behind the torn bytes
  obtain ⟨m₂, hmake₂, hkept⟩ := hsecond (fun _ => 0) _ (.refl _)
  have hs : fileFirstLsn (stamp { body := b } (logs.length + 1)).lsn = fileFirstLsn r.lsn := by
    rw [hlsn]
    rfl
  obtain ⟨rounds', Y, -, hY, hperm, -⟩ := (h.writeLogs hs).exists_of_make _ hfits hmake₂
  refine type_mod_of_readLogsLoop (fun _ => 0) rounds' ht ?_
  rw [hkept] at hperm
  have hsingle := (List.perm_append_left_iff _).mp hperm
  rw [hY, List.singleton_perm.mp hsingle]

/-- **Two records that cannot both be read back** behind torn bytes: they are
of the same size and of different types. -/
theorem HoldsTorn.not_recovers {dir : List LogFile} {logs : List WalRecord} {r : WalRecord} {k : ℕ}
    (h : HoldsTorn dir logs (fileFirstLsn r.lsn) ((logfileEntry r).take k))
    (hnum : Numbered (logs ++ [r])) (hfits : ∀ r ∈ logs, r.Fits)
    (hsize : (serialize r).size < 256 ^ 8) (hpos : 0 < k) (hk : k < (logfileEntry r).length)
    (hbegin : Recovers dir logs [{ body := .beginTxn }])
    (hcommit : Recovers dir logs [{ body := .commitTxn }]) : False := by
  have hs := h.type_of_recovers hnum hfits hsize hpos hk hbegin
  have hs' := h.type_of_recovers hnum hfits hsize hpos hk hcommit
  have hsame : (serialize (stamp { body := .beginTxn } (logs.length + 1))).size
      = (serialize (stamp { body := .commitTxn } (logs.length + 1))).size := by
    simp only [MemoryStream.size, buffer_serialize, List.length_append, length_leBytes]
    rfl
  rw [hsame, hs'] at hs
  exact absurd (Option.some.inj hs) (by decide)

/-- **Nothing is appended**: the log is the one without the torn record, exactly
if the reader passes over the torn bytes. -/
theorem HoldsTorn.recovers_nil_iff {dir : List LogFile} {logs : List WalRecord} {r : WalRecord}
    {k : ℕ} (h : HoldsTorn dir logs (fileFirstLsn r.lsn) ((logfileEntry r).take k))
    (hnum : Numbered logs) (hfits : ∀ r ∈ logs, r.Fits) (hsize : (serialize r).size < 256 ^ 8)
    (hk : k < (logfileEntry r).length) : Recovers dir logs [] ↔ PassedOver r k := by
  constructor
  · intro hrec
    by_contra hpass
    have hne : 0 < ((logfileEntry r).take k).length := by
      rw [List.length_take_of_le hk.le, Nat.pos_iff_ne_zero]
      exact fun hzero => hpass (Or.inl hzero)
    obtain ⟨m₁, hmake₁, -⟩ := hrec (fun _ => 0) dir (.refl dir)
    obtain ⟨rounds, X, hrounds, hX, -⟩ := h.exists_of_make _ hfits hmake₁
    obtain ⟨rounds, rfl⟩ := Nat.exists_eq_succ_of_ne_zero (hne.trans_le hrounds).ne'
    obtain ⟨e, he⟩ := readLogsLoop_of_zeros hpass hk rounds
    rw [he] at hX
    cases hX
  · intro hpass
    have hmake : ∀ (uninit : ℕ → UInt8) (dir' : List LogFile), dir'.Perm dir →
        make uninit dir' = .ok
          { dir := dir'
            nextLsn := logs.length + 1
            flushedLsn := logs.length
            flushed := logs } := by
      intro uninit dir' hdir'
      have h' := h.perm hdir'
      refine make_of_reads uninit h'.ne_nil hnum h'.flatMap_perm fun f hf => ?_
      have hfiltered : ∀ r ∈ logs.filter fun r => fileFirstLsn r.lsn = f.firstLsn, r.Fits :=
        fun r hr => hfits r (List.mem_of_mem_filter hr)
      obtain ⟨rounds, -, hread⟩ := readLogsFromFile_append uninit hfiltered (h'.content f hf)
      rw [hread]
      split_ifs
      · rw [readLogsLoop_of_passedOver uninit hpass hsize hk]
        exact congrArg _ (List.append_nil _)
      · cases rounds <;> exact congrArg _ (List.append_nil _)
    intro uninit dir₁ hdir₁
    refine ⟨_, hmake uninit dir₁ hdir₁, fun uninit' dir₂ hdir₂ => ?_⟩
    exact ⟨_, hmake uninit' dir₂ (hdir₂.trans hdir₁), List.append_nil _⟩

/-- **Records appended after a torn one are read back when nothing is left of
it.** A log is written by any run of the manager and a crash leaves the first `k`
bytes of its last record; then it is reopened, the records `new` are appended and
flushed, and it is reopened once more. The second reopening finds the records
before the torn one and the new ones if `k` is `0`, or if there are no new ones
and the reader passes over what is left; without new ones it does so in no other
case, and for every other `k` there are records that it does not find. -/
theorem recovers_tear {ops : List WalOp} {m : FileWalManager} (hrun : Run Step fresh ops m)
    {logs : List WalRecord} {r : WalRecord} (hflushed : m.flushed = logs ++ [r])
    (hsize : (serialize r).size < 256 ^ 8) {k : ℕ} (hk : k < (logfileEntry r).length) :
    (∀ new : List WalRecord, (∀ s ∈ new, s.FitsUnstamped) →
        logs.length + 1 + new.length < 256 ^ 8 →
        k = 0 ∨ new = [] ∧ PassedOver r k → Recovers (tear m.dir r k) logs new)
      ∧ (Recovers (tear m.dir r k) logs [] → PassedOver r k)
      ∧ (0 < k → ∃ s : WalRecord, s.FitsUnstamped ∧ ¬ Recovers (tear m.dir r k) logs [s]) := by
  obtain ⟨a, -, h⟩ := hrun.simulation (fun _ _ _ _ hrel hstep => hrel.step hstep) refines_fresh
  have hnum : Numbered (logs ++ [r]) := by
    rw [← hflushed, h.flushed_eq]
    exact h.numbered.take a.durable
  have hlogs : Numbered logs := by
    have := hnum.take logs.length
    rwa [List.take_left] at this
  have hfits : ∀ s ∈ logs, s.Fits := by
    intro s hs
    refine h.fits s (h.kept ▸ List.mem_append_left _ ?_)
    rw [hflushed]
    exact List.mem_append_left _ hs
  have htorn := (hflushed ▸ h.holds : HoldsLogs m.dir (logs ++ [r])).tear hk.le
  have hnil := htorn.recovers_nil_iff hlogs hfits hsize hk
  refine ⟨fun new hnew hlast hcases => ?_, hnil.mp, fun hpos => ?_⟩
  · rcases hcases with rfl | ⟨rfl, hpass⟩
    · exact (List.take_zero ▸ htorn).holdsLogs.recovers hlogs hfits hnew hlast
    · exact hnil.mpr hpass
  · by_contra hall
    have hboth : ∀ s : WalRecord, s.FitsUnstamped → Recovers (tear m.dir r k) logs [s] :=
      fun s hs => not_not.mp fun hnot => hall ⟨s, hs, hnot⟩
    exact htorn.not_recovers hnum hfits hsize hpos hk
      (hboth { body := .beginTxn } (by decide)) (hboth { body := .commitTxn } (by decide))

/-- A log of one record of which nothing is left. -/
theorem recovers_tear_none :
    ∃ m, Run Step fresh [.append { body := .beginTxn } 1, .flush] m
      ∧ Recovers (tear m.dir (stamp { body := .beginTxn } 1) 0) [] [{ body := .commitTxn }] := by
  have hrun : Run Step fresh [.append { body := .beginTxn } 1, .flush] _ :=
    .cons (.append fresh { body := .beginTxn } (by decide) (by decide))
      (.cons (.flush _) (.nil _))
  refine ⟨_, hrun, ?_⟩
  exact (recovers_tear hrun (show _ = [] ++ [stamp { body := .beginTxn } 1] from rfl)
    (by decide) (by decide)).1 [{ body := .commitTxn }] (by decide) (by decide)
    (Or.inl rfl)

/-- A log of one record of which only the size is left, and a record appended
behind it. -/
theorem not_recovers_tear_size :
    ∃ m, Run Step fresh [.append { body := .beginTxn } 1, .flush] m
      ∧ m.flushed = [stamp { body := .beginTxn } 1]
      ∧ 8 < (logfileEntry (stamp { body := .beginTxn } 1)).length
      ∧ ¬ Recovers (tear m.dir (stamp { body := .beginTxn } 1) 8) [] [{ body := .beginTxn }] := by
  refine ⟨_, .cons (.append fresh { body := .beginTxn } (by decide) (by decide))
      (.cons (.flush _) (.nil _)), rfl, by decide, fun hrec => ?_⟩
  have hholds : HoldsLogs (fresh.appendLog { body := .beginTxn }).2.flush.dir
      ([] ++ [stamp { body := .beginTxn } 1]) :=
    refines_fresh.holds.writeLogs [stamp { body := .beginTxn } 1]
  have htype := (hholds.tear (k := 8) (by decide)).type_of_recovers rfl
    (fun r hr => absurd hr List.not_mem_nil) (by decide) (by decide) (by decide) hrec
  exact absurd htype (by decide)

end FileWalManager
