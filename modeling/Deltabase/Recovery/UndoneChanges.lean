import Deltabase.Lib.Versions
import Deltabase.Recovery.UndoDescent
import Deltabase.Storage.UniqueKeys
import Mathlib.Algebra.Order.BigOperators.Group.List
import Mathlib.Data.Multiset.OrderedMonoid

/-!
# What undo makes of the rows

The rows of a page are versions, and the records about them are changes of a
list of versions: an update marks the row that it replaces and writes another
one. Redo makes the changes and undo takes them back, so that what is known of
lists of versions says which rows a table has when a transaction has been
undone (`pageTokens_undone`).

They are the rows it had before exactly when the transaction has not updated a
row that it wrote itself. Undoing such an update gives the newer row the old
tokens, and undoing what wrote the older row does not find that out: an undone
insert marks a row that is marked already, and an undone update brings it back.
-/

/-! ## Rows as versions -/

/-- The version that a row is. -/
def DataRow.version (row : DataRow) : Version ℕ (List DataToken) :=
  ⟨row.id, !row.obsolete, row.tokens⟩

/-- **The change a record is about**; records of metadata are about none. -/
def WalBody.change : WalBody → Option (Change ℕ (List DataToken))
  | insert _ _ after => some (.insert after.version)
  | update _ _ before after => some (.update before.version after.version)
  | delete _ _ before => some (.delete before.version)
  | _ => none

/-- The record is about this page. -/
def WalBody.onPage (id : DataPageId) (body : WalBody) : Bool :=
  body.dataRef.any fun ref => ref.2 = id

theorem WalBody.onPage_iff {id : DataPageId} {body : WalBody} :
    body.onPage id = true ↔ ∃ ref, body.dataRef = some ref ∧ ref.2 = id := by
  unfold onPage
  rw [Option.any_eq_true]
  exact exists_congr fun ref => and_congr_right fun _ => decide_eq_true_iff

/-- A record is about one page at most. -/
theorem WalBody.onPage_unique {id id' : DataPageId} {body : WalBody}
    (h : body.onPage id = true) (h' : body.onPage id' = true) : id = id' := by
  obtain ⟨ref, href, rfl⟩ := onPage_iff.mp h
  obtain ⟨ref', href', rfl⟩ := onPage_iff.mp h'
  rw [href] at href'
  rw [Option.some.inj href']

namespace RecoveryManager

open FileIOManager AppendOnlyLog

variable {rows : List DataRow} {body : WalBody} {c : Change ℕ (List DataToken)}

theorem liveTokens_eq (rows : List DataRow) :
    (liveTokens rows : Multiset (List DataToken))
      = Version.liveValues (rows.map DataRow.version) := by
  unfold liveTokens Version.liveValues
  rw [List.filter_map, List.map_map]
  rfl

theorem map_id_version (rows : List DataRow) :
    (rows.map DataRow.version).map Version.id = rows.map DataRow.id := by
  rw [List.map_map]
  rfl

/-- **Looking for a row and changing it** changes its version. -/
theorem map_version_modifyRow {id : ℕ} {f : DataRow → DataRow}
    {g : Version ℕ (List DataToken) → Version ℕ (List DataToken)}
    (hnodup : (rows.map DataRow.id).Nodup) (hfg : ∀ row, (f row).version = g row.version) :
    (modifyRow id f rows).map DataRow.version
      = Version.setAt id g (rows.map DataRow.version) := by
  induction rows with
  | nil => rfl
  | cons row rows ih =>
    obtain ⟨hnew, hnodup⟩ := List.nodup_cons.mp hnodup
    unfold modifyRow
    rw [List.findIdx_cons]
    by_cases hid : row.id = id
    · -- no other row has the id
      have hrest : Version.setAt id g (rows.map DataRow.version) = rows.map DataRow.version := by
        refine Version.setAt_of_not_mem ?_
        rw [map_id_version]
        exact hid ▸ hnew
      rw [decide_eq_true hid]
      show (f row).version :: rows.map DataRow.version
        = Version.setAt id g ([row.version] ++ rows.map DataRow.version)
      rw [Version.setAt_append, Version.setAt_singleton hid, hrest, hfg]
      rfl
    · rw [decide_eq_false hid]
      have hrow : Version.setAt id g [row.version] = [row.version] :=
        Version.setAt_of_not_mem fun hmem => hid (List.mem_singleton.mp hmem).symm
      show row.version :: (modifyRow id f rows).map DataRow.version
        = Version.setAt id g ([row.version] ++ rows.map DataRow.version)
      rw [Version.setAt_append, hrow, ih hnodup]
      rfl

theorem version_markObsolete (row : DataRow) : row.markObsolete.version = row.version.retire := by
  unfold DataRow.version Version.retire
  rw [DataRow.obsolete_markObsolete]
  rfl

theorem version_clearMark (row : DataRow) : row.clearMark.version = row.version.revive := by
  unfold DataRow.version Version.revive
  show (⟨row.id, !hasFlag (clearObsolete row.flags) obsoleteFlag, row.tokens⟩ : Version _ _) = _
  rw [hasFlag_clearObsolete]
  rfl

theorem version_restore (before row : DataRow) :
    (restore before row).version = row.version.restore before.tokens := by
  unfold DataRow.version Version.restore
  show (⟨row.id, !hasFlag (clearObsolete row.flags) obsoleteFlag, before.tokens⟩ : Version _ _) = _
  rw [hasFlag_clearObsolete]
  rfl

/-- **Redo makes the change.** -/
theorem map_version_redoRows (hc : body.change = some c) (hnodup : (rows.map DataRow.id).Nodup) :
    (redoRows body rows).map DataRow.version = c.apply (rows.map DataRow.version) := by
  cases body <;> cases hc
  case insert tableId pageId after => exact List.map_append
  case update tableId pageId before after =>
    show (modifyRow before.id .markObsolete rows ++ [after]).map DataRow.version = _
    rw [List.map_append, map_version_modifyRow hnodup version_markObsolete]
    rfl
  case delete tableId pageId before =>
    exact map_version_modifyRow hnodup version_markObsolete

/-- **Undo takes the change back.** -/
theorem map_version_undoRows (hc : body.change = some c) (hnodup : (rows.map DataRow.id).Nodup) :
    (undoRows body rows).map DataRow.version = c.takeBack (rows.map DataRow.version) := by
  cases body <;> cases hc
  case insert tableId pageId after =>
    exact map_version_modifyRow hnodup version_markObsolete
  case update tableId pageId before after =>
    exact map_version_modifyRow hnodup (version_restore before)
  case delete tableId pageId before =>
    exact map_version_modifyRow hnodup version_clearMark

/-! ## The records of a page -/

/-- The rows of a page when its records have been applied, the first one
first. -/
def redoAll (bodies : List WalBody) (rows : List DataRow) : List DataRow :=
  bodies.foldl (fun rows body => redoRows body rows) rows

/-- The rows when the records have been taken back, the last one first. -/
def undoAll (bodies : List WalBody) (rows : List DataRow) : List DataRow :=
  bodies.foldr undoRows rows

/-- All these records are about changes. -/
def AreChanges (bodies : List WalBody) : Prop := ∀ body ∈ bodies, body.change.isSome

theorem map_version_redoAll {bodies : List WalBody} (hchanges : AreChanges bodies)
    (happlies : Change.AppliesAll (bodies.filterMap WalBody.change) (rows.map DataRow.version))
    (hnodup : (rows.map DataRow.id).Nodup) :
    (redoAll bodies rows).map DataRow.version
        = Change.applyAll (bodies.filterMap WalBody.change) (rows.map DataRow.version)
      ∧ ((redoAll bodies rows).map DataRow.id).Nodup := by
  induction bodies generalizing rows with
  | nil => exact ⟨rfl, hnodup⟩
  | cons body bodies ih =>
    obtain ⟨c, hc⟩ := Option.isSome_iff_exists.mp (hchanges body List.mem_cons_self)
    rw [List.filterMap_cons_some hc] at happlies ⊢
    have hversions := map_version_redoRows hc hnodup
    have hnodup' : ((redoRows body rows).map DataRow.id).Nodup := by
      rw [← map_id_version, hversions]
      refine happlies.1.nodup ?_
      rw [map_id_version]
      exact hnodup
    have hrest := ih (fun b hb => hchanges b (List.mem_cons_of_mem body hb))
      (hversions ▸ happlies.2) hnodup'
    rw [hversions] at hrest
    exact hrest

theorem map_version_undoAll {bodies : List WalBody} (hchanges : AreChanges bodies)
    (hnodup : (rows.map DataRow.id).Nodup) :
    (undoAll bodies rows).map DataRow.version
        = Change.takeBackAll (bodies.filterMap WalBody.change) (rows.map DataRow.version)
      ∧ ((undoAll bodies rows).map DataRow.id).Nodup := by
  induction bodies with
  | nil => exact ⟨rfl, hnodup⟩
  | cons body bodies ih =>
    obtain ⟨c, hc⟩ := Option.isSome_iff_exists.mp (hchanges body List.mem_cons_self)
    obtain ⟨hversions, hnodup'⟩ := ih fun b hb => hchanges b (List.mem_cons_of_mem body hb)
    have hundo := map_version_undoRows hc hnodup'
    rw [List.filterMap_cons_some hc]
    refine ⟨?_, ?_⟩
    · show (undoRows body (undoAll bodies rows)).map DataRow.version = _
      rw [hundo, hversions]
      rfl
    · show ((undoRows body (undoAll bodies rows)).map DataRow.id).Nodup
      rw [← map_id_version, hundo, Change.map_id_takeBack, map_id_version]
      exact hnodup'

/-- The tokens that undo leaves behind: those of the rows that a record updates
and that were not there before. -/
def leftBehind (bodies : List WalBody) (rows : List DataRow) : Multiset (List DataToken) :=
  ((Change.befores (bodies.filterMap WalBody.change) : Multiset (Version ℕ (List DataToken))).filter
    fun before => before.id ∉ rows.map DataRow.id).map Version.value

/-- **The rows of a page when its records have been applied and taken back.** -/
theorem liveTokens_undoAll {bodies : List WalBody} (hchanges : AreChanges bodies)
    (happlies : Change.AppliesAll (bodies.filterMap WalBody.change) (rows.map DataRow.version))
    (hnodup : (rows.map DataRow.id).Nodup) :
    (liveTokens (undoAll bodies (redoAll bodies rows)) : Multiset (List DataToken))
      = liveTokens rows + leftBehind bodies rows := by
  obtain ⟨hredo, hnodup'⟩ := map_version_redoAll hchanges happlies hnodup
  rw [liveTokens_eq, (map_version_undoAll hchanges hnodup').1, hredo,
    Change.liveValues_takeBackAll happlies (by rw [map_id_version]; exact hnodup), map_id_version,
    liveTokens_eq]
  rfl

/-- Nothing is left behind exactly when only rows that were there are
updated. -/
theorem leftBehind_eq_zero {bodies : List WalBody} :
    leftBehind bodies rows = 0 ↔ ∀ tableId pageId before after,
      .update tableId pageId before after ∈ bodies → before.id ∈ rows.map DataRow.id := by
  unfold leftBehind
  rw [Multiset.map_eq_zero, Multiset.filter_eq_nil]
  constructor
  · intro h tableId pageId before after hmem
    have hbefore : before.version ∈ Change.befores (bodies.filterMap WalBody.change) :=
      List.mem_filterMap.mpr ⟨.update before.version after.version,
        List.mem_filterMap.mpr ⟨_, hmem, rfl⟩, rfl⟩
    exact of_not_not (h before.version hbefore)
  · intro h v hv
    obtain ⟨c, hc, hv⟩ := List.mem_filterMap.mp hv
    obtain ⟨body, hbody, hchange⟩ := List.mem_filterMap.mp hc
    cases body <;> cases hchange <;> cases hv
    exact not_not_intro (h _ _ _ _ hbody)

/-! ## The records of a transaction -/

/-- **The records of a transaction**, the last one first, as its links lead from
one to the next; the begin record comes last. -/
inductive ChainFrom (wal : AppendOnlyLog) : ℕ → List WalBody → Prop
  | begun {lsn : ℕ} {record : WalRecord} (hread : wal.readLog lsn = .ok record)
      (hbody : record.body = .beginTxn) (hprev : record.prevLsn = 0) : ChainFrom wal lsn []
  | record {lsn : ℕ} {record : WalRecord} {bodies : List WalBody}
      (hread : wal.readLog lsn = .ok record) (hlt : record.prevLsn < lsn)
      (hrest : ChainFrom wal record.prevLsn bodies) : ChainFrom wal lsn (record.body :: bodies)

/-- The record of the counters of a table, which is written along with that of
a row; the table's schema is there. -/
def CountsRows (disk : Disk) (body : WalBody) : Prop :=
  ∃ before after schema, body = .updateTable before after
    ∧ readSchemaMeta disk before.schemaId = .ok schema

/-- The record is about a change of a page that is there. -/
def ChangesPage (disk : Disk) (body : WalBody) : Prop :=
  body.change.isSome ∧ ∀ ref, body.dataRef = some ref → (disk.pages ref.2).isSome

/-- The table and the rows of a page. -/
def content (disk : Disk) (id : DataPageId) : Option (TableId × List DataRow) :=
  (disk.pages id).map fun page => (page.tableId, page.rows)

/-- Every page file is named after its page. -/
def Named (disk : Disk) : Prop := ∀ id page, disk.pages id = some page → page.id = id

theorem exists_dataRef (hc : body.change.isSome) (undoNextLsn : ℕ) :
    (∃ ref, body.dataRef = some ref) ∧ body.undoNext = none ∧ body ≠ .rollbackTxn
      ∧ ∃ clr, makeClr undoNextLsn body = some clr := by
  cases body <;> first
    | exact ⟨⟨_, rfl⟩, rfl, (fun h => (nomatch h)), _, rfl⟩
    | exact absurd hc Bool.false_ne_true

/-- **One record taken back**: the rows of its page are changed, and no other
page is. -/
theorem exists_undoRecord {s : UndoState} {record : WalRecord} (hnamed : Named s.disk)
    (hbody : ChangesPage s.disk record.body ∨ CountsRows s.disk record.body) :
    ∃ s', undoRecord s record = .ok s' ∧ s.wal.kept <+: s'.wal.kept
      ∧ readSchemaMeta s'.disk = readSchemaMeta s.disk ∧ Named s'.disk
      ∧ ∀ id, content s'.disk id = (content s.disk id).map fun c =>
        (c.1, if record.body.onPage id then undoRows record.body c.2 else c.2) := by
  rcases hbody with ⟨hchange, hpage⟩ | ⟨before, after, schema, hbody, hschema⟩
  · obtain ⟨⟨ref, href⟩, -, -, clr, hclr⟩ := exists_dataRef hchange record.prevLsn
    obtain ⟨page, hpage⟩ := Option.isSome_iff_exists.mp (hpage ref href)
    have hid : page.id = ref.2 := hnamed ref.2 page hpage
    have hread : readDataPage s.disk ref.2 = some page.reread := by
      unfold readDataPage
      rw [hpage]
      rfl
    refine ⟨{ s.appendClr record.txnId clr with disk := writePage s.disk { page.reread with
        rows := undoRows record.body page.reread.rows, lastLsn := s.wal.nextLsn } }, ?_,
      List.prefix_append _ _, rfl, fun id p hp => ?_, fun id => ?_⟩
    · unfold undoRecord
      rw [hclr, href]
      dsimp only
      rw [hread]
      rfl
    · change Function.update s.disk.pages page.id _ id = some p at hp
      rw [Function.update_apply] at hp
      split_ifs at hp with heq
      · rw [← Option.some.inj hp, heq]
        rfl
      · exact hnamed id p hp
    · have honPage : record.body.onPage id = decide (ref.2 = id) := by
        unfold WalBody.onPage
        rw [href]
        rfl
      rw [honPage]
      show (Function.update s.disk.pages page.id _ id).map _ = _
      rw [Function.update_apply, hid]
      by_cases heq : id = ref.2
      · subst heq
        unfold content
        rw [if_pos rfl, hpage, decide_eq_true rfl]
        rfl
      · unfold content
        rw [if_neg heq, decide_eq_false (Ne.symm heq)]
        cases s.disk.pages id <;> rfl
  · have hwrite : ∃ disk', writeMt s.disk before = .ok disk'
        ∧ readSchemaMeta disk' = readSchemaMeta s.disk ∧ disk'.pages = s.disk.pages := by
      unfold writeMt
      rw [hschema]
      exact ⟨_, rfl, rfl, rfl⟩
    obtain ⟨disk', hwrite, hschemas, hpages⟩ := hwrite
    refine ⟨{ s.appendClr record.txnId (.clrUpdateTable record.prevLsn before after) with
      disk := disk' }, ?_, List.prefix_append _ _, hschemas, ?_, fun id => ?_⟩
    · unfold undoRecord
      rw [hbody]
      show (writeMt s.disk before >>= _) = _
      rw [hwrite]
      rfl
    · intro id page hpage
      rw [show disk'.pages = s.disk.pages from hpages] at hpage
      exact hnamed id page hpage
    · unfold content
      rw [hbody]
      show (disk'.pages id).map _ = _
      rw [hpages]
      cases s.disk.pages id <;> rfl

/-- What is at hand for taking a record back stays. -/
theorem ChangesPage.mono {disk disk' : Disk} (h : ChangesPage disk body)
    (hcontent : ∀ id, (content disk id).isSome → (content disk' id).isSome) :
    ChangesPage disk' body := by
  refine ⟨h.1, fun ref href => ?_⟩
  have hthere : (content disk' ref.2).isSome := by
    refine hcontent ref.2 ?_
    unfold content
    rw [Option.isSome_map]
    exact h.2 ref href
  unfold content at hthere
  rw [Option.isSome_map] at hthere
  exact hthere

theorem CountsRows.mono {disk disk' : Disk} (h : CountsRows disk body)
    (hschemas : readSchemaMeta disk' = readSchemaMeta disk) : CountsRows disk' body := by
  obtain ⟨before, after, schema, hbody, hschema⟩ := h
  exact ⟨before, after, schema, hbody, hschemas ▸ hschema⟩

/-- **The loop over the records of a transaction** takes them back one after
the other. -/
theorem exists_undoLoop {wal : AppendOnlyLog} {current : ℕ} {bodies : List WalBody}
    (hchain : ChainFrom wal current bodies) {s : UndoState} {rounds : ℕ}
    (hpre : wal.kept <+: s.wal.kept) (hnamed : Named s.disk)
    (hbodies : ∀ body ∈ bodies, ChangesPage s.disk body ∨ CountsRows s.disk body)
    (hrounds : current < rounds) :
    ∃ s', undoLoop rounds s current = .ok (s', false)
      ∧ ∀ id, content s'.disk id = (content s.disk id).map fun c =>
        (c.1, undoAll (bodies.reverse.filter (WalBody.onPage id)) c.2) := by
  induction hchain generalizing s rounds with
  | @begun lsn record hread hbody hprev =>
    have hpos : lsn ≠ 0 := by
      rintro rfl
      cases hread
    obtain ⟨rounds, rfl⟩ : ∃ k, rounds = k + 2 := ⟨rounds - 2, by omega⟩
    refine ⟨s, ?_, fun id => ?_⟩
    · unfold undoLoop
      rw [if_neg hpos, readLog_mono hpre hread]
      show (if record.body = .rollbackTxn then _ else _) = _
      rw [hbody, if_neg (fun h => by cases h)]
      show (undoRecord s record >>= _) = _
      unfold undoRecord
      rw [hbody, hprev]
      rfl
    · cases content s.disk id <;> rfl
  | @record lsn record bodies hread hlt hrest ih =>
    have hpos : lsn ≠ 0 := Nat.ne_of_gt (Nat.zero_lt_of_lt hlt)
    obtain ⟨rounds, rfl⟩ := Nat.exists_eq_succ_of_ne_zero (Nat.ne_of_gt (Nat.zero_lt_of_lt hrounds))
    have hself := hbodies record.body List.mem_cons_self
    obtain ⟨s₁, hundo, hpre₁, hschemas, hnamed₁, hcontent₁⟩ := exists_undoRecord hnamed hself
    have hthere : ∀ id, (content s.disk id).isSome → (content s₁.disk id).isSome := by
      intro id hid
      rw [hcontent₁, Option.isSome_map]
      exact hid
    obtain ⟨s', hloop, hcontent'⟩ := ih (hpre.trans hpre₁) hnamed₁
      (fun body hbody => (hbodies body (List.mem_cons_of_mem _ hbody)).imp
        (fun h => h.mono hthere) fun h => h.mono hschemas)
      (hlt.trans_le (Nat.le_of_lt_succ hrounds))
    refine ⟨s', ?_, fun id => ?_⟩
    · have hkind : record.body ≠ .rollbackTxn ∧ record.body.undoNext = none := by
        rcases hself with ⟨hchange, -⟩ | ⟨before, after, schema, hbody, -⟩
        · obtain ⟨-, hnext, hne, -⟩ := exists_dataRef hchange 0
          exact ⟨hne, hnext⟩
        · rw [hbody]
          exact ⟨(fun h => by cases h), rfl⟩
      unfold undoLoop
      rw [if_neg hpos, readLog_mono hpre hread]
      show (if record.body = .rollbackTxn then _ else _) = _
      rw [if_neg hkind.1, hkind.2]
      show (undoRecord s record >>= _) = _
      rw [hundo]
      exact hloop
    · rw [hcontent', hcontent₁, Option.map_map, List.reverse_cons, List.filter_append]
      refine congrArg (fun f => (content s.disk id).map f) (funext fun c => ?_)
      show (c.1, undoAll _ (if record.body.onPage id then _ else _)) = (c.1, undoAll (_ ++ _) c.2)
      unfold undoAll
      rw [List.foldr_append]
      by_cases hpage : record.body.onPage id = true
      · rw [if_pos hpage, List.filter_cons_of_pos hpage]
        rfl
      · rw [if_neg hpage, List.filter_cons_of_neg hpage]
        rfl

/-- A transaction's records are in the log. -/
theorem ChainFrom.le_length {wal : AppendOnlyLog} {current : ℕ} {bodies : List WalBody}
    (h : ChainFrom wal current bodies) : current ≤ wal.kept.length := by
  have hread : ∃ record, wal.readLog current = .ok record := by
    cases h with
    | begun hread => exact ⟨_, hread⟩
    | record hread => exact ⟨_, hread⟩
  obtain ⟨record, hread⟩ := hread
  obtain ⟨hzero, hget⟩ := readLog_eq_ok.mp hread
  have hlt := (List.getElem?_eq_some_iff.mp hget).1
  omega

/-- **Undo of one transaction** takes its records back, the last one first. -/
theorem exists_undoTxn {disk : Disk} {wal : AppendOnlyLog} (txnId : TxnId) {lastLsn : ℕ}
    {bodies : List WalBody} (hchain : ChainFrom wal lastLsn bodies) (hnamed : Named disk)
    (hbodies : ∀ body ∈ bodies, ChangesPage disk body ∨ CountsRows disk body) :
    ∃ disk' wal', undoTxn disk wal txnId lastLsn = .ok (disk', wal')
      ∧ ∀ id, content disk' id = (content disk id).map fun c =>
        (c.1, undoAll (bodies.reverse.filter (WalBody.onPage id)) c.2) := by
  obtain ⟨s', hloop, hcontent⟩ := exists_undoLoop hchain (s := ⟨disk, wal, lastLsn⟩)
    List.prefix_rfl hnamed hbodies (Nat.lt_succ_of_le hchain.le_length)
  unfold undoTxn
  rw [hloop]
  exact ⟨s'.disk, _, rfl, hcontent⟩

/-! ## A transaction that is undone -/

/-- The rows of a page, none when there is no page. -/
def rowsOn (disk : Disk) (id : DataPageId) : List DataRow :=
  ((disk.pages id).map DataPage.rows).getD []

/-- What a page contributes to the rows of a table. -/
def pageTokens (disk : Disk) (tableId : TableId) (id : DataPageId) : Multiset (List DataToken) :=
  match disk.pages id with
  | some page => if page.tableId = tableId then liveTokens page.rows else 0
  | none => 0

/-- **The token lists of the rows of a table** that are not obsolete, over these
pages. -/
def tableTokens (disk : Disk) (pageIds : List DataPageId) (tableId : TableId) :
    Multiset (List DataToken) :=
  (pageIds.map (pageTokens disk tableId)).sum

/-- **The records of a transaction have been applied** to pages whose rows have
distinct ids: each record is about what the records before it left, and the
pages hold what they make of the rows there were at first. -/
structure AppliedTo (disk₀ : Disk) (bodies : List WalBody) (disk : Disk) : Prop where
  named : Named disk
  nodup : ∀ id, ((rowsOn disk₀ id).map DataRow.id).Nodup
  kept : ∀ id page₀, disk₀.pages id = some page₀ →
    ∃ page, disk.pages id = some page ∧ page.tableId = page₀.tableId
  changes : ∀ body ∈ bodies, ChangesPage disk body ∨ CountsRows disk body
  applies : ∀ id, Change.AppliesAll ((bodies.filter (WalBody.onPage id)).filterMap WalBody.change)
    ((rowsOn disk₀ id).map DataRow.version)
  rows : ∀ id, rowsOn disk id = redoAll (bodies.filter (WalBody.onPage id)) (rowsOn disk₀ id)

/-- What undo leaves behind on a page of a table. -/
def leftOn (disk₀ : Disk) (bodies : List WalBody) (disk : Disk) (tableId : TableId)
    (id : DataPageId) : Multiset (List DataToken) :=
  match disk.pages id with
  | some page =>
    if page.tableId = tableId then
      leftBehind (bodies.filter (WalBody.onPage id)) (rowsOn disk₀ id)
    else 0
  | none => 0

section Undone

variable {disk₀ disk disk' : Disk} {bodies : List WalBody}

/-- The records of a page are about changes. -/
theorem AppliedTo.areChanges (h : AppliedTo disk₀ bodies disk) (id : DataPageId) :
    AreChanges (bodies.filter (WalBody.onPage id)) := by
  intro body hmem
  obtain ⟨hbody, hpage⟩ := List.mem_filter.mp hmem
  rcases h.changes body hbody with hchange | ⟨before, after, schema, rfl, -⟩
  · exact hchange.1
  · cases hpage

/-- **A page whose records have been taken back**: what it contributed before,
and what is left behind. -/
theorem AppliedTo.pageTokens_undone (h : AppliedTo disk₀ bodies disk)
    (hcontent : ∀ id, content disk' id = (content disk id).map fun c =>
      (c.1, undoAll (bodies.filter (WalBody.onPage id)) c.2)) (tableId : TableId)
    (id : DataPageId) :
    pageTokens disk' tableId id
      = pageTokens disk₀ tableId id + leftOn disk₀ bodies disk tableId id := by
  have hundone := hcontent id
  unfold content at hundone
  unfold pageTokens leftOn
  cases hpage : disk.pages id with
  | none =>
    rw [hpage] at hundone
    have hgone : disk'.pages id = none := Option.map_eq_none_iff.mp hundone
    have hnever : disk₀.pages id = none := by
      cases hpage₀ : disk₀.pages id with
      | none => rfl
      | some page₀ =>
        obtain ⟨page, hpage', -⟩ := h.kept id page₀ hpage₀
        rw [hpage] at hpage'
        cases hpage'
    rw [hgone, hnever]
    rfl
  | some page =>
    rw [hpage] at hundone
    obtain ⟨page', hpage', heq⟩ := Option.map_eq_some_iff.mp hundone
    obtain ⟨htable, hrows⟩ := Prod.mk.inj heq
    have hlive : (liveTokens page'.rows : Multiset (List DataToken))
        = liveTokens (rowsOn disk₀ id)
          + leftBehind (bodies.filter (WalBody.onPage id)) (rowsOn disk₀ id) := by
      have happlied := h.rows id
      unfold rowsOn at happlied
      rw [hpage] at happlied
      rw [hrows]
      show (liveTokens (undoAll _ page.rows) : Multiset (List DataToken)) = _
      rw [show page.rows = _ from happlied]
      exact liveTokens_undoAll (h.areChanges id) (h.applies id) (h.nodup id)
    rw [hpage']
    show (if page'.tableId = tableId then _ else _) = _ + (if page.tableId = tableId then _ else _)
    rw [htable, hlive]
    cases hpage₀ : disk₀.pages id with
    | none =>
      have hrows₀ : rowsOn disk₀ id = [] := by
        unfold rowsOn
        rw [hpage₀]
        rfl
      rw [hrows₀]
      show (if page.tableId = tableId then 0 + _ else 0) = 0 + _
      rw [zero_add, zero_add]
    | some page₀ =>
      obtain ⟨page₁, hpage₁, htable₀⟩ := h.kept id page₀ hpage₀
      rw [hpage] at hpage₁
      obtain rfl := Option.some.inj hpage₁
      have hrows₀ : rowsOn disk₀ id = page₀.rows := by
        unfold rowsOn
        rw [hpage₀]
        rfl
      show _ = (if page₀.tableId = tableId then _ else _) + _
      rw [hrows₀, ← htable₀]
      split_ifs
      · rfl
      · exact (add_zero 0).symm

/-- Nothing is left behind exactly when the transaction has updated only rows
that were there before it. -/
theorem AppliedTo.leftOn_eq_zero_iff (h : AppliedTo disk₀ bodies disk)
    {pageIds : List DataPageId} (hpageIds : ∀ id, (disk.pages id).isSome → id ∈ pageIds) :
    (∀ tableId, ∀ id ∈ pageIds, leftOn disk₀ bodies disk tableId id = 0)
      ↔ ∀ tableId pageId before after, .update tableId pageId before after ∈ bodies →
        before.id ∈ (rowsOn disk₀ pageId).map DataRow.id := by
  constructor
  · intro hall tableId pageId before after hmem
    have hthere : (disk.pages pageId).isSome := by
      rcases h.changes _ hmem with hchange | ⟨b, a, schema, heq, -⟩
      · exact hchange.2 (tableId, pageId) rfl
      · cases heq
    obtain ⟨page, hpage⟩ := Option.isSome_iff_exists.mp hthere
    have hzero := hall page.tableId pageId (hpageIds pageId hthere)
    unfold leftOn at hzero
    rw [hpage] at hzero
    change (if page.tableId = page.tableId then _ else _) = _ at hzero
    rw [if_pos rfl] at hzero
    exact leftBehind_eq_zero.mp hzero tableId pageId before after
      (List.mem_filter.mpr ⟨hmem, decide_eq_true rfl⟩)
  · intro hall tableId id _
    unfold leftOn
    cases disk.pages id with
    | none => rfl
    | some page =>
      show (if page.tableId = tableId then _ else _) = _
      split_ifs
      · refine leftBehind_eq_zero.mpr fun tableId' pageId before after hmem => ?_
        obtain ⟨hbody, hpage⟩ := List.mem_filter.mp hmem
        obtain rfl : pageId = id := of_decide_eq_true hpage
        exact hall tableId' pageId before after hbody
      · rfl

/-- **Undo restores the rows of every table** exactly when the transaction has
not updated a row that it wrote itself. Its records may be any number of inserts,
updates and deletes in any order, with the records of the tables' counters among
them. -/
theorem undoTxn_restores_iff {wal : AppendOnlyLog} {txnId : TxnId} {lastLsn : ℕ}
    {pageIds : List DataPageId} (happlied : AppliedTo disk₀ bodies disk)
    (hchain : ChainFrom wal lastLsn bodies.reverse)
    (hpageIds : ∀ id, (disk.pages id).isSome → id ∈ pageIds) :
    (∃ disk' wal', undoTxn disk wal txnId lastLsn = .ok (disk', wal')
        ∧ ∀ tableId, tableTokens disk' pageIds tableId = tableTokens disk₀ pageIds tableId)
      ↔ ∀ tableId pageId before after, .update tableId pageId before after ∈ bodies →
        before.id ∈ (rowsOn disk₀ pageId).map DataRow.id := by
  obtain ⟨disk', wal', hundo, hcontent⟩ := exists_undoTxn txnId hchain happlied.named
    fun body hbody => happlied.changes body (List.mem_reverse.mp hbody)
  rw [List.reverse_reverse] at hcontent
  have hrestored : (∀ tableId, tableTokens disk' pageIds tableId
      = tableTokens disk₀ pageIds tableId)
      ↔ ∀ tableId, ∀ id ∈ pageIds, leftOn disk₀ bodies disk tableId id = 0 := by
    refine forall_congr' fun tableId => ?_
    unfold tableTokens
    rw [List.map_congr_left fun id _ => happlied.pageTokens_undone hcontent tableId id,
      List.sum_map_add, add_eq_left]
    rw [List.sum_eq_zero_iff, List.forall_mem_map]
  rw [← happlied.leftOn_eq_zero_iff hpageIds, ← hrestored]
  constructor
  · rintro ⟨disk₁, wal₁, hundo₁, hall⟩
    rw [hundo] at hundo₁
    cases hundo₁
    exact hall
  · exact fun hall => ⟨disk', wal', hundo, hall⟩

end Undone

/-! ## A table with one page -/

/-- A table whose rows are on one page. -/
def onePage (rows : List DataRow) : Disk where
  pages id := if id = 7 then some { DataPage.make ([115], [116]) 4 7 with rows := rows } else none

theorem rowsOn_onePage (rows : List DataRow) (id : DataPageId) :
    rowsOn (onePage rows) id = if id = 7 then rows else [] := by
  unfold rowsOn
  show (Option.map _ (if id = 7 then _ else none)).getD [] = _
  split_ifs <;> rfl

theorem mem_of_isSome_onePage (rows : List DataRow) (id : DataPageId)
    (h : ((onePage rows).pages id).isSome) : id ∈ [(7 : DataPageId)] := by
  by_cases hid : id = 7
  · exact List.mem_singleton.mpr hid
  · rw [show (onePage rows).pages id = none from if_neg hid] at h
    cases h

/-- Records about that page, applied to it. -/
theorem appliedTo_onePage {bodies : List WalBody}
    (hbodies : ∀ body ∈ bodies, body.change.isSome ∧ body.onPage 7 = true)
    (hnodup : (rows.map DataRow.id).Nodup)
    (happlies : Change.AppliesAll (bodies.filterMap WalBody.change) (rows.map DataRow.version)) :
    AppliedTo (onePage rows) bodies (onePage (redoAll bodies rows)) := by
  have hhere : bodies.filter (WalBody.onPage 7) = bodies :=
    List.filter_eq_self.mpr fun body hbody => (hbodies body hbody).2
  have helsewhere : ∀ id, id ≠ 7 → bodies.filter (WalBody.onPage id) = [] := fun id hid =>
    List.filter_eq_nil_iff.mpr fun body hbody hpage =>
      hid (WalBody.onPage_unique hpage (hbodies body hbody).2)
  refine ⟨fun id page hpage => ?_, fun id => ?_, fun id page hpage => ?_, fun body hbody => ?_,
    fun id => ?_, fun id => ?_⟩
  · change (if id = 7 then _ else none) = some page at hpage
    split_ifs at hpage with hid
    rw [← Option.some.inj hpage, hid]
    rfl
  · rw [rowsOn_onePage]
    split_ifs
    · exact hnodup
    · exact List.nodup_nil
  · change (if id = 7 then _ else none) = some page at hpage
    split_ifs at hpage with hid
    rw [← Option.some.inj hpage]
    exact ⟨_, if_pos hid, rfl⟩
  · refine .inl ⟨(hbodies body hbody).1, fun ref href => ?_⟩
    obtain ⟨ref', href', hid⟩ := WalBody.onPage_iff.mp (hbodies body hbody).2
    rw [href] at href'
    obtain rfl := Option.some.inj href'
    rw [hid]
    rfl
  · rw [rowsOn_onePage]
    by_cases hid : id = 7
    · rw [if_pos hid, hid, hhere]
      exact happlies
    · rw [if_neg hid, helsewhere id hid]
      trivial
  · rw [rowsOn_onePage, rowsOn_onePage]
    by_cases hid : id = 7
    · rw [if_pos hid, if_pos hid, hid, hhere]
    · rw [if_neg hid, if_neg hid, helsewhere id hid]
      rfl

/-- A row of that table. -/
def numberedRow (id : ℕ) (value : UInt8) : DataRow :=
  { id := id, tokens := [⟨[value, 0, 0, 0], .integer⟩] }

/-- The log of a transaction with two records. -/
def twoRecords (first second : WalBody) : AppendOnlyLog where
  kept := [{ lsn := 1, txnId := 1, body := .beginTxn },
    { lsn := 2, prevLsn := 1, txnId := 1, body := first },
    { lsn := 3, prevLsn := 2, txnId := 1, body := second }]
  durable := 3

theorem chainFrom_twoRecords (first second : WalBody) :
    ChainFrom (twoRecords first second) 3 [first, second].reverse := by
  have hsecond : (twoRecords first second).readLog 3
      = .ok { lsn := 3, prevLsn := 2, txnId := 1, body := second } := rfl
  have hfirst : (twoRecords first second).readLog 2
      = .ok { lsn := 2, prevLsn := 1, txnId := 1, body := first } := rfl
  exact .record hsecond (Nat.lt_succ_self 2) (.record hfirst (Nat.lt_succ_self 1)
    (.begun rfl rfl rfl))

/-- A row is updated, and the new row deleted. -/
def updateThenDelete : List WalBody :=
  [.update 4 7 (numberedRow 1 10) (numberedRow 2 20), .delete 4 7 (numberedRow 2 20)]

/-- A row is inserted, and updated. -/
def insertThenUpdate : List WalBody :=
  [.insert 4 7 (numberedRow 2 20), .update 4 7 (numberedRow 2 20) (numberedRow 3 30)]

/-- The row that was there is back. -/
theorem undoTxn_restores_updateThenDelete : ∃ disk' wal',
    undoTxn (onePage (redoAll updateThenDelete [numberedRow 1 10]))
        (twoRecords (.update 4 7 (numberedRow 1 10) (numberedRow 2 20))
          (.delete 4 7 (numberedRow 2 20))) 1 3 = .ok (disk', wal')
      ∧ ∀ tableId, tableTokens disk' [7] tableId
        = tableTokens (onePage [numberedRow 1 10]) [7] tableId := by
  have happlied : AppliedTo (onePage [numberedRow 1 10]) updateThenDelete
      (onePage (redoAll updateThenDelete [numberedRow 1 10])) :=
    appliedTo_onePage (by decide) (by decide) (by decide)
  refine (undoTxn_restores_iff happlied (chainFrom_twoRecords _ _)
    (mem_of_isSome_onePage _)).mpr fun tableId pageId before after hmem => ?_
  rcases List.mem_cons.mp hmem with heq | hmem
  · cases heq
    rw [rowsOn_onePage]
    decide
  · cases List.mem_singleton.mp hmem

/-- **A row that a transaction has inserted and updated** is there when the
transaction has been undone. -/
theorem not_undoTxn_restores :
    AppliedTo (onePage [numberedRow 1 10]) insertThenUpdate
        (onePage (redoAll insertThenUpdate [numberedRow 1 10]))
      ∧ ChainFrom (twoRecords (.insert 4 7 (numberedRow 2 20))
        (.update 4 7 (numberedRow 2 20) (numberedRow 3 30))) 3 insertThenUpdate.reverse
      ∧ ¬ ∃ disk' wal',
        undoTxn (onePage (redoAll insertThenUpdate [numberedRow 1 10]))
            (twoRecords (.insert 4 7 (numberedRow 2 20))
              (.update 4 7 (numberedRow 2 20) (numberedRow 3 30))) 1 3 = .ok (disk', wal')
          ∧ ∀ tableId, tableTokens disk' [7] tableId
            = tableTokens (onePage [numberedRow 1 10]) [7] tableId := by
  refine ⟨appliedTo_onePage (by decide) (by decide) (by decide), chainFrom_twoRecords _ _, ?_⟩
  rintro ⟨disk', wal', hundo, hall⟩
  have hcard : (undoTxn (onePage (redoAll insertThenUpdate [numberedRow 1 10]))
      (twoRecords (.insert 4 7 (numberedRow 2 20))
        (.update 4 7 (numberedRow 2 20) (numberedRow 3 30))) 1 3).toOption.elim 0
      (fun s => (tableTokens s.1 [7] 4).card) = 2 := by
    decide +kernel
  rw [hundo] at hcard
  change (tableTokens disk' [7] 4).card = 2 at hcard
  rw [hall 4] at hcard
  exact absurd hcard (by decide +kernel)

end RecoveryManager
