import Deltabase.Engine.FoundRows
import Deltabase.Engine.TableStates

/-!
# What statements do to the relations

Seen through the contents of the tables, an `INSERT` adds its tuples, an `UPDATE` and a
`DELETE` replace or remove the tuples that they select, and no other statement does
anything. The storage does this row by row and, in an `UPDATE` or a `DELETE`, goes by
the ids of the rows, so that the last two need the ids to be distinct; the first does
not, but it is what makes them repeat.
-/

namespace StdDbInstance

open RowView Relational NodeExecutor

variable {possible possible' : TableId → Phase → Prop} {db db' : StdDbInstance}
  {tableName schemaName : Bytes} {mt : MetaTable}

/-! ## `INSERT` -/

/-- **`insert_row`** adds one tuple. -/
theorem relation_insertRow (h : Running Set.univ db.rowView)
    (horderly : Orderly possible db.rowView) (hlook : LooksUp db tableName schemaName mt)
    (hnext : ∀ phase, possible mt.id phase → possible mt.id (phase.next .appends))
    (cols : Option (List Bytes)) (tokens : List DataToken) :
    Ensures (insertRow tableName schemaName cols tokens) db
      (fun _ db' => Orderly possible db'.rowView
        ∧ (∃ mt', LooksUp db' tableName schemaName mt' ∧ mt'.id = mt.id ∧ mt'.columns = mt.columns)
        ∧ db'.rowView.contents = Function.update db.rowView.contents mt.id
            (db.rowView.contents mt.id + {mt.reorderedTokens cols tokens})) fun _ _ => True := by
  have hok := h.logged.pages.ok
  have hensures := ensures_insertRow h.active hok tableName schemaName cols tokens
  refine ensures_iff.mpr ⟨fun _ db' hrun => ?_, fun _ _ _ => trivial⟩
  obtain ⟨mt₀, hlook₀, ⟨id, v, hprep, hview⟩, -⟩ := hensures.of_ok hrun
  obtain rfl := hlook.eq hlook₀
  obtain ⟨-, hadded, hothers, hentries⟩ := hprep.inserted hok (mt.makeRow cols tokens).1 mt
  have hcatalog : db'.catalog = db.catalog.saveTable (mt.makeRow cols tokens).2 := by
    obtain ⟨-, -, -, hcatalog, -⟩ := hprep.rest
    exact (congrArg RowView.catalog hview).trans hcatalog
  have hsame : Recounted mt (mt.makeRow cols tokens).2 := ⟨rfl, rfl, rfl, rfl, rfl⟩
  have htracked : ∀ t phase, Tracked t phase db.rowView →
      Tracked t (if mt.id = t then phase.next .appends else phase) db'.rowView := by
    intro t phase htracked
    obtain ⟨mt', hlook', htracked'⟩ := htracked.insert h.active hrun
    obtain rfl := hlook.eq hlook'
    exact htracked'
  refine ⟨horderly.rewritten hok hlook.entry ?_ (fun _ _ h => h) ?_ ?_,
    ⟨_, hlook.recounted hsame hcatalog, rfl, rfl⟩, ?_⟩
  · intro t mt' hmt'
    rw [hview] at hmt'
    have hmt' := (hentries t).symm.trans hmt'
    split_ifs at hmt' with ht
    · obtain rfl := Option.some.inj hmt'
      rw [← ht]
      exact ⟨mt, hlook.entry, rfl⟩
    · exact ⟨mt', hmt', rfl⟩
  · intro t phase ht htracked₀
    have htracked₁ := htracked t phase htracked₀
    rwa [if_neg fun heq => ht heq.symm] at htracked₁
  · intro phase htracked₀ hpossible
    have htracked₁ := htracked mt.id phase htracked₀
    rw [if_pos rfl] at htracked₁
    exact ⟨_, htracked₁, hnext phase hpossible⟩
  · rw [hview]
    funext t
    rw [Function.update_apply]
    split_ifs with ht
    · subst ht
      have hlive : (mt.makeRow cols tokens).1.obsolete = false := by
        show hasFlag 0 obsoleteFlag = false
        decide
      rw [add_comm (db.rowView.contents mt.id), Multiset.singleton_add]
      exact contents_of_added hadded hlive
    · exact contents_congr (hothers t ht)

/-- **The loop of an `INSERT`** adds all its tuples. -/
theorem relation_insertRows (h : Running Set.univ db.rowView)
    (horderly : Orderly possible db.rowView) (hlook : LooksUp db tableName schemaName mt)
    (hnext : ∀ phase, possible mt.id phase → possible mt.id (phase.next .appends))
    (cols : Option (List Bytes)) (rows : List (List DataToken)) :
    Ensures (rows.forM (insertRow tableName schemaName cols)) db
      (fun _ db' => Orderly possible db'.rowView
        ∧ db'.rowView.contents = Function.update db.rowView.contents mt.id
            (db.rowView.contents mt.id + ↑(rows.map (mt.reorderedTokens cols))))
      fun _ _ => True := by
  set final := Function.update db.rowView.contents mt.id
    (db.rowView.contents mt.id + ↑(rows.map (mt.reorderedTokens cols))) with hfinal
  -- what there is and what is left to do is what there will be
  refine (Ensures.forM (fun rest db₁ => Running Set.univ db₁.rowView ∧ Orderly possible db₁.rowView
    ∧ (∃ mt₁, LooksUp db₁ tableName schemaName mt₁ ∧ mt₁.id = mt.id ∧ mt₁.columns = mt.columns)
    ∧ Function.update db₁.rowView.contents mt.id
        (db₁.rowView.contents mt.id + ↑(rest.map (mt.reorderedTokens cols))) = final)
    (fun tokens rest db₁ ⟨h₁, horderly₁, ⟨mt₁, hlook₁, hid, hcolumns⟩, hrest⟩ => ?_)
    ⟨h, horderly, ⟨mt, hlook, rfl, rfl⟩, rfl⟩).mono_ok fun _ db' ⟨_, horderly', _, hend⟩ => ?_
  · have hrunning := running_insertRow h₁ tableName schemaName cols tokens
    have hinsert := relation_insertRow h₁ horderly₁ hlook₁ (hid ▸ hnext) cols tokens
    refine ensures_iff.mpr ⟨fun _ db₂ hrun => ?_, fun _ _ _ => trivial⟩
    obtain ⟨horderly₂, ⟨mt₂, hlook₂, hid₂, hcolumns₂⟩, hcontents⟩ := hinsert.of_ok hrun
    refine ⟨hrunning.of_ok hrun, horderly₂,
      ⟨mt₂, hlook₂, hid₂.trans hid, hcolumns₂.trans hcolumns⟩, ?_⟩
    rw [hid, MetaTable.reorderedTokens_congr hcolumns] at hcontents
    rw [← hrest, hcontents, Function.update_idem, Function.update_self, add_assoc]
    rfl
  · refine ⟨horderly', ?_⟩
    rw [← hend, List.map_nil, Multiset.coe_nil, add_zero, Function.update_eq_self]

/-! ## `UPDATE` and `DELETE` -/

/-- The columns of the tables after one has been gone through. -/
theorem columns_of_within {v w : RowView} {mw : MetaTable} (h : Within v mt w mw)
    (hentry : v.entry mt.id = some mt) (t : TableId) (mt' : MetaTable)
    (hmt' : w.entry t = some mt') : ∃ mt₀, v.entry t = some mt₀ ∧ mt'.columns = mt₀.columns := by
  rw [h.entries] at hmt'
  split_ifs at hmt' with ht
  · obtain rfl := Option.some.inj hmt'
    rw [← ht]
    exact ⟨mt, hentry, h.same.columns⟩
  · exact ⟨mt', hmt', rfl⟩

/-- Only the table that has been gone through has other contents. -/
theorem contents_of_within {v w : RowView} {mw : MetaTable} (h : Within v mt w mw) :
    w.contents = Function.update v.contents mt.id (w.contents mt.id) := by
  funext t
  rw [Function.update_apply]
  split_ifs with ht
  · rw [ht]
  · exact contents_congr (h.others t ht)

/-- **`update_row`** replaces the rows that it is given. -/
theorem relation_updateRow (h : Running Set.univ db.rowView)
    (horderly : Orderly possible db.rowView) (hlook : LooksUp db tableName schemaName mt)
    (hle : ∀ t phase, possible t phase → possible' t phase)
    (hnext : ∀ phase, possible mt.id phase → possible' mt.id (phase.next .rewrites))
    {update : RowUpdate} {replace : List DataToken → List DataToken}
    (hreplace : ∀ mw row tokens, mw.columns = mt.columns →
      assignTokens mw update row = .ok tokens → tokens = replace row.tokens)
    (rows : List DataRow) :
    Ensures (updateRow tableName schemaName update rows) db
      (fun _ db' => Orderly possible' db'.rowView
        ∧ db'.rowView.contents = Function.update db.rowView.contents mt.id
          ((↑(live (db.rowView.rows mt.id)) : Multiset DataRow).bind fun row =>
            if row.id ∈ rows.map DataRow.id then {replace row.tokens} else {row.tokens}))
      fun _ _ => True := by
  have hok := h.logged.pages.ok
  have hensures := ensures_updateRow h.active hok tableName schemaName update rows
  refine ensures_iff.mpr ⟨fun _ db' hrun => ?_, fun _ _ _ => trivial⟩
  obtain ⟨mt₀, mt', hlook₀, hvisited⟩ := hensures.of_ok hrun
  obtain rfl := hlook.eq hlook₀
  obtain ⟨hwithin, hcontents⟩ := contents_of_updated hok hlook.entry hreplace hvisited
  refine ⟨horderly.rewritten hok hlook.entry (columns_of_within hwithin hlook.entry) hle ?_ ?_, ?_⟩
  · intro t phase ht htracked
    obtain ⟨mt'', hlook'', htracked'⟩ := htracked.update h.active hrun
    obtain rfl := hlook.eq hlook''
    rwa [if_neg fun heq => ht heq.1.symm] at htracked'
  · intro phase htracked hpossible
    obtain ⟨mt'', hlook'', htracked'⟩ := htracked.update h.active hrun
    split_ifs at htracked'
    · exact ⟨_, htracked', hnext phase hpossible⟩
    · exact ⟨_, htracked', hle mt.id phase hpossible⟩
  · rw [← hcontents]
    exact contents_of_within hwithin

/-- **`delete_rows`** removes the rows that it is given. -/
theorem relation_deleteRows (h : Running Set.univ db.rowView)
    (horderly : Orderly possible db.rowView) (hlook : LooksUp db tableName schemaName mt)
    (rows : List DataRow) :
    Ensures (deleteRows tableName schemaName rows) db
      (fun _ db' => Orderly possible db'.rowView
        ∧ db'.rowView.contents = Function.update db.rowView.contents mt.id
          ((↑(live (db.rowView.rows mt.id)) : Multiset DataRow).bind fun row =>
            if row.id ∈ rows.map DataRow.id then 0 else {row.tokens}))
      fun _ _ => True := by
  have hok := h.logged.pages.ok
  have hensures := ensures_deleteRows h.active hok tableName schemaName rows
  refine ensures_iff.mpr ⟨fun _ db' hrun => ?_, fun _ _ _ => trivial⟩
  obtain ⟨mt₀, mt', hlook₀, hvisited⟩ := hensures.of_ok hrun
  obtain rfl := hlook.eq hlook₀
  obtain ⟨hwithin, hcontents⟩ := contents_of_deleted hok hlook.entry hvisited
  have htracked : ∀ t phase, Tracked t phase db.rowView → Tracked t phase db'.rowView :=
    fun t phase htracked => htracked.delete h.active hrun
  refine ⟨horderly.rewritten hok hlook.entry (columns_of_within hwithin hlook.entry)
    (fun _ _ h => h) (fun t phase _ => htracked t phase)
    fun phase h hpossible => ⟨phase, htracked mt.id phase h, hpossible⟩, ?_⟩
  rw [← hcontents]
  exact contents_of_within hwithin

/-! ## Rows that are selected -/

/-- **What becomes of the contents** when the rows that are found with distinct ids are
replaced by images. -/
theorem bind_of_selected {v : RowView} {t : TableId} (hnodup : ((v.rows t).map DataRow.id).Nodup)
    {selects : List DataToken → Bool} {scanned : List DataRow}
    (hperm : scanned.Perm (live (v.rows t)))
    {image image' : List DataToken → Multiset (List DataToken)} :
    ((↑(live (v.rows t)) : Multiset DataRow).bind fun row =>
        if row.id ∈ (scanned.filter fun row => selects row.tokens).map DataRow.id
        then image row.tokens else image' row.tokens)
      = (v.contents t).bind fun tokens =>
        if selects tokens then image tokens else image' tokens := by
  refine bind_live fun row hrow => ?_
  have hiff : row.id ∈ (scanned.filter fun row => selects row.tokens).map DataRow.id
      ↔ selects row.tokens = true := mem_map_id_iff hnodup hperm hrow
  exact if_congr hiff rfl rfl

end StdDbInstance
