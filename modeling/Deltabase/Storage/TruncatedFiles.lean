import Deltabase.Storage.IndexFileSerializer

/-!
# Truncated files

No deserializer of the storage layer takes a file that has been cut off for a
shorter value: on every proper prefix of what the serializer of the type has
written it returns `false`.

Not every read is checked. The ids of a table and a schema and the counters of a
table are read with whatever is left, and what a short read leaves of them is taken
as it is. What saves them is what comes next: a short read has come to the end of the
stream, and there the checked read behind it finds nothing (`Decoder.Clamps.bind`).
So no deserializer as a whole looks at what follows (`extends_deserializeMt` and its
companions), and since each reads what has been written to its end, it cannot be
content with less.

A `NULL` token with bytes is written without them, and is read back without them.
`stored` is the value that is in the file, and a value of any of the types may be
written if the numbers in it are those of its C++ type; that is what
`stored.Fits` says.
-/

/-! ## What is in the file -/

/-- The token that is in the file: a `NULL` has no bytes there. -/
def DataToken.stored (t : DataToken) : DataToken :=
  if t.type = .null then { t with bytes := [] } else t

/-- The row that is in the file. -/
def DataRow.stored (r : DataRow) : DataRow := { r with tokens := r.tokens.map DataToken.stored }

/-- The page that is in the file. -/
def DataPage.stored (p : DataPage) : DataPage := { p with rows := p.rows.map DataRow.stored }

/-- What is in the file of an index page's data. -/
def IndexNode.stored : IndexNode → IndexNode
  | internal node => internal { node with keys := node.keys.map DataToken.stored }
  | leaf node => leaf { node with keys := node.keys.map DataToken.stored }

/-- The index page that is in the file. -/
def IndexPage.stored (p : IndexPage) : IndexPage := { p with data := p.data.stored }

/-- The pages that are in an index file. -/
def IndexFile.stored (file : IndexFile) : IndexFile :=
  { file with pages := file.pages.map IndexPage.stored }

/-- The configuration that is in the file: it has a name, if only an empty one. -/
def Config.stored (c : Config) : Config := { c with dbName := some (c.dbName.getD []) }

theorem IndexPage.Consistent.stored {p : IndexPage} (h : p.Consistent) : p.stored.Consistent := by
  obtain ⟨id, parent, indexId, isLeaf, data⟩ := p
  cases data <;> exact h

namespace StdStorageSerializer

open ReadOnlyMemoryStream

theorem buffer_serializeDt_stored (t : DataToken) :
    (serializeDt t.stored).buffer = (serializeDt t).buffer := by
  unfold DataToken.stored
  by_cases h : t.type = .null
  · rw [if_pos h, buffer_serializeDt, buffer_serializeDt, if_pos h]
    simp only [h, if_true]
  · rw [if_neg h]

theorem flatMap_serializeDt_stored (tokens : List DataToken) :
    (tokens.map DataToken.stored).flatMap (fun t => (serializeDt t).buffer)
      = tokens.flatMap fun t => (serializeDt t).buffer := by
  rw [List.flatMap_map]
  exact congrArg (tokens.flatMap ·) (funext buffer_serializeDt_stored)

theorem buffer_serializeDr_stored (r : DataRow) :
    (serializeDr r.stored).buffer = (serializeDr r).buffer := by
  rw [buffer_serializeDr, buffer_serializeDr]
  show leBytes 8 r.id ++ (leBytes 4 r.flags ++ (leBytes 8 (r.tokens.map DataToken.stored).length
    ++ (r.tokens.map DataToken.stored).flatMap _)) = _
  rw [List.length_map, flatMap_serializeDt_stored]

theorem buffer_serializeDp_stored (p : DataPage) :
    (serializeDp p.stored).buffer = (serializeDp p).buffer := by
  have hrows : (p.rows.map DataRow.stored).flatMap (fun r => (serializeDr r).buffer)
      = p.rows.flatMap fun r => (serializeDr r).buffer := by
    rw [List.flatMap_map]
    exact congrArg (p.rows.flatMap ·) (funext buffer_serializeDr_stored)
  rw [buffer_serializeDp, buffer_serializeDp]
  simp only [DataPage.stored, List.length_map, hrows]

theorem nodeBytes_stored (node : IndexNode) : nodeBytes node.stored = nodeBytes node := by
  cases node with
  | internal node =>
    show leBytes 8 (node.keys.map DataToken.stored).length
      ++ ((node.keys.map DataToken.stored).flatMap _ ++ _) = _
    rw [List.length_map, flatMap_serializeDt_stored]
    rfl
  | leaf node =>
    show leBytes 8 (node.keys.map DataToken.stored).length
      ++ ((node.keys.map DataToken.stored).flatMap _ ++ _) = _
    rw [List.length_map, flatMap_serializeDt_stored]
    rfl

theorem buffer_serializeIp_stored (p : IndexPage) :
    (serializeIp p.stored).buffer = (serializeIp p).buffer := by
  rw [buffer_serializeIp, buffer_serializeIp, ← nodeBytes_stored p.data]
  rfl

theorem buffer_serializeIf_stored (file : IndexFile) :
    (serializeIf file.stored).buffer = (serializeIf file).buffer := by
  have hpages : (file.pages.map IndexPage.stored).flatMap (fun p => (serializeIp p).buffer)
      = file.pages.flatMap fun p => (serializeIp p).buffer := by
    rw [List.flatMap_map]
    exact congrArg (file.pages.flatMap ·) (funext buffer_serializeIp_stored)
  rw [buffer_serializeIf, buffer_serializeIf]
  simp only [IndexFile.stored, List.length_map, hpages]

/-! ## The deserializers do not look at what follows -/

theorem extends_readU64 : readU64.Extends :=
  (extends_readExact _).bind fun _ => Decoder.extends_pure _

theorem extends_readU32 : readU32.Extends :=
  (extends_readExact _).bind fun _ => Decoder.extends_pure _

theorem extends_readUuid : readUuid.Extends :=
  (extends_readExact _).bind fun _ => Decoder.extends_pure _

theorem extends_readBool : readBool.Extends :=
  (extends_readExact _).bind fun _ => Decoder.extends_pure _

theorem extends_readDataType : readDataType.Extends :=
  extends_readU64.bind fun _ => Decoder.extends_pure _

theorem extends_readStr : readStr.Extends :=
  extends_readU64.bind fun _ => extends_readExact _

theorem clamps_readU64Any : readU64Any.Clamps := (clamps_readAny _).bind_pure leNat

theorem clamps_readUuidAny : readUuidAny.Clamps := (clamps_readAny _).bind_pure uuidOfBytes

theorem extends_deserializeMc : deserializeMc.Extends :=
  extends_readUuid.bind fun _ => extends_readUuid.bind fun _ => extends_readStr.bind fun _ =>
    extends_readDataType.bind fun _ => extends_readU32.bind fun _ => Decoder.extends_pure _

theorem extends_deserializeMi : deserializeMi.Extends :=
  extends_readUuid.bind fun _ => extends_readUuid.bind fun _ => extends_readUuid.bind fun _ =>
    extends_readUuid.bind fun _ => extends_readStr.bind fun _ => extends_readBool.bind fun _ =>
      extends_readDataType.bind fun _ => Decoder.extends_pure _

/-- **A table.** Behind the two ids comes the length of the name, and behind the two
counters the number of the columns, both of them checked. -/
theorem extends_deserializeMt : deserializeMt.Extends := by
  refine clamps_readUuidAny.bind (fun id => clamps_readUuidAny.bind (fun schemaId => ?_)
    fun schemaId => rfl) fun id => rfl
  refine extends_readStr.bind fun name => ?_
  refine clamps_readU64Any.bind (fun totalRows => clamps_readU64Any.bind (fun liveRows => ?_)
    fun liveRows => rfl) fun totalRows => rfl
  refine extends_readU64.bind fun columnCount => ?_
  refine (extends_deserializeMc.replicate columnCount).bind fun columns => ?_
  refine extends_readU64.bind fun lastRid => extends_readU64.bind fun indexesCount => ?_
  exact (extends_deserializeMi.replicate indexesCount).bind fun indexes => Decoder.extends_pure _

/-- A schema. Behind the id comes the length of the name. -/
theorem extends_deserializeMs : deserializeMs.Extends :=
  clamps_readUuidAny.bind (fun _ => extends_readStr.bind fun _ => extends_readStr.bind fun _ =>
    Decoder.extends_pure _) fun _ => rfl

theorem extends_deserializeDt : deserializeDt.Extends := by
  refine extends_readDataType.bind fun type => ?_
  by_cases h : type = .null
  · rw [if_neg (not_not_intro h)]
    exact Decoder.extends_pure _
  · rw [if_pos h]
    exact extends_readU64.bind fun size => (extends_readExact _).bind fun bytes =>
      Decoder.extends_pure _

theorem extends_deserializeDr : deserializeDr.Extends :=
  extends_readU64.bind fun _ => extends_readU32.bind fun _ => extends_readU64.bind fun count =>
    (extends_deserializeDt.replicate count).bind fun _ => Decoder.extends_pure _

theorem extends_deserializeDp (out : DataPage) : (deserializeDp out).Extends := by
  refine extends_readUuid.bind fun id => extends_readUuid.bind fun next => ?_
  refine extends_readUuid.bind fun tableId => extends_readU64.bind fun minRid => ?_
  refine extends_readU64.bind fun maxRid => extends_readU64.bind fun rowsCount => ?_
  refine extends_readU64.bind fun lastLsn => ?_
  exact (extends_deserializeDr.replicate rowsCount).bind fun rows => Decoder.extends_pure _

theorem extends_readRowPtr : readRowPtr.Extends :=
  extends_readUuid.bind fun _ => extends_readU64.bind fun _ => Decoder.extends_pure _

theorem extends_deserializeIp : deserializeIp.Extends := by
  refine extends_readU64.bind fun id => extends_readU64.bind fun parent => ?_
  refine extends_readUuid.bind fun indexId => extends_readBool.bind fun isLeaf => ?_
  cases isLeaf with
  | true =>
    refine extends_readU64.bind fun keysCount => ?_
    refine (extends_deserializeDt.replicate keysCount).bind fun keys => ?_
    refine extends_readU64.bind fun rowsCount => ?_
    refine (extends_readRowPtr.replicate rowsCount).bind fun rows => ?_
    exact extends_readU64.bind fun nextLeaf => Decoder.extends_pure _
  | false =>
    refine extends_readU64.bind fun keysCount => ?_
    refine (extends_deserializeDt.replicate keysCount).bind fun keys => ?_
    refine extends_readU64.bind fun childrenCount => ?_
    exact (extends_readU64.replicate childrenCount).bind fun children => Decoder.extends_pure _

theorem extends_deserializeIf : deserializeIf.Extends :=
  extends_readUuid.bind fun _ => extends_readU64.bind fun _ => extends_readU64.bind fun _ =>
    extends_readU64.bind fun count => (extends_deserializeIp.replicate count).bind fun _ =>
      Decoder.extends_pure _

theorem extends_deserializeCfg : deserializeCfg.Extends :=
  extends_readStr.bind fun _ => extends_readStr.bind fun _ => extends_readStr.bind fun _ =>
    extends_readU32.bind fun _ => extends_readU32.bind fun _ => extends_readU32.bind fun _ =>
      extends_readU64.bind fun _ => Decoder.extends_pure _

/-! ## Truncation -/

/-- **A truncated file is never accepted as a shorter value.** For every value that its
C++ type can hold, the deserializer refuses every proper prefix of what the serializer
writes. -/
theorem refuses_truncated (out : DataPage) :
    (∀ x : DataRow, x.stored.Fits → deserializeDr.RefusesCuts (serializeDr x).buffer)
      ∧ (∀ x : DataPage, x.stored.Fits → (deserializeDp out).RefusesCuts (serializeDp x).buffer)
      ∧ (∀ x : MetaTable, x.Fits → deserializeMt.RefusesCuts (serializeMt x).buffer)
      ∧ (∀ x : MetaSchema, x.Fits → deserializeMs.RefusesCuts (serializeMs x).buffer)
      ∧ (∀ x : IndexFile, x.stored.Fits → (∀ p ∈ x.pages, p.Consistent) →
          deserializeIf.RefusesCuts (serializeIf x).buffer)
      ∧ ∀ x : Config, x.stored.Fits → deserializeCfg.RefusesCuts (serializeCfg x).buffer := by
  refine ⟨fun x h => ?_, fun x h => ?_, fun x h => ?_, fun x h => ?_, fun x h hcons => ?_,
    fun x h => ?_⟩
  · rw [← buffer_serializeDr_stored]
    exact extends_deserializeDr.refusesCuts (reads_deserializeDr h).run
  · rw [← buffer_serializeDp_stored]
    exact (extends_deserializeDp out).refusesCuts (reads_deserializeDp out h).run
  · exact extends_deserializeMt.refusesCuts (reads_deserializeMt h).run
  · exact extends_deserializeMs.refusesCuts (reads_deserializeMs h).run
  · rw [← buffer_serializeIf_stored]
    refine extends_deserializeIf.refusesCuts (reads_deserializeIf h fun p hp => ?_).run
    obtain ⟨q, hq, rfl⟩ := List.mem_map.mp hp
    exact (hcons q hq).stored
  · rw [show (serializeCfg x).buffer = (serializeCfg x.stored).buffer from by
      rw [buffer_serializeCfg, buffer_serializeCfg]
      rfl]
    exact extends_deserializeCfg.refusesCuts (reads_deserializeCfg h rfl).run

/-- A row that is cut inside the bytes of its first token, and a schema that is cut
inside its id. -/
theorem refuses_truncated_rowAndSchema :
    deserializeDr
      ((serializeDr { tokens := [⟨[5, 0, 0, 0], .integer⟩, ⟨[9], .null⟩] }).buffer.take 38)
        = none
      ∧ deserializeMs
        ((serializeMs { id := 7, name := [99], dbName := [] }).buffer.take 5) = none := by
  have h := refuses_truncated { id := 7, tableId := 3, size := 0, path := ([115], [116]) }
  refine ⟨h.1 { tokens := [⟨[5, 0, 0, 0], .integer⟩, ⟨[9], .null⟩] } (by decide) _
    (List.take_prefix 38 _) (by decide), ?_⟩
  exact h.2.2.2.1 { id := 7, name := [99], dbName := [] } (by decide) _ (List.take_prefix 5 _)
    (by decide)

end StdStorageSerializer
