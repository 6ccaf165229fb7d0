import Deltabase.Misc.MemoryStream
import Deltabase.Types.Config
import Deltabase.Types.MetaTable

/-!
# The storage serializer

`storage::StdStorageSerializer` turns the values of the storage layer into
bytes and back. The encoders write to a `MemoryStream`; the decoders return
`false`, here `none`, on input they do not accept.

The numbers of the model are unbounded and the fields of the source are not,
so each type has a predicate `Fits`: the value is one the C++ type can hold,
and a `NULL` token, whose bytes are never written, has none. For such values
the decoder reads back what the encoder wrote and stops at its last byte.
-/

/-- Zero-initialised storage of `n` bytes. -/
def zeros (n : ℕ) : Bytes := List.replicate n 0

@[simp] theorem length_zeros (n : ℕ) : (zeros n).length = n := List.length_replicate

/-- The sixteen bytes of a UUID, which libuuid stores in network order. -/
def uuidBytes (id : UUID) : Bytes := (leBytes 16 id).reverse

/-- The UUID sixteen bytes hold. -/
def uuidOfBytes (bs : Bytes) : UUID := leNat bs.reverse

@[simp] theorem length_uuidBytes (id : UUID) : (uuidBytes id).length = 16 := by
  rw [uuidBytes, List.length_reverse, length_leBytes]

theorem uuidOfBytes_uuidBytes {id : UUID} (h : id < 256 ^ 16) :
    uuidOfBytes (uuidBytes id) = id := by
  rw [uuidOfBytes, uuidBytes, List.reverse_reverse, leNat_leBytes h]

theorem uuidBytes_uuidOfBytes {bs : Bytes} (h : bs.length = 16) :
    uuidBytes (uuidOfBytes bs) = bs := by
  rw [← List.length_reverse] at h
  rw [uuidBytes, uuidOfBytes, ← h, leBytes_leNat, List.reverse_reverse]

/-- The byte of a `bool`. -/
def boolBytes (b : Bool) : Bytes := [if b then 1 else 0]

/-! ## Values the C++ types can hold -/

namespace DataToken

/-- The token fits its C++ type, and a `NULL` has no bytes. -/
def Fits (t : DataToken) : Prop :=
  t.type.toNat < 256 ^ 8 ∧ t.bytes.length < 256 ^ 8 ∧ (t.type = .null → t.bytes = [])

instance : DecidablePred Fits := fun t => by unfold Fits; infer_instance

end DataToken

namespace DataRow

/-- The row fits its C++ type. -/
def Fits (r : DataRow) : Prop :=
  r.id < 256 ^ 8 ∧ r.flags < 256 ^ 4 ∧ r.tokens.length < 256 ^ 8 ∧ ∀ t ∈ r.tokens, t.Fits

instance : DecidablePred Fits := fun r => by unfold Fits; infer_instance

end DataRow

namespace MetaColumn

/-- The column fits its C++ type. -/
def Fits (c : MetaColumn) : Prop :=
  c.id < 256 ^ 16 ∧ c.tableId < 256 ^ 16 ∧ c.name.length < 256 ^ 8
    ∧ c.type.toNat < 256 ^ 8 ∧ c.flags < 256 ^ 4

instance : DecidablePred Fits := fun c => by unfold Fits; infer_instance

end MetaColumn

namespace MetaIndex

/-- The index fits its C++ type. -/
def Fits (i : MetaIndex) : Prop :=
  i.id < 256 ^ 16 ∧ i.tableId < 256 ^ 16 ∧ i.columnId < 256 ^ 16
    ∧ i.rootPageId < 256 ^ 16 ∧ i.name.length < 256 ^ 8 ∧ i.keyType.toNat < 256 ^ 8

instance : DecidablePred Fits := fun i => by unfold Fits; infer_instance

end MetaIndex

namespace MetaSchema

/-- The schema fits its C++ type. -/
def Fits (s : MetaSchema) : Prop :=
  s.id < 256 ^ 16 ∧ s.name.length < 256 ^ 8 ∧ s.dbName.length < 256 ^ 8

instance : DecidablePred Fits := fun s => by unfold Fits; infer_instance

end MetaSchema

namespace MetaTable

/-- The table fits its C++ type. -/
def Fits (t : MetaTable) : Prop :=
  t.id < 256 ^ 16 ∧ t.schemaId < 256 ^ 16 ∧ t.name.length < 256 ^ 8
    ∧ t.totalRows < 256 ^ 8 ∧ t.liveRows < 256 ^ 8 ∧ t.lastRid < 256 ^ 8
    ∧ t.columns.length < 256 ^ 8 ∧ (∀ c ∈ t.columns, c.Fits)
    ∧ t.indexes.length < 256 ^ 8 ∧ ∀ i ∈ t.indexes, i.Fits

instance : DecidablePred Fits := fun t => by unfold Fits; infer_instance

end MetaTable

namespace DataPage

/-- The page fits its C++ type. -/
def Fits (p : DataPage) : Prop :=
  p.id < 256 ^ 16 ∧ p.next < 256 ^ 16 ∧ p.tableId < 256 ^ 16 ∧ p.minRid < 256 ^ 8
    ∧ p.maxRid < 256 ^ 8 ∧ p.lastLsn < 256 ^ 8 ∧ p.rows.length < 256 ^ 8 ∧ ∀ r ∈ p.rows, r.Fits

instance : DecidablePred Fits := fun p => by unfold Fits; infer_instance

end DataPage

namespace Config

/-- The configuration fits its C++ type. -/
def Fits (c : Config) : Prop :=
  (∀ name ∈ c.dbName, name.length < 256 ^ 8) ∧ c.defaultSchema.length < 256 ^ 8
    ∧ c.dbPath.length < 256 ^ 8 ∧ c.ioType.toNat < 256 ^ 4 ∧ c.plannerType.toNat < 256 ^ 4
    ∧ c.serializerType.toNat < 256 ^ 4 ∧ c.lastCheckpointLsn < 256 ^ 8

instance : DecidablePred Fits := fun c => by unfold Fits; infer_instance

end Config

namespace StdStorageSerializer

open ReadOnlyMemoryStream

/-! ## Encoders -/

/-- `write_str`. -/
def writeStr (str : Bytes) (stream : MemoryStream) : MemoryStream :=
  (stream.write (leBytes 8 str.length)).write str

/-- `serialize_mc`. -/
def serializeMc (column : MetaColumn) : MemoryStream :=
  let stream : MemoryStream := {}
  let stream := stream.write (uuidBytes column.id)
  let stream := stream.write (uuidBytes column.tableId)
  let stream := writeStr column.name stream
  let stream := stream.write (leBytes 8 column.type.toNat)
  let stream := stream.write (leBytes 4 column.flags)
  stream.seek 0

/-- `serialize_mi`. -/
def serializeMi (index : MetaIndex) : MemoryStream :=
  let stream : MemoryStream := {}
  let stream := stream.write (uuidBytes index.id)
  let stream := stream.write (uuidBytes index.tableId)
  let stream := stream.write (uuidBytes index.columnId)
  let stream := stream.write (uuidBytes index.rootPageId)
  let stream := writeStr index.name stream
  let stream := stream.write (boolBytes index.isUnique)
  let stream := stream.write (leBytes 8 index.keyType.toNat)
  stream.seek 0

/-- `serialize_mt`. The columns and indexes are written, not appended; at the
end of the stream that is the same. -/
def serializeMt (table : MetaTable) : MemoryStream :=
  let stream : MemoryStream := {}
  let stream := stream.write (uuidBytes table.id)
  let stream := stream.write (uuidBytes table.schemaId)
  let stream := writeStr table.name stream
  let stream := stream.write (leBytes 8 table.totalRows)
  let stream := stream.write (leBytes 8 table.liveRows)
  let stream := stream.write (leBytes 8 table.columns.length)
  let stream := table.columns.foldl (fun s c => s.write (serializeMc c).buffer) stream
  let stream := stream.write (leBytes 8 table.lastRid)
  let stream := stream.write (leBytes 8 table.indexes.length)
  let stream := table.indexes.foldl (fun s i => s.write (serializeMi i).buffer) stream
  stream.seek 0

/-- `serialize_ms`. -/
def serializeMs (schema : MetaSchema) : MemoryStream :=
  let stream : MemoryStream := {}
  let stream := stream.write (uuidBytes schema.id)
  let stream := writeStr schema.name stream
  let stream := writeStr schema.dbName stream
  stream.seek 0

/-- `serialize_dt`. A `NULL` token is its type alone. -/
def serializeDt (token : DataToken) : MemoryStream :=
  let stream : MemoryStream := {}
  let stream := stream.write (leBytes 8 token.type.toNat)
  let stream :=
    if token.type ≠ .null then
      (stream.write (leBytes 8 token.bytes.length)).write token.bytes
    else stream
  stream.seek 0

/-- `serialize_dr`. -/
def serializeDr (row : DataRow) : MemoryStream :=
  let stream : MemoryStream := {}
  let stream := stream.write (leBytes 8 row.id)
  let stream := stream.write (leBytes 4 row.flags)
  let stream := stream.write (leBytes 8 row.tokens.length)
  let stream := row.tokens.foldl
    (fun s t => s.append (serializeDt t) (serializeDt t).size) stream
  stream.seek 0

/-- `serialize_dp`. -/
def serializeDp (page : DataPage) : MemoryStream :=
  let stream : MemoryStream := {}
  let stream := stream.write (uuidBytes page.id)
  let stream := stream.write (uuidBytes page.next)
  let stream := stream.write (uuidBytes page.tableId)
  let stream := stream.write (leBytes 8 page.minRid)
  let stream := stream.write (leBytes 8 page.maxRid)
  let stream := stream.write (leBytes 8 page.rows.length)
  let stream := stream.write (leBytes 8 page.lastLsn)
  let stream := page.rows.foldl
    (fun s r => s.append (serializeDr r) (serializeDr r).size) stream
  stream.seek 0

/-- `serialize_cfg`. A configuration without a name is written with an empty
one. -/
def serializeCfg (db : Config) : MemoryStream :=
  let stream : MemoryStream := {}
  let stream := writeStr (db.dbName.getD []) stream
  let stream := writeStr db.defaultSchema stream
  let stream := writeStr db.dbPath stream
  let stream := stream.write (leBytes 4 db.ioType.toNat)
  let stream := stream.write (leBytes 4 db.plannerType.toNat)
  let stream := stream.write (leBytes 4 db.serializerType.toNat)
  let stream := stream.write (leBytes 8 db.lastCheckpointLsn)
  stream.seek 0

/-- `has_dynamic_size`. -/
def hasDynamicSize (dataType : DataType) : Bool := decide (dataType = .string)

/-- `estimate_size` of a token. -/
def estimateSizeToken (token : DataToken) : ℕ :=
  8 + (if hasDynamicSize token.type then 8 else 0) + token.bytes.length

/-- `estimate_size` of a row. -/
def estimateSize (row : DataRow) : ℕ :=
  row.tokens.foldl (fun size t => size + estimateSizeToken t) (8 + 4 + 8)

/-! ## Decoders -/

/-- A checked read of an eight-byte number. -/
def readU64 : Decoder ℕ := do
  let bs ← readExact (zeros 8)
  pure (leNat bs)

/-- A checked read of a four-byte number. -/
def readU32 : Decoder ℕ := do
  let bs ← readExact (zeros 4)
  pure (leNat bs)

/-- A checked read of a UUID. -/
def readUuid : Decoder UUID := do
  let bs ← readExact (zeros 16)
  pure (uuidOfBytes bs)

/-- A checked read of a `bool`. -/
def readBool : Decoder Bool := do
  let bs ← readExact (zeros 1)
  pure (leNat bs != 0)

/-- A checked read of a data type. -/
def readDataType : Decoder DataType := do
  let n ← readU64
  pure (DataType.ofNat n)

/-- An unchecked read into a zero-initialised eight-byte number. -/
def readU64Any : Decoder ℕ := do
  let bs ← readAny (zeros 8)
  pure (leNat bs)

/-- An unchecked read into a null UUID. -/
def readUuidAny : Decoder UUID := do
  let bs ← readAny (zeros 16)
  pure (uuidOfBytes bs)

/-- `read_str`. -/
def readStr : Decoder Bytes := do
  let size ← readU64
  readExact (zeros size)

/-- `deserialize_mc`. -/
def deserializeMc : Decoder MetaColumn := do
  let id ← readUuid
  let tableId ← readUuid
  let name ← readStr
  let type ← readDataType
  let flags ← readU32
  pure { id, tableId, name, type, flags }

/-- `deserialize_mi`. -/
def deserializeMi : Decoder MetaIndex := do
  let id ← readUuid
  let tableId ← readUuid
  let columnId ← readUuid
  let rootPageId ← readUuid
  let name ← readStr
  let isUnique ← readBool
  let keyType ← readDataType
  pure { id, tableId, columnId, rootPageId, name, keyType, isUnique }

/-- `deserialize_mt`. The ids and the two row counters are read without a
check. -/
def deserializeMt : Decoder MetaTable := do
  let id ← readUuidAny
  let schemaId ← readUuidAny
  let name ← readStr
  let totalRows ← readU64Any
  let liveRows ← readU64Any
  let columnCount ← readU64
  let columns ← deserializeMc.replicate columnCount
  let lastRid ← readU64
  let indexesCount ← readU64
  let indexes ← deserializeMi.replicate indexesCount
  pure { id, schemaId, name, columns, indexes, lastRid, totalRows, liveRows }

/-- `deserialize_ms`. The id is read without a check. -/
def deserializeMs : Decoder MetaSchema := do
  let id ← readUuidAny
  let name ← readStr
  let dbName ← readStr
  pure { id, name, dbName }

/-- `deserialize_dt`. -/
def deserializeDt : Decoder DataToken := do
  let type ← readDataType
  if type ≠ .null then do
    let size ← readU64
    let bytes ← readExact (zeros size)
    pure { bytes, type }
  else
    pure { bytes := [], type }

/-- `deserialize_dr`. -/
def deserializeDr : Decoder DataRow := do
  let id ← readU64
  let flags ← readU32
  let tokensCount ← readU64
  let tokens ← deserializeDt.replicate tokensCount
  pure { id, flags, tokens }

/-- `deserialize_dp`. The size and the path of the page it reads into are not
touched. -/
def deserializeDp (out : DataPage) : Decoder DataPage := do
  let id ← readUuid
  let next ← readUuid
  let tableId ← readUuid
  let minRid ← readU64
  let maxRid ← readU64
  let rowsCount ← readU64
  let lastLsn ← readU64
  let rows ← deserializeDr.replicate rowsCount
  pure { out with id, next, tableId, minRid, maxRid, rowsCount, lastLsn, rows }

/-- `deserialize_cfg`. -/
def deserializeCfg : Decoder Config := do
  let dbName ← readStr
  let defaultSchema ← readStr
  let dbPath ← readStr
  let ioType ← readU32
  let plannerType ← readU32
  let serializerType ← readU32
  let lastCheckpointLsn ← readU64
  pure
    { dbName := some dbName
      defaultSchema
      dbPath
      ioType := .ofNat ioType
      plannerType := .ofNat plannerType
      serializerType := .ofNat serializerType
      lastCheckpointLsn }

/-! ## The bytes of a value -/

/-- The bytes of a length-prefixed string. -/
def strBytes (str : Bytes) : Bytes := leBytes 8 str.length ++ str

@[simp] theorem writeStr_atEnd (str bs : Bytes) :
    writeStr str (MemoryStream.atEnd bs) = MemoryStream.atEnd (bs ++ strBytes str) := by
  rw [writeStr, MemoryStream.write_atEnd, MemoryStream.write_atEnd, List.append_assoc, strBytes]

/-- A loop of writes at the end appends the concatenation. -/
@[simp] theorem foldl_write_atEnd {α : Type} (f : α → Bytes) (xs : List α) (bs : Bytes) :
    xs.foldl (fun s x => s.write (f x)) (MemoryStream.atEnd bs)
      = MemoryStream.atEnd (bs ++ xs.flatMap f) := by
  induction xs generalizing bs with
  | nil => rw [List.foldl_nil, List.flatMap_nil, List.append_nil]
  | cons x xs ih =>
    rw [List.foldl_cons, MemoryStream.write_atEnd, ih, List.flatMap_cons, List.append_assoc]

/-- A loop of appends of whole streams appends the concatenation. -/
@[simp] theorem foldl_append_atEnd {α : Type} (f : α → MemoryStream) (xs : List α)
    (bs : Bytes) :
    xs.foldl (fun s x => s.append (f x) (f x).size) (MemoryStream.atEnd bs)
      = MemoryStream.atEnd (bs ++ xs.flatMap fun x => (f x).buffer) := by
  induction xs generalizing bs with
  | nil => rw [List.foldl_nil, List.flatMap_nil, List.append_nil]
  | cons x xs ih =>
    rw [List.foldl_cons, MemoryStream.append_atEnd, ih, List.flatMap_cons, List.append_assoc]

theorem buffer_serializeMc (c : MetaColumn) :
    (serializeMc c).buffer
      = uuidBytes c.id ++ (uuidBytes c.tableId ++ (strBytes c.name
        ++ (leBytes 8 c.type.toNat ++ leBytes 4 c.flags))) := by
  simp [serializeMc, MemoryStream.empty_eq_atEnd]

theorem buffer_serializeMi (i : MetaIndex) :
    (serializeMi i).buffer
      = uuidBytes i.id ++ (uuidBytes i.tableId ++ (uuidBytes i.columnId
        ++ (uuidBytes i.rootPageId ++ (strBytes i.name
          ++ (boolBytes i.isUnique ++ leBytes 8 i.keyType.toNat))))) := by
  simp [serializeMi, MemoryStream.empty_eq_atEnd]

theorem buffer_serializeMt (t : MetaTable) :
    (serializeMt t).buffer
      = uuidBytes t.id ++ (uuidBytes t.schemaId ++ (strBytes t.name
        ++ (leBytes 8 t.totalRows ++ (leBytes 8 t.liveRows
        ++ (leBytes 8 t.columns.length
        ++ (t.columns.flatMap (fun c => (serializeMc c).buffer)
        ++ (leBytes 8 t.lastRid ++ (leBytes 8 t.indexes.length
        ++ t.indexes.flatMap (fun i => (serializeMi i).buffer))))))))) := by
  simp [serializeMt, MemoryStream.empty_eq_atEnd]

theorem buffer_serializeMs (s : MetaSchema) :
    (serializeMs s).buffer
      = uuidBytes s.id ++ (strBytes s.name ++ strBytes s.dbName) := by
  simp [serializeMs, MemoryStream.empty_eq_atEnd]

theorem buffer_serializeDt (t : DataToken) :
    (serializeDt t).buffer
      = leBytes 8 t.type.toNat ++ (if t.type = .null then [] else strBytes t.bytes) := by
  by_cases h : t.type = .null
  · simp [serializeDt, MemoryStream.empty_eq_atEnd, h]
  · simp [serializeDt, MemoryStream.empty_eq_atEnd, h, strBytes]

theorem buffer_serializeDr (r : DataRow) :
    (serializeDr r).buffer
      = leBytes 8 r.id ++ (leBytes 4 r.flags ++ (leBytes 8 r.tokens.length
        ++ r.tokens.flatMap (fun t => (serializeDt t).buffer))) := by
  simp [serializeDr, MemoryStream.empty_eq_atEnd]

theorem buffer_serializeDp (p : DataPage) :
    (serializeDp p).buffer
      = uuidBytes p.id ++ (uuidBytes p.next ++ (uuidBytes p.tableId
        ++ (leBytes 8 p.minRid ++ (leBytes 8 p.maxRid ++ (leBytes 8 p.rows.length
        ++ (leBytes 8 p.lastLsn
        ++ p.rows.flatMap (fun r => (serializeDr r).buffer))))))) := by
  simp [serializeDp, MemoryStream.empty_eq_atEnd]

theorem buffer_serializeCfg (c : Config) :
    (serializeCfg c).buffer
      = strBytes (c.dbName.getD []) ++ (strBytes c.defaultSchema ++ (strBytes c.dbPath
        ++ (leBytes 4 c.ioType.toNat ++ (leBytes 4 c.plannerType.toNat
        ++ (leBytes 4 c.serializerType.toNat ++ leBytes 8 c.lastCheckpointLsn))))) := by
  simp [serializeCfg, MemoryStream.empty_eq_atEnd]

/-! ## Reading back numbers and strings -/

theorem reads_readU64 {n : ℕ} (h : n < 256 ^ 8) : readU64.Reads (leBytes 8 n) n :=
  (reads_readExact (by simp)).bind_pure (congrArg pure (leNat_leBytes h))

theorem reads_readU32 {n : ℕ} (h : n < 256 ^ 4) : readU32.Reads (leBytes 4 n) n :=
  (reads_readExact (by simp)).bind_pure (congrArg pure (leNat_leBytes h))

theorem reads_readUuid {id : UUID} (h : id < 256 ^ 16) : readUuid.Reads (uuidBytes id) id :=
  (reads_readExact (by simp)).bind_pure (congrArg pure (uuidOfBytes_uuidBytes h))

theorem reads_readBool (b : Bool) : readBool.Reads (boolBytes b) b := by
  have hlen : (boolBytes b).length = (zeros 1).length := rfl
  refine (reads_readExact hlen).bind_pure ?_
  cases b <;> rfl

theorem reads_readDataType {t : DataType} (h : t.toNat < 256 ^ 8) :
    readDataType.Reads (leBytes 8 t.toNat) t :=
  (reads_readU64 h).bind_pure (congrArg pure t.ofNat_toNat)

theorem reads_readU64Any {n : ℕ} (h : n < 256 ^ 8) : readU64Any.Reads (leBytes 8 n) n :=
  (reads_readAny (by simp)).bind_pure (congrArg pure (leNat_leBytes h))

theorem reads_readUuidAny {id : UUID} (h : id < 256 ^ 16) :
    readUuidAny.Reads (uuidBytes id) id :=
  (reads_readAny (by simp)).bind_pure (congrArg pure (uuidOfBytes_uuidBytes h))

theorem reads_readStr {str : Bytes} (h : str.length < 256 ^ 8) :
    readStr.Reads (strBytes str) str :=
  (reads_readU64 h).bind (reads_readExact (by simp))

/-! ## Checked reads are exact -/

/-- A number is written as the bytes it has been read from. -/
theorem exact_readLe (width : ℕ) :
    (readExact (zeros width) >>= fun bs => pure (leNat bs)).Exact
      (leBytes width) := by
  intro s t n h
  obtain ⟨bs, u, hread, hp⟩ := Decoder.bind_eq_some.mp h
  obtain ⟨rfl, rfl⟩ := Decoder.pure_eq_some.mp hp
  obtain ⟨hlen, hs⟩ := readExact_eq_some hread
  rw [length_zeros] at hlen
  rw [← hlen, leBytes_leNat]
  exact hs

theorem exact_readU64 : readU64.Exact (leBytes 8) := exact_readLe 8

theorem exact_readU32 : readU32.Exact (leBytes 4) := exact_readLe 4

/-- A UUID is written as the bytes it has been read from. -/
theorem exact_readUuid : readUuid.Exact uuidBytes := by
  intro s t id h
  obtain ⟨bs, u, hread, hp⟩ := Decoder.bind_eq_some.mp h
  obtain ⟨rfl, rfl⟩ := Decoder.pure_eq_some.mp hp
  obtain ⟨hlen, hs⟩ := readExact_eq_some hread
  rw [uuidBytes_uuidOfBytes (hlen.trans (length_zeros 16))]
  exact hs

/-! ## Reading back the stored types -/

/-- A column is read back. -/
theorem reads_deserializeMc {c : MetaColumn} (h : c.Fits) :
    deserializeMc.Reads (serializeMc c).buffer c := by
  obtain ⟨hid, htable, hname, htype, hflags⟩ := h
  rw [buffer_serializeMc]
  refine (reads_readUuid hid).bind ((reads_readUuid htable).bind ?_)
  refine (reads_readStr hname).bind ((reads_readDataType htype).bind ?_)
  exact (reads_readU32 hflags).bind_pure rfl

/-- An index is read back. -/
theorem reads_deserializeMi {i : MetaIndex} (h : i.Fits) :
    deserializeMi.Reads (serializeMi i).buffer i := by
  obtain ⟨hid, htable, hcolumn, hroot, hname, hkey⟩ := h
  rw [buffer_serializeMi]
  refine (reads_readUuid hid).bind ((reads_readUuid htable).bind ?_)
  refine (reads_readUuid hcolumn).bind ((reads_readUuid hroot).bind ?_)
  refine (reads_readStr hname).bind ((reads_readBool i.isUnique).bind ?_)
  exact (reads_readDataType hkey).bind_pure rfl

/-- **A table is read back**, with its columns and indexes in order. -/
theorem reads_deserializeMt {t : MetaTable} (h : t.Fits) :
    deserializeMt.Reads (serializeMt t).buffer t := by
  obtain ⟨hid, hschema, hname, htotal, hlive, hrid, hcols, hcol, hidxs, hidx⟩ := h
  rw [buffer_serializeMt]
  refine (reads_readUuidAny hid).bind ((reads_readUuidAny hschema).bind ?_)
  refine (reads_readStr hname).bind ((reads_readU64Any htotal).bind ?_)
  refine (reads_readU64Any hlive).bind ((reads_readU64 hcols).bind ?_)
  refine (Decoder.Reads.replicate fun c hc => reads_deserializeMc (hcol c hc)).bind ?_
  refine (reads_readU64 hrid).bind ((reads_readU64 hidxs).bind ?_)
  exact (Decoder.Reads.replicate fun i hi => reads_deserializeMi (hidx i hi)).bind_pure rfl

/-- A schema is read back. -/
theorem reads_deserializeMs {s : MetaSchema} (h : s.Fits) :
    deserializeMs.Reads (serializeMs s).buffer s := by
  obtain ⟨hid, hname, hdb⟩ := h
  rw [buffer_serializeMs]
  refine (reads_readUuidAny hid).bind ((reads_readStr hname).bind ?_)
  exact (reads_readStr hdb).bind_pure rfl

/-- **A token is read back.** A `NULL` is read without bytes, so it must have
been written without. -/
theorem reads_deserializeDt {t : DataToken} (h : t.Fits) :
    deserializeDt.Reads (serializeDt t).buffer t := by
  obtain ⟨htype, hlen, hnull⟩ := h
  obtain ⟨bytes, type⟩ := t
  rw [buffer_serializeDt]
  refine (reads_readDataType htype).bind ?_
  by_cases hn : type = .null
  · simp only [hn, ne_eq, not_true_eq_false, if_false, if_true]
    have hb : bytes = [] := hnull hn
    rw [hb]
    exact Decoder.reads_pure _
  · simp only [hn, ne_eq, not_false_eq_true, if_true, if_false]
    refine (reads_readU64 hlen).bind ?_
    exact (reads_readExact (by simp)).bind_pure rfl

/-- **A row is read back**, token by token. -/
theorem reads_deserializeDr {r : DataRow} (h : r.Fits) :
    deserializeDr.Reads (serializeDr r).buffer r := by
  obtain ⟨hid, hflags, hcount, htokens⟩ := h
  rw [buffer_serializeDr]
  refine (reads_readU64 hid).bind ((reads_readU32 hflags).bind ((reads_readU64 hcount).bind ?_))
  exact (Decoder.Reads.replicate fun t ht => reads_deserializeDt (htokens t ht)).bind_pure rfl

/-- **A page is read back**, with its rows in order and their number as its row
count. -/
theorem reads_deserializeDp (out : DataPage) {p : DataPage} (h : p.Fits) :
    (deserializeDp out).Reads (serializeDp p).buffer
      { p with rowsCount := p.rows.length, size := out.size, path := out.path } := by
  obtain ⟨hid, hnext, htable, hmin, hmax, hlsn, hcount, hrows⟩ := h
  rw [buffer_serializeDp]
  refine (reads_readUuid hid).bind ((reads_readUuid hnext).bind ?_)
  refine (reads_readUuid htable).bind ((reads_readU64 hmin).bind ?_)
  refine (reads_readU64 hmax).bind ((reads_readU64 hcount).bind ?_)
  refine (reads_readU64 hlsn).bind ?_
  exact (Decoder.Reads.replicate fun r hr => reads_deserializeDr (hrows r hr)).bind_pure rfl

/-- **A configuration with a name is read back.** -/
theorem reads_deserializeCfg {c : Config} (h : c.Fits) (hname : c.dbName.isSome) :
    deserializeCfg.Reads (serializeCfg c).buffer c := by
  obtain ⟨name, hsome⟩ := Option.isSome_iff_exists.mp hname
  obtain ⟨hdb, hschema, hpath, hio, hplanner, hserializer, hlsn⟩ := h
  rw [buffer_serializeCfg, hsome, Option.getD_some]
  refine (reads_readStr (hdb name hsome)).bind ((reads_readStr hschema).bind ?_)
  refine (reads_readStr hpath).bind ((reads_readU32 hio).bind ?_)
  refine (reads_readU32 hplanner).bind ((reads_readU32 hserializer).bind ?_)
  refine (reads_readU64 hlsn).bind_pure ?_
  rw [Config.IoType.ofNat_toNat, Config.PlannerType.ofNat_toNat,
    Config.SerializerType.ofNat_toNat, ← hsome]

end StdStorageSerializer
