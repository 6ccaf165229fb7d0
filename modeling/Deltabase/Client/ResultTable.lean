import Deltabase.Client.StdProtocolImpl
import Deltabase.Network.QueryResultSerializer

/-!
# Results on the side of the client

`StdProtocolImpl.ParseTable` reads a chunk of a result. A column becomes a name
and a .NET type, a token a .NET object of that type (`DataTypeMapper`). What
the server writes is read back (`parseTable_serialize_kept`), up to the
bytes of a `BOOL` that are neither 0 nor 1, of which the client keeps that they
are not 0.
-/

/-! ## .NET types and objects -/

/-- The .NET types of columns. -/
inductive ClrType where
  | int32
  | double
  | char
  | bool
  | string
  deriving DecidableEq

/-- A .NET object. A `double` is its bit pattern. -/
inductive ClrObject where
  | int32 (value : Int32)
  | double (bits : UInt64)
  | char (value : UInt16)
  | bool (value : Bool)
  | string (value : String)
  deriving DecidableEq

namespace DataTypeMapper

/-- `ToType`; `null` is the type of a `NULL` column. -/
def toType : DataType → Except ClientExn (Option ClrType)
  | .undefined => .error .deltabase
  | .null => .ok none
  | .integer => .ok (some .int32)
  | .real => .ok (some .double)
  | .char => .ok (some .char)
  | .bool => .ok (some .bool)
  | .string => .ok (some .string)
  | .other .. => .error .argumentOutOfRange

/-- `FromType`. -/
def fromType : Option ClrType → DataType
  | none => .null
  | some .int32 => .integer
  | some .double => .real
  | some .char => .char
  | some .bool => .bool
  | some .string => .string

/-- `GetDataTypeSize`. -/
def getDataTypeSize : DataType → Except ClientExn ℕ
  | .null => .ok 0
  | .integer => .ok 4
  | .real => .ok 8
  | .char => .ok 1
  | .bool => .ok 1
  | .string => .ok 0
  | _ => .error .argumentOutOfRange

/-- `IsFixedSize`. -/
def isFixedSize : DataType → Except ClientExn Bool
  | .null => .ok true
  | .integer => .ok true
  | .real => .ok true
  | .char => .ok true
  | .bool => .ok true
  | .string => .ok false
  | _ => .error .argumentOutOfRange

/-- The conversion of `ToObject`, of bytes of the right number. -/
def convert (bytes : Bytes) : DataType → Except ClientExn (Option ClrObject)
  | .null => .ok none
  | .integer => .ok (some (.int32 (int32OfBytes bytes)))
  | .real => .ok (some (.double (UInt64.ofNat (leNat bytes))))
  | .bool => .ok (some (.bool (leNat bytes != 0)))
  | .char => .ok (some (.char (UInt16.ofNat (leNat bytes))))
  | .string => .ok (some (.string (Utf8.getString bytes)))
  | _ => .error .argumentOutOfRange

/-- The check of `ToObject`. -/
def hasWrongSize (bytes : Bytes) (type : DataType) : Except ClientExn Bool := do
  let fixedSize ← isFixedSize type
  if fixedSize then do
    let size ← getDataTypeSize type
    pure (size != bytes.length)
  else pure false

/-- `ToObject`. -/
def toObject (bytes : Bytes) (type : DataType) : Except ClientExn (Option ClrObject) := do
  let wrongSize ← hasWrongSize bytes type
  if wrongSize then throw .argumentOutOfRange else convert bytes type

end DataTypeMapper

namespace ClrObject

/-- The data type of an object. -/
def dataType : Option ClrObject → DataType
  | none => .null
  | some (.int32 _) => .integer
  | some (.double _) => .real
  | some (.char _) => .char
  | some (.bool _) => .bool
  | some (.string _) => .string

/-- The bytes of an object, as wide as its data type. -/
def bytes : Option ClrObject → Bytes
  | none => []
  | some (.int32 value) => int32Bytes value
  | some (.double bits) => leBytes 8 bits.toNat
  | some (.char value) => leBytes 1 value.toNat
  | some (.bool value) => boolBytes value
  | some (.string value) => Utf8.getBytes value

end ClrObject

/-! ## Parsing a table -/

/-- `Column`. -/
structure Column where
  name : String
  type : Option ClrType
  deriving DecidableEq

/-- `Table`. A row is its values; the table of an empty schema has neither
columns nor rows. -/
structure Table where
  columns : List Column
  rows : List (List (Option ClrObject))
  deriving DecidableEq

namespace StdProtocolImpl

/-- Reading that may throw. -/
abbrev TableReader (α : Type) := EStateM ClientExn Bytes α

/-- `if (!TryRead…) throw new DeltabaseException();` -/
def orThrow {α : Type} (d : Decoder α) : TableReader α := fun s =>
  match d s with
  | some (a, rest) => .ok a rest
  | none => .error .deltabase s

/-- `TryReadColumn`, or the exception; that of `ToType` is not caught. -/
def readColumn : TableReader Column := do
  let name ← orThrow tryReadString
  let rawType ← orThrow tryReadUInt64BigEndian
  match DataTypeMapper.toType (.ofNat rawType) with
  | .ok type => pure { name, type }
  | .error e => throw e

/-- `TryReadToken`, which catches the exceptions of `ToObject`. -/
def tryReadToken : Decoder (Option ClrObject) := do
  let rawType ← tryReadUInt64BigEndian
  let bytes ← tryReadBytes
  match DataTypeMapper.toObject bytes (.ofNat rawType) with
  | .ok token => pure token
  | .error _ => Decoder.fail

/-- `TryReadRow`. -/
def tryReadRow : Decoder (List (Option ClrObject)) := do
  let tokensCount ← tryReadUInt64BigEndian
  if tokensCount = 0 then pure [] else tryReadToken.replicate tokensCount

/-- A loop of `ParseTable` that fills an array. -/
def readMany {α : Type} (r : TableReader α) : ℕ → TableReader (List α)
  | 0 => pure []
  | n + 1 => do
    let a ← r
    let as ← readMany r n
    pure (a :: as)

/-- The body of `ParseTable`. -/
def readTable : TableReader Table := do
  let schemaSize ← orThrow tryReadUInt64BigEndian
  if schemaSize = 0 then pure { columns := [], rows := [] }
  else do
    let columns ← readMany readColumn schemaSize
    let rowsCount ← orThrow tryReadUInt64BigEndian
    if rowsCount = 0 then pure { columns, rows := [] }
    else do
      let rows ← readMany (orThrow tryReadRow) rowsCount
      pure { columns, rows }

/-- `ParseTable`. -/
def parseTable (payload : Bytes) : Except ClientExn Table :=
  match readTable payload with
  | .ok table _ => .ok table
  | .error e _ => .error e

/-! ## What the server may send -/

/-- The bytes are UTF-8. -/
def IsUtf8 (bs : Bytes) : Prop := ∃ s, Utf8.getBytes s = bs

/-- The type of a column of a result. -/
def IsColumnType : DataType → Prop
  | .undefined => False
  | .other .. => False
  | _ => True

/-- The token has the width of its type; a string is UTF-8. -/
def HasWidth (token : DataToken) : Prop :=
  match token.type with
  | .null => token.bytes.length = 0
  | .integer => token.bytes.length = 4
  | .real => token.bytes.length = 8
  | .char => token.bytes.length = 1
  | .bool => token.bytes.length = 1
  | .string => IsUtf8 token.bytes
  | _ => False

/-- **A table that the client can read**: it has columns, of types that exist,
names and strings in UTF-8, tokens as wide as their types, and no list is longer
than the client accepts. -/
structure Readable (table : DataTable) : Prop where
  columns_pos : 0 < table.outputSchema.length
  columns_le : table.outputSchema.length ≤ intMaxValue
  column : ∀ c ∈ table.outputSchema,
    IsUtf8 c.1 ∧ c.1.length ≤ intMaxValue ∧ IsColumnType c.2
  rows_le : table.rows.length ≤ intMaxValue
  row : ∀ r ∈ table.rows, r.tokens.length ≤ intMaxValue
  token : ∀ r ∈ table.rows, ∀ t ∈ r.tokens, HasWidth t ∧ t.bytes.length ≤ intMaxValue

/-- The column that the client makes. -/
def received (column : Bytes × DataType) : Column where
  name := Utf8.getString column.1
  type := match DataTypeMapper.toType column.2 with
    | .ok type => type
    | .error _ => none

/-- The object that the client makes of a token. -/
def receivedObject (token : DataToken) : Option ClrObject :=
  match DataTypeMapper.toObject token.bytes token.type with
  | .ok object => object
  | .error _ => none

/-- The bytes of a token that the client keeps: of a `BOOL`, whether its byte
is 0. -/
def keptBytes (token : DataToken) : Bytes :=
  if token.type = .bool ∧ token.bytes ≠ [0] then [1] else token.bytes

/-! ## Conversions -/

/-- A column type is recovered. -/
theorem toType_eq_ok {type : DataType} (h : IsColumnType type) :
    ∃ t, DataTypeMapper.toType type = .ok t ∧ DataTypeMapper.fromType t = type := by
  cases type with
  | undefined => exact h.elim
  | other => exact h.elim
  | null => exact ⟨none, rfl, rfl⟩
  | integer => exact ⟨some .int32, rfl, rfl⟩
  | real => exact ⟨some .double, rfl, rfl⟩
  | char => exact ⟨some .char, rfl, rfl⟩
  | bool => exact ⟨some .bool, rfl, rfl⟩
  | string => exact ⟨some .string, rfl, rfl⟩

theorem leBytes_leNat_of_length {bs : Bytes} {w : ℕ} (h : bs.length = w) :
    leBytes w (leNat bs) = bs := by
  rw [← h, leBytes_leNat]

theorem leNat_lt_of_length {bs : Bytes} {w : ℕ} (h : bs.length = w) : leNat bs < 256 ^ w := by
  have hlt := leNat_lt bs
  rwa [h] at hlt

/-- A byte is 0 when the number it denotes is. -/
theorem leNat_singleton_eq_zero (b : UInt8) : leNat [b] = 0 ↔ b = 0 := by
  show b.toNat + 256 * 0 = 0 ↔ b = 0
  rw [Nat.mul_zero, Nat.add_zero, ← UInt8.toNat_inj]
  rfl

/-- **A token of the right width becomes an object of its type**, with the
bytes that are kept. -/
theorem toObject_eq_ok {token : DataToken} (h : HasWidth token) :
    ∃ object, DataTypeMapper.toObject token.bytes token.type = .ok object
      ∧ ClrObject.dataType object = token.type ∧ ClrObject.bytes object = keptBytes token := by
  obtain ⟨bytes, type⟩ := token
  have hfixed : ∀ size : ℕ, DataTypeMapper.isFixedSize type = .ok true →
      DataTypeMapper.getDataTypeSize type = .ok size → bytes.length = size →
      DataTypeMapper.toObject bytes type = DataTypeMapper.convert bytes type := by
    intro size hfixed hsize hlen
    have hright : DataTypeMapper.hasWrongSize bytes type = .ok false := by
      unfold DataTypeMapper.hasWrongSize
      rw [hfixed]
      show (DataTypeMapper.getDataTypeSize type >>= fun size => pure (size != bytes.length)) = _
      rw [hsize, hlen]
      exact congrArg Except.ok (bne_self_eq_false size)
    unfold DataTypeMapper.toObject
    rw [hright]
    rfl
  cases type with
  | undefined => exact h.elim
  | other => exact h.elim
  | null =>
    refine ⟨none, hfixed 0 rfl rfl h, rfl, ?_⟩
    exact (List.length_eq_zero_iff.mp h).symm
  | integer =>
    refine ⟨some (.int32 (int32OfBytes bytes)), hfixed 4 rfl rfl h, rfl, ?_⟩
    exact int32Bytes_int32OfBytes h
  | real =>
    refine ⟨some (.double (UInt64.ofNat (leNat bytes))), hfixed 8 rfl rfl h, rfl, ?_⟩
    show leBytes 8 (UInt64.ofNat (leNat bytes)).toNat = bytes
    rw [UInt64.toNat_ofNat_of_lt' (leNat_lt_of_length h), leBytes_leNat_of_length h]
  | char =>
    refine ⟨some (.char (UInt16.ofNat (leNat bytes))), hfixed 1 rfl rfl h, rfl, ?_⟩
    have hlt : leNat bytes < 256 := leNat_lt_of_length h
    show leBytes 1 (UInt16.ofNat (leNat bytes)).toNat = bytes
    rw [UInt16.toNat_ofNat_of_lt' (hlt.trans (by decide)), leBytes_leNat_of_length h]
  | bool =>
    refine ⟨some (.bool (leNat bytes != 0)), hfixed 1 rfl rfl h, rfl, ?_⟩
    obtain ⟨b, rfl⟩ := List.length_eq_one_iff.mp h
    show boolBytes (leNat [b] != 0) = keptBytes ⟨[b], .bool⟩
    by_cases hb : b = 0
    · subst hb
      rfl
    · have hne : leNat [b] ≠ 0 := mt (leNat_singleton_eq_zero b).mp hb
      have hbytes : ([b] : Bytes) ≠ [0] := fun heq => hb (List.cons.inj heq).1
      rw [bne_iff_ne.mpr hne, keptBytes, if_pos ⟨rfl, hbytes⟩]
      rfl
  | string =>
    obtain ⟨s, rfl⟩ := h
    refine ⟨some (.string s), ?_, rfl, rfl⟩
    show Except.ok (some (ClrObject.string (Utf8.getString (Utf8.getBytes s)))) = _
    rw [Utf8.getString_getBytes]

/-! ## Reading a table -/

section Readers

variable {α β : Type}

/-- **`r` reads the bytes `bs` as `a`** without an exception, whatever follows
them. -/
def ReadsTo (r : TableReader α) (bs : Bytes) (a : α) : Prop := ∀ t, r (bs ++ t) = .ok a t

theorem readsTo_orThrow {d : Decoder α} {bs : Bytes} {a : α} (h : d.Reads bs a) :
    ReadsTo (orThrow d) bs a := by
  intro t
  rw [orThrow, h t]

theorem ReadsTo.bind {r : TableReader α} {f : α → TableReader β} {bs cs : Bytes} {a : α} {b : β}
    (h₁ : ReadsTo r bs a) (h₂ : ReadsTo (f a) cs b) : ReadsTo (r >>= f) (bs ++ cs) b := by
  intro t
  show EStateM.bind r f (bs ++ cs ++ t) = .ok b t
  rw [EStateM.bind, List.append_assoc, h₁ (cs ++ t)]
  exact h₂ t

theorem ReadsTo.bind_pure {r : TableReader α} {f : α → TableReader β} {bs : Bytes} {a : α} {b : β}
    (h₁ : ReadsTo r bs a) (h₂ : f a = pure b) : ReadsTo (r >>= f) bs b := by
  have h := h₁.bind (show ReadsTo (f a) [] b by rw [h₂]; exact fun _ => rfl)
  rwa [List.append_nil] at h

/-- **A filled array is read from the concatenation of its elements.** -/
theorem readsTo_readMany {γ : Type} {r : TableReader α} {enc : γ → Bytes} {dec : γ → α}
    {as : List γ} (h : ∀ a ∈ as, ReadsTo r (enc a) (dec a)) :
    ReadsTo (readMany r as.length) (as.flatMap enc) (as.map dec) := by
  induction as with
  | nil => exact fun _ => rfl
  | cons a as ih =>
    have htail := ih fun b hb => h b (List.mem_cons_of_mem a hb)
    rw [List.flatMap_cons]
    exact (h a List.mem_cons_self).bind (htail.bind_pure rfl)

/-- And a counted loop of a decoder likewise. -/
theorem reads_replicate_map {γ : Type} {d : Decoder α} {enc : γ → Bytes} {dec : γ → α}
    {as : List γ} (h : ∀ a ∈ as, d.Reads (enc a) (dec a)) :
    (d.replicate as.length).Reads (as.flatMap enc) (as.map dec) := by
  induction as with
  | nil => exact Decoder.reads_pure []
  | cons a as ih =>
    have htail := ih fun b hb => h b (List.mem_cons_of_mem a hb)
    rw [List.flatMap_cons]
    exact (h a List.mem_cons_self).bind (htail.bind_pure rfl)

end Readers

theorem toNat_lt_of_isColumnType {type : DataType} (h : IsColumnType type) :
    type.toNat < 256 ^ 8 := by
  cases type with
  | undefined => exact h.elim
  | other => exact h.elim
  | _ => decide

/-- A column is read as the client's column. -/
theorem readsTo_readColumn {column : Bytes × DataType} (hname : IsUtf8 column.1)
    (hlen : column.1.length ≤ intMaxValue) (htype : IsColumnType column.2) :
    ReadsTo readColumn (QueryResultSerializer.columnBytes column) (received column) := by
  obtain ⟨name, type⟩ := column
  obtain ⟨s, rfl⟩ := hname
  obtain ⟨t, ht, -⟩ := toType_eq_ok htype
  have hreceived : received (Utf8.getBytes s, type) = { name := s, type := t } := by
    unfold received
    simp only [Utf8.getString_getBytes, ht]
  rw [hreceived]
  refine (readsTo_orThrow (reads_tryReadString hlen)).bind ?_
  refine (readsTo_orThrow
    (reads_tryReadUInt64BigEndian (toNat_lt_of_isColumnType htype))).bind_pure ?_
  simp only [DataType.ofNat_toNat, ht]

/-- The types of tokens with a width are those of columns. -/
theorem isColumnType_of_hasWidth {token : DataToken} (h : HasWidth token) :
    IsColumnType token.type := by
  obtain ⟨bytes, type⟩ := token
  cases type with
  | undefined => exact h.elim
  | other => exact h.elim
  | _ => trivial

/-- A token is read as the client's object. -/
theorem reads_tryReadToken {token : DataToken} (h : HasWidth token)
    (hlen : token.bytes.length ≤ intMaxValue) :
    tryReadToken.Reads (QueryResultSerializer.tokenBytes token) (receivedObject token) := by
  obtain ⟨object, hobject, -, -⟩ := toObject_eq_ok h
  have hreceived : receivedObject token = object := by
    rw [receivedObject, hobject]
  rw [hreceived]
  refine (reads_tryReadUInt64BigEndian
    (toNat_lt_of_isColumnType (isColumnType_of_hasWidth h))).bind ?_
  refine (reads_tryReadBytes hlen).bind_pure ?_
  simp only [DataType.ofNat_toNat, hobject]

/-- A row is read token by token. -/
theorem reads_tryReadRow {row : DataRow} (hlen : row.tokens.length ≤ intMaxValue)
    (h : ∀ t ∈ row.tokens, HasWidth t ∧ t.bytes.length ≤ intMaxValue) :
    tryReadRow.Reads (QueryResultSerializer.rowBytes row) (row.tokens.map receivedObject) := by
  refine (reads_tryReadUInt64BigEndian (hlen.trans_lt intMaxValue_lt)).bind ?_
  by_cases hzero : row.tokens.length = 0
  · rw [if_pos hzero, List.length_eq_zero_iff.mp hzero]
    exact Decoder.reads_pure []
  · rw [if_neg hzero]
    exact reads_replicate_map fun t ht => reads_tryReadToken (h t ht).1 (h t ht).2

/-- **A table is read as the client's table.** -/
theorem parseTable_serialize {table : DataTable} (h : Readable table) :
    parseTable (QueryResultSerializer.serialize table)
      = .ok { columns := table.outputSchema.map received
              rows := table.rows.map fun r => r.tokens.map receivedObject } := by
  have hcolumns : ReadsTo (readMany readColumn table.outputSchema.length)
      (table.outputSchema.flatMap QueryResultSerializer.columnBytes)
      (table.outputSchema.map received) :=
    readsTo_readMany fun c hc =>
      readsTo_readColumn (h.column c hc).1 (h.column c hc).2.1 (h.column c hc).2.2
  have hrows : ReadsTo (readMany (orThrow tryReadRow) table.rows.length)
      (table.rows.flatMap QueryResultSerializer.rowBytes)
      (table.rows.map fun r => r.tokens.map receivedObject) :=
    readsTo_readMany fun r hr => readsTo_orThrow (reads_tryReadRow (h.row r hr) (h.token r hr))
  have hread : ReadsTo readTable (QueryResultSerializer.serialize table)
      { columns := table.outputSchema.map received
        rows := table.rows.map fun r => r.tokens.map receivedObject } := by
    rw [QueryResultSerializer.serialize_eq]
    refine (readsTo_orThrow
      (reads_tryReadUInt64BigEndian (h.columns_le.trans_lt intMaxValue_lt))).bind ?_
    rw [if_neg h.columns_pos.ne']
    refine hcolumns.bind ((readsTo_orThrow
      (reads_tryReadUInt64BigEndian (h.rows_le.trans_lt intMaxValue_lt))).bind ?_)
    by_cases hzero : table.rows.length = 0
    · rw [if_pos hzero, List.length_eq_zero_iff.mp hzero]
      exact fun _ => rfl
    · rw [if_neg hzero]
      exact hrows.bind_pure rfl
  have hrun := hread []
  rw [List.append_nil] at hrun
  rw [parseTable, hrun]

/-- **A chunk of a result arrives as it was sent**: the same names and types of
columns, and the same rows of typed values, with the bytes that are kept. -/
theorem parseTable_serialize_kept (table : DataTable) (h : Readable table) :
    ∃ t, parseTable (QueryResultSerializer.serialize table) = .ok t
      ∧ t.columns.map (fun c => (Utf8.getBytes c.name, DataTypeMapper.fromType c.type))
        = table.outputSchema
      ∧ t.rows.map (List.map fun v => (ClrObject.dataType v, ClrObject.bytes v))
        = table.rows.map fun r => r.tokens.map fun t => (t.type, keptBytes t) := by
  refine ⟨_, parseTable_serialize h, ?_, ?_⟩
  · show (table.outputSchema.map received).map _ = table.outputSchema
    rw [List.map_map]
    refine (List.map_congr_left fun c hc => ?_).trans (List.map_id _)
    obtain ⟨⟨s, hs⟩, -, htype⟩ := h.column c hc
    obtain ⟨t, ht, hfrom⟩ := toType_eq_ok htype
    show (Utf8.getBytes (Utf8.getString c.1), DataTypeMapper.fromType (received c).type) = c
    have hreceived : (received c).type = t := by
      unfold received
      rw [ht]
    rw [← hs, Utf8.getString_getBytes, hreceived, hfrom, hs]
  · show (table.rows.map fun r => r.tokens.map receivedObject).map _ = _
    rw [List.map_map]
    refine List.map_congr_left fun r hr => ?_
    show (r.tokens.map receivedObject).map _ = _
    rw [List.map_map]
    refine List.map_congr_left fun t ht => ?_
    obtain ⟨object, hobject, htype, hbytes⟩ := toObject_eq_ok (h.token r hr t ht).1
    have hreceived : receivedObject t = object := by
      rw [receivedObject, hobject]
    show (ClrObject.dataType (receivedObject t), ClrObject.bytes (receivedObject t)) = _
    rw [hreceived, htype, hbytes]

/-- A table of one column and one row of one token. -/
def oneToken (token : DataToken) : DataTable where
  outputSchema := [([97], token.type)]
  rows := [{ tokens := [token] }]

theorem one_le_intMaxValue : 1 ≤ intMaxValue := by decide

theorem readable_oneToken {token : DataToken} (h : HasWidth token)
    (hlen : token.bytes.length ≤ intMaxValue) : Readable (oneToken token) where
  columns_pos := Nat.one_pos
  columns_le := one_le_intMaxValue
  column c hc := by
    obtain rfl : c = ([97], token.type) := List.mem_singleton.mp hc
    have hname : Utf8.getBytes "a" = [97] := by decide
    exact ⟨⟨"a", hname⟩, one_le_intMaxValue, isColumnType_of_hasWidth h⟩
  rows_le := one_le_intMaxValue
  row r hr := by
    obtain rfl : r = { tokens := [token] } := List.mem_singleton.mp hr
    exact one_le_intMaxValue
  token r hr t ht := by
    obtain rfl : r = { tokens := [token] } := List.mem_singleton.mp hr
    obtain rfl : t = token := List.mem_singleton.mp ht
    exact ⟨h, hlen⟩

/-- An integer arrives as it was sent. -/
theorem parseTable_serialize_kept_integer :
    ∃ t, parseTable (QueryResultSerializer.serialize (oneToken ⟨[5, 0, 0, 0], .integer⟩)) = .ok t
      ∧ t.columns.map (fun c => (Utf8.getBytes c.name, DataTypeMapper.fromType c.type))
        = (oneToken ⟨[5, 0, 0, 0], .integer⟩).outputSchema
      ∧ t.rows.map (List.map fun v => (ClrObject.dataType v, ClrObject.bytes v))
        = (oneToken ⟨[5, 0, 0, 0], .integer⟩).rows.map
          fun r => r.tokens.map fun t => (t.type, keptBytes t) :=
  parseTable_serialize_kept _ (readable_oneToken (by decide : [5, 0, 0, 0].length = 4) (by decide))

/-- **Not every byte arrives as it was sent**: a `BOOL` of byte 2 is one of
byte 1 to the client. -/
theorem not_parseTable_serialize_bytes :
    ¬ ∀ table : DataTable, Readable table →
      ∃ t, parseTable (QueryResultSerializer.serialize table) = .ok t
        ∧ t.columns.map (fun c => (Utf8.getBytes c.name, DataTypeMapper.fromType c.type))
          = table.outputSchema
        ∧ t.rows.map (List.map fun v => (ClrObject.dataType v, ClrObject.bytes v))
          = table.rows.map fun r => r.tokens.map fun t => (t.type, t.bytes) := by
  intro h
  have hwidth : HasWidth ⟨[2], .bool⟩ := (by decide : [2].length = 1)
  have hreadable := readable_oneToken hwidth (by decide)
  obtain ⟨t, hparse, -, hrows⟩ := h (oneToken ⟨[2], .bool⟩) hreadable
  have hreceived := parseTable_serialize hreadable
  rw [hparse] at hreceived
  rw [Except.ok.inj hreceived] at hrows
  revert hrows
  decide

end StdProtocolImpl
