import Deltabase.Storage.StdStorageSerializer
import Deltabase.Types.WalLog

/-!
# The log serializer

`wal::StdWalSerializer` writes a record as its type, the three fields every
record has, and then the fields of the alternative, with rows, schemas, tables
and indexes in the format of the storage serializer. A compensation record
carries `undo_next_lsn` before its images.

The decoder reads the fixed-width fields into local variables and only rejects
a read that found nothing at all. A read cut short therefore leaves the upper
bytes of a local as they were; `uninit` stands for what an uninitialised local
holds, and nothing below depends on it.
-/

namespace StdWalSerializer

open ReadOnlyMemoryStream StdStorageSerializer

/-! ## Encoder -/

/-- The type and the three shared fields, with which every `serialize`
overload starts. -/
def serializeHeader (record : WalRecord) : MemoryStream :=
  let stream : MemoryStream := {}
  let stream := stream.write (leBytes 8 record.body.type)
  let stream := stream.write (leBytes 8 record.lsn)
  let stream := stream.write (leBytes 8 record.prevLsn)
  stream.write (uuidBytes record.txnId)

/-- Appending a serialized value, `stream.append(serialized, serialized.size())`. -/
def appendAll (stream serialized : MemoryStream) : MemoryStream :=
  stream.append serialized serialized.size

/-- `serialize`. -/
def serialize (record : WalRecord) : MemoryStream :=
  let stream := serializeHeader record
  match record.body with
  | .insert tableId pageId after =>
    let stream := (stream.write (uuidBytes tableId)).write (uuidBytes pageId)
    appendAll stream (serializeDr after)
  | .update tableId pageId before after =>
    let stream := (stream.write (uuidBytes tableId)).write (uuidBytes pageId)
    appendAll (appendAll stream (serializeDr before)) (serializeDr after)
  | .delete tableId pageId before =>
    let stream := (stream.write (uuidBytes tableId)).write (uuidBytes pageId)
    appendAll stream (serializeDr before)
  | .clrInsert tableId pageId undoNextLsn after =>
    let stream := (stream.write (uuidBytes tableId)).write (uuidBytes pageId)
    let stream := stream.write (leBytes 8 undoNextLsn)
    appendAll stream (serializeDr after)
  | .clrUpdate tableId pageId undoNextLsn before after =>
    let stream := (stream.write (uuidBytes tableId)).write (uuidBytes pageId)
    let stream := stream.write (leBytes 8 undoNextLsn)
    appendAll (appendAll stream (serializeDr before)) (serializeDr after)
  | .clrDelete tableId pageId undoNextLsn before =>
    let stream := (stream.write (uuidBytes tableId)).write (uuidBytes pageId)
    let stream := stream.write (leBytes 8 undoNextLsn)
    appendAll stream (serializeDr before)
  | .clrCreateSchema undoNextLsn schema =>
    appendAll (stream.write (leBytes 8 undoNextLsn)) (serializeMs schema)
  | .clrUpdateSchema undoNextLsn before after =>
    let stream := stream.write (leBytes 8 undoNextLsn)
    appendAll (appendAll stream (serializeMs before)) (serializeMs after)
  | .clrDeleteSchema undoNextLsn before =>
    appendAll (stream.write (leBytes 8 undoNextLsn)) (serializeMs before)
  | .clrCreateTable undoNextLsn after =>
    appendAll (stream.write (leBytes 8 undoNextLsn)) (serializeMt after)
  | .clrUpdateTable undoNextLsn before after =>
    let stream := stream.write (leBytes 8 undoNextLsn)
    appendAll (appendAll stream (serializeMt before)) (serializeMt after)
  | .clrDeleteTable undoNextLsn before =>
    appendAll (stream.write (leBytes 8 undoNextLsn)) (serializeMt before)
  | .createSchema schema => appendAll stream (serializeMs schema)
  | .updateSchema before after =>
    appendAll (appendAll stream (serializeMs before)) (serializeMs after)
  | .deleteSchema before => appendAll stream (serializeMs before)
  | .createTable after => appendAll stream (serializeMt after)
  | .updateTable before after =>
    appendAll (appendAll stream (serializeMt before)) (serializeMt after)
  | .deleteTable before => appendAll stream (serializeMt before)
  | .createIndex after => appendAll stream (serializeMi after)
  | .clrCreateIndex undoNextLsn after =>
    appendAll (stream.write (leBytes 8 undoNextLsn)) (serializeMi after)
  | .dropIndex before => appendAll stream (serializeMi before)
  | .clrDropIndex undoNextLsn before =>
    appendAll (stream.write (leBytes 8 undoNextLsn)) (serializeMi before)
  | .beginTxn => stream
  | .commitTxn => stream
  | .rollbackTxn => stream

/-! ## Decoder -/

section Decoder

variable (uninit : ℕ → UInt8)

/-- `LSN lsn; if (!stream.read(&lsn, sizeof(lsn))) return false;` -/
def readU64Some : Decoder ℕ := do
  let bs ← readSome ((List.range 8).map uninit)
  pure (leNat bs)

/-- `UUID id; if (!stream.read(id.raw(), sizeof(uuid_t))) return false;` -/
def readUuidSome : Decoder UUID := do
  let bs ← readSome (zeros 16)
  pure (uuidOfBytes bs)

/-- What follows the shared fields, by record type. -/
def deserializeBody (type : ℕ) : Decoder WalBody :=
  match type with
  | 10 => pure .beginTxn
  | 11 => pure .commitTxn
  | 12 => pure .rollbackTxn
  | 1 => do
    let tableId ← readUuidSome
    let pageId ← readUuidSome
    let after ← deserializeDr
    pure (.insert tableId pageId after)
  | 2 => do
    let tableId ← readUuidSome
    let pageId ← readUuidSome
    let before ← deserializeDr
    let after ← deserializeDr
    pure (.update tableId pageId before after)
  | 3 => do
    let tableId ← readUuidSome
    let pageId ← readUuidSome
    let before ← deserializeDr
    pure (.delete tableId pageId before)
  | 7 => do
    let schema ← deserializeMs
    pure (.createSchema schema)
  | 8 => do
    let before ← deserializeMs
    let after ← deserializeMs
    pure (.updateSchema before after)
  | 9 => do
    let before ← deserializeMs
    pure (.deleteSchema before)
  | 4 => do
    let table ← deserializeMt
    pure (.createTable table)
  | 5 => do
    let before ← deserializeMt
    let after ← deserializeMt
    pure (.updateTable before after)
  | 6 => do
    let before ← deserializeMt
    pure (.deleteTable before)
  | 22 => do
    let after ← deserializeMi
    pure (.createIndex after)
  | 13 => do
    let tableId ← readUuidSome
    let pageId ← readUuidSome
    let undoNextLsn ← readU64Some uninit
    let after ← deserializeDr
    pure (.clrInsert tableId pageId undoNextLsn after)
  | 14 => do
    let tableId ← readUuidSome
    let pageId ← readUuidSome
    let undoNextLsn ← readU64Some uninit
    let before ← deserializeDr
    let after ← deserializeDr
    pure (.clrUpdate tableId pageId undoNextLsn before after)
  | 15 => do
    let tableId ← readUuidSome
    let pageId ← readUuidSome
    let undoNextLsn ← readU64Some uninit
    let before ← deserializeDr
    pure (.clrDelete tableId pageId undoNextLsn before)
  | 16 => do
    let undoNextLsn ← readU64Some uninit
    let schema ← deserializeMs
    pure (.clrCreateSchema undoNextLsn schema)
  | 17 => do
    let undoNextLsn ← readU64Some uninit
    let before ← deserializeMs
    let after ← deserializeMs
    pure (.clrUpdateSchema undoNextLsn before after)
  | 18 => do
    let undoNextLsn ← readU64Some uninit
    let before ← deserializeMs
    pure (.clrDeleteSchema undoNextLsn before)
  | 19 => do
    let undoNextLsn ← readU64Some uninit
    let after ← deserializeMt
    pure (.clrCreateTable undoNextLsn after)
  | 20 => do
    let undoNextLsn ← readU64Some uninit
    let before ← deserializeMt
    let after ← deserializeMt
    pure (.clrUpdateTable undoNextLsn before after)
  | 21 => do
    let undoNextLsn ← readU64Some uninit
    let before ← deserializeMt
    pure (.clrDeleteTable undoNextLsn before)
  | 23 => do
    let undoNextLsn ← readU64Some uninit
    let after ← deserializeMi
    pure (.clrCreateIndex undoNextLsn after)
  | 24 => do
    let before ← deserializeMi
    pure (.dropIndex before)
  | 25 => do
    let undoNextLsn ← readU64Some uninit
    let before ← deserializeMi
    pure (.clrDropIndex undoNextLsn before)
  | _ => Decoder.fail

/-- `deserialize`. Every case of the source starts by reading the three shared
fields, so they are read once here; a type no case names is rejected, before
or after them. -/
def deserialize : Decoder WalRecord := do
  let type ← readU64Some uninit
  let lsn ← readU64Some uninit
  let prevLsn ← readU64Some uninit
  let txnId ← readUuidSome
  let body ← deserializeBody uninit type
  pure { lsn, prevLsn, txnId, body }

end Decoder

end StdWalSerializer

/-! ## Records the C++ types can hold -/

namespace WalBody

/-- The fields of the alternative fit their C++ types. -/
def Fits : WalBody → Prop
  | insert tableId pageId after => tableId < 256 ^ 16 ∧ pageId < 256 ^ 16 ∧ after.Fits
  | clrInsert tableId pageId undo after =>
    tableId < 256 ^ 16 ∧ pageId < 256 ^ 16 ∧ undo < 256 ^ 8 ∧ after.Fits
  | update tableId pageId before after =>
    tableId < 256 ^ 16 ∧ pageId < 256 ^ 16 ∧ before.Fits ∧ after.Fits
  | clrUpdate tableId pageId undo before after =>
    tableId < 256 ^ 16 ∧ pageId < 256 ^ 16 ∧ undo < 256 ^ 8 ∧ before.Fits ∧ after.Fits
  | delete tableId pageId before => tableId < 256 ^ 16 ∧ pageId < 256 ^ 16 ∧ before.Fits
  | clrDelete tableId pageId undo before =>
    tableId < 256 ^ 16 ∧ pageId < 256 ^ 16 ∧ undo < 256 ^ 8 ∧ before.Fits
  | createSchema schema => schema.Fits
  | clrCreateSchema undo schema => undo < 256 ^ 8 ∧ schema.Fits
  | updateSchema before after => before.Fits ∧ after.Fits
  | clrUpdateSchema undo before after => undo < 256 ^ 8 ∧ before.Fits ∧ after.Fits
  | deleteSchema before => before.Fits
  | clrDeleteSchema undo before => undo < 256 ^ 8 ∧ before.Fits
  | createTable after => after.Fits
  | clrCreateTable undo after => undo < 256 ^ 8 ∧ after.Fits
  | updateTable before after => before.Fits ∧ after.Fits
  | clrUpdateTable undo before after => undo < 256 ^ 8 ∧ before.Fits ∧ after.Fits
  | deleteTable before => before.Fits
  | clrDeleteTable undo before => undo < 256 ^ 8 ∧ before.Fits
  | createIndex after => after.Fits
  | clrCreateIndex undo after => undo < 256 ^ 8 ∧ after.Fits
  | dropIndex before => before.Fits
  | clrDropIndex undo before => undo < 256 ^ 8 ∧ before.Fits
  | beginTxn => True
  | commitTxn => True
  | rollbackTxn => True

instance : DecidablePred Fits := fun b => by
  cases b <;> unfold Fits <;> infer_instance

end WalBody

namespace WalRecord

/-- The record fits its C++ type: LSNs are 64-bit and ids are UUIDs, lengths
are 64-bit, and a `NULL` token has no bytes. -/
def Fits (r : WalRecord) : Prop :=
  r.lsn < 256 ^ 8 ∧ r.prevLsn < 256 ^ 8 ∧ r.txnId < 256 ^ 16 ∧ r.body.Fits

instance : DecidablePred Fits := fun r => by unfold Fits; infer_instance

end WalRecord

namespace StdWalSerializer

open ReadOnlyMemoryStream StdStorageSerializer

/-! ## The round trip -/

/-- The bytes of an alternative, after the shared fields. -/
def bodyBytes : WalBody → Bytes
  | .insert tableId pageId after =>
    uuidBytes tableId ++ (uuidBytes pageId ++ (serializeDr after).buffer)
  | .clrInsert tableId pageId undo after =>
    uuidBytes tableId ++ (uuidBytes pageId ++ (leBytes 8 undo ++ (serializeDr after).buffer))
  | .update tableId pageId before after =>
    uuidBytes tableId ++ (uuidBytes pageId
      ++ ((serializeDr before).buffer ++ (serializeDr after).buffer))
  | .clrUpdate tableId pageId undo before after =>
    uuidBytes tableId ++ (uuidBytes pageId ++ (leBytes 8 undo
      ++ ((serializeDr before).buffer ++ (serializeDr after).buffer)))
  | .delete tableId pageId before =>
    uuidBytes tableId ++ (uuidBytes pageId ++ (serializeDr before).buffer)
  | .clrDelete tableId pageId undo before =>
    uuidBytes tableId ++ (uuidBytes pageId ++ (leBytes 8 undo ++ (serializeDr before).buffer))
  | .createSchema schema => (serializeMs schema).buffer
  | .clrCreateSchema undo schema => leBytes 8 undo ++ (serializeMs schema).buffer
  | .updateSchema before after => (serializeMs before).buffer ++ (serializeMs after).buffer
  | .clrUpdateSchema undo before after =>
    leBytes 8 undo ++ ((serializeMs before).buffer ++ (serializeMs after).buffer)
  | .deleteSchema before => (serializeMs before).buffer
  | .clrDeleteSchema undo before => leBytes 8 undo ++ (serializeMs before).buffer
  | .createTable after => (serializeMt after).buffer
  | .clrCreateTable undo after => leBytes 8 undo ++ (serializeMt after).buffer
  | .updateTable before after => (serializeMt before).buffer ++ (serializeMt after).buffer
  | .clrUpdateTable undo before after =>
    leBytes 8 undo ++ ((serializeMt before).buffer ++ (serializeMt after).buffer)
  | .deleteTable before => (serializeMt before).buffer
  | .clrDeleteTable undo before => leBytes 8 undo ++ (serializeMt before).buffer
  | .createIndex after => (serializeMi after).buffer
  | .clrCreateIndex undo after => leBytes 8 undo ++ (serializeMi after).buffer
  | .dropIndex before => (serializeMi before).buffer
  | .clrDropIndex undo before => leBytes 8 undo ++ (serializeMi before).buffer
  | .beginTxn => []
  | .commitTxn => []
  | .rollbackTxn => []

theorem serializeHeader_eq (r : WalRecord) :
    serializeHeader r = MemoryStream.atEnd
      (leBytes 8 r.body.type ++ (leBytes 8 r.lsn ++ (leBytes 8 r.prevLsn
        ++ uuidBytes r.txnId))) := by
  simp [serializeHeader, MemoryStream.empty_eq_atEnd]

@[simp] theorem appendAll_atEnd (bs : Bytes) (s : MemoryStream) :
    appendAll (MemoryStream.atEnd bs) s = MemoryStream.atEnd (bs ++ s.buffer) :=
  MemoryStream.append_atEnd bs s

/-- The bytes of a record are those of its shared fields and its alternative. -/
theorem buffer_serialize (r : WalRecord) :
    (serialize r).buffer
      = leBytes 8 r.body.type ++ (leBytes 8 r.lsn ++ (leBytes 8 r.prevLsn
        ++ (uuidBytes r.txnId ++ bodyBytes r.body))) := by
  obtain ⟨lsn, prevLsn, txnId, body⟩ := r
  cases body <;> simp [serialize, serializeHeader_eq, bodyBytes]

theorem type_lt (b : WalBody) : b.type < 256 ^ 8 := by
  cases b <;> norm_num [WalBody.type]

section RoundTrip

variable (uninit : ℕ → UInt8)

/-- Eight bytes are read as the number they denote. -/
theorem reads_readU64Some_bytes {bs : Bytes} (h : bs.length = 8) :
    (readU64Some uninit).Reads bs (leNat bs) :=
  (reads_readSome (by simp [h]) (by simp)).bind_pure rfl

theorem reads_readU64Some {n : ℕ} (h : n < 256 ^ 8) :
    (readU64Some uninit).Reads (leBytes 8 n) n := by
  have hread := reads_readU64Some_bytes uninit (length_leBytes 8 n)
  rwa [leNat_leBytes h] at hread

theorem reads_readUuidSome {id : UUID} (h : id < 256 ^ 16) :
    readUuidSome.Reads (uuidBytes id) id :=
  (reads_readSome (by simp) (by simp)).bind_pure (congrArg pure (uuidOfBytes_uuidBytes h))

/-- **Every alternative is read back by the case of its own type**, one case
per alternative. -/
theorem reads_deserializeBody {b : WalBody} (h : b.Fits) :
    (deserializeBody uninit b.type).Reads (bodyBytes b) b := by
  cases b with
  | insert tableId pageId after =>
    refine (reads_readUuidSome h.1).bind ((reads_readUuidSome h.2.1).bind ?_)
    exact (reads_deserializeDr h.2.2).bind_pure rfl
  | clrInsert tableId pageId undo after =>
    refine (reads_readUuidSome h.1).bind ((reads_readUuidSome h.2.1).bind ?_)
    refine (reads_readU64Some uninit h.2.2.1).bind ?_
    exact (reads_deserializeDr h.2.2.2).bind_pure rfl
  | update tableId pageId before after =>
    refine (reads_readUuidSome h.1).bind ((reads_readUuidSome h.2.1).bind ?_)
    refine (reads_deserializeDr h.2.2.1).bind ?_
    exact (reads_deserializeDr h.2.2.2).bind_pure rfl
  | clrUpdate tableId pageId undo before after =>
    refine (reads_readUuidSome h.1).bind ((reads_readUuidSome h.2.1).bind ?_)
    refine (reads_readU64Some uninit h.2.2.1).bind ?_
    refine (reads_deserializeDr h.2.2.2.1).bind ?_
    exact (reads_deserializeDr h.2.2.2.2).bind_pure rfl
  | delete tableId pageId before =>
    refine (reads_readUuidSome h.1).bind ((reads_readUuidSome h.2.1).bind ?_)
    exact (reads_deserializeDr h.2.2).bind_pure rfl
  | clrDelete tableId pageId undo before =>
    refine (reads_readUuidSome h.1).bind ((reads_readUuidSome h.2.1).bind ?_)
    refine (reads_readU64Some uninit h.2.2.1).bind ?_
    exact (reads_deserializeDr h.2.2.2).bind_pure rfl
  | createSchema schema => exact (reads_deserializeMs h).bind_pure rfl
  | clrCreateSchema undo schema =>
    exact (reads_readU64Some uninit h.1).bind ((reads_deserializeMs h.2).bind_pure rfl)
  | updateSchema before after =>
    exact (reads_deserializeMs h.1).bind ((reads_deserializeMs h.2).bind_pure rfl)
  | clrUpdateSchema undo before after =>
    refine (reads_readU64Some uninit h.1).bind ?_
    exact (reads_deserializeMs h.2.1).bind ((reads_deserializeMs h.2.2).bind_pure rfl)
  | deleteSchema before => exact (reads_deserializeMs h).bind_pure rfl
  | clrDeleteSchema undo before =>
    exact (reads_readU64Some uninit h.1).bind ((reads_deserializeMs h.2).bind_pure rfl)
  | createTable after => exact (reads_deserializeMt h).bind_pure rfl
  | clrCreateTable undo after =>
    exact (reads_readU64Some uninit h.1).bind ((reads_deserializeMt h.2).bind_pure rfl)
  | updateTable before after =>
    exact (reads_deserializeMt h.1).bind ((reads_deserializeMt h.2).bind_pure rfl)
  | clrUpdateTable undo before after =>
    refine (reads_readU64Some uninit h.1).bind ?_
    exact (reads_deserializeMt h.2.1).bind ((reads_deserializeMt h.2.2).bind_pure rfl)
  | deleteTable before => exact (reads_deserializeMt h).bind_pure rfl
  | clrDeleteTable undo before =>
    exact (reads_readU64Some uninit h.1).bind ((reads_deserializeMt h.2).bind_pure rfl)
  | createIndex after => exact (reads_deserializeMi h).bind_pure rfl
  | clrCreateIndex undo after =>
    exact (reads_readU64Some uninit h.1).bind ((reads_deserializeMi h.2).bind_pure rfl)
  | dropIndex before => exact (reads_deserializeMi h).bind_pure rfl
  | clrDropIndex undo before =>
    exact (reads_readU64Some uninit h.1).bind ((reads_deserializeMi h.2).bind_pure rfl)
  | beginTxn => exact Decoder.reads_pure _
  | commitTxn => exact Decoder.reads_pure _
  | rollbackTxn => exact Decoder.reads_pure _

/-- A record is read back. -/
theorem reads_deserialize {r : WalRecord} (h : r.Fits) :
    (deserialize uninit).Reads (serialize r).buffer r := by
  obtain ⟨hlsn, hprev, htxn, hbody⟩ := h
  rw [buffer_serialize]
  refine (reads_readU64Some uninit (type_lt r.body)).bind ?_
  refine (reads_readU64Some uninit hlsn).bind ((reads_readU64Some uninit hprev).bind ?_)
  refine (reads_readUuidSome htxn).bind ?_
  exact (reads_deserializeBody uninit hbody).bind_pure rfl

/-- **The log format is self-delimiting and loses nothing**: whatever the
uninitialised locals hold and whatever follows, decoding the bytes of a record
returns the record and stops at the first byte after them. -/
theorem deserialize_serialize (r : WalRecord) (h : r.Fits) (t : Bytes) :
    deserialize uninit ((serialize r).buffer ++ t) = some (r, t) :=
  reads_deserialize uninit h t

end RoundTrip

/-- The round trip of a compensation record with a `NULL` in its row. -/
theorem deserialize_serialize_clrDelete :
    let r : WalRecord :=
      { lsn := 7, prevLsn := 3, txnId := 12
        body := .clrDelete 5 9 2 { id := 4, flags := 1, tokens := [⟨[], .null⟩] } }
    deserialize (fun _ => 0xCD) ((serialize r).buffer ++ [1, 2]) = some (r, [1, 2]) :=
  deserialize_serialize _ _ (by decide) _

end StdWalSerializer
