import Deltabase.Storage.FileIOManager

/-!
# The bytes of an index file

The part of `storage::StdStorageSerializer` that writes and reads index files.
A page is written by the alternative of its `data` and read by its `isLeaf`, so
what is read back is what was written only when the two agree.

An index file has five fields and four of them are written. The last page id it
has handed out is not, and a file that is read back has handed out none.
-/

namespace IndexNode

/-- The alternative is `LeafIndexNode`. -/
def holdsLeaf : IndexNode → Bool
  | leaf _ => true
  | internal _ => false

/-- The node fits its C++ type. -/
def Fits : IndexNode → Prop
  | leaf node => node.keys.length < 256 ^ 8 ∧ (∀ k ∈ node.keys, k.Fits)
      ∧ node.rows.length < 256 ^ 8 ∧ (∀ r ∈ node.rows, r.1 < 256 ^ 16 ∧ r.2 < 256 ^ 8)
      ∧ node.nextLeaf < 256 ^ 8
  | internal node => node.keys.length < 256 ^ 8 ∧ (∀ k ∈ node.keys, k.Fits)
      ∧ node.children.length < 256 ^ 8 ∧ ∀ c ∈ node.children, c < 256 ^ 8

instance : DecidablePred Fits := fun node => by cases node <;> unfold Fits <;> infer_instance

end IndexNode

namespace IndexPage

/-- The page fits its C++ type. -/
def Fits (p : IndexPage) : Prop :=
  p.id < 256 ^ 8 ∧ p.parent < 256 ^ 8 ∧ p.indexId < 256 ^ 16 ∧ p.data.Fits

instance : DecidablePred Fits := fun p => by unfold Fits; infer_instance

/-- The page says twice the same. -/
def Consistent (p : IndexPage) : Prop := p.isLeaf = p.data.holdsLeaf

instance : DecidablePred Consistent := fun p => by unfold Consistent; infer_instance

end IndexPage

namespace IndexFile

/-- The file fits its C++ type. -/
def Fits (file : IndexFile) : Prop :=
  file.indexId < 256 ^ 16 ∧ file.rootPage < 256 ^ 8 ∧ file.lastLsn < 256 ^ 8
    ∧ file.pages.length < 256 ^ 8 ∧ ∀ p ∈ file.pages, p.Fits

instance : DecidablePred Fits := fun file => by unfold Fits; infer_instance

end IndexFile

namespace StdStorageSerializer

open ReadOnlyMemoryStream

/-! ## Encoders -/

/-- The loop of `serialize_ip` that writes the keys, with their number. -/
def writeKeys (stream : MemoryStream) (keys : List DataToken) : MemoryStream :=
  let stream := stream.write (leBytes 8 keys.length)
  keys.foldl (fun s k => s.append (serializeDt k) (serializeDt k).size) stream

/-- The two branches of `serialize_ip`. -/
def writeNode (stream : MemoryStream) : IndexNode → MemoryStream
  | .internal node =>
    let stream := writeKeys stream node.keys
    let stream := stream.write (leBytes 8 node.children.length)
    node.children.foldl (fun s c => s.write (leBytes 8 c)) stream
  | .leaf node =>
    let stream := writeKeys stream node.keys
    let stream := stream.write (leBytes 8 node.rows.length)
    let stream := node.rows.foldl
      (fun s r => (s.write (uuidBytes r.1)).write (leBytes 8 r.2)) stream
    stream.write (leBytes 8 node.nextLeaf)

/-- `serialize_ip`. -/
def serializeIp (page : IndexPage) : MemoryStream :=
  let stream : MemoryStream := {}
  let stream := stream.write (leBytes 8 page.id)
  let stream := stream.write (leBytes 8 page.parent)
  let stream := stream.write (uuidBytes page.indexId)
  let stream := stream.write (boolBytes page.isLeaf)
  (writeNode stream page.data).seek 0

/-- `serialize_if`. -/
def serializeIf (file : IndexFile) : MemoryStream :=
  let stream : MemoryStream := {}
  let stream := stream.write (uuidBytes file.indexId)
  let stream := stream.write (leBytes 8 file.rootPage)
  let stream := stream.write (leBytes 8 file.lastLsn)
  let stream := stream.write (leBytes 8 file.pages.length)
  let stream := file.pages.foldl (fun s p => s.append (serializeIp p) (serializeIp p).size) stream
  stream.seek 0

/-! ## Decoders -/

/-- The body of the loop that reads the rows of a leaf. -/
def readRowPtr : Decoder RowPtr := do
  let pageId ← readUuid
  let rowId ← readU64
  pure (pageId, rowId)

/-- `deserialize_ip`. -/
def deserializeIp : Decoder IndexPage := do
  let id ← readU64
  let parent ← readU64
  let indexId ← readUuid
  let isLeaf ← readBool
  if isLeaf then do
    let keysCount ← readU64
    let keys ← deserializeDt.replicate keysCount
    let rowsCount ← readU64
    let rows ← readRowPtr.replicate rowsCount
    let nextLeaf ← readU64
    pure { id, parent, indexId, isLeaf, data := .leaf { keys, rows, nextLeaf } }
  else do
    let keysCount ← readU64
    let keys ← deserializeDt.replicate keysCount
    let childrenCount ← readU64
    let children ← readU64.replicate childrenCount
    pure { id, parent, indexId, isLeaf, data := .internal { keys, children } }

/-- `deserialize_if`, into a new file. -/
def deserializeIf : Decoder IndexFile := do
  let indexId ← readUuid
  let rootPage ← readU64
  let lastLsn ← readU64
  let pagesCount ← readU64
  let pages ← deserializeIp.replicate pagesCount
  pure { indexId, rootPage, lastLsn, pages }

/-! ## The bytes -/

/-- The bytes of what a page holds. -/
def nodeBytes : IndexNode → Bytes
  | .leaf node => leBytes 8 node.keys.length
      ++ (node.keys.flatMap (fun k => (serializeDt k).buffer) ++ (leBytes 8 node.rows.length
        ++ (node.rows.flatMap (fun r => uuidBytes r.1 ++ leBytes 8 r.2)
          ++ leBytes 8 node.nextLeaf)))
  | .internal node => leBytes 8 node.keys.length
      ++ (node.keys.flatMap (fun k => (serializeDt k).buffer) ++ (leBytes 8 node.children.length
        ++ node.children.flatMap (leBytes 8)))

/-- The loop that writes the rows of a leaf. -/
theorem foldl_rowPtr_atEnd (rows : List RowPtr) (bs : Bytes) :
    rows.foldl (fun s r => (s.write (uuidBytes r.1)).write (leBytes 8 r.2)) (MemoryStream.atEnd bs)
      = MemoryStream.atEnd (bs ++ rows.flatMap fun r => uuidBytes r.1 ++ leBytes 8 r.2) := by
  induction rows generalizing bs with
  | nil => rw [List.foldl_nil, List.flatMap_nil, List.append_nil]
  | cons r rows ih =>
    rw [List.foldl_cons, MemoryStream.write_atEnd, MemoryStream.write_atEnd, ih, List.flatMap_cons,
      List.append_assoc, List.append_assoc, List.append_assoc]

theorem buffer_serializeIp (p : IndexPage) :
    (serializeIp p).buffer = leBytes 8 p.id ++ (leBytes 8 p.parent ++ (uuidBytes p.indexId
      ++ (boolBytes p.isLeaf ++ nodeBytes p.data))) := by
  obtain ⟨id, parent, indexId, isLeaf, data⟩ := p
  cases data with
  | internal node =>
    simp [serializeIp, writeNode, writeKeys, MemoryStream.empty_eq_atEnd, nodeBytes]
  | leaf node =>
    simp [serializeIp, writeNode, writeKeys, MemoryStream.empty_eq_atEnd, nodeBytes,
      foldl_rowPtr_atEnd]

theorem buffer_serializeIf (file : IndexFile) :
    (serializeIf file).buffer = uuidBytes file.indexId ++ (leBytes 8 file.rootPage
      ++ (leBytes 8 file.lastLsn ++ (leBytes 8 file.pages.length
        ++ file.pages.flatMap fun p => (serializeIp p).buffer))) := by
  simp [serializeIf, MemoryStream.empty_eq_atEnd]

/-! ## Reading back -/

theorem reads_readRowPtr {r : RowPtr} (h : r.1 < 256 ^ 16 ∧ r.2 < 256 ^ 8) :
    readRowPtr.Reads (uuidBytes r.1 ++ leBytes 8 r.2) r :=
  (reads_readUuid h.1).bind ((reads_readU64 h.2).bind_pure rfl)

/-- **A page is read back** when it says twice the same. -/
theorem reads_deserializeIp {p : IndexPage} (h : p.Fits) (hcons : p.Consistent) :
    deserializeIp.Reads (serializeIp p).buffer p := by
  obtain ⟨id, parent, indexId, isLeaf, data⟩ := p
  obtain ⟨hid, hparent, hindex, hdata⟩ := h
  rw [buffer_serializeIp]
  refine (reads_readU64 hid).bind ((reads_readU64 hparent).bind ?_)
  refine (reads_readUuid hindex).bind ((reads_readBool isLeaf).bind ?_)
  cases data with
  | leaf node =>
    obtain ⟨hkeys, hkey, hrows, hrow, hnext⟩ := hdata
    obtain rfl : isLeaf = true := hcons
    refine (reads_readU64 hkeys).bind ?_
    refine (Decoder.Reads.replicate fun k hk => reads_deserializeDt (hkey k hk)).bind ?_
    refine (reads_readU64 hrows).bind ?_
    refine (Decoder.Reads.replicate fun r hr => reads_readRowPtr (hrow r hr)).bind ?_
    exact (reads_readU64 hnext).bind_pure rfl
  | internal node =>
    obtain ⟨hkeys, hkey, hchildren, hchild⟩ := hdata
    obtain rfl : isLeaf = false := hcons
    refine (reads_readU64 hkeys).bind ?_
    refine (Decoder.Reads.replicate fun k hk => reads_deserializeDt (hkey k hk)).bind ?_
    refine (reads_readU64 hchildren).bind ?_
    exact (Decoder.Reads.replicate fun c hc => reads_readU64 (hchild c hc)).bind_pure rfl

/-- **An index file is read back without its last page id.** -/
theorem reads_deserializeIf {file : IndexFile} (h : file.Fits)
    (hcons : ∀ p ∈ file.pages, p.Consistent) :
    deserializeIf.Reads (serializeIf file).buffer file.reread := by
  obtain ⟨hindex, hroot, hlsn, hcount, hpages⟩ := h
  rw [buffer_serializeIf]
  refine (reads_readUuid hindex).bind ((reads_readU64 hroot).bind ?_)
  refine (reads_readU64 hlsn).bind ((reads_readU64 hcount).bind ?_)
  refine (Decoder.Reads.replicate fun p hp => ?_).bind_pure rfl
  exact reads_deserializeIp (hpages p hp) (hcons p hp)

end StdStorageSerializer
