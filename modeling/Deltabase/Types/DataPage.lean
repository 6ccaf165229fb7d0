import Deltabase.Types.DataToken

/-!
# Identifiers, rows and pages

The values the storage layer moves around. Identifiers and counters are the
`uint64_t` (`LSN`, `RowId`) and `uuid_t` of the source, taken as natural
numbers: an identifier is only compared for equality, and the serializers state
where a width matters. A table's rows live in pages; a row version that an update or a
delete has superseded stays in its page with the `OBSOLETE` flag set.
-/

/-- `types::UUID`, sixteen bytes compared for equality. -/
abbrev UUID := ℕ

/-- `UUID::null`. -/
def UUID.null : UUID := 0

/-- `types::DataPageId`. -/
abbrev DataPageId := UUID

/-- `types::TableId`. -/
abbrev TableId := UUID

/-- `types::ColumnId`. -/
abbrev ColumnId := UUID

/-- `types::IndexId`. -/
abbrev IndexId := UUID

/-- **What a C++ call can end in besides returning**: an exception, with its
`what()`, or a fault the source does not guard against. -/
inductive Exn where
  /-- `std::runtime_error`. -/
  | runtimeError (what : String)
  /-- `UniqueConstraintViolation`, whose text ends in the constraint's name. -/
  | uniqueConstraintViolation (constraint : Bytes)
  /-- `std::bad_variant_access`. -/
  | badVariantAccess
  /-- Use of a null pointer. -/
  | nullDereference
  /-- Use of a reference to memory that has been given back. -/
  | danglingReference
  /-- Use of a vector position past the end. -/
  | outOfRange
  /-- A loop that goes round for ever. -/
  | divergence
  /-- `std::invalid_argument`, whose text ends in a value. -/
  | invalidArgument (what : String) (value : Bytes)
  deriving DecidableEq

/-! ## Row flags -/

/-- `DataRowFlags::OBSOLETE`. -/
def obsoleteFlag : ℕ := 1

/-- `has_flag`. -/
def hasFlag (value flag : ℕ) : Bool := (value &&& flag) != 0

/-- `flags |= DataRowFlags::OBSOLETE`. -/
def setObsolete (flags : ℕ) : ℕ := flags ||| obsoleteFlag

/-- `flags &= ~DataRowFlags::OBSOLETE`, on the 32 bits of the enumeration. -/
def clearObsolete (flags : ℕ) : ℕ := flags &&& (2 ^ 32 - 1 - obsoleteFlag)

/-- The flag is the lowest bit. -/
theorem hasFlag_obsolete (flags : ℕ) : hasFlag flags obsoleteFlag = decide (flags % 2 = 1) := by
  unfold hasFlag obsoleteFlag
  rw [Nat.and_one_is_mod]
  rcases Nat.mod_two_eq_zero_or_one flags with h | h <;> rw [h] <;> rfl

@[simp] theorem hasFlag_setObsolete (flags : ℕ) :
    hasFlag (setObsolete flags) obsoleteFlag = true := by
  rw [hasFlag_obsolete, setObsolete, obsoleteFlag, decide_eq_true_eq]
  have hbit : (flags ||| 1).testBit 0 = true := by simp
  rwa [Nat.testBit_zero, decide_eq_true_eq] at hbit

@[simp] theorem hasFlag_clearObsolete (flags : ℕ) :
    hasFlag (clearObsolete flags) obsoleteFlag = false := by
  rw [hasFlag_obsolete, clearObsolete, obsoleteFlag, decide_eq_false_iff_not]
  have hbit : (flags &&& (2 ^ 32 - 1 - 1)).testBit 0 = false := by
    rw [Nat.testBit_and]
    simp
  rwa [Nat.testBit_zero, decide_eq_false_iff_not] at hbit

/-- Setting the flag twice is setting it once. -/
@[simp] theorem setObsolete_setObsolete (flags : ℕ) :
    setObsolete (setObsolete flags) = setObsolete flags := by
  unfold setObsolete
  rw [Nat.or_assoc, Nat.or_self]

/-! ## Rows and pages -/

/-- `types::DataRow`. -/
structure DataRow where
  id : ℕ := 0
  flags : ℕ := 0
  tokens : List DataToken := []
  deriving DecidableEq

namespace DataRow

/-- `has_flag(row.flags, DataRowFlags::OBSOLETE)`. -/
def obsolete (row : DataRow) : Bool := hasFlag row.flags obsoleteFlag

/-- `row.flags |= DataRowFlags::OBSOLETE`. -/
def markObsolete (row : DataRow) : DataRow := { row with flags := setObsolete row.flags }

/-- `row.flags &= ~DataRowFlags::OBSOLETE`. -/
def clearMark (row : DataRow) : DataRow := { row with flags := clearObsolete row.flags }

@[simp] theorem markObsolete_id (row : DataRow) : row.markObsolete.id = row.id := rfl

@[simp] theorem markObsolete_tokens (row : DataRow) :
    row.markObsolete.tokens = row.tokens := rfl

@[simp] theorem obsolete_markObsolete (row : DataRow) : row.markObsolete.obsolete = true :=
  hasFlag_setObsolete row.flags

@[simp] theorem markObsolete_markObsolete (row : DataRow) :
    row.markObsolete.markObsolete = row.markObsolete := by
  unfold markObsolete
  rw [setObsolete_setObsolete]

end DataRow

/-- `types::DataPage`. The file a page is stored in is named by the page id
below the data directory of its table, which `path` gives as the names of the
schema and the table. -/
structure DataPage where
  id : DataPageId
  next : DataPageId := UUID.null
  tableId : TableId
  minRid : ℕ := 0
  maxRid : ℕ := 0
  rowsCount : ℕ := 0
  lastLsn : ℕ := 0
  size : ℕ
  path : Bytes × Bytes
  rows : List DataRow := []
  deriving DecidableEq

namespace DataPage

/-- `DataPage::MAX_SIZE`. -/
def maxSize : ℕ := 32 * 1024

/-- `DataPage::HEADER_SIZE`: three `uuid_t`, two row ids, the row count and
the LSN. -/
def headerSize : ℕ := 16 * 3 + 8 * 2 + 8 + 8

/-- `DataPage::make`. -/
def make (path : Bytes × Bytes) (tableId : TableId) (pageId : DataPageId) : DataPage :=
  { id := pageId, tableId := tableId, size := headerSize, path := path }

end DataPage
