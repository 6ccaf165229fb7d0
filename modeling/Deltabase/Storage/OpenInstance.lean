import Deltabase.Recovery.RecoveryManager
import Deltabase.Storage.StdDbInstance

/-!
# Opening an instance

`StdDbInstance::init`: the log is recovered, the catalog read from the meta
files and the pages and index files of each table listed. The file system lists
a directory in no particular order, and `recover` goes through the unfinished
transactions in no particular order; both are arguments.
-/

namespace FileIOManager

/-- **What the file system lists** in the data and index directories of the
tables. -/
structure DirectoryListing (disk : Disk) where
  pages : Bytes × Bytes → List DataPageId
  files : Bytes × Bytes → List IndexId
  mem_pages : ∀ path id, id ∈ pages path ↔ ∃ page, disk.pages id = some page ∧ page.path = path
  nodup_pages : ∀ path, (pages path).Nodup
  mem_files : ∀ path id, id ∈ files path ↔ ∃ file, disk.indexFiles id = some (path, file)
  nodup_files : ∀ path, (files path).Nodup

/-- The loops of `map_data_pages_for_table` and `map_index_files_for_table`. A
directory is made with the first file in it; a table without one has no
entry. -/
def mapFilesForTable (disk : Disk) (entries : Bytes × Bytes → List UUID) :
    TableId → Option (List UUID) :=
  disk.tables.foldl
    (fun ids file =>
      if entries file.path = [] then ids
      else Function.update ids file.table.id (some (entries file.path)))
    fun _ => none

/-- Listing by going through all ids below a bound. -/
def DirectoryListing.upTo (disk : Disk) (bound : ℕ)
    (hpages : ∀ id page, disk.pages id = some page → id < bound)
    (hfiles : ∀ id file, disk.indexFiles id = some file → id < bound) : DirectoryListing disk where
  pages path := (List.range bound).filter fun id => (disk.pages id).any fun page => page.path = path
  files path := (List.range bound).filter fun id => (disk.indexFiles id).any fun f => f.1 = path
  mem_pages path id := by
    rw [List.mem_filter, List.mem_range, Option.any_eq_true]
    simp only [decide_eq_true_eq]
    exact ⟨fun h => h.2, fun ⟨page, hpage, hpath⟩ => ⟨hpages id page hpage, page, hpage, hpath⟩⟩
  nodup_pages _ := List.nodup_range.filter _
  mem_files path id := by
    rw [List.mem_filter, List.mem_range, Option.any_eq_true]
    simp only [decide_eq_true_eq]
    constructor
    · rintro ⟨-, ⟨path', file⟩, hfile, rfl⟩
      exact ⟨file, hfile⟩
    · rintro ⟨file, hfile⟩
      exact ⟨hfiles id _ hfile, _, hfile, rfl⟩
  nodup_files _ := List.nodup_range.filter _

end FileIOManager

namespace StdDbInstance

open FileIOManager RecoveryManager

/-- `hydrate` and `initialize`, on the files and the log that `recover` left. -/
def init (generator : UUIDGenerator) (clock : ℕ) (disk : Disk) (wal : AppendOnlyLog)
    (listing : DirectoryListing disk) : StdDbInstance where
  io := disk
  wal := wal
  pool :=
    { dataPagesPerTable := mapFilesForTable disk listing.pages
      indexFilesPerTable := mapFilesForTable disk listing.files }
  catalog := .hydrate disk
  clock := clock
  generator := generator

/-- **Opening a database**: the constructor ends, at some later time, in a state
of the new instance, whose ids are again made by the library. -/
inductive Opens (disk : Disk) (wal : AppendOnlyLog) (clock : ℕ) : StdDbInstance → Prop
  | intro {visit : List (TxnId × ℕ) → List (TxnId × ℕ)} {disk' : Disk} {wal' : AppendOnlyLog}
      {clock' : ℕ} (hvisit : ∀ active, (visit active).Perm active)
      (hrecover : recover 0 visit disk wal = .ok (disk', wal')) (hclock : clock ≤ clock')
      (listing : DirectoryListing disk') (generator : UUIDGenerator) :
      Opens disk wal clock (init generator clock' disk' wal' listing)

/-- What a later instance finds of the log. -/
def keptLog (db : StdDbInstance) : AppendOnlyLog :=
  { db.wal with kept := db.wal.kept.take db.wal.durable }

end StdDbInstance
