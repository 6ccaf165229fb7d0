import Deltabase.Lib.WriteBack
import Deltabase.Storage.StorageRoundTrip

/-!
# The page files of a disk

The page files as they are on disk: bytes, in a file named after the page, below
the data directory of a table. A page that has been read carries the path it was
read from, and that is where it is written. `read_data_page` goes through the
directories of all tables and takes the first file of the name.

A page survives that but for its size and the number of its rows, which are made
anew when it is read. `Home id p` says when: `p` is the page of that id, and no
other table's directory has a file of its name that comes first. So the page
files are a store that a cache may be put in front of (`PageDisk.pages`).
-/

/-- A page in memory. Its `path` is that of its file: the directory `page.path`,
and the file's name, which is that of the page it was made or read for. -/
structure LoadedPage where
  page : DataPage
  fileName : DataPageId

namespace LoadedPage

/-- **What a file keeps of a page.** The size and the number of rows are made
anew when the page is read. -/
def core (p : LoadedPage) : LoadedPage :=
  { p with page := { p.page with size := 0, rowsCount := 0 } }

variable {p q : LoadedPage}

theorem id_eq_of_core (h : p.core = q.core) : p.page.id = q.page.id :=
  congrArg (fun r => r.page.id) h

theorem path_eq_of_core (h : p.core = q.core) : p.page.path = q.page.path :=
  congrArg (fun r => r.page.path) h

theorem fileName_eq_of_core (h : p.core = q.core) : p.fileName = q.fileName :=
  congrArg (fun r => r.fileName) h

end LoadedPage

/-- **A disk with the bytes of its page files**, by the table's directory and
the file's name. The rest of it is `rest`, whose own page files are not used. -/
structure PageDisk where
  rest : Disk := {}
  files : Bytes × Bytes → DataPageId → Option Bytes := fun _ _ => none

namespace PageDisk

open StdStorageSerializer

variable (disk : PageDisk)

/-- The directories that `for_each_table` goes through. -/
def dirs : List (Bytes × Bytes) := disk.rest.tables.map TableFile.path

/-- `read_data_page`. -/
def readDataPage (id : DataPageId) : Except Exn (Option LoadedPage) :=
  match disk.dirs.findSome? fun dir => (disk.files dir id).map fun content => (dir, content) with
  | none => .ok none
  | some (dir, content) =>
    let out : DataPage :=
      { id := UUID.null, tableId := UUID.null, size := content.length, path := dir }
    match deserializeDp out content with
    | none => .error (.runtimeError
        "FileIOManager::load_data_page: failed to deserialize data page ")
    | some (page, _) =>
      if page.id ≠ id then
        .error (.runtimeError "FileIOManager::load_data_page: page id mismatch for ")
      else .ok (some { page := page, fileName := id })

/-- `write_page`. -/
def writePage (p : LoadedPage) : PageDisk :=
  { disk with files := fun dir id =>
      if dir = p.page.path ∧ id = p.fileName then some (serializeDp p.page).buffer
      else disk.files dir id }

/-- What `read_data_page` finds, up to what is made anew. -/
def readCore (id : DataPageId) : Except Exn (Option LoadedPage) :=
  (disk.readDataPage id).map (Option.map LoadedPage.core)

/-- **A page belongs where it is**: written to its file it is the page of that
name that is found first. -/
structure Home (id : DataPageId) (p : LoadedPage) : Prop where
  sameId : p.page.id = id
  sameName : p.fileName = id
  fits : p.page.Fits
  first : (disk.dirs.find? fun dir => (disk.files dir id).isSome || decide (dir = p.page.path))
    = some p.page.path

variable {disk}

@[simp] theorem writePage_dirs (p : LoadedPage) : (disk.writePage p).dirs = disk.dirs := rfl

theorem writePage_files_of_ne (p : LoadedPage) (dir : Bytes × Bytes) {id : DataPageId}
    (hid : id ≠ p.fileName) : (disk.writePage p).files dir id = disk.files dir id :=
  if_neg fun h => hid h.2

/-- The first directory with a file of a name, and the file's content. -/
theorem findSome?_files {id : DataPageId} {dir : Bytes × Bytes} {content : Bytes} :
    (disk.dirs.findSome? fun dir => (disk.files dir id).map fun content => (dir, content))
        = some (dir, content)
      ↔ disk.dirs.find? (fun dir => (disk.files dir id).isSome) = some dir
        ∧ disk.files dir id = some content := by
  induction disk.dirs with
  | nil => simp
  | cons d dirs ih =>
    cases hfile : disk.files d id with
    | none =>
      rw [List.findSome?_cons, List.find?_cons, hfile]
      exact ih
    | some c =>
      rw [List.findSome?_cons, List.find?_cons, hfile]
      show some (d, c) = some (dir, content) ↔ some d = some dir ∧ _
      constructor
      · intro h
        cases h
        exact ⟨rfl, hfile⟩
      · rintro ⟨hd, hc⟩
        cases hd
        rw [hfile, Option.some.injEq] at hc
        rw [hc]

/-- No directory has a file of a name. -/
theorem findSome?_files_eq_none {id : DataPageId} :
    (disk.dirs.findSome? fun dir => (disk.files dir id).map fun content => (dir, content)) = none
      ↔ ∀ dir ∈ disk.dirs, disk.files dir id = none := by
  rw [List.findSome?_eq_none_iff]
  exact forall₂_congr fun dir _ => Option.map_eq_none_iff

/-- What reading depends on: the directories and the files of that name. -/
theorem readDataPage_congr {disk' : PageDisk} {id : DataPageId} (hdirs : disk'.dirs = disk.dirs)
    (hfiles : ∀ dir, disk'.files dir id = disk.files dir id) :
    disk'.readDataPage id = disk.readDataPage id := by
  unfold readDataPage
  rw [hdirs]
  simp only [hfiles]

/-- **What is written is read back**, up to what is made anew. -/
theorem readCore_writePage {id : DataPageId} {p : LoadedPage} (h : disk.Home id p) :
    (disk.writePage p).readCore id = .ok (some p.core) := by
  have hfile : (disk.writePage p).files p.page.path id = some (serializeDp p.page).buffer :=
    if_pos ⟨rfl, h.sameName.symm⟩
  -- the directories with such a file are those there were, and the page's own
  have hfirst : ((disk.writePage p).dirs.find? fun dir =>
      ((disk.writePage p).files dir id).isSome) = some p.page.path := by
    rw [writePage_dirs, ← h.first]
    refine congrArg (fun q => disk.dirs.find? q) (funext fun dir => ?_)
    by_cases hdir : dir = p.page.path
    · rw [hdir, hfile, decide_eq_true rfl, Bool.or_true]
      rfl
    · rw [decide_eq_false hdir, Bool.or_false]
      exact congrArg Option.isSome (if_neg fun hd => hdir hd.1)
  have hread := (reads_deserializeDp
    { id := UUID.null, tableId := UUID.null, size := (serializeDp p.page).buffer.length,
      path := p.page.path } h.fits).run
  unfold readCore readDataPage
  rw [findSome?_files.mpr ⟨hfirst, hfile⟩]
  simp only [hread]
  rw [if_neg (not_not_intro h.sameId)]
  obtain ⟨page, fileName⟩ := p
  obtain rfl : fileName = id := h.sameName
  rfl

/-- A page that has been read belongs where it is. -/
theorem home_of_readDataPage {id : DataPageId} {p : LoadedPage}
    (h : disk.readDataPage id = .ok (some p)) : disk.Home id p := by
  unfold readDataPage at h
  cases hfind : disk.dirs.findSome? fun dir =>
      (disk.files dir id).map fun content => (dir, content) with
  | none =>
    rw [hfind] at h
    cases h
  | some found =>
    obtain ⟨dir, content⟩ := found
    rw [hfind] at h
    simp only at h
    obtain ⟨hfirst, hfile⟩ := findSome?_files.mp hfind
    cases hread : deserializeDp
        { id := UUID.null, tableId := UUID.null, size := content.length, path := dir } content with
    | none =>
      rw [hread] at h
      cases h
    | some result =>
      obtain ⟨page, rest⟩ := result
      rw [hread] at h
      simp only at h
      obtain ⟨hfits, -, hpath⟩ := ensures_deserializeDp _ hread
      by_cases hid : page.id = id
      · rw [if_neg (not_not_intro hid)] at h
        cases h
        refine ⟨hid, rfl, hfits, ?_⟩
        show (disk.dirs.find? fun d => _ || decide (d = page.path)) = some page.path
        rw [hpath, ← hfirst]
        -- the page's own directory has the file already
        refine congrArg (fun q => disk.dirs.find? q) (funext fun d => ?_)
        by_cases hd : d = dir
        · rw [hd, hfile]
          rfl
        · rw [decide_eq_false hd, Bool.or_false]
      · rw [if_pos hid] at h
        cases h

/-- A page that has been changed belongs where it did, if its id and its path
are as they were. -/
theorem Home.change {id : DataPageId} {p q : LoadedPage} (h : disk.Home id p)
    (hid : q.page.id = p.page.id) (hpath : q.page.path = p.page.path)
    (hname : q.fileName = p.fileName) (hfits : q.page.Fits) : disk.Home id q where
  sameId := hid.trans h.sameId
  sameName := hname.trans h.sameName
  fits := hfits
  first := hpath ▸ h.first

/-- So does any page that fits and is what has been read, up to what is made
anew. -/
theorem home_of_readCore {id : DataPageId} {p : LoadedPage}
    (h : disk.readCore id = .ok (some p.core)) (hfits : p.page.Fits) : disk.Home id p := by
  unfold readCore at h
  cases hread : disk.readDataPage id with
  | error e =>
    rw [hread] at h
    cases h
  | ok found =>
    rw [hread] at h
    cases found with
    | none => cases h
    | some q =>
      have hcore : q.core = p.core := Option.some.inj (Except.ok.inj h)
      exact (home_of_readDataPage hread).change (LoadedPage.id_eq_of_core hcore).symm
        (LoadedPage.path_eq_of_core hcore).symm (LoadedPage.fileName_eq_of_core hcore).symm hfits

/-- Nothing is read of exactly the pages that no directory has a file of. -/
theorem readCore_eq_none_iff {id : DataPageId} :
    disk.readCore id = .ok none ↔ ∀ dir ∈ disk.dirs, disk.files dir id = none := by
  rw [← findSome?_files_eq_none]
  unfold readCore readDataPage
  cases disk.dirs.findSome? fun dir => (disk.files dir id).map fun content => (dir, content) with
  | none => exact ⟨fun _ => rfl, fun _ => rfl⟩
  | some found =>
    refine ⟨fun h => ?_, fun h => nomatch h⟩
    simp only at h
    split at h
    · cases h
    · split_ifs at h <;> cases h

/-- A new page belongs in the directory of its table. -/
theorem home_of_absent {id : DataPageId} {p : LoadedPage} (hid : p.page.id = id)
    (hname : p.fileName = id) (hfits : p.page.Fits) (hpath : p.page.path ∈ disk.dirs)
    (habsent : ∀ dir ∈ disk.dirs, disk.files dir id = none) : disk.Home id p := by
  refine ⟨hid, hname, hfits, ?_⟩
  cases hfind : disk.dirs.find? fun dir =>
      (disk.files dir id).isSome || decide (dir = p.page.path) with
  | none =>
    have hnot := List.find?_eq_none.mp hfind p.page.path hpath
    rw [decide_eq_true rfl, Bool.or_true] at hnot
    exact absurd rfl hnot
  | some dir =>
    have hdir := List.find?_some hfind
    rw [habsent dir (List.mem_of_find?_eq_some hfind)] at hdir
    exact congrArg some (of_decide_eq_true hdir)

/-- **The page files as a store.** -/
def pages : BackingStore PageDisk DataPageId LoadedPage (Except Exn (Option LoadedPage)) where
  read := readCore
  write := writePage
  shown p := .ok (some p.core)
  Home := Home
  read_write h := readCore_writePage h
  read_write_of_ne {disk k k' p} h hne := by
    show ((disk.writePage p).readDataPage k').map _ = (disk.readDataPage k').map _
    rw [readDataPage_congr (writePage_dirs p) fun dir =>
      writePage_files_of_ne p dir (h.sameName ▸ hne)]
  home_write {disk k p} h := by
    refine ⟨h.sameId, h.sameName, h.fits, ?_⟩
    rw [writePage_dirs, ← h.first]
    refine congrArg (fun q => disk.dirs.find? q) (funext fun dir => ?_)
    by_cases hdir : dir = p.page.path
    · rw [decide_eq_true hdir, Bool.or_true, Bool.or_true]
    · rw [show (disk.writePage p).files dir k = disk.files dir k from if_neg fun h => hdir h.1]
  home_write_of_ne {disk k k' p q} h hne hq := by
    refine ⟨hq.sameId, hq.sameName, hq.fits, ?_⟩
    rw [writePage_dirs, ← hq.first]
    refine congrArg (fun q => disk.dirs.find? q) (funext fun dir => ?_)
    rw [writePage_files_of_ne p dir (h.sameName ▸ hne)]

end PageDisk
