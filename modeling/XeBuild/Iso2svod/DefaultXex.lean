import XeBuild.Iso2svod.TableLayout

/-!
# The boot executable

The scan notes every file named `default.xex`, in the root table or below it,
so the last one that it comes to stays.
-/

namespace XeBuild.Iso2svod

open ListRange

set_option autoImplicit false

/-! ## The last file of the name -/

def XisoEntry.IsDefaultXex (pent : XisoEntry) : Prop :=
  pent.entType / 0x10 % 2 = 0 ∧ pent.nameSz = 11 ∧ pent.name.map toLower = XEX_FILE_NAME

instance (pent : XisoEntry) : Decidable pent.IsDefaultXex :=
  inferInstanceAs (Decidable (_ ∧ _ ∧ _))

def lastDefaultXex : List XisoEntry → Option XisoEntry
  | [] => none
  | pent :: entries =>
      (lastDefaultXex entries).or (if pent.IsDefaultXex then some pent else none)

def BootFile (s : DiskScan) (pent : XisoEntry) : Prop :=
  s.defaultXexSector = pent.sector ∧ s.defaultXexSize = pent.size

section Last

variable {entries before after : List XisoEntry} {pent other : XisoEntry} {s : DiskScan}

theorem last_default_xex_append :
    lastDefaultXex (before ++ after) = (lastDefaultXex after).or (lastDefaultXex before) := by
  induction before with
  | nil => rw [List.nil_append, lastDefaultXex, Option.or_none]
  | cons pent before ih =>
      rw [List.cons_append, lastDefaultXex, lastDefaultXex, ih, Option.or_assoc]

theorem note_entry_boot_file (named : pent.IsDefaultXex) : BootFile (noteEntry s pent) pent := by
  rcases named with ⟨file, size, name⟩
  rw [noteEntry, noteDefaultXex, if_pos ⟨file, size, name⟩]
  exact ⟨rfl, rfl⟩

theorem note_entry_other (named : ¬ pent.IsDefaultXex) :
    (noteEntry s pent).defaultXexSector = s.defaultXexSector ∧
      (noteEntry s pent).defaultXexSize = s.defaultXexSize := by
  rw [noteEntry, noteDefaultXex, if_neg]
  · exact ⟨rfl, rfl⟩
  · exact named

theorem scan_keeps_pair (absent : lastDefaultXex entries = none) :
    (entries.foldl noteEntry s).defaultXexSector = s.defaultXexSector ∧
      (entries.foldl noteEntry s).defaultXexSize = s.defaultXexSize := by
  induction entries generalizing s with
  | nil => exact ⟨rfl, rfl⟩
  | cons pent entries ih =>
      rcases Option.or_eq_none_iff.mp absent with ⟨later, here⟩
      have notNamed : ¬ pent.IsDefaultXex := by
        intro named
        rw [if_pos named] at here
        cases here
      rcases note_entry_other notNamed with ⟨sector, size⟩
      rcases @ih (noteEntry s pent) later with ⟨laterSector, laterSize⟩
      exact ⟨laterSector.trans sector, laterSize.trans size⟩

theorem scan_boot_file (last : lastDefaultXex entries = some pent) :
    BootFile (entries.foldl noteEntry s) pent := by
  induction entries generalizing s with
  | nil => cases last
  | cons first entries ih =>
      rw [lastDefaultXex, Option.or_eq_some_iff] at last
      rcases last with later | ⟨later, here⟩
      · exact ih later
      · rw [ite_eq_iff] at here
        rcases here with ⟨named, same⟩ | ⟨_, none⟩
        · cases same
          rcases @scan_keeps_pair entries (noteEntry s pent) later with ⟨sector, size⟩
          rcases @note_entry_boot_file pent s named with ⟨noteSector, noteSize⟩
          exact ⟨sector.trans noteSector, size.trans noteSize⟩
        · cases none

/-- What is scanned behind a file of the name decides whether its pair stays. -/
theorem scan_boot_file_iff (named : pent.IsDefaultXex) :
    BootFile ((before ++ pent :: after).foldl noteEntry s) pent ↔
      ∀ other, lastDefaultXex after = some other →
        other.sector = pent.sector ∧ other.size = pent.size := by
  have here : lastDefaultXex (pent :: after) = (lastDefaultXex after).or (some pent) := by
    rw [lastDefaultXex, if_pos named]
  cases found : lastDefaultXex after with
  | none =>
      have last : lastDefaultXex (before ++ pent :: after) = some pent := by
        rw [last_default_xex_append, here, found]
        rfl
      apply iff_of_true (scan_boot_file last)
      intro other none
      cases none
  | some other =>
      have last : lastDefaultXex (before ++ pent :: after) = some other := by
        rw [last_default_xex_append, here, found]
        rfl
      rcases @scan_boot_file _ other s last with ⟨sector, size⟩
      rw [BootFile, sector, size]
      simp

end Last

/-! ## A file of the root table -/

/-- The table of the place holds the file, at the place or behind it. `before` is
what the scan comes to up to the file, `after` what it comes to behind it. -/
inductive FileBetween (image : DiskImage) (pent : XisoEntry) (after : List XisoEntry) :
    ScanPlace → List XisoEntry → Prop
  | here {place : ScanPlace} {buf : Bytes} (read : image.tableOf place = some buf)
      (inside : place.currOff < buf.length)
      (isEntry : (entryAt buf place.currOff).isFill = false)
      (fits : ¬ NameOverflows buf place.currOff)
      (isLeaf : (entryAt buf place.currOff).descends = false)
      (found : entryAt buf place.currOff = pent)
      (rest : Scanned image (place.moved (nextEntry place.currOff pent)) after) :
      FileBetween image pent after place []
  | fill {place : ScanPlace} {buf : Bytes} {before : List XisoEntry}
      (read : image.tableOf place = some buf) (inside : place.currOff < buf.length)
      (isFill : (entryAt buf place.currOff).isFill = true)
      (later : FileBetween image pent after (place.moved (sectorAlign place.currOff)) before) :
      FileBetween image pent after place before
  | leaf {place : ScanPlace} {buf : Bytes} {before : List XisoEntry}
      (read : image.tableOf place = some buf) (inside : place.currOff < buf.length)
      (isEntry : (entryAt buf place.currOff).isFill = false)
      (fits : ¬ NameOverflows buf place.currOff)
      (isLeaf : (entryAt buf place.currOff).descends = false)
      (later : FileBetween image pent after
        (place.moved (nextEntry place.currOff (entryAt buf place.currOff))) before) :
      FileBetween image pent after place (entryAt buf place.currOff :: before)
  | directory {place : ScanPlace} {buf : Bytes} {below before : List XisoEntry}
      (read : image.tableOf place = some buf) (inside : place.currOff < buf.length)
      (isEntry : (entryAt buf place.currOff).isFill = false)
      (fits : ¬ NameOverflows buf place.currOff)
      (isDirectory : (entryAt buf place.currOff).descends = true)
      (tree : Scanned image (entryAt buf place.currOff).tableStart below)
      (later : FileBetween image pent after
        (place.moved (nextEntry place.currOff (entryAt buf place.currOff))) before) :
      FileBetween image pent after place (entryAt buf place.currOff :: (below ++ before))

section Root

variable {image : DiskImage} {pent : XisoEntry} {before after : List XisoEntry}
  {place : ScanPlace}

theorem scanned_of_file_between (file : FileBetween image pent after place before) :
    Scanned image place (before ++ pent :: after) := by
  induction file with
  | here read inside isEntry fits isLeaf found rest =>
      subst found
      exact Scanned.leaf read inside isEntry fits isLeaf rest
  | fill read inside isFill _ ih => exact Scanned.fill read inside isFill ih
  | leaf read inside isEntry fits isLeaf _ ih =>
      exact Scanned.leaf read inside isEntry fits isLeaf ih
  | directory read inside isEntry fits isDirectory tree _ ih =>
      rw [List.cons_append, List.append_assoc]
      exact Scanned.directory read inside isEntry fits isDirectory tree ih

theorem file_between_read (file : FileBetween image pent after place before) :
    (image.tableOf place).isSome = true := by
  cases file <;> exact Option.isSome_iff_exists.mpr ⟨_, by assumption⟩

theorem round_ends_boot_file (s : DiskScan) : BootFile (roundEnds s) pent ↔ BootFile s pent :=
  Iff.rfl

theorem file_between_returns (file : FileBetween image pent after image.rootStart before) :
    GetDiskEndReturns image true
      (roundEnds ((before ++ pent :: after).foldl noteEntry (diskScanStart image))) := by
  have read := file_between_read file
  have returns := get_disk_end_of_scanned (scanned_of_file_between file)
  rwa [read, scanResult, if_pos read] at returns

/-- A file `default.xex` of the root table is the boot executable exactly when no
other file of the name is scanned last behind it, but one in the same place. -/
theorem disk_end_boot_file_iff (file : FileBetween image pent after image.rootStart before)
    (named : pent.IsDefaultXex) :
    ∃ s, GetDiskEndReturns image true s ∧
      (BootFile s pent ↔ ∀ other, lastDefaultXex after = some other →
        other.sector = pent.sector ∧ other.size = pent.size) := by
  refine ⟨_, file_between_returns file, ?_⟩
  rw [round_ends_boot_file]
  exact scan_boot_file_iff named

end Root

/-! ## Trees of sectors -/

section Sectors

variable {image : DiskImage} {place : ScanPlace} {tableSector : TableSector}
  {front back : List StoredEntry} {stored : StoredEntry} {pent : XisoEntry}
  {before after below entries : List XisoEntry}

theorem scanned_sector_leaf (read : image.tableOf place = some tableSector.bytes)
    (shape : tableSector.entries = front ++ stored :: back)
    (start : place.currOff = (packed front).length) (named : stored.entry.nameSz ≤ 128)
    (isLeaf : stored.entry.descends = false)
    (rest : Scanned image (place.moved (packed (front ++ [stored])).length) entries) :
    Scanned image place (stored.entry :: entries) := by
  have found := sector_entry_at shape
  have inside := sector_entry_inside shape
  have fits := sector_entry_fits shape named
  have isEntry := stored_is_entry stored
  rw [← sector_entry_next shape, ← start] at rest
  rw [← start] at found inside fits
  rw [← found] at isEntry isLeaf rest ⊢
  exact Scanned.leaf read inside isEntry fits isLeaf rest

theorem scanned_sector_directory (read : image.tableOf place = some tableSector.bytes)
    (shape : tableSector.entries = front ++ stored :: back)
    (start : place.currOff = (packed front).length) (named : stored.entry.nameSz ≤ 128)
    (isDirectory : stored.entry.descends = true)
    (tree : Scanned image stored.entry.tableStart below)
    (rest : Scanned image (place.moved (packed (front ++ [stored])).length) entries) :
    Scanned image place (stored.entry :: (below ++ entries)) := by
  have found := sector_entry_at shape
  have inside := sector_entry_inside shape
  have fits := sector_entry_fits shape named
  have isEntry := stored_is_entry stored
  rw [← sector_entry_next shape, ← start] at rest
  rw [← start] at found inside fits
  rw [← found] at isEntry isDirectory tree rest ⊢
  exact Scanned.directory read inside isEntry fits isDirectory tree rest

theorem file_between_sector_here (read : image.tableOf place = some tableSector.bytes)
    (shape : tableSector.entries = front ++ stored :: back)
    (start : place.currOff = (packed front).length) (named : stored.entry.nameSz ≤ 128)
    (isLeaf : stored.entry.descends = false)
    (rest : Scanned image (place.moved (packed (front ++ [stored])).length) after) :
    FileBetween image stored.entry after place [] := by
  have found := sector_entry_at shape
  have inside := sector_entry_inside shape
  have fits := sector_entry_fits shape named
  have isEntry := stored_is_entry stored
  rw [← sector_entry_next shape, ← start] at rest
  rw [← start] at found inside fits
  rw [← found] at isEntry isLeaf
  exact FileBetween.here read inside isEntry fits isLeaf found rest

theorem file_between_sector_directory (read : image.tableOf place = some tableSector.bytes)
    (shape : tableSector.entries = front ++ stored :: back)
    (start : place.currOff = (packed front).length) (named : stored.entry.nameSz ≤ 128)
    (isDirectory : stored.entry.descends = true)
    (tree : Scanned image stored.entry.tableStart below)
    (later :
      FileBetween image pent after (place.moved (packed (front ++ [stored])).length) before) :
    FileBetween image pent after place (stored.entry :: (below ++ before)) := by
  have found := sector_entry_at shape
  have inside := sector_entry_inside shape
  have fits := sector_entry_fits shape named
  have isEntry := stored_is_entry stored
  rw [← sector_entry_next shape, ← start] at later
  rw [← start] at found inside fits
  rw [← found] at isEntry isDirectory tree later ⊢
  exact FileBetween.directory read inside isEntry fits isDirectory tree later

end Sectors

/-! ## Two executables of one name -/

theorem boot_file_words : 0x30 < 0x100000000 ∧ 0x1000 < 0x100000000 ∧ 0x80 < 0x100 := by decide

theorem other_file_words : 0x40 < 0x100000000 ∧ 0x2000 < 0x100000000 ∧ 0x80 < 0x100 := by decide

theorem sub_directory_words : 1 < 0x100000000 ∧ 0x800 < 0x100000000 ∧ 0x10 < 0x100 := by decide

theorem xex_name_named : 0 < XEX_FILE_NAME.length ∧ XEX_FILE_NAME.length < 0x100 := by decide

def bootFile : StoredEntry :=
  storedPlain 0x30 0x1000 0x80 XEX_FILE_NAME boot_file_words xex_name_named

def otherFile : StoredEntry :=
  storedPlain 0x40 0x2000 0x80 XEX_FILE_NAME other_file_words xex_name_named

def subDirectory : StoredEntry :=
  storedPlain 1 0x800 0x10 shortName sub_directory_words short_name_named

theorem two_entries_fit (first second : StoredEntry) : (packed [first, second]).length ≤ 0x800 := by
  have firstLength := stored_length first
  have secondLength := stored_length second
  have firstShort := first.nameSz_lt
  have secondShort := second.nameSz_lt
  rw [packed, List.flatMap_cons, List.flatMap_singleton, List.length_append]
  omega

def twoFilesImage (first second : StoredEntry) : DiskImage :=
  sectorsImage [⟨[first, second], two_entries_fit first second⟩, oneEntrySector otherFile]

theorem two_files_root_read (first second : StoredEntry) :
    (twoFilesImage first second).tableOf (twoFilesImage first second).rootStart =
      some (TableSector.bytes ⟨[first, second], two_entries_fit first second⟩) :=
  sectors_image_table [] ⟨[first, second], two_entries_fit first second⟩ _

theorem other_table_scanned (first second : StoredEntry) :
    Scanned (twoFilesImage first second) subDirectory.entry.tableStart [otherFile.entry] := by
  have read := sectors_image_table [⟨[first, second], two_entries_fit first second⟩]
    (oneEntrySector otherFile) []
  have rest := @scanned_sector_rest (oneEntrySector otherFile) (twoFilesImage first second)
    ⟨1, 0x800, _⟩ read (List.cons_ne_nil _ _) rfl
  exact @scanned_sector_leaf (twoFilesImage first second) ⟨1, 0x800, 0⟩ (oneEntrySector otherFile)
    [] [] otherFile [] read rfl rfl (by decide) rfl rest

theorem file_behind_directory :
    FileBetween (twoFilesImage subDirectory bootFile) bootFile.entry []
      (twoFilesImage subDirectory bootFile).rootStart [subDirectory.entry, otherFile.entry] := by
  have read := two_files_root_read subDirectory bootFile
  have rest := @scanned_sector_rest ⟨[subDirectory, bootFile], two_entries_fit _ _⟩
    (twoFilesImage subDirectory bootFile)
    ⟨0, 0x800, (packed [subDirectory, bootFile]).length⟩ read (List.cons_ne_nil _ _) rfl
  have file := @file_between_sector_here (twoFilesImage subDirectory bootFile)
    ⟨0, 0x800, (packed [subDirectory]).length⟩ ⟨[subDirectory, bootFile], two_entries_fit _ _⟩
    [subDirectory] [] bootFile [] read rfl rfl (by decide) rfl rest
  exact @file_between_sector_directory (twoFilesImage subDirectory bootFile)
    (twoFilesImage subDirectory bootFile).rootStart
    ⟨[subDirectory, bootFile], two_entries_fit _ _⟩ [] [bootFile] subDirectory bootFile.entry []
    [] [otherFile.entry] read rfl rfl (by decide) rfl (other_table_scanned _ _) file

theorem file_before_directory :
    FileBetween (twoFilesImage bootFile subDirectory) bootFile.entry
      [subDirectory.entry, otherFile.entry] (twoFilesImage bootFile subDirectory).rootStart [] := by
  have read := two_files_root_read bootFile subDirectory
  have rest := @scanned_sector_rest ⟨[bootFile, subDirectory], two_entries_fit _ _⟩
    (twoFilesImage bootFile subDirectory)
    ⟨0, 0x800, (packed [bootFile, subDirectory]).length⟩ read (List.cons_ne_nil _ _) rfl
  have directory := @scanned_sector_directory (twoFilesImage bootFile subDirectory)
    ⟨0, 0x800, (packed [bootFile]).length⟩ ⟨[bootFile, subDirectory], two_entries_fit _ _⟩
    [bootFile] [] subDirectory [otherFile.entry] [] read rfl rfl (by decide) rfl
    (other_table_scanned _ _) rest
  exact @file_between_sector_here (twoFilesImage bootFile subDirectory)
    (twoFilesImage bootFile subDirectory).rootStart
    ⟨[bootFile, subDirectory], two_entries_fit _ _⟩ [] [subDirectory] bootFile _ read rfl rfl
    (by decide) rfl directory

theorem boot_file_named : bootFile.entry.IsDefaultXex := by decide

/-- A file of the name in a directory takes the place of the one in the root table. -/
theorem boot_file_replaced :
    ¬ ∀ (image : DiskImage) (pent : XisoEntry) (before after : List XisoEntry),
      FileBetween image pent after image.rootStart before → pent.IsDefaultXex →
        ∀ s, GetDiskEndReturns image true s → BootFile s pent := by
  intro claimed
  have pair := claimed _ _ _ _ file_before_directory boot_file_named _
    (file_between_returns file_before_directory)
  rw [round_ends_boot_file, scan_boot_file_iff boot_file_named] at pair
  have same := (pair otherFile.entry rfl).1
  exact absurd same (by decide)

theorem boot_file_stays :
    ∃ s, GetDiskEndReturns (twoFilesImage subDirectory bootFile) true s ∧
      BootFile s bootFile.entry := by
  rcases disk_end_boot_file_iff file_behind_directory boot_file_named with ⟨s, returns, stays⟩
  refine ⟨s, returns, stays.mpr ?_⟩
  intro other later
  cases later

end XeBuild.Iso2svod
