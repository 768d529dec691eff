import XeBuild.Iso2svod.ScanRun

/-!
# What the sector range covers

The range that `getDiskEnd` leaves, against the extents the directory tables
name: which trees have all their extents in the range, and which images hold the
whole range. The extents are measured in natural numbers. The scan adds and
rounds in 32-bit words, starts from the root table's size in bytes and never
ends before sector `0x108`.
-/

namespace XeBuild.Iso2svod

open ListRange

set_option autoImplicit false

/-! ## Extents in natural numbers -/

def sectorCount (size : Nat) : Nat := (size + 0x7FF) / 0x800

def XisoEntry.extentEnd (pent : XisoEntry) : Nat := pent.sector + sectorCount pent.size

def XisoEntry.SizeFits (pent : XisoEntry) : Prop := pent.size ≤ 0xFFFFF800

instance (pent : XisoEntry) : Decidable pent.SizeFits := Nat.decLe _ _

def CoversExtents (entries : List XisoEntry) (s : DiskScan) : Prop :=
  ∀ pent ∈ entries, pent.size ≠ 0 → s.minSector ≤ pent.sector ∧ pent.extentEnd ≤ s.maxSector

/-- The first `sectors` sectors of the game partition lie in the image. -/
def DiskImage.Holds (image : DiskImage) (sectors : Nat) : Prop :=
  image.baseOffset + sectors * XGD_SECTOR_SIZE ≤ image.isoData.length

def RangeInImage (image : DiskImage) (s : DiskScan) : Prop :=
  ∀ sector, s.minSector ≤ sector → sector < s.maxSector → image.Holds (sector + 1)

def evenUp (sector : Nat) : Nat := (sector + 1) / 2 * 2

def LAST_SECTOR : Nat := 0xFFFFFFFF

section Words

variable {pent : XisoEntry}

theorem sector_align_of_fits {size : Nat} (fits : size ≤ 0xFFFFF800) :
    sectorAlign size = sectorCount size * 0x800 := by
  rw [sectorAlign, u32_of_lt (by omega), sectorCount]

theorem sector_align_of_not_fits {size : Nat} (large : 0xFFFFF800 < size)
    (word : size < 0x100000000) : sectorAlign size = 0 := by
  have wrapped : u32 (size + 0x7FF) = size + 0x7FF - 0x100000000 := by
    rw [u32]
    omega
  rw [sectorAlign, wrapped]
  omega

/-- A size that fits is measured exactly, a larger one counts as no sector. -/
theorem ssize_eq (word : pent.size < 0x100000000) :
    pent.ssize = if pent.SizeFits then sectorCount pent.size else 0 := by
  rw [XisoEntry.ssize]
  by_cases fits : pent.SizeFits
  · have limit : pent.size ≤ 0xFFFFF800 := fits
    rw [if_pos fits, sector_align_of_fits limit, sectorCount]
    omega
  · have large : 0xFFFFF800 < pent.size := Nat.lt_of_not_le fits
    rw [if_neg fits, sector_align_of_not_fits large word]

theorem end_sector_of_fits (word : pent.size < 0x100000000) (fits : pent.SizeFits) :
    pent.endSector = u32 pent.extentEnd := by
  rw [XisoEntry.endSector, ssize_eq word, if_pos fits, XisoEntry.extentEnd, Nat.add_comm]

theorem end_sector_of_not_fits (sectorWord : pent.sector < 0x100000000)
    (word : pent.size < 0x100000000) (large : ¬ pent.SizeFits) :
    pent.endSector = pent.sector := by
  rw [XisoEntry.endSector, ssize_eq word, if_neg large, Nat.zero_add, u32_of_lt sectorWord]

theorem end_sector_lt (pent : XisoEntry) : pent.endSector < 0x100000000 := u32_lt _

theorem root_end_lt (image : DiskImage) : rootEnd image < 0x100000000 := u32_lt _

theorem end_sector_le (sectorWord : pent.sector < 0x100000000)
    (word : pent.size < 0x100000000) : pent.endSector ≤ pent.extentEnd := by
  by_cases fits : pent.SizeFits
  · rw [end_sector_of_fits word fits]
    exact Nat.mod_le _ _
  · rw [end_sector_of_not_fits sectorWord word fits, XisoEntry.extentEnd]
    omega

theorem even_up_mono {first second : Nat} (ordered : first ≤ second) :
    evenUp first ≤ evenUp second := by
  simp only [evenUp]
  omega

theorem le_even_up (sector : Nat) : sector ≤ evenUp sector := by
  simp only [evenUp]
  omega

theorem image_holds_mono {image : DiskImage} {first second : Nat} (ordered : first ≤ second)
    (holds : image.Holds second) : image.Holds first :=
  (Nat.add_le_add_left (Nat.mul_le_mul_right _ ordered) _).trans holds

end Words

/-! ## The range -/

section Range

variable {image : DiskImage} {entries : List XisoEntry}

def scannedMax (image : DiskImage) (entries : List XisoEntry) : Nat :=
  (entries.foldl noteEntry (diskScanStart image)).maxSector

def scannedRange (image : DiskImage) (entries : List XisoEntry) : DiskScan :=
  roundEnds (entries.foldl noteEntry (diskScanStart image))

theorem scanned_max_le_iff (bound : Nat) :
    scannedMax image entries ≤ bound ↔
      0x108 ≤ bound ∧ rootEnd image ≤ bound ∧ ∀ pent ∈ entries, pent.endSector ≤ bound := by
  have start : (diskScanStart image).maxSector ≤ bound ↔ 0x108 ≤ bound ∧ rootEnd image ≤ bound := by
    simp only [diskScanStart]
    split_ifs <;> omega
  rw [scannedMax, scan_max_le_iff, start, and_assoc]

theorem scanned_max_cases :
    scannedMax image entries = 0x108 ∨ scannedMax image entries = rootEnd image ∨
      ∃ pent ∈ entries, scannedMax image entries = pent.endSector := by
  obtain ⟨floorLe, rootLe, entriesLe⟩ := (scanned_max_le_iff _).mp
    (Nat.le_refl (scannedMax image entries))
  by_contra none
  push Not at none
  obtain ⟨notFloor, notRoot, notEntry⟩ := none
  have smaller : scannedMax image entries ≤ scannedMax image entries - 1 := by
    apply (scanned_max_le_iff _).mpr
    refine ⟨by omega, by omega, ?_⟩
    intro pent member
    have bound := entriesLe pent member
    have different := notEntry pent member
    omega
  omega

theorem scanned_max_lt : scannedMax image entries < 0x100000000 := by
  rcases @scanned_max_cases image entries with floor | root | ⟨pent, _, last⟩
  · omega
  · rw [root]
    exact root_end_lt image
  · rw [last]
    exact end_sector_lt pent

/-- The rounded end, which is zero when the largest end is the last sector. -/
theorem scanned_range_max :
    (scannedRange image entries).maxSector =
      if scannedMax image entries = LAST_SECTOR then 0 else evenUp (scannedMax image entries) := by
  have word := @scanned_max_lt image entries
  rw [scannedRange, roundEnds, ← scannedMax]
  split_ifs with last
  · rw [last]
    rfl
  · rw [LAST_SECTOR] at last
    rw [evenUp, u32_of_lt (by omega)]

theorem scanned_range_min_le :
    (scannedRange image entries).minSector ≤ image.rootDirSector ∧
      ∀ pent ∈ entries, (scannedRange image entries).minSector ≤ pent.sector := by
  obtain ⟨start, members⟩ := scan_min_le entries (diskScanStart image)
  have rounded : (scannedRange image entries).minSector ≤
      (entries.foldl noteEntry (diskScanStart image)).minSector := Nat.div_mul_le_self _ _
  refine ⟨rounded.trans start, ?_⟩
  intro pent member
  exact rounded.trans (members pent member)

end Range

/-! ## Extents in the range -/

/-- Some end that the scan notes is not before the extent. -/
def Covered (image : DiskImage) (entries : List XisoEntry) (pent : XisoEntry) : Prop :=
  pent.extentEnd ≤ evenUp (rootEnd image) ∨
    ∃ other ∈ entries, pent.extentEnd ≤ evenUp other.endSector

/-- The conditions under which 32-bit words measure the extents: no end is the
last sector, every extent ends in a word, and an extent whose size cannot be
rounded up in a word is covered by another end. -/
structure WordsSuffice (image : DiskImage) (entries : List XisoEntry) : Prop where
  rootEnds : rootEnd image ≠ LAST_SECTOR
  entryEnds : ∀ pent ∈ entries, pent.endSector ≠ LAST_SECTOR
  extents : ∀ pent ∈ entries, pent.size ≠ 0 →
    pent.extentEnd ≤ LAST_SECTOR ∧ (pent.SizeFits ∨ Covered image entries pent)

section Covers

variable {image : DiskImage} {entries : List XisoEntry}

theorem covered_le_max {pent : XisoEntry} (covered : Covered image entries pent) :
    pent.extentEnd ≤ evenUp (scannedMax image entries) := by
  obtain ⟨_, rootLe, entriesLe⟩ := (scanned_max_le_iff _).mp
    (Nat.le_refl (scannedMax image entries))
  rcases covered with root | ⟨other, member, last⟩
  · exact root.trans (even_up_mono rootLe)
  · exact last.trans (even_up_mono (entriesLe other member))

theorem large_extent_end {pent : XisoEntry} (large : ¬ pent.SizeFits) :
    0x108 < pent.extentEnd := by
  have limit : 0xFFFFF800 < pent.size := Nat.lt_of_not_le large
  rw [XisoEntry.extentEnd, sectorCount]
  omega

theorem covers_of_words_suffice (tables : HasEntries image entries)
    (suffice : WordsSuffice image entries) : CoversExtents entries (scannedRange image entries) := by
  have notLast : scannedMax image entries ≠ LAST_SECTOR := by
    rcases @scanned_max_cases image entries with floor | root | ⟨pent, member, last⟩
    · rw [floor]
      decide
    · rw [root]
      exact suffice.rootEnds
    · rw [last]
      exact suffice.entryEnds pent member
  intro pent member filled
  refine ⟨scanned_range_min_le.2 pent member, ?_⟩
  obtain ⟨ends, measured⟩ := suffice.extents pent member filled
  rw [scanned_range_max, if_neg notLast]
  rcases measured with fits | covered
  · have word := (listed_entry_bounds tables pent member).2
    have exactEnd : pent.endSector = pent.extentEnd := by
      rw [end_sector_of_fits word fits, u32_of_lt (by rw [LAST_SECTOR] at ends; omega)]
    apply covered_le_max
    exact Or.inr ⟨pent, member, exactEnd ▸ le_even_up _⟩
  · exact covered_le_max covered

theorem words_suffice_of_covers (filled : ∃ pent ∈ entries, pent.size ≠ 0)
    (covers : CoversExtents entries (scannedRange image entries)) : WordsSuffice image entries := by
  have reached : scannedMax image entries ≠ LAST_SECTOR := by
    intro last
    obtain ⟨pent, member, notEmpty⟩ := filled
    have ends := (covers pent member notEmpty).2
    rw [scanned_range_max, if_pos last, XisoEntry.extentEnd, sectorCount] at ends
    omega
  have word := @scanned_max_lt image entries
  have below : scannedMax image entries < LAST_SECTOR := by
    rw [LAST_SECTOR] at reached ⊢
    omega
  obtain ⟨_, rootLe, entriesLe⟩ := (scanned_max_le_iff _).mp
    (Nat.le_refl (scannedMax image entries))
  refine ⟨(rootLe.trans_lt below).ne, ?_, ?_⟩
  · intro pent member
    exact ((entriesLe pent member).trans_lt below).ne
  · intro pent member notEmpty
    have ends := (covers pent member notEmpty).2
    rw [scanned_range_max, if_neg reached] at ends
    have limit : evenUp (scannedMax image entries) ≤ LAST_SECTOR := by
      rw [LAST_SECTOR] at below ⊢
      rw [evenUp]
      omega
    refine ⟨ends.trans limit, ?_⟩
    by_cases fits : pent.SizeFits
    · exact Or.inl fits
    · right
      rcases @scanned_max_cases image entries with floor | root | ⟨other, otherMember, last⟩
      · have large := large_extent_end fits
        rw [floor, evenUp] at ends
        omega
      · exact Or.inl (root ▸ ends)
      · exact Or.inr ⟨other, otherMember, last ▸ ends⟩

/-- `getDiskEnd` returns `TRUE` with a range that covers every extent exactly
when there is nothing to cover or 32-bit words measure the extents. -/
theorem disk_end_covers_extents_iff (tables : HasEntries image entries) :
    ∃ s, GetDiskEndReturns image true s ∧
      (CoversExtents entries s ↔
        (∀ pent ∈ entries, pent.size = 0) ∨ WordsSuffice image entries) := by
  refine ⟨scannedRange image entries, get_disk_end_returns tables, ?_⟩
  constructor
  · intro covers
    by_cases filled : ∃ pent ∈ entries, pent.size ≠ 0
    · exact Or.inr (words_suffice_of_covers filled covers)
    · push Not at filled
      exact Or.inl filled
  · intro condition
    rcases condition with empty | suffice
    · intro pent member notEmpty
      exact absurd (empty pent member) notEmpty
    · exact covers_of_words_suffice tables suffice

end Covers

/-! ## An image with one file -/

def oneFileTable (sector size : Nat) : Bytes :=
  [0, 0, 0, 0] ++ hostU32 sector ++ hostU32 size ++ [0x80, 1, 0x61, 0] ++
    fillBytes 0x7F0

def oneFileEntry (sector size : Nat) : XisoEntry := ⟨0, 0, sector, size, 0x80, 1, [0x61]⟩

theorem one_file_root_sector_lt : 0x21 < 0x100000000 := by decide

theorem one_file_root_size_lt : 0x800 < 0x100000000 := by decide

/-- The table at sector `0x21`, with `tail` bytes behind it. -/
def oneFileImage (sector size tail : Nat) : DiskImage where
  isoData := zeros 0x10800 ++ (oneFileTable sector size ++ zeros tail)
  baseOffset := 0
  rootDirSector := 0x21
  rootDirSize := 0x800
  rootDirSector_lt := one_file_root_sector_lt
  rootDirSize_lt := one_file_root_size_lt
  fails := fun _ => false

theorem one_file_table_length (sector size : Nat) : (oneFileTable sector size).length = 0x800 := by
  simp only [oneFileTable, hostU32, fillBytes, List.length_append, List.length_cons,
    List.length_nil, List.length_replicate]

theorem one_file_table_read (sector size tail : Nat) :
    (oneFileImage sector size tail).table 0x21 0x800 = some (oneFileTable sector size) := by
  have aligned : sectorAlign 0x800 = 0x800 := by decide
  have length := one_file_table_length sector size
  have found : slice (zeros 0x10800 ++ (oneFileTable sector size ++ zeros tail)) 0x10800 0x800 =
      oneFileTable sector size := by
    rw [slice_append_of_le _ _ (by rw [zeros_length]), zeros_length, Nat.sub_self, ← length,
      slice_append_left _ _ _ _ (by omega), slice_whole]
  have start : 0x21 * XGD_SECTOR_SIZE + 0 = 0x10800 := by decide
  simp only [DiskImage.table, oneFileImage, aligned, start, found]
  rw [if_neg (by simp), if_neg (by simp), if_neg (by simp), if_neg (by simp), if_pos]
  rw [List.length_append, List.length_append, zeros_length, length]
  omega

theorem one_file_entry_at {sector size : Nat} (sectorWord : sector < 0x100000000)
    (sizeWord : size < 0x100000000) :
    entryAt (oneFileTable sector size) 0 = oneFileEntry sector size := by
  have parts : entryAt (oneFileTable sector size) 0 =
      ⟨0, 0, getLe32 (hostU32 sector), getLe32 (hostU32 size), 0x80, 1, [0x61]⟩ := by
    simp [entryAt, oneFileTable, hostU32, slice, getLe16]
  rw [parts, get_le32_host_u32 sectorWord, get_le32_host_u32 sizeWord, oneFileEntry]

theorem one_file_has_entries {sector size : Nat} (tail : Nat) (sectorWord : sector < 0x100000000)
    (sizeWord : size < 0x100000000) :
    HasEntries (oneFileImage sector size tail) [oneFileEntry sector size] := by
  have read := one_file_table_read sector size tail
  have length := one_file_table_length sector size
  have entry := one_file_entry_at sectorWord sizeWord
  have last : Listed (oneFileImage sector size tail) 0x21 0x800 0x800 [] :=
    Listed.finish read length.le
  have fill : (entryAt (oneFileTable sector size) 0x10).isFill = true := by
    have first : slice (oneFileTable sector size) 0x10 2 = [0xFF, 0xFF] := by
      rw [oneFileTable, slice_append_of_le _ _ (by simp [hostU32])]
      exact slice_replicate 0xFF 0x7F0 0 2 (by decide)
    simp [XisoEntry.isFill, entryAt, first, getLe16]
  have rest : Listed (oneFileImage sector size tail) 0x21 0x800 0x10 [] :=
    Listed.fill read (by rw [length]; decide) fill last
  have next : nextEntry 0 (oneFileEntry sector size) = 0x10 := by
    simp [nextEntry, oneFileEntry, u32]
  have file : Listed (oneFileImage sector size tail) 0x21 0x800 0
      [entryAt (oneFileTable sector size) 0] := by
    apply Listed.leaf read
    · rw [length]
      decide
    · rw [entry]
      rfl
    · rw [entry, length, oneFileEntry]
      simp
    · rw [entry, oneFileEntry]
      simp
    · rw [entry]
      simp [oneFileEntry, XisoEntry.descends]
    · rw [entry, next]
      exact rest
  rwa [entry] at file
theorem one_file_holds_iff (sector size tail sectors : Nat) :
    (oneFileImage sector size tail).Holds sectors ↔ sectors * 0x800 ≤ 0x11000 + tail := by
  have length : (oneFileImage sector size tail).isoData.length = 0x11000 + tail := by
    rw [oneFileImage, List.length_append, List.length_append, zeros_length, zeros_length,
      one_file_table_length]
    omega
  rw [DiskImage.Holds, length, oneFileImage, XGD_SECTOR_SIZE, Nat.zero_add]

/-- A file of `0xFFFFFFFF` bytes is not covered. -/
theorem large_file_not_covered :
    ¬ ∀ (image : DiskImage) (entries : List XisoEntry), HasEntries image entries →
      ∀ s, GetDiskEndReturns image true s → CoversExtents entries s := by
  intro claimed
  have tables := one_file_has_entries 0 (by decide : 0x200 < 0x100000000)
    (by decide : 0xFFFFFFFF < 0x100000000)
  have covers := claimed _ _ tables _ (get_disk_end_returns tables)
    (oneFileEntry 0x200 0xFFFFFFFF) (by simp) (by decide)
  have ends := covers.2
  revert ends
  decide

theorem small_file_covered :
    ∃ s, GetDiskEndReturns (oneFileImage 0x22 5 0) true s ∧
      CoversExtents [oneFileEntry 0x22 5] s := by
  rcases disk_end_covers_extents_iff (one_file_has_entries 0 (by decide : 0x22 < 0x100000000)
    (by decide : 5 < 0x100000000)) with ⟨s, returns, covers⟩
  have words : WordsSuffice (oneFileImage 0x22 5 0) [oneFileEntry 0x22 5] := by
    refine ⟨by decide, ?_, ?_⟩
    · intro pent member
      rw [List.mem_singleton.mp member]
      decide
    · intro pent member _
      rw [List.mem_singleton.mp member]
      exact ⟨by decide, Or.inl (by decide)⟩
  exact ⟨s, returns, covers.mpr (Or.inr words)⟩

/-! ## The range in the image -/

structure ExtentsInImage (image : DiskImage) (entries : List XisoEntry) : Prop where
  volume : image.Holds (SVOD_START_SECTOR + 1)
  root : image.Holds (image.rootDirSector + sectorCount image.rootDirSize)
  extents : ∀ pent ∈ entries, image.Holds pent.extentEnd

/-- Some end that the scan notes is the last sector; rounding it up gives zero. -/
def LastSectorNoted (image : DiskImage) (entries : List XisoEntry) : Prop :=
  rootEnd image = LAST_SECTOR ∨ ∃ pent ∈ entries, pent.endSector = LAST_SECTOR

structure RoomBehind (image : DiskImage) (entries : List XisoEntry) : Prop where
  floor : image.Holds 0x108
  /-- The size of the root table in bytes counts as sectors. -/
  root : image.Holds (evenUp (rootEnd image))
  /-- An extent with an odd end has one more sector behind it. -/
  extents : ∀ pent ∈ entries, pent.SizeFits → pent.extentEnd ≤ LAST_SECTOR →
    pent.extentEnd % 2 = 1 → image.Holds (pent.extentEnd + 1)

section InImage

variable {image : DiskImage} {entries : List XisoEntry}

theorem scanned_max_last_iff :
    scannedMax image entries = LAST_SECTOR ↔ LastSectorNoted image entries := by
  obtain ⟨_, rootLe, entriesLe⟩ := (scanned_max_le_iff _).mp
    (Nat.le_refl (scannedMax image entries))
  have word := @scanned_max_lt image entries
  constructor
  · intro last
    rcases @scanned_max_cases image entries with floor | root | ⟨pent, member, ends⟩
    · rw [floor, LAST_SECTOR] at last
      omega
    · exact Or.inl (root.symm.trans last)
    · exact Or.inr ⟨pent, member, ends.symm.trans last⟩
  · intro noted
    rw [LAST_SECTOR]
    rcases noted with root | ⟨pent, member, last⟩
    · rw [root, LAST_SECTOR] at rootLe
      omega
    · have ends := entriesLe pent member
      rw [last, LAST_SECTOR] at ends
      omega

/-- Without a wrap the range lies in the image when its end does: a range that
is empty ends before the root table. -/
theorem range_in_image_iff_end (held : ExtentsInImage image entries)
    (notLast : scannedMax image entries ≠ LAST_SECTOR) :
    RangeInImage image (scannedRange image entries) ↔
      image.Holds (evenUp (scannedMax image entries)) := by
  have ends : (scannedRange image entries).maxSector = evenUp (scannedMax image entries) := by
    rw [scanned_range_max, if_neg notLast]
  have starts := (@scanned_range_min_le image entries).1
  constructor
  · intro inside
    rcases Nat.lt_or_ge (scannedRange image entries).minSector
      (evenUp (scannedMax image entries)) with nonempty | emptyRange
    · have last := inside (evenUp (scannedMax image entries) - 1) (by omega) (by omega)
      rwa [Nat.sub_add_cancel (by omega)] at last
    · exact image_holds_mono (by omega) held.root
  · intro holds sector _ before
    exact image_holds_mono (by omega) holds

theorem end_of_room_behind (tables : HasEntries image entries)
    (held : ExtentsInImage image entries) (room : RoomBehind image entries) :
    image.Holds (evenUp (scannedMax image entries)) := by
  rcases @scanned_max_cases image entries with floor | root | ⟨pent, member, last⟩
  · rw [floor]
    exact room.floor
  · rw [root]
    exact room.root
  · obtain ⟨sectorWord, sizeWord⟩ := listed_entry_bounds tables pent member
    have short := end_sector_le sectorWord sizeWord
    have word := end_sector_lt pent
    have inside := held.extents pent member
    rw [last, evenUp]
    rcases Nat.lt_or_ge pent.endSector pent.extentEnd with wrapped | exactEnd
    · exact image_holds_mono (by omega) inside
    · rcases Nat.mod_two_eq_zero_or_one pent.extentEnd with even | odd
      · exact image_holds_mono (by omega) inside
      · have fits : pent.SizeFits := by
          by_contra large
          have first := end_sector_of_not_fits sectorWord sizeWord large
          have count := large_extent_end large
          rw [XisoEntry.extentEnd, sectorCount] at exactEnd
          have limit : 0xFFFFF800 < pent.size := Nat.lt_of_not_le large
          omega
        have limit : pent.extentEnd ≤ LAST_SECTOR := by
          rw [LAST_SECTOR]
          omega
        exact image_holds_mono (by omega) (room.extents pent member fits limit odd)

theorem room_behind_of_end (tables : HasEntries image entries)
    (holds : image.Holds (evenUp (scannedMax image entries))) : RoomBehind image entries := by
  obtain ⟨floorLe, rootLe, entriesLe⟩ := (scanned_max_le_iff _).mp
    (Nat.le_refl (scannedMax image entries))
  refine ⟨?_, image_holds_mono (even_up_mono rootLe) holds, ?_⟩
  · exact image_holds_mono (floorLe.trans (le_even_up _)) holds
  · intro pent member fits limit odd
    have sizeWord := (listed_entry_bounds tables pent member).2
    have ends : pent.endSector = pent.extentEnd := by
      rw [end_sector_of_fits sizeWord fits, u32_of_lt (by rw [LAST_SECTOR] at limit; omega)]
    have reached := even_up_mono (entriesLe pent member)
    rw [ends] at reached
    have rounded : evenUp pent.extentEnd = pent.extentEnd + 1 := by
      rw [evenUp]
      omega
    exact image_holds_mono (rounded ▸ reached) holds

/-- For an image that holds its extents, the range of `getDiskEnd` lies in it
exactly when the image goes on far enough behind them, or when the end of the
range wraps to zero. -/
theorem disk_end_range_in_image_iff (tables : HasEntries image entries)
    (held : ExtentsInImage image entries) :
    ∃ s, GetDiskEndReturns image true s ∧
      (RangeInImage image s ↔ LastSectorNoted image entries ∨ RoomBehind image entries) := by
  refine ⟨scannedRange image entries, get_disk_end_returns tables, ?_⟩
  by_cases last : scannedMax image entries = LAST_SECTOR
  · have noted := scanned_max_last_iff.mp last
    have empty : RangeInImage image (scannedRange image entries) := by
      intro sector _ before
      rw [scanned_range_max, if_pos last] at before
      omega
    exact ⟨fun _ => Or.inl noted, fun _ => empty⟩
  · have notNoted : ¬ LastSectorNoted image entries := fun noted =>
      last (scanned_max_last_iff.mpr noted)
    rw [range_in_image_iff_end held last, or_iff_right notNoted]
    exact ⟨room_behind_of_end tables, end_of_room_behind tables held⟩

end InImage

theorem one_file_extents_in_image {tail : Nat} (room : 0x800 ≤ tail) :
    ExtentsInImage (oneFileImage 0x22 5 tail) [oneFileEntry 0x22 5] := by
  refine ⟨?_, ?_, ?_⟩
  · rw [one_file_holds_iff, SVOD_START_SECTOR, XGD_ISO_BASE_OFFSET, XGD_SECTOR_SIZE]
    omega
  · have root : (oneFileImage 0x22 5 tail).rootDirSector +
        sectorCount (oneFileImage 0x22 5 tail).rootDirSize = 0x22 := by
      simp [oneFileImage, sectorCount]
    rw [root, one_file_holds_iff]
    omega
  · intro pent member
    have last : pent.extentEnd = 0x23 := by
      rw [List.mem_singleton.mp member]
      rfl
    rw [last, one_file_holds_iff]
    omega

/-- The image ends behind its only file; the range goes on for the size of the
root table in bytes. -/
theorem short_image_overrun :
    ¬ ∀ (image : DiskImage) (entries : List XisoEntry), HasEntries image entries →
      ExtentsInImage image entries → ∀ s, GetDiskEndReturns image true s →
        RangeInImage image s := by
  intro claimed
  have tables := one_file_has_entries 0x800 (by decide : 0x22 < 0x100000000)
    (by decide : 5 < 0x100000000)
  have inside := claimed _ _ tables (one_file_extents_in_image (Nat.le_refl _)) _
    (get_disk_end_returns tables)
  have past := inside 0x23 (by decide) (by decide)
  rw [one_file_holds_iff] at past
  omega

theorem padded_image_range :
    ∃ s, GetDiskEndReturns (oneFileImage 0x22 5 0x401000) true s ∧
      RangeInImage (oneFileImage 0x22 5 0x401000) s := by
  rcases disk_end_range_in_image_iff (one_file_has_entries 0x401000 (by decide) (by decide))
    (one_file_extents_in_image (by decide)) with ⟨s, returns, inside⟩
  have room : RoomBehind (oneFileImage 0x22 5 0x401000) [oneFileEntry 0x22 5] := by
    refine ⟨?_, ?_, ?_⟩
    · rw [one_file_holds_iff]
      decide
    · rw [one_file_holds_iff]
      decide
    · intro pent member _ _ _
      rw [List.mem_singleton.mp member, one_file_holds_iff]
      decide
  exact ⟨s, returns, inside.mpr (Or.inr room)⟩

end XeBuild.Iso2svod
