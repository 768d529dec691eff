import XeBuild.Iso2svod.DefaultXex
import XeBuild.Iso2svod.ScanEnds

/-!
# Failing calls of the directory scan

Any call of any visit of a table can fail here, and two visits of one table can
differ. The loop does not look at what a nested visit returns, so `getDiskEnd`
reports only what happens to the root table.
-/

namespace XeBuild.Iso2svod

open Runs

set_option autoImplicit false

/-! ## Visits -/

/-- The calls that fail in each visit of a table. A visit is named by the offsets
of the directory entries that lead to it, the last one first. -/
abbrev FailurePattern := List Nat → ScanCall → Bool

def DiskImage.visited (image : DiskImage) (pattern : FailurePattern) (visit : List Nat) :
    DiskImage :=
  { image with fails := pattern visit }

def getMaxDirectoryVisit (image : DiskImage) (pattern : FailurePattern) :
    Nat → List Nat → Nat → Nat → DiskScan → Except ScanStop (Bool × DiskScan)
  | 0, _, _, _, _ => .error .roundsSpent
  | fuel + 1, visit, sector, size, s =>
      match (image.visited pattern visit).table sector size with
      | none => .ok (false, s)
      | some buf => do
          let s ← scanTable
            (fun currOff => getMaxDirectoryVisit image pattern fuel (currOff :: visit)) buf
            (fuel + 1) 0 s
          return (true, s)

def getDiskEndVisit (image : DiskImage) (pattern : FailurePattern) (fuel : Nat) :
    Except ScanStop (Bool × DiskScan) := do
  let (ret, s) ← getMaxDirectoryVisit image pattern fuel [] image.rootDirSector image.rootDirSize
    (diskScanStart image)
  return (ret, if ret then roundEnds s else s)

/-- `openIsoFile`, from the scan on. The calls of `dumpDefaultXex` fail on their own. -/
def openIsoFile (image : DiskImage) (pattern : FailurePattern) (dumpFails : ScanCall → Bool)
    (getXexInfoData : Bytes → Nat → Bool) (fuel : Nat) : Except ScanStop Bool := do
  let (ret, s) ← getDiskEndVisit image pattern fuel
  return if ret then dumpDefaultXex { image with fails := dumpFails } getXexInfoData s else false

/-- When a call fails in every visit or in none, a visit is a call of
`getMaxDirectory`. -/
theorem get_max_directory_visit_steady (image : DiskImage) (fuel : Nat) (visit : List Nat) :
    getMaxDirectoryVisit image (fun _ => image.fails) fuel visit = getMaxDirectory image fuel := by
  induction fuel generalizing visit with
  | zero => rfl
  | succ fuel ih =>
      funext sector size s
      have nested : (fun currOff =>
          getMaxDirectoryVisit image (fun _ => image.fails) fuel (currOff :: visit)) =
          fun _ => getMaxDirectory image fuel := by
        funext currOff
        exact ih (currOff :: visit)
      rw [getMaxDirectoryVisit, getMaxDirectory, nested]
      rfl

theorem get_disk_end_visit_steady (image : DiskImage) (fuel : Nat) :
    getDiskEndVisit image (fun _ => image.fails) fuel = getDiskEnd image fuel := by
  rw [getDiskEndVisit, getDiskEnd, get_max_directory_visit_steady]

/-! ## The places that the visits come to -/

inductive Visited (image : DiskImage) (pattern : FailurePattern) : List Nat → ScanPlace → Prop
  | root : Visited image pattern [] image.rootStart
  | fill {visit : List Nat} {place : ScanPlace} {buf : Bytes}
      (earlier : Visited image pattern visit place)
      (read : (image.visited pattern visit).tableOf place = some buf)
      (inside : place.currOff < buf.length)
      (isFill : (entryAt buf place.currOff).isFill = true) :
      Visited image pattern visit (place.moved (sectorAlign place.currOff))
  | entry {visit : List Nat} {place : ScanPlace} {buf : Bytes}
      (earlier : Visited image pattern visit place)
      (read : (image.visited pattern visit).tableOf place = some buf)
      (inside : place.currOff < buf.length)
      (isEntry : (entryAt buf place.currOff).isFill = false) :
      Visited image pattern visit
        (place.moved (nextEntry place.currOff (entryAt buf place.currOff)))
  | nested {visit : List Nat} {place : ScanPlace} {buf : Bytes}
      (earlier : Visited image pattern visit place)
      (read : (image.visited pattern visit).tableOf place = some buf)
      (inside : place.currOff < buf.length)
      (isEntry : (entryAt buf place.currOff).isFill = false)
      (isDirectory : (entryAt buf place.currOff).descends = true) :
      Visited image pattern (place.currOff :: visit) (entryAt buf place.currOff).tableStart

/-- The whole table of the place is read, and the loop from the place comes to
its end. -/
def TableScanned (image : DiskImage) (pattern : FailurePattern) (visit : List Nat)
    (place : ScanPlace) : Prop :=
  ∃ buf entries, (image.visited pattern visit).tableOf place = some buf ∧
    place.size ≤ buf.length ∧ LoopEnds buf place.currOff entries

def AllScanned (image : DiskImage) (pattern : FailurePattern) : Prop :=
  ∀ visit place, Visited image pattern visit place → TableScanned image pattern visit place

/-- `TRUE` is returned only when every table was read and scanned to its end. -/
structure FailuresReported (image : DiskImage) (pattern : FailurePattern) (fuel : Nat)
    (ret : Bool) : Prop where
  disk : ret = true → AllScanned image pattern
  file : ∀ dumpFails getXexInfoData,
    openIsoFile image pattern dumpFails getXexInfoData fuel = .ok true → AllScanned image pattern

section Visits

variable {image : DiskImage} {pattern : FailurePattern} {visit : List Nat} {place : ScanPlace}
  {buf : Bytes} {fuel rounds : Nat} {s last : DiskScan} {ret : Bool}

theorem visit_unread {sector size : Nat}
    (absent : (image.visited pattern visit).table sector size = none) :
    getMaxDirectoryVisit image pattern (fuel + 1) visit sector size s = .ok (false, s) := by
  rw [getMaxDirectoryVisit, absent]

theorem visit_read {sector size : Nat}
    (read : (image.visited pattern visit).table sector size = some buf) :
    getMaxDirectoryVisit image pattern (fuel + 1) visit sector size s =
      scanTable (fun currOff => getMaxDirectoryVisit image pattern fuel (currOff :: visit)) buf
          (fuel + 1) 0 s >>= fun last => .ok (true, last) := by
  rw [getMaxDirectoryVisit, read]
  rfl

theorem visit_result {sector size : Nat}
    (returned : getMaxDirectoryVisit image pattern fuel visit sector size s = .ok (ret, last)) :
    ret = ((image.visited pattern visit).table sector size).isSome := by
  cases fuel with
  | zero => cases returned
  | succ fuel =>
      cases read : (image.visited pattern visit).table sector size with
      | none =>
          rw [visit_unread read] at returned
          cases returned
          rfl
      | some buf =>
          rw [visit_read read, bind_ok_iff] at returned
          rcases returned with ⟨_, _, made⟩
          cases made
          rfl

def ScanReturns (image : DiskImage) (pattern : FailurePattern) (visit : List Nat)
    (place : ScanPlace) : Prop :=
  ∀ buf, (image.visited pattern visit).tableOf place = some buf → ∃ fuel rounds s last,
    scanTable (fun currOff => getMaxDirectoryVisit image pattern fuel (currOff :: visit)) buf rounds
      place.currOff s = .ok last

theorem scan_returns_of_call {sector size : Nat}
    (returned : getMaxDirectoryVisit image pattern fuel visit sector size s = .ok (ret, last)) :
    ScanReturns image pattern visit ⟨sector, size, 0⟩ := by
  intro buf read
  cases fuel with
  | zero => cases returned
  | succ fuel =>
      rw [visit_read read, bind_ok_iff] at returned
      rcases returned with ⟨between, scanned, _⟩
      exact ⟨fuel, fuel + 1, s, between, scanned⟩

/-- Behind an entry the loop goes on, and a nested call has returned. -/
theorem scan_returns_entry (scans : ScanReturns image pattern visit place)
    (read : (image.visited pattern visit).tableOf place = some buf)
    (inside : place.currOff < buf.length)
    (isEntry : (entryAt buf place.currOff).isFill = false) :
    ScanReturns image pattern visit
        (place.moved (nextEntry place.currOff (entryAt buf place.currOff))) ∧
      ((entryAt buf place.currOff).descends = true →
        ScanReturns image pattern (place.currOff :: visit)
          (entryAt buf place.currOff).tableStart) := by
  rcases scans buf read with ⟨fuel, rounds, s, last, scanned⟩
  cases rounds with
  | zero => cases scanned
  | succ rounds =>
      by_cases overflows : NameOverflows buf place.currOff
      · rcases @scan_table_overflow _ buf rounds _ s inside isEntry overflows with
          ⟨fault, stopped, _⟩
        rw [stopped] at scanned
        cases scanned
      cases descends : (entryAt buf place.currOff).descends with
      | false =>
          rw [scan_table_leaf inside isEntry overflows descends] at scanned
          refine ⟨?_, fun isDirectory => absurd isDirectory Bool.false_ne_true⟩
          intro other otherRead
          cases read.symm.trans otherRead
          exact ⟨fuel, rounds, _, last, scanned⟩
      | true =>
          rw [scan_table_directory inside isEntry overflows descends, bind_ok_iff] at scanned
          rcases scanned with ⟨⟨ret, between⟩, call, scanned⟩
          refine ⟨?_, fun _ => scan_returns_of_call call⟩
          intro other otherRead
          cases read.symm.trans otherRead
          exact ⟨fuel, rounds, _, last, scanned⟩

theorem visited_scan_returns
    (returned : getMaxDirectoryVisit image pattern fuel [] image.rootDirSector image.rootDirSize s =
      .ok (ret, last))
    (reached : Visited image pattern visit place) : ScanReturns image pattern visit place := by
  induction reached with
  | root => exact scan_returns_of_call returned
  | fill _ read inside isFill ih =>
      intro buf again
      cases read.symm.trans again
      rcases ih _ read with ⟨fuel, rounds, s, last, scanned⟩
      cases rounds with
      | zero => cases scanned
      | succ rounds =>
          rw [scan_table_fill inside isFill] at scanned
          exact ⟨fuel, rounds, s, last, scanned⟩
  | entry _ read inside isEntry ih => exact (scan_returns_entry ih read inside isEntry).1
  | nested _ read inside isEntry isDirectory ih =>
      exact (scan_returns_entry ih read inside isEntry).2 isDirectory

/-! ## Sizes -/

theorem visited_size_lt (reached : Visited image pattern visit place) :
    place.size < 0x100000000 := by
  induction reached with
  | root => exact image.rootDirSize_lt
  | fill _ _ _ _ ih => exact ih
  | entry _ _ _ _ ih => exact ih
  | nested => exact entry_size_lt _ _

theorem table_length {sector size : Nat} (read : image.table sector size = some buf) :
    buf.length = sectorAlign size := by
  rw [DiskImage.table] at read
  split_ifs at read with seek none alloc get inside
  · cases read
    exact none.symm
  · cases read
    rw [ListRange.slice_length_of_le inside]

/-- A table is read whole unless its size cannot be rounded up in a word. -/
theorem whole_table_iff (word : place.size < 0x100000000)
    (read : (image.visited pattern visit).tableOf place = some buf) :
    place.size ≤ buf.length ↔ place.size ≤ 0xFFFFF800 := by
  rw [table_length read, sectorAlign, u32]
  omega

def AllReadable (image : DiskImage) (pattern : FailurePattern) : Prop :=
  ∀ visit place, Visited image pattern visit place →
    place.size ≤ 0xFFFFF800 ∧ (image.visited pattern visit).tableOf place ≠ none

theorem all_scanned_iff
    (returned : getMaxDirectoryVisit image pattern fuel [] image.rootDirSector image.rootDirSize s =
      .ok (ret, last)) :
    AllScanned image pattern ↔ AllReadable image pattern := by
  constructor
  · intro scanned visit place reached
    rcases scanned visit place reached with ⟨buf, entries, read, whole, _⟩
    refine ⟨(whole_table_iff (visited_size_lt reached) read).mp whole, ?_⟩
    rw [read]
    simp
  · intro readable visit place reached
    rcases readable visit place reached with ⟨small, found⟩
    rcases Option.ne_none_iff_exists'.mp found with ⟨buf, read⟩
    rcases visited_scan_returns returned reached buf read with ⟨_, rounds, _, _, scanned⟩
    rcases loop_of_scan_table scanned with ⟨entries, loop⟩
    exact ⟨buf, entries, read, (whole_table_iff (visited_size_lt reached) read).mpr small,
      rounds, loop⟩

/-- Of a run that returns, the result tells of every table exactly when the root
table cannot be read or every table that the visits come to can. -/
theorem disk_end_reports_failures_iff
    (returned : getDiskEndVisit image pattern fuel = .ok (ret, s)) :
    FailuresReported image pattern fuel ret ↔
      (image.visited pattern []).tableOf image.rootStart = none ∨ AllReadable image pattern := by
  have run := returned
  rw [getDiskEndVisit, bind_ok_iff] at run
  rcases run with ⟨⟨result, reached⟩, call, made⟩
  cases made
  have result := visit_result call
  constructor
  · intro reported
    cases read : (image.visited pattern []).tableOf image.rootStart with
    | none => exact Or.inl rfl
    | some buf =>
        apply Or.inr
        apply (all_scanned_iff call).mp
        apply reported.disk
        rw [result]
        exact Option.isSome_iff_exists.mpr ⟨buf, read⟩
  · intro condition
    have scanned : ret = true → AllScanned image pattern := by
      intro success
      rcases condition with absent | readable
      · have unread : (image.visited pattern []).table image.rootDirSector image.rootDirSize =
            none := absent
        rw [result, unread] at success
        cases success
      · exact (all_scanned_iff call).mpr readable
    refine ⟨scanned, ?_⟩
    intro dumpFails getXexInfoData opened
    rw [openIsoFile, returned, ok_bind] at opened
    apply scanned
    by_contra failed
    simp [failed, pure, Except.pure] at opened

end Visits

/-! ## A nested call that fails -/

def nestedFile : StoredEntry := storedPlain 0x30 5 0x80 shortName small_file_words short_name_named

def nestedImage : DiskImage :=
  sectorsImage [oneEntrySector subDirectory, oneEntrySector nestedFile]

/-- Every call fails, but for those of the root table. -/
def nestedFails : FailurePattern := fun visit _ => !visit.isEmpty

theorem nested_root_read :
    (nestedImage.visited nestedFails []).table nestedImage.rootDirSector nestedImage.rootDirSize =
      some (oneEntrySector subDirectory).bytes :=
  sectors_image_table [] (oneEntrySector subDirectory) _

theorem nested_table_unread :
    (nestedImage.visited nestedFails [0]).table 1 0x800 = none := by
  rw [DiskImage.table]
  exact if_pos rfl

/-- The directory is noted, and the run goes on without its table. -/
theorem nested_run :
    getDiskEndVisit nestedImage nestedFails 4 =
      .ok (true, roundEnds (noteEntry (diskScanStart nestedImage) subDirectory.entry)) := by
  have below : getMaxDirectoryVisit nestedImage nestedFails 3 [0] subDirectory.entry.sector
      subDirectory.entry.size (noteEntry (diskScanStart nestedImage) subDirectory.entry) =
      .ok (false, noteEntry (diskScanStart nestedImage) subDirectory.entry) :=
    visit_unread nested_table_unread
  have scan := one_entry_directory subDirectory (by decide) rfl
    (fun currOff => getMaxDirectoryVisit nestedImage nestedFails 3 [currOff]) 1
    (diskScanStart nestedImage)
  rw [below, ok_bind] at scan
  rw [getDiskEndVisit, visit_read nested_root_read, scan]
  rfl

theorem nested_table_visited {pattern : FailurePattern}
    (rootRead : (nestedImage.visited pattern []).tableOf nestedImage.rootStart =
      some (oneEntrySector subDirectory).bytes) :
    Visited nestedImage pattern [0] ⟨1, 0x800, 0⟩ := by
  have entry := one_entry_at subDirectory
  have inside := one_entry_inside subDirectory
  have isEntry := one_entry_is_entry subDirectory
  have descends : (entryAt (oneEntrySector subDirectory).bytes 0).descends = true := by
    rw [entry]
    rfl
  have start : (entryAt (oneEntrySector subDirectory).bytes 0).tableStart = ⟨1, 0x800, 0⟩ := by
    rw [entry]
    rfl
  rw [← start]
  exact Visited.nested Visited.root rootRead inside isEntry descends

/-- The nested table cannot be read, and `TRUE` is returned. -/
theorem nested_failure_unreported :
    ¬ ∀ (image : DiskImage) (pattern : FailurePattern) (fuel : Nat) (ret : Bool) (s : DiskScan),
      getDiskEndVisit image pattern fuel = .ok (ret, s) →
        FailuresReported image pattern fuel ret := by
  intro claimed
  have reported := claimed _ _ _ _ _ nested_run
  rcases reported.disk rfl _ _ (nested_table_visited nested_root_read) with ⟨buf, _, read, _⟩
  rw [DiskImage.tableOf, nested_table_unread] at read
  cases read

def calmPattern : FailurePattern := fun _ _ => false

theorem nested_run_calm : ∃ s, getDiskEndVisit nestedImage calmPattern 4 = .ok (true, s) := by
  have returned : (getDiskEndVisit nestedImage calmPattern 4).map Prod.fst = .ok true := by
    decide +kernel
  cases run : getDiskEndVisit nestedImage calmPattern 4 with
  | error stop =>
      rw [run] at returned
      cases returned
  | ok result =>
      rw [run] at returned
      rcases result with ⟨ret, s⟩
      cases returned
      exact ⟨s, rfl⟩

structure NestedPlace (place : ScanPlace) : Prop where
  size : place.size = 0x800
  sector : place.sector = 0 ∨ place.sector = 1
  offset : place.currOff = 0 ∨ place.currOff = 0x10 ∨ place.currOff = 0x800

theorem nested_place_found {visit : List Nat} {place : ScanPlace} {buf : Bytes}
    (known : NestedPlace place)
    (read : (nestedImage.visited calmPattern visit).tableOf place = some buf)
    (inside : place.currOff < buf.length) :
    ((entryAt buf place.currOff).isFill = true ∧ sectorAlign place.currOff = 0x800) ∨
      ((entryAt buf place.currOff).isFill = false ∧
        nextEntry place.currOff (entryAt buf place.currOff) = 0x10 ∧
        ((entryAt buf place.currOff).descends = true →
          (entryAt buf place.currOff).tableStart = ⟨1, 0x800, 0⟩)) := by
  have table : ∃ stored ∈ [subDirectory, nestedFile], buf = (oneEntrySector stored).bytes := by
    rw [DiskImage.tableOf, known.size] at read
    rcases known.sector with root | below
    · rw [root] at read
      have found := sectors_image_table [] (oneEntrySector subDirectory) [oneEntrySector nestedFile]
      exact ⟨subDirectory, List.mem_cons_self, Option.some.inj (read.symm.trans found)⟩
    · rw [below] at read
      have found := sectors_image_table [oneEntrySector subDirectory] (oneEntrySector nestedFile) []
      exact ⟨nestedFile, by simp, Option.some.inj (read.symm.trans found)⟩
  rcases table with ⟨stored, member, rfl⟩
  rw [sector_bytes_length] at inside
  rcases known.offset with first | second | last
  · rw [first]
    refine Or.inr ⟨one_entry_is_entry stored, ?_⟩
    rw [one_entry_at]
    rcases List.mem_pair.mp member with rfl | rfl
    · decide
    · decide
  · rw [second]
    refine Or.inl ⟨?_, by decide⟩
    rcases List.mem_pair.mp member with rfl | rfl
    · decide +kernel
    · decide +kernel
  · omega

theorem nested_visited {visit : List Nat} {place : ScanPlace}
    (reached : Visited nestedImage calmPattern visit place) : NestedPlace place := by
  induction reached with
  | root => exact ⟨rfl, Or.inl rfl, Or.inl rfl⟩
  | fill _ read inside isFill ih =>
      rcases nested_place_found ih read inside with fill | entry
      · exact ⟨ih.size, ih.sector, Or.inr (Or.inr fill.2)⟩
      · rw [isFill] at entry
        exact absurd entry.1 (by decide)
  | entry _ read inside isEntry ih =>
      rcases nested_place_found ih read inside with fill | entry
      · rw [isEntry] at fill
        exact absurd fill.1 (by decide)
      · exact ⟨ih.size, ih.sector, Or.inr (Or.inl entry.2.1)⟩
  | nested _ read inside isEntry isDirectory ih =>
      rcases nested_place_found ih read inside with fill | entry
      · rw [isEntry] at fill
        exact absurd fill.1 (by decide)
      · rw [entry.2.2 isDirectory]
        exact ⟨rfl, Or.inr rfl, Or.inl rfl⟩

theorem nested_all_readable : AllReadable nestedImage calmPattern := by
  intro visit place reached
  have known := nested_visited reached
  refine ⟨by rw [known.size]; decide, ?_⟩
  rw [DiskImage.tableOf, known.size]
  rcases known.sector with root | below
  · have found := sectors_image_table [] (oneEntrySector subDirectory) [oneEntrySector nestedFile]
    rw [root]
    exact fun absent => Option.some_ne_none _ (found.symm.trans absent)
  · have found := sectors_image_table [oneEntrySector subDirectory] (oneEntrySector nestedFile) []
    rw [below]
    exact fun absent => Option.some_ne_none _ (found.symm.trans absent)

/-- A run whose calls succeed comes to both tables. -/
theorem calm_run_reported :
    (∃ s, getDiskEndVisit nestedImage calmPattern 4 = .ok (true, s)) ∧
      FailuresReported nestedImage calmPattern 4 true ∧
      Visited nestedImage calmPattern [0] ⟨1, 0x800, 0⟩ := by
  rcases nested_run_calm with ⟨s, run⟩
  refine ⟨⟨s, run⟩, (disk_end_reports_failures_iff run).mpr (Or.inr nested_all_readable), ?_⟩
  exact nested_table_visited (sectors_image_table [] (oneEntrySector subDirectory) _)

end XeBuild.Iso2svod
