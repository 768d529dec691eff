import XeBuild.Iso2svod.DirectoryScan
import XeBuild.Lib.Runs

/-!
# Runs of the directory scan

The places that the scan comes to and the places that follow each of them. A
finite tree of places is what a returning run walks; a table that cannot be read
is a leaf of it. `getDiskEnd` returns exactly when there is such a tree, and
leaves the fold over its entries.
-/

namespace XeBuild.Iso2svod

open ListRange Runs

set_option autoImplicit false

structure ScanPlace where
  sector : Nat
  size : Nat
  currOff : Nat
  deriving DecidableEq

def ScanPlace.moved (place : ScanPlace) (currOff : Nat) : ScanPlace :=
  ⟨place.sector, place.size, currOff⟩

def XisoEntry.tableStart (pent : XisoEntry) : ScanPlace := ⟨pent.sector, pent.size, 0⟩

def DiskImage.rootStart (image : DiskImage) : ScanPlace :=
  ⟨image.rootDirSector, image.rootDirSize, 0⟩

def DiskImage.tableOf (image : DiskImage) (place : ScanPlace) : Option Bytes :=
  image.table place.sector place.size

/-- The name of the entry leaves `temOutName` or the table. -/
def NameOverflows (buf : Bytes) (currOff : Nat) : Prop :=
  buf.length < currOff + 0xE + (entryAt buf currOff).nameSz ∨ 128 < (entryAt buf currOff).nameSz

/-- A derivation is a finite tree of places, in the order of the scan. A table
that cannot be read adds nothing. -/
inductive Scanned (image : DiskImage) : ScanPlace → List XisoEntry → Prop
  | unread {place : ScanPlace} (absent : image.tableOf place = none) : Scanned image place []
  | finish {place : ScanPlace} {buf : Bytes} (read : image.tableOf place = some buf)
      (past : buf.length ≤ place.currOff) : Scanned image place []
  | fill {place : ScanPlace} {buf : Bytes} {entries : List XisoEntry}
      (read : image.tableOf place = some buf) (inside : place.currOff < buf.length)
      (isFill : (entryAt buf place.currOff).isFill = true)
      (rest : Scanned image (place.moved (sectorAlign place.currOff)) entries) :
      Scanned image place entries
  | leaf {place : ScanPlace} {buf : Bytes} {entries : List XisoEntry}
      (read : image.tableOf place = some buf) (inside : place.currOff < buf.length)
      (isEntry : (entryAt buf place.currOff).isFill = false)
      (fits : ¬ NameOverflows buf place.currOff)
      (isLeaf : (entryAt buf place.currOff).descends = false)
      (rest : Scanned image
        (place.moved (nextEntry place.currOff (entryAt buf place.currOff))) entries) :
      Scanned image place (entryAt buf place.currOff :: entries)
  | directory {place : ScanPlace} {buf : Bytes} {below entries : List XisoEntry}
      (read : image.tableOf place = some buf) (inside : place.currOff < buf.length)
      (isEntry : (entryAt buf place.currOff).isFill = false)
      (fits : ¬ NameOverflows buf place.currOff)
      (isDirectory : (entryAt buf place.currOff).descends = true)
      (nested : Scanned image (entryAt buf place.currOff).tableStart below)
      (rest : Scanned image
        (place.moved (nextEntry place.currOff (entryAt buf place.currOff))) entries) :
      Scanned image place (entryAt buf place.currOff :: (below ++ entries))

theorem note_entry_directory {pent : XisoEntry} (descends : pent.descends = true) (s : DiskScan) :
    noteEntry s pent = noteSectors pent s := by
  have directory : pent.entType / 0x10 % 2 = 1 := by
    simp only [XisoEntry.descends, Bool.and_eq_true, beq_iff_eq] at descends
    exact descends.1
  rw [noteEntry, noteDefaultXex, if_neg (by omega)]

/-! ## One round of the loop -/

section Round

variable {descend : Descend} {buf : Bytes} {rounds currOff : Nat} {s : DiskScan}

theorem scan_table_past (past : buf.length ≤ currOff) :
    scanTable descend buf (rounds + 1) currOff s = .ok s := by
  rw [scanTable, if_neg (Nat.not_lt.mpr past)]

theorem scan_table_fill (inside : currOff < buf.length)
    (isFill : (entryAt buf currOff).isFill = true) :
    scanTable descend buf (rounds + 1) currOff s =
      scanTable descend buf rounds (sectorAlign currOff) s := by
  rw [scanTable, if_pos inside]
  simp only [if_pos isFill]

theorem scan_table_overflow (inside : currOff < buf.length)
    (isEntry : (entryAt buf currOff).isFill = false) (overflows : NameOverflows buf currOff) :
    ∃ fault, scanTable descend buf (rounds + 1) currOff s = .error fault ∧
      fault ≠ .roundsSpent := by
  rw [scanTable, if_pos inside]
  simp only [isEntry, Bool.false_eq_true, if_false]
  by_cases load : buf.length < currOff + 0xE + (entryAt buf currOff).nameSz
  · rw [if_pos load]
    exact ⟨_, rfl, by simp⟩
  · rw [if_neg load, if_pos (overflows.resolve_left load)]
    exact ⟨_, rfl, by simp⟩

theorem scan_table_leaf (inside : currOff < buf.length)
    (isEntry : (entryAt buf currOff).isFill = false) (fits : ¬ NameOverflows buf currOff)
    (isLeaf : (entryAt buf currOff).descends = false) :
    scanTable descend buf (rounds + 1) currOff s =
      scanTable descend buf rounds (nextEntry currOff (entryAt buf currOff))
        (noteEntry s (entryAt buf currOff)) := by
  rcases not_or.mp fits with ⟨load, store⟩
  rw [scanTable, if_pos inside]
  simp only [isEntry, Bool.false_eq_true, if_false, if_neg load, if_neg store, isLeaf]

theorem scan_table_directory (inside : currOff < buf.length)
    (isEntry : (entryAt buf currOff).isFill = false) (fits : ¬ NameOverflows buf currOff)
    (isDirectory : (entryAt buf currOff).descends = true) :
    scanTable descend buf (rounds + 1) currOff s =
      descend currOff (entryAt buf currOff).sector (entryAt buf currOff).size
          (noteEntry s (entryAt buf currOff)) >>= fun returned =>
        scanTable descend buf rounds (nextEntry currOff (entryAt buf currOff)) returned.2 := by
  rcases not_or.mp fits with ⟨load, store⟩
  rw [scanTable, if_pos inside, note_entry_directory isDirectory]
  simp only [isEntry, Bool.false_eq_true, if_false, if_neg load, if_neg store, isDirectory,
    if_true]

end Round

/-! ## Returning runs -/

section Runs

variable {image : DiskImage} {place : ScanPlace} {entries : List XisoEntry}

theorem get_max_directory_unread {sector size fuel : Nat}
    (absent : image.table sector size = none) (s : DiskScan) :
    getMaxDirectory image (fuel + 1) sector size s = .ok (false, s) := by
  rw [getMaxDirectory, absent]

theorem get_max_directory_read {sector size fuel : Nat} {buf : Bytes}
    (read : image.table sector size = some buf) (s : DiskScan) :
    getMaxDirectory image (fuel + 1) sector size s =
      scanTable (fun _ => getMaxDirectory image fuel) buf (fuel + 1) 0 s >>= fun last =>
        .ok (true, last) := by
  rw [getMaxDirectory, read]
  rfl

def Walks (image : DiskImage) (place : ScanPlace) (s last : DiskScan) : Prop :=
  ∃ entries, Scanned image place entries ∧ last = entries.foldl noteEntry s

theorem scan_table_walks {fuel : Nat}
    (nested : ∀ sector size s ret last, getMaxDirectory image fuel sector size s = .ok (ret, last) →
      Walks image ⟨sector, size, 0⟩ s last) {buf : Bytes} {rounds : Nat} {s last : DiskScan}
    (read : image.tableOf place = some buf)
    (scanned :
      scanTable (fun _ => getMaxDirectory image fuel) buf rounds place.currOff s = .ok last) :
    Walks image place s last := by
  induction rounds generalizing place s with
  | zero => cases scanned
  | succ rounds ih =>
      by_cases inside : place.currOff < buf.length
      · cases isFill : (entryAt buf place.currOff).isFill with
        | true =>
            rw [scan_table_fill inside isFill] at scanned
            rcases @ih (place.moved (sectorAlign place.currOff)) s read scanned with
              ⟨entries, rest, result⟩
            exact ⟨entries, Scanned.fill read inside isFill rest, result⟩
        | false =>
            by_cases overflows : NameOverflows buf place.currOff
            · rcases @scan_table_overflow (fun _ => getMaxDirectory image fuel) buf rounds _ s inside
                isFill overflows with ⟨fault, stopped, _⟩
              rw [stopped] at scanned
              cases scanned
            cases descends : (entryAt buf place.currOff).descends with
            | false =>
                rw [scan_table_leaf inside isFill overflows descends] at scanned
                rcases @ih (place.moved (nextEntry place.currOff (entryAt buf place.currOff))) _
                  read scanned with ⟨entries, rest, result⟩
                exact ⟨_, Scanned.leaf read inside isFill overflows descends rest, result⟩
            | true =>
                rw [scan_table_directory inside isFill overflows descends, bind_ok_iff] at scanned
                rcases scanned with ⟨⟨ret, between⟩, call, scanned⟩
                rcases nested _ _ _ _ _ call with ⟨below, tree, rfl⟩
                rcases @ih (place.moved (nextEntry place.currOff (entryAt buf place.currOff))) _
                  read scanned with ⟨entries, rest, result⟩
                refine ⟨_, Scanned.directory read inside isFill overflows descends tree rest, ?_⟩
                rw [List.foldl_cons, List.foldl_append]
                exact result
      · rw [scan_table_past (Nat.not_lt.mp inside)] at scanned
        cases scanned
        exact ⟨[], Scanned.finish read (Nat.not_lt.mp inside), rfl⟩

theorem get_max_directory_walks {fuel sector size : Nat} {s last : DiskScan} {ret : Bool}
    (returned : getMaxDirectory image fuel sector size s = .ok (ret, last)) :
    Walks image ⟨sector, size, 0⟩ s last ∧ ret = (image.table sector size).isSome := by
  induction fuel generalizing sector size s last ret with
  | zero => cases returned
  | succ fuel ih =>
      cases read : image.table sector size with
      | none =>
          rw [get_max_directory_unread read] at returned
          cases returned
          exact ⟨⟨[], Scanned.unread read, rfl⟩, rfl⟩
      | some buf =>
          rw [get_max_directory_read read, bind_ok_iff] at returned
          rcases returned with ⟨reached, scanned, made⟩
          cases made
          refine ⟨?_, rfl⟩
          exact @scan_table_walks image ⟨sector, size, 0⟩ fuel
            (fun _ _ _ _ _ call => (ih call).1) buf (fuel + 1) s last read scanned

theorem scanned_unread (tree : Scanned image place entries) (absent : image.tableOf place = none) :
    entries = [] := by
  cases tree with
  | unread => rfl
  | finish => rfl
  | fill read => exact absurd (read.symm.trans absent) (by simp)
  | leaf read => exact absurd (read.symm.trans absent) (by simp)
  | directory read => exact absurd (read.symm.trans absent) (by simp)

/-- The call for a directory, once its table is scanned with these rounds. -/
theorem nested_call_runs {ent : XisoEntry} {below : List XisoEntry} {fuel : Nat}
    (nestedTree : Scanned image ent.tableStart below)
    (scanned : ∀ table, image.tableOf ent.tableStart = some table → ∀ s,
      scanTable (fun _ => getMaxDirectory image fuel) table (fuel + 1) ent.tableStart.currOff s =
        .ok (below.foldl noteEntry s)) (s : DiskScan) :
    ∃ ret, getMaxDirectory image (fuel + 1) ent.sector ent.size s =
      .ok (ret, below.foldl noteEntry s) := by
  cases nestedRead : image.table ent.sector ent.size with
  | some nestedBuf =>
      have nestedScan := scanned nestedBuf nestedRead s
      simp only [XisoEntry.tableStart] at nestedScan
      refine ⟨true, ?_⟩
      rw [get_max_directory_read nestedRead, nestedScan, ok_bind]
  | none =>
      refine ⟨false, ?_⟩
      rw [get_max_directory_unread nestedRead, scanned_unread nestedTree nestedRead,
        List.foldl_nil]

/-- With enough rounds the scan from a place is the fold over its tree. The
induction is on the tree; a nested table needs its own rounds. -/
theorem scanned_runs (tree : Scanned image place entries) :
    ∃ needed, ∀ fuel rounds, needed ≤ fuel → needed ≤ rounds → ∀ buf,
      image.tableOf place = some buf → ∀ s,
        scanTable (fun _ => getMaxDirectory image fuel) buf rounds place.currOff s =
          .ok (entries.foldl noteEntry s) := by
  induction tree with
  | unread absent =>
      refine ⟨0, ?_⟩
      intro fuel rounds _ _ buf found
      rw [absent] at found
      cases found
  | finish read past =>
      refine ⟨1, ?_⟩
      intro fuel rounds _ enough buf found s
      rcases Nat.exists_eq_add_of_le' enough with ⟨rounds, rfl⟩
      cases found.symm.trans read
      exact scan_table_past past
  | fill read inside isFill _ ih =>
      rcases ih with ⟨needed, scanned⟩
      refine ⟨needed + 1, ?_⟩
      intro fuel rounds deep enough buf found s
      rcases Nat.exists_eq_add_of_le' (Nat.one_le_of_lt enough) with ⟨rounds, rfl⟩
      cases found.symm.trans read
      rw [scan_table_fill inside isFill]
      exact scanned fuel rounds (by omega) (by omega) _ read s
  | leaf read inside isEntry fits isLeaf _ ih =>
      rcases ih with ⟨needed, scanned⟩
      refine ⟨needed + 1, ?_⟩
      intro fuel rounds deep enough buf found s
      rcases Nat.exists_eq_add_of_le' (Nat.one_le_of_lt enough) with ⟨rounds, rfl⟩
      cases found.symm.trans read
      rw [scan_table_leaf inside isEntry fits isLeaf]
      exact scanned fuel rounds (by omega) (by omega) _ read _
  | @directory place buf below entries read inside isEntry fits isDirectory nestedTree _ nestedIh
      restIh =>
      rcases restIh with ⟨needed, scanned⟩
      rcases nestedIh with ⟨neededBelow, scannedBelow⟩
      refine ⟨max needed neededBelow + 2, ?_⟩
      intro fuel rounds deep enough table found s
      rcases Nat.exists_eq_add_of_le' (Nat.one_le_of_lt enough) with ⟨rounds, rfl⟩
      rcases Nat.exists_eq_add_of_le' (Nat.one_le_of_lt deep) with ⟨fuel, rfl⟩
      cases found.symm.trans read
      have call := nested_call_runs nestedTree
        (fun table found s => scannedBelow fuel (fuel + 1) (by omega) (by omega) table found s)
        (noteEntry s (entryAt buf place.currOff))
      rcases call with ⟨ret, call⟩
      rw [scan_table_directory inside isEntry fits isDirectory, call, ok_bind, List.foldl_cons,
        List.foldl_append]
      exact scanned (fuel + 1) rounds (by omega) (by omega) _ read _

theorem scanned_of_listed {sector size currOff : Nat}
    (listed : Listed image sector size currOff entries) :
    Scanned image ⟨sector, size, currOff⟩ entries := by
  induction listed with
  | finish read past => exact Scanned.finish read past
  | @fill _ _ _ _ _ read inside isFill _ ih =>
      exact @Scanned.fill image ⟨_, _, _⟩ _ _ read inside isFill ih
  | @leaf _ _ _ _ _ read inside isEntry whole named isLeaf _ ih =>
      apply @Scanned.leaf image ⟨_, _, _⟩ _ _ read inside isEntry _ isLeaf ih
      exact not_or.mpr ⟨Nat.not_lt.mpr whole, Nat.not_lt.mpr named⟩
  | @directory _ _ _ _ _ _ read inside isEntry whole named isDirectory _ _ nested ih =>
      apply @Scanned.directory image ⟨_, _, _⟩ _ _ _ read inside isEntry _ isDirectory nested ih
      exact not_or.mpr ⟨Nat.not_lt.mpr whole, Nat.not_lt.mpr named⟩

/-- A call with enough rounds leaves the fold over the tree of its table. -/
theorem get_max_directory_scanned {sector size : Nat}
    (tree : Scanned image ⟨sector, size, 0⟩ entries) :
    ∃ needed, ∀ fuel, needed ≤ fuel → ∀ s,
      getMaxDirectory image fuel sector size s =
        .ok ((image.table sector size).isSome, entries.foldl noteEntry s) := by
  rcases scanned_runs tree with ⟨needed, scanned⟩
  refine ⟨needed + 1, ?_⟩
  intro fuel enough s
  rcases Nat.exists_eq_add_of_le' (Nat.one_le_of_lt enough) with ⟨fuel, rfl⟩
  cases read : image.table sector size with
  | none =>
      rw [get_max_directory_unread read, scanned_unread tree read]
      rfl
  | some buf =>
      rw [get_max_directory_read read]
      have scan := scanned fuel (fuel + 1) (by omega) (by omega) buf read s
      simp only at scan
      rw [scan]
      rfl

def scanResult (image : DiskImage) (entries : List XisoEntry) : DiskScan :=
  if (image.tableOf image.rootStart).isSome then
    roundEnds (entries.foldl noteEntry (diskScanStart image))
  else entries.foldl noteEntry (diskScanStart image)

theorem get_disk_end_of_scanned (tree : Scanned image image.rootStart entries) :
    GetDiskEndReturns image (image.tableOf image.rootStart).isSome (scanResult image entries) := by
  rcases get_max_directory_scanned tree with ⟨needed, call⟩
  refine ⟨needed, ?_⟩
  intro fuel enough
  rw [getDiskEnd, call fuel enough, ok_bind]
  rfl

theorem get_disk_end_unique {first second : Bool} {left right : DiskScan}
    (one : GetDiskEndReturns image first left) (other : GetDiskEndReturns image second right) :
    first = second ∧ left = right := by
  rcases one with ⟨neededOne, one⟩
  rcases other with ⟨neededOther, other⟩
  have same := (one (max neededOne neededOther) (Nat.le_max_left _ _)).symm.trans
    (other (max neededOne neededOther) (Nat.le_max_right _ _))
  simpa using same

/-- The function returns exactly when there is a finite tree of places. -/
theorem get_disk_end_returns_iff (image : DiskImage) (ret : Bool) (s : DiskScan) :
    GetDiskEndReturns image ret s ↔ ∃ entries, Scanned image image.rootStart entries ∧
      ret = (image.tableOf image.rootStart).isSome ∧ s = scanResult image entries := by
  constructor
  · intro returns
    have whole := returns
    rcases returns with ⟨needed, returned⟩
    have call := returned needed (Nat.le_refl _)
    rw [getDiskEnd, bind_ok_iff] at call
    rcases call with ⟨⟨_, _⟩, call, _⟩
    rcases (get_max_directory_walks call).1 with ⟨entries, tree, _⟩
    rcases get_disk_end_unique whole (get_disk_end_of_scanned tree) with ⟨sameRet, sameState⟩
    exact ⟨entries, tree, sameRet, sameState⟩
  · intro walked
    rcases walked with ⟨entries, tree, rfl, rfl⟩
    exact get_disk_end_of_scanned tree

/-- On a finite tree of tables that can be read `getDiskEnd` returns `TRUE`. -/
theorem get_disk_end_returns (tables : HasEntries image entries) :
    GetDiskEndReturns image true (roundEnds (entries.foldl noteEntry (diskScanStart image))) := by
  have returns := get_disk_end_of_scanned (scanned_of_listed tables)
  have read : (image.tableOf image.rootStart).isSome = true := by
    rcases listed_table tables with ⟨buf, found⟩
    rw [DiskImage.tableOf, DiskImage.rootStart, found]
    rfl
  rwa [scanResult, read, if_pos rfl] at returns

end Runs

end XeBuild.Iso2svod
