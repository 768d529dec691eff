import Mathlib.Data.Finite.Prod
import XeBuild.Iso2svod.TableLayout
import XeBuild.Lib.FiniteWalk

/-!
# Which scans end

The places of the scan form a graph: the next offset in the table, and the start
of the table of a directory entry. Offsets grow along a table, except at padding
that starts on a sector boundary, where the loop stays for ever. The recursion
ends when no table is found again below itself.
-/

namespace XeBuild.Iso2svod

open FiniteWalk ListRange Relation

set_option autoImplicit false

/-! ## The graph of places -/

def DiskImage.successors (image : DiskImage) (place : ScanPlace) : List ScanPlace :=
  match image.tableOf place with
  | none => []
  | some buf =>
      if place.currOff < buf.length then
        let pent := entryAt buf place.currOff
        if pent.isFill then [place.moved (sectorAlign place.currOff)]
        else if pent.descends then [place.moved (nextEntry place.currOff pent), pent.tableStart]
        else [place.moved (nextEntry place.currOff pent)]
      else []

def DiskImage.Leads (image : DiskImage) (place next : ScanPlace) : Prop :=
  next ∈ image.successors place

def DiskImage.Reached (image : DiskImage) (place : ScanPlace) : Prop :=
  ReflTransGen image.Leads image.rootStart place

/-- There is an entry at the place whose name leaves `temOutName` or the table. -/
def DiskImage.OverflowsAt (image : DiskImage) (place : ScanPlace) : Prop :=
  ∃ buf, image.tableOf place = some buf ∧ place.currOff < buf.length ∧
    (entryAt buf place.currOff).isFill = false ∧ NameOverflows buf place.currOff

def DiskImage.PaddingAt (image : DiskImage) (place : ScanPlace) : Prop :=
  ∃ buf, image.tableOf place = some buf ∧ place.currOff < buf.length ∧
    (entryAt buf place.currOff).isFill = true

section Successors

variable {image : DiskImage} {place next : ScanPlace} {buf : Bytes}

theorem successors_unread (absent : image.tableOf place = none) : image.successors place = [] := by
  rw [DiskImage.successors, absent]

theorem successors_past (read : image.tableOf place = some buf)
    (past : buf.length ≤ place.currOff) : image.successors place = [] := by
  rw [DiskImage.successors, read]
  simp only [if_neg (Nat.not_lt.mpr past)]

theorem successors_fill (read : image.tableOf place = some buf)
    (inside : place.currOff < buf.length) (isFill : (entryAt buf place.currOff).isFill = true) :
    image.successors place = [place.moved (sectorAlign place.currOff)] := by
  rw [DiskImage.successors, read]
  simp only [if_pos inside, if_pos isFill]

theorem successors_leaf (read : image.tableOf place = some buf)
    (inside : place.currOff < buf.length) (isEntry : (entryAt buf place.currOff).isFill = false)
    (isLeaf : (entryAt buf place.currOff).descends = false) :
    image.successors place =
      [place.moved (nextEntry place.currOff (entryAt buf place.currOff))] := by
  rw [DiskImage.successors, read]
  simp only [if_pos inside, isEntry, isLeaf, Bool.false_eq_true, if_false]

theorem successors_directory (read : image.tableOf place = some buf)
    (inside : place.currOff < buf.length) (isEntry : (entryAt buf place.currOff).isFill = false)
    (isDirectory : (entryAt buf place.currOff).descends = true) :
    image.successors place =
      [place.moved (nextEntry place.currOff (entryAt buf place.currOff)),
        (entryAt buf place.currOff).tableStart] := by
  rw [DiskImage.successors, read]
  simp only [if_pos inside, isEntry, isDirectory, Bool.false_eq_true, if_false, if_true]

end Successors

/-! ## Returning runs and the graph -/

section Walks

variable {image : DiskImage} {place next : ScanPlace} {entries : List XisoEntry}

/-- From this place on the scan ends, and every name fits. -/
structure WalkFits (image : DiskImage) (place : ScanPlace) : Prop where
  ends : Ends image.Leads place
  names : ∀ later, ReflTransGen image.Leads place later → ¬ image.OverflowsAt later

theorem walk_fits_of_successors (here : ¬ image.OverflowsAt place)
    (later : ∀ next, image.Leads place next → WalkFits image next) : WalkFits image place := by
  constructor
  · constructor
    intro next step
    exact (later next step).ends
  · intro last path
    rcases ReflTransGen.cases_head path with rfl | ⟨next, step, path⟩
    · exact here
    · exact (later next step).names last path

theorem fits_of_fill {buf : Bytes} (read : image.tableOf place = some buf)
    (isFill : (entryAt buf place.currOff).isFill = true) : ¬ image.OverflowsAt place := by
  intro overflows
  rcases overflows with ⟨other, otherRead, _, isEntry, _⟩
  cases read.symm.trans otherRead
  rw [isFill] at isEntry
  cases isEntry

theorem fits_of_read {buf : Bytes} (read : image.tableOf place = some buf)
    (fits : ¬ NameOverflows buf place.currOff) : ¬ image.OverflowsAt place := by
  intro overflows
  rcases overflows with ⟨other, otherRead, _, _, tooLong⟩
  cases read.symm.trans otherRead
  exact fits tooLong

theorem walk_fits_of_scanned (tree : Scanned image place entries) : WalkFits image place := by
  induction tree with
  | unread absent =>
      apply walk_fits_of_successors
      · intro overflows
        rcases overflows with ⟨buf, read, _⟩
        rw [absent] at read
        cases read
      · intro next step
        rw [DiskImage.Leads, successors_unread absent] at step
        cases step
  | finish read past =>
      apply walk_fits_of_successors
      · intro overflows
        rcases overflows with ⟨other, otherRead, inside, _⟩
        cases read.symm.trans otherRead
        exact absurd inside (Nat.not_lt.mpr past)
      · intro next step
        rw [DiskImage.Leads, successors_past read past] at step
        cases step
  | fill read inside isFill _ ih =>
      apply walk_fits_of_successors (fits_of_fill read isFill)
      intro next step
      rw [DiskImage.Leads, successors_fill read inside isFill, List.mem_singleton] at step
      rwa [step]
  | leaf read inside isEntry fits isLeaf _ ih =>
      apply walk_fits_of_successors (fits_of_read read fits)
      intro next step
      rw [DiskImage.Leads, successors_leaf read inside isEntry isLeaf,
        List.mem_singleton] at step
      rwa [step]
  | directory read inside isEntry fits isDirectory _ _ nestedIh restIh =>
      apply walk_fits_of_successors (fits_of_read read fits)
      intro next step
      rw [DiskImage.Leads, successors_directory read inside isEntry isDirectory,
        List.mem_pair] at step
      rcases step with rfl | rfl
      · exact restIh
      · exact nestedIh

theorem scanned_of_walk_fits (fits : WalkFits image place) :
    ∃ entries, Scanned image place entries := by
  rcases fits with ⟨ends, names⟩
  induction ends with
  | intro place _ ih =>
      have follow : ∀ next, image.Leads place next → ∃ entries, Scanned image next entries := by
        intro next step
        apply ih next step
        intro later path
        exact names later (ReflTransGen.head step path)
      cases read : image.tableOf place with
      | none => exact ⟨[], Scanned.unread read⟩
      | some buf =>
          by_cases inside : place.currOff < buf.length
          · cases isFill : (entryAt buf place.currOff).isFill with
            | true =>
                have step := successors_fill read inside isFill
                rcases follow _ (by rw [DiskImage.Leads, step]; exact List.mem_cons_self) with
                  ⟨entries, rest⟩
                exact ⟨entries, Scanned.fill read inside isFill rest⟩
            | false =>
                have fits : ¬ NameOverflows buf place.currOff := by
                  intro tooLong
                  exact names place ReflTransGen.refl ⟨buf, read, inside, isFill, tooLong⟩
                cases descends : (entryAt buf place.currOff).descends with
                | false =>
                    have step := successors_leaf read inside isFill descends
                    rcases follow _ (by rw [DiskImage.Leads, step]; exact List.mem_cons_self) with
                      ⟨entries, rest⟩
                    exact ⟨_, Scanned.leaf read inside isFill fits descends rest⟩
                | true =>
                    have step := successors_directory read inside isFill descends
                    rcases follow (place.moved _)
                      (by rw [DiskImage.Leads, step]; exact List.mem_cons_self) with
                      ⟨entries, rest⟩
                    rcases follow (entryAt buf place.currOff).tableStart
                      (by rw [DiskImage.Leads, step]; simp) with ⟨below, nested⟩
                    exact ⟨_, Scanned.directory read inside isFill fits descends nested rest⟩
          · exact ⟨[], Scanned.finish read (Nat.not_lt.mp inside)⟩

/-- `getDiskEnd` returns exactly when the walk from the root table ends and
every name on it fits. -/
theorem returns_iff_walk_fits (image : DiskImage) :
    (∃ ret s, GetDiskEndReturns image ret s) ↔ WalkFits image image.rootStart := by
  constructor
  · intro returns
    rcases returns with ⟨ret, s, returns⟩
    rcases (get_disk_end_returns_iff image ret s).mp returns with ⟨entries, tree, _⟩
    exact walk_fits_of_scanned tree
  · intro fits
    rcases scanned_of_walk_fits fits with ⟨entries, tree⟩
    exact ⟨_, _, get_disk_end_of_scanned tree⟩

end Walks

/-! ## Finitely many places -/

section Places

variable {image : DiskImage} {place next : ScanPlace}

def ScanPlace.Words (place : ScanPlace) : Prop :=
  place.sector < 0x100000000 ∧ place.size < 0x100000000 ∧ place.currOff < 0x100000000

theorem words_finite : {place : ScanPlace | place.Words}.Finite := by
  have words := Set.finite_lt_nat 0x100000000
  have tuples := (words.prod (words.prod words)).image fun tuple =>
    (⟨tuple.1, tuple.2.1, tuple.2.2⟩ : ScanPlace)
  apply tuples.subset
  intro place bounds
  exact ⟨(place.sector, place.size, place.currOff), bounds, rfl⟩

theorem sector_align_lt (value : Nat) : sectorAlign value < 0x100000000 := by
  have word := u32_lt (value + 0x7FF)
  rw [sectorAlign]
  omega

theorem leads_words (words : place.Words) (step : image.Leads place next) : next.Words := by
  rw [DiskImage.Leads, DiskImage.successors] at step
  cases read : image.tableOf place with
  | none =>
      rw [read] at step
      cases step
  | some buf =>
      rw [read] at step
      simp only at step
      have here : (place.moved (nextEntry place.currOff (entryAt buf place.currOff))).Words :=
        ⟨words.1, words.2.1, u32_lt _⟩
      split_ifs at step with inside isFill descends
      · rw [List.mem_singleton.mp step]
        exact ⟨words.1, words.2.1, sector_align_lt _⟩
      · rcases List.mem_pair.mp step with rfl | rfl
        · exact here
        · exact ⟨entry_sector_lt _ _, entry_size_lt _ _, Nat.succ_pos _⟩
      · rw [List.mem_singleton.mp step]
        exact here
      · cases step

theorem root_words (image : DiskImage) : image.rootStart.Words :=
  ⟨image.rootDirSector_lt, image.rootDirSize_lt, Nat.succ_pos _⟩

theorem reached_finite (image : DiskImage) :
    {place | ReflTransGen image.Leads image.rootStart place}.Finite := by
  apply words_finite.subset
  intro place path
  exact reached_invariant (root_words image) (fun _ _ words step => leads_words words step) path

/-! ## Cycles -/

theorem table_length_le {sector size : Nat} {buf : Bytes}
    (read : image.table sector size = some buf) : buf.length ≤ 0xFFFFF800 := by
  have aligned : sectorAlign size ≤ 0xFFFFF800 := by
    have word := u32_lt (size + 0x7FF)
    rw [sectorAlign]
    omega
  rw [DiskImage.table] at read
  split_ifs at read
  · cases read
    exact Nat.zero_le _
  · cases read
    rw [slice_length]
    omega

theorem name_size_lt (buf : Bytes) (currOff : Nat) : (entryAt buf currOff).nameSz < 0x100 :=
  (buf.getD (currOff + 0xD) 0).toNat_lt

/-- A step goes on in the same table, or to the start of another one. -/
theorem leads_grows (step : image.Leads place next)
    (unstuck : image.PaddingAt place → place.currOff % 0x800 ≠ 0) :
    (∃ currOff, place.currOff < currOff ∧ next = place.moved currOff) ∨ next.currOff = 0 := by
  rw [DiskImage.Leads] at step
  cases read : image.tableOf place with
  | none =>
      rw [successors_unread read] at step
      cases step
  | some buf =>
      by_cases inside : place.currOff < buf.length
      · have small := table_length_le read
        have name := name_size_lt buf place.currOff
        have grows : place.currOff < nextEntry place.currOff (entryAt buf place.currOff) := by
          rw [nextEntry, u32_of_lt (by omega)]
          omega
        cases isFill : (entryAt buf place.currOff).isFill with
        | true =>
            rw [successors_fill read inside isFill, List.mem_singleton] at step
            have apart := unstuck ⟨buf, read, inside, isFill⟩
            refine Or.inl ⟨_, ?_, step⟩
            rw [sectorAlign, u32_of_lt (by omega)]
            omega
        | false =>
            cases descends : (entryAt buf place.currOff).descends with
            | false =>
                rw [successors_leaf read inside isFill descends, List.mem_singleton] at step
                exact Or.inl ⟨_, grows, step⟩
            | true =>
                rw [successors_directory read inside isFill descends, List.mem_pair] at step
                rcases step with same | start
                · exact Or.inl ⟨_, grows, same⟩
                · rw [start]
                  exact Or.inr rfl
      · rw [successors_past read (Nat.not_lt.mp inside)] at step
        cases step

structure ScanStops (image : DiskImage) : Prop where
  /-- Padding starts inside a sector. -/
  padding : ∀ place, image.Reached place → image.PaddingAt place → place.currOff % 0x800 ≠ 0
  /-- No table is found again below itself. -/
  tables : ∀ place, image.Reached place → place.currOff = 0 → ¬ TransGen image.Leads place place
  names : ∀ place, image.Reached place → ¬ image.OverflowsAt place

/-- A path stays in its table, at growing offsets, or passes the start of one. -/
theorem path_grows (stops : ScanStops image) (reached : image.Reached place)
    (path : TransGen image.Leads place next) :
    (∃ currOff, place.currOff < currOff ∧ next = place.moved currOff) ∨
      ∃ start, start.currOff = 0 ∧ TransGen image.Leads place start ∧
        ReflTransGen image.Leads start next := by
  induction path with
  | single step =>
      rcases leads_grows step (stops.padding place reached) with grows | start
      · exact Or.inl grows
      · exact Or.inr ⟨_, start, TransGen.single step, ReflTransGen.refl⟩
  | @tail middle last path step ih =>
      have middleReached := reached.trans path.to_reflTransGen
      rcases ih with ⟨currOff, grows, same⟩ | ⟨start, zero, first, rest⟩
      · rcases leads_grows step (stops.padding middle middleReached) with
          ⟨later, more, moved⟩ | start
        · refine Or.inl ⟨later, ?_, ?_⟩
          · rw [same] at more
            exact Nat.lt_trans grows more
          · rw [moved, same]
            rfl
        · exact Or.inr ⟨last, start, path.tail step, ReflTransGen.refl⟩
      · exact Or.inr ⟨start, zero, first, rest.tail step⟩

theorem no_return_of_stops (stops : ScanStops image) :
    NoReturn image.Leads image.rootStart := by
  intro place reached cycle
  rcases path_grows stops reached cycle with ⟨currOff, grows, same⟩ | ⟨start, zero, first, rest⟩
  · have offset := congrArg ScanPlace.currOff same
    rw [ScanPlace.moved] at offset
    simp only at offset
    omega
  · exact stops.tables start (reached.trans first.to_reflTransGen) zero
      (TransGen.trans_right rest first)

theorem align_sector {currOff : Nat} (boundary : currOff % 0x800 = 0)
    (small : currOff ≤ 0xFFFFF800) :
    sectorAlign currOff = currOff := by
  rw [sectorAlign, u32_of_lt (by omega)]
  omega

theorem padding_stays (padding : image.PaddingAt place) (boundary : place.currOff % 0x800 = 0) :
    image.Leads place place := by
  rcases padding with ⟨buf, read, inside, isFill⟩
  have small := table_length_le read
  rw [DiskImage.Leads, successors_fill read inside isFill, align_sector boundary (by omega)]
  exact List.mem_cons_self

theorem stops_iff_walk_fits (image : DiskImage) :
    ScanStops image ↔ WalkFits image image.rootStart := by
  constructor
  · intro stops
    have ends := (ends_iff_no_return (reached_finite image)).mpr (no_return_of_stops stops)
    exact ⟨ends, stops.names⟩
  · intro fits
    have noReturn := (ends_iff_no_return (reached_finite image)).mp fits.ends
    constructor
    · intro place reached padding boundary
      exact noReturn place reached (TransGen.single (padding_stays padding boundary))
    · intro place reached _
      exact noReturn place reached
    · exact fits.names

/-- `getDiskEnd` returns exactly when no padding starts on a sector boundary, no
table is found again below itself and every name fits. -/
theorem disk_end_returns_iff_stops (image : DiskImage) :
    (∃ ret s, GetDiskEndReturns image ret s) ↔ ScanStops image := by
  rw [returns_iff_walk_fits, stops_iff_walk_fits]

end Places

theorem self_directory_words : 0 < 0x100000000 ∧ 0x800 < 0x100000000 ∧ 0x10 < 0x100 := by decide

def selfDirectory : StoredEntry :=
  storedPlain 0 0x800 0x10 shortName self_directory_words short_name_named

/-- Neither a root table that is only padding nor one that names itself lets
`getDiskEnd` return. -/
theorem small_images_not_scanned :
    (¬ ∃ ret s, GetDiskEndReturns (sectorsImage [paddingSector]) ret s) ∧
      ¬ ∃ ret s, GetDiskEndReturns (sectorsImage [oneEntrySector selfDirectory]) ret s := by
  constructor
  · intro returns
    rw [returns_iff_walk_fits, ← stops_iff_walk_fits] at returns
    have read := sectors_image_table [] paddingSector []
    have inside : 0 < paddingSector.bytes.length := by
      rw [sector_bytes_length]
      exact Nat.succ_pos _
    exact returns.padding _ ReflTransGen.refl ⟨_, read, inside, padding_sector_fill⟩ rfl
  · intro returns
    rw [returns_iff_walk_fits, ← stops_iff_walk_fits] at returns
    have read := sectors_image_table [] (oneEntrySector selfDirectory) []
    have inside := one_entry_inside selfDirectory
    have entry := one_entry_at selfDirectory
    have isEntry := one_entry_is_entry selfDirectory
    have descends : (entryAt (oneEntrySector selfDirectory).bytes 0).descends = true := by
      rw [entry]
      rfl
    have step := @successors_directory (sectorsImage [oneEntrySector selfDirectory])
      (sectorsImage [oneEntrySector selfDirectory]).rootStart _ read inside isEntry descends
    have same : (entryAt (oneEntrySector selfDirectory).bytes 0).tableStart =
        (sectorsImage [oneEntrySector selfDirectory]).rootStart := by
      rw [entry]
      rfl
    apply returns.tables _ ReflTransGen.refl rfl
    apply TransGen.single
    rw [DiskImage.Leads, step]
    exact List.mem_cons_of_mem _ (List.mem_singleton.mpr same.symm)

end XeBuild.Iso2svod
