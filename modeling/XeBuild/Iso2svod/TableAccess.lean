import Mathlib.Logic.Relation
import XeBuild.Iso2svod.ScanRun
import XeBuild.Lib.CheckedBuffer

/-!
# Accesses of a directory table

The loop of `getMaxDirectory` once more, with every field read by a load of its
own and the name copied into `temOutName`. An entry can start on the last four
bytes of the table, where only the test for padding is inside; nothing looks at
the length of a name.
-/

namespace XeBuild.Iso2svod

open CheckedBuffer ListRange Relation Runs

set_option autoImplicit false

/-! ## Entries read field by field -/

def loadLe16 (buf : Bytes) (offset : Nat) : Except Fault Nat := getLe16 <$> load buf offset 2
def loadWord (buf : Bytes) (offset : Nat) : Except Fault Nat := getLe32 <$> load buf offset 4

def loadByte (buf : Bytes) (offset : Nat) : Except Fault Nat :=
  (fun field => (field.getD 0 0).toNat) <$> load buf offset 1

def examineFields (buf : Bytes) (currOff unk1 unk2 : Nat) : Except Fault XisoEntry := do
  let size ← loadWord buf (currOff + 8)
  let nameSz ← loadByte buf (currOff + 0xD)
  let name ← load buf (currOff + 0xE) nameSz
  let _temOutName ← store (zeros 128) 0 name
  let sector ← loadWord buf (currOff + 4)
  let entType ← loadByte buf (currOff + 0xC)
  return ⟨unk1, unk2, sector, size, entType, nameSz, name⟩

/-- `none` for padding; the second field is read when the first is none. -/
def examineEntry (buf : Bytes) (currOff : Nat) : Except Fault (Option XisoEntry) := do
  let unk1 ← loadLe16 buf currOff
  if unk1 = 0xFFFF then return none
  else
    let unk2 ← loadLe16 buf (currOff + 2)
    if unk2 = 0xFFFF then return none
    else
      let pent ← examineFields buf currOff unk1 unk2
      return some pent

def examineTable (buf : Bytes) : Nat → Nat → Except Fault Unit
  | 0, _ => .error .roundsSpent
  | rounds + 1, currOff =>
      if currOff < buf.length then do
        match ← examineEntry buf currOff with
        | none => examineTable buf rounds (sectorAlign currOff)
        | some pent => examineTable buf rounds (nextEntry currOff pent)
      else .ok ()

def LeavesBuffer {Result : Type} (run : Except Fault Result) : Prop :=
  ∃ fault, run = .error fault ∧ fault ≠ .roundsSpent

section Fields

variable {buf : Bytes} {offset currOff : Nat}

theorem leaves_load {Result : Type} {size : Nat} {next : Bytes → Except Fault Result}
    (outside : buf.length < offset + size) : LeavesBuffer (load buf offset size >>= next) := by
  refine ⟨.load offset size, ?_, Fault.noConfusion⟩
  rw [load, if_neg (by omega)]
  rfl

theorem leaves_field {Field Result : Type} {size : Nat} {field : Bytes → Field}
    {next : Field → Except Fault Result} (outside : buf.length < offset + size) :
    LeavesBuffer ((field <$> load buf offset size) >>= next) := by
  rw [map_eq_pure_bind, bind_assoc]
  exact leaves_load outside

theorem slice_byte (buf : Bytes) (offset : Nat) :
    (slice buf offset 1).getD 0 0 = buf.getD offset 0 := by
  simp [slice, List.getD_eq_getElem?_getD]

theorem load_le16_inside (inside : offset + 2 ≤ buf.length) :
    loadLe16 buf offset = .ok (getLe16 (slice buf offset 2)) := by
  rw [loadLe16, load_inside inside]
  rfl

theorem load_word_inside (inside : offset + 4 ≤ buf.length) :
    loadWord buf offset = .ok (getLe32 (slice buf offset 4)) := by
  rw [loadWord, load_inside inside]
  rfl

theorem load_byte_inside (inside : offset + 1 ≤ buf.length) :
    loadByte buf offset = .ok (buf.getD offset 0).toNat := by
  rw [loadByte, load_inside inside, ← slice_byte]
  rfl

/-- An entry that does not fit is left by a load, or by the store of its name. -/
theorem examine_fields_overflow {unk1 unk2 : Nat} (overflows : NameOverflows buf currOff) :
    LeavesBuffer (examineFields buf currOff unk1 unk2) := by
  have nameSz : (entryAt buf currOff).nameSz = (buf.getD (currOff + 0xD) 0).toNat := rfl
  rw [NameOverflows, nameSz] at overflows
  rw [examineFields]
  by_cases size : currOff + 8 + 4 ≤ buf.length
  · rw [load_word_inside size, ok_bind]
    by_cases count : currOff + 0xD + 1 ≤ buf.length
    · rw [load_byte_inside count, ok_bind]
      by_cases name : currOff + 0xE + (buf.getD (currOff + 0xD) 0).toNat ≤ buf.length
      · have large : ¬ 0 + (slice buf (currOff + 0xE) (buf.getD (currOff + 0xD) 0).toNat).length ≤
            (zeros 128).length := by
          rw [slice_length_of_le name, zeros_length]
          omega
        refine ⟨.store 0 (slice buf (currOff + 0xE) (buf.getD (currOff + 0xD) 0).toNat).length, ?_,
          Fault.noConfusion⟩
        rw [load_inside name, ok_bind, store, if_neg large]
        rfl
      · exact leaves_load (by omega)
    · exact leaves_field (by omega)
  · exact leaves_field (by omega)

theorem examine_fields_entry (fits : ¬ NameOverflows buf currOff) :
    examineFields buf currOff (getLe16 (slice buf currOff 2))
      (getLe16 (slice buf (currOff + 2) 2)) = .ok (entryAt buf currOff) := by
  have nameSz : (entryAt buf currOff).nameSz = (buf.getD (currOff + 0xD) 0).toNat := rfl
  rw [NameOverflows, nameSz] at fits
  have name : currOff + 0xE + (buf.getD (currOff + 0xD) 0).toNat ≤ buf.length := by omega
  have stored : store (zeros 128) 0 (slice buf (currOff + 0xE) (buf.getD (currOff + 0xD) 0).toNat) =
      .ok (patch (zeros 128) 0
        (slice buf (currOff + 0xE) (buf.getD (currOff + 0xD) 0).toNat)) := by
    apply store_inside
    rw [slice_length_of_le name, zeros_length]
    omega
  rw [examineFields, load_word_inside (by omega), ok_bind, load_byte_inside (by omega), ok_bind,
    load_inside name, ok_bind, stored, ok_bind, load_word_inside (by omega), ok_bind,
    load_byte_inside (by omega), ok_bind]
  rfl

end Fields

/-! ## One entry -/

section Entry

variable {buf : Bytes} {currOff : Nat}

/-- Padding is found inside the table wherever an entry can start. -/
theorem examine_entry_fill (inside : currOff + 4 ≤ buf.length)
    (isFill : (entryAt buf currOff).isFill = true) : examineEntry buf currOff = .ok none := by
  rw [examineEntry, load_le16_inside (by omega), ok_bind]
  by_cases first : getLe16 (slice buf currOff 2) = 0xFFFF
  · rw [if_pos first]
    rfl
  · have second : getLe16 (slice buf (currOff + 2) 2) = 0xFFFF := by
      rw [XisoEntry.isFill, Bool.or_eq_true, beq_iff_eq, beq_iff_eq] at isFill
      exact isFill.resolve_left first
    rw [if_neg first, load_le16_inside (by omega), ok_bind, if_pos second]
    rfl

theorem examine_entry_fields (inside : currOff + 4 ≤ buf.length)
    (isEntry : (entryAt buf currOff).isFill = false) :
    examineEntry buf currOff =
      (examineFields buf currOff (getLe16 (slice buf currOff 2))
        (getLe16 (slice buf (currOff + 2) 2)) >>= fun pent => .ok (some pent)) := by
  rw [XisoEntry.isFill, Bool.or_eq_false_iff, beq_eq_false_iff_ne, beq_eq_false_iff_ne] at isEntry
  have first : getLe16 (slice buf currOff 2) ≠ 0xFFFF := isEntry.1
  have second : getLe16 (slice buf (currOff + 2) 2) ≠ 0xFFFF := isEntry.2
  rw [examineEntry, load_le16_inside (by omega), ok_bind, if_neg first,
    load_le16_inside (by omega), ok_bind, if_neg second]
  rfl

theorem examine_entry_some (inside : currOff + 4 ≤ buf.length)
    (isEntry : (entryAt buf currOff).isFill = false) (fits : ¬ NameOverflows buf currOff) :
    examineEntry buf currOff = .ok (some (entryAt buf currOff)) := by
  rw [examine_entry_fields inside isEntry, examine_fields_entry fits, ok_bind]

theorem examine_entry_overflow (inside : currOff + 4 ≤ buf.length)
    (isEntry : (entryAt buf currOff).isFill = false) (overflows : NameOverflows buf currOff) :
    LeavesBuffer (examineEntry buf currOff) := by
  rcases @examine_fields_overflow buf currOff (getLe16 (slice buf currOff 2))
    (getLe16 (slice buf (currOff + 2) 2)) overflows with ⟨fault, left, notSpent⟩
  refine ⟨fault, ?_, notSpent⟩
  rw [examine_entry_fields inside isEntry, left]
  rfl

end Entry

/-! ## The loop over a table -/

def NextStart (buf : Bytes) (currOff later : Nat) : Prop :=
  currOff < buf.length ∧ later =
    if (entryAt buf currOff).isFill then sectorAlign currOff
    else nextEntry currOff (entryAt buf currOff)

/-- An entry starts here: the loop comes to the offset, and there is no padding. -/
structure EntryStart (buf : Bytes) (currOff : Nat) : Prop where
  reached : ReflTransGen (NextStart buf) 0 currOff
  inside : currOff < buf.length
  isEntry : (entryAt buf currOff).isFill = false

/-- The only thing that can be missing is rounds. -/
def KeepsInside {Error Result : Type} (spent : Error) (run : Nat → Except Error Result) : Prop :=
  ∀ rounds fault, run rounds = .error fault → fault = spent

section Table

variable {buf : Bytes} {currOff later rounds : Nat}

theorem next_start_aligned (aligned : currOff % 4 = 0) (step : NextStart buf currOff later) :
    later % 4 = 0 := by
  rw [step.2]
  split_ifs
  · rw [sectorAlign]
    omega
  · rw [nextEntry, u32]
    omega

theorem start_inside (sectors : buf.length % 0x800 = 0) (aligned : currOff % 4 = 0)
    (inside : currOff < buf.length) : currOff + 4 ≤ buf.length := by
  omega

theorem examine_table_past (past : buf.length ≤ currOff) :
    examineTable buf (rounds + 1) currOff = .ok () := by
  rw [examineTable, if_neg (Nat.not_lt.mpr past)]

theorem examine_table_fill (whole : currOff + 4 ≤ buf.length)
    (isFill : (entryAt buf currOff).isFill = true) :
    examineTable buf (rounds + 1) currOff = examineTable buf rounds (sectorAlign currOff) := by
  rw [examineTable, if_pos (by omega), examine_entry_fill whole isFill]
  rfl

theorem examine_table_entry (whole : currOff + 4 ≤ buf.length)
    (isEntry : (entryAt buf currOff).isFill = false) (fits : ¬ NameOverflows buf currOff) :
    examineTable buf (rounds + 1) currOff =
      examineTable buf rounds (nextEntry currOff (entryAt buf currOff)) := by
  rw [examineTable, if_pos (by omega), examine_entry_some whole isEntry fits]
  rfl

def FitsFrom (buf : Bytes) (currOff : Nat) : Prop :=
  ∀ start, ReflTransGen (NextStart buf) currOff start → start < buf.length →
    (entryAt buf start).isFill = false → ¬ NameOverflows buf start

theorem fits_from_step (fits : FitsFrom buf currOff) (step : NextStart buf currOff later) :
    FitsFrom buf later := by
  intro start path
  exact fits start (path.head step)

theorem examine_table_keeps (sectors : buf.length % 0x800 = 0) (aligned : currOff % 4 = 0)
    (fits : FitsFrom buf currOff) {fault : Fault}
    (stopped : examineTable buf rounds currOff = .error fault) : fault = .roundsSpent := by
  induction rounds generalizing currOff with
  | zero =>
      cases stopped
      rfl
  | succ rounds ih =>
      by_cases inside : currOff < buf.length
      · have whole := start_inside sectors aligned inside
        cases isFill : (entryAt buf currOff).isFill with
        | true =>
            have step : NextStart buf currOff (sectorAlign currOff) :=
              ⟨inside, by rw [isFill, if_pos rfl]⟩
            rw [examine_table_fill whole isFill] at stopped
            exact ih (next_start_aligned aligned step) (fits_from_step fits step) stopped
        | false =>
            have step : NextStart buf currOff (nextEntry currOff (entryAt buf currOff)) :=
              ⟨inside, by rw [isFill, if_neg Bool.false_ne_true]⟩
            have entry := fits currOff ReflTransGen.refl inside isFill
            rw [examine_table_entry whole isFill entry] at stopped
            exact ih (next_start_aligned aligned step) (fits_from_step fits step) stopped
      · rw [examine_table_past (Nat.le_of_not_lt inside)] at stopped
        cases stopped

theorem examine_table_overflow (whole : currOff + 4 ≤ buf.length)
    (isEntry : (entryAt buf currOff).isFill = false) (overflows : NameOverflows buf currOff) :
    LeavesBuffer (examineTable buf (rounds + 1) currOff) := by
  rcases examine_entry_overflow whole isEntry overflows with ⟨fault, left, notSpent⟩
  refine ⟨fault, ?_, notSpent⟩
  rw [examineTable, if_pos (by omega), left]
  rfl

theorem fits_from_of_keeps (sectors : buf.length % 0x800 = 0) (aligned : currOff % 4 = 0)
    (keeps : KeepsInside .roundsSpent fun rounds => examineTable buf rounds currOff) :
    FitsFrom buf currOff := by
  intro start path
  induction path using ReflTransGen.head_induction_on with
  | refl =>
      intro inside isEntry overflows
      have whole := start_inside sectors aligned inside
      rcases @examine_table_overflow buf _ 0 whole isEntry overflows with ⟨fault, left, notSpent⟩
      exact notSpent (keeps 1 fault left)
  | @head place later step _ ih =>
      apply ih (next_start_aligned aligned step)
      intro rounds fault stopped
      have whole := start_inside sectors aligned step.1
      apply keeps (rounds + 1) fault
      change examineTable buf (rounds + 1) place = .error fault
      have moved := step.2
      cases isFill : (entryAt buf place).isFill with
      | true =>
          rw [isFill, if_pos rfl] at moved
          rw [examine_table_fill whole isFill, ← moved]
          exact stopped
      | false =>
          rw [isFill, if_neg Bool.false_ne_true] at moved
          have fits : ¬ NameOverflows buf place := by
            intro overflows
            rcases @examine_table_overflow buf _ 0 whole isFill overflows with
              ⟨fault, left, notSpent⟩
            exact notSpent (keeps 1 fault left)
          rw [examine_table_entry whole isFill fits, ← moved]
          exact stopped

end Table

/-! ## The scan of the table -/

section Scan

variable {descend : Descend} {buf : Bytes} {currOff rounds : Nat} {s : DiskScan}

/-- Behind an entry that fits the scan goes on, whatever a nested call leaves. -/
theorem scan_table_entry (nested : ∀ start sector size s, Returns (descend start sector size s))
    (inside : currOff < buf.length) (isEntry : (entryAt buf currOff).isFill = false)
    (fits : ¬ NameOverflows buf currOff) :
    ∃ s', ∀ rounds, scanTable descend buf (rounds + 1) currOff s =
      scanTable descend buf rounds (nextEntry currOff (entryAt buf currOff)) s' := by
  cases descends : (entryAt buf currOff).descends with
  | false =>
      refine ⟨noteEntry s (entryAt buf currOff), ?_⟩
      intro rounds
      exact scan_table_leaf inside isEntry fits descends
  | true =>
      rcases nested currOff (entryAt buf currOff).sector (entryAt buf currOff).size
        (noteEntry s (entryAt buf currOff)) with ⟨⟨ret, s'⟩, returned⟩
      refine ⟨s', ?_⟩
      intro rounds
      rw [scan_table_directory inside isEntry fits descends, returned]
      rfl

theorem scan_table_keeps (nested : ∀ start sector size s, Returns (descend start sector size s))
    (fits : FitsFrom buf currOff) {fault : ScanStop}
    (stopped : scanTable descend buf rounds currOff s = .error fault) : fault = .roundsSpent := by
  induction rounds generalizing currOff s with
  | zero =>
      cases stopped
      rfl
  | succ rounds ih =>
      by_cases inside : currOff < buf.length
      · cases isFill : (entryAt buf currOff).isFill with
        | true =>
            have step : NextStart buf currOff (sectorAlign currOff) :=
              ⟨inside, by rw [isFill, if_pos rfl]⟩
            rw [scan_table_fill inside isFill] at stopped
            exact ih (fits_from_step fits step) stopped
        | false =>
            have step : NextStart buf currOff (nextEntry currOff (entryAt buf currOff)) :=
              ⟨inside, by rw [isFill, if_neg Bool.false_ne_true]⟩
            have entry := fits currOff ReflTransGen.refl inside isFill
            rcases @scan_table_entry descend buf currOff s nested inside isFill entry with
              ⟨s', same⟩
            rw [same] at stopped
            exact ih (fits_from_step fits step) stopped
      · rw [scan_table_past (Nat.le_of_not_lt inside)] at stopped
        cases stopped

theorem fits_from_of_scan (nested : ∀ start sector size s, Returns (descend start sector size s))
    (keeps : KeepsInside .roundsSpent fun rounds => scanTable descend buf rounds currOff s) :
    FitsFrom buf currOff := by
  intro start path
  induction path using ReflTransGen.head_induction_on generalizing s with
  | refl =>
      intro inside isEntry overflows
      rcases @scan_table_overflow descend buf 0 _ s inside isEntry overflows with
        ⟨fault, left, notSpent⟩
      exact notSpent (keeps 1 fault left)
  | @head place later step _ ih =>
      have moved := step.2
      cases isFill : (entryAt buf place).isFill with
      | true =>
          rw [isFill, if_pos rfl] at moved
          apply @ih s
          intro rounds fault stopped
          apply keeps (rounds + 1) fault
          change scanTable descend buf (rounds + 1) place s = .error fault
          rw [scan_table_fill step.1 isFill, ← moved]
          exact stopped
      | false =>
          rw [isFill, if_neg Bool.false_ne_true] at moved
          have fits : ¬ NameOverflows buf place := by
            intro overflows
            rcases @scan_table_overflow descend buf 0 _ s step.1 isFill overflows with
              ⟨fault, left, notSpent⟩
            exact notSpent (keeps 1 fault left)
          rcases @scan_table_entry descend buf place s nested step.1 isFill fits with ⟨s', same⟩
          apply @ih s'
          intro rounds fault stopped
          apply keeps (rounds + 1) fault
          change scanTable descend buf (rounds + 1) place s = .error fault
          rw [same, ← moved]
          exact stopped

end Scan

theorem aligned_sectors (size : Nat) : sectorAlign size % 0x800 = 0 := by
  rw [sectorAlign]
  omega

/-- For every content of a table: no field, name or copy of a name leaves its
buffer, neither read field by field nor in the scan with any nested calls, exactly
when the entries that the loop comes to fit the table and have names of at most
128 bytes. -/
theorem table_reads_inside_iff (buf : Bytes) (size : Nat)
    (allocated : buf.length = sectorAlign size) (descend : Descend)
    (nested : ∀ start sector size s, Returns (descend start sector size s)) (s : DiskScan) :
    ((KeepsInside .roundsSpent fun rounds => examineTable buf rounds 0) ↔
        ∀ currOff, EntryStart buf currOff → ¬ NameOverflows buf currOff) ∧
      ((KeepsInside .roundsSpent fun rounds => scanTable descend buf rounds 0 s) ↔
        ∀ currOff, EntryStart buf currOff → ¬ NameOverflows buf currOff) := by
  have sectors : buf.length % 0x800 = 0 := by
    rw [allocated]
    exact aligned_sectors size
  have starts : (∀ currOff, EntryStart buf currOff → ¬ NameOverflows buf currOff) ↔
      FitsFrom buf 0 := by
    constructor
    · intro fits start path inside isEntry
      exact fits start ⟨path, inside, isEntry⟩
    · intro fits currOff entry
      exact fits currOff entry.reached entry.inside entry.isEntry
  rw [starts]
  constructor
  · constructor
    · intro keeps
      exact fits_from_of_keeps sectors rfl keeps
    · intro fits rounds fault stopped
      exact examine_table_keeps sectors rfl fits stopped
  · constructor
    · intro keeps
      exact fits_from_of_scan nested keeps
    · intro fits rounds fault stopped
      exact scan_table_keeps nested fits stopped

def blankEntry (nameSz width : Nat) : Bytes :=
  zeros 0xD ++ [UInt8.ofNat nameSz] ++ zeros (width - 0xE)

def paddedEntryTable : Bytes := blankEntry 11 28 ++ fillBytes (0x800 - 28)

theorem padded_entry_places {currOff : Nat}
    (path : ReflTransGen (NextStart paddedEntryTable) 0 currOff) :
    currOff = 0 ∨ currOff = 28 ∨ currOff = 0x800 := by
  have first : (if (entryAt paddedEntryTable 0).isFill then sectorAlign 0
      else nextEntry 0 (entryAt paddedEntryTable 0)) = 28 := by decide +kernel
  have second : (if (entryAt paddedEntryTable 28).isFill then sectorAlign 28
      else nextEntry 28 (entryAt paddedEntryTable 28)) = 0x800 := by decide +kernel
  have size : paddedEntryTable.length = 0x800 := by decide +kernel
  induction path with
  | refl => exact Or.inl rfl
  | tail _ step known =>
      rcases known with rfl | rfl | rfl
      · exact Or.inr (Or.inl (step.2.trans first))
      · exact Or.inr (Or.inr (step.2.trans second))
      · have inside := step.1
        omega

theorem padded_entry_inside :
    (KeepsInside .roundsSpent fun rounds => examineTable paddedEntryTable rounds 0) ∧
      KeepsInside .roundsSpent fun rounds =>
        scanTable (fun _ _ _ s => .ok (true, s)) paddedEntryTable rounds 0 ⟨0, 0, 0, 0⟩ := by
  have reads := table_reads_inside_iff paddedEntryTable 0x800 (by decide +kernel)
    (fun _ _ _ s => .ok (true, s)) (fun _ _ _ s => returns_ok (true, s)) ⟨0, 0, 0, 0⟩
  have fits : ∀ currOff, EntryStart paddedEntryTable currOff →
      ¬ NameOverflows paddedEntryTable currOff := by
    intro currOff entry
    have padding : (entryAt paddedEntryTable 28).isFill = true := by decide +kernel
    have size : paddedEntryTable.length = 0x800 := by decide +kernel
    have name : (entryAt paddedEntryTable 0).nameSz = 11 := by decide +kernel
    rcases padded_entry_places entry.reached with rfl | rfl | rfl
    · rw [NameOverflows, size, name]
      omega
    · have isEntry := entry.isEntry
      rw [padding] at isEntry
      cases isEntry
    · have inside := entry.inside
      omega
  exact ⟨reads.1.mpr fits, reads.2.mpr fits⟩

/-! ## Tables that are left -/

/-- Fifteen entries, so that the next one starts on the last four bytes. -/
def lateEntryTable : Bytes :=
  (List.replicate 14 (blankEntry 0x7F 144)).flatten ++ blankEntry 11 28 ++ zeros 4

def wideNameTable : Bytes := blankEntry 0x81 0x800

theorem late_and_wide_tables_left :
    lateEntryTable.length = sectorAlign 0x800 ∧ wideNameTable.length = sectorAlign 0x800 ∧
      examineTable lateEntryTable 16 0 = .error (.load 0x804 4) ∧
      examineTable wideNameTable 1 0 = .error (.store 0 129) ∧
      (¬ KeepsInside .roundsSpent fun rounds => examineTable lateEntryTable rounds 0) ∧
      ¬ KeepsInside .roundsSpent fun rounds => examineTable wideNameTable rounds 0 := by
  have late : examineTable lateEntryTable 16 0 = .error (.load 0x804 4) := by decide +kernel
  have wide : examineTable wideNameTable 1 0 = .error (.store 0 129) := by decide +kernel
  refine ⟨by decide +kernel, by decide +kernel, late, wide, ?_, ?_⟩
  · intro keeps
    exact Fault.noConfusion (keeps 16 _ late)
  · intro keeps
    exact Fault.noConfusion (keeps 1 _ wide)

end XeBuild.Iso2svod
