import Mathlib.Data.List.GetD
import XeBuild.Iso2svod.ScanRun

/-!
# Directory tables as they are laid out

A table is a list of sectors. A sector holds entries, each on a 4-byte boundary
behind the one before, and `0xFF` to its end. The loop of `getMaxDirectory` does
not know of this: it steps over an entry by the length of its name, and over
padding to the next sector.
-/

namespace XeBuild.Iso2svod

open ListRange Runs

set_option autoImplicit false

/-! ## Stored entries -/

def hostU16 (value : Nat) : Bytes := [UInt8.ofNat value, UInt8.ofNat (value / 0x100)]

theorem get_le16_host_u16 {value : Nat} (word : value < 0x10000) :
    getLe16 (hostU16 value) = value := by
  simp only [hostU16, getLe16, List.getD_cons_zero, List.getD_cons_succ, UInt8.toNat_ofNat']
  omega

/-- An entry as it lies in a table. The bytes up to the next 4-byte boundary can
be anything. -/
structure StoredEntry where
  entry : XisoEntry
  gap : Bytes
  unk1_lt : entry.unk1 < 0xFFFF
  unk2_lt : entry.unk2 < 0xFFFF
  sector_lt : entry.sector < 0x100000000
  size_lt : entry.size < 0x100000000
  entType_lt : entry.entType < 0x100
  nameSz_pos : 0 < entry.nameSz
  nameSz_lt : entry.nameSz < 0x100
  name_length : entry.name.length = entry.nameSz
  aligned : 0xE + entry.nameSz + gap.length = (entry.nameSz + 0x11) / 4 * 4

def XisoEntry.bytes (pent : XisoEntry) : Bytes :=
  hostU16 pent.unk1 ++ (hostU16 pent.unk2 ++ (hostU32 pent.sector ++ (hostU32 pent.size ++
    (UInt8.ofNat pent.entType :: UInt8.ofNat pent.nameSz :: pent.name))))

def StoredEntry.bytes (stored : StoredEntry) : Bytes := stored.entry.bytes ++ stored.gap

def packed (entries : List StoredEntry) : Bytes := entries.flatMap StoredEntry.bytes

structure TableSector where
  entries : List StoredEntry
  fits : (packed entries).length ≤ 0x800

def TableSector.bytes (tableSector : TableSector) : Bytes :=
  packed tableSector.entries ++ fillBytes (0x800 - (packed tableSector.entries).length)

structure XisoTable where
  sectors : List TableSector
  word : sectors.length * 0x800 < 0x100000000

def XisoTable.bytes (table : XisoTable) : Bytes := table.sectors.flatMap TableSector.bytes

def TableSector.pents (tableSector : TableSector) : List XisoEntry :=
  tableSector.entries.map StoredEntry.entry

def XisoTable.pents (table : XisoTable) : List XisoEntry :=
  table.sectors.flatMap TableSector.pents

section Lengths

theorem fill_bytes_length (count : Nat) : (fillBytes count).length = count :=
  List.length_replicate

theorem stored_length (stored : StoredEntry) :
    stored.bytes.length = (stored.entry.nameSz + 0x11) / 4 * 4 := by
  have aligned := stored.aligned
  have name := stored.name_length
  simp only [StoredEntry.bytes, XisoEntry.bytes, hostU16, hostU32, List.length_append,
    List.length_cons, List.length_nil]
  omega

theorem packed_aligned (entries : List StoredEntry) : (packed entries).length % 4 = 0 := by
  induction entries with
  | nil => rfl
  | cons stored entries ih =>
      have own := stored_length stored
      rw [packed, List.flatMap_cons, List.length_append, ← packed]
      omega

theorem sector_bytes_length (tableSector : TableSector) : tableSector.bytes.length = 0x800 := by
  have fits := tableSector.fits
  rw [TableSector.bytes, List.length_append, fill_bytes_length]
  omega

theorem sectors_length (sectors : List TableSector) :
    (sectors.flatMap TableSector.bytes).length = sectors.length * 0x800 := by
  induction sectors with
  | nil => rfl
  | cons first sectors ih =>
      rw [List.flatMap_cons, List.length_append, sector_bytes_length, ih, List.length_cons]
      omega

end Lengths

/-! ## What is read at an offset -/

section Reads

theorem entry_at_append (before rest : Bytes) :
    entryAt (before ++ rest) before.length = entryAt rest 0 := by
  have at0 : slice (before ++ rest) before.length 2 = slice rest 0 2 :=
    slice_append_right before rest 0 2
  have item (offset : Nat) : (before ++ rest).getD (before.length + offset) 0 =
      rest.getD offset 0 := by
    rw [List.getD_append_right _ _ _ _ (Nat.le_add_right _ _), Nat.add_sub_cancel_left]
  simp only [entryAt, at0, item, slice_append_right, Nat.zero_add]

theorem entry_at_stored (stored : StoredEntry) (after : Bytes) :
    entryAt (stored.bytes ++ after) 0 = stored.entry := by
  have unk1 := stored.unk1_lt
  have unk2 := stored.unk2_lt
  have typeByte : (UInt8.ofNat stored.entry.entType).toNat = stored.entry.entType :=
    UInt8.toNat_ofNat_of_lt' stored.entType_lt
  have sizeByte : (UInt8.ofNat stored.entry.nameSz).toNat = stored.entry.nameSz :=
    UInt8.toNat_ofNat_of_lt' stored.nameSz_lt
  have name : (stored.entry.name ++ (stored.gap ++ after)).take stored.entry.nameSz =
      stored.entry.name := by
    rw [← stored.name_length, List.take_left]
  have parts : entryAt (stored.bytes ++ after) 0 =
      ⟨getLe16 (hostU16 stored.entry.unk1), getLe16 (hostU16 stored.entry.unk2),
        getLe32 (hostU32 stored.entry.sector), getLe32 (hostU32 stored.entry.size),
        (UInt8.ofNat stored.entry.entType).toNat, (UInt8.ofNat stored.entry.nameSz).toNat,
        (stored.entry.name ++ (stored.gap ++ after)).take
          (UInt8.ofNat stored.entry.nameSz).toNat⟩ := by
    simp [entryAt, StoredEntry.bytes, XisoEntry.bytes, hostU16, hostU32, slice]
  rw [parts, get_le16_host_u16 (by omega), get_le16_host_u16 (by omega),
    get_le32_host_u32 stored.sector_lt, get_le32_host_u32 stored.size_lt, typeByte, sizeByte, name]

theorem stored_is_entry (stored : StoredEntry) : stored.entry.isFill = false := by
  have first := stored.unk1_lt
  have second := stored.unk2_lt
  simp only [XisoEntry.isFill, Bool.or_eq_false_iff, beq_eq_false_iff_ne]
  omega

theorem fill_is_fill (count : Nat) (after : Bytes) :
    (entryAt (fillBytes (count + 2) ++ after) 0).isFill = true := by
  have first : slice (fillBytes (count + 2) ++ after) 0 2 = [0xFF, 0xFF] := by
    rw [slice_append_left _ _ _ _ (by rw [fill_bytes_length]; omega)]
    exact slice_replicate 0xFF (count + 2) 0 2 (by omega)
  simp only [entryAt, XisoEntry.isFill, first, Bool.or_eq_true]
  exact Or.inl (by decide)

end Reads

/-! ## The entries that the loop goes through -/

/-- The way of the loop alone, without what it does to an entry. -/
def loopEntries (buf : Bytes) : Nat → Nat → Except ScanStop (List XisoEntry)
  | 0, _ => .error .roundsSpent
  | rounds + 1, currOff =>
      if currOff < buf.length then
        let pent := entryAt buf currOff
        if pent.isFill then loopEntries buf rounds (sectorAlign currOff)
        else if buf.length < currOff + 0xE + pent.nameSz then .error (.loadPastTable currOff)
        else if 128 < pent.nameSz then .error (.storePastName pent.nameSz)
        else do
          let later ← loopEntries buf rounds (nextEntry currOff pent)
          return pent :: later
      else .ok []

def processEntries (descend : Nat → Nat → DiskScan → Except ScanStop (Bool × DiskScan)) :
    List XisoEntry → DiskScan → Except ScanStop DiskScan
  | [], s => .ok s
  | pent :: entries, s =>
      if pent.descends then do
        let (_, s) ← descend pent.sector pent.size (noteEntry s pent)
        processEntries descend entries s
      else processEntries descend entries (noteEntry s pent)

/-- From some number of rounds on the loop goes through these entries, does to
them what it does, and ends. -/
def ScansExactly (buf : Bytes) (entries : List XisoEntry) : Prop :=
  ∃ needed, ∀ rounds, needed ≤ rounds →
    loopEntries buf rounds 0 = .ok entries ∧
      ∀ descend s, scanTable (fun _ => descend) buf rounds 0 s = processEntries descend entries s

section Loop

variable {buf : Bytes} {rounds currOff : Nat} {entries : List XisoEntry}

theorem loop_past (past : buf.length ≤ currOff) :
    loopEntries buf (rounds + 1) currOff = .ok [] := by
  rw [loopEntries, if_neg (Nat.not_lt.mpr past)]

theorem loop_fill (inside : currOff < buf.length)
    (isFill : (entryAt buf currOff).isFill = true) :
    loopEntries buf (rounds + 1) currOff = loopEntries buf rounds (sectorAlign currOff) := by
  rw [loopEntries, if_pos inside]
  simp only [if_pos isFill]

theorem loop_overflow (inside : currOff < buf.length)
    (isEntry : (entryAt buf currOff).isFill = false) (overflows : NameOverflows buf currOff) :
    loopEntries buf (rounds + 1) currOff ≠ .ok entries := by
  rw [loopEntries, if_pos inside]
  simp only [isEntry, Bool.false_eq_true, if_false]
  by_cases load : buf.length < currOff + 0xE + (entryAt buf currOff).nameSz
  · rw [if_pos load]
    simp
  · rw [if_neg load, if_pos (overflows.resolve_left load)]
    simp

theorem loop_entry (inside : currOff < buf.length)
    (isEntry : (entryAt buf currOff).isFill = false) (fits : ¬ NameOverflows buf currOff) :
    loopEntries buf (rounds + 1) currOff =
      loopEntries buf rounds (nextEntry currOff (entryAt buf currOff)) >>= fun later =>
        .ok (entryAt buf currOff :: later) := by
  rcases not_or.mp fits with ⟨load, store⟩
  rw [loopEntries, if_pos inside]
  simp only [isEntry, Bool.false_eq_true, if_false, if_neg load, if_neg store]
  rfl

/-- The scan does what it does to the entries the loop goes through. -/
theorem scan_table_of_loop {descend : Nat → Nat → DiskScan → Except ScanStop (Bool × DiskScan)}
    (loop : loopEntries buf rounds currOff = .ok entries) (s : DiskScan) :
    scanTable (fun _ => descend) buf rounds currOff s = processEntries descend entries s := by
  induction rounds generalizing currOff entries s with
  | zero => cases loop
  | succ rounds ih =>
      by_cases inside : currOff < buf.length
      · cases isFill : (entryAt buf currOff).isFill with
        | true =>
            rw [loop_fill inside isFill] at loop
            rw [scan_table_fill inside isFill]
            exact ih loop s
        | false =>
            by_cases overflows : NameOverflows buf currOff
            · exact absurd loop (loop_overflow inside isFill overflows)
            rw [loop_entry inside isFill overflows, bind_ok_iff] at loop
            rcases loop with ⟨later, rest, made⟩
            cases made
            rw [processEntries]
            cases descends : (entryAt buf currOff).descends with
            | false =>
                rw [scan_table_leaf inside isFill overflows descends, if_neg Bool.false_ne_true]
                exact ih rest _
            | true =>
                rw [scan_table_directory inside isFill overflows descends, if_pos rfl]
                apply bind_congr
                intro returned
                exact ih rest _
      · rw [loop_past (Nat.not_lt.mp inside)] at loop
        cases loop
        exact scan_table_past (Nat.not_lt.mp inside)

/-- Whatever the nested calls do, a scan that ends has gone through some entries. -/
theorem loop_of_scan_table {descend : Descend} {s last : DiskScan}
    (scanned : scanTable descend buf rounds currOff s = .ok last) :
    ∃ entries, loopEntries buf rounds currOff = .ok entries := by
  induction rounds generalizing currOff s with
  | zero => cases scanned
  | succ rounds ih =>
      by_cases inside : currOff < buf.length
      · cases isFill : (entryAt buf currOff).isFill with
        | true =>
            rw [scan_table_fill inside isFill] at scanned
            rw [loop_fill inside isFill]
            exact ih scanned
        | false =>
            by_cases overflows : NameOverflows buf currOff
            · rcases @scan_table_overflow descend buf rounds currOff s inside isFill overflows with
                ⟨fault, stopped, _⟩
              rw [stopped] at scanned
              cases scanned
            have rest : ∃ between,
                scanTable descend buf rounds (nextEntry currOff (entryAt buf currOff)) between =
                  .ok last := by
              cases descends : (entryAt buf currOff).descends with
              | false =>
                  rw [scan_table_leaf inside isFill overflows descends] at scanned
                  exact ⟨_, scanned⟩
              | true =>
                  rw [scan_table_directory inside isFill overflows descends, bind_ok_iff] at scanned
                  rcases scanned with ⟨returned, _, scanned⟩
                  exact ⟨_, scanned⟩
            rcases rest with ⟨between, scanned⟩
            rcases ih scanned with ⟨entries, loop⟩
            refine ⟨entryAt buf currOff :: entries, ?_⟩
            rw [loop_entry inside isFill overflows, loop, ok_bind]
      · exact ⟨[], loop_past (Nat.not_lt.mp inside)⟩

theorem loop_more (loop : loopEntries buf rounds currOff = .ok entries) (extra : Nat) :
    loopEntries buf (rounds + extra) currOff = .ok entries := by
  induction rounds generalizing currOff entries with
  | zero => cases loop
  | succ rounds ih =>
      rw [Nat.add_right_comm]
      by_cases inside : currOff < buf.length
      · cases isFill : (entryAt buf currOff).isFill with
        | true =>
            rw [loop_fill inside isFill] at loop ⊢
            exact ih loop
        | false =>
            by_cases overflows : NameOverflows buf currOff
            · exact absurd loop (loop_overflow inside isFill overflows)
            rw [loop_entry inside isFill overflows, bind_ok_iff] at loop ⊢
            rcases loop with ⟨later, rest, made⟩
            exact ⟨later, ih rest, made⟩
      · rw [loop_past (Nat.not_lt.mp inside)] at loop ⊢
        exact loop

def LoopEnds (buf : Bytes) (currOff : Nat) (entries : List XisoEntry) : Prop :=
  ∃ rounds, loopEntries buf rounds currOff = .ok entries

theorem scans_exactly_iff : ScansExactly buf entries ↔ LoopEnds buf 0 entries := by
  constructor
  · intro scans
    rcases scans with ⟨needed, scans⟩
    exact ⟨needed, (scans needed (Nat.le_refl _)).1⟩
  · intro ends
    rcases ends with ⟨needed, loop⟩
    refine ⟨needed, ?_⟩
    intro rounds enough
    have later : loopEntries buf rounds 0 = .ok entries := by
      rw [← Nat.add_sub_of_le enough]
      exact loop_more loop _
    exact ⟨later, fun _ s => scan_table_of_loop later s⟩

theorem loop_ends_step {next : Nat}
    (step : ∀ rounds, loopEntries buf (rounds + 1) currOff = loopEntries buf rounds next) :
    LoopEnds buf currOff entries ↔ LoopEnds buf next entries := by
  constructor
  · intro ends
    rcases ends with ⟨rounds, loop⟩
    cases rounds with
    | zero => cases loop
    | succ rounds => exact ⟨rounds, (step rounds).symm.trans loop⟩
  · intro ends
    rcases ends with ⟨rounds, loop⟩
    exact ⟨rounds + 1, (step rounds).trans loop⟩

theorem loop_ends_past (past : buf.length ≤ currOff) :
    LoopEnds buf currOff entries ↔ entries = [] := by
  constructor
  · intro ends
    rcases ends with ⟨rounds, loop⟩
    cases rounds with
    | zero => cases loop
    | succ rounds =>
        rw [loop_past past] at loop
        cases loop
        rfl
  · intro empty
    exact ⟨1, empty ▸ loop_past past⟩

theorem loop_ends_entry (inside : currOff < buf.length)
    (isEntry : (entryAt buf currOff).isFill = false) :
    LoopEnds buf currOff entries ↔ ¬ NameOverflows buf currOff ∧
      ∃ later, LoopEnds buf (nextEntry currOff (entryAt buf currOff)) later ∧
        entries = entryAt buf currOff :: later := by
  constructor
  · intro ends
    rcases ends with ⟨rounds, loop⟩
    cases rounds with
    | zero => cases loop
    | succ rounds =>
        by_cases overflows : NameOverflows buf currOff
        · exact absurd loop (loop_overflow inside isEntry overflows)
        rw [loop_entry inside isEntry overflows, bind_ok_iff] at loop
        rcases loop with ⟨later, rest, made⟩
        cases made
        exact ⟨overflows, later, ⟨rounds, rest⟩, rfl⟩
  · intro walked
    rcases walked with ⟨fits, later, ⟨rounds, rest⟩, rfl⟩
    refine ⟨rounds + 1, ?_⟩
    rw [loop_entry inside isEntry fits, rest, ok_bind]

theorem loop_stuck (inside : currOff < buf.length) (isFill : (entryAt buf currOff).isFill = true)
    (stays : sectorAlign currOff = currOff) : ¬ LoopEnds buf currOff entries := by
  intro ends
  rcases ends with ⟨rounds, loop⟩
  induction rounds with
  | zero => cases loop
  | succ rounds ih =>
      rw [loop_fill inside isFill, stays] at loop
      exact ih loop

end Loop

/-! ## The loop over a table -/

section Table

variable {before after : Bytes} {pents : List XisoEntry}

theorem loop_ends_stored (stored : StoredEntry)
    (word : (before ++ (stored.bytes ++ after)).length < 0x100000000) :
    LoopEnds (before ++ (stored.bytes ++ after)) before.length pents ↔
      stored.entry.nameSz ≤ 128 ∧
        ∃ later,
          LoopEnds (before ++ (stored.bytes ++ after)) (before ++ stored.bytes).length later ∧
          pents = stored.entry :: later := by
  have found : entryAt (before ++ (stored.bytes ++ after)) before.length = stored.entry := by
    rw [entry_at_append, entry_at_stored]
  have length := stored_length stored
  simp only [List.length_append] at word
  have inside : before.length < (before ++ (stored.bytes ++ after)).length := by
    simp only [List.length_append]
    omega
  have isEntry : (entryAt (before ++ (stored.bytes ++ after)) before.length).isFill = false := by
    rw [found]
    exact stored_is_entry stored
  have overflows : NameOverflows (before ++ (stored.bytes ++ after)) before.length ↔
      128 < stored.entry.nameSz := by
    rw [NameOverflows, found]
    apply or_iff_right
    simp only [List.length_append]
    omega
  have next : nextEntry before.length stored.entry = (before ++ stored.bytes).length := by
    rw [nextEntry, List.length_append, length, u32_of_lt (by omega)]
  rw [loop_ends_entry inside isEntry, overflows, found, next, Nat.not_lt]

theorem loop_ends_packed (entries : List StoredEntry)
    (word : (before ++ (packed entries ++ after)).length < 0x100000000) :
    LoopEnds (before ++ (packed entries ++ after)) before.length pents ↔
      (∀ stored ∈ entries, stored.entry.nameSz ≤ 128) ∧
        ∃ later, LoopEnds (before ++ (packed entries ++ after))
            (before ++ packed entries).length later ∧
          pents = entries.map StoredEntry.entry ++ later := by
  induction entries generalizing before pents with
  | nil => simp [packed]
  | cons stored entries ih =>
      have shape : before ++ (packed (stored :: entries) ++ after) =
          before ++ (stored.bytes ++ (packed entries ++ after)) := by
        rw [packed, List.flatMap_cons, List.append_assoc, ← packed]
      have moved : before ++ (stored.bytes ++ (packed entries ++ after)) =
          before ++ stored.bytes ++ (packed entries ++ after) := (List.append_assoc _ _ _).symm
      have ends : before ++ packed (stored :: entries) =
          before ++ stored.bytes ++ packed entries := by
        rw [packed, List.flatMap_cons, List.append_assoc, ← packed]
      rw [shape] at word ⊢
      rw [loop_ends_stored stored word, ends]
      rw [moved] at word ⊢
      constructor
      · intro walked
        rcases walked with ⟨first, later, rest, rfl⟩
        rcases (ih word).mp rest with ⟨names, last, done, rfl⟩
        exact ⟨List.forall_mem_cons.mpr ⟨first, names⟩, last, done, rfl⟩
      · intro walked
        rcases walked with ⟨names, last, done, rfl⟩
        rcases List.forall_mem_cons.mp names with ⟨first, names⟩
        exact ⟨first, _, (ih word).mpr ⟨names, last, done, rfl⟩, rfl⟩

theorem packed_pos {entries : List StoredEntry} (filled : entries ≠ []) :
    0 < (packed entries).length := by
  rcases List.exists_cons_of_ne_nil filled with ⟨stored, others, same⟩
  have length := stored_length stored
  rw [same, packed, List.flatMap_cons, List.length_append]
  omega

/-- Behind the entries of a sector that has room there is padding. -/
theorem padding_is_fill (before after : Bytes) (tableSector : TableSector)
    (short : (packed tableSector.entries).length ≠ 0x800) :
    (entryAt (before ++ (tableSector.bytes ++ after))
      (before.length + (packed tableSector.entries).length)).isFill = true := by
  have fits := tableSector.fits
  have aligned := packed_aligned tableSector.entries
  have shape : before ++ (tableSector.bytes ++ after) = before ++ packed tableSector.entries ++
      (fillBytes (0x800 - (packed tableSector.entries).length - 2 + 2) ++ after) := by
    rw [TableSector.bytes, Nat.sub_add_cancel (by omega)]
    simp only [List.append_assoc]
  rw [shape, ← List.length_append, entry_at_append]
  exact fill_is_fill _ _

/-- Behind its entries the loop goes on to the end of the sector, unless the
sector is only padding. -/
theorem loop_ends_padding (tableSector : TableSector) (boundary : before.length % 0x800 = 0)
    (word : (before ++ (tableSector.bytes ++ after)).length < 0x100000000) :
    LoopEnds (before ++ (tableSector.bytes ++ after))
        (before ++ packed tableSector.entries).length pents ↔
      tableSector.entries ≠ [] ∧
        LoopEnds (before ++ (tableSector.bytes ++ after)) (before ++ tableSector.bytes).length
          pents := by
  have fits := tableSector.fits
  have aligned := packed_aligned tableSector.entries
  have whole := sector_bytes_length tableSector
  simp only [List.length_append, whole] at word
  rw [List.length_append, List.length_append, whole]
  by_cases full : (packed tableSector.entries).length = 0x800
  · have filled : tableSector.entries ≠ [] := by
      intro empty
      rw [empty] at full
      cases full
    rw [full, and_iff_right filled]
  · have isFill := padding_is_fill before after tableSector full
    have inside : before.length + (packed tableSector.entries).length <
        (before ++ (tableSector.bytes ++ after)).length := by
      simp only [List.length_append, whole]
      omega
    by_cases empty : tableSector.entries = []
    · have stays : sectorAlign (before.length + (packed tableSector.entries).length) =
          before.length + (packed tableSector.entries).length := by
        have none : (packed tableSector.entries).length = 0 := by
          rw [empty]
          rfl
        rw [none, sectorAlign, u32_of_lt (by omega)]
        omega
      have never := @loop_stuck _ _ pents inside isFill stays
      exact iff_of_false never fun walked => walked.1 empty
    · have some := packed_pos empty
      have next : sectorAlign (before.length + (packed tableSector.entries).length) =
          before.length + 0x800 := by
        rw [sectorAlign, u32_of_lt (by omega)]
        omega
      rw [and_iff_right empty, ← next]
      exact loop_ends_step fun _ => loop_fill inside isFill

def TableSector.Passes (tableSector : TableSector) : Prop :=
  (∀ stored ∈ tableSector.entries, stored.entry.nameSz ≤ 128) ∧ tableSector.entries ≠ []

theorem loop_ends_sectors (sectors : List TableSector) (boundary : before.length % 0x800 = 0)
    (word : (before ++ sectors.flatMap TableSector.bytes).length < 0x100000000) :
    LoopEnds (before ++ sectors.flatMap TableSector.bytes) before.length pents ↔
      (∀ tableSector ∈ sectors, tableSector.Passes) ∧
        pents = sectors.flatMap TableSector.pents := by
  induction sectors generalizing before pents with
  | nil =>
      rw [List.flatMap_nil, List.append_nil, loop_ends_past (Nat.le_refl _)]
      simp
  | cons tableSector sectors ih =>
      have shape : before ++ (tableSector :: sectors).flatMap TableSector.bytes =
          before ++ (packed tableSector.entries ++
            (fillBytes (0x800 - (packed tableSector.entries).length) ++
              sectors.flatMap TableSector.bytes)) := by
        rw [List.flatMap_cons, TableSector.bytes, List.append_assoc]
      have sectorShape : before ++ (tableSector :: sectors).flatMap TableSector.bytes =
          before ++ (tableSector.bytes ++ sectors.flatMap TableSector.bytes) := by
        rw [List.flatMap_cons]
      have moved : before ++ (tableSector.bytes ++ sectors.flatMap TableSector.bytes) =
          before ++ tableSector.bytes ++ sectors.flatMap TableSector.bytes :=
        (List.append_assoc _ _ _).symm
      have whole := sector_bytes_length tableSector
      have nextBoundary : (before ++ tableSector.bytes).length % 0x800 = 0 := by
        rw [List.length_append]
        omega
      have rest := @ih (before ++ tableSector.bytes)
      rw [← moved, ← sectorShape] at rest
      have padding := @loop_ends_padding before (sectors.flatMap TableSector.bytes)
      rw [shape, loop_ends_packed _ (shape ▸ word), ← shape]
      constructor
      · intro walked
        rcases walked with ⟨names, later, ends, rfl⟩
        rw [sectorShape, padding tableSector boundary (sectorShape ▸ word), ← sectorShape,
          rest nextBoundary word] at ends
        rcases ends with ⟨filled, passes, rfl⟩
        refine ⟨List.forall_mem_cons.mpr ⟨⟨names, filled⟩, passes⟩, ?_⟩
        rw [List.flatMap_cons, TableSector.pents]
      · intro walked
        rcases walked with ⟨passes, rfl⟩
        rcases List.forall_mem_cons.mp passes with ⟨⟨names, filled⟩, passes⟩
        refine ⟨names, sectors.flatMap TableSector.pents, ?_, ?_⟩
        · rw [sectorShape, padding tableSector boundary (sectorShape ▸ word), ← sectorShape,
            rest nextBoundary word]
          exact ⟨filled, passes, rfl⟩
        · rw [List.flatMap_cons, TableSector.pents]

theorem table_scan_passes (table : XisoTable) :
    ScansExactly table.bytes table.pents ↔ ∀ tableSector ∈ table.sectors, tableSector.Passes := by
  have sectors := @loop_ends_sectors [] table.pents table.sectors rfl (by
    rw [List.nil_append, sectors_length]
    exact table.word)
  rw [List.nil_append, List.length_nil] at sectors
  rw [scans_exactly_iff, XisoTable.bytes, sectors, and_iff_left (by rw [XisoTable.pents])]

/-- The loop goes through exactly the entries of a table when every name fits
`temOutName` and no sector is only padding. -/
theorem table_scan_iff (table : XisoTable) :
    ScansExactly table.bytes table.pents ↔
      (∀ pent ∈ table.pents, pent.nameSz ≤ 128) ∧
        ∀ tableSector ∈ table.sectors, tableSector.entries ≠ [] := by
  rw [table_scan_passes]
  constructor
  · intro passes
    constructor
    · intro pent member
      rcases List.mem_flatMap.mp member with ⟨tableSector, inTable, inSector⟩
      rcases List.mem_map.mp inSector with ⟨stored, present, rfl⟩
      exact (passes tableSector inTable).1 stored present
    · intro tableSector inTable
      exact (passes tableSector inTable).2
  · intro condition tableSector inTable
    refine ⟨?_, condition.2 tableSector inTable⟩
    intro stored present
    exact condition.1 _ (List.mem_flatMap.mpr
      ⟨tableSector, inTable, List.mem_map.mpr ⟨stored, present, rfl⟩⟩)

end Table

/-! ## One sector, entry by entry -/

section Sector

variable {tableSector : TableSector} {front back : List StoredEntry} {stored : StoredEntry}

theorem sector_entry_at (shape : tableSector.entries = front ++ stored :: back) :
    entryAt tableSector.bytes (packed front).length = stored.entry := by
  have entries : packed tableSector.entries = packed front ++ (stored.bytes ++ packed back) := by
    rw [shape, packed, List.flatMap_append, List.flatMap_cons]
    rfl
  rw [TableSector.bytes, entries, List.append_assoc, List.append_assoc, entry_at_append,
    entry_at_stored]

theorem sector_entry_end (shape : tableSector.entries = front ++ stored :: back) :
    (packed front).length + (stored.entry.nameSz + 0x11) / 4 * 4 ≤ 0x800 := by
  have fits := tableSector.fits
  rw [shape, packed, List.flatMap_append, List.flatMap_cons, List.length_append,
    List.length_append, stored_length, ← packed] at fits
  omega

theorem sector_entry_inside (shape : tableSector.entries = front ++ stored :: back) :
    (packed front).length < tableSector.bytes.length := by
  have ends := sector_entry_end shape
  rw [sector_bytes_length]
  omega

theorem sector_entry_fits (shape : tableSector.entries = front ++ stored :: back)
    (named : stored.entry.nameSz ≤ 128) :
    ¬ NameOverflows tableSector.bytes (packed front).length := by
  have ends := sector_entry_end shape
  rw [NameOverflows, sector_entry_at shape, sector_bytes_length]
  omega

theorem sector_entry_next (shape : tableSector.entries = front ++ stored :: back) :
    nextEntry (packed front).length stored.entry = (packed (front ++ [stored])).length := by
  have ends := sector_entry_end shape
  rw [nextEntry, u32_of_lt (by omega), packed, packed, List.flatMap_append, List.length_append,
    List.flatMap_singleton, stored_length]

/-- Behind the last entry there is nothing, or padding to the end of the sector. -/
theorem sector_rest (filled : tableSector.entries ≠ []) :
    (packed tableSector.entries).length = 0x800 ∨
      (packed tableSector.entries).length < 0x800 ∧
        (entryAt tableSector.bytes (packed tableSector.entries).length).isFill = true ∧
        sectorAlign (packed tableSector.entries).length = 0x800 := by
  have fits := tableSector.fits
  have aligned := packed_aligned tableSector.entries
  by_cases full : (packed tableSector.entries).length = 0x800
  · exact Or.inl full
  · have some := packed_pos filled
    have isFill := padding_is_fill [] [] tableSector full
    rw [List.nil_append, List.append_nil, List.length_nil, Nat.zero_add] at isFill
    refine Or.inr ⟨by omega, isFill, ?_⟩
    · rw [sectorAlign, u32_of_lt (by omega)]
      omega

theorem scan_sector_rest (filled : tableSector.entries ≠ []) (descend : Descend) (rounds : Nat)
    (s : DiskScan) :
    scanTable descend tableSector.bytes (rounds + 2) (packed tableSector.entries).length s =
      .ok s := by
  have whole := sector_bytes_length tableSector
  rcases sector_rest filled with full | ⟨short, isFill, aligned⟩
  · exact scan_table_past (by omega)
  · rw [scan_table_fill (by omega) isFill, aligned, scan_table_past whole.le]

theorem scanned_sector_rest {image : DiskImage} {place : ScanPlace}
    (read : image.tableOf place = some tableSector.bytes) (filled : tableSector.entries ≠ [])
    (last : place.currOff = (packed tableSector.entries).length) : Scanned image place [] := by
  have whole := sector_bytes_length tableSector
  rcases sector_rest filled with full | ⟨short, isFill, aligned⟩
  · exact Scanned.finish read (by rw [last, whole, full])
  · rw [← last] at short isFill aligned
    apply Scanned.fill read (by rw [whole]; exact short) isFill
    rw [aligned]
    exact @Scanned.finish image (place.moved 0x800) _ read whole.le

end Sector

/-! ## Two small tables -/

theorem no_link : 0 < 0xFFFF := by decide

theorem gap_aligned (nameSz : Nat) :
    0xE + nameSz + (zeros ((nameSz + 0x11) / 4 * 4 - (0xE + nameSz))).length =
      (nameSz + 0x11) / 4 * 4 := by
  rw [zeros_length]
  omega

def storedPlain (sector size entType : Nat) (name : Bytes)
    (words : sector < 0x100000000 ∧ size < 0x100000000 ∧ entType < 0x100)
    (named : 0 < name.length ∧ name.length < 0x100) : StoredEntry where
  entry := ⟨0, 0, sector, size, entType, name.length, name⟩
  gap := zeros ((name.length + 0x11) / 4 * 4 - (0xE + name.length))
  unk1_lt := no_link
  unk2_lt := no_link
  sector_lt := words.1
  size_lt := words.2.1
  entType_lt := words.2.2
  nameSz_pos := named.1
  nameSz_lt := named.2
  name_length := rfl
  aligned := gap_aligned name.length

theorem one_entry_fits (stored : StoredEntry) : (packed [stored]).length ≤ 0x800 := by
  have length := stored_length stored
  have short := stored.nameSz_lt
  rw [packed, List.flatMap_singleton]
  omega

def oneEntrySector (stored : StoredEntry) : TableSector := ⟨[stored], one_entry_fits stored⟩

theorem one_entry_at (stored : StoredEntry) :
    entryAt (oneEntrySector stored).bytes 0 = stored.entry :=
  @sector_entry_at (oneEntrySector stored) [] [] stored rfl

theorem one_entry_inside (stored : StoredEntry) : 0 < (oneEntrySector stored).bytes.length :=
  @sector_entry_inside (oneEntrySector stored) [] [] stored rfl

theorem one_entry_is_entry (stored : StoredEntry) :
    (entryAt (oneEntrySector stored).bytes 0).isFill = false := by
  rw [one_entry_at]
  exact stored_is_entry stored

theorem one_entry_directory (stored : StoredEntry) (named : stored.entry.nameSz ≤ 128)
    (isDirectory : stored.entry.descends = true) (descend : Descend) (rounds : Nat)
    (s : DiskScan) :
    scanTable descend (oneEntrySector stored).bytes (rounds + 3) 0 s =
      descend 0 stored.entry.sector stored.entry.size (noteEntry s stored.entry) >>= fun returned =>
        .ok returned.2 := by
  have entry := one_entry_at stored
  have inside := one_entry_inside stored
  have isEntry := one_entry_is_entry stored
  have fits : ¬ NameOverflows (oneEntrySector stored).bytes 0 :=
    @sector_entry_fits (oneEntrySector stored) [] [] stored rfl named
  have next : nextEntry 0 stored.entry = (packed (oneEntrySector stored).entries).length :=
    @sector_entry_next (oneEntrySector stored) [] [] stored rfl
  rw [← entry] at isDirectory
  rw [scan_table_directory inside isEntry fits isDirectory, entry, next]
  apply bind_congr
  intro returned
  exact scan_sector_rest (List.cons_ne_nil _ _) descend rounds returned.2

def paddingSector : TableSector := ⟨[], Nat.zero_le 0x800⟩

theorem padding_sector_fill : (entryAt paddingSector.bytes 0).isFill = true := by
  have bytes : paddingSector.bytes = fillBytes (0x7FE + 2) ++ [] := by
    rw [List.append_nil]
    rfl
  rw [bytes]
  exact fill_is_fill _ _

theorem small_file_words : 0x30 < 0x100000000 ∧ 5 < 0x100000000 ∧ 0x80 < 0x100 := by decide

def longName : Bytes := List.replicate 129 0x61

theorem long_name_length : longName.length = 129 := List.length_replicate

theorem long_name_named : 0 < longName.length ∧ longName.length < 0x100 := by
  rw [long_name_length]
  decide

def shortName : Bytes := [0x61]

theorem short_name_named : 0 < shortName.length ∧ shortName.length < 0x100 := by decide

theorem one_sector_word : 1 * 0x800 < 0x100000000 := by decide

theorem two_sectors_word : 2 * 0x800 < 0x100000000 := by decide

def longNameTable : XisoTable :=
  ⟨[oneEntrySector (storedPlain 0x30 5 0x80 longName small_file_words long_name_named)],
    one_sector_word⟩

def paddedTable : XisoTable :=
  ⟨[oneEntrySector (storedPlain 0x30 5 0x80 shortName small_file_words short_name_named),
    paddingSector], two_sectors_word⟩

/-- The name does not fit `temOutName`; the second sector keeps the loop for ever. -/
theorem small_tables_not_scanned :
    ¬ ScansExactly longNameTable.bytes longNameTable.pents ∧
      ¬ ScansExactly paddedTable.bytes paddedTable.pents := by
  constructor
  · intro scans
    have passes := (table_scan_passes longNameTable).mp scans _ List.mem_cons_self
    have short : longName.length ≤ 128 := passes.1 _ List.mem_cons_self
    rw [long_name_length] at short
    omega
  · intro scans
    have passes := (table_scan_passes paddedTable).mp scans paddingSector
      (List.mem_cons_of_mem _ List.mem_cons_self)
    exact passes.2 rfl

/-! ## Images that are only tables -/

theorem first_sector_lt : 0 < 0x100000000 := by decide

theorem one_sector_size_lt : 0x800 < 0x100000000 := by decide

def sectorsImage (sectors : List TableSector) : DiskImage where
  isoData := sectors.flatMap TableSector.bytes
  baseOffset := 0
  rootDirSector := 0
  rootDirSize := 0x800
  rootDirSector_lt := first_sector_lt
  rootDirSize_lt := one_sector_size_lt
  fails := fun _ => false

theorem sectors_image_table (front : List TableSector) (tableSector : TableSector)
    (back : List TableSector) :
    (sectorsImage (front ++ tableSector :: back)).table front.length 0x800 =
      some tableSector.bytes := by
  have aligned : sectorAlign 0x800 = 0x800 := by decide
  have whole := sector_bytes_length tableSector
  have frontLength := sectors_length front
  have found : slice ((front ++ tableSector :: back).flatMap TableSector.bytes)
      (front.length * 0x800) 0x800 = tableSector.bytes := by
    rw [List.flatMap_append, List.flatMap_cons, ← frontLength,
      slice_append_of_le _ _ (Nat.le_refl _), Nat.sub_self, ← whole,
      slice_append_left _ _ _ _ (by omega), slice_whole]
  have inside : front.length * 0x800 + 0x800 ≤
      ((front ++ tableSector :: back).flatMap TableSector.bytes).length := by
    rw [sectors_length, List.length_append, List.length_cons]
    omega
  simp only [DiskImage.table, sectorsImage, XGD_SECTOR_SIZE, aligned, Nat.add_zero, found]
  rw [if_neg (by simp), if_neg (by simp), if_neg (by simp), if_neg (by simp), if_pos inside]

end XeBuild.Iso2svod
