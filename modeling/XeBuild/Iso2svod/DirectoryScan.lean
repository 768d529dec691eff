import XeBuild.CStrings
import XeBuild.Iso2svod.IsoIo

/-!
# The directory scan of `isoio.c`

`getDiskEnd` and `getMaxDirectory`: the recursive walk over the directory
tables that leaves the sector range of the conversion. Every table is read from
a fresh file position, so the position itself is not part of the state. A store
that leaves `temOutName` and a load that leaves the table buffer have no defined
outcome and are faults. The abstract side is the list of entries that a finite
tree of tables holds; the scan is a fold over it.
-/

namespace XeBuild.Iso2svod

open ListRange

set_option autoImplicit false

/-! ## Little-endian fields -/

def getLe16 (data : Bytes) : Nat := (data.getD 1 0).toNat * 0x100 + (data.getD 0 0).toNat

def getLe32 (data : Bytes) : Nat :=
  (data.getD 3 0).toNat * 0x1000000 + (data.getD 2 0).toNat * 0x10000 +
    (data.getD 1 0).toNat * 0x100 + (data.getD 0 0).toNat

theorem get_le32_lt (data : Bytes) : getLe32 data < 0x100000000 := by
  have first := (data.getD 0 0).toNat_lt
  have second := (data.getD 1 0).toNat_lt
  have third := (data.getD 2 0).toNat_lt
  have fourth := (data.getD 3 0).toNat_lt
  rw [getLe32]
  omega

theorem get_le32_host_u32 {value : Nat} (word : value < 0x100000000) :
    getLe32 (hostU32 value) = value := by
  simp only [hostU32, getLe32, List.getD_cons_zero, List.getD_cons_succ, UInt8.toNat_ofNat']
  omega

def fillBytes (count : Nat) : Bytes := List.replicate count 0xFF

def sectorAlign (value : Nat) : Nat := u32 (value + 0x7FF) / 0x800 * 0x800

/-! ## Directory entries -/

structure XisoEntry where
  unk1 : Nat
  unk2 : Nat
  sector : Nat
  size : Nat
  entType : Nat
  nameSz : Nat
  name : Bytes
  deriving DecidableEq

def entryAt (buf : Bytes) (currOff : Nat) : XisoEntry where
  unk1 := getLe16 (slice buf currOff 2)
  unk2 := getLe16 (slice buf (currOff + 2) 2)
  sector := getLe32 (slice buf (currOff + 4) 4)
  size := getLe32 (slice buf (currOff + 8) 4)
  entType := (buf.getD (currOff + 0xC) 0).toNat
  nameSz := (buf.getD (currOff + 0xD) 0).toNat
  name := slice buf (currOff + 0xE) (buf.getD (currOff + 0xD) 0).toNat

theorem entry_sector_lt (buf : Bytes) (currOff : Nat) :
    (entryAt buf currOff).sector < 0x100000000 := get_le32_lt _

theorem entry_size_lt (buf : Bytes) (currOff : Nat) :
    (entryAt buf currOff).size < 0x100000000 := get_le32_lt _

/-- The rest of the sector holds no entry. -/
def XisoEntry.isFill (pent : XisoEntry) : Bool := pent.unk1 == 0xFFFF || pent.unk2 == 0xFFFF

def XisoEntry.descends (pent : XisoEntry) : Bool :=
  pent.entType / 0x10 % 2 == 1 && pent.size != 0

/-- Entries are 4-byte aligned and at least `0x11` bytes long. -/
def nextEntry (currOff : Nat) (pent : XisoEntry) : Nat :=
  u32 (currOff + (pent.nameSz + 0x11) / 4 * 4)

def XisoEntry.ssize (pent : XisoEntry) : Nat := sectorAlign pent.size / 0x800 % 0x200000

def XisoEntry.endSector (pent : XisoEntry) : Nat := u32 (pent.ssize + pent.sector)

/-! ## State -/

inductive ScanStop
  | roundsSpent
  | loadPastTable (currOff : Nat)
  | storePastName (nameSz : Nat)
  deriving DecidableEq, Repr

inductive ScanCall
  | seek (sector : Nat)
  | alloc (size : Nat)
  | read (sector size : Nat)
  deriving DecidableEq

/-- The image, the fields of its volume descriptor, and the calls that fail. -/
structure DiskImage where
  isoData : Bytes
  baseOffset : Nat
  rootDirSector : Nat
  rootDirSize : Nat
  rootDirSector_lt : rootDirSector < 0x100000000
  rootDirSize_lt : rootDirSize < 0x100000000
  fails : ScanCall → Bool

structure DiskScan where
  minSector : Nat
  maxSector : Nat
  defaultXexSector : Nat
  defaultXexSize : Nat
  deriving DecidableEq

/-! ## `getMaxDirectory` -/

def XEX_FILE_NAME : Bytes :=
  [0x64, 0x65, 0x66, 0x61, 0x75, 0x6C, 0x74, 0x2E, 0x78, 0x65, 0x78]

def noteSectors (pent : XisoEntry) (s : DiskScan) : DiskScan :=
  { s with
    maxSector := if s.maxSector < pent.endSector then pent.endSector else s.maxSector
    minSector := if pent.sector < s.minSector then pent.sector else s.minSector }

def noteDefaultXex (pent : XisoEntry) (s : DiskScan) : DiskScan :=
  if pent.entType / 0x10 % 2 = 0 ∧ pent.nameSz = 11 ∧ pent.name.map toLower = XEX_FILE_NAME then
    { s with defaultXexSize := pent.size, defaultXexSector := pent.sector }
  else s

def noteEntry (s : DiskScan) (pent : XisoEntry) : DiskScan :=
  noteDefaultXex pent (noteSectors pent s)

/-- A nested call, by the offset of its entry and the two fields that it reads. -/
abbrev Descend := Nat → Nat → Nat → DiskScan → Except ScanStop (Bool × DiskScan)

/-- The `while` loop over one table. What `descend` returns is not looked at. -/
def scanTable (descend : Descend) (buf : Bytes) :
    Nat → Nat → DiskScan → Except ScanStop DiskScan
  | 0, _, _ => .error .roundsSpent
  | rounds + 1, currOff, s =>
      if currOff < buf.length then
        let pent := entryAt buf currOff
        if pent.isFill then scanTable descend buf rounds (sectorAlign currOff) s
        else if buf.length < currOff + 0xE + pent.nameSz then .error (.loadPastTable currOff)
        else if 128 < pent.nameSz then .error (.storePastName pent.nameSz)
        else if pent.descends then do
          let (_, s) ← descend currOff pent.sector pent.size (noteSectors pent s)
          scanTable descend buf rounds (nextEntry currOff pent) s
        else scanTable descend buf rounds (nextEntry currOff pent) (noteEntry s pent)
      else .ok s

/-- The table of `size` bytes at `sector`; `none` when a call fails or the image
ends inside it. -/
def DiskImage.table (image : DiskImage) (sector size : Nat) : Option Bytes :=
  let start := sector * XGD_SECTOR_SIZE + image.baseOffset
  if image.fails (.seek sector) then none
  else if sectorAlign size = 0 then some []
  else if image.fails (.alloc (sectorAlign size)) then none
  else if image.fails (.read sector (sectorAlign size)) then none
  else if start + sectorAlign size ≤ image.isoData.length then
    some (slice image.isoData start (sectorAlign size))
  else none

/-- The arguments are the two fields of the entry that the source passes. An
aligned size of zero is `TRUE` with nothing read. -/
def getMaxDirectory (image : DiskImage) :
    Nat → Nat → Nat → DiskScan → Except ScanStop (Bool × DiskScan)
  | 0, _, _, _ => .error .roundsSpent
  | fuel + 1, sector, size, s =>
      match image.table sector size with
      | none => .ok (false, s)
      | some buf => do
          let s ← scanTable (fun _ => getMaxDirectory image fuel) buf (fuel + 1) 0 s
          return (true, s)

/-! ## `getDiskEnd` -/

/-- The first value of `maxSector`: the rounded size of the root table is added
in bytes. -/
def rootEnd (image : DiskImage) : Nat :=
  u32 (image.rootDirSector + sectorAlign image.rootDirSize)

def diskScanStart (image : DiskImage) : DiskScan where
  minSector := image.rootDirSector
  maxSector := if rootEnd image < 0x108 then 0x108 else rootEnd image
  defaultXexSector := 0
  defaultXexSize := 0

def roundEnds (s : DiskScan) : DiskScan :=
  { s with
    minSector := s.minSector / 2 * 2
    maxSector := u32 (s.maxSector + 1) / 2 * 2 }

def getDiskEnd (image : DiskImage) (fuel : Nat) : Except ScanStop (Bool × DiskScan) := do
  let (ret, s) ←
    getMaxDirectory image fuel image.rootDirSector image.rootDirSize (diskScanStart image)
  return (ret, if ret then roundEnds s else s)

/-- The result of `getXexInfoData` on the file, when it is found and read. An
`fread` of no bytes reads nothing. -/
def dumpDefaultXex (image : DiskImage) (getXexInfoData : Bytes → Nat → Bool) (s : DiskScan) :
    Bool :=
  let bufsz := sectorAlign s.defaultXexSize
  let start := s.defaultXexSector * XGD_SECTOR_SIZE + image.baseOffset
  if s.defaultXexSector = 0 ∨ s.defaultXexSize = 0 then false
  else if image.fails (.alloc bufsz) then false
  else if image.fails (.seek s.defaultXexSector) then false
  else if bufsz = 0 ∨ image.fails (.read s.defaultXexSector bufsz) then false
  else if start + bufsz ≤ image.isoData.length then
    getXexInfoData (slice image.isoData start bufsz) s.defaultXexSize
  else false

/-- The function returns: from some number of rounds on, the outcome is this. -/
def GetDiskEndReturns (image : DiskImage) (ret : Bool) (s : DiskScan) : Prop :=
  ∃ needed, ∀ fuel, needed ≤ fuel → getDiskEnd image fuel = .ok (ret, s)

/-! ## The tree of tables -/

/-- `Listed image sector size currOff entries`: the table of `size` bytes at
`sector` holds `entries` from `currOff` on, each directory followed by what the
tables below it hold. A derivation is a finite tree of tables that can be read. -/
inductive Listed (image : DiskImage) : Nat → Nat → Nat → List XisoEntry → Prop
  | finish {sector size currOff : Nat} {buf : Bytes}
      (read : image.table sector size = some buf) (past : buf.length ≤ currOff) :
      Listed image sector size currOff []
  | fill {sector size currOff : Nat} {buf : Bytes} {entries : List XisoEntry}
      (read : image.table sector size = some buf) (inside : currOff < buf.length)
      (isFill : (entryAt buf currOff).isFill = true)
      (rest : Listed image sector size (sectorAlign currOff) entries) :
      Listed image sector size currOff entries
  | leaf {sector size currOff : Nat} {buf : Bytes} {entries : List XisoEntry}
      (read : image.table sector size = some buf) (inside : currOff < buf.length)
      (isEntry : (entryAt buf currOff).isFill = false)
      (whole : currOff + 0xE + (entryAt buf currOff).nameSz ≤ buf.length)
      (named : (entryAt buf currOff).nameSz ≤ 128)
      (isLeaf : (entryAt buf currOff).descends = false)
      (rest : Listed image sector size (nextEntry currOff (entryAt buf currOff)) entries) :
      Listed image sector size currOff (entryAt buf currOff :: entries)
  | directory {sector size currOff : Nat} {buf : Bytes} {below entries : List XisoEntry}
      (read : image.table sector size = some buf) (inside : currOff < buf.length)
      (isEntry : (entryAt buf currOff).isFill = false)
      (whole : currOff + 0xE + (entryAt buf currOff).nameSz ≤ buf.length)
      (named : (entryAt buf currOff).nameSz ≤ 128)
      (isDirectory : (entryAt buf currOff).descends = true)
      (nested : Listed image (entryAt buf currOff).sector (entryAt buf currOff).size 0 below)
      (rest : Listed image sector size (nextEntry currOff (entryAt buf currOff)) entries) :
      Listed image sector size currOff (entryAt buf currOff :: (below ++ entries))

def HasEntries (image : DiskImage) (entries : List XisoEntry) : Prop :=
  Listed image image.rootDirSector image.rootDirSize 0 entries

section Scan

variable {image : DiskImage} {sector size currOff : Nat} {entries : List XisoEntry}

theorem listed_table (listed : Listed image sector size currOff entries) :
    ∃ buf, image.table sector size = some buf := by
  cases listed <;> exact ⟨_, by assumption⟩

theorem listed_entry_bounds (listed : Listed image sector size currOff entries) :
    ∀ pent ∈ entries, pent.sector < 0x100000000 ∧ pent.size < 0x100000000 := by
  induction listed with
  | finish => simp
  | fill _ _ _ _ ih => exact ih
  | leaf _ _ _ _ _ _ _ ih =>
      intro pent member
      rcases List.mem_cons.mp member with rfl | later
      · exact ⟨entry_sector_lt _ _, entry_size_lt _ _⟩
      · exact ih pent later
  | directory _ _ _ _ _ _ _ _ belowBounds restBounds =>
      intro pent member
      rcases List.mem_cons.mp member with rfl | later
      · exact ⟨entry_sector_lt _ _, entry_size_lt _ _⟩
      · rcases List.mem_append.mp later with nested | rest
        · exact belowBounds pent nested
        · exact restBounds pent rest

end Scan

/-! ## The ends of the range -/

section Ends

variable {image : DiskImage} {entries : List XisoEntry} {s : DiskScan}

@[simp] theorem note_entry_max (s : DiskScan) (pent : XisoEntry) :
    (noteEntry s pent).maxSector = max s.maxSector pent.endSector := by
  have larger : (noteEntry s pent).maxSector =
      if s.maxSector < pent.endSector then pent.endSector else s.maxSector := by
    rw [noteEntry, noteDefaultXex]
    split_ifs <;> simp [noteSectors, *]
  rw [larger]
  split_ifs <;> omega

@[simp] theorem note_entry_min (s : DiskScan) (pent : XisoEntry) :
    (noteEntry s pent).minSector = min s.minSector pent.sector := by
  have smaller : (noteEntry s pent).minSector =
      if pent.sector < s.minSector then pent.sector else s.minSector := by
    rw [noteEntry, noteDefaultXex]
    split_ifs <;> simp [noteSectors, *]
  rw [smaller]
  split_ifs <;> omega

theorem scan_min_le (entries : List XisoEntry) (s : DiskScan) :
    (entries.foldl noteEntry s).minSector ≤ s.minSector ∧
      ∀ pent ∈ entries, (entries.foldl noteEntry s).minSector ≤ pent.sector := by
  induction entries generalizing s with
  | nil => simp
  | cons pent entries ih =>
      obtain ⟨start, members⟩ := ih (noteEntry s pent)
      rw [note_entry_min] at start
      refine ⟨by rw [List.foldl_cons]; omega, ?_⟩
      intro other member
      rw [List.foldl_cons]
      rcases List.mem_cons.mp member with rfl | later
      · omega
      · exact members other later

theorem scan_max_le_iff (entries : List XisoEntry) (s : DiskScan) (bound : Nat) :
    (entries.foldl noteEntry s).maxSector ≤ bound ↔
      s.maxSector ≤ bound ∧ ∀ pent ∈ entries, pent.endSector ≤ bound := by
  induction entries generalizing s with
  | nil => simp
  | cons pent entries ih =>
      rw [List.foldl_cons, ih, note_entry_max, List.forall_mem_cons, Nat.max_le, and_assoc]

end Ends

end XeBuild.Iso2svod
