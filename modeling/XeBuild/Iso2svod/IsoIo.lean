import Mathlib.Logic.Function.Basic
import XeBuild.Bytes

/-!
# The conversion of `isoio.c`

A transcription of the second half of `isoio.c` and of `finalizeHeaderFile`:
the descriptor fields computed from the sector range, the copy loop, and the
pass that goes back over the data files. Static buffers are byte lists of their
C sizes; nothing in the definitions keeps an index inside them. `fread`,
`fwrite` and `fopen` can fail at every place the run reaches them. A failing
transfer still moves the bytes that went through before it failed.
-/

namespace XeBuild.Iso2svod

open ListRange

set_option autoImplicit false

/-! ## Constants of `isoio.c` and field offsets of `xcontent.h` -/

def XGD_SECTOR_SIZE : Nat := 0x800
def XGD_ISO_BASE_OFFSET : Nat := 0x10000
def SVOD_START_SECTOR : Nat := XGD_ISO_BASE_OFFSET / XGD_SECTOR_SIZE
def SVOD_MAX_DATA_BLOCK_SIZE : Nat := 0xCC000
def SVOD_MAX_DATA_BLOCK_COUNT : Nat := 0xCB

def headerSize : Nat := 0xB000
def contentIdOffset : Nat := 0x32C
/-- `xMeta` points here in `headerBuffer`. -/
def metaOffset : Nat := 0x344
/-- `xMeta->Volume.SvodVolumeDescriptor`. -/
def svodOffset : Nat := metaOffset + 0x35
def firstFragmentHashOffset : Nat := svodOffset + 0x4
/-- `NumberOfDataBlocks2`, `1` and `0`, in this order. -/
def numberOfDataBlocksOffset : Nat := svodOffset + 0x19
/-- `StartingDataBlock0`, `1` and `2`, in this order. -/
def startingDataBlockOffset : Nat := svodOffset + 0x1C
def dataFilesOffset : Nat := metaOffset + 0x59
def dataFilesSizeOffset : Nat := metaOffset + 0x5D
/-- `NextFragmentHashEntry` in `SVOD_LEVEL1_HASH_BLOCK`, after `0xCB` entries. -/
def nextFragmentOffset : Nat := 0xFDC

/-! ## State -/

/-- The calls of the conversion that can fail, each named by its place in the
source and by the data file and segment it serves. -/
inductive IoCall
  | openData (num : Nat)
  | writeDummy (num : Nat)
  | readVolume
  | readSegment (num block : Nat)
  | writeBlock (num block : Nat)
  | writeHeader (num : Nat)
  | reopenData (num : Nat)
  | rereadHeader (num : Nat)
  | rewriteHeader (num : Nat)
  deriving DecidableEq, Repr

/-- What the run meets: the digest, the image file with the offset of its game
partition, and the calls that fail. A transfer named by `fails` stops after the
given number of bytes. -/
structure Env where
  sha : Sha
  isoData : Bytes
  baseOffset : Nat
  fails : IoCall → Option Nat

/-- The statics of `isoio.c`, the header of `main.c`, and the output folder.
`openFiles`, `calls` and `hashed` only record the run: the handles that are
open, every fallible call with its outcome, and every input of `XeCryptSha`,
the latest first. -/
structure IsoIo where
  minSector : UInt32
  maxSector : UInt32
  isoPos : Nat
  lv1hash : Bytes
  level0HashBlock : Bytes
  dataBlocks : Bytes
  headerBuffer : Bytes
  disk : Nat → Option Bytes
  openFiles : List Nat
  calls : List (IoCall × Bool)
  hashed : List Bytes

def IsoIo.initial (minSector maxSector : UInt32) (isoPos : Nat) (headerBuffer : Bytes) : IsoIo where
  minSector := minSector
  maxSector := maxSector
  isoPos := isoPos
  lv1hash := zeros 0x1000
  level0HashBlock := zeros 0x1000
  dataBlocks := zeros SVOD_MAX_DATA_BLOCK_SIZE
  headerBuffer := headerBuffer
  disk := fun _ => none
  openFiles := []
  calls := []
  hashed := []

structure DataFile where
  num : Nat
  pos : Nat

def IsoIo.log (s : IsoIo) (call : IoCall) (ok : Bool) : IsoIo :=
  { s with calls := (call, ok) :: s.calls }

/-! ## The C library -/

/-- The bytes that go through in one transfer of one item. A transfer that
reports failure has lost at least the last byte. -/
def transferred (failure : Option Nat) (items : Bytes) : Bytes :=
  match failure with
  | none => items
  | some count => items.take (min count (items.length - 1))

def fwrite (env : Env) (call : IoCall) (items : Bytes) (fptr : DataFile) (s : IsoIo) :
    Bool × DataFile × IsoIo :=
  let sent := transferred (env.fails call) items
  let ok := (env.fails call).isNone
  let contents := (s.disk fptr.num).getD []
  (ok, { fptr with pos := fptr.pos + sent.length },
    { s.log call ok with
      disk := Function.update s.disk fptr.num (some (patch contents fptr.pos sent)) })

def fclose (fptr : DataFile) (s : IsoIo) : IsoIo :=
  { s with openFiles := s.openFiles.erase fptr.num }

/-! ## Reading the image -/

def setIsoSector (env : Env) (sector : Nat) (s : IsoIo) : IsoIo :=
  { s with isoPos := sector * XGD_SECTOR_SIZE + env.baseOffset }

/-- The result, the bytes that reached the destination, and the new state. A
read past the end of the image fails as well. -/
def readIsoData (env : Env) (call : IoCall) (len : Nat) (s : IsoIo) : Bool × Bytes × IsoIo :=
  let got := transferred (env.fails call) (slice env.isoData s.isoPos len)
  let ok := (env.fails call).isNone && decide (s.isoPos + len ≤ env.isoData.length)
  (ok, got, { s.log call ok with isoPos := s.isoPos + got.length })

/-! ## Descriptor fields -/

def calcDataFileSizes (s : IsoIo) : IsoIo :=
  let dataSectors := u32 (u32 (sub32 s.maxSector.toNat s.minSector.toNat + 1) / 2 + 1)
  let dataBlocks := dataSectors / 0xCC + if dataSectors % 0xCC ≠ 0 then 1 else 0
  let fileCnt := dataBlocks / 0xCB + if dataBlocks % 0xCB ≠ 0 then 1 else 0
  let instSz := fileCnt * 0x1000 + dataSectors * 0x1000 + dataBlocks * 0x1000
  let headerBuffer := patch s.headerBuffer dataFilesOffset (hostU32 (bswap32 fileCnt))
  { s with
    headerBuffer := patch headerBuffer dataFilesSizeOffset (hostU64 (bswap64 instSz)) }

def calcDataBlocks (s : IsoIo) : IsoIo :=
  let rootXstrt := s.minSector.toNat / 2
  let rootXsz := sub32 s.maxSector.toNat s.minSector.toNat / 2
  let headerBuffer := patch s.headerBuffer startingDataBlockOffset
    [UInt8.ofNat rootXstrt, UInt8.ofNat (rootXstrt / 0x100), UInt8.ofNat (rootXstrt / 0x10000)]
  { s with
    headerBuffer := patch headerBuffer numberOfDataBlocksOffset
      [UInt8.ofNat (rootXsz / 0x10000), UInt8.ofNat (rootXsz / 0x100), UInt8.ofNat rootXsz] }

/-! ## Hashing and writing -/

def hashBlock (env : Env) (i : Nat) (s : IsoIo) : IsoIo :=
  let block := slice s.dataBlocks (i * 0x1000) 0x1000
  { s with
    level0HashBlock := patch s.level0HashBlock (i * 0x14) (env.sha block).bytes
    hashed := block :: s.hashed }

def doBlockHashes (env : Env) : Nat → IsoIo → IsoIo
  | 0, s => s
  | num + 1, s => hashBlock env num (doBlockHashes env num s)

def doLevel1Hash (env : Env) (num : Nat) (s : IsoIo) : IsoIo :=
  { s with
    lv1hash := patch s.lv1hash (num * 0x14) (env.sha s.level0HashBlock).bytes
    hashed := s.level0HashBlock :: s.hashed }

/-- `fopen(.., "wb+")` empties the file; the zeroed header is a dummy. -/
def startNewFile (env : Env) (num : Nat) (s : IsoIo) : Option DataFile × IsoIo :=
  match env.fails (.openData num) with
  | some _ => (none, s.log (.openData num) false)
  | none =>
      let s := { s.log (.openData num) true with
        disk := Function.update s.disk num (some [])
        openFiles := num :: s.openFiles
        lv1hash := zeros 0x1000 }
      let (ok, fptr, s) := fwrite env (.writeDummy num) s.lv1hash ⟨num, 0⟩ s
      if ok then (some fptr, s) else (none, fclose fptr s)

/-- The result of `fwrite` is only printed: the function always returns `TRUE`. -/
def writeBlockToFile (env : Env) (call : IoCall) (fptr : DataFile) (sectorsHashed : Nat)
    (s : IsoIo) : Bool × DataFile × IsoIo :=
  let size := u32 (sectorsHashed * 0x1000 + 0x1000)
  let (_, fptr, s) := fwrite env call ((s.level0HashBlock ++ s.dataBlocks).take size) fptr s
  (true, fptr, s)

def writeHeaderToFile (env : Env) (call : IoCall) (fptr : DataFile) (s : IsoIo) :
    Bool × DataFile × IsoIo :=
  fwrite env call s.lv1hash { fptr with pos := 0 } s

/-! ## The copy loop -/

/-- The locals of `writeIsoBody`. `curOff` is only ever `0x1000`, in the very
first segment, or zero. -/
structure BodyLoop where
  curFileNum : Nat
  curBlock : Nat
  curOff : Nat
  sectorsRem : Nat
  curFile : DataFile
  firstOff : curOff ≤ 0x1000

def dataToRead (l : BodyLoop) : Nat :=
  if (SVOD_MAX_DATA_BLOCK_SIZE - l.curOff) / XGD_SECTOR_SIZE ≤ l.sectorsRem then
    SVOD_MAX_DATA_BLOCK_SIZE - l.curOff
  else u32 (l.sectorsRem * XGD_SECTOR_SIZE)

def sectorsToRead (l : BodyLoop) : Nat := dataToRead l / XGD_SECTOR_SIZE

def sectorsToHash (l : BodyLoop) : Nat :=
  (sectorsToRead l + 1) / 2 + if l.curOff ≠ 0 then l.curOff / (XGD_SECTOR_SIZE * 2) else 0

/-- From the hashes of one segment to the cleared buffer after its write. -/
def storeSegment (env : Env) (l : BodyLoop) (s : IsoIo) : DataFile × IsoIo :=
  let s := doBlockHashes env (sectorsToHash l) s
  let s := doLevel1Hash env l.curBlock s
  let (_, fptr, s) := writeBlockToFile env (.writeBlock l.curFileNum l.curBlock) l.curFile
    (sectorsToHash l) s
  (fptr, { s with
    level0HashBlock := zeros 0x1000
    dataBlocks := zeros SVOD_MAX_DATA_BLOCK_SIZE })

inductive PassResult
  | failed (s : IsoIo)
  | next (l : BodyLoop) (s : IsoIo)

/-- The end of a pass: close the file at its last segment, open the next one
only while sectors remain. -/
def endSegment (env : Env) (l : BodyLoop) (fptr : DataFile) (s : IsoIo) : PassResult :=
  let sectorsRem := sub32 l.sectorsRem (sectorsToRead l)
  let curBlock := l.curBlock + 1
  if curBlock = SVOD_MAX_DATA_BLOCK_COUNT ∨ sectorsRem = 0 then
    let (_, fptr, s) := writeHeaderToFile env (.writeHeader l.curFileNum) fptr s
    let s := fclose fptr s
    if sectorsRem ≠ 0 then
      match startNewFile env (l.curFileNum + 1) s with
      | (none, s) => .failed s
      | (some fptr, s) => .next ⟨l.curFileNum + 1, 0, 0, sectorsRem, fptr, Nat.zero_le _⟩ s
    else .next ⟨l.curFileNum, 0, 0, sectorsRem, fptr, Nat.zero_le _⟩ s
  else .next ⟨l.curFileNum, curBlock, 0, sectorsRem, fptr, Nat.zero_le _⟩ s

def bodyPass (env : Env) (l : BodyLoop) (s : IsoIo) : PassResult :=
  let (ok, got, s) := readIsoData env (.readSegment l.curFileNum l.curBlock) (dataToRead l) s
  let s := { s with dataBlocks := patch s.dataBlocks l.curOff got }
  if ok then
    let (fptr, s) := storeSegment env l s
    endSegment env l fptr s
  else .failed s

/-- What one pass can do to the loop variables: it consumes the sectors it read. -/
theorem body_pass_sectors {env : Env} {l l' : BodyLoop} {s s' : IsoIo}
    (pass : bodyPass env l s = .next l' s') :
    l'.sectorsRem = sub32 l.sectorsRem (sectorsToRead l) := by
  simp only [bodyPass] at pass
  split at pass
  · simp only [endSegment] at pass
    split at pass
    · split at pass
      · split at pass
        · cases pass
        · cases pass
          rfl
      · cases pass
        rfl
    · cases pass
      rfl
  · cases pass

theorem sectors_to_read_bounds (l : BodyLoop) (more : l.sectorsRem ≠ 0) :
    0 < sectorsToRead l ∧ sectorsToRead l ≤ l.sectorsRem := by
  have small := l.firstOff
  rw [sectorsToRead]
  by_cases full : (SVOD_MAX_DATA_BLOCK_SIZE - l.curOff) / XGD_SECTOR_SIZE ≤ l.sectorsRem
  · rw [dataToRead, if_pos full]
    simp only [SVOD_MAX_DATA_BLOCK_SIZE, XGD_SECTOR_SIZE] at full ⊢
    omega
  · rw [dataToRead, if_neg full]
    simp only [SVOD_MAX_DATA_BLOCK_SIZE, XGD_SECTOR_SIZE, u32] at full ⊢
    omega

theorem body_pass_decreases {env : Env} {l l' : BodyLoop} {s s' : IsoIo}
    (more : l.sectorsRem ≠ 0) (pass : bodyPass env l s = .next l' s') :
    l'.sectorsRem < l.sectorsRem := by
  have bounds := sectors_to_read_bounds l more
  rw [body_pass_sectors pass, sub32]
  omega

/-- The loop, with the value `writeIsoBody` returns: the number of the last
file, or zero where the source returns after an error. -/
def bodyLoop (env : Env) (l : BodyLoop) (s : IsoIo) : Nat × IsoIo :=
  if _more : l.sectorsRem = 0 then (l.curFileNum, s)
  else
    match _pass : bodyPass env l s with
    | .failed s' => (0, s')
    | .next l' s' => bodyLoop env l' s'
termination_by l.sectorsRem
decreasing_by exact body_pass_decreases _more _pass

theorem body_loop_done {env : Env} {l : BodyLoop} {s : IsoIo} (done : l.sectorsRem = 0) :
    bodyLoop env l s = (l.curFileNum, s) := by
  rw [bodyLoop]
  simp [done]

theorem body_loop_next {env : Env} {l l' : BodyLoop} {s s' : IsoIo} (more : l.sectorsRem ≠ 0)
    (pass : bodyPass env l s = .next l' s') : bodyLoop env l s = bodyLoop env l' s' := by
  rw [bodyLoop, dif_neg more]
  split
  · next _ failed => rw [pass] at failed; cases failed
  · next _ _ passed => rw [pass] at passed; cases passed; rfl

theorem body_loop_failed {env : Env} {l : BodyLoop} {s s' : IsoIo} (more : l.sectorsRem ≠ 0)
    (pass : bodyPass env l s = .failed s') : bodyLoop env l s = (0, s') := by
  rw [bodyLoop, dif_neg more]
  split
  · next _ failed => rw [pass] at failed; cases failed; rfl
  · next _ _ passed => rw [pass] at passed; cases passed

/-- The result of the read of the volume descriptor is not looked at. -/
def writeIsoBody (env : Env) (s : IsoIo) : Nat × IsoIo :=
  match startNewFile env 0 s with
  | (none, s) => (0, s)
  | (some fptr, s) =>
      let s := setIsoSector env SVOD_START_SECTOR s
      let (_, got, s) := readIsoData env .readVolume 0x1000 s
      let s := { s with dataBlocks := patch s.dataBlocks 0 got }
      let s := setIsoSector env s.minSector.toNat s
      bodyLoop env
        ⟨0, 0, 0x1000, sub32 s.maxSector.toNat s.minSector.toNat, fptr, Nat.le_refl _⟩ s

/-! ## Going back over the headers -/

/-- `fopen(.., "rb+")` needs the file; a short header fails the read. -/
def getHeaderData (env : Env) (num : Nat) (s : IsoIo) : Option DataFile × IsoIo :=
  match env.fails (.reopenData num), s.disk num with
  | none, some contents =>
      let s := { s.log (.reopenData num) true with openFiles := num :: s.openFiles }
      let got := transferred (env.fails (.rereadHeader num)) (slice contents 0 0x1000)
      let ok := (env.fails (.rereadHeader num)).isNone && decide (0x1000 ≤ contents.length)
      let s := { s.log (.rereadHeader num) ok with lv1hash := patch s.lv1hash 0 got }
      let fptr : DataFile := ⟨num, got.length⟩
      if ok then (some fptr, s) else (none, fclose fptr s)
  | _, _ => (none, s.log (.reopenData num) false)

/-- One round for file `i`: `hashInfo` holds the digest of the next header. -/
def fixHeader (env : Env) (lastFile i : Nat) (hashInfo : Digest) (s : IsoIo) :
    Option Digest × IsoIo :=
  match getHeaderData env i s with
  | (none, s) => (none, s)
  | (some fptr, s) =>
      let s := if i ≠ lastFile then
          { s with lv1hash := patch s.lv1hash nextFragmentOffset hashInfo.bytes }
        else s
      let hashInfo := env.sha s.lv1hash
      let s := { s with hashed := s.lv1hash :: s.hashed }
      let (fptr, s) := if i ≠ lastFile then
          let (_, fptr, s) := writeHeaderToFile env (.rewriteHeader i) fptr s
          (fptr, s)
        else (fptr, s)
      (some hashInfo, fclose fptr s)

def fixHeaders (env : Env) (lastFile : Nat) : Nat → Digest → IsoIo → Option Digest × IsoIo
  | 0, hashInfo, s => (some hashInfo, s)
  | count + 1, hashInfo, s =>
      match fixHeader env lastFile count hashInfo s with
      | (none, s) => (none, s)
      | (some hashInfo, s) => fixHeaders env lastFile count hashInfo s

def fixIsoHeaders (env : Env) (lastFile : Nat) (s : IsoIo) : Bool × IsoIo :=
  match fixHeaders env lastFile (lastFile + 1) Digest.zero s with
  | (none, s) => (false, s)
  | (some hashInfo, s) =>
      (true, { s with
        headerBuffer := patch s.headerBuffer firstFragmentHashOffset hashInfo.bytes })

def isoToSvod (env : Env) (s : IsoIo) : Bool × IsoIo :=
  let (numFiles, s) := writeIsoBody env s
  if numFiles ≠ 0 then
    let (_, s) := fixIsoHeaders env numFiles s
    (true, s)
  else (false, s)

def finalizeHeaderFile (env : Env) (s : IsoIo) : IsoIo :=
  let shaOut := env.sha (slice s.headerBuffer metaOffset (headerSize - metaOffset))
  { s with headerBuffer := patch s.headerBuffer contentIdOffset shaOut.bytes }

end XeBuild.Iso2svod
