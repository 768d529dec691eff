import XeBuild.CStrings
import XeBuild.Iso2svod.DirectoryScan
import XeBuild.Iso2svod.XexInflate
import XeBuild.Lib.SearchLoop

/-!
# XEX headers of `xexinfo.c`

`getXexInfo` and the functions below it, over the bytes of the file. The fields
of the header are big-endian. An access outside of the file or of the output
image is a fault; AES, the signature, the decompression and the reading of the SPA
section are taken as they are given, with the ranges that they are handed.
-/

namespace XeBuild.Iso2svod

open CheckedBuffer ListRange Runs SearchLoop

set_option autoImplicit false

def XEX_HEADER_MAGIC : Nat := 0x58455832
def XEX_HEADER_EXECUTION_ID : Nat := 0x40006
def XEX_FILE_DATA_DESCRIPTOR_HEADER : Nat := 0x3FF
def XEX_HEADER_SECTION_TABLE : Nat := 0x2FF
def XEX_SECURITY_INFO_SIZE : Nat := 0x184
def XEX_EXECUTION_ID_SIZE : Nat := 0x18
def XEX_DATA_FORMAT_RAW : Nat := 1
def XEX_DATA_FORMAT_COMPRESSED : Nat := 2

def loadBe32 (buf : Bytes) (offset : Nat) : Except Fault Nat := getBe32 <$> load buf offset 4
def loadLe32 (buf : Bytes) (offset : Nat) : Except Fault Nat := getLe32 <$> load buf offset 4
def loadBe16 (buf : Bytes) (offset : Nat) : Except Fault Nat := getBe16 <$> load buf offset 2

section Fields

variable {buf : Bytes} {offset value : Nat}

theorem load_be32_iff :
    loadBe32 buf offset = .ok value ↔ offset + 4 ≤ buf.length ∧ value = be32 buf offset := by
  rw [loadBe32, load]
  by_cases inside : offset + 4 ≤ buf.length
  · rw [if_pos inside]
    constructor
    · intro run
      cases run
      exact ⟨inside, rfl⟩
    · intro both
      rw [both.2]
      rfl
  · rw [if_neg inside]
    constructor
    · intro run
      cases run
    · intro both
      exact absurd both.1 inside

theorem load_be32_inside (inside : offset + 4 ≤ buf.length) :
    loadBe32 buf offset = .ok (be32 buf offset) := load_be32_iff.mpr ⟨inside, rfl⟩

end Fields

/-! ## The header directory -/

/-- How often `for (i = 0; i < numEntries; i++)` goes for an `int` with these bits. -/
def intRounds (numEntries : Nat) : Nat := if numEntries < 0x80000000 then numEntries else 0

/-- The test of one entry; the first one is behind `IMAGE_XEX_HEADER`. -/
def headerProbe (xexbuf : Bytes) (field i : Nat) : Except Fault (Option Nat) := do
  let key ← loadBe32 xexbuf (0x18 + 8 * i)
  return if key = field then some (0x18 + 8 * i) else none

def getXexHeaderField (xexbuf : Bytes) (field numEntries : Nat) : Except Fault (Option Nat) :=
  search (headerProbe xexbuf field) (intRounds numEntries) 0

/-- The search of `getXexExecInfo`, which swaps `HeaderDirectoryEntryCount`. -/
def execInfoField (xhdr : Bytes) : Except Fault (Option Nat) := do
  let count ← loadLe32 xhdr 0x14
  getXexHeaderField xhdr XEX_HEADER_EXECUTION_ID (bswap32 count)

/-- The search of `xexGetSpaInfo`. -/
def fileDataField (xhdr : Bytes) : Except Fault (Option Nat) := do
  let count ← loadLe32 xhdr 0x14
  getXexHeaderField xhdr XEX_FILE_DATA_DESCRIPTOR_HEADER count

/-- The search of `xexGetSpaOffset`. -/
def sectionTableField (xhdr : Bytes) : Except Fault (Option Nat) := do
  let count ← loadLe32 xhdr 0x14
  getXexHeaderField xhdr XEX_HEADER_SECTION_TABLE count

/-! ## `getXexExecInfo` -/

/-- The execution ID; `none` for `FALSE`. -/
def getXexExecInfo (xhdr : Bytes) : Except Fault (Option Bytes) := do
  match ← execInfoField xhdr with
  | none => return none
  | some curBuf =>
      let tmp32 ← loadBe32 xhdr (curBuf + 4)
      if sub32 xhdr.length XEX_EXECUTION_ID_SIZE < tmp32 then return none
      else
        let pxid ← load xhdr tmp32 XEX_EXECUTION_ID_SIZE
        return some pxid

/-! ## `xexGetSpaOffset` -/

def hexDigitX (digit : Nat) : Byte :=
  UInt8.ofNat (if digit < 10 then 0x30 + digit else 0x37 + digit)

def hexX (value : Nat) : Bytes :=
  let digits := [value / 0x10000000 % 0x10, value / 0x1000000 % 0x10, value / 0x100000 % 0x10,
    value / 0x10000 % 0x10, value / 0x1000 % 0x10, value / 0x100 % 0x10, value / 0x10 % 0x10]
  (digits.dropWhile (· == 0)).map hexDigitX ++ [hexDigitX (value % 0x10)]

/-- The test of one character: `false` at a difference, `true` at the end. -/
def charProbe (name buf : Bytes) (offset index : Nat) : Except Fault (Option Bool) := do
  let char ← load buf (offset + index) 1
  let left := toLower (name.getD index 0)
  return if left ≠ toLower (char.getD 0 0) then some false
    else if left = 0 then some true else none

/-- `strnicmp(name, &buf[offset], 8) == 0`; no byte behind the first difference or
the end of the strings is read. -/
def strnicmp8 (name buf : Bytes) (offset : Nat) : Except Fault Bool := do
  let stop ← search (charProbe name buf offset) 8 0
  return stop.getD true

def sectionAt (xsect i : Nat) : Nat := xsect + 4 + 0x10 * i

def sectionProbe (name buf : Bytes) (xsect i : Nat) : Except Fault (Option Nat) := do
  let same ← strnicmp8 name buf (sectionAt xsect i)
  return if same then some (sectionAt xsect i) else none

/-- The offset of the first section of the name, among those that `Size` has
room for. -/
def sectionSearch (xhdr sectionName : Bytes) (xsect : Nat) : Except Fault (Option Nat) := do
  let size ← loadBe32 xhdr xsect
  search (sectionProbe sectionName xhdr xsect) (sub32 size 4 / 0x10) 0

/-- The virtual address and the virtual size; zeros when there is none. -/
def xexGetSpaOffset (xhdr sectionName : Bytes) : Except Fault (Nat × Nat) := do
  match ← sectionTableField xhdr with
  | none => return (0, 0)
  | some curBuf =>
      let tmp32 ← loadBe32 xhdr (curBuf + 4)
      match ← sectionSearch xhdr sectionName tmp32 with
      | none => return (0, 0)
      | some found =>
          let spaLen ← loadBe32 xhdr (found + 0xC)
          let address ← loadBe32 xhdr (found + 8)
          return (address, spaLen)

/-! ## `xexGetSpaInfo` -/

/-- What is not in this file: the memory that is given, `XeCryptBnQwBeSigVerify` of a
signature and the hash of some data, with `RevXexSalt` or `XexSalt` and the key for devkits
or the other one, `xexDoDecrypt` with the key for manufacturing or the other one, and the
functions behind it. -/
structure XexEnv where
  mallocs : Nat → Bool
  sigVerify : (devkit revSalt : Bool) → (signature dat : Bytes) → Bool
  xexDoDecrypt : Bool → Bytes → Bytes → Bytes
  decrypt_length : ∀ mfgSupport imageKey data,
    (xexDoDecrypt mfgSupport imageKey data).length = data.length
  unpackXexData : Bytes → Nat → Nat → Bytes → Nat → Nat → Nat → Option Bytes
  getSpaInfo : Bytes → Nat → Nat → Bool

/-- What `xexCheckSignature` prints; it returns `TRUE` for all of them. -/
inductive SignedBy
  | devkit
  | retail
  | unsigned
  deriving DecidableEq

/-- The hash is taken from `InfoSize` on, over as many bytes as it says, less the signature. -/
def xexCheckSignature (env : XexEnv) (xhdr : Bytes) (xsec : Nat) : Except Fault SignedBy := do
  let flags ← loadBe32 xhdr (xsec + 0x10C)
  let infoSize ← loadBe32 xhdr (xsec + 0x108)
  let dat ← load xhdr (xsec + 0x108) (sub32 infoSize 0x100)
  let signature ← load xhdr (xsec + 8) 0x100
  let revSalt := flags / 0x80000000 % 2 == 1
  return if env.sigVerify true revSalt signature dat then .devkit
    else if env.sigVerify false revSalt signature dat then .retail else .unsigned

def decryptImage (env : XexEnv) (xhdr : Bytes) (xsec curBuf : Nat) : Except Fault Bytes := do
  let flags ← loadBe32 xhdr (xsec + 0x10C)
  let imageKey ← load xhdr (xsec + 0x150) 0x10
  let data ← load xhdr curBuf (sub32 xhdr.length curBuf)
  store xhdr curBuf (env.xexDoDecrypt (flags / 4 % 2 == 1) imageKey data)

structure RawCopy where
  outbuf : Bytes
  curBuf : Nat
  tmp32 : Nat
  deriving DecidableEq

def copyRawRecord (xhdr : Bytes) (fdesc i : Nat) (s : RawCopy) : Except Fault RawCopy := do
  let rds ← loadBe32 xhdr (fdesc + 8 + 8 * i)
  let zds ← loadBe32 xhdr (fdesc + 8 + 8 * i + 4)
  if rds = 0 then return { s with tmp32 := u32 (s.tmp32 + zds) }
  else
    let data ← load xhdr s.curBuf rds
    let outbuf ← store s.outbuf s.tmp32 data
    return ⟨outbuf, s.curBuf + rds, u32 (u32 (s.tmp32 + rds) + zds)⟩

def copyRaw (xhdr : Bytes) (fdesc : Nat) : Nat → Nat → RawCopy → Except Fault RawCopy
  | 0, _, s => .ok s
  | rounds + 1, i, s => do
      let s ← copyRawRecord xhdr fdesc i s
      copyRaw xhdr fdesc rounds (i + 1) s

/-- The output image; `none` when the format is unknown or `unpackXexData` fails. -/
def layOutImage (env : XexEnv) (xhdr : Bytes) (xsec curBuf fdesc : Nat) (outbuf : Bytes) :
    Except Fault (Option Bytes) := do
  let format ← loadBe16 xhdr (fdesc + 6)
  if format = XEX_DATA_FORMAT_RAW then
    let size ← loadBe32 xhdr fdesc
    let s ← copyRaw xhdr fdesc (sub32 size 8 / 8) 0 ⟨outbuf, curBuf, 0⟩
    return some s.outbuf
  else if format = XEX_DATA_FORMAT_COMPRESSED then
    -- The size of the headers is loaded again, from what may be decrypted by now.
    let headers ← loadBe32 xhdr 8
    let outSz ← loadBe32 xhdr (xsec + 4)
    let winSz ← loadBe32 xhdr (fdesc + 8)
    let firstSz ← loadBe32 xhdr (fdesc + 0xC)
    return env.unpackXexData xhdr headers (sub32 xhdr.length headers) outbuf outSz winSz firstSz
  else return none

/-- The SPA section of the image, when its place is inside. -/
def readSpa (env : XexEnv) (xhdr : Bytes) (xsec titleId : Nat) (outbuf : Bytes) :
    Except Fault Bool := do
  let (address, spaLen) ← xexGetSpaOffset xhdr (hexX titleId)
  if address = 0 then return false
  else
    let loadAddress ← loadBe32 xhdr (xsec + 0x110)
    let imageSize ← loadBe32 xhdr (xsec + 4)
    let spaOff := sub32 address loadAddress
    if u32 (spaOff + spaLen) ≤ imageSize then return env.getSpaInfo outbuf spaOff spaLen
    else return false

def xexGetSpaInfo (env : XexEnv) (xhdr : Bytes) (xsec titleId : Nat) : Except Fault Bool := do
  let curBuf ← fileDataField xhdr
  let imageSize ← loadBe32 xhdr (xsec + 4)
  match curBuf with
  | none => return false
  | some curBuf =>
      if env.mallocs imageSize then
        let fdesc ← loadBe32 xhdr (curBuf + 4)
        let _ ← xexCheckSignature env xhdr xsec
        let flags ← loadBe16 xhdr (fdesc + 4)
        let headers ← loadBe32 xhdr 8
        let xhdr ← if flags % 2 = 1 then decryptImage env xhdr xsec headers else .ok xhdr
        match ← layOutImage env xhdr xsec headers fdesc (zeros imageSize) with
        | none => return false
        | some outbuf => readSpa env xhdr xsec titleId outbuf
      else return false

/-! ## `getXexInfo` -/

/-- The result, and what is copied for the container's metadata. -/
structure XexResult where
  ret : Bool
  mediaId : Option Bytes
  executionId : Option Bytes
  spaInfo : Bool
  deriving DecidableEq

def getXexInfo (env : XexEnv) (buf : Bytes) : Except Fault XexResult := do
  let magic ← loadBe32 buf 0
  if magic ≠ XEX_HEADER_MAGIC then return ⟨false, none, none, false⟩
  else
    let xsec ← loadBe32 buf 0x10
    if sub32 buf.length XEX_SECURITY_INFO_SIZE < xsec then return ⟨false, none, none, false⟩
    else
      let mediaId ← load buf (xsec + 0x140) 0x10
      match ← getXexExecInfo buf with
      | none => return ⟨true, some mediaId, none, false⟩
      | some executionId =>
          let spaInfo ← xexGetSpaInfo env buf xsec (be32 executionId 0xC)
          return ⟨true, some mediaId, some executionId, spaInfo⟩

end XeBuild.Iso2svod
