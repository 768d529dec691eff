import XeBuild.Iso2svod.XexInfo

/-!
# The SPA section of `spa.c`

`getSpaInfo` over the bytes it is handed: the header, the entries of the table,
the icon and the gzip stream of the title strings. What the inflater and
`parseStringsXrXml` make of their input is taken as it is given. A load outside
of the bytes is a fault.
-/

namespace XeBuild.Iso2svod

open CheckedBuffer ListRange Runs

set_option autoImplicit false

def XDBF_MAGIC : Nat := 0x58444246
def XSRC_MAGIC : Nat := 0x58535243

structure Thumbnail where
  bytes : Bytes
  full : bytes.length = 0x3D00
  deriving DecidableEq

structure TitleInfo (Strings : Type) where
  thumbnail : Thumbnail
  titleThumbnail : Thumbnail
  thumbnailSize : Nat
  titleThumbnailSize : Nat
  strings : Strings
  deriving DecidableEq

/-- The memory that is given for the XML file, and the functions that it passes
through. -/
structure SpaEnv (Strings : Type) where
  mallocs : Nat → Bool
  unpackGzipStreamData : Bytes → Nat → Option Bytes
  parseStringsXrXml : Bytes → Strings → Bool × Strings

structure XbdfEntry where
  type : Nat
  ident : Nat
  offset : Nat
  len : Nat
  deriving DecidableEq

def getEntryInfo (entData : Bytes) : XbdfEntry :=
  ⟨getBe16 entData, getBe64 (entData.drop 2), getBe32 (entData.drop 0xA),
    getBe32 (entData.drop 0xE)⟩

def XbdfEntry.isIcon (ent : XbdfEntry) : Bool := ent.type == 2 && ent.ident == 0x8000
def XbdfEntry.isXsrc (ent : XbdfEntry) : Bool := ent.type == 1 && ent.ident == XSRC_MAGIC

theorem copied_full (thumbnail : Thumbnail) {png : Bytes} (fits : png.length ≤ 0x3D00) :
    (patch thumbnail.bytes 0 png).length = 0x3D00 := by
  have full := thumbnail.full
  rw [patch_length (by omega), full]

def Thumbnail.copy (thumbnail : Thumbnail) (png : Bytes) : Except Fault Thumbnail :=
  if fits : png.length ≤ 0x3D00 then
    .ok ⟨patch thumbnail.bytes 0 png, copied_full thumbnail fits⟩
  else .error (.store 0 png.length)

/-! ## `parseStringsXrsc` -/

section Strings

variable {Strings : Type}

/-- The stream that starts at `xrsc`. The length of the entry is handed over, but
never looked at. -/
def parseStringsXrsc (env : SpaEnv Strings) (spa : Bytes) (xrsc : Nat) (strings : Strings) :
    Except Fault (Bool × Strings) := do
  let magic ← loadBe32 spa xrsc
  if magic ≠ XSRC_MAGIC then return (false, strings)
  else
    let fileNameLen ← loadBe32 spa (xrsc + 0xC)
    let bod := xrsc + u32 (0x10 + fileNameLen)
    let decompressedSize ← loadBe32 spa bod
    if env.mallocs decompressedSize then
      let compressedSize ← loadBe32 spa (bod + 4)
      let compData ← load spa (bod + 8) compressedSize
      match env.unpackGzipStreamData compData decompressedSize with
      | none => return (false, strings)
      | some decompBuf => return env.parseStringsXrXml decompBuf strings
    else return (false, strings)

/-! ## `getSpaInfo` -/

structure SpaRun (Strings : Type) where
  info : TitleInfo Strings
  hasIcon : Bool
  hasName : Bool

def copyIcon (spa : Bytes) (start len : Nat) (s : SpaRun Strings) :
    Except Fault (SpaRun Strings) := do
  let png ← load spa start len
  let thumbnail ← s.info.thumbnail.copy png
  let titleThumbnail ← s.info.titleThumbnail.copy png
  return { s with
    info := { s.info with
      thumbnail := thumbnail
      titleThumbnail := titleThumbnail
      thumbnailSize := bswap32 len
      titleThumbnailSize := bswap32 len }
    hasIcon := true }

def addStrings (env : SpaEnv Strings) (spa : Bytes) (start : Nat) (s : SpaRun Strings) :
    Except Fault (SpaRun Strings) := do
  let (parsed, strings) ← parseStringsXrsc env spa start s.info.strings
  return { s with
    info := { s.info with strings := strings }
    hasName := s.hasName || parsed }

/-- What is done with an entry; `false` when the function returns `FALSE`. -/
def takeEntry (env : SpaEnv Strings) (spa : Bytes) (baseOff : Nat) (ent : XbdfEntry)
    (s : SpaRun Strings) : Except Fault (Bool × SpaRun Strings) :=
  if spa.length < u32 (ent.offset + baseOff + ent.len) then .ok (false, s)
  else if ent.isIcon then
    if ent.len ≤ 0x3D00 then do
      let s ← copyIcon spa (u32 (ent.offset + baseOff)) ent.len s
      return (true, s)
    else .ok (false, s)
  else if ent.isXsrc then do
    let s ← addStrings env spa (u32 (ent.offset + baseOff)) s
    return (true, s)
  else .ok (true, s)

def spaEntries (env : SpaEnv Strings) (spa : Bytes) (baseOff : Nat) :
    Nat → Nat → SpaRun Strings → Except Fault (Bool × SpaRun Strings)
  | 0, _, s => .ok (true, s)
  | rounds + 1, currOff, s => do
      let ent ← getEntryInfo <$> load spa currOff 0x12
      let (going, s) ← takeEntry env spa baseOff ent s
      if going then spaEntries env spa baseOff rounds (u32 (currOff + 0x12)) s
      else return (false, s)

def getSpaInfo (env : SpaEnv Strings) (spa : Bytes) (info : TitleInfo Strings) :
    Except Fault (Bool × TitleInfo Strings) := do
  let magic ← loadBe32 spa 0
  if magic ≠ XDBF_MAGIC then return (false, info)
  else
    let entryTableLen ← loadBe32 spa 8
    let freeMemTablLen ← loadBe32 spa 0x10
    let baseOff := u32 (entryTableLen * 18 + freeMemTablLen * 8 + 0x18)
    if spa.length < baseOff then return (false, info)
    else
      let entryCount ← loadBe32 spa 0xC
      let (going, s) ← spaEntries env spa baseOff entryCount 0x18 ⟨info, false, false⟩
      return (going && s.hasIcon && s.hasName, s.info)

end Strings

end XeBuild.Iso2svod
