import XeBuild.CStrings

/-!
# The patch bundle of `dl_patches`

A transcription of `dl_patches.c`: the list of files, the pass that reads and
counts them, the pass that fills the header and the pass that appends the data.
The disk maps paths to the files that `CreateFile` opens; reads and writes
transfer as a whole, and whether `malloc` gives memory is a parameter.
-/

namespace XeBuild.DlPatches

open ListRange

set_option autoImplicit false

/-! ## `patchinfo.h` -/

def PATCH_MASK_JTAG : Nat := 0x80000000
def PATCH_MASK_GLITCH : Nat := 0x40000000
def PATCH_MASK_GLITCH2 : Nat := 0x20000000
def PATCH_MASK_GLITCH2MFG : Nat := 0x10000000

inductive ConsoleType
  | xenon
  | zephyr
  | falcon
  | jasper
  | trinity
  | corona
  | winchester
  deriving DecidableEq, Repr

def ConsoleType.code : ConsoleType → Nat
  | xenon => 0
  | zephyr => 1
  | falcon => 2
  | jasper => 3
  | trinity => 4
  | corona => 5
  | winchester => 6

/-- `PATCHES_LIST`; a null pointer is `none`. -/
structure PatchesList where
  data : Option Bytes
  len : Nat
  filename : Bytes
  altname : Option Bytes
  type : Nat

/-- `sizeof(PATCHINFO_HEADER)`, with one `PATCHES_INFO`. -/
def sizeofHeader : Nat := 0x20

def sizeofInfo : Nat := 0x10

def infOffset (index : Nat) : Nat := 0x10 + index * sizeofInfo

/-! ## `fileList` -/

def entry (filename : String) (type : Nat) : PatchesList :=
  ⟨none, 0, asciiText filename.toList, none, type⟩

def entryOr (filename altname : String) (type : Nat) : PatchesList :=
  ⟨none, 0, asciiText filename.toList, some (asciiText altname.toList), type⟩

def fileList : List PatchesList :=
  [entry "patches_xenon.bin" (PATCH_MASK_JTAG ||| ConsoleType.xenon.code),
    entry "patches_zephyr.bin" (PATCH_MASK_JTAG ||| ConsoleType.zephyr.code),
    entry "patches_falcon.bin" (PATCH_MASK_JTAG ||| ConsoleType.falcon.code),
    entry "patches_jasper.bin" (PATCH_MASK_JTAG ||| ConsoleType.jasper.code),
    entry "patches_g2xenon_dl.bin" (PATCH_MASK_GLITCH2 ||| ConsoleType.xenon.code),
    entry "patches_g2zephyr_dl.bin" (PATCH_MASK_GLITCH2 ||| ConsoleType.zephyr.code),
    entry "patches_g2falcon_dl.bin" (PATCH_MASK_GLITCH2 ||| ConsoleType.falcon.code),
    entry "patches_g2jasper_dl.bin" (PATCH_MASK_GLITCH2 ||| ConsoleType.jasper.code),
    entryOr "patches_g2trinity_dl.bin" "patches_trinity_dl.bin"
      (PATCH_MASK_GLITCH ||| PATCH_MASK_GLITCH2 ||| ConsoleType.trinity.code),
    entry "patches_g2corona_dl.bin" (PATCH_MASK_GLITCH2 ||| ConsoleType.corona.code),
    entry "patches_g2winchester_dl.bin" (PATCH_MASK_GLITCH2 ||| ConsoleType.winchester.code),
    entry "patches_g2mtrinity_dl.bin" (PATCH_MASK_GLITCH2MFG ||| ConsoleType.trinity.code),
    entry "patches_g2mcorona_dl.bin" (PATCH_MASK_GLITCH2MFG ||| ConsoleType.corona.code),
    entry "patches_fat_dl.bin" PATCH_MASK_GLITCH]

theorem file_list_types : ∀ item ∈ fileList, item.type < 0x100000000 := by decide +kernel

/-! ## `getItemData` -/

structure Host where
  disk : Bytes → Option Bytes
  malloc : Nat → Bool

/-- The file that is opened: the alternate name comes second. -/
def openItem (host : Host) (patchBase : Bytes) (item : PatchesList) : Option Bytes :=
  match host.disk (patchBase ++ item.filename) with
  | some content => some content
  | none =>
      match item.altname with
      | none => none
      | some altname => host.disk (patchBase ++ altname)

/-- The item afterwards, and the result. -/
def getItemData (host : Host) (patchBase : Bytes) (item : PatchesList) : PatchesList × Bool :=
  match openItem host patchBase item with
  | none => (item, false)
  | some content =>
      let len := u32 content.length
      let data := if host.malloc len then some (content.take len) else none
      (⟨data, len, item.filename, item.altname, item.type⟩, true)

/-! ## `main` -/

/-- A store of one `DWORD` into the header; `none` behind its end. -/
def storeDword (header : Bytes) (offset value : Nat) : Option Bytes :=
  if offset + 4 ≤ header.length then some (patch header offset (hostU32 value)) else none

/-- The second pass. `u32Rev` is the macro `bswap32`. -/
def fillHeader : List PatchesList → Nat → Nat → Bytes → Option Bytes
  | [], _, _, header => some header
  | item :: rest, cnt, currOff, header =>
      if item.data.isSome then do
        let header ← storeDword header (infOffset cnt) (bswap32 item.type)
        let header ← storeDword header (infOffset cnt + 4) (bswap32 item.len)
        let header ← storeDword header (infOffset cnt + 8) (bswap32 currOff)
        fillHeader rest (cnt + 1) (u32 (currOff + item.len)) header
      else fillHeader rest cnt currOff header

def appendData (items : List PatchesList) : Bytes :=
  (items.filterMap fun item => item.data.map fun data => data.take item.len).flatten

/-- The content of the output file; `none` for a store behind the header. -/
def main (host : Host) (patchBase : Bytes) : Option Bytes :=
  let read := fileList.map (getItemData host patchBase)
  let items := read.map Prod.fst
  let cnt := read.countP Prod.snd
  let headSize := u32 (sizeofHeader + sizeofInfo * sub32 cnt 1)
  if host.malloc headSize then do
    let header ← storeDword (List.replicate headSize 0xFF) 0 (bswap32 headSize)
    let header ← storeDword header 4 (bswap32 cnt)
    let header ← fillHeader items 0 0 header
    return header ++ appendData items
  else some []

end XeBuild.DlPatches
