import XeBuild.CStrings
import XeBuild.Lib.Runs

/-!
# The addon index of `opt_idx`

A transcription of `opt_idx.cpp`: loading and writing the index file, the
records of a patch file, the names, and the deduplication. A load that leaves
the file buffer, a store that leaves its array and a parse that never ends have
no defined outcome and are faults. What `ftell` and `malloc` give and whether
the vectors can grow are parameters.
-/

namespace XeBuild.OptIdx

open ListRange Runs

set_option autoImplicit false

/-! ## Data -/

structure PatchItem where
  offset : UInt32
  size : UInt32
  deriving DecidableEq

structure PatchFile where
  fname : Bytes
  pitm : List PatchItem
  deriving DecidableEq

inductive Fault
  | load (offset : Nat)
  | store (offset : Nat)
  | badAlloc
  | endless
  deriving DecidableEq, Repr

/-- What `ftell` gives at the end of a file of so many bytes, as an `int` (it is -1 where
the size is not one of a `long`), the sizes that `malloc` has, and what lies there. -/
structure Library where
  ftell : Nat → UInt32
  mallocs : Nat → Bool
  heap : Nat → Byte

/-- `FOR_BASEBUILD`, and the vectors of patch files that can be allocated. -/
structure Build where
  forBaseBuild : Bool
  allocates : List PatchFile → Bool
  lib : Library

def pushBack (build : Build) (pfiles : List PatchFile) (pfl : PatchFile) :
    Except Fault (List PatchFile) :=
  if build.allocates (pfiles ++ [pfl]) then .ok (pfiles ++ [pfl]) else .error .badAlloc

/-- `FileToBuffer`. The buffer behind what `fread` stores is as `malloc` gave it. -/
def fileToBuffer (lib : Library) (data : Option Bytes) : Option Bytes :=
  data.bind fun bytes =>
    let bRead := (lib.ftell bytes.length).toNat
    if lib.mallocs bRead then
      some (bytes.take bRead ++ (List.range (bRead - (bytes.take bRead).length)).map fun index =>
        lib.heap ((bytes.take bRead).length + index))
    else none

/-- A file of this size is measured and read. -/
structure Library.Loads (lib : Library) (size : Nat) : Prop where
  told : (lib.ftell size).toNat = size
  room : lib.mallocs size = true

theorem file_to_buffer_whole {lib : Library} {bytes : Bytes} (loads : lib.Loads bytes.length) :
    fileToBuffer lib (some bytes) = some bytes := by
  simp only [fileToBuffer, Option.bind_some, loads.told, if_pos loads.room, List.take_length,
    Nat.sub_self, List.range_zero, List.map_nil, List.append_nil]

/-- Every file is loaded whole up to the last 32-bit size. -/
def wholeFiles : Library := ⟨UInt32.ofNat, fun _ => true, fun _ => 0⟩

theorem file_to_buffer_length {lib : Library} {data : Option Bytes} {buf : Bytes}
    (loaded : fileToBuffer lib data = some buf) : buf.length < 0x100000000 := by
  rcases Option.bind_eq_some_iff.mp loaded with ⟨bytes, _, read⟩
  have word := (lib.ftell bytes.length).toNat_lt
  have taken := List.length_take_le (lib.ftell bytes.length).toNat bytes
  simp only at read
  split_ifs at read
  cases read
  rw [List.length_append, List.length_map, List.length_range]
  omega

def getBeU32 (buf : Bytes) (offset : Nat) : Except Fault UInt32 :=
  if offset + 4 ≤ buf.length then .ok (UInt32.ofNat (getBe32 (slice buf offset 4)))
  else .error (.load offset)

def getString (buf : Bytes) (offset : Nat) : Except Fault Bytes :=
  if (0 : Byte) ∈ buf.drop offset then .ok (cString (buf.drop offset)) else .error (.load offset)

def setBeU32 (val : Nat) : Bytes :=
  [UInt8.ofNat (val / 0x1000000), UInt8.ofNat (val / 0x10000), UInt8.ofNat (val / 0x100),
    UInt8.ofNat val]

/-! ## `loadAddonBaseIdx` -/

/-- The inner loop: `pttl` items from `curroff` on, and where they end. -/
def loadItems (buf : Bytes) : Nat → Nat → Except Fault (List PatchItem × Nat)
  | 0, curroff => .ok ([], curroff)
  | pttl + 1, curroff => do
      let offset ← getBeU32 buf curroff
      let size ← getBeU32 buf (curroff + 4)
      let (pitm, curroff) ← loadItems buf pttl (u32 (curroff + 8))
      return (⟨offset, size⟩ :: pitm, curroff)

def loadFiles (build : Build) (buf : Bytes) :
    Nat → Nat → List PatchFile → Except Fault (List PatchFile)
  | 0, _, pfiles => .ok pfiles
  | ttl + 1, curroff, pfiles => do
      let pttl ← getBeU32 buf curroff
      let (pitm, curroff) ← loadItems buf pttl.toNat (u32 (curroff + 4))
      let fname ← getString buf curroff
      let pfiles ← pushBack build pfiles ⟨fname, pitm⟩
      loadFiles build buf ttl (u32 (curroff + 16)) pfiles

/-- `idx` is the content of `ADDON_BASE_IDX`, if there is such a file. -/
def loadAddonBaseIdx (build : Build) (idx : Option Bytes) (pfiles : List PatchFile) :
    Except Fault (List PatchFile) :=
  match fileToBuffer build.lib idx with
  | none => .ok pfiles
  | some buf =>
      if buf.length = 0 then .ok pfiles
      else if buf.length % 4 ≠ 0 then .ok pfiles
      else do
        let ttl ← getBeU32 buf 0
        loadFiles build buf ttl.toNat 4 pfiles

/-! ## `fixupName` -/

def backslash : Byte := 0x5C
def dot : Byte := 0x2E

def findLastOf (char : Byte) (text : Bytes) : Option Nat :=
  if char ∈ text then some (text.length - 1 - text.reverse.idxOf char) else none

def goodNames : List Bytes :=
  [asciiText ['n', 'o', 'm', 'u'],
    asciiText ['n', 'o', 't', 'r', 'i', 'n', 'm', 'u'],
    asciiText ['n', 'o', 'f', 'c', 'r', 't'],
    asciiText ['n', 'o', 'h', 'd', 'd'],
    asciiText ['n', 'o', 'h', 'd', 'm', 'i', 'w', 'a', 'i', 't'],
    asciiText ['n', 'o', 't', 'r', 'i', 'n', 'm', 'u']]

def scedeName : List (Bytes × Bytes) :=
  [(asciiText ['n', 'o', 'm', 'u'], asciiText ['n', 'o', 'i', 'n', 't', 'm', 'u']),
    (asciiText ['n', 'o', 't', 'r', 'i', 'n', 'm', 'u'],
      asciiText ['n', 'o', 'i', 'n', 't', 'm', 'u'])]

/-- The file name without folder and extension. A negative count of `substr` is
a large one. -/
def bareName (inName : Bytes) : Bytes :=
  let fpos := match findLastOf backslash inName with
    | some last => last + 1
    | none => 0
  match findLastOf dot inName with
  | some lpos => if fpos ≤ lpos then slice inName fpos (lpos - fpos) else inName.drop fpos
  | none => inName.drop fpos

def goodName (outName : Bytes) : Bytes :=
  match goodNames.find? fun good => sameIgnoringCase (outName.take good.length) good with
  | some good => good
  | none => outName

def fixupName (build : Build) (fname : Bytes) : Bytes :=
  let outName := if build.forBaseBuild then goodName (bareName fname) else bareName fname
  scedeName.foldl
    (fun outName scede => if sameIgnoringCase outName scede.1 then scede.2 else outName) outName

/-! ## `shouldAdd`, `processPatchFile`, `addCurrentOptPatches` -/

def mtch (left right : List PatchItem) : Nat := (left.zip right).countP fun pair => pair.1 = pair.2

def shouldAdd (pfiles : List PatchFile) (ci : PatchFile) : Bool :=
  !pfiles.any fun pfl =>
    pfl.pitm.length == ci.pitm.length && mtch pfl.pitm ci.pitm == ci.pitm.length

/-- The `while` loop. The data behind a record is skipped in 32-bit words; `len-8`
is one, too. -/
def patchRecords (buf : Bytes) : Nat → Nat → Except Fault (List PatchItem)
  | 0, _ => .error .endless
  | rounds + 1, curroff =>
      if curroff < sub32 buf.length 8 then do
        let offset ← getBeU32 buf curroff
        let size ← getBeU32 buf (curroff + 4)
        let pitm ← patchRecords buf rounds (u32 (curroff + size.toNat * 4 + 8))
        return ⟨offset, size⟩ :: pitm
      else .ok []

/-- A file in the folder; `data` is `none` when it cannot be read. -/
structure FoundFile where
  cFileName : Bytes
  directory : Bool
  data : Option Bytes
  deriving DecidableEq

/-- The records of a patch file; none for a file that is skipped. More rounds
than bytes meet an offset again. -/
def fileRecords (lib : Library) (data : Option Bytes) : Except Fault (List PatchItem) :=
  match fileToBuffer lib data with
  | none => .ok []
  | some buf =>
      if buf.length = 0 then .ok []
      else if buf.length % 4 ≠ 0 then .ok []
      else patchRecords buf (buf.length + 1) 0

/-- The copy into `outName[16]`. -/
def nameBuffer (name : Bytes) : Except Fault Bytes :=
  if name.length < 16 then .ok (cString name) else .error (.store 16)

def processPatchFile (build : Build) (fname : Bytes) (data : Option Bytes)
    (pfiles : List PatchFile) : Except Fault (List PatchFile) := do
  let pitm ← fileRecords build.lib data
  if pitm = [] then
    return pfiles
  else
    let name ← nameBuffer (fixupName build fname)
    if shouldAdd pfiles ⟨name, pitm⟩ then pushBack build pfiles ⟨name, pitm⟩
    else return pfiles

def ADDON_OPT_FOLDER (build : Build) : Bytes :=
  if build.forBaseBuild then asciiText ['.', '\\', 'b', 'i', 'n', '\\']
  else asciiText ['.', '\\', 'o', 'p', 't', '\\']

def addonIdxName : Bytes := asciiText ['a', 'd', 'd', 'o', 'n', '.', 'i', 'd', 'x']

/-- The entries that the enumeration hands to `processPatchFile`. -/
def FoundFile.isPatchFile (found : FoundFile) : Bool :=
  !found.directory && !sameIgnoringCase found.cFileName addonIdxName

/-- `files` is what the enumeration of the folder gives, in its order. -/
def addCurrentOptPatches (build : Build) :
    List FoundFile → List PatchFile → Except Fault (List PatchFile)
  | [], pfiles => .ok pfiles
  | found :: files, pfiles =>
      if found.isPatchFile then do
        let pfiles ← processPatchFile build (ADDON_OPT_FOLDER build ++ found.cFileName) found.data
          pfiles
        addCurrentOptPatches build files pfiles
      else addCurrentOptPatches build files pfiles

/-! ## `outputIdx` and `main` -/

structure IdxWriter where
  outdat : Bytes
  curroff : Nat

def IdxWriter.put (w : IdxWriter) (bytes : Bytes) (step : Nat) : Except Fault IdxWriter :=
  if w.curroff + bytes.length ≤ w.outdat.length then
    .ok ⟨patch w.outdat w.curroff bytes, u32 (w.curroff + step)⟩
  else .error (.store w.curroff)

def writeItems : List PatchItem → IdxWriter → Except Fault IdxWriter
  | [], w => .ok w
  | pitm :: rest, w => do
      let w ← w.put (setBeU32 pitm.offset.toNat) 4
      let w ← w.put (setBeU32 pitm.size.toNat) 4
      writeItems rest w

/-- `strcpy` stores the terminating zero as well. -/
def writeFiles : List PatchFile → IdxWriter → Except Fault IdxWriter
  | [], w => .ok w
  | pfl :: rest, w => do
      let w ← w.put (setBeU32 (u32 pfl.pitm.length)) 4
      let w ← writeItems pfl.pitm w
      let w ← w.put (pfl.fname ++ [0]) 16
      writeFiles rest w

def ttlsz (pfiles : List PatchFile) : Nat :=
  pfiles.foldl (fun ttlsz pfl => u32 (u32 (ttlsz + pfl.pitm.length * 8) + 20)) 4

/-- The content of the file that is written; `none` when `outdat` cannot be allocated, or
the sizes differ. -/
def outputIdx (lib : Library) (pfiles : List PatchFile) : Except Fault (Option Bytes) :=
  if lib.mallocs (ttlsz pfiles) then do
    let w : IdxWriter := ⟨zeros (ttlsz pfiles), 0⟩
    let w ← w.put (setBeU32 (u32 pfiles.length)) 4
    let w ← writeFiles pfiles w
    return if w.curroff = ttlsz pfiles then some w.outdat else none
  else .ok none

/-- What is written to `ADDON_OPT_OUTFILE`, if anything. -/
def main (build : Build) (idx : Option Bytes) (files : List FoundFile) :
    Except Fault (Option Bytes) := do
  let pfiles ← loadAddonBaseIdx build idx []
  let pfiles ← addCurrentOptPatches build files pfiles
  if pfiles = [] then return none else outputIdx build.lib pfiles

def ADDON_BASE_IDX (build : Build) : Bytes :=
  if build.forBaseBuild then asciiText ['.', '\\'] ++ asciiText ['a', 'd', 'd', 'o', 'n'] ++
    asciiText ['b', 'a', 's', 'e', '.', 'i', 'd', 'x']
  else asciiText ['.', '\\', 'b', 'a', 's', 'e', '\\'] ++ asciiText ['a', 'd', 'd', 'o', 'n'] ++
    asciiText ['b', 'a', 's', 'e', '.', 'i', 'd', 'x']

def ADDON_OPT_OUTFILE (build : Build) : Bytes :=
  if build.forBaseBuild then ADDON_BASE_IDX build
  else asciiText ['.', '\\', 'o', 'p', 't', '\\'] ++ addonIdxName

/-- The content of `ADDON_BASE_IDX` after a run that wrote `out`. -/
def nextBaseIdx (build : Build) (idx out : Option Bytes) : Option Bytes :=
  if ADDON_OPT_OUTFILE build = ADDON_BASE_IDX build then out.or idx else idx

end XeBuild.OptIdx
