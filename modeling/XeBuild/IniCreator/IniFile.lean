import XeBuild.IniCreator.Crc32

/-!
# The listing of `ini_creator`

A transcription of `main.c` and of `readFile`: the classification of the files,
the check of a boot loader, and the passes that write the sections. The
`magic` of a boot loader is also the mark that it is not printed yet. An access
outside a buffer or an array and a conversion without an argument have no
defined outcome and are faults.
-/

namespace XeBuild.IniCreator

open ListRange

set_option autoImplicit false

/-! ## Data -/

structure FLList where
  name : Bytes
  crc : UInt32
  magic : Nat
  deriving DecidableEq

/-- `RFILEINF` without the magic. -/
structure RFileInf where
  data : Bytes
  len : Nat

inductive Fault
  | load (offset : Nat)
  | store (offset : Nat)
  | nullPointer
  | format
  deriving DecidableEq, Repr

/-- An argument, the file that opens under this name, and what the memory for it
holds before it is read. -/
structure Argument where
  name : Bytes
  file : Option Bytes
  /-- What `ftell` gives at the end of a file of so many bytes, as an `int`: it is -1 where
  the size is not one of a `long`. -/
  ftell : Nat → UInt32
  heap : Nat → Byte

inductive FileType
  | flash
  | bl
  | other
  deriving DecidableEq, Repr

def XEX2_MASK : Nat := 0x58455832
def XTTF_MASK : Nat := 0x78747466
def BL_MASK : Nat := 0x43400000
def BL_FULLMASK : Nat := 0x4347

def BLTBASE : Nat := 0x4300
def BLCB : Nat := BLTBASE ||| 0x42
def BLCC : Nat := BLTBASE ||| 0x43
def BLCD : Nat := BLTBASE ||| 0x44
def BLCE : Nat := BLTBASE ||| 0x45
def BLCF : Nat := BLTBASE ||| 0x46
def BLCG : Nat := BLTBASE ||| 0x47

def MAX_FLASH : Nat := 0x100

/-! ## `readFile` -/

/-- `(filesize+0xF) &~ 0xF`. -/
def bufsize (filesize : Nat) : Nat := u32 (filesize + 0xF) / 0x10 * 0x10

def getFileSize (arg : Argument) (content : Bytes) : Nat := (arg.ftell content.length).toNat

/-- The buffer behind what `fread` stores is as `malloc` gave it. -/
def buffer (arg : Argument) (content : Bytes) : Bytes :=
  let filesize := getFileSize arg content
  content.take filesize ++
    (List.range (bufsize filesize - (content.take filesize).length)).map fun index =>
      arg.heap ((content.take filesize).length + index)

def readFile (arg : Argument) (content : Bytes) : Except Fault RFileInf :=
  let filesize := getFileSize arg content
  if filesize ≤ bufsize filesize then .ok ⟨buffer arg content, filesize⟩
  else .error (.store (bufsize filesize))

def getBeU32 (data : Bytes) (offset : Nat) : Except Fault Nat :=
  if offset + 4 ≤ data.length then .ok (getBe32 (slice data offset 4)) else .error (.load offset)

/-! ## `checkBlMagic` and `processFile` -/

def blType (magic : Nat) : Nat := (magic >>> 16) &&& BL_FULLMASK

def blFill (bltyp : Nat) : Option (Nat × Nat) :=
  if bltyp = BLCB then some (0x10, 0x30)
  else if bltyp = BLCC then some (0x10, 0x10)
  else if bltyp = BLCD then some (0x10, 0x10)
  else if bltyp = BLCE then some (0x10, 0x10)
  else if bltyp = BLCF then some (0x20, 0x210)
  else if bltyp = BLCG then some (0x10, 0x10)
  else none

def newFlashVer (magic flashVer : Nat) : Nat :=
  if blType magic = BLCF ∧ flashVer < magic % 0x10000 then magic % 0x10000 else flashVer

/-- `flashVer`, and `flashBls[inBls]` afterwards: still zero when the check fails. -/
def checkBlMagic (fdat : RFileInf) (magic flashVer : Nat) : Except Fault (Nat × FLList) := do
  let crclen ← getBeU32 fdat.data 0xC
  if fdat.len < crclen then return (flashVer, ⟨[], 0, 0⟩)
  else
    match blFill (blType magic) with
    | none => return (flashVer, ⟨[], 0, 0⟩)
    | some (offset, size) =>
        if offset + size ≤ fdat.data.length then
          return (newFlashVer magic flashVer,
            ⟨[], crc32buf (patch fdat.data offset (zeros size)) crclen, magic⟩)
        else .error (.store fdat.data.length)

def backslash : Byte := 0x5C
def percent : Byte := 0x25

def baseName (name : Bytes) : Bytes := (name.reverse.takeWhile (· != backslash)).reverse

/-- `strrchr(name, '\\')+1`, copied into the name of an entry. Without a
backslash the pointer is 1, not null. -/
def copyName (slot : FLList) (name : Bytes) : Except Fault FLList :=
  if backslash ∈ name then
    if (baseName name).length < 64 then .ok ⟨baseName name, slot.crc, slot.magic⟩
    else .error (.store 64)
  else .error .nullPointer

def addSlot (files : List FLList) (slot : FLList) : Except Fault (List FLList) :=
  if files.length < MAX_FLASH then .ok (files ++ [slot]) else .error (.store files.length)

structure Globals where
  flashFiles : List FLList
  otherFiles : List FLList
  flashBls : List FLList
  flashVer : Nat

def processFile (typ : FileType) (name : Bytes) (fdat : RFileInf) (magic : Nat)
    (globals : Globals) : Except Fault Globals :=
  match typ with
  | .flash => do
      let slot ← copyName ⟨[], crc32buf fdat.data fdat.len, 0⟩ name
      let flashFiles ← addSlot globals.flashFiles slot
      return { globals with flashFiles }
  | .bl => do
      let (flashVer, checked) ← checkBlMagic fdat magic globals.flashVer
      let slot ← copyName checked name
      let flashBls ← addSlot globals.flashBls slot
      return { globals with flashBls, flashVer }
  | .other => do
      let slot ← copyName ⟨[], crc32buf fdat.data fdat.len, 0⟩ name
      let otherFiles ← addSlot globals.otherFiles slot
      return { globals with otherFiles }

def fileType (magic : Nat) : FileType :=
  if magic = XEX2_MASK ∨ magic = XTTF_MASK then .flash
  else if magic &&& BL_MASK = BL_MASK then .bl
  else .other

def processFiles : List Argument → Globals → Except Fault Globals
  | [], globals => .ok globals
  | arg :: argv, globals =>
      match arg.file with
      | none => processFiles argv globals
      | some content => do
          let fdat ← readFile arg content
          let magic ← getBeU32 fdat.data 0
          let globals ← processFile (fileType magic) arg.name fdat magic globals
          processFiles argv globals

/-! ## The sections -/

/-- A format without arguments. -/
def expand : Bytes → Except Fault Bytes
  | [] => .ok []
  | [char] => if char = percent then .error .format else .ok [char]
  | char :: next :: rest =>
      if char = percent then
        if next = percent then do
          let text ← expand rest
          return percent :: text
        else .error .format
      else do
        let text ← expand (next :: rest)
        return char :: text

/-- `text` is what `vsnprintf` leaves in `temp`, which is printed as a format. -/
def dprintf (text : Bytes) : Except Fault Bytes := expand text

structure Section where
  header : Bytes
  lines : List Bytes
  deriving DecidableEq

def lineText (name : Bytes) (crc : UInt32) : Bytes :=
  name ++ asciiText ",".toList ++ hex8 crc.toNat ++ asciiText "\n".toList

def FLList.text (slot : FLList) : Bytes := lineText slot.name slot.crc

def showLines : List FLList → Except Fault (List Bytes)
  | [] => .ok []
  | slot :: rest => do
      let line ← dprintf slot.text
      let lines ← showLines rest
      return line :: lines

structure VersionRange where
  minver1 : Nat
  maxver1 : Nat
  minver2 : Nat
  maxver2 : Nat

/-- The conditions under which `showBls` prints an entry. -/
def VersionRange.shows (range : VersionRange) (slot : FLList) : Bool :=
  slot.magic != 0 &&
    ((slot.magic >>> 16) &&& 0xFF == 0x42 || (slot.magic >>> 16) &&& 0xFF == 0x44) &&
    (decide (range.minver1 < slot.magic % 0x10000 ∧ slot.magic % 0x10000 < range.maxver1) ||
      decide (range.minver2 < slot.magic % 0x10000 ∧ slot.magic % 0x10000 < range.maxver2))

/-- The lines, and `flashBls` afterwards. -/
def showBls (range : VersionRange) : List FLList → Except Fault (List Bytes × List FLList)
  | [] => .ok ([], [])
  | slot :: rest =>
      if range.shows slot then do
        let line ← dprintf slot.text
        let (lines, rest) ← showBls range rest
        return (line :: lines, ⟨slot.name, slot.crc, 0⟩ :: rest)
      else do
        let (lines, rest) ← showBls range rest
        return (lines, slot :: rest)

def hasBls (range : VersionRange) (flashBls : List FLList) : Bool := flashBls.any range.shows

def displayBls (name : Bytes) (range : VersionRange) (flashBls : List FLList) :
    Except Fault (List Section × List FLList) :=
  if hasBls range flashBls then do
    let header ← dprintf name
    let (lines, flashBls) ← showBls range flashBls
    return ([⟨header, lines⟩], flashBls)
  else .ok ([], flashBls)

def hasCommon (flashBls : List FLList) : Bool := flashBls.any fun slot => slot.magic != 0

def showCommon (flashBls : List FLList) : Except Fault (List Section) :=
  if hasCommon flashBls then do
    let header ← dprintf
      (asciiText "\n[commonbl]; you will need to copy these to wherever they are needed\n".toList)
    let lines ← showLines (flashBls.filter fun slot => slot.magic != 0)
    return [⟨header, lines⟩]
  else .ok []

def blSections : List (Bytes × VersionRange) :=
  [(asciiText "\n[xenonbl]\n".toList, ⟨1000, 2000, 7000, 8000⟩),
    (asciiText "\n[zephyrbl]\n".toList, ⟨4000, 5000, 0, 0⟩),
    (asciiText "\n[falconbl]\n".toList, ⟨5000, 6000, 0, 0⟩),
    (asciiText "\n[jasperbl]\n".toList, ⟨6000, 7000, 0, 0⟩),
    (asciiText "\n[trinitybl]\n".toList, ⟨9000, 10000, 0, 0⟩),
    (asciiText "\n[coronabl]\n".toList, ⟨13000, 15000, 12000, 12999⟩)]

def displayAll : List (Bytes × VersionRange) → List FLList →
    Except Fault (List Section × List FLList)
  | [], flashBls => .ok ([], flashBls)
  | (name, range) :: rest, flashBls => do
      let (shown, flashBls) ← displayBls name range flashBls
      let (sections, flashBls) ← displayAll rest flashBls
      return (shown ++ sections, flashBls)

def showVersion (flashVer : Nat) : Except Fault (List Section) :=
  if flashVer ≠ 0 then do
    let header ← dprintf (asciiText "[version]; simply the highest version of CF found\n".toList ++
      asciiText (Nat.toDigits 10 flashVer) ++ asciiText "\n".toList)
    return [⟨header, []⟩]
  else .ok []

def showAllBls (flashBls : List FLList) : Except Fault (List Section) :=
  if flashBls.length ≠ 0 then do
    let (sections, flashBls) ← displayAll blSections flashBls
    let common ← showCommon flashBls
    return sections ++ common
  else .ok []

def showFiles (name : Bytes) (files : List FLList) : Except Fault (List Section) :=
  if files.length ≠ 0 then do
    let header ← dprintf name
    let lines ← showLines files
    return [⟨header, lines⟩]
  else .ok []

def writeIni (globals : Globals) : Except Fault (List Section) := do
  let version ← showVersion globals.flashVer
  let bls ← showAllBls globals.flashBls
  let flash ← showFiles (asciiText "\n[flash]\n".toList) globals.flashFiles
  let other ← showFiles
    (asciiText "\n[unknown]; these are leftovers that couldn't be classified\n".toList)
    globals.otherFiles
  return version ++ bls ++ flash ++ other

def main (argv : List Argument) : Except Fault (List Section) := do
  let globals ← processFiles argv ⟨[], [], [], 0⟩
  writeIni globals

end XeBuild.IniCreator
