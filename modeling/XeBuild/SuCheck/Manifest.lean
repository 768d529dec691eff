import XeBuild.CStrings
import XeBuild.SuCheck.ConCheck

/-!
# The manifest of `su_check`

A transcription of `verifyManifestHeader`, `verifyManifestItems` of both
schemas, `verifyFile`, `verifyContainer`, `parseManifest` and the totals of
`main`. Nothing in the source keeps an offset of the manifest inside the buffer,
so the manifest is the memory from its first byte on, of which the buffer is the
first `len` bytes. A string that is too long for its array has no defined
outcome; the walk goes on with the longer string and clears `defined`.
-/

namespace XeBuild.SuCheck

open ListRange

set_option autoImplicit false

/-! ## Layout -/

def manifestHeaderSize : Nat := 0x138
def baDataShaOffset : Nat := 0x24
def numEntriesOffset : Nat := 0x2C
def entriesOffset : Nat := 0x30

def MAGIC_XMAN : Nat := 0x786d616e
def MAGIC_XSYM : Nat := 0x7873796D
def MAGIC_XONM : Nat := 0x786F6E6D
def MAGIC_XMNP : Nat := 0x584D4E50

def MAX_PATH : Nat := 260
def MAXPATHLEN : Nat := 1024
def sbufSize : Nat := 512

def MANIFEST_BASE : Bytes :=
  asciiText ['$', 'S', 'y', 's', 't', 'e', 'm', 'U', 'p', 'd', 'a', 't', 'e', '\\']
def SU_PACKAGE : Bytes :=
  asciiText ['s', 'u', '2', '0', '0', '7', '6', '0', '0', '0', '_', '0', '0', '0', '0', '0', '0',
    '0', '0']
def PACKAGE_BASE : Bytes :=
  asciiText ['C', 'o', 'n', 't', 'e', 'n', 't', '\\', '0', '0', '0', '0', '0', '0', '0', '0', '0',
    '0', '0', '0', '0', '0', '0', '0', '\\']
def backslash : Bytes := asciiText ['\\']
/-- The name whose item stands for the update package. -/
def flashName : Bytes := asciiText ['f', 'l', 'a', 's', 'h']

structure ManifestBuffer where
  mem : Nat → Byte
  len : Nat

/-- `&data[sizeof(SU_MAINIFEST_HEADER)]`. -/
def ManifestBuffer.body (man : ManifestBuffer) : Nat → Byte :=
  fun offset => man.mem (manifestHeaderSize + offset)

def ManifestBuffer.contentSize (man : ManifestBuffer) : Nat := be32At man.body 4
def ManifestBuffer.schemaVer (man : ManifestBuffer) : Nat := be32At man.body 0x10
def numEntries (body : Nat → Byte) : Nat := be32At body numEntriesOffset

structure Schema where
  entrySize : Nat
  /-- The loop reads no field from here on. -/
  readSize : Nat
  intNameOffset : Nat
  destNameOffset : Nat
  contentTypeOffset : Nat
  contentTitleIdOffset : Nat
  /-- `dwEntryType` and `dataHash`, if the entries have them. -/
  typeAndHashOffset : Option (Nat × Nat)
  drive : Bytes

/-- `SU_ITEM_ENTRY`. -/
def schema3 : Schema where
  entrySize := 0x60
  readSize := 0x60
  intNameOffset := 0x1C
  destNameOffset := 0x20
  contentTypeOffset := 0x4C
  contentTitleIdOffset := 0x50
  typeAndHashOffset := some (0x18, 0x38)
  drive := asciiText ['S', 'E', 'P', ':', '\\']

/-- `SU_ITEM_ENTRY_V1`. -/
def schema1 : Schema where
  entrySize := 0x44
  readSize := 0x34
  intNameOffset := 0x24
  destNameOffset := 0x28
  contentTypeOffset := 0x14
  contentTitleIdOffset := 0x18
  typeAndHashOffset := none
  drive := asciiText ['H', 'd', 'd', ':', '\\']

/-! ## Items -/

structure ItemEntry where
  srcNameOff : Nat
  fileSize : Nat
  versionOff : Nat
  flagsOff : Nat
  entryType : Nat
  intNameOff : Nat
  destNameOff : Nat
  dataHash : Bytes
  contentType : Nat
  contentTitleId : Nat
  deriving DecidableEq

def entryOffset (schema : Schema) (item : Nat) : Nat := entriesOffset + schema.entrySize * item

/-- `ents[item]`. The entries of schema 1 have no type; all are containers. -/
def itemEntry (schema : Schema) (body : Nat → Byte) (item : Nat) : ItemEntry where
  srcNameOff := be32At body (entryOffset schema item)
  fileSize := be32At body (entryOffset schema item + 0x8)
  versionOff := be32At body (entryOffset schema item + 0xC)
  flagsOff := be32At body (entryOffset schema item + 0x10)
  entryType := match schema.typeAndHashOffset with
    | some (typeOffset, _) => be32At body (entryOffset schema item + typeOffset)
    | none => 2
  intNameOff := be32At body (entryOffset schema item + schema.intNameOffset)
  destNameOff := be32At body (entryOffset schema item + schema.destNameOffset)
  dataHash := match schema.typeAndHashOffset with
    | some (_, hashOffset) =>
        bytesAt body (entryOffset schema item + hashOffset) XECRYPT_SHA_DIGEST_SIZE
    | none => []
  contentType := be32At body (entryOffset schema item + schema.contentTypeOffset)
  contentTitleId := be32At body (entryOffset schema item + schema.contentTitleIdOffset)

/-- The bytes that `getManifestString` copies; `none` for a length of zero. -/
def manifestString (body : Nat → Byte) (offset : Nat) : Option Bytes :=
  if be16At body offset = 0 then none
  else some (bytesAt body (offset + 2) (be16At body offset))

/-- An entry with what its offsets point to. The destination name is read at
its offset even when that is zero. -/
structure ItemView where
  entry : ItemEntry
  srcName : Option Bytes
  intName : Option Bytes
  destName : Option Bytes
  ver : Nat
  flags : Nat
  deriving DecidableEq

def itemView (schema : Schema) (body : Nat → Byte) (item : Nat) : ItemView :=
  let itm := itemEntry schema body item
  { entry := itm
    srcName := if itm.srcNameOff ≠ 0 then manifestString body itm.srcNameOff else none
    intName := if itm.intNameOff ≠ 0 then manifestString body itm.intNameOff else none
    destName := manifestString body itm.destNameOff
    ver := if itm.versionOff ≠ 0 then be32At body itm.versionOff else 0
    flags := if itm.flagsOff ≠ 0 then be32At body itm.flagsOff else 0 }

/-- `getManifestString`: an empty string leaves the destination as it is. -/
def getManifestString (name : Option Bytes) (dest : Bytes) : Bytes :=
  match name with
  | some bytes => cString bytes
  | none => dest

/-- What `sbuf` holds at the places of one round that use it. -/
structure ItemNames where
  /-- When `srcFile` is built. -/
  source : Bytes
  /-- When it is compared with `flash`. -/
  compared : Bytes
  /-- When the destination is built, and after the round. -/
  destination : Bytes

def itemNames (view : ItemView) (sbuf : Bytes) : ItemNames :=
  let itm := view.entry
  let source := if itm.srcNameOff ≠ 0 then getManifestString view.srcName sbuf else sbuf
  let internal := if itm.intNameOff ≠ 0 then getManifestString view.intName source else source
  let dest := if itm.destNameOff ≠ 0 then getManifestString view.destName internal else internal
  let compared := if itm.srcNameOff ≠ 0 then getManifestString view.srcName dest else dest
  let destination :=
    if itm.srcNameOff ≠ 0 ∧ compared ≠ flashName then getManifestString view.destName compared
    else compared
  ⟨source, compared, destination⟩

/-! ## Verification -/

inductive VerifyCall
  | container (cfilename : Bytes) (len expVer : Nat) (doCopy isSupd : Bool)
  | file (cfilename : Bytes) (len : Nat) (hdat : Bytes)
  deriving DecidableEq

def VerifyCall.cfilename : VerifyCall → Bytes
  | .container cfilename _ _ _ _ => cfilename
  | .file cfilename _ _ => cfilename

def VerifyCall.len : VerifyCall → Nat
  | .container _ len _ _ _ => len
  | .file _ len _ => len

/-- What one item is verified with; `dstFile` and `outfilepath` when they are
built. -/
structure ItemUse where
  call : VerifyCall
  ver : Nat
  dstFile : Option Bytes
  outfilepath : Option Bytes
  deriving DecidableEq

/-- How a verification ends. `unread` is every branch that counts nothing. -/
inductive Outcome
  | unread
  | failed
  | passed
  | undefined
  deriving DecidableEq, Repr

/-- The digest, the folder to copy to, and what `readFileToBuf` returns while an
item is verified; `none` when the file cannot be opened or loaded. -/
structure CheckEnv where
  sha : Sha
  copyToFolder : Bool
  outbasepath : Bytes
  readFileToBuf : Nat → Bytes → Option Bytes

/-- The check that a file which was read has to pass. A hash over more bytes
than were read has no defined outcome. -/
def VerifyCall.check (sha : Sha) (fdata : Bytes) : VerifyCall → Outcome
  | .container _ _ expVer _ isSupd =>
      match conCheckHeader sha fdata fdata.length expVer isSupd with
      | .ok true => .passed
      | .ok false => .failed
      | .error _ => .undefined
  | .file _ len hdat =>
      if fdata.length < len then .undefined
      else if (sha (fdata.take len)).bytes = hdat then .passed
      else .failed

def CheckEnv.outcome (env : CheckEnv) (item : Nat) (call : VerifyCall) : Outcome :=
  if call.len = 0 then .unread
  else
    match env.readFileToBuf item call.cfilename with
    | none => .unread
    | some fdata => if fdata.length = 0 then .unread else call.check env.sha fdata

/-- The statics of `main.c` and the local `sbuf`. `results`, `reads` and
`defined` only record the walk: the calls of the items with their outcomes, the
places read in the manifest body as offset and size, and that every store stayed
in its array and every check had an outcome. -/
structure ManifestWalk where
  sbuf : Bytes
  outfilepath : Bytes
  ttlFilesChecked : Nat
  ttlFilesOk : Nat
  ttlConChecked : Nat
  ttlConOk : Nat
  dumped : List (Bytes × Bytes)
  results : List (Option (ItemUse × Outcome))
  reads : List (Nat × Nat)
  defined : Bool

/-- The stack array starts with whatever lies there. -/
def ManifestWalk.start (sbuf : Bytes) : ManifestWalk where
  sbuf := sbuf
  outfilepath := []
  ttlFilesChecked := 0
  ttlFilesOk := 0
  ttlConChecked := 0
  ttlConOk := 0
  dumped := []
  results := []
  reads := []
  defined := true

def dumpFile (fdata : Bytes) (w : ManifestWalk) : ManifestWalk :=
  { w with dumped := w.dumped ++ [(w.outfilepath, fdata)] }

/-- An item of size zero, a file that cannot be read and an empty file are only
printed. -/
def verifyFile (env : CheckEnv) (item : Nat) (cfilename : Bytes) (len : Nat) (hdat : Bytes)
    (w : ManifestWalk) : ManifestWalk :=
  if len = 0 then w
  else
    match env.readFileToBuf item cfilename with
    | none => w
    | some fdata =>
        if fdata.length = 0 then w
        else if fdata.length < len then { w with defined := false }
        else
          let w := { w with ttlFilesChecked := w.ttlFilesChecked + 1 }
          if (env.sha (fdata.take len)).bytes = hdat then
            let w := { w with ttlFilesOk := w.ttlFilesOk + 1 }
            if env.copyToFolder then dumpFile fdata w else w
          else w

def verifyContainer (env : CheckEnv) (item : Nat) (cfilename : Bytes) (len expVer : Nat)
    (doCopy isSupd : Bool) (w : ManifestWalk) : ManifestWalk :=
  if len = 0 then w
  else
    match env.readFileToBuf item cfilename with
    | none => w
    | some fdata =>
        if fdata.length = 0 then w
        else
          match conCheckHeader env.sha fdata fdata.length expVer isSupd with
          | .error _ => { w with defined := false }
          | .ok good =>
              let w := { w with ttlConChecked := w.ttlConChecked + 1 }
              if good then
                let w := { w with ttlConOk := w.ttlConOk + 1 }
                if doCopy && env.copyToFolder then dumpFile fdata w else w
              else w

def verifyCall (env : CheckEnv) (item : Nat) : VerifyCall → ManifestWalk → ManifestWalk
  | .container cfilename len expVer doCopy isSupd =>
      verifyContainer env item cfilename len expVer doCopy isSupd
  | .file cfilename len hdat => verifyFile env item cfilename len hdat

def verifyUse (env : CheckEnv) (item : Nat) (use : Option ItemUse) (w : ManifestWalk) :
    ManifestWalk :=
  match use with
  | some use => verifyCall env item use.call w
  | none => w

def CheckEnv.useOutcome (env : CheckEnv) (item : Nat) (use : Option ItemUse) : Outcome :=
  match use with
  | some use => env.outcome item use.call
  | none => .unread

/-- What the `switch` and the `flash` branch hand to the two routines. -/
def itemUse (env : CheckEnv) (schema : Schema) (view : ItemView) (sbuf : Bytes) :
    Option ItemUse :=
  let itm := view.entry
  let names := itemNames view sbuf
  let srcFile := MANIFEST_BASE ++ names.source
  let packagePath := PACKAGE_BASE ++ hex8 itm.contentTitleId ++ backslash ++ hex8 itm.contentType ++
    backslash ++ names.destination
  let versionPath := hex8 view.ver ++ backslash ++ names.destination
  let outPath := fun path =>
    if env.copyToFolder then some (env.outbasepath ++ backslash ++ path) else none
  if itm.srcNameOff = 0 then none
  else if names.compared = flashName then
    some ⟨.container (MANIFEST_BASE ++ SU_PACKAGE) 1 view.ver false true, view.ver, none, none⟩
  else if itm.entryType = 2 then
    some ⟨.container srcFile itm.fileSize view.ver true false, view.ver,
      some (schema.drive ++ packagePath), outPath packagePath⟩
  else if itm.entryType = 3 then
    some ⟨.file srcFile itm.fileSize itm.dataHash, view.ver,
      some (schema.drive ++ versionPath), outPath versionPath⟩
  else none

def storesFit (env : CheckEnv) (schema : Schema) (view : ItemView) (sbuf : Bytes) : Bool :=
  let itm := view.entry
  let names := itemNames view sbuf
  let copied := fun (name : Option Bytes) => (name.getD []).length < sbufSize
  let destRead := itm.destNameOff ≠ 0 ∨ itm.srcNameOff ≠ 0 ∧ names.compared ≠ flashName
  copied view.srcName && copied view.intName && (!destRead || copied view.destName) &&
    (itm.srcNameOff == 0 || (MANIFEST_BASE ++ names.source).length < MAX_PATH) &&
    (itemUse env schema view sbuf).all fun use => (use.dstFile.getD []).length < MAX_PATH &&
      (use.outfilepath.getD []).length < MAXPATHLEN

/-! ## The item loops -/

/-- The two length bytes of a string and the bytes it announces. -/
def stringRead (body : Nat → Byte) (offset : Nat) : Nat × Nat := (offset, 2 + be16At body offset)

def itemReads (schema : Schema) (body : Nat → Byte) (item : Nat) (sbuf : Bytes) :
    List (Nat × Nat) :=
  let view := itemView schema body item
  let itm := view.entry
  let string := fun offset => if offset ≠ 0 then [stringRead body offset] else []
  let word := fun offset => if offset ≠ 0 then [(offset, 4)] else []
  (entryOffset schema item, schema.readSize) :: (string itm.srcNameOff ++ string itm.intNameOff ++
    string itm.destNameOff ++ word itm.versionOff ++ word itm.flagsOff ++ string itm.srcNameOff ++
    if itm.srcNameOff ≠ 0 ∧ (itemNames view sbuf).compared ≠ flashName then
      [stringRead body itm.destNameOff] else [])

def buildPaths (env : CheckEnv) (schema : Schema) (body : Nat → Byte) (w : ManifestWalk)
    (item : Nat) : ManifestWalk :=
  let view := itemView schema body item
  let use := itemUse env schema view w.sbuf
  { w with
    sbuf := (itemNames view w.sbuf).destination
    outfilepath := (use.bind ItemUse.outfilepath).getD w.outfilepath
    results := w.results ++ [use.map fun use => (use, env.outcome item use.call)]
    reads := w.reads ++ itemReads schema body item w.sbuf
    defined := w.defined && storesFit env schema view w.sbuf }

def verifyItem (env : CheckEnv) (schema : Schema) (body : Nat → Byte) (w : ManifestWalk)
    (item : Nat) : ManifestWalk :=
  verifyUse env item (itemUse env schema (itemView schema body item) w.sbuf)
    (buildPaths env schema body w item)

/-- The first `count` rounds of the loop, which reads the number of entries
first. -/
def walkItems (env : CheckEnv) (schema : Schema) (body : Nat → Byte) (w : ManifestWalk)
    (count : Nat) : ManifestWalk :=
  (List.range count).foldl (verifyItem env schema body)
    { w with reads := w.reads ++ [(numEntriesOffset, 4)] }

def verifyManifestItems (env : CheckEnv) (body : Nat → Byte) (w : ManifestWalk) : ManifestWalk :=
  walkItems env schema3 body w (numEntries body)

def verifyManifestItemsV1 (env : CheckEnv) (body : Nat → Byte) (w : ManifestWalk) : ManifestWalk :=
  walkItems env schema1 body w (numEntries body)

/-! ## `verifyManifestHeader`, `parseManifest` and the totals -/

def verifyManifestHeader (sha : Sha) (man : ManifestBuffer) : Bool :=
  let magic := be32At man.body 0
  let sealed := be32At man.mem 0 == MAGIC_XMNP &&
    (sha (bytesAt man.body 0 man.contentSize)).bytes ==
      bytesAt man.mem baDataShaOffset XECRYPT_SHA_DIGEST_SIZE
  if man.schemaVer = 1 then magic == MAGIC_XMAN && sealed
  else if man.schemaVer = 3 then (magic == MAGIC_XSYM || magic == MAGIC_XONM) && sealed
  else false

/-- `copyToFolder` is cleared for schema 1. -/
def parseManifest (env : CheckEnv) (man : ManifestBuffer) (w : ManifestWalk) : ManifestWalk :=
  if 0x10000 < man.len ∨ man.len < 0x164 then w
  else if verifyManifestHeader env.sha man then
    if man.schemaVer = 1 then verifyManifestItemsV1 { env with copyToFolder := false } man.body w
    else if man.schemaVer = 3 then verifyManifestItems env man.body w
    else w
  else w

/-- The last line that `main` prints, `%d of %d files good`; nothing when no
file was checked. -/
def printedTotals (w : ManifestWalk) : Option (Nat × Nat) :=
  if w.ttlFilesChecked ≠ 0 ∨ w.ttlConChecked ≠ 0 then
    some (w.ttlConOk + w.ttlFilesOk, w.ttlFilesChecked + w.ttlConChecked)
  else none

structure Accepted (sha : Sha) (man : ManifestBuffer) (schemaVer : Nat) : Prop where
  atLeast : 0x164 ≤ man.len
  atMost : man.len ≤ 0x10000
  header : verifyManifestHeader sha man = true
  schema : man.schemaVer = schemaVer

end XeBuild.SuCheck
