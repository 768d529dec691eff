import XeBuild.Iso2svod.MemoryImage

/-!
# The status of the LZX library

`unpackXexData` and `doXexUnpack`, over a library that makes a stream or none,
and that returns any status behind any bytes that it writes. The result starts
as `TRUE` and only a missing stream makes it `FALSE`, so an image that is partly
decompressed passes for a complete one.
-/

namespace XeBuild.Iso2svod

open CheckedBuffer ListRange Runs

set_option autoImplicit false

def MSPACK_ERR_OK : Nat := 0

def getBitSize (winSize : Nat) : Nat :=
  if winSize = 0x8000 then 15
  else if winSize = 0x10000 then 16
  else if winSize = 0x20000 then 17
  else if winSize = 0x40000 then 18
  else if winSize = 0x80000 then 19
  else if winSize = 0x100000 then 20
  else if winSize = 0x200000 then 21
  else 0

/-- The input and the output of the library: the bytes of the one and the length of
the other, where `mem_open` opens them. -/
structure LzxFiles where
  input : Option Bytes
  output : Option Nat

/-- `lzxd_init` and `lzxd_decompress`; the second gives a status and what it writes. -/
structure Lzx (Stream : Type) where
  lzxdInit : LzxFiles → Nat → Nat → Nat → Option Stream
  lzxdDecompress : Stream → Nat → Nat × Bytes

structure UnpackMemory where
  rebuf : Option Bytes
  inFile : Bool
  outFile : Bool

/-- `mem_open` takes no empty buffer. -/
def openInput (given : Bool) (data : Bytes) : Option Bytes :=
  if data = [] then none else if given then some data else none

def openOutput (given : Bool) (length : Nat) : Option Nat :=
  if length = 0 then none else if given then some length else none

def lzxFiles (memory : UnpackMemory) (pInData : Bytes) (outLen : Nat) : LzxFiles :=
  ⟨openInput memory.inFile pInData, openOutput memory.outFile outLen⟩

def memWrite (output : Option Nat) (pOutData written : Bytes) : Except Fault Bytes :=
  match output with
  | none => .ok pOutData
  | some length => store pOutData 0 (written.take length)

section Unpack

variable {Stream : Type}

def doXexUnpack (lzx : Lzx Stream) (memory : UnpackMemory) (pInData pOutData : Bytes)
    (outLen windowSize : Nat) : Except Fault (Bool × Bytes) :=
  let ret := true
  let files := lzxFiles memory pInData outLen
  match lzx.lzxdInit files (getBitSize windowSize) windowSize outLen with
  | none => .ok (false, pOutData)
  | some lzxd => do
      let (stLzx, written) := lzx.lzxdDecompress lzxd outLen
      let pOutData ← memWrite files.output pOutData written
      let ret := if stLzx = MSPACK_ERR_OK then true else ret
      return (ret, pOutData)

/-- `rounds` bounds the loops of `rebufInData`. -/
def unpackXexData (lzx : Lzx Stream) (memory : UnpackMemory) (rounds : Nat)
    (pInData pOutData : Bytes) (outLen windowSize firstDataSize : Nat) :
    Except Fault (Bool × Bytes) := do
  let (rebuf, rebufsz) ← rebufInData memory.rebuf pInData firstDataSize rounds
  match rebuf with
  | none => return (false, pOutData)
  | some rebuf =>
      doXexUnpack lzx memory (rebuf.take rebufsz) pOutData outLen windowSize

def lzxStatus (lzx : Lzx Stream) (memory : UnpackMemory) (rounds : Nat) (pInData : Bytes)
    (outLen windowSize firstDataSize : Nat) : Option Nat :=
  match rebufInData memory.rebuf pInData firstDataSize rounds with
  | .ok (some rebuf, rebufsz) =>
      (lzx.lzxdInit (lzxFiles memory (rebuf.take rebufsz) outLen) (getBitSize windowSize)
        windowSize outLen).map fun lzxd => (lzx.lzxdDecompress lzxd outLen).1
  | _ => none

section Status

variable {lzx : Lzx Stream} {memory : UnpackMemory} {rounds outLen windowSize firstDataSize : Nat}
  {pInData pOutData rebuf out : Bytes} {ret : Bool}

/-- The result tells whether there is a stream, whatever its status is. -/
theorem do_xex_unpack_result
    (run : doXexUnpack lzx memory pInData pOutData outLen windowSize = .ok (ret, out)) :
    ret = (lzx.lzxdInit (lzxFiles memory pInData outLen) (getBitSize windowSize) windowSize
      outLen).isSome := by
  rw [doXexUnpack] at run
  cases made : lzx.lzxdInit (lzxFiles memory pInData outLen) (getBitSize windowSize) windowSize
      outLen with
  | none =>
      simp only [made] at run
      cases run
      rfl
  | some lzxd =>
      simp only [made] at run
      rcases bind_ok_iff.mp run with ⟨written, _, result⟩
      rw [ite_self] at result
      cases result
      rfl

/-- `TRUE` is returned exactly when the library was called to decompress. -/
theorem unpack_result
    (run : unpackXexData lzx memory rounds pInData pOutData outLen windowSize firstDataSize =
      .ok (ret, out)) :
    ret = true ↔ ∃ status,
      lzxStatus lzx memory rounds pInData outLen windowSize firstDataSize = some status := by
  rw [unpackXexData] at run
  rcases bind_ok_iff.mp run with ⟨⟨rebuffed, rebufsz⟩, rebuf, run⟩
  rw [lzxStatus, rebuf]
  cases rebuffed with
  | none =>
      cases run
      simp
  | some bytes =>
      have result := do_xex_unpack_result run
      dsimp only
      cases made : lzx.lzxdInit (lzxFiles memory (bytes.take rebufsz) outLen)
          (getBitSize windowSize) windowSize outLen with
      | none => simp [result, made]
      | some lzxd => simp [result, made]

end Status

/-! ## The image that is looked into -/

/-- The environment of `xexGetSpaInfo` with these functions. A call without a
defined outcome has no result here. -/
def unpackEnv (env : XexEnv) (lzx : Lzx Stream) (memory : UnpackMemory) (rounds : Nat) : XexEnv :=
  { env with
    unpackXexData := fun xhdr headers inSz outbuf outSz winSz firstSz =>
      match unpackXexData lzx memory rounds (slice xhdr headers inSz) outbuf outSz winSz firstSz with
      | .ok (true, out) => some out
      | _ => none }

def XexLayout.status (layout : XexLayout) (lzx : Lzx Stream) (memory : UnpackMemory)
    (rounds xsec : Nat) : Option Nat :=
  lzxStatus lzx memory rounds
    (slice layout.file (be32 layout.file 8) (sub32 layout.file.length (be32 layout.file 8)))
    (be32 layout.file (xsec + 4)) (be32 layout.file (layout.fdesc + 8))
    (be32 layout.file (layout.fdesc + 0xC))

/-- The fields that `unpackXexData` is handed, where the format says so. -/
theorem compressed_layout {env : XexEnv} {xsec : Nat} {layout : XexLayout} {image : Bytes}
    (compressed : be16 layout.file (layout.fdesc + 6) = XEX_DATA_FORMAT_COMPRESSED)
    (laidOut : layout.layOut env xsec = .ok (some image)) :
    env.unpackXexData layout.file (be32 layout.file 8)
      (sub32 layout.file.length (be32 layout.file 8)) (zeros layout.imageSize)
      (be32 layout.file (xsec + 4)) (be32 layout.file (layout.fdesc + 8))
      (be32 layout.file (layout.fdesc + 0xC)) = some image := by
  rw [XexLayout.layOut, layOutImage] at laidOut
  rcases bind_ok_iff.mp laidOut with ⟨format, read, laidOut⟩
  rw [loadBe16] at read
  rcases bind_ok_iff.mp ((map_eq_pure_bind _ _).symm.trans read) with ⟨field, loaded, made⟩
  have same : format = be16 layout.file (layout.fdesc + 6) := by
    rw [(load_ok_iff.mp loaded).2] at made
    exact (Except.ok.inj made).symm
  have notRaw : format ≠ XEX_DATA_FORMAT_RAW := by
    rw [same, compressed]
    decide
  rw [if_neg notRaw, if_pos (same.trans compressed)] at laidOut
  rcases bind_ok_iff.mp laidOut with ⟨headers, readHeaders, laidOut⟩
  rcases bind_ok_iff.mp laidOut with ⟨outSz, readOutSz, laidOut⟩
  rcases bind_ok_iff.mp laidOut with ⟨winSz, readWinSz, laidOut⟩
  rcases bind_ok_iff.mp laidOut with ⟨firstSz, readFirstSz, laidOut⟩
  rw [← (load_be32_iff.mp readHeaders).2, ← (load_be32_iff.mp readOutSz).2,
    ← (load_be32_iff.mp readWinSz).2, ← (load_be32_iff.mp readFirstSz).2]
  exact Except.ok.inj laidOut

theorem unpack_env_some {env : XexEnv} {lzx : Lzx Stream} {memory : UnpackMemory}
    {rounds headers inSz outSz winSz firstSz : Nat} {xhdr outbuf image : Bytes}
    (unpacked : (unpackEnv env lzx memory rounds).unpackXexData xhdr headers inSz outbuf outSz winSz
      firstSz = some image) :
    unpackXexData lzx memory rounds (slice xhdr headers inSz) outbuf outSz winSz firstSz =
      .ok (true, image) := by
  rw [unpackEnv] at unpacked
  dsimp only at unpacked
  generalize unpackXexData lzx memory rounds (slice xhdr headers inSz) outbuf outSz winSz firstSz =
    run at unpacked ⊢
  cases run with
  | error fault => cases unpacked
  | ok value =>
      rcases value with ⟨ret, out⟩
      cases ret with
      | false => cases unpacked
      | true =>
          cases unpacked
          rfl

/-- The image of a compressed file is looked into only where a stream was made. -/
theorem compressed_image_status {env : XexEnv} {lzx : Lzx Stream} {memory : UnpackMemory}
    {rounds xsec : Nat} {layout : XexLayout} {image : Bytes}
    (compressed : be16 layout.file (layout.fdesc + 6) = XEX_DATA_FORMAT_COMPRESSED)
    (laidOut : layout.layOut (unpackEnv env lzx memory rounds) xsec = .ok (some image)) :
    ∃ status, layout.status lzx memory rounds xsec = some status :=
  (unpack_result (unpack_env_some (compressed_layout compressed laidOut))).mp rfl

theorem some_iff_of_exists {status : Option Nat} {result : Prop}
    (called : result ↔ ∃ value, status = some value) :
    (result ↔ status = some MSPACK_ERR_OK) ↔ ∀ value, status = some value → value = MSPACK_ERR_OK := by
  cases status with
  | none => simp_all
  | some value => simp_all

/-- For every run that returns. The result is right, and the image that the SPA
section is looked up in is complete, exactly when the library has no other status. -/
theorem unpack_reports_status_iff (lzx : Lzx Stream) (memory : UnpackMemory) (rounds : Nat) :
    (∀ pInData pOutData outLen windowSize firstDataSize ret out,
      unpackXexData lzx memory rounds pInData pOutData outLen windowSize firstDataSize =
        .ok (ret, out) →
      ((ret = true ↔ lzxStatus lzx memory rounds pInData outLen windowSize firstDataSize =
          some MSPACK_ERR_OK) ↔
        ∀ status, lzxStatus lzx memory rounds pInData outLen windowSize firstDataSize =
          some status → status = MSPACK_ERR_OK)) ∧
    ∀ env xhdr xsec titleId layout image,
      openXex (unpackEnv env lzx memory rounds) xhdr xsec = .ok (some layout) →
      be16 layout.file (layout.fdesc + 6) = XEX_DATA_FORMAT_COMPRESSED →
      layout.layOut (unpackEnv env lzx memory rounds) xsec = .ok (some image) →
      xexGetSpaInfo (unpackEnv env lzx memory rounds) xhdr xsec titleId =
          readSpa (unpackEnv env lzx memory rounds) layout.file xsec titleId image ∧
        (layout.status lzx memory rounds xsec = some MSPACK_ERR_OK ↔
          ∀ status, layout.status lzx memory rounds xsec = some status →
            status = MSPACK_ERR_OK) := by
  constructor
  · intro pInData pOutData outLen windowSize firstDataSize ret out run
    exact some_iff_of_exists (unpack_result run)
  · intro env xhdr xsec titleId layout image opened compressed laidOut
    have called := compressed_image_status compressed laidOut
    refine ⟨?_, ?_⟩
    · rw [xex_get_spa_info_eq, opened, ok_bind, layOutAndLookUp, laidOut, ok_bind, lookUpSpa]
    · have always : True ↔ ∃ status, layout.status lzx memory rounds xsec = some status :=
        ⟨fun _ => called, fun _ => trivial⟩
      have condition := some_iff_of_exists always
      rwa [true_iff] at condition

end Unpack

/-! ## A small compressed file -/

def smallStream : Bytes := zeros 0x18 ++ [0, 1, 0x41, 0, 0]

def smallCompressedXex : Bytes :=
  xexFile 0x1B4 4 0 [(XEX_FILE_DATA_DESCRIPTOR_HEADER, 0x1A4)]
    (xexWords [0x24, 2, 0x8000, 0x1D] ++ smallStream)

def smallCompressedLayout : XexLayout := ⟨smallCompressedXex, 0x1B4, 0x1A4, 4⟩

def unpackMemory : UnpackMemory := ⟨some (zeros 0x1D), true, true⟩

def lzxWithStatus (status : Nat) : Lzx Unit where
  lzxdInit _ _ _ _ := some ()
  lzxdDecompress _ _ := (status, [0x58, 0x59])

/-- With the status of a run that is done. -/
theorem done_stream_reported :
    unpackXexData (lzxWithStatus MSPACK_ERR_OK) unpackMemory 8 smallStream (zeros 4) 4 0x8000 0x1D =
        .ok (true, [0x58, 0x59, 0, 0]) ∧
      lzxStatus (lzxWithStatus MSPACK_ERR_OK) unpackMemory 8 smallStream 4 0x8000 0x1D =
        some MSPACK_ERR_OK ∧
      smallCompressedLayout.status (lzxWithStatus MSPACK_ERR_OK) unpackMemory 8 0x20 =
        some MSPACK_ERR_OK := by
  have run : unpackXexData (lzxWithStatus MSPACK_ERR_OK) unpackMemory 8 smallStream (zeros 4) 4
      0x8000 0x1D = .ok (true, [0x58, 0x59, 0, 0]) := by decide +kernel
  have reports := unpack_reports_status_iff (lzxWithStatus MSPACK_ERR_OK) unpackMemory 8
  have only : ∀ status, lzxStatus (lzxWithStatus MSPACK_ERR_OK) unpackMemory 8 smallStream 4 0x8000
      0x1D = some status → status = MSPACK_ERR_OK := by
    intro status same
    have known : lzxStatus (lzxWithStatus MSPACK_ERR_OK) unpackMemory 8 smallStream 4 0x8000 0x1D =
        some MSPACK_ERR_OK := by decide +kernel
    exact (Option.some.inj (known.symm.trans same)).symm
  have image := (reports.2 plainEnv smallCompressedXex 0x20 0 smallCompressedLayout
    [0x58, 0x59, 0, 0] (by decide +kernel) (by decide +kernel) (by decide +kernel)).2
  refine ⟨run, ((reports.1 _ _ _ _ _ _ _ run).mpr only).mp rfl, image.mpr ?_⟩
  intro status same
  have known : smallCompressedLayout.status (lzxWithStatus MSPACK_ERR_OK) unpackMemory 8 0x20 =
      some MSPACK_ERR_OK := by decide +kernel
  exact (Option.some.inj (known.symm.trans same)).symm

def decrunchError : Nat := 11

/-- The error is returned as `TRUE`, and the image with half of its bytes is looked into. -/
theorem failed_stream_reported_done :
    unpackXexData (lzxWithStatus decrunchError) unpackMemory 8 smallStream (zeros 4) 4 0x8000 0x1D =
        .ok (true, [0x58, 0x59, 0, 0]) ∧
      lzxStatus (lzxWithStatus decrunchError) unpackMemory 8 smallStream 4 0x8000 0x1D =
        some decrunchError ∧
      decrunchError ≠ MSPACK_ERR_OK ∧
      smallCompressedLayout.layOut (unpackEnv plainEnv (lzxWithStatus decrunchError) unpackMemory 8)
        0x20 = .ok (some [0x58, 0x59, 0, 0]) := by
  refine ⟨?_, ?_, ?_, ?_⟩ <;> decide +kernel

end XeBuild.Iso2svod
