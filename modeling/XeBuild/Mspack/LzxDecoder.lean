import XeBuild.Mspack.CallTranslation
import XeBuild.Mspack.Elements

/-!
# The LZX decoder

`lzxd_init` and `lzxd_decompress`: a stream is decoded in frames of 32768 bytes, a
frame in runs of the blocks that it meets, and a block starts with its trees or with
stored offsets. Frames are put into the window and written out of it, with their
calls translated. The model joins the local copies of the stream's variables with
the variables; a stream that has failed is not decoded any further.
-/

namespace XeBuild.Mspack

open ListRange Runs

set_option autoImplicit false

def LZX_FRAME_SIZE : Nat := 32768

/-- The variables of a stream. `pending` are the bytes from `o_ptr` to `o_end`. -/
structure LzxdStream where
  output : Option MemFile
  offset : Nat
  length : Nat
  window_size : Nat
  ref_data_size : Nat
  num_offsets : Nat
  frame_posn : Nat
  frame : Nat
  reset_interval : Nat
  block_length : Nat
  block_remaining : Nat
  block_type : Nat
  intel_filesize : Int
  intel_curpos : Int
  intel_started : Bool
  header_read : Bool
  is_delta : Bool
  error : Nat
  cursor : Cursor
  trees : LzxTrees
  pending : Bytes

/-! ## Block headers -/

def readBlockTrees (trees : LzxTrees) (num_offsets : Nat) (p : BitReader) :
    Except Stop (LzxTrees × BitReader) := do
  let (pretree, len, p) ← lzxdReadLens trees.PRETREE trees.MAINTREE.len 0 256 p
  let (pretree, len, p) ← lzxdReadLens pretree len 256 (LZX_NUM_CHARS + num_offsets) p
  let maintree ← buildTable MAINTREE { trees.MAINTREE with len := len }
  let (pretree, len, p) ← lzxdReadLens pretree trees.LENGTH.len 0 LZX_NUM_SECONDARY_LENGTHS p
  let (length, empty) ← buildTableMaybeEmpty LENGTH { trees.LENGTH with len := len }
  return ({ trees with
    PRETREE := pretree, MAINTREE := maintree, LENGTH := length, LENGTH_empty := empty }, p)

def readAlignedTree (trees : LzxTrees) (p : BitReader) : Except Stop (LzxTrees × BitReader) := do
  let (len, p) ← readPlainLens 3 8 0 trees.ALIGNED.len p
  let aligned ← buildTable ALIGNED { trees.ALIGNED with len := len }
  return ({ trees with ALIGNED := aligned }, p)

def readRaw : Nat → BitReader → Except Stop (Bytes × BitReader)
  | 0, p => .ok ([], p)
  | count + 1, p => do
      let (byte, p) ← nextByte p
      let (rest, p) ← readRaw count p
      return (byte :: rest, p)

def storedOffset (buf : Bytes) (index : Nat) : Nat :=
  wordOf (buf.getD index 0) (buf.getD (index + 1) 0) (buf.getD (index + 2) 0)
    (buf.getD (index + 3) 0)

/-- `if (bits_left == 0) ENSURE_BITS(16);` -/
def fillEmpty (p : BitReader) : Except Stop BitReader :=
  if p.bits_left = 0 then ensureBits 16 p else .ok p

def dropBits (p : BitReader) : BitReader := { p with bits_left := 0, bit_buffer := 0 }

/-- One to sixteen bits are dropped, and the three offsets are read as bytes. -/
def readStoredOffsets (p : BitReader) : Except Stop (OffsetQueue × BitReader) := do
  let p ← fillEmpty p
  let p := dropBits p
  let (buf, p) ← readRaw 12 p
  return (⟨storedOffset buf 0, storedOffset buf 4, storedOffset buf 8⟩, p)

def skipOddByte (lzx : LzxdStream) : Except Stop BitReader :=
  if lzx.block_type = LZX_BLOCKTYPE_UNCOMPRESSED ∧ lzx.block_length % 2 = 1 then do
    let (_, p) ← nextByte lzx.cursor.bits
    return p
  else .ok lzx.cursor.bits

/-- The aligned tree is in front of the others. -/
def readFirstTree (lzx : LzxdStream) : Except Stop (LzxTrees × BitReader) :=
  if lzx.block_type = LZX_BLOCKTYPE_ALIGNED then readAlignedTree lzx.trees lzx.cursor.bits
  else .ok (lzx.trees, lzx.cursor.bits)

def readCompressedHeader (lzx : LzxdStream) : Except Stop LzxdStream := do
  let (trees, p) ← readFirstTree lzx
  let (trees, p) ← readBlockTrees trees lzx.num_offsets p
  -- the literal of a call may be in the block
  let started := if trees.MAINTREE.len.getD 0xE8 0 ≠ 0 then true else lzx.intel_started
  return { lzx with
    trees := trees, cursor := { lzx.cursor with bits := p }, intel_started := started }

def readUncompressedHeader (lzx : LzxdStream) : Except Stop LzxdStream := do
  let (queue, p) ← readStoredOffsets lzx.cursor.bits
  return { lzx with
    cursor := { lzx.cursor with queue := queue, bits := p }, intel_started := true }

def readBlockHeader (lzx : LzxdStream) : Except Stop LzxdStream := do
  let p ← skipOddByte lzx
  let (block_type, p) ← readBits 3 p
  let (i, p) ← readBits 16 p
  let (j, p) ← readBits 8 p
  let block_length := (i <<< 8) ||| j
  let lzx := { lzx with
    block_type := block_type, block_length := block_length, block_remaining := block_length,
    cursor := { lzx.cursor with bits := p } }
  if block_type = LZX_BLOCKTYPE_ALIGNED ∨ block_type = LZX_BLOCKTYPE_VERBATIM then
    readCompressedHeader lzx
  else if block_type = LZX_BLOCKTYPE_UNCOMPRESSED then readUncompressedHeader lzx
  else .error (.error MSPACK_ERR_DECRUNCH)

/-! ## Blocks -/

/-- `while (this_run > 0)` in an uncompressed block. -/
def uncompressedRun : Nat → Nat → Nat → Bytes → BitReader → Except Stop (Bytes × BitReader)
  | 0, this_run, _, window, p => if this_run > 0 then .error .roundsSpent else .ok (window, p)
  | rounds + 1, this_run, rundest, window, p =>
      if this_run > 0 then
        let i := p.ahead.length
        if i = 0 then do
          let p ← readIfNeeded p
          uncompressedRun rounds this_run rundest window p
        else
          let i := if i > this_run then this_run else i
          if rundest + i ≤ window.length then
            uncompressedRun rounds (this_run - i) (rundest + i)
              (patch window rundest (p.ahead.take i)) { p with ahead := p.ahead.drop i }
          else .error (.outside .window (rundest + i))
      else .ok (window, p)

def LzxdStream.limits (lzx : LzxdStream) : WindowLimits :=
  ⟨lzx.window_size, lzx.offset, lzx.ref_data_size⟩

/-- A run of the block: what is left of `this_run`, and where the decoding is. -/
def runBlock (lzx : LzxdStream) (this_run : Nat) : Except Stop (Int × Cursor) :=
  if lzx.block_type = LZX_BLOCKTYPE_VERBATIM ∨ lzx.block_type = LZX_BLOCKTYPE_ALIGNED then
    elementLoop lzx.trees lzx.is_delta lzx.block_type lzx.limits this_run this_run lzx.cursor
  else if lzx.block_type = LZX_BLOCKTYPE_UNCOMPRESSED then do
    -- a refill and a copy for every byte, at most
    let (window, p) ← uncompressedRun (2 * this_run) this_run lzx.cursor.window_posn
      lzx.cursor.window lzx.cursor.bits
    return (0, { lzx.cursor with
      window := window, window_posn := lzx.cursor.window_posn + this_run, bits := p })
  else .error (.error MSPACK_ERR_DECRUNCH)

def nextBlock (lzx : LzxdStream) : Except Stop LzxdStream :=
  if lzx.block_remaining = 0 then readBlockHeader lzx else .ok lzx

/-- What is available, and no more than what is needed. -/
def thisRun (block_remaining bytes_todo : Nat) : Nat :=
  if block_remaining > bytes_todo then bytes_todo else block_remaining

def blockRound (bytes_todo : Nat) (lzx : LzxdStream) : Except Stop (Nat × LzxdStream) := do
  let lzx ← nextBlock lzx
  let this_run := thisRun lzx.block_remaining bytes_todo
  let block_remaining := lzx.block_remaining - this_run
  let (left, cursor) ← runBlock lzx this_run
  -- the last match may have passed the end of the run
  if left < 0 then
    if (-left).toNat > block_remaining then .error (.error MSPACK_ERR_DECRUNCH)
    else return (bytes_todo - this_run,
      { lzx with cursor := cursor, block_remaining := block_remaining - (-left).toNat })
  else return (bytes_todo - this_run,
    { lzx with cursor := cursor, block_remaining := block_remaining })

def blockLoop : Nat → Nat → LzxdStream → Except Stop LzxdStream
  | 0, bytes_todo, lzx => if bytes_todo > 0 then .error .roundsSpent else .ok lzx
  | rounds + 1, bytes_todo, lzx =>
      if bytes_todo > 0 then do
        let (bytes_todo, lzx) ← blockRound bytes_todo lzx
        blockLoop rounds bytes_todo lzx
      else .ok lzx

/-! ## Frames -/

def clearLens (tree : HuffTree) (memory : TreeMemory) : TreeMemory :=
  { memory with len := patch memory.len 0 (List.replicate tree.maxSymbols 0) }

def lzxdResetState (lzx : LzxdStream) : LzxdStream :=
  { lzx with
    cursor := { lzx.cursor with queue := ⟨1, 1, 1⟩ }
    header_read := false
    block_remaining := 0
    block_type := LZX_BLOCKTYPE_INVALID
    trees := { lzx.trees with
      MAINTREE := clearLens MAINTREE lzx.trees.MAINTREE
      LENGTH := clearLens LENGTH lzx.trees.LENGTH } }

def resetAtInterval (lzx : LzxdStream) : Except Stop LzxdStream :=
  if lzx.reset_interval ≠ 0 ∧ lzx.frame % lzx.reset_interval = 0 then
    if lzx.block_remaining ≠ 0 then .error (.error MSPACK_ERR_DECRUNCH)
    else .ok (lzxdResetState lzx)
  else .ok lzx

/-- LZX DELTA has a chunk size in front of every frame. -/
def skipChunkSize (lzx : LzxdStream) : Except Stop LzxdStream :=
  if lzx.is_delta then do
    let p ← ensureBits 16 lzx.cursor.bits
    return { lzx with cursor := { lzx.cursor with bits := removeBits 16 p } }
  else .ok lzx

def readStreamHeader (lzx : LzxdStream) : Except Stop LzxdStream :=
  if lzx.header_read then .ok lzx
  else do
    let (i, p) ← readBits 1 lzx.cursor.bits
    if i ≠ 0 then
      let (i, p) ← readBits 16 p
      let (j, p) ← readBits 16 p
      return { lzx with
        intel_filesize := asInt ((i <<< 16) ||| j), header_read := true,
        cursor := { lzx.cursor with bits := p } }
    else return { lzx with
      intel_filesize := 0, header_read := true, cursor := { lzx.cursor with bits := p } }

/-- All frames have the same size except the last one, if the length is known. -/
def frameSize (lzx : LzxdStream) : Nat :=
  if lzx.length ≠ 0 ∧ (lzx.length : Int) - lzx.offset < LZX_FRAME_SIZE then
    (((lzx.length : Int) - lzx.offset) % 0x100000000).toNat
  else LZX_FRAME_SIZE

/-- `if (bits_left > 0) ENSURE_BITS(16);` -/
def fillStarted (p : BitReader) : Except Stop BitReader :=
  if p.bits_left > 0 then ensureBits 16 p else .ok p

/-- The bits up to the end of a word are dropped. -/
def realign (p : BitReader) : Except Stop BitReader := do
  let p ← fillStarted p
  return if p.bits_left &&& 15 ≠ 0 then removeBits (p.bits_left &&& 15) p else p

def loadFrame (lzx : LzxdStream) (frame_size : Nat) : Except Stop Bytes :=
  if lzx.frame_posn + frame_size ≤ lzx.cursor.window.length then
    .ok (slice lzx.cursor.window lzx.frame_posn frame_size)
  else .error (.outside .window (lzx.frame_posn + frame_size))

/-- The frame that is written next, with its calls translated where that is asked for. -/
def translateOutput (lzx : LzxdStream) (frame_size : Nat) : Except Stop LzxdStream := do
  let data ← loadFrame lzx frame_size
  if lzx.intel_started = true ∧ lzx.intel_filesize ≠ 0 ∧ lzx.frame ≤ 32768 ∧ frame_size > 10 then
    if frame_size ≤ LZX_FRAME_SIZE then
      let data ← translateFrame lzx.intel_filesize lzx.intel_curpos data
      return { lzx with pending := data, intel_curpos := lzx.intel_curpos + frame_size }
    else .error (.outside .e8_buf frame_size)
  else if lzx.intel_filesize ≠ 0 then
    return { lzx with pending := data, intel_curpos := lzx.intel_curpos + frame_size }
  else return { lzx with pending := data }

/-- A frame up to the write; the rounds are enough because a block takes bits or bytes. -/
def decodeFrame (lzx : LzxdStream) : Except Stop (Nat × LzxdStream) := do
  let lzx ← resetAtInterval lzx
  let lzx ← skipChunkSize lzx
  let lzx ← readStreamHeader lzx
  let frame_size := frameSize lzx
  let bytes_todo := lzx.frame_posn + frame_size - lzx.cursor.window_posn
  let lzx ← blockLoop (lzx.cursor.bits.available + bytes_todo) bytes_todo lzx
  if lzx.cursor.window_posn - lzx.frame_posn ≠ frame_size then
    .error (.error MSPACK_ERR_DECRUNCH)
  else do
    let p ← realign lzx.cursor.bits
    if lzx.pending ≠ [] then .error (.error MSPACK_ERR_DECRUNCH)
    else
      let lzx ← translateOutput { lzx with cursor := { lzx.cursor with bits := p } } frame_size
      return (frame_size, lzx)

def nextFrame (frame_size : Nat) (lzx : LzxdStream) : LzxdStream :=
  let frame_posn := lzx.frame_posn + frame_size
  { lzx with
    frame := lzx.frame + 1
    frame_posn := if frame_posn = lzx.window_size then 0 else frame_posn
    cursor := { lzx.cursor with
      window_posn :=
        if lzx.cursor.window_posn = lzx.window_size then 0 else lzx.cursor.window_posn } }

/-- The first bytes that are pending are written, or the write fails. -/
def writePending (i : Nat) (lzx : LzxdStream) : LzxdStream × Bool :=
  match memWrite lzx.output (lzx.pending.take i) with
  | none => ({ lzx with error := MSPACK_ERR_WRITE }, false)
  | some (written, output) =>
      if written ≠ i then ({ lzx with output := output, error := MSPACK_ERR_WRITE }, false)
      else ({ lzx with
        output := output, pending := lzx.pending.drop i, offset := lzx.offset + i }, true)

/-- `while (lzx->frame < end_frame)`, and the check behind it. -/
def frameLoop (end_frame : Nat) : Nat → Nat → LzxdStream → Except Stop (Nat × LzxdStream)
  | 0, out_bytes, lzx =>
      if lzx.frame < end_frame then .error .roundsSpent
      else if out_bytes ≠ 0 then
        .ok (MSPACK_ERR_DECRUNCH, { lzx with error := MSPACK_ERR_DECRUNCH })
      else .ok (MSPACK_ERR_OK, lzx)
  | rounds + 1, out_bytes, lzx =>
      if lzx.frame < end_frame then
        match decodeFrame lzx with
        | .error (.error status) => .ok (status, { lzx with error := status })
        | .error stop => .error stop
        | .ok (frame_size, lzx) =>
            let i := if out_bytes < frame_size then out_bytes else frame_size
            match writePending i lzx with
            | (lzx, false) => .ok (lzx.error, lzx)
            | (lzx, true) => frameLoop end_frame rounds (out_bytes - i) (nextFrame frame_size lzx)
      else if out_bytes ≠ 0 then
        .ok (MSPACK_ERR_DECRUNCH, { lzx with error := MSPACK_ERR_DECRUNCH })
      else .ok (MSPACK_ERR_OK, lzx)

/-- How many of the stored-up bytes are asked for. -/
def storedSize (out_bytes : Nat) (lzx : LzxdStream) : Nat :=
  if lzx.pending.length > out_bytes then out_bytes else lzx.pending.length

def writeStored (out_bytes : Nat) (lzx : LzxdStream) : LzxdStream × Bool :=
  let i := storedSize out_bytes lzx
  if i ≠ 0 then writePending i lzx else (lzx, true)

def decodeFrames (out_bytes : Nat) (lzx : LzxdStream) : Except Stop (Nat × LzxdStream) :=
  if out_bytes = 0 then .ok (MSPACK_ERR_OK, lzx)
  else
    let end_frame := ((lzx.offset + out_bytes) / LZX_FRAME_SIZE + 1) % 0x100000000
    frameLoop end_frame (end_frame - lzx.frame) out_bytes lzx

def lzxdDecompress (lzx : LzxdStream) (out_bytes : Int) : Except Stop (Nat × LzxdStream) :=
  if out_bytes < 0 then .ok (MSPACK_ERR_ARGS, lzx)
  else if lzx.error ≠ MSPACK_ERR_OK then .ok (lzx.error, lzx)
  else
    match writeStored out_bytes.toNat lzx with
    | (lzx, false) => .ok (lzx.error, lzx)
    | (written, true) => decodeFrames (out_bytes.toNat - storedSize out_bytes.toNat lzx) written

/-! ## Streams -/

structure LzxTrees.Sized (trees : LzxTrees) : Prop where
  pretree : trees.PRETREE.Sized Mspack.PRETREE
  maintree : trees.MAINTREE.Sized Mspack.MAINTREE
  length : trees.LENGTH.Sized Mspack.LENGTH
  aligned : trees.ALIGNED.Sized Mspack.ALIGNED

/-- What `alloc` gives to `lzxd_init`: memory with any contents, or none. -/
structure LzxMemory where
  stream : Option { trees : LzxTrees // trees.Sized }
  window : (size : Nat) → Option { bytes : Bytes // bytes.length = size }
  inbuf : Nat → Bool

/-- Regular windows have at most 2 MiB, those of LZX DELTA 32 MiB. -/
def lastWindowBits (is_delta : Bool) : Nat := if is_delta then 25 else 21

def newStream (trees : LzxTrees) (window : Bytes) (input output : Option MemFile)
    (window_bits reset_interval inbuf_size output_length : Nat) (is_delta : Bool) : LzxdStream where
  output := output
  offset := 0
  length := output_length
  window_size := 1 <<< window_bits
  ref_data_size := 0
  num_offsets := positionSlots.getD (window_bits - 15) 0 <<< 3
  frame_posn := 0
  frame := 0
  reset_interval := reset_interval
  block_length := 0
  block_remaining := 0
  block_type := LZX_BLOCKTYPE_INVALID
  intel_filesize := 0
  intel_curpos := 0
  intel_started := false
  header_read := false
  is_delta := is_delta
  error := MSPACK_ERR_OK
  cursor := ⟨window, 0, ⟨1, 1, 1⟩, ⟨input, inbuf_size, [], false, 0, 0⟩⟩
  trees := trees
  pending := []

def lzxdInit (memory : LzxMemory) (input output : Option MemFile)
    (window_bits reset_interval input_buffer_size output_length : Nat) (is_delta : Bool) :
    Option LzxdStream :=
  -- (input_buffer_size + 1) & -2
  let inbuf_size := (input_buffer_size + 1) / 2 * 2
  if window_bits < 15 ∨ window_bits > lastWindowBits is_delta then none
  else if inbuf_size = 0 then none
  else
    match memory.stream, memory.window (1 <<< window_bits), memory.inbuf inbuf_size with
    | some trees, some window, true =>
        some (lzxdResetState (newStream trees.val window.val input output window_bits reset_interval
          inbuf_size output_length is_delta))
    | _, _, _ => none

end XeBuild.Mspack
