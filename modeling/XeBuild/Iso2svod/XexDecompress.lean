import XeBuild.Iso2svod.XexUnpack
import XeBuild.Iso2svod.XexStream
import XeBuild.Mspack.StreamRoundTrip

/-!
# Decompressing the data of a file

`unpackXexData` over the library that is in the sources. Compressed data whose blocks
hold a stream that was written is unpacked to what the stream stands for, and every
image can be packed so.
-/

namespace XeBuild.Iso2svod

open CheckedBuffer ListChunks ListRange Runs

set_option autoImplicit false

/-- The library of the sources. A call without a defined outcome gives `stuck`. -/
def lzxLibrary (memory : Mspack.LzxMemory) (stuck : Nat × Bytes) : Lzx Mspack.LzxdStream where
  lzxdInit files windowBits bufferSize outLen :=
    Mspack.lzxdInit memory (files.input.bind Mspack.memOpen)
      (files.output.bind fun length => Mspack.memOpen (zeros length)) windowBits 0 bufferSize outLen
      false
  lzxdDecompress lzxd outLen :=
    match Mspack.lzxdDecompress lzxd outLen with
    | .ok (status, lzxd) => (status, lzxd.out)
    | .error _ => stuck

structure HasMemory (memory : Mspack.LzxMemory) (windowSize : Nat) : Prop where
  stream : memory.stream.isSome
  window : (memory.window windowSize).isSome
  inbuf : memory.inbuf ((windowSize + 1) / 2 * 2) = true

section Library

variable {memory : Mspack.LzxMemory} {window_bits outLen : Nat} {input output : Option Mspack.MemFile}

theorem get_bit_size (least : 15 ≤ window_bits) (most : window_bits ≤ 21) :
    getBitSize (1 <<< window_bits) = window_bits := by
  have all : ∀ bits ∈ List.range' 15 7, getBitSize (1 <<< bits) = bits := by decide
  exact all window_bits (by rw [List.mem_range'_1]; omega)

theorem lzxd_init_made (least : 15 ≤ window_bits) (most : window_bits ≤ 21)
    (given : HasMemory memory (1 <<< window_bits)) :
    ∃ lzxd, Mspack.lzxdInit memory input output window_bits 0 (1 <<< window_bits) outLen false =
      some lzxd := by
  rcases Option.isSome_iff_exists.mp given.stream with ⟨trees, stream⟩
  rcases Option.isSome_iff_exists.mp given.window with ⟨bytes, window⟩
  have positive : 0 < 1 <<< window_bits := by
    rw [Nat.one_shiftLeft]
    exact Nat.two_pow_pos _
  have range : ¬ (window_bits < 15 ∨ window_bits > Mspack.lastWindowBits false) := by
    have last : Mspack.lastWindowBits false = 21 := rfl
    omega
  have buffer : ¬ (1 <<< window_bits + 1) / 2 * 2 = 0 := by omega
  refine ⟨Mspack.lzxdResetState (Mspack.newStream trees.val bytes.val input output window_bits 0
    ((1 <<< window_bits + 1) / 2 * 2) outLen false), ?_⟩
  rw [Mspack.lzxdInit, if_neg range, if_neg buffer, stream, window, given.inbuf]

end Library

section Unpack

variable {memory : Mspack.LzxMemory} {stuck : Nat × Bytes} {unpack : UnpackMemory}
  {window_bits : Nat} {stream : Mspack.StreamText}
  {data rebuf pOutData malloced tail : Bytes} {blocks : List DataBlock}

theorem lzx_library_decompressed {lzxd lzxd' : Mspack.LzxdStream} {outLen status : Nat}
    (run : Mspack.lzxdDecompress lzxd outLen = .ok (status, lzxd')) :
    (lzxLibrary memory stuck).lzxdDecompress lzxd outLen = (status, lzxd'.out) := by
  simp only [lzxLibrary, run]

/-- What is written for a stream that was made, whatever its status. -/
theorem do_xex_unpack_made {Stream : Type} {lzx : Lzx Stream} {lzxd : Stream}
    {outLen windowSize status : Nat} {written : Bytes}
    (made : lzx.lzxdInit (lzxFiles unpack rebuf outLen) (getBitSize windowSize) windowSize outLen =
      some lzxd)
    (run : lzx.lzxdDecompress lzxd outLen = (status, written)) :
    doXexUnpack lzx unpack rebuf pOutData outLen windowSize =
      (memWrite (lzxFiles unpack rebuf outLen).output pOutData written).map fun out =>
        (true, out) := by
  simp only [doXexUnpack, made, run, ite_self]
  rfl

theorem do_xex_unpack_stream (least : 15 ≤ window_bits) (most : window_bits ≤ 21)
    (given : HasMemory memory (1 <<< window_bits)) (inFile : unpack.inFile = true)
    (outFile : unpack.outFile = true) (small : rebuf.length < 0x80000000)
    (outSmall : data.length < 0x80000000) (some_ : 0 < data.length)
    (room : data.length ≤ pOutData.length) (encoded : stream.Encodes window_bits data rebuf) :
    doXexUnpack (lzxLibrary memory stuck) unpack rebuf pOutData data.length (1 <<< window_bits) =
      .ok (true, patch pOutData 0 data) := by
  have filled := Mspack.stream_file_nonempty encoded.file
  have input : openInput unpack.inFile rebuf = some rebuf := by
    rw [openInput, if_neg filled, inFile]
    rfl
  have output : openOutput unpack.outFile data.length = some data.length := by
    rw [openOutput, if_neg (by omega), outFile]
    rfl
  have zeroSmall : (zeros data.length).length < 0x80000000 := by
    rw [zeros_length]
    exact outSmall
  have zeroFilled : zeros data.length ≠ [] := by
    rw [← List.length_pos_iff, zeros_length]
    exact some_
  have opened : Mspack.memOpen rebuf = some ⟨rebuf, 0, Nat.zero_le _, small⟩ :=
    dif_pos ⟨filled, small⟩
  have made : Mspack.memOpen (zeros data.length) =
      some ⟨zeros data.length, 0, Nat.zero_le _, zeroSmall⟩ := dif_pos ⟨zeroFilled, zeroSmall⟩
  rcases @lzxd_init_made memory window_bits data.length
    (some ⟨rebuf, 0, Nat.zero_le _, small⟩) (some ⟨zeros data.length, 0, Nat.zero_le _, zeroSmall⟩)
    least most given with ⟨lzxd, init⟩
  have whole : 0 + data.length ≤ (zeros data.length).length := by
    rw [zeros_length, Nat.zero_add]
  rcases Mspack.encoded_stream_output (Mspack.lzxd_init_new init) encoded some_ whole with
    ⟨lzxd', run, out⟩
  have written := @lzx_library_decompressed memory stuck _ _ _ _ run
  rw [out, show (Mspack.MemFile.done ⟨zeros data.length, 0, Nat.zero_le _, zeroSmall⟩) = [] from rfl,
    List.nil_append] at written
  have stream_ : (lzxLibrary memory stuck).lzxdInit (lzxFiles unpack rebuf data.length)
      (getBitSize (1 <<< window_bits)) (1 <<< window_bits) data.length = some lzxd := by
    rw [get_bit_size least most, lzxFiles, input, output]
    show Mspack.lzxdInit memory (Mspack.memOpen rebuf) (Mspack.memOpen (zeros data.length))
      window_bits 0 (1 <<< window_bits) data.length false = some lzxd
    rw [opened, made]
    exact init
  have files : (lzxFiles unpack rebuf data.length).output = some data.length := output
  rw [do_xex_unpack_made stream_ written, files, memWrite, List.take_length,
    store_inside (by rw [Nat.zero_add]; exact room)]
  rfl

/-- Blocks whose payload is a stream are unpacked to what it stands for. -/
theorem unpack_blocks (least : 15 ≤ window_bits) (most : window_bits ≤ 21)
    (given : HasMemory memory (1 <<< window_bits)) (inFile : unpack.inFile = true)
    (outFile : unpack.outFile = true) (malloc : unpack.rebuf = some malloced)
    (allocated : malloced.length = (streamBytes blocks ++ tail).length)
    (word : (streamBytes blocks ++ tail).length < 0x100000000)
    (small : (payloads blocks).length < 0x80000000) (outSmall : data.length < 0x80000000)
    (some_ : 0 < data.length) (room : data.length ≤ pOutData.length)
    (encoded : stream.Encodes window_bits data (payloads blocks)) :
    ∃ needed, ∀ rounds, needed ≤ rounds →
      unpackXexData (lzxLibrary memory stuck) unpack rounds (streamBytes blocks ++ tail) pOutData
        data.length (1 <<< window_bits) (firstDataSize blocks) =
          .ok (true, patch pOutData 0 data) := by
  have blocksSome : blocks ≠ [] := by
    intro none
    have filled := Mspack.stream_file_nonempty encoded.file
    rw [none] at filled
    exact filled rfl
  rcases List.exists_cons_of_ne_nil blocksSome with ⟨block, others, rfl⟩
  have stored : Stream (streamBytes (block :: others) ++ tail) ⟨0, block.size⟩
      (payloads (block :: others)) := @stream_stored [] tail block others word
  have fits : (payloads (block :: others)).length ≤ malloced.length := by
    have short := payloads_le (block :: others)
    rw [allocated, List.length_append]
    omega
  rcases (rebuf_returns_iff word (allocated ▸ word)).mpr ⟨_, stored, fits, rfl⟩ with ⟨needed, returns⟩
  refine ⟨needed, fun rounds enough => ?_⟩
  have taken : (patch malloced 0 (payloads (block :: others))).take
      (payloads (block :: others)).length = payloads (block :: others) := by
    rw [patch, List.take_zero, List.nil_append, List.take_left]
  rw [unpackXexData, malloc, firstDataSize, returns rounds enough, ok_bind]
  dsimp only
  rw [taken]
  exact do_xex_unpack_stream least most given inFile outFile small outSmall some_ room encoded

end Unpack

/-! ## Packing -/

def packedChunks (bytes : Bytes) : List DataChunk :=
  (chunks 0x8000 bytes).attach.map fun chunk =>
    ⟨chunk.val, (chunks_mem_length (by decide) chunk.property).1,
      Nat.lt_of_le_of_lt (chunks_mem_length (by decide) chunk.property).2 (by decide)⟩

/-- One block with the bytes of a stored stream; the digests are not looked at. -/
def packedBlocks (digest : Digest) (filesize : Option Nat) (window_bits : Nat) (data : Bytes) :
    List DataBlock :=
  match (Mspack.storedStream filesize data).file (1 <<< window_bits) with
  | some bytes => [⟨digest, packedChunks bytes, []⟩]
  | none => []

section Packed

variable {bytes : Bytes}

theorem packed_chunk_payloads : chunkPayloads (packedChunks bytes) = bytes := by
  have parts : (packedChunks bytes).map DataChunk.payload = chunks 0x8000 bytes := by
    rw [packedChunks, List.map_map]
    exact List.attach_map_subtype_val _
  rw [chunkPayloads, List.flatMap_def, parts, chunks_flatten (by decide)]

theorem chunk_bytes_length (chunks : List DataChunk) :
    (chunkBytes chunks).length = (chunkPayloads chunks).length + 2 * chunks.length + 2 := by
  rw [chunkBytes, List.length_append]
  congr 1
  induction chunks with
  | nil => rfl
  | cons chunk chunks ih =>
      have two : (beU16 chunk.payload.length).length = 2 := rfl
      have split : chunkPayloads (chunk :: chunks) = chunk.payload ++ chunkPayloads chunks :=
        List.flatMap_cons
      rw [List.flatMap_cons, List.length_append, ih, DataChunk.bytes, List.length_append, two,
        split, List.length_append, List.length_cons]
      omega

theorem packed_chunks_length : (packedChunks bytes).length = (bytes.length + 0x7FFF) / 0x8000 := by
  rw [packedChunks, List.length_map, List.length_attach, chunks_length (by decide)]
  rfl

end Packed

/-- All data of up to 1 GiB can be packed, for every window, with translated calls and
without, and are unpacked to what they were. -/
theorem packed_data_unpacked (memory : Mspack.LzxMemory) (stuck : Nat × Bytes)
    (unpack : UnpackMemory) (digest : Digest) (filesize : Option Nat) (window_bits : Nat)
    (data pOutData malloced : Bytes) (least : 15 ≤ window_bits) (most : window_bits ≤ 21)
    (given : HasMemory memory (1 <<< window_bits)) (inFile : unpack.inFile = true)
    (outFile : unpack.outFile = true) (malloc : unpack.rebuf = some malloced)
    (allocated : malloced.length =
      (streamBytes (packedBlocks digest filesize window_bits data)).length)
    (size : ∀ value, filesize = some value → value < 0x80000000) (some_ : 0 < data.length)
    (small : data.length ≤ 0x40000000) (room : data.length ≤ pOutData.length) :
    ∃ needed, ∀ rounds, needed ≤ rounds →
      unpackXexData (lzxLibrary memory stuck) unpack rounds
        (streamBytes (packedBlocks digest filesize window_bits data)) pOutData data.length
        (1 <<< window_bits) (firstDataSize (packedBlocks digest filesize window_bits data)) =
          .ok (true, patch pOutData 0 data) := by
  rcases @Mspack.stored_stream filesize data window_bits size (List.length_pos_iff.mp some_) with
    ⟨bytes, encoded, short⟩
  have full : Mspack.LZX_FRAME_SIZE = 32768 := rfl
  rw [full] at short
  have blocks : packedBlocks digest filesize window_bits data =
      [⟨digest, packedChunks bytes, []⟩] := by
    rw [packedBlocks, encoded.file]
  have payload : payloads [⟨digest, packedChunks bytes, []⟩] = bytes := by
    rw [payloads, List.flatMap_singleton]
    exact packed_chunk_payloads
  have total : (streamBytes [⟨digest, packedChunks bytes, []⟩]).length =
      bytes.length + 2 * ((bytes.length + 0x7FFF) / 0x8000) + 0x1A := by
    rw [streamBytes, streamBytes, List.append_nil, block_length, DataBlock.size]
    dsimp only
    rw [chunk_bytes_length, packed_chunk_payloads, packed_chunks_length, List.length_nil]
    omega
  rw [blocks] at allocated ⊢
  rw [← payload] at encoded
  rw [← List.append_nil (streamBytes _)] at allocated ⊢
  apply unpack_blocks least most given inFile outFile malloc allocated _ _ (by omega) some_ room
    encoded
  · rw [List.append_nil, total]
    omega
  · rw [payload]
    omega

def givenMemory (length : Nat) : UnpackMemory := ⟨some (zeros length), true, true⟩

theorem zero_memory_has (windowSize : Nat) : HasMemory Mspack.zeroMemory windowSize :=
  ⟨rfl, rfl, rfl⟩

theorem three_bytes_unpacked :
    ∃ needed, ∀ rounds, needed ≤ rounds →
      unpackXexData (lzxLibrary Mspack.zeroMemory (MSPACK_ERR_OK, []))
        (givenMemory (streamBytes (packedBlocks Digest.zero (some 8) 15 [1, 2, 3])).length) rounds
        (streamBytes (packedBlocks Digest.zero (some 8) 15 [1, 2, 3])) (zeros 4) 3 (1 <<< 15)
        (firstDataSize (packedBlocks Digest.zero (some 8) 15 [1, 2, 3])) = .ok (true, [1, 2, 3, 0]) :=
  packed_data_unpacked Mspack.zeroMemory (MSPACK_ERR_OK, []) _ Digest.zero (some 8) 15 [1, 2, 3]
    (zeros 4) _ (by decide) (by decide) (zero_memory_has _) rfl rfl rfl (zeros_length _)
    (fun value given => by cases given; decide) (by decide) (by decide) (by decide)

/-! ## The image of a compressed file -/

/-- A compressed file with these blocks behind its headers, for data of this length. -/
structure XexLayout.Compressed (layout : XexLayout) (xsec window_bits length : Nat)
    (blocks : List DataBlock) (tail : Bytes) : Prop where
  format : be16 layout.file (layout.fdesc + 6) = XEX_DATA_FORMAT_COMPRESSED
  described : layout.fdesc + 0x10 ≤ layout.file.length
  secured : xsec + 8 ≤ layout.file.length
  counted : 0xC ≤ layout.file.length
  input : slice layout.file (be32 layout.file 8) (sub32 layout.file.length (be32 layout.file 8)) =
    streamBytes blocks ++ tail
  size : be32 layout.file (xsec + 4) = length
  window : be32 layout.file (layout.fdesc + 8) = 1 <<< window_bits
  first : be32 layout.file (layout.fdesc + 0xC) = firstDataSize blocks

/-- The image of a compressed file is what `unpackXexData` makes of its blocks. -/
theorem compressed_layout_run {Stream : Type} {env : XexEnv} {lzx : Lzx Stream}
    {unpack : UnpackMemory} {rounds xsec window_bits length : Nat} {layout : XexLayout}
    {blocks : List DataBlock} {tail image : Bytes}
    (compressed : layout.Compressed xsec window_bits length blocks tail)
    (run : unpackXexData lzx unpack rounds (streamBytes blocks ++ tail) (zeros layout.imageSize)
      length (1 <<< window_bits) (firstDataSize blocks) = .ok (true, image)) :
    layout.layOut (unpackEnv env lzx unpack rounds) xsec = .ok (some image) := by
  have described := compressed.described
  have format : loadBe16 layout.file (layout.fdesc + 6) = .ok XEX_DATA_FORMAT_COMPRESSED := by
    rw [← compressed.format, loadBe16, load_inside (by omega)]
    rfl
  have notRaw : XEX_DATA_FORMAT_COMPRESSED ≠ XEX_DATA_FORMAT_RAW := by decide
  have secured := compressed.secured
  have counted := compressed.counted
  rw [XexLayout.layOut, layOutImage, format, ok_bind, if_neg notRaw, if_pos rfl,
    load_be32_inside (by omega), ok_bind, load_be32_inside (by omega), ok_bind,
    load_be32_inside (by omega), ok_bind, load_be32_inside (by omega), ok_bind]
  rw [compressed.size, compressed.window, compressed.first, unpackEnv]
  dsimp only
  rw [compressed.input, run]
  rfl

/-- The SPA section is looked up in the data that the blocks of the file stand for, with
zeros up to `ImageSize`. -/
theorem compressed_image_laid_out (env : XexEnv) (memory : Mspack.LzxMemory) (stuck : Nat × Bytes)
    (unpack : UnpackMemory) (layout : XexLayout) (blocks : List DataBlock)
    (stream : Mspack.StreamText) (tail data malloced : Bytes) (xsec window_bits : Nat)
    (compressed : layout.Compressed xsec window_bits data.length blocks tail)
    (encoded : stream.Encodes window_bits data (payloads blocks))
    (least : 15 ≤ window_bits) (most : window_bits ≤ 21)
    (given : HasMemory memory (1 <<< window_bits)) (inFile : unpack.inFile = true)
    (outFile : unpack.outFile = true) (malloc : unpack.rebuf = some malloced)
    (allocated : malloced.length = (streamBytes blocks ++ tail).length)
    (int : (streamBytes blocks ++ tail).length < 0x80000000) (outSmall : data.length < 0x80000000)
    (some_ : 0 < data.length) (room : data.length ≤ layout.imageSize) :
    ∃ needed, ∀ rounds, needed ≤ rounds →
      layout.layOut (unpackEnv env (lzxLibrary memory stuck) unpack rounds) xsec =
          .ok (some (data ++ zeros (layout.imageSize - data.length))) ∧
        ∀ xhdr titleId,
          openXex (unpackEnv env (lzxLibrary memory stuck) unpack rounds) xhdr xsec =
            .ok (some layout) →
          xexGetSpaInfo (unpackEnv env (lzxLibrary memory stuck) unpack rounds) xhdr xsec titleId =
            readSpa env layout.file xsec titleId
              (data ++ zeros (layout.imageSize - data.length)) := by
  have short := payloads_le blocks
  rw [List.length_append] at int
  have whole : data.length ≤ (zeros layout.imageSize).length := by
    rw [zeros_length]
    exact room
  rcases @unpack_blocks memory stuck unpack window_bits stream data (zeros layout.imageSize) malloced
    tail blocks least most given inFile outFile malloc allocated
    (by rw [List.length_append]; omega) (by omega) outSmall some_ whole encoded with ⟨needed, runs⟩
  refine ⟨needed, fun rounds enough => ?_⟩
  have image : patch (zeros layout.imageSize) 0 data =
      data ++ zeros (layout.imageSize - data.length) := @patch_zeros [] layout.imageSize data room
  have laidOut := @compressed_layout_run _ env _ _ _ _ _ _ _ _ _ _ compressed (runs rounds enough)
  rw [image] at laidOut
  refine ⟨laidOut, ?_⟩
  intro xhdr titleId opened
  rw [xex_get_spa_info_eq, opened, ok_bind, layOutAndLookUp, laidOut, ok_bind, lookUpSpa]
  rfl

/-! ## A small compressed file -/

def threeBytesStream : Bytes := [0, 0x30, 0x30, 0, 1, 0, 0, 0, 1, 0, 0, 0, 1, 0, 0, 0, 1, 2, 3]

theorem three_bytes_stream :
    (Mspack.storedStream none [1, 2, 3]).Encodes 15 [1, 2, 3] threeBytesStream := by
  rcases @Mspack.stored_stream none [1, 2, 3] 15 (fun _ none => by cases none) (by decide) with
    ⟨bytes, encoded, _⟩
  have shape : Mspack.storedStream none [1, 2, 3] = ⟨none, [Mspack.storedFrame 4 [1, 2, 3]]⟩ := by
    rw [Mspack.storedStream]
    show (⟨none, Mspack.storedFrames 4 (chunks Mspack.LZX_FRAME_SIZE [1, 2, 3])⟩ :
      Mspack.StreamText) = _
    rw [chunks_single (by decide) (by decide)]
    rfl
  have file : (Mspack.storedStream none [1, 2, 3]).file (1 <<< 15) = some threeBytesStream := by
    rw [shape]
    decide +kernel
  have same : bytes = threeBytesStream := Option.some.inj (encoded.file.symm.trans file)
  exact same ▸ encoded

def threeBytesBlock : DataBlock := ⟨Digest.zero, [⟨threeBytesStream, by decide, by decide⟩], []⟩

def threeBytesXex : Bytes :=
  xexFile 0x1B4 3 0 [(XEX_FILE_DATA_DESCRIPTOR_HEADER, 0x1A4)]
    (xexWords [0x24, 2, 0x8000, 0x2F] ++ streamBytes [threeBytesBlock])

def threeBytesLayout : XexLayout := ⟨threeBytesXex, 0x1B4, 0x1A4, 3⟩

theorem three_bytes_laid_out :
    ∃ needed, ∀ rounds, needed ≤ rounds →
      xexGetSpaInfo (unpackEnv plainEnv (lzxLibrary Mspack.zeroMemory (MSPACK_ERR_OK, []))
          (givenMemory 47) rounds) threeBytesXex 0x20 0 =
        readSpa plainEnv threeBytesXex 0x20 0 [1, 2, 3] := by
  have compressed : threeBytesLayout.Compressed 0x20 15 ([1, 2, 3] : Bytes).length [threeBytesBlock]
      [] := by
    refine ⟨?_, ?_, ?_, ?_, ?_, ?_, ?_, ?_⟩ <;> decide +kernel
  rcases compressed_image_laid_out plainEnv Mspack.zeroMemory (MSPACK_ERR_OK, []) (givenMemory 47)
    threeBytesLayout [threeBytesBlock] (Mspack.storedStream none [1, 2, 3]) [] [1, 2, 3] (zeros 47)
    0x20 15 compressed three_bytes_stream (by decide) (by decide) (zero_memory_has _) rfl rfl rfl
    (by decide +kernel) (by decide +kernel) (by decide) (by decide) (by decide) with ⟨needed, runs⟩
  refine ⟨needed, fun rounds enough => (runs rounds enough).2 threeBytesXex 0 ?_⟩
  have opened : openXex plainEnv threeBytesXex 0x20 = .ok (some threeBytesLayout) := by
    decide +kernel
  exact opened

end XeBuild.Iso2svod
