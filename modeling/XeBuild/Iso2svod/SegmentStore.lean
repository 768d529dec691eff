import XeBuild.Iso2svod.IsoIo
import XeBuild.Iso2svod.SvodLayout

/-!
# Storing one segment

What the helpers of the copy loop do to the state when no call fails. The
buffer behind `datablock` is cleared after every segment, so each segment's
table starts from zeroed entries; `hashBlock` fills them from the front.
-/

namespace XeBuild.Iso2svod

open ListRange ListChunks

set_option autoImplicit false

section CLibrary

variable {env : Env} {call : IoCall}

theorem fwrite_succeeds (success : env.fails call = none) (items : Bytes) (fptr : DataFile)
    (s : IsoIo) :
    fwrite env call items fptr s =
      (true, { fptr with pos := fptr.pos + items.length },
        { s.log call true with
          disk := Function.update s.disk fptr.num
            (some (patch ((s.disk fptr.num).getD []) fptr.pos items)) }) := by
  simp [fwrite, success, transferred]

theorem read_succeeds (success : env.fails call = none) {len : Nat} {s : IsoIo}
    (inImage : s.isoPos + len ≤ env.isoData.length) :
    readIsoData env call len s =
      (true, slice env.isoData s.isoPos len,
        { s.log call true with isoPos := s.isoPos + len }) := by
  have got := slice_length_of_le inImage
  simp [readIsoData, success, transferred, inImage, got]

def fileStarted (num : Nat) (s : IsoIo) : IsoIo :=
  { s with
    disk := Function.update s.disk num (some (zeros 0x1000))
    openFiles := num :: s.openFiles
    lv1hash := zeros 0x1000
    calls := (.writeDummy num, true) :: (.openData num, true) :: s.calls }

theorem start_succeeds {num : Nat} (opened : env.fails (.openData num) = none)
    (dummy : env.fails (.writeDummy num) = none) (s : IsoIo) :
    startNewFile env num s = (some ⟨num, 0x1000⟩, fileStarted num s) := by
  have written : patch ([] : Bytes) 0 (zeros 0x1000) = zeros 0x1000 := by simp [patch]
  simp [startNewFile, opened, fwrite_succeeds dummy, written, IsoIo.log, fileStarted]

end CLibrary

/-! ## The tables -/

section Tables

variable (sha : Sha)

theorem empty_level0_table :
    zeros 0x1000 =
      entryBytes (DigestTree.table sha Digest.zero 0xCC []) ++ zeros 0x10 := by
  simp only [DigestTree.table, List.map_nil, List.nil_append, List.length_nil, entry_bytes_zero,
    zeros_append]

theorem empty_level1_table : zeros 0x1000 = level1Table sha [] Digest.zero := by
  simp only [level1Table, level1Digests, DigestTree.table, List.map_nil, List.nil_append,
    List.length_nil, entry_bytes_zero, Digest.zero_bytes, zeros_append]

theorem level1_table_snoc {segments : List Bytes} (room : segments.length < segmentsPerFile)
    (segment : Bytes) :
    patch (level1Table sha segments Digest.zero) (segments.length * 0x14)
        (sha (level0Table sha segment)).bytes =
      level1Table sha (segments ++ [segment]) Digest.zero := by
  have count : (segments.map (level0Table sha)).length < 0xCB := by
    rw [List.length_map]
    exact room
  have bound : segments.length < (level1Digests sha segments).length := by
    rw [level1Digests, DigestTree.table_length _ _ count.le]
    exact room
  have snoc := DigestTree.table_snoc sha Digest.zero count (level0Table sha segment)
  rw [List.length_map] at snoc
  rw [level1Table, patch_entry_bytes _ _ _ bound, level1Table, level1Digests, snoc, level1Digests,
    List.map_append, List.map_singleton]

end Tables

/-! ## Hashing a segment -/

section Hashing

variable {env : Env} {segment : Bytes} {s : IsoIo}

def blocksHashed (env : Env) (segment : Bytes) (num : Nat) (s : IsoIo) : IsoIo :=
  { s with
    level0HashBlock := entryBytes (DigestTree.table env.sha Digest.zero 0xCC
      ((chunks blockSize segment).take num)) ++ zeros 0x10
    hashed := ((chunks blockSize segment).take num).reverse ++ s.hashed }

theorem block_hashes_step (valid : IsSegment segment)
    (buffered : s.dataBlocks.take segment.length = segment) {num : Nat}
    (present : num < (chunks blockSize segment).length) :
    hashBlock env num (blocksHashed env segment num s) = blocksHashed env segment (num + 1) s := by
  have count := segment_block_count valid
  have fits := segment_blocks_fit valid
  have start : num * 0x1000 + 0x1000 ≤ segment.length := by
    obtain ⟨blocks, length⟩ := valid.aligned
    rw [count, length, Nat.mul_div_cancel_left _ (by decide)] at present
    rw [length, blockSize]
    omega
  have block : slice s.dataBlocks (num * 0x1000) 0x1000 = (chunks blockSize segment)[num] := by
    rw [chunks_getElem (by decide) segment num present]
    rw [← slice_of_take s.dataBlocks segment.length _ _ start, buffered]
    rfl
  have taken : ((chunks blockSize segment).take num).length = num := by
    rw [List.length_take, Nat.min_eq_left present.le]
  have next : (chunks blockSize segment).take (num + 1) =
      (chunks blockSize segment).take num ++ [(chunks blockSize segment)[num]] :=
    List.take_succ_eq_append_getElem present
  have room : ((chunks blockSize segment).take num).length < 0xCC := by omega
  have snoc := DigestTree.table_snoc env.sha Digest.zero room (chunks blockSize segment)[num]
  rw [taken] at snoc
  have bound : num < (DigestTree.table env.sha Digest.zero 0xCC
      ((chunks blockSize segment).take num)).length := by
    rw [DigestTree.table_length _ _ room.le]
    omega
  simp only [hashBlock, blocksHashed, block]
  rw [patch_entry_bytes _ _ _ bound, snoc, next, List.reverse_append]
  rfl

theorem block_hashes_run (valid : IsSegment segment)
    (clear : s.level0HashBlock = zeros 0x1000)
    (buffered : s.dataBlocks.take segment.length = segment) (num : Nat)
    (present : num ≤ (chunks blockSize segment).length) :
    doBlockHashes env num s = blocksHashed env segment num s := by
  induction num with
  | zero =>
      rw [empty_level0_table env.sha] at clear
      simp only [doBlockHashes, blocksHashed, List.take_zero, List.reverse_nil, List.nil_append,
        ← clear]
  | succ num ih =>
      rw [doBlockHashes, ih (by omega)]
      exact block_hashes_step valid buffered (by omega)

/-- All blocks of the segment: the table in front of it is complete. -/
theorem block_hashes_complete (valid : IsSegment segment)
    (clear : s.level0HashBlock = zeros 0x1000)
    (buffered : s.dataBlocks.take segment.length = segment) :
    doBlockHashes env (segment.length / blockSize) s =
      { s with
        level0HashBlock := level0Table env.sha segment
        hashed := (chunks blockSize segment).reverse ++ s.hashed } := by
  have count := segment_block_count valid
  rw [block_hashes_run valid clear buffered _ (by rw [count]), blocksHashed,
    List.take_of_length_le (by rw [count]), level0Table, level0Digests]

end Hashing

/-! ## Writing a segment -/

def segmentStored (env : Env) (l : BodyLoop) (segment : Bytes) (s : IsoIo) : IsoIo :=
  { s with
    lv1hash := patch s.lv1hash (l.curBlock * 0x14) (env.sha (level0Table env.sha segment)).bytes
    level0HashBlock := zeros 0x1000
    dataBlocks := zeros SVOD_MAX_DATA_BLOCK_SIZE
    disk := Function.update s.disk l.curFile.num
      (some (patch ((s.disk l.curFile.num).getD []) l.curFile.pos (segmentBytes env.sha segment)))
    calls := (.writeBlock l.curFileNum l.curBlock, true) :: s.calls
    hashed := level0Table env.sha segment :: ((chunks blockSize segment).reverse ++ s.hashed) }

theorem store_segment_succeeds {env : Env} {l : BodyLoop} {segment : Bytes} {s : IsoIo}
    (success : env.fails (.writeBlock l.curFileNum l.curBlock) = none)
    (valid : IsSegment segment) (clear : s.level0HashBlock = zeros 0x1000)
    (buffered : s.dataBlocks.take segment.length = segment)
    (count : sectorsToHash l = segment.length / blockSize) :
    storeSegment env l s =
      ({ l.curFile with pos := l.curFile.pos + (segmentBytes env.sha segment).length },
        segmentStored env l segment s) := by
  have tableLength := level0_table_length env.sha valid
  have fits := valid.fits
  have size : u32 (segment.length / blockSize * 0x1000 + 0x1000) = 0x1000 + segment.length := by
    obtain ⟨blocks, length⟩ := valid.aligned
    simp only [blockSize, segmentSize, u32] at length fits ⊢
    omega
  have written : (level0Table env.sha segment ++ s.dataBlocks).take (0x1000 + segment.length) =
      segmentBytes env.sha segment := by
    rw [← tableLength, List.take_length_add_append, buffered, segmentBytes]
  simp only [storeSegment, count, block_hashes_complete valid clear buffered, doLevel1Hash,
    writeBlockToFile, size, written, fwrite_succeeds success, IsoIo.log, segmentStored]

end XeBuild.Iso2svod
