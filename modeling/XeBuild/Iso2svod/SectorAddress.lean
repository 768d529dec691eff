import Mathlib.Order.Interval.Set.Nat
import XeBuild.Iso2svod.HeaderChain

/-!
# Where a sector is stored

A reader that knows only `StartingDataBlock` finds any sector by its logical
block number. The layout puts block `L` of the payload at this address, and no
block at any other; this is then read off the files the copy loop leaves.
-/

namespace XeBuild.Iso2svod

open ListRange ListChunks

set_option autoImplicit false

/-! ## Payload blocks -/

section Payload

variable (sha : Sha) {payload : Payload} (next : Digest) {num block entry : Nat}

/-- The payload number of a segment of a file, and how much of it there is. -/
theorem file_segment_range (present : num < payload.files.length)
    (inFile : block < payload.files[num].length) :
    payload.files[num][block] =
      slice payload.bytes ((num * segmentsPerFile + block) * segmentSize) segmentSize := by
  obtain ⟨bound, same⟩ := file_segment_at present inFile
  rw [same, payload_segment_at payload _ bound]

theorem file_segment_iff (bound : block < segmentsPerFile) :
    (∃ present : num < payload.files.length, block < payload.files[num].length) ↔
      (num * segmentsPerFile + block) * segmentSize < payload.bytes.length := by
  have files := lt_chunks_length (show 0 < segmentsPerFile by decide) payload.segments num
  have segments := lt_chunks_length (show 0 < segmentSize by decide) payload.bytes
    (num * segmentsPerFile + block)
  have inFiles : num < payload.files.length ↔ num * segmentsPerFile < payload.segments.length :=
    files
  have length : ∀ present : num < payload.files.length, payload.files[num].length =
      min segmentsPerFile (payload.segments.length - num * segmentsPerFile) := by
    intro present
    have cut : payload.files[num] = slice payload.segments
        (num * segmentsPerFile) segmentsPerFile :=
      chunks_getElem (by decide) payload.segments num present
    rw [cut, slice_length]
  rw [← segments]
  change _ ↔ num * segmentsPerFile + block < payload.segments.length
  constructor
  · intro stored
    rcases stored with ⟨present, inFile⟩
    rw [length present] at inFile
    omega
  · intro inPayload
    have present := inFiles.mpr (by omega)
    refine ⟨present, ?_⟩
    rw [length present]
    omega

theorem block_start (num block entry : Nat) :
    ((num * 0xCB + block) * 0xCC + entry) * 0x1000 =
      (num * segmentsPerFile + block) * segmentSize + entry * 0x1000 := by
  rw [segmentsPerFile, segmentSize, Nat.add_mul, Nat.mul_assoc]

theorem entry_inside_iff {start length entry : Nat} (inSegment : entry < 0xCC) :
    entry * 0x1000 < min segmentSize (length - start) ↔ start + entry * 0x1000 < length := by
  rw [segmentSize]
  omega

/-- The blocks a file holds are the payload blocks with its numbers. -/
theorem stored_block_iff (inFile : block < 0xCB) (inSegment : entry < 0xCC) :
    (∃ present : num < payload.files.length,
      blockOffset block entry < (fileBytes sha payload.files[num] next).length) ↔
      ((num * 0xCB + block) * 0xCC + entry) * 0x1000 < payload.bytes.length := by
  have segments : _ ↔ (num * segmentsPerFile + block) * segmentSize < payload.bytes.length :=
    file_segment_iff inFile
  have inside : ∀ (present : num < payload.files.length)
      (stored : block < payload.files[num].length),
      blockOffset block entry < (fileBytes sha payload.files[num] next).length ↔
        (num * segmentsPerFile + block) * segmentSize + entry * 0x1000 < payload.bytes.length := by
    intro present stored
    have file := payload_file (List.getElem_mem present)
    rw [block_present_iff sha next file stored inSegment, file_segment_range present stored,
      slice_length]
    exact entry_inside_iff inSegment
  rw [block_start]
  constructor
  · intro stored
    rcases stored with ⟨present, inBytes⟩
    have file := payload_file (List.getElem_mem present)
    have early : segmentOffset block ≤ blockOffset block entry := by
      rw [blockOffset, Nat.add_assoc]
      exact Nat.le_add_right _ _
    have stored := (segment_present_iff sha next file block).mp (early.trans_lt inBytes)
    exact (inside present stored).mp inBytes
  · intro inPayload
    obtain ⟨present, stored⟩ := segments.mpr ((Nat.le_add_right _ _).trans_lt inPayload)
    exact ⟨present, (inside present stored).mpr inPayload⟩

theorem stored_block_slice (inFile : block < 0xCB) (inSegment : entry < 0xCC)
    (inPayload : ((num * 0xCB + block) * 0xCC + entry) * 0x1000 < payload.bytes.length)
    {offset size : Nat} (inBlock : offset + size ≤ 0x1000) :
    ∃ present : num < payload.files.length,
      slice (fileBytes sha payload.files[num] next) (blockOffset block entry + offset) size =
        slice payload.bytes (((num * 0xCB + block) * 0xCC + entry) * 0x1000 + offset) size := by
  have segments : _ ↔ (num * segmentsPerFile + block) * segmentSize < payload.bytes.length :=
    file_segment_iff inFile
  rw [block_start] at inPayload ⊢
  obtain ⟨present, stored⟩ := segments.mpr ((Nat.le_add_right _ _).trans_lt inPayload)
  have file := payload_file (List.getElem_mem present)
  have range := file_segment_range present stored
  have whole : entry * 0x1000 + offset + size ≤ payload.files[num][block].length := by
    have inSlice := (entry_inside_iff inSegment).mpr inPayload
    obtain ⟨blocks, length⟩ := (file.segment _ (List.getElem_mem stored)).aligned
    rw [← slice_length, ← range, length, blockSize] at inSlice
    rw [length, blockSize]
    omega
  refine ⟨present, ?_⟩
  have inSegmentBytes : entry * 0x1000 + offset + size ≤ segmentSize :=
    whole.trans (file.segment _ (List.getElem_mem stored)).fits
  rw [blockOffset, Nat.add_assoc _ (entry * 0x1000), file_data_at sha next file stored whole, range,
    slice_slice _ _ _ _ _ inSegmentBytes, Nat.add_assoc]

end Payload

/-! ## The descriptor -/

/-- `StartingDataBlock0` to `2`, the low byte first. -/
def startingDataBlock (headerBuffer : Bytes) : Nat :=
  (headerBuffer.getD startingDataBlockOffset 0).toNat +
    (headerBuffer.getD (startingDataBlockOffset + 1) 0).toNat * 0x100 +
    (headerBuffer.getD (startingDataBlockOffset + 2) 0).toNat * 0x10000

/-- `NumberOfDataBlocks2` to `0`, the high byte first. -/
def numberOfDataBlocks (headerBuffer : Bytes) : Nat :=
  (headerBuffer.getD numberOfDataBlocksOffset 0).toNat * 0x10000 +
    (headerBuffer.getD (numberOfDataBlocksOffset + 1) 0).toNat * 0x100 +
    (headerBuffer.getD (numberOfDataBlocksOffset + 2) 0).toNat

theorem three_byte_field {buffer : Bytes} {offset : Nat} {first second third : Byte}
    (same : slice buffer offset 3 = [first, second, third]) :
    buffer.getD offset 0 = first ∧ buffer.getD (offset + 1) 0 = second ∧
      buffer.getD (offset + 2) 0 = third := by
  have byte : ∀ index < 3, buffer.getD (offset + index) 0 =
      [first, second, third].getD index 0 := by
    intro index bound
    have inner := congrArg (fun found => found.getD index 0) same
    simpa [slice, List.getD, bound] using inner
  exact ⟨byte 0 (by decide), byte 1 (by decide), byte 2 (by decide)⟩

theorem three_bytes {value : Nat} (bound : value < 0x1000000) :
    (UInt8.ofNat value).toNat + (UInt8.ofNat (value / 0x100)).toNat * 0x100 +
        (UInt8.ofNat (value / 0x10000)).toNat * 0x10000 = value ∧
      (UInt8.ofNat (value / 0x10000)).toNat * 0x10000 +
        (UInt8.ofNat (value / 0x100)).toNat * 0x100 + (UInt8.ofNat value).toNat = value := by
  simp only [UInt8.toNat_ofNat']
  omega

theorem calc_data_blocks_bytes {s : IsoIo} (size : s.headerBuffer.length = headerSize)
    {rootXstrt rootXsz : Nat} (start : s.minSector.toNat / 2 = rootXstrt)
    (number : sub32 s.maxSector.toNat s.minSector.toNat / 2 = rootXsz) :
    slice (calcDataBlocks s).headerBuffer startingDataBlockOffset 3 =
      [UInt8.ofNat rootXstrt, UInt8.ofNat (rootXstrt / 0x100), UInt8.ofNat (rootXstrt / 0x10000)] ∧
    slice (calcDataBlocks s).headerBuffer numberOfDataBlocksOffset 3 =
      [UInt8.ofNat (rootXsz / 0x10000), UInt8.ofNat (rootXsz / 0x100), UInt8.ofNat rootXsz] := by
  rw [calcDataBlocks, start, number]
  generalize startBytes : [UInt8.ofNat rootXstrt, UInt8.ofNat (rootXstrt / 0x100),
    UInt8.ofNat (rootXstrt / 0x10000)] = first
  generalize numberBytes : [UInt8.ofNat (rootXsz / 0x10000), UInt8.ofNat (rootXsz / 0x100),
    UInt8.ofNat rootXsz] = second
  have firstSize : first.length = 3 := by rw [← startBytes]; rfl
  have secondSize : second.length = 3 := by rw [← numberBytes]; rfl
  have inner : (patch s.headerBuffer startingDataBlockOffset first).length = headerSize := by
    rw [patch_length (by rw [firstSize, size]; decide), size]
  have written := slice_patch_same (patch s.headerBuffer startingDataBlockOffset first)
    numberOfDataBlocksOffset second (by rw [inner]; decide)
  have kept := slice_patch_same s.headerBuffer startingDataBlockOffset first
    (by rw [size]; decide)
  rw [secondSize] at written
  rw [firstSize] at kept
  refine ⟨?_, written⟩
  change slice (patch (patch s.headerBuffer startingDataBlockOffset first) _ second) _ 3 = first
  rw [slice_patch_after _ _ _ (by rw [secondSize]; decide) (by rw [inner]; decide)]
  exact kept

/-- Both fields decode to what `calcDataBlocks` computes, in 24 bits. -/
theorem calc_data_blocks_fields {s : IsoIo} (size : s.headerBuffer.length = headerSize)
    (ordered : s.minSector.toNat ≤ s.maxSector.toNat) (described : s.maxSector.toNat < 0x2000000) :
    startingDataBlock (calcDataBlocks s).headerBuffer = s.minSector.toNat / 2 ∧
      numberOfDataBlocks (calcDataBlocks s).headerBuffer =
        (s.maxSector.toNat - s.minSector.toNat) / 2 := by
  have difference := sub32_of_le ordered s.maxSector.toNat_lt
  obtain ⟨start, number⟩ := calc_data_blocks_bytes size rfl rfl
  rw [difference] at number
  obtain ⟨low, middle, high⟩ := three_byte_field start
  obtain ⟨high', middle', low'⟩ := three_byte_field number
  constructor
  · rw [startingDataBlock, low, middle, high]
    exact (three_bytes (by omega)).1
  · rw [numberOfDataBlocks, low', middle', high']
    exact (three_bytes (by omega)).2

/-! ## What the copy loop leaves -/

def storedBlocks (s : IsoIo) : Set (Nat × Nat × Nat) :=
  { place | place.2.1 < 0xCB ∧ place.2.2 < 0xCC ∧
    ∃ contents, s.disk place.1 = some contents ∧
      blockOffset place.2.1 place.2.2 < contents.length }

def blockPlace (number : Nat) : Nat × Nat × Nat :=
  (number / (0xCB * 0xCC), number % (0xCB * 0xCC) / 0xCC, number % (0xCB * 0xCC) % 0xCC)

theorem block_place_number (number : Nat) :
    ((blockPlace number).1 * 0xCB + (blockPlace number).2.1) * 0xCC + (blockPlace number).2.2 =
      number := by
  simp only [blockPlace]
  omega

theorem block_place_bounds (number : Nat) :
    (blockPlace number).2.1 < 0xCB ∧ (blockPlace number).2.2 < 0xCC := by
  simp only [blockPlace]
  omega

/-- What a reader that goes by the descriptor relies on. -/
structure SectorsAddressed (env : Env) (s : IsoIo) : Prop where
  sector : ∀ sector, s.minSector.toNat ≤ sector → sector < s.maxSector.toNat →
    let number := sector / 2 - startingDataBlock s.headerBuffer + 1
    let rest := number % (0xCB * 0xCC)
    ∃ contents, s.disk (number / (0xCB * 0xCC)) = some contents ∧
      slice contents
        (0x1000 + rest / 0xCC * 0xCD000 + 0x1000 + rest % 0xCC * 0x1000 + sector % 2 * 0x800) 0x800 =
        isoSector env sector
  volume : ∃ contents, s.disk 0 = some contents ∧
    slice contents (0x1000 + 0x1000) 0x800 = isoSector env SVOD_START_SECTOR ∧
    slice contents (0x1000 + 0x1000 + 0x800) 0x800 = isoSector env (SVOD_START_SECTOR + 1)
  count : (storedBlocks s).ncard = numberOfDataBlocks s.headerBuffer + 1

section Body

variable {env : Env} {payload : Payload} {s : IsoIo}

def HasUnlinkedFiles (sha : Sha) (payload : Payload) (s : IsoIo) : Prop :=
  ∀ num, s.disk num = payload.files[num]?.map fun segments => fileBytes sha segments Digest.zero

theorem unlinked_block_slice (files : HasUnlinkedFiles env.sha payload s) (number : Nat)
    (inPayload : number * 0x1000 < payload.bytes.length) {offset size : Nat}
    (inBlock : offset + size ≤ 0x1000) :
    ∃ contents, s.disk (blockPlace number).1 = some contents ∧
      slice contents (blockOffset (blockPlace number).2.1 (blockPlace number).2.2 + offset) size =
        slice payload.bytes (number * 0x1000 + offset) size := by
  obtain ⟨inFile, inSegment⟩ := block_place_bounds number
  have placed := block_place_number number
  obtain ⟨present, same⟩ := stored_block_slice env.sha Digest.zero inFile inSegment
    (by rw [placed]; exact inPayload) inBlock
  rw [placed] at same
  refine ⟨_, ?_, same⟩
  rw [files, List.getElem?_eq_getElem present]
  rfl

theorem stored_blocks_eq (files : HasUnlinkedFiles env.sha payload s) {count : Nat}
    (length : payload.bytes.length = count * 0x1000) :
    storedBlocks s = blockPlace '' Set.Iio count := by
  ext ⟨num, block, entry⟩
  have iff : block < 0xCB → entry < 0xCC → (_ ↔
      ((num * 0xCB + block) * 0xCC + entry) * 0x1000 < payload.bytes.length) :=
    fun inFile inSegment => stored_block_iff env.sha Digest.zero inFile inSegment
  constructor
  · intro isStored
    rcases isStored with ⟨inFile, inSegment, contents, stored, inside⟩
    refine ⟨(num * 0xCB + block) * 0xCC + entry, ?_, ?_⟩
    · rw [files, Option.map_eq_some_iff] at stored
      obtain ⟨segments, found, rfl⟩ := stored
      obtain ⟨present, rfl⟩ := List.getElem?_eq_some_iff.mp found
      have inPayload := (iff inFile inSegment).mp ⟨present, inside⟩
      rw [length] at inPayload
      exact Nat.lt_of_mul_lt_mul_right inPayload
    · simp only [blockPlace, Prod.mk.injEq] at inFile inSegment ⊢
      omega
  · intro numbered
    rcases numbered with ⟨number, before, place⟩
    have placed := block_place_number number
    obtain ⟨inFile, inSegment⟩ := block_place_bounds number
    rw [place] at placed inFile inSegment
    have inPayload : ((num * 0xCB + block) * 0xCC + entry) * 0x1000 < payload.bytes.length := by
      rw [placed, length]
      exact Nat.mul_lt_mul_of_pos_right before (by decide)
    obtain ⟨present, inside⟩ := (iff inFile inSegment).mpr inPayload
    refine ⟨inFile, inSegment, _, ?_, inside⟩
    rw [files, List.getElem?_eq_getElem present]
    rfl

end Body

section Sectors

variable {env : Env} {minSector maxSector : UInt32} {isoPos : Nat} {headerBuffer : Bytes}

theorem payload_volume_sector (range : SectorRange minSector maxSector)
    (success : AllSucceeds env maxSector) {index : Nat} (bound : index < 2) :
    slice (payloadOf range success).bytes (index * XGD_SECTOR_SIZE) XGD_SECTOR_SIZE =
      isoSector env (SVOD_START_SECTOR + index) := by
  have volume := slice_length_of_le success.volume
  have inside : index * XGD_SECTOR_SIZE + XGD_SECTOR_SIZE ≤ 0x1000 := by
    rw [← Nat.succ_mul]
    exact Nat.mul_le_mul_right XGD_SECTOR_SIZE (show index + 1 ≤ 2 by omega)
  change slice (isoPayload env minSector maxSector) _ _ = _
  rw [isoPayload, slice_append_left _ _ _ _ (by rw [volume]; exact inside),
    slice_slice _ _ _ _ _ inside, isoSector, Nat.add_right_comm, ← Nat.add_mul]

theorem payload_range_sector (range : SectorRange minSector maxSector)
    (success : AllSucceeds env maxSector) {index : Nat}
    (bound : index < maxSector.toNat - minSector.toNat) :
    slice (payloadOf range success).bytes (0x1000 + index * XGD_SECTOR_SIZE) XGD_SECTOR_SIZE =
      isoSector env (minSector.toNat + index) := by
  have volume := slice_length_of_le success.volume
  have inside : index * XGD_SECTOR_SIZE + XGD_SECTOR_SIZE ≤
      (maxSector.toNat - minSector.toNat) * XGD_SECTOR_SIZE := by
    rw [← Nat.succ_mul]
    exact Nat.mul_le_mul_right XGD_SECTOR_SIZE bound
  change slice (isoPayload env minSector maxSector) _ _ = _
  rw [isoPayload, slice_append_of_le _ _ (by rw [volume]; exact Nat.le_add_right _ _), volume,
    Nat.add_sub_cancel_left, slice_slice _ _ _ _ _ inside, isoSector, Nat.add_right_comm,
    ← Nat.add_mul]

theorem body_unlinked_files {payload : Payload} {s : IsoIo}
    (done : BodyDone env 0 payload.files payload.segments
      (volumeLoaded env (IsoIo.initial minSector maxSector isoPos headerBuffer)) s) :
    HasUnlinkedFiles env.sha payload s := by
  have positive := payload_files_positive payload
  intro num
  by_cases present : num < payload.files.length
  · have written := done.written num present
    rw [List.getElem?_eq_getElem present]
    rwa [Nat.zero_add] at written
  · have other : num ≠ 0 := by omega
    rw [done.after num (by omega), List.getElem?_eq_none (by omega)]
    exact Function.update_of_ne other _ _

/-- The logical block of a sector of the range, counted from its first sector. -/
theorem sector_number {first sector : Nat} (even : first % 2 = 0) (after : first ≤ sector) :
    sector / 2 - first / 2 + 1 = (sector - first) / 2 + 1 ∧ sector % 2 = (sector - first) % 2 := by
  omega

/-! ### The files of a range -/

theorem range_block_count (range : SectorRange minSector maxSector)
    (success : AllSucceeds env maxSector) :
    (payloadOf range success).bytes.length =
      ((maxSector.toNat - minSector.toNat) / 2 + 1) * 0x1000 := by
  have length := iso_payload_length range success
  have minEven := range.minEven
  have maxEven := range.maxEven
  change (isoPayload env minSector maxSector).length = _
  rw [length]
  omega

theorem range_sector_stored (range : SectorRange minSector maxSector)
    (success : AllSucceeds env maxSector) {s : IsoIo}
    (files : HasUnlinkedFiles env.sha (payloadOf range success) s) {index : Nat}
    (bound : index < maxSector.toNat - minSector.toNat) :
    let place := blockPlace (index / 2 + 1)
    ∃ contents, s.disk place.1 = some contents ∧
      slice contents (blockOffset place.2.1 place.2.2 + index % 2 * 0x800) 0x800 =
        isoSector env (minSector.toNat + index) := by
  intro place
  have position : (index / 2 + 1) * 0x1000 + index % 2 * 0x800 = 0x1000 + index * 0x800 := by
    omega
  have inPayload : (index / 2 + 1) * 0x1000 < (payloadOf range success).bytes.length := by
    have minEven := range.minEven
    have maxEven := range.maxEven
    rw [range_block_count]
    exact Nat.mul_lt_mul_of_pos_right (by omega) (by decide)
  have inBlock : index % 2 * 0x800 + 0x800 ≤ 0x1000 := by omega
  obtain ⟨contents, stored, found⟩ := unlinked_block_slice files _ inPayload inBlock
  have same := payload_range_sector range success bound
  rw [XGD_SECTOR_SIZE, ← position, ← found] at same
  exact ⟨contents, stored, same⟩

theorem volume_sector_stored (range : SectorRange minSector maxSector)
    (success : AllSucceeds env maxSector) {s : IsoIo}
    (files : HasUnlinkedFiles env.sha (payloadOf range success) s) {index : Nat}
    (bound : index < 2) :
    ∃ contents, s.disk 0 = some contents ∧
      slice contents (0x1000 + 0x1000 + index * XGD_SECTOR_SIZE) XGD_SECTOR_SIZE =
        isoSector env (SVOD_START_SECTOR + index) := by
  have inPayload : 0 * 0x1000 < (payloadOf range success).bytes.length := by
    rw [range_block_count, Nat.zero_mul]
    exact Nat.mul_pos (by omega) (by decide)
  have inBlock : index * XGD_SECTOR_SIZE + XGD_SECTOR_SIZE ≤ 0x1000 := by
    rw [← Nat.succ_mul]
    exact Nat.mul_le_mul_right XGD_SECTOR_SIZE (show index + 1 ≤ 2 by omega)
  obtain ⟨contents, stored, found⟩ := unlinked_block_slice files 0 inPayload inBlock
  rw [Nat.zero_mul, Nat.zero_add, payload_volume_sector range success bound] at found
  exact ⟨contents, stored, found⟩

theorem range_stored_count (range : SectorRange minSector maxSector)
    (success : AllSucceeds env maxSector) {s : IsoIo}
    (files : HasUnlinkedFiles env.sha (payloadOf range success) s) :
    (storedBlocks s).ncard = (maxSector.toNat - minSector.toNat) / 2 + 1 := by
  rw [stored_blocks_eq files (range_block_count range success), Set.InjOn.ncard_image,
    Set.ncard_Iio_nat]
  intro left _ right _ same
  rw [← block_place_number left, same, block_place_number right]

theorem write_iso_body_addresses_sectors (range : SectorRange minSector maxSector)
    (success : AllSucceeds env maxSector) (described : maxSector.toNat < 0x2000000)
    (size : headerBuffer.length = headerSize) :
    SectorsAddressed env (writeIsoBody env
      (calcDataBlocks (IsoIo.initial minSector maxSector isoPos headerBuffer))).2 := by
  obtain ⟨start, number⟩ := calc_data_blocks_fields
    (show (IsoIo.initial minSector maxSector isoPos headerBuffer).headerBuffer.length = _ from size)
    range.ordered.le described
  let written := (calcDataBlocks (IsoIo.initial minSector maxSector isoPos headerBuffer)).headerBuffer
  obtain ⟨s, run, done⟩ := write_iso_body_run isoPos written range success
  have initial : calcDataBlocks (IsoIo.initial minSector maxSector isoPos headerBuffer) =
      IsoIo.initial minSector maxSector isoPos written := rfl
  have files := body_unlinked_files done
  have header : s.headerBuffer = written := done.progress.headerBuffer
  have minSame : s.minSector = minSector := done.progress.minSector
  have maxSame : s.maxSector = maxSector := done.progress.maxSector
  rw [initial, run]
  change SectorsAddressed env s
  refine ⟨?_, ?_, ?_⟩
  · intro sector after before
    simp only [minSame, maxSame] at after before
    obtain ⟨logical, parity⟩ := sector_number range.minEven after
    have field : startingDataBlock s.headerBuffer = minSector.toNat / 2 := by
      rw [header]
      exact start
    have found := range_sector_stored range success files
      (show sector - minSector.toNat < maxSector.toNat - minSector.toNat by omega)
    rw [Nat.add_sub_cancel' after, ← logical, ← parity] at found
    dsimp only
    rw [field]
    exact found
  · obtain ⟨contents, stored, low⟩ :=
      volume_sector_stored range success files (show 0 < 2 by decide)
    obtain ⟨contents', stored', high⟩ :=
      volume_sector_stored range success files (show 1 < 2 by decide)
    rw [stored] at stored'
    cases stored'
    exact ⟨contents, stored, low, high⟩
  · rw [range_stored_count range success files, header, number]
    rfl

/-- A disc of one segment. -/
theorem short_disc_addresses_sectors :
    SectorsAddressed (blankDisc 64) (writeIsoBody (blankDisc 64)
      (calcDataBlocks (IsoIo.initial 2 64 0 (zeros headerSize)))).2 :=
  write_iso_body_addresses_sectors ⟨by decide, by decide, by decide⟩
    (blank_disc_succeeds (by decide) (by decide)) (by decide) (zeros_length _)

end Sectors

end XeBuild.Iso2svod
