import XeBuild.Iso2svod.SectorAddress

/-!
# The predicted sizes

`calcDataFileSizes` computes the number and the total length of the data files
before the first one is opened. Both are facts about the layout: rounding up
twice counts segments and files, and every file and segment adds one table.
-/

namespace XeBuild.Iso2svod

open ListRange ListChunks

set_option autoImplicit false

section Layout

variable (sha : Sha)

theorem file_bytes_size (next : Digest) {segments : List Bytes}
    (fits : segments.length ≤ segmentsPerFile) (valid : ∀ segment ∈ segments, IsSegment segment) :
    (fileBytes sha segments next).length =
      0x1000 + segments.length * 0x1000 + segments.flatten.length := by
  have body : (bodyBytes sha segments).length =
      segments.length * 0x1000 + segments.flatten.length := by
    clear fits
    induction segments with
    | nil => rfl
    | cons segment rest ih =>
        have tail := ih (fun other member => valid other (List.mem_cons_of_mem _ member))
        have head := segment_bytes_length sha (valid segment List.mem_cons_self)
        rw [bodyBytes] at tail
        rw [bodyBytes, List.map_cons, List.flatten_cons, List.length_append, head, tail,
          List.flatten_cons, List.length_append, List.length_cons]
        omega
  rw [fileBytes, List.length_append, level1_table_length sha fits, body, Nat.add_assoc]

theorem files_size (next : Digest) {files : List (List Bytes)}
    (valid : ∀ segments ∈ files, IsFile segments) :
    (files.map fun segments => (fileBytes sha segments next).length).sum =
      files.length * 0x1000 + files.flatten.length * 0x1000 + files.flatten.flatten.length := by
  induction files with
  | nil => rfl
  | cons segments rest ih =>
      have tail := ih (fun other member => valid other (List.mem_cons_of_mem _ member))
      have file := valid segments List.mem_cons_self
      rw [List.map_cons, List.sum_cons, tail, file_bytes_size sha next file.fits file.segment,
        List.flatten_cons, List.flatten_append, List.length_append, List.length_append,
        List.length_cons]
      omega

theorem payload_files_size (payload : Payload) (next : Digest) :
    (payload.files.map fun segments => (fileBytes sha segments next).length).sum =
      payload.files.length * 0x1000 + payload.segments.length * 0x1000 + payload.bytes.length := by
  have segments : payload.files.flatten = payload.segments := chunks_flatten (by decide) _
  have bytes : payload.segments.flatten = payload.bytes := chunks_flatten (by decide) _
  rw [files_size sha next (fun _ member => payload_file member), segments, bytes]

/-- The segments of `count` blocks, counted as the source counts them. -/
theorem payload_segments_count {payload : Payload} {count : Nat}
    (length : payload.bytes.length = count * 0x1000) :
    payload.segments.length = count / 0xCC + if count % 0xCC ≠ 0 then 1 else 0 := by
  rw [Payload.segments, chunks_length (by decide), length, segmentSize]
  split <;> omega

theorem payload_files_count (payload : Payload) :
    payload.files.length =
      payload.segments.length / 0xCB + if payload.segments.length % 0xCB ≠ 0 then 1 else 0 := by
  rw [Payload.files, chunks_length (by decide), segmentsPerFile]
  split <;> omega

end Layout

section Fields

variable {env : Env} {minSector maxSector : UInt32} {isoPos : Nat} {headerBuffer : Bytes}

/-- The values `calcDataFileSizes` writes, for any count of files and any size. -/
theorem calc_data_file_sizes_fields {s : IsoIo} (size : s.headerBuffer.length = headerSize)
    {dataSectors dataBlocks fileCnt : Nat}
    (sectors : u32 (u32 (sub32 s.maxSector.toNat s.minSector.toNat + 1) / 2 + 1) = dataSectors)
    (blocks : dataSectors / 0xCC + (if dataSectors % 0xCC ≠ 0 then 1 else 0) = dataBlocks)
    (files : dataBlocks / 0xCB + (if dataBlocks % 0xCB ≠ 0 then 1 else 0) = fileCnt)
    (word : dataSectors < 0x100000000) :
    getBe32 (slice (calcDataFileSizes s).headerBuffer dataFilesOffset 4) = fileCnt ∧
      getBe64 (slice (calcDataFileSizes s).headerBuffer dataFilesSizeOffset 8) =
        fileCnt * 0x1000 + dataSectors * 0x1000 + dataBlocks * 0x1000 := by
  have blocksBound : dataBlocks ≤ dataSectors + 1 := by
    rw [← blocks]
    split <;> omega
  have filesBound : fileCnt ≤ dataBlocks := by
    rw [← files]
    split <;> omega
  have fileWord : fileCnt < 0x100000000 := by
    rw [← files]
    split <;> omega
  rw [calcDataFileSizes]
  simp only [sectors, blocks, files]
  have countSize : (hostU32 (bswap32 fileCnt)).length = 4 := rfl
  have totalSize : ∀ total, (hostU64 (bswap64 total)).length = 8 := fun _ => rfl
  have inner : (patch s.headerBuffer dataFilesOffset (hostU32 (bswap32 fileCnt))).length =
      headerSize := by
    rw [patch_length (by rw [countSize, size]; decide), size]
  constructor
  · rw [slice_patch_before _ _ _ (by decide) (by rw [inner]; decide)]
    have written := slice_patch_same s.headerBuffer dataFilesOffset (hostU32 (bswap32 fileCnt))
      (by rw [size]; decide)
    have read := get_be32_host_bswap32 fileCnt fileWord []
    rw [List.append_nil] at read
    rw [countSize] at written
    rw [written, read]
  · have written := slice_patch_same
      (patch s.headerBuffer dataFilesOffset (hostU32 (bswap32 fileCnt))) dataFilesSizeOffset
      (hostU64 (bswap64 (fileCnt * 0x1000 + dataSectors * 0x1000 + dataBlocks * 0x1000)))
      (by rw [inner]; decide)
    rw [totalSize] at written
    rw [written]
    exact get_be64_host_bswap64 _ (by omega)

/-- `DataFiles` and `DataFilesSize`, against the files the copy loop leaves. -/
def SizesPredicted (s : IsoIo) : Prop :=
  ∃ files : List Bytes, (∀ num, s.disk num = files[num]?) ∧
    getBe32 (slice s.headerBuffer dataFilesOffset 4) = files.length ∧
    getBe64 (slice s.headerBuffer dataFilesSizeOffset 8) = (files.map List.length).sum

theorem write_iso_body_sizes_predicted (range : SectorRange minSector maxSector)
    (success : AllSucceeds env maxSector) (size : headerBuffer.length = headerSize) :
    SizesPredicted (writeIsoBody env
      (calcDataFileSizes (IsoIo.initial minSector maxSector isoPos headerBuffer))).2 := by
  let written :=
    (calcDataFileSizes (IsoIo.initial minSector maxSector isoPos headerBuffer)).headerBuffer
  let payload := payloadOf range success
  obtain ⟨s, run, done⟩ := write_iso_body_run isoPos written range success
  have initial : calcDataFileSizes (IsoIo.initial minSector maxSector isoPos headerBuffer) =
      IsoIo.initial minSector maxSector isoPos written := rfl
  have header : s.headerBuffer = written := done.progress.headerBuffer
  have minEven := range.minEven
  have maxEven := range.maxEven
  have ordered := range.ordered
  have word := maxSector.toNat_lt
  have difference := sub32_of_le ordered.le word
  have length : payload.bytes.length =
      0x1000 + (maxSector.toNat - minSector.toNat) * 0x800 := iso_payload_length range success
  obtain ⟨dataSectors, sectors⟩ : ∃ dataSectors,
      u32 (u32 (sub32 maxSector.toNat minSector.toNat + 1) / 2 + 1) = dataSectors := ⟨_, rfl⟩
  have blocks : payload.bytes.length = dataSectors * 0x1000 := by
    rw [length, ← sectors, difference, u32, u32]
    omega
  have sectorsWord : dataSectors < 0x100000000 := by
    rw [← sectors, u32]
    omega
  obtain ⟨fileCount, totalSize⟩ := calc_data_file_sizes_fields
    (show (IsoIo.initial minSector maxSector isoPos headerBuffer).headerBuffer.length = _ from size)
    sectors (payload_segments_count blocks).symm (payload_files_count payload).symm sectorsWord
  have disk := body_unlinked_files done
  rw [initial, run]
  refine ⟨payload.files.map fun segments => fileBytes env.sha segments Digest.zero, ?_, ?_, ?_⟩
  · intro num
    rw [List.getElem?_map]
    exact disk num
  · rw [List.length_map, header]
    exact fileCount
  · rw [List.map_map, header]
    have sizes := payload_files_size env.sha payload Digest.zero
    change _ = (payload.files.map fun segments =>
      (fileBytes env.sha segments Digest.zero).length).sum
    rw [sizes, blocks, Nat.add_right_comm]
    exact totalSize

theorem short_disc_sizes_predicted :
    SizesPredicted (writeIsoBody (blankDisc 64)
      (calcDataFileSizes (IsoIo.initial 2 64 0 (zeros headerSize)))).2 :=
  write_iso_body_sizes_predicted ⟨by decide, by decide, by decide⟩
    (blank_disc_succeeds (by decide) (by decide)) (zeros_length _)

end Fields

end XeBuild.Iso2svod
