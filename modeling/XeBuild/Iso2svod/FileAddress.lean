import XeBuild.Iso2svod.SvodLayout

/-!
# Addresses inside a data file

A reader of a container finds its parts by arithmetic on offsets. This module
states what the layout puts at each of them, and when an offset is past the end
of its file.
-/

namespace XeBuild.Iso2svod

open ListRange ListChunks

set_option autoImplicit false

def segmentOffset (block : Nat) : Nat := 0x1000 + block * 0xCD000

def blockOffset (block entry : Nat) : Nat := segmentOffset block + 0x1000 + entry * 0x1000

variable (sha : Sha)

section Entries

theorem level0_entry {segment : Bytes} (valid : IsSegment segment) (entry : Nat)
    (bound : entry < 0xCC) :
    slice (level0Table sha segment) (entry * 0x14) 0x14 =
      if entry * 0x1000 < segment.length then
        (sha (slice segment (entry * 0x1000) 0x1000)).bytes
      else zeros 0x14 := by
  have size : (level0Digests sha segment).length = 0xCC :=
    DigestTree.table_length _ _ (segment_blocks_fit valid)
  have counted : entry < (chunks blockSize segment).length ↔ entry * 0x1000 < segment.length :=
    lt_chunks_length (by decide) segment entry
  have inTable : entry < (level0Digests sha segment).length := by omega
  rw [level0Table, slice_entry_bytes _ _ _ inTable]
  by_cases present : entry * 0x1000 < segment.length
  · have inChunks := counted.mpr present
    have block := chunks_getElem (by decide) segment entry inChunks
    have digest : (level0Digests sha segment)[entry] = sha (chunks blockSize segment)[entry] :=
      DigestTree.table_present _ _ inChunks inTable
    rw [if_pos present, digest, block]
    rfl
  · have past : (chunks blockSize segment).length ≤ entry := by omega
    have digest : (level0Digests sha segment)[entry] = Digest.zero :=
      DigestTree.table_absent _ _ past inTable
    rw [if_neg present, digest]
    rfl

theorem level1_entry {segments : List Bytes} (fits : segments.length ≤ segmentsPerFile)
    (next : Digest) (block : Nat) (bound : block < 0xCB) :
    slice (level1Table sha segments next) (block * 0x14) 0x14 =
      if present : block < segments.length then
        (sha (level0Table sha segments[block])).bytes
      else zeros 0x14 := by
  have count : (segments.map (level0Table sha)).length = segments.length := List.length_map _
  have size : (level1Digests sha segments).length = 0xCB :=
    DigestTree.table_length _ _ (by rw [count]; exact fits)
  have inTable : block < (level1Digests sha segments).length := by omega
  rw [level1Table, slice_entry_bytes _ _ _ inTable]
  by_cases present : block < segments.length
  · have digest : (level1Digests sha segments)[block] =
        sha (segments.map (level0Table sha))[block] :=
      DigestTree.table_present _ _ (by omega) inTable
    rw [dif_pos present, digest, List.getElem_map]
  · have digest : (level1Digests sha segments)[block] = Digest.zero :=
      DigestTree.table_absent _ _ (by omega) inTable
    rw [dif_neg present, digest]
    rfl

theorem level1_link {segments : List Bytes} (fits : segments.length ≤ segmentsPerFile)
    (next : Digest) : slice (level1Table sha segments next) 0xFDC 0x14 = next.bytes := by
  have count : (segments.map (level0Table sha)).length ≤ 0xCB := by
    rw [List.length_map]
    exact fits
  have front : (entryBytes (level1Digests sha segments)).length = 0xFDC := by
    rw [entry_bytes_length, level1Digests, DigestTree.table_length _ _ count]
  have size : next.bytes.length = 0x14 := next.size
  rw [level1Table, slice_append_of_le _ _ (by rw [front]), front, Nat.sub_self,
    slice_append_left _ _ _ _ (by omega), ← size, slice_whole]

end Entries

section File

variable {segments : List Bytes} (next : Digest)

theorem file_bytes_header (fits : segments.length ≤ segmentsPerFile) :
    slice (fileBytes sha segments next) 0 0x1000 = level1Table sha segments next := by
  have whole := level1_table_length sha fits next
  rw [fileBytes, slice_append_left _ _ _ _ (by omega), ← whole, slice_whole]

/-- A range of the segment part of a file is a range of one stored segment. -/
theorem file_segment_slice (file : IsFile segments) {block : Nat}
    (present : block < segments.length)
    {offset size : Nat} (inside : offset + size ≤ 0x1000 + segments[block].length) :
    slice (fileBytes sha segments next) (segmentOffset block + offset) size =
      slice (segmentBytes sha segments[block]) offset size := by
  have header := level1_table_length sha file.fits next
  have length := segment_bytes_length sha (file.segment _ (List.getElem_mem present))
  have inMap : block < (segments.map (segmentBytes sha)).length := by
    rw [List.length_map]
    exact present
  have stored : (segments.map (segmentBytes sha))[block] = segmentBytes sha segments[block] :=
    List.getElem_map _
  have uniform : ∀ part ∈ (segments.map (segmentBytes sha)).take block, part.length = 0xCD000 := by
    intro part member
    rw [← List.map_take] at member
    obtain ⟨segment, before, rfl⟩ := List.mem_map.mp member
    rw [segment_bytes_length sha (file.segment segment (List.mem_of_mem_take before)),
      file.full block present segment before, segmentSize]
  have body := slice_flatten block uniform inMap
    (show offset + size ≤ (segments.map (segmentBytes sha))[block].length by
      rw [stored, length]
      exact inside)
  rw [segmentOffset, Nat.add_assoc, fileBytes, slice_append_of_le _ _ (by omega), header,
    Nat.add_sub_cancel_left, bodyBytes, body, stored]

theorem file_table_at (file : IsFile segments) {block : Nat} (present : block < segments.length) :
    slice (fileBytes sha segments next) (segmentOffset block) 0x1000 =
      level0Table sha segments[block] := by
  have valid := file.segment _ (List.getElem_mem present)
  have size := level0_table_length sha valid
  have range := file_segment_slice sha next file present
    (show 0 + 0x1000 ≤ 0x1000 + segments[block].length by omega)
  rw [Nat.add_zero] at range
  rw [range, segmentBytes, slice_append_left _ _ _ _ (by omega), ← size, slice_whole]

theorem file_data_at (file : IsFile segments) {block : Nat} (present : block < segments.length)
    {offset size : Nat} (inside : offset + size ≤ segments[block].length) :
    slice (fileBytes sha segments next) (segmentOffset block + 0x1000 + offset) size =
      slice segments[block] offset size := by
  have valid := file.segment _ (List.getElem_mem present)
  have table := level0_table_length sha valid
  rw [Nat.add_assoc, file_segment_slice sha next file present (by omega), segmentBytes,
    slice_append_of_le _ _ (by omega), table, Nat.add_sub_cancel_left]

/-- All segments but the last one fill their place, so the last one fixes the length. -/
theorem file_bytes_length (file : IsFile segments) {last : Nat}
    (count : segments.length = last + 1) :
    ∃ present : last < segments.length,
      (fileBytes sha segments next).length =
        segmentOffset last + 0x1000 + segments[last].length := by
  have present : last < segments.length := by omega
  have header := level1_table_length sha file.fits next
  have length := segment_bytes_length sha (file.segment _ (List.getElem_mem present))
  have split : segments = segments.take last ++ [segments[last]] := by
    have whole := List.take_append_drop last segments
    rw [List.drop_eq_getElem_cons present, List.drop_eq_nil_of_le (by omega)] at whole
    exact whole.symm
  have front : ((segments.take last).map (segmentBytes sha)).flatten.length = last * 0xCD000 := by
    have uniform : ∀ part ∈ (segments.take last).map (segmentBytes sha), part.length = 0xCD000 := by
      intro part member
      obtain ⟨segment, before, rfl⟩ := List.mem_map.mp member
      rw [segment_bytes_length sha (file.segment segment (List.mem_of_mem_take before)),
        file.full last present segment before, segmentSize]
    rw [flatten_length_uniform uniform, List.length_map, List.length_take,
      Nat.min_eq_left (by omega)]
  have body : (bodyBytes sha segments).length =
      last * 0xCD000 + (0x1000 + segments[last].length) := by
    calc (bodyBytes sha segments).length
        = (bodyBytes sha (segments.take last ++ [segments[last]])).length := by rw [← split]
      _ = (((segments.take last).map (segmentBytes sha)).flatten ++
          segmentBytes sha segments[last]).length := by
        rw [bodyBytes, List.map_append, List.flatten_append, List.map_singleton,
          List.flatten_singleton]
      _ = last * 0xCD000 + (0x1000 + segments[last].length) := by
        rw [List.length_append, front, length]
  refine ⟨present, ?_⟩
  rw [fileBytes, List.length_append, header, body, segmentOffset]
  omega

theorem file_aligned (file : IsFile segments) : 0x1000 ∣ (fileBytes sha segments next).length := by
  obtain ⟨last, count⟩ : ∃ last, segments.length = last + 1 :=
    ⟨segments.length - 1, (Nat.sub_add_cancel file.nonempty).symm⟩
  obtain ⟨present, length⟩ := file_bytes_length sha next file count
  obtain ⟨blocks, size⟩ := (file.segment _ (List.getElem_mem present)).aligned
  rw [length, size, segmentOffset, blockSize]
  omega

theorem segment_present_iff (file : IsFile segments) (block : Nat) :
    segmentOffset block < (fileBytes sha segments next).length ↔ block < segments.length := by
  obtain ⟨last, count⟩ : ∃ last, segments.length = last + 1 :=
    ⟨segments.length - 1, (Nat.sub_add_cancel file.nonempty).symm⟩
  obtain ⟨present, length⟩ := file_bytes_length sha next file count
  have fits := (file.segment _ (List.getElem_mem present)).fits
  have nonempty := (file.segment _ (List.getElem_mem present)).nonempty
  rw [length, count]
  simp only [segmentOffset, segmentSize] at fits ⊢
  omega

/-- Inside a segment that is present, the end of the file is the end of the segment. -/
theorem block_present_iff (file : IsFile segments) {block : Nat} (inFile : block < segments.length)
    {entry : Nat} (bound : entry < 0xCC) :
    blockOffset block entry < (fileBytes sha segments next).length ↔
      entry * 0x1000 < segments[block].length := by
  obtain ⟨last, count⟩ : ∃ last, segments.length = last + 1 :=
    ⟨segments.length - 1, (Nat.sub_add_cancel file.nonempty).symm⟩
  obtain ⟨present, length⟩ := file_bytes_length sha next file count
  have nonempty := (file.segment _ (List.getElem_mem present)).nonempty
  rw [length]
  rcases Nat.lt_or_ge block last with inner | final
  · have full : segments[block].length = segmentSize :=
      file.full last present _ (List.mem_take_iff_getElem.mpr ⟨block, by omega, rfl⟩)
    rw [full]
    simp only [blockOffset, segmentOffset, segmentSize]
    omega
  · have same : block = last := by omega
    subst same
    simp only [blockOffset, segmentOffset]
    omega

theorem file_block_at (file : IsFile segments) {block : Nat} (inFile : block < segments.length)
    {entry : Nat} (present : entry * 0x1000 < segments[block].length) :
    slice (fileBytes sha segments next) (blockOffset block entry) 0x1000 =
      slice segments[block] (entry * 0x1000) 0x1000 := by
  obtain ⟨blocks, size⟩ := (file.segment _ (List.getElem_mem inFile)).aligned
  have whole : entry * 0x1000 + 0x1000 ≤ segments[block].length := by
    rw [size] at present ⊢
    simp only [blockSize] at present ⊢
    omega
  exact file_data_at sha next file inFile whole

end File

end XeBuild.Iso2svod
