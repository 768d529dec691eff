import XeBuild.Iso2svod.HeaderChain

/-!
# The container verifies as one hash chain

What a reader of the container checks, stated on the bytes of the header and of
the data files alone: it follows digests from `ContentId` and
`FirstFragmentHashEntry` down to every data block, and expects zeroed entries
where nothing is present. A part is present when its offset is inside the file.
-/

namespace XeBuild.Iso2svod

open ListRange ListChunks

set_option autoImplicit false

/-- The two table levels of one data file. -/
structure FileVerifies (sha : Sha) (contents : Bytes) : Prop where
  header : 0x1000 ≤ contents.length
  aligned : 0x1000 ∣ contents.length
  bounded : contents.length ≤ segmentOffset 0xCB
  level1 : ∀ block < 0xCB, slice contents (block * 0x14) 0x14 =
    if segmentOffset block < contents.length then
      (sha (slice contents (segmentOffset block) 0x1000)).bytes
    else zeros 0x14
  level0 : ∀ block < 0xCB, segmentOffset block < contents.length → ∀ entry < 0xCC,
    slice contents (segmentOffset block + entry * 0x14) 0x14 =
      if blockOffset block entry < contents.length then
        (sha (slice contents (blockOffset block entry) 0x1000)).bytes
      else zeros 0x14

structure ContainerVerifies (sha : Sha) (count : Nat) (s : IsoIo) : Prop where
  files : ∀ num, (s.disk num).isSome ↔ num < count
  positive : 0 < count
  contentId : slice s.headerBuffer contentIdOffset 0x14 =
    (sha (slice s.headerBuffer 0x344 (0xB000 - 0x344))).bytes
  first : ∀ contents, s.disk 0 = some contents →
    firstFragmentHash s = (sha (slice contents 0 0x1000)).bytes
  linked : ∀ num contents after, s.disk num = some contents → s.disk (num + 1) = some after →
    slice contents nextFragmentOffset 0x14 = (sha (slice after 0 0x1000)).bytes
  last : ∀ num contents, s.disk num = some contents → s.disk (num + 1) = none →
    slice contents nextFragmentOffset 0x14 = zeros 0x14
  file : ∀ num contents, s.disk num = some contents → FileVerifies sha contents

section Layout

variable (sha : Sha) {segments : List Bytes} (next : Digest)

theorem layout_file_verifies (file : IsFile segments) :
    FileVerifies sha (fileBytes sha segments next) := by
  have header := level1_table_length sha file.fits next
  have fits := file.fits
  have long : 0x1000 ≤ (fileBytes sha segments next).length := by
    rw [fileBytes, List.length_append]
    omega
  have front : ∀ offset size, offset + size ≤ 0x1000 →
      slice (fileBytes sha segments next) offset size =
        slice (level1Table sha segments next) offset size := by
    intro offset size inside
    rw [fileBytes, slice_append_left _ _ _ _ (by omega)]
  refine ⟨long, file_aligned sha next file, ?_, ?_, ?_⟩
  · by_contra past
    have present := (segment_present_iff sha next file 0xCB).mp (by omega)
    simp only [segmentsPerFile] at fits
    omega
  · intro block bound
    rw [front _ _ (by omega), level1_entry sha fits next block bound]
    by_cases present : block < segments.length
    · rw [dif_pos present, if_pos ((segment_present_iff sha next file block).mpr present),
        file_table_at sha next file present]
    · rw [dif_neg present, if_neg (fun inFile =>
        present ((segment_present_iff sha next file block).mp inFile))]
  · intro block _ inFile entry bound
    have present := (segment_present_iff sha next file block).mp inFile
    have valid := file.segment _ (List.getElem_mem present)
    have table := level0_table_length sha valid
    rw [file_segment_slice sha next file present (by omega), segmentBytes,
      slice_append_left _ _ _ _ (by omega), level0_entry sha valid entry bound]
    by_cases stored : entry * 0x1000 < segments[block].length
    · rw [if_pos stored, if_pos ((block_present_iff sha next file present bound).mpr stored),
        file_block_at sha next file present stored]
    · rw [if_neg stored, if_neg (fun inBlock =>
        stored ((block_present_iff sha next file present bound).mp inBlock))]

theorem layout_file_link (fits : segments.length ≤ segmentsPerFile) :
    slice (fileBytes sha segments next) nextFragmentOffset 0x14 = next.bytes := by
  have header := level1_table_length sha fits next
  rw [nextFragmentOffset, fileBytes, slice_append_left _ _ _ _ (by omega), level1_link sha fits]

end Layout

section Container

variable {sha : Sha} {payload : Payload} {num : Nat} {contents : Bytes}

theorem data_file_some (stored : payload.dataFile sha num = some contents) :
    ∃ present : num < payload.files.length,
      contents = fileBytes sha payload.files[num]
        (Payload.nextDigest sha (payload.files.drop (num + 1))) := by
  rw [Payload.dataFile, Option.map_eq_some_iff] at stored
  obtain ⟨segments, found, rfl⟩ := stored
  obtain ⟨present, rfl⟩ := List.getElem?_eq_some_iff.mp found
  exact ⟨present, rfl⟩

theorem data_file_isSome : (payload.dataFile sha num).isSome ↔ num < payload.files.length := by
  simp [Payload.dataFile]

/-- The digest a file is reached by: its predecessor's link or the header's. -/
theorem data_file_digest (stored : payload.dataFile sha num = some contents) :
    Payload.nextDigest sha (payload.files.drop num) = sha (slice contents 0 0x1000) := by
  obtain ⟨present, rfl⟩ := data_file_some stored
  have fits := (payload_file (List.getElem_mem present)).fits
  rw [file_bytes_header sha _ fits, next_digest_step sha payload.files num present]

end Container

/-- The layout of a payload with its first digest in the header verifies once
the header is finalized. -/
theorem layout_verifies {env : Env} {payload : Payload} {s : IsoIo}
    (size : s.headerBuffer.length = headerSize)
    (disk : ∀ num, s.disk num = payload.dataFile env.sha num)
    (first : firstFragmentHash s = (Payload.nextDigest env.sha payload.files).bytes) :
    ContainerVerifies env.sha payload.files.length (finalizeHeaderFile env s) := by
  have digestSize : ∀ digest : Digest, digest.bytes.length = 0x14 := fun digest => digest.size
  rw [headerSize] at size
  have kept : ∀ offset count, 0x344 ≤ offset → slice (finalizeHeaderFile env s).headerBuffer
      offset count = slice s.headerBuffer offset count := by
    intro offset count after
    exact slice_patch_after _ _ _ (by rw [digestSize, contentIdOffset]; omega)
      (by rw [contentIdOffset]; omega)
  refine ⟨?_, payload_files_positive payload, ?_, ?_, ?_, ?_, ?_⟩
  · intro num
    change (s.disk num).isSome ↔ _
    rw [disk]
    exact data_file_isSome
  · rw [kept 0x344 _ (Nat.le_refl _)]
    have written := slice_patch_same s.headerBuffer contentIdOffset
      (env.sha (slice s.headerBuffer metaOffset (headerSize - metaOffset))).bytes
      (by rw [contentIdOffset]; omega)
    rwa [digestSize] at written
  · intro contents stored
    have digest := data_file_digest ((disk 0).symm.trans stored)
    rw [firstFragmentHash, kept _ _ (by decide), ← firstFragmentHash, first, ← digest,
      List.drop_zero]
  · intro num contents after stored following
    have digest := data_file_digest ((disk (num + 1)).symm.trans following)
    obtain ⟨present, rfl⟩ := data_file_some ((disk num).symm.trans stored)
    rw [layout_file_link env.sha _ (payload_file (List.getElem_mem present)).fits, digest]
  · intro num contents stored ended
    obtain ⟨present, rfl⟩ := data_file_some ((disk num).symm.trans stored)
    have past : ¬ num + 1 < payload.files.length := by
      rw [← (data_file_isSome : (payload.dataFile env.sha (num + 1)).isSome ↔ _), ← disk]
      change s.disk (num + 1) = none at ended
      rw [ended]
      simp
    rw [layout_file_link env.sha _ (payload_file (List.getElem_mem present)).fits,
      List.drop_eq_nil_of_le (by omega)]
    rfl
  · intro num contents stored
    obtain ⟨present, rfl⟩ := data_file_some ((disk num).symm.trans stored)
    exact layout_file_verifies env.sha _ (payload_file (List.getElem_mem present))

section Converted

variable {env : Env} {minSector maxSector : UInt32} {isoPos : Nat} {headerBuffer : Bytes}

theorem converted_container_verifies (range : SectorRange minSector maxSector)
    (success : AllSucceeds env maxSector) (size : headerBuffer.length = headerSize) {s : IsoIo}
    (run : isoToSvod env (IsoIo.initial minSector maxSector isoPos headerBuffer) = (true, s)) :
    ∃ count, ContainerVerifies env.sha count (finalizeHeaderFile env s) := by
  have converted := iso_to_svod_converted range success run
  have digestSize := (Payload.nextDigest env.sha (payloadOf range success).files).size
  refine ⟨_, layout_verifies ?_ converted.disk (converted_first_fragment size converted)⟩
  rw [converted.header, patch_length]
  · exact size
  · change firstFragmentHashOffset + _ ≤ headerBuffer.length
    rw [digestSize, size]
    decide

/-- The smallest disc that needs two files. -/
theorem two_file_disc_verifies : ∃ s,
    isoToSvod (blankDisc 82824) (IsoIo.initial 0 82824 0 (zeros headerSize)) = (true, s) ∧
      ∃ count, ContainerVerifies leadingBytes count (finalizeHeaderFile (blankDisc 82824) s) := by
  have range : SectorRange 0 82824 := ⟨by decide, by decide, by decide⟩
  have success : AllSucceeds (blankDisc 82824) 82824 :=
    blank_disc_succeeds (by decide) (by decide)
  have several := (several_files_iff range success).mpr (by decide)
  obtain ⟨s, run, _⟩ := iso_to_svod_run 0 (zeros headerSize)
    range success several
  exact ⟨s, run, converted_container_verifies range success (zeros_length _) run⟩

end Converted

end XeBuild.Iso2svod
