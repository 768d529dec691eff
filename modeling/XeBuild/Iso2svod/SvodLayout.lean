import XeBuild.Lib.DigestTree
import XeBuild.Bytes

/-!
# What an SVOD container is

The data files of a container as a function of its payload, independent of how
the converter gets there. The payload is cut into segments of `0xCC` blocks and
the segments into files of `0xCB`. A segment is stored behind the table of its
block digests, a file behind the table of its segments' table digests, and each
file's table also holds the digest of the next file's table.
-/

namespace XeBuild.Iso2svod

open ListRange ListChunks

set_option autoImplicit false

def blockSize : Nat := 0x1000
def segmentSize : Nat := 0xCC000
def segmentsPerFile : Nat := 0xCB

/-- The bytes a container carries: whole blocks, at least one. -/
structure Payload where
  bytes : Bytes
  aligned : blockSize ∣ bytes.length
  nonempty : 0 < bytes.length

variable (sha : Sha)

def level0Digests (segment : Bytes) : List Digest :=
  DigestTree.table sha Digest.zero 0xCC (chunks blockSize segment)

/-- The `0x1000` bytes in front of a segment. -/
def level0Table (segment : Bytes) : Bytes := entryBytes (level0Digests sha segment) ++ zeros 0x10

def segmentBytes (segment : Bytes) : Bytes := level0Table sha segment ++ segment

def level1Digests (segments : List Bytes) : List Digest :=
  DigestTree.table sha Digest.zero 0xCB (segments.map (level0Table sha))

/-- The `0x1000` bytes in front of a file; `next` is the digest of the table
of the next file. -/
def level1Table (segments : List Bytes) (next : Digest) : Bytes :=
  entryBytes (level1Digests sha segments) ++ (next.bytes ++ zeros 0x10)

def bodyBytes (segments : List Bytes) : Bytes := (segments.map (segmentBytes sha)).flatten

def fileBytes (segments : List Bytes) (next : Digest) : Bytes :=
  level1Table sha segments next ++ bodyBytes sha segments

namespace Payload

variable (payload : Payload)

def segments : List Bytes := chunks segmentSize payload.bytes

def files : List (List Bytes) := chunks segmentsPerFile payload.segments

/-- The digest of the table of the file before `files`; the mark after the last. -/
def nextDigest (files : List (List Bytes)) : Digest :=
  DigestTree.chainDigest sha Digest.zero (level1Table sha) files

def dataFile (num : Nat) : Option Bytes :=
  payload.files[num]?.map fun segments =>
    fileBytes sha segments (nextDigest sha (payload.files.drop (num + 1)))

end Payload

/-! ## Sizes -/

structure IsSegment (segment : Bytes) : Prop where
  nonempty : 0 < segment.length
  fits : segment.length ≤ segmentSize
  aligned : blockSize ∣ segment.length

/-- A list of segments as one file holds them: only the last one may be short. -/
structure IsFile (segments : List Bytes) : Prop where
  nonempty : 0 < segments.length
  fits : segments.length ≤ segmentsPerFile
  segment : ∀ segment ∈ segments, IsSegment segment
  full : ∀ index < segments.length, ∀ segment ∈ segments.take index, segment.length = segmentSize

theorem segment_block_count {segment : Bytes} (valid : IsSegment segment) :
    (chunks blockSize segment).length = segment.length / blockSize := by
  obtain ⟨count, length⟩ := valid.aligned
  rw [chunks_length (by decide), length, blockSize]
  omega

theorem segment_blocks_fit {segment : Bytes} (valid : IsSegment segment) :
    (chunks blockSize segment).length ≤ 0xCC := by
  have fits := valid.fits
  rw [segment_block_count valid]
  simp only [segmentSize, blockSize] at fits ⊢
  omega

theorem level0_table_length {segment : Bytes} (valid : IsSegment segment) :
    (level0Table sha segment).length = 0x1000 := by
  rw [level0Table, List.length_append, entry_bytes_length, level0Digests,
    DigestTree.table_length _ _ (segment_blocks_fit valid), zeros_length]

theorem segment_bytes_length {segment : Bytes} (valid : IsSegment segment) :
    (segmentBytes sha segment).length = 0x1000 + segment.length := by
  rw [segmentBytes, List.length_append, level0_table_length sha valid]

theorem level1_table_length {segments : List Bytes} (fits : segments.length ≤ segmentsPerFile)
    (next : Digest) : (level1Table sha segments next).length = 0x1000 := by
  have count : (segments.map (level0Table sha)).length ≤ 0xCB := by
    rw [List.length_map]
    exact fits
  rw [level1Table, List.length_append, entry_bytes_length, level1Digests,
    DigestTree.table_length _ _ count, List.length_append, next.size, zeros_length,
    XECRYPT_SHA_DIGEST_SIZE]

theorem payload_segment {payload : Payload} {segment : Bytes}
    (member : segment ∈ payload.segments) : IsSegment segment := by
  have bounds := chunks_mem_length (by decide) member
  exact ⟨bounds.1, bounds.2, chunks_mem_dvd (by decide) (by decide) payload.aligned member⟩

theorem mem_segments_of_mem_file {payload : Payload} {segments : List Bytes} {segment : Bytes}
    (file : segments ∈ payload.files) (member : segment ∈ segments) :
    segment ∈ payload.segments := by
  have joined : (chunks segmentsPerFile payload.segments).flatten = payload.segments :=
    chunks_flatten (by decide) _
  rw [← joined]
  exact List.mem_flatten.mpr ⟨segments, file, member⟩

theorem file_segment_at {payload : Payload} {num : Nat} (present : num < payload.files.length)
    {block : Nat} (inFile : block < payload.files[num].length) :
    ∃ bound : num * segmentsPerFile + block < payload.segments.length,
      payload.files[num][block] = payload.segments[num * segmentsPerFile + block] := by
  have cut : payload.files[num] = slice payload.segments (num * segmentsPerFile) segmentsPerFile :=
    chunks_getElem (by decide) payload.segments num present
  have inSlice : block < (slice payload.segments
      (num * segmentsPerFile) segmentsPerFile).length := by
    rw [← cut]
    exact inFile
  have bound := inSlice
  rw [slice_length] at bound
  refine ⟨by omega, ?_⟩
  calc payload.files[num][block]
      = (slice payload.segments (num * segmentsPerFile) segmentsPerFile)[block] :=
        List.getElem_of_eq cut inFile
    _ = payload.segments[num * segmentsPerFile + block] := by simp [slice]

theorem payload_file {payload : Payload} {segments : List Bytes}
    (member : segments ∈ payload.files) : IsFile segments := by
  have bounds := chunks_mem_length (by decide) member
  refine ⟨bounds.1, bounds.2, ?_, ?_⟩
  · intro segment inFile
    exact payload_segment (mem_segments_of_mem_file member inFile)
  · intro index inFile segment before
    obtain ⟨num, present, rfl⟩ := List.mem_iff_getElem.mp member
    obtain ⟨bound, _⟩ := file_segment_at present inFile
    obtain ⟨earlier, earlierBound, rfl⟩ := List.mem_iff_getElem.mp before
    rw [List.length_take] at earlierBound
    obtain ⟨_, same⟩ := file_segment_at present (show earlier < payload.files[num].length by omega)
    rw [List.getElem_take, same]
    apply chunks_full_before (by decide) payload.bytes _ bound
    refine List.mem_iff_getElem.mpr ⟨num * segmentsPerFile + earlier, ?_, ?_⟩
    · rw [List.length_take]
      change _ < min _ payload.segments.length
      omega
    · rw [List.getElem_take]
      rfl

/-- The segment with number `index` in the payload, as a range of it. -/
theorem payload_segment_at (payload : Payload) (index : Nat)
    (present : index < payload.segments.length) :
    payload.segments[index] = slice payload.bytes (index * segmentSize) segmentSize :=
  chunks_getElem (by decide) payload.bytes index present

theorem payload_files_positive (payload : Payload) : 0 < payload.files.length := by
  have first : 0 < payload.segments.length :=
    (lt_chunks_length (by decide) payload.bytes 0).mpr (by simpa using payload.nonempty)
  exact (lt_chunks_length (by decide) payload.segments 0).mpr (by simpa using first)

end XeBuild.Iso2svod
