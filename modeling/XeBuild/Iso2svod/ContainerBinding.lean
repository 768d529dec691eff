import XeBuild.Iso2svod.HeaderChain

/-!
# The root digest binds the data files

Two conversions with the same `FirstFragmentHashEntry` have the same data files
unless the digest fails on what the two runs hashed: two different blocks with
one digest, or a block with the digest that stands for an absent entry. No
property of `XeCryptSha` itself is assumed.
-/

namespace XeBuild.Iso2svod

open ListRange ListChunks DigestTree

set_option autoImplicit false

section Layout

variable {sha : Sha} {inputs : Set Bytes}

theorem level0_table_binding (binding : Binding sha Digest.zero inputs) {left right : Bytes}
    (leftValid : IsSegment left) (rightValid : IsSegment right)
    (leftIn : ∀ block ∈ chunks blockSize left, block ∈ inputs)
    (rightIn : ∀ block ∈ chunks blockSize right, block ∈ inputs)
    (same : level0Table sha left = level0Table sha right) : left = right := by
  have entries := entry_bytes_injective (List.append_inj_left' same rfl)
  have blocks := table_binding binding (segment_blocks_fit leftValid)
    (segment_blocks_fit rightValid) leftIn rightIn entries
  have positive : 0 < blockSize := by decide
  rw [← chunks_flatten positive left, blocks, chunks_flatten positive]

def SegmentsIn (sha : Sha) (inputs : Set Bytes) (segments : List Bytes) : Prop :=
  ∀ segment ∈ segments, level0Table sha segment ∈ inputs ∧
    ∀ block ∈ chunks blockSize segment, block ∈ inputs

theorem segments_binding (binding : Binding sha Digest.zero inputs) {left right : List Bytes}
    (leftValid : ∀ segment ∈ left, IsSegment segment)
    (rightValid : ∀ segment ∈ right, IsSegment segment)
    (leftIn : SegmentsIn sha inputs left) (rightIn : SegmentsIn sha inputs right)
    (same : left.map (level0Table sha) = right.map (level0Table sha)) : left = right := by
  induction left generalizing right with
  | nil => simpa using same.symm
  | cons segment rest ih =>
      cases right with
      | nil => simp at same
      | cons other others =>
          rw [List.map_cons, List.map_cons, List.cons.injEq] at same
          have head := level0_table_binding binding (leftValid _ List.mem_cons_self)
            (rightValid _ List.mem_cons_self) (leftIn _ List.mem_cons_self).2
            (rightIn _ List.mem_cons_self).2 same.1
          have tail := ih (fun later member => leftValid later (List.mem_cons_of_mem _ member))
            (fun later member => rightValid later (List.mem_cons_of_mem _ member))
            (fun later member => leftIn later (List.mem_cons_of_mem _ member))
            (fun later member => rightIn later (List.mem_cons_of_mem _ member)) same.2
          rw [head, tail]

theorem level1_table_binding (binding : Binding sha Digest.zero inputs) {left right : List Bytes}
    (leftFile : IsFile left) (rightFile : IsFile right)
    (leftIn : SegmentsIn sha inputs left) (rightIn : SegmentsIn sha inputs right)
    {next after : Digest} (same : level1Table sha left next = level1Table sha right after) :
    left = right ∧ next = after := by
  have links : (next.bytes ++ zeros 0x10).length = (after.bytes ++ zeros 0x10).length := by
    rw [List.length_append, List.length_append, next.size, after.size]
  have entries := entry_bytes_injective (List.append_inj_left' same links)
  have leftFits : (left.map (level0Table sha)).length ≤ 0xCB := by
    rw [List.length_map]
    exact leftFile.fits
  have rightFits : (right.map (level0Table sha)).length ≤ 0xCB := by
    rw [List.length_map]
    exact rightFile.fits
  have tables := table_binding binding leftFits rightFits
    (fun table member => by
      obtain ⟨segment, inFile, rfl⟩ := List.mem_map.mp member
      exact (leftIn segment inFile).1)
    (fun table member => by
      obtain ⟨segment, inFile, rfl⟩ := List.mem_map.mp member
      exact (rightIn segment inFile).1) entries
  refine ⟨segments_binding binding leftFile.segment rightFile.segment leftIn rightIn tables, ?_⟩
  exact Digest.bytes_injective (List.append_inj_left' (List.append_inj_right' same links) rfl)

theorem payload_binding (binding : Binding sha Digest.zero inputs) {left right : Payload}
    (leftIn : SegmentsIn sha inputs left.segments) (rightIn : SegmentsIn sha inputs right.segments)
    (leftChain : ∀ header ∈ chainHeaders sha Digest.zero (level1Table sha) left.files,
      header ∈ inputs)
    (rightChain : ∀ header ∈ chainHeaders sha Digest.zero (level1Table sha) right.files,
      header ∈ inputs)
    (same : Payload.nextDigest sha left.files = Payload.nextDigest sha right.files) :
    left.files = right.files := by
  refine chain_binding binding leftChain rightChain ?_ same
  intro segments inLeft others inRight next after headers
  exact level1_table_binding binding (payload_file inLeft) (payload_file inRight)
    (fun segment member => leftIn segment (mem_segments_of_mem_file inLeft member))
    (fun segment member => rightIn segment (mem_segments_of_mem_file inRight member)) headers

end Layout

/-! ## Two runs -/

section Runs

variable {env env' : Env} {minSector maxSector minSector' maxSector' : UInt32}
variable {isoPos isoPos' : Nat} {headerBuffer headerBuffer' : Bytes} {s s' : IsoIo}

def HashedBlock (s s' : IsoIo) (block : Bytes) : Prop :=
  (block ∈ s.hashed ∨ block ∈ s'.hashed) ∧ block.length = 0x1000

theorem chain_header_length {sha : Sha} {files : List (List Bytes)}
    (valid : ∀ segments ∈ files, IsFile segments) {header : Bytes}
    (member : header ∈ chainHeaders sha Digest.zero (level1Table sha) files) :
    header.length = 0x1000 := by
  induction files with
  | nil => cases member
  | cons segments rest ih =>
      rcases List.mem_cons.mp member with rfl | later
      · exact level1_table_length sha (valid segments List.mem_cons_self).fits _
      · exact ih (fun other inRest => valid other (List.mem_cons_of_mem _ inRest)) later

theorem converted_inputs {payload : Payload} {initial : IsoIo}
    (converted : Converted env payload initial s) (inputs : Set Bytes)
    (logged : ∀ block ∈ s.hashed, block.length = 0x1000 → block ∈ inputs) :
    SegmentsIn env.sha inputs payload.segments ∧
      ∀ header ∈ chainHeaders env.sha Digest.zero (level1Table env.sha) payload.files,
        header ∈ inputs := by
  constructor
  · intro segment member
    have valid := payload_segment member
    obtain ⟨table, blocks⟩ := converted.segments segment member
    refine ⟨logged _ table (level0_table_length env.sha valid), ?_⟩
    intro block inSegment
    have bounds := chunks_mem_length (by decide) inSegment
    obtain ⟨count, length⟩ := chunks_mem_dvd (by decide) (Nat.dvd_refl _) valid.aligned inSegment
    refine logged block (blocks block inSegment) ?_
    simp only [blockSize] at bounds length
    omega
  · intro header member
    exact logged header (converted.chain header member)
      (chain_header_length (fun _ inFiles => payload_file inFiles) member)

theorem same_root_same_files (digest : env'.sha = env.sha)
    (range : SectorRange minSector maxSector) (success : AllSucceeds env maxSector)
    (size : headerBuffer.length = headerSize)
    (run : isoToSvod env (IsoIo.initial minSector maxSector isoPos headerBuffer) = (true, s))
    (range' : SectorRange minSector' maxSector') (success' : AllSucceeds env' maxSector')
    (size' : headerBuffer'.length = headerSize)
    (run' : isoToSvod env' (IsoIo.initial minSector' maxSector' isoPos' headerBuffer') = (true, s'))
    (root : firstFragmentHash s = firstFragmentHash s') :
    (∀ num, s.disk num = s'.disk num) ∨
      (∃ left right, HashedBlock s s' left ∧ HashedBlock s s' right ∧ left ≠ right ∧
        env.sha left = env.sha right) ∨
      ∃ block, HashedBlock s s' block ∧ env.sha block = Digest.zero := by
  have converted := iso_to_svod_converted range success run
  have converted' := iso_to_svod_converted range' success' run'
  have inputs := converted_inputs converted { block | HashedBlock s s' block }
    (fun block member length => ⟨Or.inl member, length⟩)
  have inputs' := converted_inputs converted' { block | HashedBlock s s' block }
    (fun block member length => ⟨Or.inr member, length⟩)
  have first := converted_first_fragment size converted
  have first' := converted_first_fragment size' converted'
  have disk' := converted'.disk
  rw [digest] at inputs' first' disk'
  have roots := Digest.bytes_injective (first.symm.trans (root.trans first'))
  rcases binding_or_broken env.sha Digest.zero { block | HashedBlock s s' block } with
    binding | collision | absent
  · left
    have files := payload_binding binding inputs.1 inputs'.1 inputs.2 inputs'.2 roots
    intro num
    rw [converted.disk, disk', Payload.dataFile, Payload.dataFile, files]
  · right
    left
    obtain ⟨left, leftIn, right, rightIn, different, same⟩ := collision
    exact ⟨left, right, leftIn, rightIn, different, same⟩
  · right
    right
    obtain ⟨block, member, zero⟩ := absent
    exact ⟨block, member, zero⟩

/-- Images that differ only past the range have one root. -/
theorem blank_discs_same_root : ∃ s s',
    isoToSvod (blankDisc 82824) (IsoIo.initial 0 82824 0 (zeros headerSize)) = (true, s) ∧
      isoToSvod (blankDisc 90000) (IsoIo.initial 0 82824 7 (zeros headerSize)) = (true, s') ∧
      firstFragmentHash s = firstFragmentHash s' ∧
      ((∀ num, s.disk num = s'.disk num) ∨
        (∃ left right, HashedBlock s s' left ∧ HashedBlock s s' right ∧ left ≠ right ∧
          leadingBytes left = leadingBytes right) ∨
        ∃ block, HashedBlock s s' block ∧ leadingBytes block = Digest.zero) := by
  have range : SectorRange 0 82824 := ⟨by decide, by decide, by decide⟩
  have success : AllSucceeds (blankDisc 82824) 82824 :=
    blank_disc_succeeds (by decide) (by decide)
  have success' : AllSucceeds (blankDisc 90000) 82824 :=
    blank_disc_succeeds (by decide) (by decide)
  have several := (several_files_iff range success).mpr (by decide)
  have several' := (several_files_iff range success').mpr (by decide)
  obtain ⟨s, run, converted⟩ := iso_to_svod_run 0 (zeros headerSize) range success several
  obtain ⟨s', run', converted'⟩ := iso_to_svod_run 7 (zeros headerSize) range success' several'
  have bytes : (payloadOf range success).bytes = (payloadOf range success').bytes := by
    change isoPayload (blankDisc 82824) 0 82824 = isoPayload (blankDisc 90000) 0 82824
    rw [blank_disc_payload range success, blank_disc_payload range success']
  have files : (payloadOf range success).files = (payloadOf range success').files := by
    rw [Payload.files, Payload.files, Payload.segments, Payload.segments, bytes]
  have root : firstFragmentHash s = firstFragmentHash s' := by
    rw [converted_first_fragment (zeros_length _) converted,
      converted_first_fragment (zeros_length _) converted']
    change (Payload.nextDigest leadingBytes _).bytes = (Payload.nextDigest leadingBytes _).bytes
    rw [files]
  have digest : (blankDisc 90000).sha = (blankDisc 82824).sha := rfl
  exact ⟨s, s', run, run', root, same_root_same_files digest range success (zeros_length _) run
    range success' (zeros_length _) run' root⟩

end Runs

end XeBuild.Iso2svod
