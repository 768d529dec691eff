import XeBuild.Iso2svod.SegmentStore

/-!
# The copy loop builds the data files

The invariant at the head of the loop relates the loop variables, the static
buffers and the open file to two lists: the segments already in the open file,
and the payload bytes not stored yet. One pass moves one segment from the second
to the first; a full list of segments becomes a file.
-/

namespace XeBuild.Iso2svod

open ListRange ListChunks

set_option autoImplicit false

def openContents (sha : Sha) (stored : List Bytes) : Bytes := zeros 0x1000 ++ bodyBytes sha stored

/-- What holds when the loop test is evaluated, as long as no call failed.
`stored` are the segments in the open file, `rest` the payload from the first
byte in `datablock` on. -/
structure AtHead (env : Env) (l : BodyLoop) (s : IsoIo) (stored : List Bytes) (rest : Bytes) :
    Prop where
  block : l.curBlock = stored.length
  room : stored.length < segmentsPerFile
  handle : l.curFile = ⟨l.curFileNum, (openContents env.sha stored).length⟩
  contents : s.disk l.curFileNum = some (openContents env.sha stored)
  level1 : s.lv1hash = level1Table env.sha stored Digest.zero
  clear : s.level0HashBlock = zeros 0x1000
  offset : l.curOff = 0 ∨ l.curOff = 0x1000
  buffered : s.dataBlocks = rest.take l.curOff ++ zeros (SVOD_MAX_DATA_BLOCK_SIZE - l.curOff)
  remaining : l.curOff + l.sectorsRem * 0x800 = rest.length
  aligned : blockSize ∣ rest.length
  inImage : s.isoPos + l.sectorsRem * 0x800 ≤ env.isoData.length
  source : slice env.isoData s.isoPos (l.sectorsRem * 0x800) = rest.drop l.curOff
  word : l.sectorsRem < 0x100000000
  opened : s.openFiles = [l.curFileNum]

/-- The counts of one pass, from the bytes that are left in front of it. -/
theorem loop_counts {l : BodyLoop} {size : Nat} (more : l.sectorsRem ≠ 0)
    (offset : l.curOff = 0 ∨ l.curOff = 0x1000)
    (remaining : l.curOff + l.sectorsRem * 0x800 = size) (aligned : blockSize ∣ size)
    (word : l.sectorsRem < 0x100000000) :
    l.curOff + dataToRead l = min segmentSize size ∧
      sectorsToRead l * 0x800 = dataToRead l ∧
      sectorsToHash l = min segmentSize size / blockSize ∧
      (sub32 l.sectorsRem (sectorsToRead l)) + sectorsToRead l = l.sectorsRem := by
  obtain ⟨blocks, length⟩ := aligned
  have bounds := sectors_to_read_bounds l more
  have rem := sub32_of_le bounds.2 word
  rw [rem, sectorsToHash]
  simp only [blockSize] at length
  have small := l.firstOff
  have read : l.curOff + dataToRead l = min segmentSize size := by
    by_cases full : (SVOD_MAX_DATA_BLOCK_SIZE - l.curOff) / XGD_SECTOR_SIZE ≤ l.sectorsRem
    · rw [dataToRead, if_pos full]
      simp only [SVOD_MAX_DATA_BLOCK_SIZE, XGD_SECTOR_SIZE, segmentSize] at full ⊢
      rcases offset with off | off <;> rw [off] at full remaining ⊢ <;> omega
    · rw [dataToRead, if_neg full]
      simp only [SVOD_MAX_DATA_BLOCK_SIZE, XGD_SECTOR_SIZE, segmentSize, u32] at full ⊢
      rcases offset with off | off <;> rw [off] at full remaining ⊢ <;> omega
  have sectors : sectorsToRead l * 0x800 = dataToRead l := by
    simp only [sectorsToRead, XGD_SECTOR_SIZE, segmentSize] at read ⊢
    rcases offset with off | off <;> rw [off] at read remaining <;> omega
  refine ⟨read, sectors, ?_, by omega⟩
  simp only [XGD_SECTOR_SIZE, blockSize, segmentSize] at read ⊢
  rcases offset with off | off <;> rw [off] at read remaining ⊢
  · simp only [ne_eq, not_true_eq_false, if_false]
    omega
  · simp only [ne_eq, if_true, show ¬ (0x1000 : Nat) = 0 by decide, not_false_eq_true]
    omega

section Pass

variable {env : Env} {l : BodyLoop} {s : IsoIo} {stored : List Bytes} {rest : Bytes}

theorem head_segment (head : AtHead env l s stored rest) (more : l.sectorsRem ≠ 0) :
    IsSegment (rest.take segmentSize) := by
  obtain ⟨blocks, length⟩ := head.aligned
  have remaining := head.remaining
  refine ⟨?_, ?_, ?_⟩
  · rw [List.length_take, segmentSize]
    omega
  · rw [List.length_take]
    exact Nat.min_le_left _ _
  · rw [List.length_take, length]
    rcases Nat.le_total segmentSize (blockSize * blocks) with le | ge
    · rw [Nat.min_eq_left le]
      decide
    · rw [Nat.min_eq_right ge]
      exact Nat.dvd_mul_right _ _

theorem pass_counts (head : AtHead env l s stored rest) (more : l.sectorsRem ≠ 0) :
    l.curOff + dataToRead l = (rest.take segmentSize).length ∧
      sectorsToRead l * 0x800 = dataToRead l ∧
      sectorsToHash l = (rest.take segmentSize).length / blockSize ∧
      (sub32 l.sectorsRem (sectorsToRead l)) + sectorsToRead l = l.sectorsRem := by
  rw [List.length_take]
  exact loop_counts more head.offset head.remaining head.aligned head.word

def segmentLoaded (env : Env) (l : BodyLoop) (s : IsoIo) : IsoIo :=
  { s with
    isoPos := s.isoPos + dataToRead l
    dataBlocks := patch s.dataBlocks l.curOff (slice env.isoData s.isoPos (dataToRead l))
    calls := (.readSegment l.curFileNum l.curBlock, true) :: s.calls }

/-- What the read of a pass brings is the payload behind what is buffered. -/
theorem pass_read (head : AtHead env l s stored rest) (more : l.sectorsRem ≠ 0) :
    slice env.isoData s.isoPos (dataToRead l) = slice rest l.curOff (dataToRead l) := by
  obtain ⟨_, sectors, _, _⟩ := pass_counts head more
  have bounds := sectors_to_read_bounds l more
  have short : dataToRead l ≤ l.sectorsRem * 0x800 := by omega
  have whole := slice_of_take (env.isoData.drop s.isoPos) (l.sectorsRem * 0x800) 0 (dataToRead l)
    (by omega)
  rw [slice_of_drop, Nat.add_zero] at whole
  rw [← whole]
  change slice (slice env.isoData s.isoPos (l.sectorsRem * 0x800)) 0 (dataToRead l) = _
  rw [head.source, slice_of_drop, Nat.add_zero]

theorem pass_segment (head : AtHead env l s stored rest) (more : l.sectorsRem ≠ 0) :
    rest.take l.curOff ++ slice rest l.curOff (dataToRead l) = rest.take segmentSize := by
  have consecutive := slice_append_slice rest 0 l.curOff (dataToRead l)
  rw [Nat.zero_add, (pass_counts head more).1] at consecutive
  calc rest.take l.curOff ++ slice rest l.curOff (dataToRead l)
      = slice rest 0 (rest.take segmentSize).length := consecutive
    _ = rest.take segmentSize := by
      rw [slice, List.drop_zero, List.length_take, List.take_eq_take_min, Nat.min_assoc,
        Nat.min_self, ← List.take_eq_take_min]

theorem loaded_segment (head : AtHead env l s stored rest) (more : l.sectorsRem ≠ 0) :
    (segmentLoaded env l s).dataBlocks.take (rest.take segmentSize).length =
      rest.take segmentSize := by
  obtain ⟨read, _, _, _⟩ := pass_counts head more
  have front : (rest.take l.curOff).length = l.curOff := by
    have remaining := head.remaining
    rw [List.length_take]
    omega
  have length : (slice rest l.curOff (dataToRead l)).length = dataToRead l := by
    apply slice_length_of_le
    rw [read, List.length_take]
    exact Nat.min_le_right _ _
  have fits : l.curOff + dataToRead l ≤ SVOD_MAX_DATA_BLOCK_SIZE := by
    rw [read, List.length_take]
    exact Nat.min_le_left _ _
  have split : zeros (SVOD_MAX_DATA_BLOCK_SIZE - l.curOff) = zeros (dataToRead l) ++
      zeros (SVOD_MAX_DATA_BLOCK_SIZE - l.curOff - dataToRead l) := by
    rw [zeros_append]
    congr 1
    omega
  have filled : (segmentLoaded env l s).dataBlocks = rest.take segmentSize ++
      zeros (SVOD_MAX_DATA_BLOCK_SIZE - l.curOff - dataToRead l) := by
    have middle := patch_middle (rest.take l.curOff) (zeros (dataToRead l))
      (zeros (SVOD_MAX_DATA_BLOCK_SIZE - l.curOff - dataToRead l))
      (slice rest l.curOff (dataToRead l)) (by rw [length, zeros_length])
    rw [front] at middle
    rw [segmentLoaded, pass_read head more, head.buffered, split, middle, ← List.append_assoc,
      pass_segment head more]
  rw [filled, List.take_left]

theorem open_contents_snoc (sha : Sha) (stored : List Bytes) (segment : Bytes) :
    openContents sha (stored ++ [segment]) =
      openContents sha stored ++ segmentBytes sha segment := by
  simp [openContents, bodyBytes]

/-- The state when a pass has stored its segment, before the test for the end
of the file. -/
def segmentPassed (env : Env) (l : BodyLoop) (stored : List Bytes) (segment : Bytes) (s : IsoIo) :
    IsoIo :=
  { s with
    isoPos := s.isoPos + dataToRead l
    lv1hash := level1Table env.sha (stored ++ [segment]) Digest.zero
    level0HashBlock := zeros 0x1000
    dataBlocks := zeros SVOD_MAX_DATA_BLOCK_SIZE
    disk := Function.update s.disk l.curFileNum (some (openContents env.sha (stored ++ [segment])))
    calls := (.writeBlock l.curFileNum l.curBlock, true) ::
      (.readSegment l.curFileNum l.curBlock, true) :: s.calls
    hashed := level0Table env.sha segment :: ((chunks blockSize segment).reverse ++ s.hashed) }

theorem pass_stores (clean : ∀ call, env.fails call = none) (head : AtHead env l s stored rest)
    (more : l.sectorsRem ≠ 0) :
    bodyPass env l s =
      endSegment env l
        ⟨l.curFileNum, (openContents env.sha (stored ++ [rest.take segmentSize])).length⟩
        (segmentPassed env l stored (rest.take segmentSize) s) := by
  obtain ⟨_, sectors, blocks, _⟩ := pass_counts head more
  have bounds := sectors_to_read_bounds l more
  have valid := head_segment head more
  have inImage : s.isoPos + dataToRead l ≤ env.isoData.length := by
    have fits := head.inImage
    omega
  have stores := store_segment_succeeds (clean _) valid
    (show (segmentLoaded env l s).level0HashBlock = _ from head.clear)
    (loaded_segment head more) blocks
  have table : segmentStored env l (rest.take segmentSize) (segmentLoaded env l s) =
      segmentPassed env l stored (rest.take segmentSize) s := by
    simp only [segmentStored, segmentLoaded, segmentPassed, head.handle, head.contents,
      Option.getD_some, patch_at_end, open_contents_snoc, head.level1, head.block,
      level1_table_snoc env.sha head.room]
  rw [table, head.handle, ← List.length_append, ← open_contents_snoc] at stores
  rw [bodyPass, read_succeeds (clean _) inImage]
  exact congrArg (fun stored => endSegment env l stored.1 stored.2) stores

theorem header_rewritten (sha : Sha) {segments : List Bytes}
    (fits : segments.length ≤ segmentsPerFile) :
    patch (openContents sha segments) 0 (level1Table sha segments Digest.zero) =
      fileBytes sha segments Digest.zero := by
  rw [openContents, patch_front _ _ _ (by rw [level1_table_length sha fits, zeros_length]),
    fileBytes]

end Pass

/-! ## One pass, by what it leaves to do -/

/-- What every part of a run without failures leaves alone or only extends. -/
structure Progress (s s' : IsoIo) : Prop where
  minSector : s'.minSector = s.minSector
  maxSector : s'.maxSector = s.maxSector
  headerBuffer : s'.headerBuffer = s.headerBuffer
  hashed : ∀ block ∈ s.hashed, block ∈ s'.hashed
  succeeded : ∀ entry ∈ s'.calls, entry ∈ s.calls ∨ entry.2 = true

theorem Progress.refl (s : IsoIo) : Progress s s :=
  ⟨rfl, rfl, rfl, fun _ member => member, fun _ member => Or.inl member⟩

theorem Progress.trans {first second third : IsoIo} (left : Progress first second)
    (right : Progress second third) : Progress first third := by
  refine ⟨right.minSector.trans left.minSector, right.maxSector.trans left.maxSector,
    right.headerBuffer.trans left.headerBuffer, ?_, ?_⟩
  · intro block member
    exact right.hashed block (left.hashed block member)
  · intro entry member
    rcases right.succeeded entry member with earlier | success
    · exact left.succeeded entry earlier
    · exact Or.inr success

def SegmentHashed (sha : Sha) (segment : Bytes) (s : IsoIo) : Prop :=
  level0Table sha segment ∈ s.hashed ∧ ∀ block ∈ chunks blockSize segment, block ∈ s.hashed

theorem SegmentHashed.mono {sha : Sha} {segment : Bytes} {s s' : IsoIo}
    (hashed : SegmentHashed sha segment s) (progress : Progress s s') :
    SegmentHashed sha segment s' :=
  ⟨progress.hashed _ hashed.1, fun block member => progress.hashed block (hashed.2 block member)⟩

section Step

variable {env : Env} {l : BodyLoop} {s : IsoIo} {stored : List Bytes} {rest : Bytes}

theorem segment_passed_progress (env : Env) (l : BodyLoop) (stored : List Bytes) (segment : Bytes)
    (s : IsoIo) : Progress s (segmentPassed env l stored segment s) := by
  refine ⟨rfl, rfl, rfl, ?_, ?_⟩
  · intro block member
    simp [segmentPassed, member]
  · intro entry member
    simp only [segmentPassed, List.mem_cons] at member
    rcases member with rfl | rfl | earlier
    · exact Or.inr rfl
    · exact Or.inr rfl
    · exact Or.inl earlier

theorem segment_passed_hashed (env : Env) (l : BodyLoop) (stored : List Bytes) (segment : Bytes)
    (s : IsoIo) : SegmentHashed env.sha segment (segmentPassed env l stored segment s) := by
  refine ⟨by simp [segmentPassed], ?_⟩
  intro block member
  simp [segmentPassed, member]

def fileClosed (env : Env) (l : BodyLoop) (segments : List Bytes) (s : IsoIo) : IsoIo :=
  { s with
    disk := Function.update s.disk l.curFileNum (some (fileBytes env.sha segments Digest.zero))
    openFiles := s.openFiles.erase l.curFileNum
    calls := (.writeHeader l.curFileNum, true) :: s.calls }

theorem close_file (clean : ∀ call, env.fails call = none) (head : AtHead env l s stored rest) :
    let segment := rest.take segmentSize
    let written := writeHeaderToFile env (.writeHeader l.curFileNum)
      ⟨l.curFileNum, (openContents env.sha (stored ++ [segment])).length⟩
      (segmentPassed env l stored segment s)
    fclose written.2.1 written.2.2 =
      fileClosed env l (stored ++ [segment]) (segmentPassed env l stored segment s) := by
  have fits : (stored ++ [rest.take segmentSize]).length ≤ segmentsPerFile := by
    have room := head.room
    rw [List.length_append, List.length_singleton]
    omega
  have front := header_rewritten env.sha fits
  simp only [writeHeaderToFile, fwrite_succeeds (clean _), fclose, fileClosed, segmentPassed,
    IsoIo.log, Function.update_self, Option.getD_some, front]

theorem file_closed_progress (env : Env) (l : BodyLoop) (segments : List Bytes) (s : IsoIo) :
    Progress s (fileClosed env l segments s) := by
  refine ⟨rfl, rfl, rfl, fun block member => member, ?_⟩
  intro entry member
  simp only [fileClosed, List.mem_cons] at member
  rcases member with rfl | earlier
  · exact Or.inr rfl
  · exact Or.inl earlier

theorem file_started_progress (num : Nat) (s : IsoIo) : Progress s (fileStarted num s) := by
  refine ⟨rfl, rfl, rfl, fun block member => member, ?_⟩
  intro entry member
  simp only [fileStarted, List.mem_cons] at member
  rcases member with rfl | rfl | earlier
  · exact Or.inr rfl
  · exact Or.inr rfl
  · exact Or.inl earlier

theorem drop_taken (rest : Bytes) :
    rest.drop (rest.take segmentSize).length = rest.drop segmentSize := by
  rw [List.length_take]
  rcases Nat.le_total segmentSize rest.length with le | ge
  · rw [Nat.min_eq_left le]
  · rw [Nat.min_eq_right ge, List.drop_length, List.drop_eq_nil_of_le ge]

/-- The sectors that remain after a pass are the payload that remains. -/
theorem pass_remaining (head : AtHead env l s stored rest) (more : l.sectorsRem ≠ 0) :
    sub32 l.sectorsRem (sectorsToRead l) * 0x800 = (rest.drop segmentSize).length := by
  obtain ⟨read, sectors, _, rem⟩ := pass_counts head more
  have remaining := head.remaining
  rw [← drop_taken, List.length_drop, ← read, ← remaining, ← sectors]
  generalize sub32 l.sectorsRem (sectorsToRead l) = after at rem ⊢
  rw [← rem, Nat.add_mul, Nat.add_comm (after * 0x800), ← Nat.add_assoc, Nat.add_sub_cancel_left]

theorem pass_source (head : AtHead env l s stored rest) (more : l.sectorsRem ≠ 0) :
    s.isoPos + dataToRead l + sub32 l.sectorsRem (sectorsToRead l) * 0x800 ≤ env.isoData.length ∧
      slice env.isoData (s.isoPos + dataToRead l) (sub32 l.sectorsRem (sectorsToRead l) * 0x800) =
        rest.drop segmentSize := by
  obtain ⟨read, sectors, _, rem⟩ := pass_counts head more
  have inImage := head.inImage
  refine ⟨by omega, ?_⟩
  have inner := slice_slice env.isoData s.isoPos (l.sectorsRem * 0x800) (dataToRead l)
    (sub32 l.sectorsRem (sectorsToRead l) * 0x800) (by omega)
  rw [← inner, head.source, slice_of_drop, read, slice, drop_taken,
    List.take_of_length_le (by rw [pass_remaining head more])]

/-- A pass that leaves neither the open file full nor the payload done. -/
theorem pass_continues (clean : ∀ call, env.fails call = none) (head : AtHead env l s stored rest)
    (more : l.sectorsRem ≠ 0) (left : rest.drop segmentSize ≠ [])
    (room : stored.length + 1 < segmentsPerFile) :
    ∃ l', bodyPass env l s =
        .next l' (segmentPassed env l stored (rest.take segmentSize) s) ∧
      l'.curFileNum = l.curFileNum ∧ l'.sectorsRem ≠ 0 ∧
      AtHead env l' (segmentPassed env l stored (rest.take segmentSize) s)
        (stored ++ [rest.take segmentSize]) (rest.drop segmentSize) := by
  have remaining := pass_remaining head more
  obtain ⟨inImage, source⟩ := pass_source head more
  have positive := List.length_pos_of_ne_nil left
  have word := head.word
  have smaller := (pass_counts head more).2.2.2
  have some : sub32 l.sectorsRem (sectorsToRead l) ≠ 0 := by omega
  have notLast : ¬ (l.curBlock + 1 = SVOD_MAX_DATA_BLOCK_COUNT ∨
      sub32 l.sectorsRem (sectorsToRead l) = 0) := by
    rw [head.block]
    simp only [SVOD_MAX_DATA_BLOCK_COUNT, segmentsPerFile] at room ⊢
    omega
  refine ⟨⟨l.curFileNum, l.curBlock + 1, 0, sub32 l.sectorsRem (sectorsToRead l),
    ⟨l.curFileNum, (openContents env.sha (stored ++ [rest.take segmentSize])).length⟩,
    Nat.zero_le _⟩, ?_, rfl, some, ?_⟩
  · rw [pass_stores clean head more, endSegment, if_neg notLast]
  · refine ⟨?_, ?_, rfl, ?_, rfl, rfl, Or.inl rfl, ?_, ?_, ?_, inImage, source, ?_, head.opened⟩
    · rw [List.length_append, List.length_singleton, head.block]
    · rwa [List.length_append, List.length_singleton]
    · simp [segmentPassed]
    · simp [segmentPassed]
    · rw [Nat.zero_add, remaining]
    · rw [List.length_drop]
      exact Nat.dvd_sub head.aligned (by decide)
    · change sub32 l.sectorsRem (sectorsToRead l) < _
      omega

theorem pass_finishes (clean : ∀ call, env.fails call = none) (head : AtHead env l s stored rest)
    (more : l.sectorsRem ≠ 0) (done : rest.drop segmentSize = []) :
    ∃ l', bodyPass env l s =
        .next l' (fileClosed env l (stored ++ [rest.take segmentSize])
          (segmentPassed env l stored (rest.take segmentSize) s)) ∧
      l'.curFileNum = l.curFileNum ∧ l'.sectorsRem = 0 := by
  have remaining := pass_remaining head more
  rw [done, List.length_nil] at remaining
  have none : sub32 l.sectorsRem (sectorsToRead l) = 0 := by omega
  have closed := close_file clean head
  let written := writeHeaderToFile env (.writeHeader l.curFileNum)
    ⟨l.curFileNum, (openContents env.sha (stored ++ [rest.take segmentSize])).length⟩
    (segmentPassed env l stored (rest.take segmentSize) s)
  refine ⟨⟨l.curFileNum, 0, 0, 0, written.2.1, Nat.zero_le _⟩, ?_, rfl, rfl⟩
  rw [pass_stores clean head more, endSegment, if_pos (Or.inr none)]
  simp only [none, ne_eq, not_true_eq_false, if_false]
  rw [← closed]

/-- A pass that fills the open file while payload remains: the next file is
opened with a dummy table. -/
theorem pass_opens_next (clean : ∀ call, env.fails call = none)
    (head : AtHead env l s stored rest) (more : l.sectorsRem ≠ 0)
    (left : rest.drop segmentSize ≠ []) (full : stored.length + 1 = segmentsPerFile) :
    ∃ l' s', bodyPass env l s = .next l' s' ∧
      l'.curFileNum = l.curFileNum + 1 ∧ l'.sectorsRem ≠ 0 ∧
      AtHead env l' s' [] (rest.drop segmentSize) ∧
      s'.disk = Function.update (Function.update s.disk l.curFileNum
        (some (fileBytes env.sha (stored ++ [rest.take segmentSize]) Digest.zero)))
        (l.curFileNum + 1) (some (openContents env.sha [])) ∧
      Progress (segmentPassed env l stored (rest.take segmentSize) s) s' := by
  have remaining := pass_remaining head more
  obtain ⟨inImage, source⟩ := pass_source head more
  have positive := List.length_pos_of_ne_nil left
  have word := head.word
  have smaller := (pass_counts head more).2.2.2
  have some : sub32 l.sectorsRem (sectorsToRead l) ≠ 0 := by omega
  have last : l.curBlock + 1 = SVOD_MAX_DATA_BLOCK_COUNT := by
    rw [head.block]
    exact full
  have closed := close_file clean head
  have empty : openContents env.sha [] = zeros 0x1000 := by simp [openContents, bodyBytes]
  refine ⟨⟨l.curFileNum + 1, 0, 0, sub32 l.sectorsRem (sectorsToRead l),
    ⟨l.curFileNum + 1, 0x1000⟩, Nat.zero_le _⟩,
    fileStarted (l.curFileNum + 1) (fileClosed env l (stored ++ [rest.take segmentSize])
      (segmentPassed env l stored (rest.take segmentSize) s)), ?_, rfl, some, ?_, ?_, ?_⟩
  · rw [pass_stores clean head more, endSegment, if_pos (Or.inl last)]
    simp only [ne_eq, some, not_false_eq_true, if_true]
    rw [closed, start_succeeds (clean _) (clean _)]
  · refine ⟨rfl, by decide, ?_, ?_, ?_, rfl, Or.inl rfl, ?_, ?_, ?_, inImage, source, ?_, ?_⟩
    · simp [empty]
    · simp [fileStarted, empty]
    · exact empty_level1_table env.sha
    · simp [fileStarted, fileClosed, segmentPassed]
    · rw [Nat.zero_add, remaining]
    · rw [List.length_drop]
      exact Nat.dvd_sub head.aligned (by decide)
    · change sub32 l.sectorsRem (sectorsToRead l) < _
      omega
    · simp [fileStarted, fileClosed, segmentPassed, head.opened]
  · rw [empty]
    simp [fileStarted, fileClosed, segmentPassed, Function.update_idem]
  · have closing := file_closed_progress env l (stored ++ [rest.take segmentSize])
      (segmentPassed env l stored (rest.take segmentSize) s)
    exact closing.trans (file_started_progress _ _)

end Step

/-! ## The whole loop -/

/-- The files a loop writes from number `first` on, and the segments it hashes. -/
structure BodyDone (env : Env) (first : Nat) (files : List (List Bytes)) (segments : List Bytes)
    (s s' : IsoIo) : Prop where
  before : ∀ num < first, s'.disk num = s.disk num
  written : ∀ index, (present : index < files.length) →
    s'.disk (first + index) = some (fileBytes env.sha files[index] Digest.zero)
  after : ∀ num, first + files.length ≤ num → s'.disk num = s.disk num
  hashed : ∀ segment ∈ segments, SegmentHashed env.sha segment s'
  progress : Progress s s'
  closed : s'.openFiles = []
  level1 : s'.lv1hash.length = 0x1000

section Assemble

variable {env : Env} {l : BodyLoop} {s : IsoIo} {stored : List Bytes} {segment : Bytes}

/-- The last segment of the payload: the open file is the last file. -/
theorem body_done_last (opened : s.openFiles = [l.curFileNum])
    (fits : (stored ++ [segment]).length ≤ segmentsPerFile) :
    BodyDone env l.curFileNum [stored ++ [segment]] [segment] s
      (fileClosed env l (stored ++ [segment]) (segmentPassed env l stored segment s)) := by
  have passed := segment_passed_progress env l stored segment s
  have closing := file_closed_progress env l (stored ++ [segment])
    (segmentPassed env l stored segment s)
  refine ⟨?_, ?_, ?_, ?_, passed.trans closing, ?_, level1_table_length env.sha fits _⟩
  · intro num earlier
    simp [fileClosed, segmentPassed, Function.update_of_ne (Nat.ne_of_lt earlier)]
  · intro index present
    have only : index = 0 := by simpa using present
    subst only
    simp [fileClosed]
  · intro num later
    have other : num ≠ l.curFileNum := by
      rw [List.length_singleton] at later
      omega
    simp [fileClosed, segmentPassed, Function.update_of_ne other]
  · intro other member
    rw [List.mem_singleton] at member
    rw [member]
    exact (segment_passed_hashed env l stored segment s).mono closing
  · simp [fileClosed, segmentPassed, opened]

theorem segments_hashed_cons {s' s'' : IsoIo} {segments : List Bytes}
    (step : Progress (segmentPassed env l stored segment s) s') (tail : Progress s' s'')
    (others : ∀ other ∈ segments, SegmentHashed env.sha other s'') :
    ∀ other ∈ segment :: segments, SegmentHashed env.sha other s'' := by
  intro other member
  rcases List.mem_cons.mp member with rfl | later
  · exact ((segment_passed_hashed env l stored other s).mono step).mono tail
  · exact others other later

/-- A segment that fills the open file, before the files that follow. -/
theorem body_done_next_file {s' s'' : IsoIo} {files : List (List Bytes)} {segments : List Bytes}
    (disk : s'.disk = Function.update (Function.update s.disk l.curFileNum
      (some (fileBytes env.sha (stored ++ [segment]) Digest.zero)))
      (l.curFileNum + 1) (some (openContents env.sha [])))
    (step : Progress (segmentPassed env l stored segment s) s') (positive : 0 < files.length)
    (final : BodyDone env (l.curFileNum + 1) files segments s' s'') :
    BodyDone env l.curFileNum ((stored ++ [segment]) :: files) (segment :: segments) s s'' := by
  have passed := segment_passed_progress env l stored segment s
  refine ⟨?_, ?_, ?_, segments_hashed_cons step final.progress final.hashed,
    (passed.trans step).trans final.progress, final.closed, final.level1⟩
  · intro num earlier
    rw [final.before num (by omega), disk, Function.update_of_ne (by omega),
      Function.update_of_ne (by omega)]
  · intro index present
    cases index with
    | zero =>
        rw [Nat.add_zero, final.before _ (by omega), disk, Function.update_of_ne (by omega),
          Function.update_self]
        rfl
    | succ index =>
        have written := final.written index (by simpa using present)
        rw [show l.curFileNum + (index + 1) = l.curFileNum + 1 + index by omega, written]
        rfl
  · intro num later
    rw [List.length_cons] at later
    rw [final.after num (by omega), disk, Function.update_of_ne (by omega),
      Function.update_of_ne (by omega)]

theorem body_done_same_file {s'' : IsoIo} {files : List (List Bytes)} {segments : List Bytes}
    (positive : 0 < files.length)
    (final : BodyDone env l.curFileNum files segments (segmentPassed env l stored segment s) s'') :
    BodyDone env l.curFileNum files (segment :: segments) s s'' := by
  have passed := segment_passed_progress env l stored segment s
  refine ⟨?_, final.written, ?_,
    segments_hashed_cons (Progress.refl _) final.progress final.hashed,
    passed.trans final.progress, final.closed, final.level1⟩
  · intro num earlier
    rw [final.before num earlier]
    simp [segmentPassed, Function.update_of_ne (Nat.ne_of_lt earlier)]
  · intro num later
    have other : num ≠ l.curFileNum := by omega
    rw [final.after num later]
    simp [segmentPassed, Function.update_of_ne other]

end Assemble

section Files

variable {stored : List Bytes} {rest : Bytes}

theorem segments_cut (more : 0 < rest.length) : stored ++ chunks segmentSize rest =
    stored ++ [rest.take segmentSize] ++ chunks segmentSize (rest.drop segmentSize) := by
  rw [chunks_step (by decide) more, List.append_assoc, List.singleton_append]

theorem files_last (more : 0 < rest.length) (room : stored.length < segmentsPerFile)
    (done : rest.drop segmentSize = []) :
    chunks segmentsPerFile (stored ++ chunks segmentSize rest) =
      [stored ++ [rest.take segmentSize]] := by
  have count : (stored ++ [rest.take segmentSize]).length = stored.length + 1 := by
    rw [List.length_append, List.length_singleton]
  rw [segments_cut more, done, chunks_nil, List.append_nil]
  exact chunks_single (by omega) (by omega)

/-- The last segment of a file is followed by the files of the remaining payload. -/
theorem files_full (more : 0 < rest.length) (full : stored.length + 1 = segmentsPerFile) :
    chunks segmentsPerFile (stored ++ chunks segmentSize rest) =
      (stored ++ [rest.take segmentSize]) ::
        chunks segmentsPerFile (chunks segmentSize (rest.drop segmentSize)) := by
  have count : (stored ++ [rest.take segmentSize]).length = stored.length + 1 := by
    rw [List.length_append, List.length_singleton]
  rw [segments_cut more]
  exact chunks_full (by decide) (by omega) _

theorem files_positive (more : 0 < rest.length) :
    0 < (chunks segmentsPerFile (stored ++ chunks segmentSize rest)).length := by
  rw [lt_chunks_length (by decide), Nat.zero_mul, segments_cut more, List.length_append,
    List.length_append, List.length_singleton]
  omega

end Files

/-- From the head of the loop to its end: the segments of the open file and of
the remaining payload, cut into files, are on the disk. The induction is on the
payload that remains. -/
theorem copy_loop_run {env : Env} (clean : ∀ call, env.fails call = none) {l : BodyLoop}
    {s : IsoIo} {stored : List Bytes} {rest : Bytes} (head : AtHead env l s stored rest)
    (more : l.sectorsRem ≠ 0) :
    let files := chunks segmentsPerFile (stored ++ chunks segmentSize rest)
    ∃ s', bodyLoop env l s = (l.curFileNum + files.length - 1, s') ∧
      BodyDone env l.curFileNum files (chunks segmentSize rest) s s' := by
  induction length : rest.length using Nat.strong_induction_on generalizing l s stored rest with
  | _ size ih =>
  intro files
  have nonempty : 0 < rest.length := by
    have remaining := head.remaining
    omega
  have fewer : (rest.drop segmentSize).length < size := by
    rw [List.length_drop, segmentSize]
    omega
  have cut : chunks segmentSize rest =
      rest.take segmentSize :: chunks segmentSize (rest.drop segmentSize) :=
    chunks_step (by decide) nonempty
  have room := head.room
  by_cases done : rest.drop segmentSize = []
  · obtain ⟨l', pass, sameFile, ended⟩ := pass_finishes clean head more done
    have single : files = [stored ++ [rest.take segmentSize]] := files_last nonempty room done
    refine ⟨fileClosed env l (stored ++ [rest.take segmentSize])
      (segmentPassed env l stored (rest.take segmentSize) s), ?_, ?_⟩
    · rw [body_loop_next more pass, body_loop_done ended, sameFile, single, List.length_singleton,
        Nat.add_sub_cancel]
    · rw [single, cut, done, chunks_nil]
      apply body_done_last head.opened
      rw [List.length_append, List.length_singleton]
      exact room
  · have later := List.length_pos_of_ne_nil done
    by_cases full : stored.length + 1 = segmentsPerFile
    · obtain ⟨l', s', pass, nextFile, left, nextHead, disk, step⟩ :=
        pass_opens_next clean head more done full
      obtain ⟨s'', run, final⟩ := ih _ fewer nextHead left rfl
      have filesLeft : 0 < (chunks segmentsPerFile
          ([] ++ chunks segmentSize (rest.drop segmentSize))).length := files_positive later
      rw [List.nil_append] at run final filesLeft
      rw [nextFile] at run final
      have cons : files = (stored ++ [rest.take segmentSize]) ::
          chunks segmentsPerFile (chunks segmentSize (rest.drop segmentSize)) :=
        files_full nonempty full
      refine ⟨s'', ?_, ?_⟩
      · rw [body_loop_next more pass, run, cons, List.length_cons]
        congr 1
        omega
      · rw [cons, cut]
        exact body_done_next_file disk step filesLeft final
    · obtain ⟨l', pass, sameFile, left, nextHead⟩ :=
        pass_continues clean head more done (by omega)
      obtain ⟨s'', run, final⟩ := ih _ fewer nextHead left rfl
      rw [← segments_cut nonempty, sameFile] at run final
      refine ⟨s'', ?_, ?_⟩
      · rw [body_loop_next more pass, run]
      · have whole := body_done_same_file (files_positive nonempty) final
        rwa [← cut] at whole

end XeBuild.Iso2svod
