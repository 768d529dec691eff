import XeBuild.Iso2svod.ConversionResult
import XeBuild.Lib.Runs

/-!
# The copy loop inside its buffers

Whatever calls fail. The invariant at the head of the loop bounds the offset and
the block number and keeps the sizes of the static buffers; the file that is open
is the current one as long as sectors are left. The ends of the range need not be
even.
-/

namespace XeBuild.Iso2svod

open ListRange Runs

set_option autoImplicit false

/-! ## One pass -/

def blockFileSize (sectorsHashed : Nat) : Nat := u32 (sectorsHashed * 0x1000 + 0x1000)

/-- What a pass reads, hashes and writes lies in the arrays. -/
structure PassInside (l : BodyLoop) : Prop where
  filled : l.curOff + dataToRead l ≤ SVOD_MAX_DATA_BLOCK_SIZE
  reads : 1 ≤ sectorsToRead l
  left : sectorsToRead l ≤ l.sectorsRem
  hashes : sectorsToHash l ≤ 0xCC
  entry : l.curBlock < SVOD_MAX_DATA_BLOCK_COUNT
  written : blockFileSize (sectorsToHash l) ≤ 0xCD000

structure StaticsSized (s : IsoIo) : Prop where
  level1 : s.lv1hash.length = 0x1000
  level0 : s.level0HashBlock.length = 0x1000
  blocks : s.dataBlocks.length = SVOD_MAX_DATA_BLOCK_SIZE

structure HeadBounds (l : BodyLoop) (s : IsoIo) : Prop where
  offset : l.curOff = 0 ∨ l.curOff = 0x1000
  entry : l.curBlock < SVOD_MAX_DATA_BLOCK_COUNT
  sized : StaticsSized s
  handle : l.curFile.num = l.curFileNum
  opened : s.openFiles = if l.sectorsRem = 0 then [] else [l.curFileNum]

section Counts

variable {l : BodyLoop}

theorem data_to_read_bounds (offset : l.curOff = 0 ∨ l.curOff = 0x1000) :
    l.curOff + dataToRead l ≤ SVOD_MAX_DATA_BLOCK_SIZE := by
  by_cases full : (SVOD_MAX_DATA_BLOCK_SIZE - l.curOff) / XGD_SECTOR_SIZE ≤ l.sectorsRem
  · rw [dataToRead, if_pos full]
    have small := l.firstOff
    simp only [SVOD_MAX_DATA_BLOCK_SIZE]
    omega
  · rw [dataToRead, if_neg full]
    simp only [SVOD_MAX_DATA_BLOCK_SIZE, XGD_SECTOR_SIZE, u32] at full ⊢
    rcases offset with off | off <;> rw [off] at full ⊢ <;> omega

theorem sectors_to_hash_le (offset : l.curOff = 0 ∨ l.curOff = 0x1000) :
    sectorsToHash l ≤ 0xCC := by
  have filled := data_to_read_bounds offset
  rw [sectorsToHash, sectorsToRead]
  simp only [SVOD_MAX_DATA_BLOCK_SIZE, XGD_SECTOR_SIZE] at filled ⊢
  rcases offset with off | off
  · rw [off] at filled
    rw [if_neg (fun other => other off)]
    omega
  · rw [off] at filled ⊢
    rw [if_pos (by decide)]
    omega

theorem head_pass_inside {s : IsoIo} (head : HeadBounds l s) (more : l.sectorsRem ≠ 0) :
    PassInside l := by
  have bounds := sectors_to_read_bounds l more
  have hashes := sectors_to_hash_le head.offset
  refine ⟨data_to_read_bounds head.offset, bounds.1, bounds.2, hashes, head.entry, ?_⟩
  rw [blockFileSize, u32]
  omega

end Counts

/-! ## What a pass keeps -/

section Keep

variable {env : Env} {l l' : BodyLoop} {s s' : IsoIo}

theorem block_hashes_sized {num : Nat} (few : num ≤ 0xCC) (sized : StaticsSized s) :
    StaticsSized (doBlockHashes env num s) ∧ (doBlockHashes env num s).openFiles = s.openFiles := by
  induction num with
  | zero => exact ⟨sized, rfl⟩
  | succ num ih =>
      rcases ih (by omega) with ⟨before, files⟩
      refine ⟨⟨before.level1, ?_, before.blocks⟩, files⟩
      rw [doBlockHashes, hashBlock, patch_length]
      · exact before.level0
      · rw [before.level0, Digest.size, XECRYPT_SHA_DIGEST_SIZE]
        omega

theorem level1_hash_sized {num : Nat} (entry : num < SVOD_MAX_DATA_BLOCK_COUNT)
    (sized : StaticsSized s) : StaticsSized (doLevel1Hash env num s) := by
  refine ⟨?_, sized.level0, sized.blocks⟩
  rw [SVOD_MAX_DATA_BLOCK_COUNT] at entry
  rw [doLevel1Hash, patch_length]
  · exact sized.level1
  · rw [sized.level1, Digest.size, XECRYPT_SHA_DIGEST_SIZE]
    omega

theorem store_segment_keeps (inside : PassInside l) (sized : StaticsSized s) :
    (storeSegment env l s).1.num = l.curFile.num ∧ StaticsSized (storeSegment env l s).2 ∧
      (storeSegment env l s).2.openFiles = s.openFiles := by
  rcases @block_hashes_sized env _ _ inside.hashes sized with ⟨hashed, files⟩
  have level1 := @level1_hash_sized env _ _ inside.entry hashed
  exact ⟨rfl, ⟨level1.level1, zeros_length _, zeros_length _⟩, files⟩

theorem filled_sized {offset : Nat} {got : Bytes} (sized : StaticsSized s)
    (inside : offset + got.length ≤ SVOD_MAX_DATA_BLOCK_SIZE) :
    StaticsSized { s with dataBlocks := patch s.dataBlocks offset got } := by
  refine ⟨sized.level1, sized.level0, ?_⟩
  rw [patch_length (by rw [sized.blocks]; exact inside)]
  exact sized.blocks

theorem pass_stored (inside : PassInside l) (sized : StaticsSized s)
    (pass : bodyPass env l s = .next l' s') :
    ∃ fptr stored, endSegment env l fptr stored = .next l' s' ∧ fptr.num = l.curFile.num ∧
      StaticsSized stored ∧ stored.openFiles = s.openFiles := by
  rcases pass_next_read pass with ⟨succeeds, inImage⟩
  rw [bodyPass, read_succeeds succeeds inImage] at pass
  have got : (slice env.isoData s.isoPos (dataToRead l)).length ≤ dataToRead l := by
    rw [slice_length]
    exact Nat.min_le_left _ _
  have filled := inside.filled
  have loaded := @filled_sized
    { s.log (.readSegment l.curFileNum l.curBlock) true with isoPos := s.isoPos + dataToRead l }
    l.curOff (slice env.isoData s.isoPos (dataToRead l))
    ⟨sized.level1, sized.level0, sized.blocks⟩ (by omega)
  rcases @store_segment_keeps env l _ inside loaded with ⟨handle, kept, files⟩
  exact ⟨_, _, pass, handle, kept, files⟩

theorem started_keeps {num : Nat} {fptr : DataFile} (sized : StaticsSized s)
    (start : startNewFile env num s = (some fptr, s')) :
    StaticsSized s' ∧ fptr.num = num ∧ s'.openFiles = num :: s.openFiles := by
  rcases start_opened start with ⟨opened, dummy⟩
  rw [start_succeeds opened dummy] at start
  cases start
  exact ⟨⟨zeros_length _, sized.level0, sized.blocks⟩, rfl, rfl⟩

def headerClosed (env : Env) (num : Nat) (fptr : DataFile) (s : IsoIo) : IsoIo :=
  let written := writeHeaderToFile env (.writeHeader num) fptr s
  fclose written.2.1 written.2.2

theorem header_closed_keeps {num : Nat} {fptr : DataFile} (sized : StaticsSized s) :
    StaticsSized (headerClosed env num fptr s) ∧
      (headerClosed env num fptr s).openFiles = s.openFiles.erase fptr.num :=
  ⟨⟨sized.level1, sized.level0, sized.blocks⟩, rfl⟩

/-- The three ends of a pass: inside a file, behind the last sector, and at the end of
a file with sectors left. -/
theorem end_segment_cases {fptr : DataFile} (ended : endSegment env l fptr s = .next l' s') :
    l'.curOff = 0 ∧
      ((l'.curBlock = l.curBlock + 1 ∧ l'.curBlock ≠ SVOD_MAX_DATA_BLOCK_COUNT ∧
          l'.sectorsRem ≠ 0 ∧ l'.curFileNum = l.curFileNum ∧ l'.curFile = fptr ∧ s' = s) ∨
        (l'.curBlock = 0 ∧ l'.sectorsRem = 0 ∧ l'.curFileNum = l.curFileNum ∧
          l'.curFile.num = fptr.num ∧ s' = headerClosed env l.curFileNum fptr s) ∨
        (l'.curBlock = 0 ∧ l'.sectorsRem ≠ 0 ∧ l'.curFileNum = l.curFileNum + 1 ∧
          startNewFile env (l.curFileNum + 1) (headerClosed env l.curFileNum fptr s) =
            (some l'.curFile, s'))) := by
  simp only [endSegment] at ended
  split at ended
  · split at ended
    · next more =>
        split at ended
        · cases ended
        · next start =>
            cases ended
            exact ⟨rfl, .inr (.inr ⟨rfl, more, rfl, start⟩)⟩
    · next done =>
        cases ended
        exact ⟨rfl, .inr (.inl ⟨rfl, not_not.mp done, rfl, rfl, rfl⟩)⟩
  · next inner =>
      cases ended
      rcases not_or.mp inner with ⟨notFull, more⟩
      exact ⟨rfl, .inl ⟨rfl, notFull, more, rfl, rfl, rfl⟩⟩

/-- At a segment that closes its file nothing is open until the next file is. -/
theorem head_bounds_step (head : HeadBounds l s) (more : l.sectorsRem ≠ 0)
    (pass : bodyPass env l s = .next l' s') : HeadBounds l' s' := by
  have inside := head_pass_inside head more
  rcases pass_stored inside head.sized pass with ⟨fptr, stored, ended, handle, sized, files⟩
  rcases @header_closed_keeps env stored l.curFileNum fptr sized with ⟨kept, closed⟩
  have current : fptr.num = l.curFileNum := handle.trans head.handle
  have onlyFile : stored.openFiles = [l.curFileNum] := by
    rw [files, head.opened, if_neg more]
  rw [onlyFile, current, List.erase_cons_head] at closed
  rcases end_segment_cases ended with ⟨offset, inner | last | next⟩
  · rcases inner with ⟨block, notFull, some, file, same, rfl⟩
    have below := inside.entry
    refine ⟨.inl offset, by omega, sized, ?_, ?_⟩
    · rw [same, file, current]
    · rw [onlyFile, if_neg some, file]
  · rcases last with ⟨block, none, file, same, rfl⟩
    refine ⟨.inl offset, by rw [block]; decide, kept, ?_, ?_⟩
    · rw [same, file, current]
    · rw [closed, if_pos none]
  · rcases next with ⟨block, some, file, start⟩
    rcases started_keeps kept start with ⟨sized', current', opened'⟩
    refine ⟨.inl offset, by rw [block]; decide, sized', ?_, ?_⟩
    · rw [current', file]
    · rw [opened', closed, if_neg some, file]

end Keep

/-! ## The whole loop -/

/-- One iteration of `while (sectorsRem)`; none behind the last sector, and none when
the function returns out of the loop. -/
def loopStep (env : Env) (at_ : BodyLoop × IsoIo) : Option (BodyLoop × IsoIo) :=
  if at_.1.sectorsRem = 0 then none
  else
    match bodyPass env at_.1 at_.2 with
    | .failed _ => none
    | .next l s => some (l, s)

def ReturnsFrom (env : Env) (l : BodyLoop) (s : IsoIo) (result : Nat × IsoIo) : Prop :=
  (l.sectorsRem = 0 ∧ result = (l.curFileNum, s)) ∨
    (l.sectorsRem ≠ 0 ∧ ∃ failed, bodyPass env l s = .failed failed ∧ result = (0, failed))

section Loop

variable {env : Env} {first last : BodyLoop × IsoIo} {count : Nat}

theorem loop_step_some (moved : loopStep env first = some last) :
    first.1.sectorsRem ≠ 0 ∧ bodyPass env first.1 first.2 = .next last.1 last.2 := by
  rw [loopStep] at moved
  split at moved
  · cases moved
  · next more =>
      cases pass : bodyPass env first.1 first.2 with
      | failed s =>
          rw [pass] at moved
          cases moved
      | next l s =>
          rw [pass] at moved
          cases moved
          exact ⟨more, rfl⟩

theorem loop_step_none (stopped : loopStep env last = none) :
    ReturnsFrom env last.1 last.2 (bodyLoop env last.1 last.2) := by
  rw [loopStep] at stopped
  split at stopped
  · next done => exact .inl ⟨done, body_loop_done done⟩
  · next more =>
      cases pass : bodyPass env last.1 last.2 with
      | failed s => exact .inr ⟨more, s, pass, body_loop_failed more pass⟩
      | next l s =>
          rw [pass] at stopped
          cases stopped

theorem walk_body_loop (walk : Walks (loopStep env) count first last) :
    bodyLoop env first.1 first.2 = bodyLoop env last.1 last.2 := by
  induction walk with
  | start _ => rfl
  | step _ moved ih =>
      rcases loop_step_some moved with ⟨more, pass⟩
      rw [ih, body_loop_next more pass]

theorem walk_head_bounds (walk : Walks (loopStep env) count first last)
    (head : HeadBounds first.1 first.2) : HeadBounds last.1 last.2 := by
  have keeps : ∀ {before after : BodyLoop × IsoIo}, HeadBounds before.1 before.2 →
      loopStep env before = some after → HeadBounds after.1 after.2 := by
    intro before after kept moved
    rcases loop_step_some moved with ⟨more, pass⟩
    exact head_bounds_step kept more pass
  exact @walks_keep _ _ _ _ _ (fun at_ => HeadBounds at_.1 at_.2) keeps walk head

theorem loop_ends (env : Env) (first : BodyLoop × IsoIo) :
    ∃ count ≤ first.1.sectorsRem, ∃ last, Walks (loopStep env) count first last ∧
      loopStep env last = none := by
  have lowers : ∀ {before after : BodyLoop × IsoIo}, loopStep env before = some after →
      after.1.sectorsRem < before.1.sectorsRem := by
    intro before after moved
    rcases loop_step_some moved with ⟨more, pass⟩
    exact body_pass_decreases more pass
  exact walks_end lowers first

end Loop

section Start

variable {env : Env} {minSector maxSector : UInt32} {isoPos : Nat} {headerBuffer : Bytes}
variable {fptr : DataFile} {started : IsoIo}

theorem read_length (env : Env) (call : IoCall) (len : Nat) (s : IsoIo) :
    (readIsoData env call len s).2.1.length ≤ len := by
  have sliced : (slice env.isoData s.isoPos len).length ≤ len := by
    rw [slice_length]
    exact Nat.min_le_left _ _
  rw [readIsoData]
  cases env.fails call with
  | none => exact sliced
  | some stop =>
      change ((slice env.isoData s.isoPos len).take _).length ≤ len
      rw [List.length_take]
      omega

theorem started_range {s : IsoIo} {num : Nat}
    (start : startNewFile env num s = (some fptr, started)) :
    started.minSector = s.minSector ∧ started.maxSector = s.maxSector := by
  rcases start_opened start with ⟨opened, dummy⟩
  rw [start_succeeds opened dummy] at start
  cases start
  exact ⟨rfl, rfl⟩

/-- The read of the volume descriptor, with any outcome, keeps the buffers. -/
theorem volume_read_sized (env : Env) (sized : StaticsSized started) :
    StaticsSized (volumeRead env started) := by
  have read := read_length env .readVolume 0x1000 (setIsoSector env SVOD_START_SECTOR started)
  have inside : 0 + (readIsoData env .readVolume 0x1000
      (setIsoSector env SVOD_START_SECTOR started)).2.1.length ≤ SVOD_MAX_DATA_BLOCK_SIZE := by
    rw [SVOD_MAX_DATA_BLOCK_SIZE]
    omega
  have filled := @filled_sized
    (readIsoData env .readVolume 0x1000 (setIsoSector env SVOD_START_SECTOR started)).2.2 0 _
    ⟨sized.level1, sized.level0, sized.blocks⟩ inside
  exact ⟨filled.level1, filled.level0, filled.blocks⟩

/-- The loop is entered with the volume descriptor in front of the first segment. -/
theorem first_head_bounds (ordered : minSector.toNat < maxSector.toNat)
    (start : startNewFile env 0 (IsoIo.initial minSector maxSector isoPos headerBuffer) =
      (some fptr, started)) :
    HeadBounds (firstLoop minSector maxSector fptr) (volumeRead env started) := by
  have initial : StaticsSized (IsoIo.initial minSector maxSector isoPos headerBuffer) :=
    ⟨zeros_length _, zeros_length _, zeros_length _⟩
  rcases started_keeps initial start with ⟨sized, current, opened⟩
  have rem : (firstLoop minSector maxSector fptr).sectorsRem =
      maxSector.toNat - minSector.toNat :=
    sub32_of_le ordered.le maxSector.toNat_lt
  refine ⟨.inr rfl, Nat.succ_pos _, volume_read_sized env sized, current, ?_⟩
  rw [rem, if_neg (by omega)]
  exact opened

/-- Wherever the copy loop comes, with whatever calls failing: a pass stays inside the
arrays and takes at least one and at most all of the sectors that are left, the static
buffers keep their sizes, and behind the last sector no file is open. The loop ends. -/
theorem copy_loop_stays_inside (ordered : minSector.toNat < maxSector.toNat)
    (start : startNewFile env 0 (IsoIo.initial minSector maxSector isoPos headerBuffer) =
      (some fptr, started)) :
    let first := (firstLoop minSector maxSector fptr, volumeRead env started)
    (∀ count l s, Walks (loopStep env) count first (l, s) →
      (l.sectorsRem ≠ 0 → PassInside l) ∧ StaticsSized s ∧
        (l.sectorsRem = 0 → s.openFiles = [])) ∧
    ∃ count ≤ maxSector.toNat - minSector.toNat, ∃ l s,
      Walks (loopStep env) count first (l, s) ∧
        ReturnsFrom env l s
          (writeIsoBody env (IsoIo.initial minSector maxSector isoPos headerBuffer)) := by
  intro first
  have head := first_head_bounds ordered start
  constructor
  · intro count l s walk
    have here := walk_head_bounds walk head
    refine ⟨head_pass_inside here, here.sized, ?_⟩
    intro done
    rw [here.opened, if_pos done]
  · rcases loop_ends env first with ⟨count, within, ⟨l, s⟩, walk, stopped⟩
    have difference : first.1.sectorsRem = maxSector.toNat - minSector.toNat :=
      sub32_of_le ordered.le maxSector.toNat_lt
    rw [difference] at within
    refine ⟨count, within, l, s, walk, ?_⟩
    rcases started_range start with ⟨minSame, maxSame⟩
    have looped : bodyLoop env first.1 first.2 = bodyLoop env l s := walk_body_loop walk
    rw [body_started start minSame maxSame]
    exact Eq.mpr (congrArg (ReturnsFrom env l s) looped) (loop_step_none stopped)

/-- A disc of 64 sectors. -/
theorem short_disc_loop_ends :
    let first := (firstLoop 2 64 ⟨0, 0x1000⟩,
      volumeRead (blankDisc 64) (fileStarted 0 (IsoIo.initial 2 64 0 (zeros headerSize))))
    (∀ count l s, Walks (loopStep (blankDisc 64)) count first (l, s) →
      (l.sectorsRem ≠ 0 → PassInside l) ∧ StaticsSized s ∧
        (l.sectorsRem = 0 → s.openFiles = [])) ∧
    ∃ count ≤ 62, ∃ l s, Walks (loopStep (blankDisc 64)) count first (l, s) ∧
      ReturnsFrom (blankDisc 64) l s
        (writeIsoBody (blankDisc 64) (IsoIo.initial 2 64 0 (zeros headerSize))) :=
  copy_loop_stays_inside (by decide) (start_succeeds rfl rfl _)

end Start

end XeBuild.Iso2svod
