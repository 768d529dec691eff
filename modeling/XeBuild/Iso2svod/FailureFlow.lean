import XeBuild.Iso2svod.CopyLoop

/-!
# The copy loop under failing calls

Nothing is assumed here about which calls fail. The loop variables go through
the same values as in a run without failures for as long as the loop goes on,
so a pass can be named by the segment it serves. This fixes which calls a run
makes, which of them can end it, and which outcomes it leaves unread.
-/

namespace XeBuild.Iso2svod

open ListRange ListChunks

set_option autoImplicit false

def segmentCount (total : Nat) : Nat := (total + 0xCC - 1) / 0xCC

def fileCount (total : Nat) : Nat := (segmentCount total + 0xCB - 1) / 0xCB

theorem lt_segment_count (total index : Nat) :
    index < segmentCount total ↔ index * 0xCC < total := by
  rw [segmentCount]
  omega

theorem lt_file_count (total num : Nat) :
    num < fileCount total ↔ num * 0xCB < segmentCount total := by
  rw [fileCount]
  omega

/-- The loop variables in front of segment `index`. -/
structure LoopPlace (total index : Nat) (l : BodyLoop) : Prop where
  file : l.curFileNum = index / 0xCB
  block : l.curBlock = index % 0xCB
  sectors : l.curOff + l.sectorsRem * 0x800 + index * 0xCC000 = total * 0x1000
  offset : l.curOff = 0 ∨ l.curOff = 0x1000
  word : l.sectorsRem < 0x100000000
  more : l.sectorsRem ≠ 0

/-- The calls that can end the pass for segment `index`, apart from a read past
the end of the image. -/
structure PassOk (env : Env) (total index : Nat) : Prop where
  read : env.fails (.readSegment (index / 0xCB) (index % 0xCB)) = none
  opens : index + 1 < segmentCount total → (index + 1) % 0xCB = 0 →
    env.fails (.openData ((index + 1) / 0xCB)) = none ∧
      env.fails (.writeDummy ((index + 1) / 0xCB)) = none

def Logged (s s' : IsoIo) : Prop := ∀ entry ∈ s.calls, entry ∈ s'.calls

theorem Logged.trans {first second third : IsoIo} (left : Logged first second)
    (right : Logged second third) : Logged first third :=
  fun entry member => right entry (left entry member)

def LogsCall (env : Env) (call : IoCall) (s : IsoIo) : Prop :=
  (call, (env.fails call).isNone) ∈ s.calls

section Place

variable {total index : Nat} {l : BodyLoop}

/-- What is left after a pass, in bytes: nothing exactly at the last segment. -/
theorem left_after {off rem count bytes after : Nat}
    (read : off + bytes = min 0xCC000 (off + rem * 0x800)) (size : count * 0x800 = bytes)
    (spent : after + count = rem)
    (sectors : off + rem * 0x800 + index * 0xCC000 = total * 0x1000) :
    rem * 0x800 = bytes + after * 0x800 ∧ (after = 0 ↔ ¬ (index + 1) * 0xCC < total) ∧
      (after ≠ 0 → after * 0x800 + (index + 1) * 0xCC000 = total * 0x1000) := by
  omega

theorem place_counts (place : LoopPlace total index l) :
    l.sectorsRem * 0x800 = dataToRead l + sub32 l.sectorsRem (sectorsToRead l) * 0x800 ∧
      (sub32 l.sectorsRem (sectorsToRead l) = 0 ↔ ¬ index + 1 < segmentCount total) ∧
      (sub32 l.sectorsRem (sectorsToRead l) ≠ 0 →
        sub32 l.sectorsRem (sectorsToRead l) * 0x800 + (index + 1) * 0xCC000 = total * 0x1000) ∧
      sub32 l.sectorsRem (sectorsToRead l) < 0x100000000 := by
  have sectors := place.sectors
  have word := place.word
  have aligned : blockSize ∣ l.curOff + l.sectorsRem * 0x800 := by
    rw [blockSize]
    omega
  have counts := loop_counts place.more place.offset (Eq.refl (l.curOff + l.sectorsRem * 0x800))
    aligned place.word
  obtain ⟨read, size, _, spent⟩ := counts
  obtain ⟨bytes, ended, left⟩ := left_after read size spent sectors
  rw [lt_segment_count]
  exact ⟨bytes, ended, left, by omega⟩

end Place

section Pass

variable {env : Env} {total index : Nat} {l l' : BodyLoop} {s s' : IsoIo}

theorem store_segment_log (env : Env) (l : BodyLoop) (s : IsoIo) :
    (storeSegment env l s).2.calls = (.writeBlock l.curFileNum l.curBlock,
        (env.fails (.writeBlock l.curFileNum l.curBlock)).isNone) :: s.calls ∧
      (storeSegment env l s).2.isoPos = s.isoPos := by
  have hashes : ∀ num s, (doBlockHashes env num s).calls = s.calls ∧
      (doBlockHashes env num s).isoPos = s.isoPos := by
    intro num s
    induction num with
    | zero => exact ⟨rfl, rfl⟩
    | succ num ih => exact ih
  have first := hashes (sectorsToHash l) s
  simp only [storeSegment, writeBlockToFile, fwrite, doLevel1Hash, IsoIo.log, first, and_self]

theorem pass_reads (read : env.fails (.readSegment l.curFileNum l.curBlock) = none)
    (inImage : s.isoPos + dataToRead l ≤ env.isoData.length) :
    ∃ fptr stored, bodyPass env l s = endSegment env l fptr stored ∧
      stored.isoPos = s.isoPos + dataToRead l ∧ Logged s stored ∧
      LogsCall env (.writeBlock l.curFileNum l.curBlock) stored := by
  let got := { s.log (.readSegment l.curFileNum l.curBlock) true with
    isoPos := s.isoPos + dataToRead l
    dataBlocks := patch s.dataBlocks l.curOff (slice env.isoData s.isoPos (dataToRead l)) }
  obtain ⟨log, position⟩ := store_segment_log env l got
  refine ⟨(storeSegment env l got).1, (storeSegment env l got).2, ?_, position, ?_, ?_⟩
  · rw [bodyPass, read_succeeds read inImage]
    rfl
  · intro entry member
    rw [log]
    exact List.mem_cons_of_mem _ (List.mem_cons_of_mem _ member)
  · rw [LogsCall, log]
    exact List.mem_cons_self

theorem pass_next_read (pass : bodyPass env l s = .next l' s') :
    env.fails (.readSegment l.curFileNum l.curBlock) = none ∧
      s.isoPos + dataToRead l ≤ env.isoData.length := by
  by_contra failed
  have ended : (readIsoData env (.readSegment l.curFileNum l.curBlock) (dataToRead l) s).1 =
      false := by
    rw [readIsoData, Bool.and_eq_false_imp, Option.isNone_iff_eq_none, decide_eq_false_iff_not]
    exact fun succeeds inImage => failed ⟨succeeds, inImage⟩
  simp only [bodyPass, ended, Bool.false_eq_true, if_false] at pass
  cases pass

theorem start_opens (opened : env.fails (.openData index) = none)
    (dummy : env.fails (.writeDummy index) = none) (s : IsoIo) :
    ∃ started, startNewFile env index s = (some ⟨index, 0x1000⟩, started) ∧
      started.isoPos = s.isoPos ∧ Logged s started := by
  refine ⟨_, start_succeeds opened dummy s, rfl, ?_⟩
  intro entry member
  exact List.mem_cons_of_mem _ (List.mem_cons_of_mem _ member)

theorem start_opened {fptr : DataFile} {started : IsoIo}
    (start : startNewFile env index s = (some fptr, started)) :
    env.fails (.openData index) = none ∧ env.fails (.writeDummy index) = none := by
  cases opened : env.fails (.openData index) with
  | some count => simp [startNewFile, opened] at start
  | none =>
      cases dummy : env.fails (.writeDummy index) with
      | some count => simp [startNewFile, fwrite, opened, dummy] at start
      | none => exact ⟨rfl, rfl⟩

structure NextPass (env : Env) (total index : Nat) (l : BodyLoop) (s : IsoIo) (l' : BodyLoop)
    (s' : IsoIo) : Prop where
  ok : PassOk env total index
  inImage : s.isoPos + dataToRead l ≤ env.isoData.length
  position : s'.isoPos = s.isoPos + dataToRead l
  logged : Logged s s'
  block : LogsCall env (.writeBlock (index / 0xCB) (index % 0xCB)) s'
  header : ¬ index + 1 < segmentCount total ∨ (index + 1) % 0xCB = 0 →
    LogsCall env (.writeHeader (index / 0xCB)) s'
  place : index + 1 < segmentCount total → LoopPlace total (index + 1) l'
  done : ¬ index + 1 < segmentCount total → l'.sectorsRem = 0 ∧ l'.curFileNum = index / 0xCB

theorem end_segment_last (env : Env) (place : LoopPlace total index l)
    (last : ¬ index + 1 < segmentCount total) (fptr : DataFile) (s : IsoIo) :
    ∃ l' s', endSegment env l fptr s = .next l' s' ∧ s'.isoPos = s.isoPos ∧ Logged s s' ∧
      LogsCall env (.writeHeader (index / 0xCB)) s' ∧
      l'.sectorsRem = 0 ∧ l'.curFileNum = index / 0xCB := by
  have none := (place_counts place).2.1.mpr last
  let written := writeHeaderToFile env (.writeHeader l.curFileNum) fptr s
  refine ⟨⟨l.curFileNum, 0, 0, 0, written.2.1, Nat.zero_le _⟩, fclose written.2.1 written.2.2,
    ?_, rfl, ?_, ?_, rfl, place.file⟩
  · rw [endSegment, if_pos (Or.inr none)]
    simp only [none, ne_eq, not_true_eq_false, if_false]
    rfl
  · intro entry member
    exact List.mem_cons_of_mem _ member
  · rw [← place.file]
    exact List.mem_cons_self

theorem end_segment_inner (env : Env) (place : LoopPlace total index l)
    (more : index + 1 < segmentCount total)
    (inner : (index + 1) % 0xCB ≠ 0) (fptr : DataFile) (s : IsoIo) :
    ∃ l', endSegment env l fptr s = .next l' s ∧ LoopPlace total (index + 1) l' := by
  obtain ⟨_, ended, left, word⟩ := place_counts place
  have some : sub32 l.sectorsRem (sectorsToRead l) ≠ 0 := fun zero => ended.mp zero more
  have block := place.block
  have notLast : ¬ (l.curBlock + 1 = SVOD_MAX_DATA_BLOCK_COUNT ∨
      sub32 l.sectorsRem (sectorsToRead l) = 0) := by
    rw [block, SVOD_MAX_DATA_BLOCK_COUNT]
    omega
  refine ⟨⟨l.curFileNum, l.curBlock + 1, 0, sub32 l.sectorsRem (sectorsToRead l), fptr,
    Nat.zero_le _⟩, ?_, ?_, ?_, ?_, Or.inl rfl, word, some⟩
  · rw [endSegment, if_neg notLast]
  · change l.curFileNum = _
    rw [place.file]
    omega
  · change l.curBlock + 1 = _
    rw [block]
    omega
  · rw [Nat.zero_add]
    exact left some

/-- The last segment of a file that is not the last file, up to the next `fopen`. -/
theorem end_segment_full (env : Env) (place : LoopPlace total index l)
    (more : index + 1 < segmentCount total)
    (full : (index + 1) % 0xCB = 0) (fptr : DataFile) (s : IsoIo) :
    ∃ closed : IsoIo, closed.isoPos = s.isoPos ∧ Logged s closed ∧
      LogsCall env (.writeHeader (index / 0xCB)) closed ∧
      endSegment env l fptr s = match startNewFile env ((index + 1) / 0xCB) closed with
        | (none, s) => .failed s
        | (some fptr, s) => .next ⟨(index + 1) / 0xCB, 0, 0, sub32 l.sectorsRem (sectorsToRead l),
            fptr, Nat.zero_le _⟩ s := by
  have some : sub32 l.sectorsRem (sectorsToRead l) ≠ 0 :=
    fun zero => (place_counts place).2.1.mp zero more
  have last : l.curBlock + 1 = SVOD_MAX_DATA_BLOCK_COUNT := by
    rw [place.block, SVOD_MAX_DATA_BLOCK_COUNT]
    omega
  have nextFile : l.curFileNum + 1 = (index + 1) / 0xCB := by
    rw [place.file]
    omega
  let written := writeHeaderToFile env (.writeHeader l.curFileNum) fptr s
  refine ⟨fclose written.2.1 written.2.2, rfl, ?_, ?_, ?_⟩
  · intro entry member
    exact List.mem_cons_of_mem _ member
  · rw [← place.file]
    exact List.mem_cons_self
  · rw [endSegment, if_pos (Or.inl last)]
    simp only [ne_eq, some, not_false_eq_true, if_true, nextFile]
    rfl

theorem next_file_place (place : LoopPlace total index l) (more : index + 1 < segmentCount total)
    (full : (index + 1) % 0xCB = 0) (fptr : DataFile) :
    LoopPlace total (index + 1) ⟨(index + 1) / 0xCB, 0, 0,
      sub32 l.sectorsRem (sectorsToRead l), fptr, Nat.zero_le _⟩ := by
  obtain ⟨_, ended, left, word⟩ := place_counts place
  have some : sub32 l.sectorsRem (sectorsToRead l) ≠ 0 := fun zero => ended.mp zero more
  refine ⟨rfl, full.symm, ?_, Or.inl rfl, word, some⟩
  rw [Nat.zero_add]
  exact left some

/-- One pass: it goes on exactly when its read and, at the end of a file, the
opening of the next one succeed. -/
theorem pass_goes_on (s : IsoIo) (place : LoopPlace total index l) (ok : PassOk env total index)
    (inImage : s.isoPos + dataToRead l ≤ env.isoData.length) :
    ∃ l' s', bodyPass env l s = .next l' s' ∧ NextPass env total index l s l' s' := by
  have read := ok.read
  rw [← place.file, ← place.block] at read
  obtain ⟨fptr, stored, pass, position, logged, block⟩ := pass_reads read inImage
  rw [place.file, place.block] at block
  by_cases more : index + 1 < segmentCount total
  · by_cases full : (index + 1) % 0xCB = 0
    · obtain ⟨closed, closedPos, closedLog, header, ended⟩ :=
        end_segment_full env place more full fptr stored
      obtain ⟨opened, dummy⟩ := ok.opens more full
      obtain ⟨started, start, startPos, startLog⟩ := start_opens opened dummy closed
      rw [start] at ended
      refine ⟨_, started, pass.trans ended, ok, inImage, ?_, ?_, ?_, ?_, ?_, ?_⟩
      · rw [startPos, closedPos, position]
      · exact (logged.trans closedLog).trans startLog
      · exact startLog _ (closedLog _ block)
      · exact fun _ => startLog _ header
      · exact fun _ => next_file_place place more full _
      · exact fun last => absurd more last
    · obtain ⟨l', ended, nextPlace⟩ := end_segment_inner env place more full fptr stored
      refine ⟨l', stored, pass.trans ended, ok, inImage, position, logged, block, ?_,
        fun _ => nextPlace, fun last => absurd more last⟩
      intro ends
      rcases ends with last | wrapped
      · exact absurd more last
      · exact absurd wrapped full
  · obtain ⟨l', s', ended, endPos, endLog, header, done⟩ :=
      end_segment_last env place more fptr stored
    refine ⟨l', s', pass.trans ended, ok, inImage, endPos.trans position, logged.trans endLog,
      endLog _ block, fun _ => header, fun less => absurd less more, fun _ => done⟩

theorem pass_went_on (place : LoopPlace total index l) (pass : bodyPass env l s = .next l' s') :
    NextPass env total index l s l' s' := by
  obtain ⟨read, inImage⟩ := pass_next_read pass
  have opens : index + 1 < segmentCount total → (index + 1) % 0xCB = 0 →
      env.fails (.openData ((index + 1) / 0xCB)) = none ∧
        env.fails (.writeDummy ((index + 1) / 0xCB)) = none := by
    intro more full
    obtain ⟨fptr, stored, reads, _⟩ := pass_reads read inImage
    obtain ⟨closed, _, _, _, ended⟩ := end_segment_full env place more full fptr stored
    rw [reads, ended] at pass
    split at pass
    · cases pass
    · next _ _ start => exact start_opened start
  rw [place.file, place.block] at read
  obtain ⟨next, after, run, result⟩ := pass_goes_on s place ⟨read, opens⟩ inImage
  rw [pass] at run
  cases run
  exact result

end Pass

/-! ## The whole loop -/

/-- From segment `index` on, every call whose failure ends the loop succeeds. -/
structure NoticedFrom (env : Env) (total index : Nat) : Prop where
  reads : ∀ later, index ≤ later → later < segmentCount total →
    env.fails (.readSegment (later / 0xCB) (later % 0xCB)) = none
  opens : ∀ num, index / 0xCB < num → num < fileCount total →
    env.fails (.openData num) = none ∧ env.fails (.writeDummy num) = none

structure RunLogged (env : Env) (total index : Nat) (s s' : IsoIo) : Prop where
  logged : Logged s s'
  blocks : ∀ later, index ≤ later → later < segmentCount total →
    LogsCall env (.writeBlock (later / 0xCB) (later % 0xCB)) s'
  headers : ∀ num, index / 0xCB ≤ num → num < fileCount total →
    LogsCall env (.writeHeader num) s'

section Loop

variable {env : Env} {total index : Nat} {l l' : BodyLoop} {s s' s'' : IsoIo}

theorem place_present (place : LoopPlace total index l) : index < segmentCount total := by
  have sectors := place.sectors
  have more := place.more
  rw [lt_segment_count]
  omega

theorem noticed_pass_ok (noticed : NoticedFrom env total index)
    (present : index < segmentCount total) :
    PassOk env total index := by
  refine ⟨noticed.reads index (Nat.le_refl _) present, ?_⟩
  intro more full
  apply noticed.opens
  · omega
  · rw [lt_file_count]
    omega

theorem noticed_succ (noticed : NoticedFrom env total index) : NoticedFrom env total (index + 1) :=
  ⟨fun later after => noticed.reads later (by omega),
    fun num after => noticed.opens num (by omega)⟩

theorem noticed_cons (ok : PassOk env total index)
    (rest : index + 1 < segmentCount total → NoticedFrom env total (index + 1)) :
    NoticedFrom env total index := by
  constructor
  · intro later after present
    rcases Nat.eq_or_lt_of_le after with same | further
    · rw [← same]
      exact ok.read
    · exact (rest (by omega)).reads later further present
  · intro num after present
    have inSegments := (lt_file_count total num).mp present
    by_cases here : (index + 1) / 0xCB < num
    · exact (rest (by omega)).opens num here present
    · have same : (index + 1) / 0xCB = num := by omega
      rw [← same]
      exact ok.opens (by omega) (by omega)

theorem run_logged_cons (next : NextPass env total index l s l' s')
    (logged : Logged s' s'')
    (rest : index + 1 < segmentCount total → RunLogged env total (index + 1) s' s'') :
    RunLogged env total index s s'' := by
  refine ⟨next.logged.trans logged, ?_, ?_⟩
  · intro later after present
    rcases Nat.eq_or_lt_of_le after with same | further
    · rw [← same]
      exact logged _ next.block
    · exact (rest (by omega)).blocks later further present
  · intro num after present
    have inSegments := (lt_file_count total num).mp present
    by_cases here : index + 1 < segmentCount total ∧ (index + 1) / 0xCB ≤ num
    · exact (rest here.1).headers num here.2 present
    · have same : index / 0xCB = num := by omega
      rw [← same]
      exact logged _ (next.header (by omega))

theorem body_loop_noticed (place : LoopPlace total index l) (noticed : NoticedFrom env total index)
    (inImage : s.isoPos + l.sectorsRem * 0x800 ≤ env.isoData.length) :
    (bodyLoop env l s).1 = (segmentCount total - 1) / 0xCB := by
  induction rem : l.sectorsRem using Nat.strong_induction_on generalizing l s index with
  | _ sectors ih =>
  have present := place_present place
  obtain ⟨bytes, _⟩ := place_counts place
  obtain ⟨l', s', pass, next⟩ := pass_goes_on s place (noticed_pass_ok noticed present)
    (by omega)
  rw [body_loop_next place.more pass]
  by_cases more : index + 1 < segmentCount total
  · have fewer := body_pass_decreases place.more pass
    have after := body_pass_sectors pass
    apply ih _ (by rwa [← rem]) (next.place more) (noticed_succ noticed) _ rfl
    rw [next.position, after]
    omega
  · obtain ⟨done, file⟩ := next.done more
    have last : index = segmentCount total - 1 := by omega
    rw [body_loop_done done, file, last]

theorem body_loop_nonzero (place : LoopPlace total index l) (result : (bodyLoop env l s).1 ≠ 0) :
    NoticedFrom env total index ∧
      s.isoPos + l.sectorsRem * 0x800 ≤ env.isoData.length ∧
      RunLogged env total index s (bodyLoop env l s).2 := by
  induction rem : l.sectorsRem using Nat.strong_induction_on generalizing l s index with
  | _ sectors ih =>
  obtain ⟨bytes, ended, _⟩ := place_counts place
  cases pass : bodyPass env l s with
  | failed s' =>
      rw [body_loop_failed place.more pass] at result
      exact absurd rfl result
  | next l' s' =>
      have next := pass_went_on place pass
      have inImage := next.inImage
      have after := body_pass_sectors pass
      rw [body_loop_next place.more pass] at result ⊢
      by_cases more : index + 1 < segmentCount total
      · have fewer := body_pass_decreases place.more pass
        obtain ⟨noticed, fits, logged⟩ :=
          ih _ (by rwa [← rem]) (next.place more) result rfl
        rw [next.position, after] at fits
        exact ⟨noticed_cons next.ok fun _ => noticed, by omega,
          run_logged_cons next logged.logged fun _ => logged⟩
      · obtain ⟨done, _⟩ := next.done more
        have none := ended.mpr more
        rw [body_loop_done done]
        refine ⟨noticed_cons next.ok fun less => absurd less more, by omega,
          run_logged_cons next (fun _ member => member) fun less => absurd less more⟩

end Loop

/-! ## Runs that meet the same outcomes -/

/-- Two environments that agree on every call a disc of `total` blocks can make. -/
structure SameOutcomes (total : Nat) (env env' : Env) : Prop where
  sha : env.sha = env'.sha
  isoData : env.isoData = env'.isoData
  baseOffset : env.baseOffset = env'.baseOffset
  volume : env.fails .readVolume = env'.fails .readVolume
  segments : ∀ index < segmentCount total,
    env.fails (.readSegment (index / 0xCB) (index % 0xCB)) =
        env'.fails (.readSegment (index / 0xCB) (index % 0xCB)) ∧
      env.fails (.writeBlock (index / 0xCB) (index % 0xCB)) =
        env'.fails (.writeBlock (index / 0xCB) (index % 0xCB))
  files : ∀ num < fileCount total,
    env.fails (.openData num) = env'.fails (.openData num) ∧
      env.fails (.writeDummy num) = env'.fails (.writeDummy num) ∧
      env.fails (.writeHeader num) = env'.fails (.writeHeader num) ∧
      env.fails (.reopenData num) = env'.fails (.reopenData num) ∧
      env.fails (.rereadHeader num) = env'.fails (.rereadHeader num) ∧
      (num + 1 < fileCount total → env.fails (.rewriteHeader num) = env'.fails (.rewriteHeader num))

section Same

variable {env env' : Env} {total index : Nat} {l : BodyLoop} {s : IsoIo}

theorem fwrite_same {call : IoCall} (outcome : env.fails call = env'.fails call) (items : Bytes)
    (fptr : DataFile) (s : IsoIo) : fwrite env call items fptr s =
      fwrite env' call items fptr s := by
  simp only [fwrite, outcome]

theorem read_same {call : IoCall} (image : env.isoData = env'.isoData)
    (outcome : env.fails call = env'.fails call) (len : Nat) (s : IsoIo) :
    readIsoData env call len s = readIsoData env' call len s := by
  rw [readIsoData, readIsoData, outcome, image]

theorem start_same (same : SameOutcomes total env env') {num : Nat}
    (present : num < fileCount total)
    (s : IsoIo) : startNewFile env num s = startNewFile env' num s := by
  obtain ⟨opened, dummy, _⟩ := same.files num present
  rw [startNewFile, startNewFile, opened]
  simp only [fwrite_same dummy]

theorem hashes_same (sha : env.sha = env'.sha) (num : Nat) (s : IsoIo) :
    doBlockHashes env num s = doBlockHashes env' num s := by
  induction num with
  | zero => rfl
  | succ num ih => simp only [doBlockHashes, hashBlock, ih, sha]

theorem pass_same (same : SameOutcomes total env env') (place : LoopPlace total index l) :
    bodyPass env l s = bodyPass env' l s := by
  have present := place_present place
  have file : index / 0xCB < fileCount total := by
    rw [lt_file_count]
    omega
  obtain ⟨read, write⟩ := same.segments index present
  obtain ⟨_, _, header, _⟩ := same.files _ file
  rw [← place.file, ← place.block] at read write
  rw [← place.file] at header
  have store : ∀ s, storeSegment env l s = storeSegment env' l s := by
    intro s
    simp only [storeSegment, writeBlockToFile, fwrite_same write, doLevel1Hash,
      hashes_same same.sha, same.sha]
  have ends : ∀ fptr s, endSegment env l fptr s = endSegment env' l fptr s := by
    intro fptr s
    have wrote : ∀ fptr s, writeHeaderToFile env (.writeHeader l.curFileNum) fptr s =
        writeHeaderToFile env' (.writeHeader l.curFileNum) fptr s :=
      fun fptr s => fwrite_same header _ _ _
    by_cases more : index + 1 < segmentCount total ∧ (index + 1) % 0xCB = 0
    · have next : l.curFileNum + 1 < fileCount total := by
        rw [place.file, lt_file_count]
        omega
      simp only [endSegment, wrote, start_same same next]
    · have stays : sub32 l.sectorsRem (sectorsToRead l) = 0 ∨
          l.curBlock + 1 ≠ SVOD_MAX_DATA_BLOCK_COUNT := by
        by_cases last : index + 1 < segmentCount total
        · right
          rw [place.block, SVOD_MAX_DATA_BLOCK_COUNT]
          omega
        · exact Or.inl ((place_counts place).2.1.mpr last)
      by_cases none : sub32 l.sectorsRem (sectorsToRead l) = 0
      · simp only [endSegment, wrote, none, or_true, if_true, ne_eq, not_true_eq_false, if_false]
      · have inner := stays.resolve_left none
        simp only [endSegment, none, inner, or_false, if_false]
  rw [bodyPass, bodyPass, read_same same.isoData read]
  simp only [store, ends]

theorem body_loop_same (same : SameOutcomes total env env') (place : LoopPlace total index l) :
    bodyLoop env l s = bodyLoop env' l s := by
  induction rem : l.sectorsRem using Nat.strong_induction_on generalizing l s index with
  | _ sectors ih =>
  have equal : bodyPass env l s = bodyPass env' l s := pass_same same place
  cases pass : bodyPass env l s with
  | failed s' =>
      rw [body_loop_failed place.more pass, body_loop_failed place.more (equal ▸ pass)]
  | next l' s' =>
      have next := pass_went_on place pass
      rw [body_loop_next place.more pass, body_loop_next place.more (equal ▸ pass)]
      by_cases more : index + 1 < segmentCount total
      · have fewer := body_pass_decreases place.more pass
        exact ih _ (by rwa [← rem]) (next.place more) rfl
      · obtain ⟨done, _⟩ := next.done more
        rw [body_loop_done done, body_loop_done done]

end Same

end XeBuild.Iso2svod
