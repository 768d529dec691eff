import XeBuild.Iso2svod.FailureFlow
import XeBuild.Iso2svod.HeaderChain

/-!
# What the result of a conversion says

`isoToSvod` looks at the file number that `writeIsoBody` returns and at nothing
else. Two consequences are measured here: which discs convert without any
failure and are still reported as failed, and which failures are not reported.
-/

namespace XeBuild.Iso2svod

open ListRange ListChunks

set_option autoImplicit false

theorem iso_to_svod_eq (env : Env) (s : IsoIo) :
    isoToSvod env s = if (writeIsoBody env s).1 ≠ 0 then
        (true, (fixIsoHeaders env (writeIsoBody env s).1 (writeIsoBody env s).2).2)
      else (false, (writeIsoBody env s).2) := rfl

/-! ## Discs that fit in one file -/

section Single

variable {env : Env} {minSector maxSector : UInt32} {isoPos : Nat} {headerBuffer : Bytes}

/-- The conversion reports success and has set the root of the container. -/
def ReportsConversion (env : Env) (s : IsoIo) : Prop :=
  ∃ s' contents, isoToSvod env s = (true, s') ∧ s'.disk 0 = some contents ∧
    firstFragmentHash s' = (env.sha (slice contents 0 0x1000)).bytes

/-- A last file number of zero is taken for an error. -/
theorem conversion_reported_iff (range : SectorRange minSector maxSector)
    (success : AllSucceeds env maxSector) (size : headerBuffer.length = headerSize) :
    ReportsConversion env (IsoIo.initial minSector maxSector isoPos headerBuffer) ↔
      0xCB * 0xCC < (maxSector.toNat - minSector.toNat) / 2 + 1 := by
  rw [← several_files_iff range success]
  constructor
  · intro reported
    rcases reported with ⟨s', _, run, _⟩
    exact (iso_to_svod_result isoPos headerBuffer range success).mp (by rw [run])
  · intro several
    obtain ⟨s', run, converted⟩ := iso_to_svod_run isoPos headerBuffer range success several
    have present : 0 < (payloadOf range success).files.length := by omega
    have fits := (payload_file (List.getElem_mem present)).fits
    have digest := next_digest_step env.sha (payloadOf range success).files 0 present
    refine ⟨s', fileBytes env.sha (payloadOf range success).files[0]
      (Payload.nextDigest env.sha ((payloadOf range success).files.drop 1)), run, ?_, ?_⟩
    · rw [converted.disk, Payload.dataFile, List.getElem?_eq_getElem present]
      rfl
    · rw [converted_first_fragment size converted, file_bytes_header env.sha _ fits, ← digest,
        List.drop_zero]

/-- A disc of one segment converts and is reported as failed. -/
theorem short_disc_not_reported : SectorRange 2 64 ∧ AllSucceeds (blankDisc 64) 64 ∧
    ¬ ReportsConversion (blankDisc 64) (IsoIo.initial 2 64 0 (zeros headerSize)) := by
  have range : SectorRange 2 64 := ⟨by decide, by decide, by decide⟩
  have success : AllSucceeds (blankDisc 64) 64 := blank_disc_succeeds (by decide) (by decide)
  refine ⟨range, success, ?_⟩
  intro reported
  rcases reported with ⟨s', _, run, _⟩
  have several := (iso_to_svod_result 0 (zeros headerSize) range success).mp (by rw [run])
  exact absurd ((several_files_iff range success).mp several) (by decide)

theorem two_file_disc_reported :
    ReportsConversion (blankDisc 82824) (IsoIo.initial 0 82824 0 (zeros headerSize)) := by
  have range : SectorRange 0 82824 := ⟨by decide, by decide, by decide⟩
  have success : AllSucceeds (blankDisc 82824) 82824 := blank_disc_succeeds (by decide) (by decide)
  have several : 0xCB * 0xCC < ((82824 : UInt32).toNat - (0 : UInt32).toNat) / 2 + 1 := by decide
  exact (conversion_reported_iff range success (zeros_length _)).mpr several

end Single

/-! ## Failures that are not reported -/

/-- Blocks of a disc: the volume descriptor and the sector range. -/
def discBlocks (minSector maxSector : UInt32) : Nat :=
  (maxSector.toNat - minSector.toNat) / 2 + 1

/-- The result is `TRUE` exactly when these hold: more than one file, and no
failure where the source looks for one. -/
structure NoticedSucceed (env : Env) (minSector maxSector : UInt32) : Prop where
  several : 1 < fileCount (discBlocks minSector maxSector)
  image : maxSector.toNat * XGD_SECTOR_SIZE + env.baseOffset ≤ env.isoData.length
  opens : ∀ num < fileCount (discBlocks minSector maxSector),
    env.fails (.openData num) = none ∧ env.fails (.writeDummy num) = none
  reads : ∀ index < segmentCount (discBlocks minSector maxSector),
    env.fails (.readSegment (index / 0xCB) (index % 0xCB)) = none

/-- The calls whose outcome the source does not look at. -/
structure UnreadSucceed (env : Env) (minSector maxSector : UInt32) : Prop where
  volume : env.fails .readVolume = none
  volumeInImage :
    SVOD_START_SECTOR * XGD_SECTOR_SIZE + env.baseOffset + 0x1000 ≤ env.isoData.length
  blocks : ∀ index < segmentCount (discBlocks minSector maxSector),
    env.fails (.writeBlock (index / 0xCB) (index % 0xCB)) = none
  headers : ∀ num < fileCount (discBlocks minSector maxSector),
    env.fails (.writeHeader num) = none
  reopened : ∀ num < fileCount (discBlocks minSector maxSector),
    env.fails (.reopenData num) = none ∧ env.fails (.rereadHeader num) = none
  links : ∀ num, num + 1 < fileCount (discBlocks minSector maxSector) →
    env.fails (.rewriteHeader num) = none

def faultless (env : Env) : Env := { env with fails := fun _ => none }

/-- A `TRUE` result means that every call succeeded, and that the output is the
one of a run without failures. -/
def ReportsFailures (env : Env) (s : IsoIo) : Prop :=
  (isoToSvod env s).1 = true →
    (∀ entry ∈ (isoToSvod env s).2.calls, entry.2 = true) ∧
      (isoToSvod env s).2.disk = (isoToSvod (faultless env) s).2.disk ∧
      firstFragmentHash (isoToSvod env s).2 = firstFragmentHash (isoToSvod (faultless env) s).2

section Body

variable {env : Env} {minSector maxSector : UInt32} {isoPos : Nat} {headerBuffer : Bytes}

def volumeRead (env : Env) (s : IsoIo) : IsoIo :=
  let read := readIsoData env .readVolume 0x1000 (setIsoSector env SVOD_START_SECTOR s)
  setIsoSector env s.minSector.toNat
    { read.2.2 with dataBlocks := patch read.2.2.dataBlocks 0 read.2.1 }

def firstLoop (minSector maxSector : UInt32) (fptr : DataFile) : BodyLoop :=
  ⟨0, 0, 0x1000, sub32 maxSector.toNat minSector.toNat, fptr, Nat.le_refl blockSize⟩

theorem first_place (range : SectorRange minSector maxSector) (fptr : DataFile) :
    LoopPlace (discBlocks minSector maxSector) 0 (firstLoop minSector maxSector fptr) := by
  have minEven := range.minEven
  have maxEven := range.maxEven
  have ordered := range.ordered
  have word := maxSector.toNat_lt
  have difference := sub32_of_le ordered.le word
  refine ⟨rfl, rfl, ?_, Or.inr rfl, ?_, ?_⟩
  · change 0x1000 + sub32 maxSector.toNat minSector.toNat * 0x800 + 0 * 0xCC000 =
      discBlocks minSector maxSector * 0x1000
    rw [difference, discBlocks]
    omega
  · change sub32 maxSector.toNat minSector.toNat < _
    omega
  · change sub32 maxSector.toNat minSector.toNat ≠ 0
    omega

theorem body_started {started : IsoIo} {fptr : DataFile} {s : IsoIo}
    (start : startNewFile env 0 s = (some fptr, started))
    (minSame : started.minSector = minSector) (maxSame : started.maxSector = maxSector) :
    writeIsoBody env s = bodyLoop env (firstLoop minSector maxSector fptr)
      (volumeRead env started) := by
  rw [writeIsoBody, start, ← minSame, ← maxSame]
  rfl

theorem body_end_of_image (range : SectorRange minSector maxSector) (fptr : DataFile)
    {started : IsoIo} (minSame : started.minSector = minSector) :
    (volumeRead env started).isoPos + (firstLoop minSector maxSector fptr).sectorsRem * 0x800 =
      maxSector.toNat * XGD_SECTOR_SIZE + env.baseOffset := by
  have difference := sub32_of_le range.ordered.le maxSector.toNat_lt
  change started.minSector.toNat * XGD_SECTOR_SIZE + env.baseOffset +
    sub32 maxSector.toNat minSector.toNat * XGD_SECTOR_SIZE = _
  rw [minSame, difference, Nat.add_right_comm, ← Nat.add_mul, Nat.add_sub_cancel' range.ordered.le]

/-- A file number that reads as success, and what the log then has. -/
theorem body_nonzero (range : SectorRange minSector maxSector)
    (result : (writeIsoBody env (IsoIo.initial minSector maxSector isoPos headerBuffer)).1 ≠ 0) :
    (env.fails (.openData 0) = none ∧ env.fails (.writeDummy 0) = none) ∧
      NoticedFrom env (discBlocks minSector maxSector) 0 ∧
      maxSector.toNat * XGD_SECTOR_SIZE + env.baseOffset ≤ env.isoData.length ∧
      ∃ before, (∃ ok, ok = ((env.fails .readVolume).isNone && decide
          (SVOD_START_SECTOR * XGD_SECTOR_SIZE + env.baseOffset + 0x1000 ≤ env.isoData.length)) ∧
          (IoCall.readVolume, ok) ∈ before.calls) ∧
        RunLogged env (discBlocks minSector maxSector) 0 before
          (writeIsoBody env (IsoIo.initial minSector maxSector isoPos headerBuffer)).2 := by
  generalize initial : IsoIo.initial minSector maxSector isoPos headerBuffer = s at result ⊢
  cases start : startNewFile env 0 s with
  | mk fptr started =>
      cases fptr with
      | none =>
          rw [writeIsoBody, start] at result
          exact absurd rfl result
      | some fptr =>
          have first := start_opened start
          have same : started.minSector = minSector ∧ started.maxSector = maxSector := by
            have opens := start_succeeds first.1 first.2 s
            rw [start] at opens
            cases opens
            rw [← initial]
            exact ⟨rfl, rfl⟩
          have body := body_started start same.1 same.2
          rw [body] at result ⊢
          obtain ⟨noticed, inImage, logged⟩ :=
            body_loop_nonzero (first_place range fptr) result
          rw [body_end_of_image range fptr same.1] at inImage
          exact ⟨first, noticed, inImage, volumeRead env started,
            ⟨_, rfl, List.mem_cons_self⟩, logged⟩

theorem body_last_file (isoPos : Nat) (headerBuffer : Bytes)
    (range : SectorRange minSector maxSector)
    (first : env.fails (.openData 0) = none ∧ env.fails (.writeDummy 0) = none)
    (noticed : NoticedFrom env (discBlocks minSector maxSector) 0)
    (image : maxSector.toNat * XGD_SECTOR_SIZE + env.baseOffset ≤ env.isoData.length) :
    (writeIsoBody env (IsoIo.initial minSector maxSector isoPos headerBuffer)).1 =
      fileCount (discBlocks minSector maxSector) - 1 := by
  have start := start_succeeds first.1 first.2
    (IsoIo.initial minSector maxSector isoPos headerBuffer)
  have minSame : (fileStarted 0
    (IsoIo.initial minSector maxSector isoPos headerBuffer)).minSector = minSector := rfl
  have maxSame : (fileStarted 0
    (IsoIo.initial minSector maxSector isoPos headerBuffer)).maxSector = maxSector := rfl
  have ends : (volumeRead env (fileStarted 0 _)).isoPos + _ = _ :=
    body_end_of_image range ⟨0, 0x1000⟩ minSame
  have positive := place_present (first_place range ⟨0, 0x1000⟩)
  rw [body_started start minSame maxSame, body_loop_noticed (first_place range _) noticed]
  · rw [fileCount]
    omega
  · rw [ends]
    exact image

theorem noticed_from_start (noticed : NoticedSucceed env minSector maxSector) :
    NoticedFrom env (discBlocks minSector maxSector) 0 :=
  ⟨fun later _ present => noticed.reads later present,
    fun num _ present => noticed.opens num present⟩

theorem iso_to_svod_true_iff (env : Env) (isoPos : Nat) (headerBuffer : Bytes)
    (range : SectorRange minSector maxSector) :
    (isoToSvod env (IsoIo.initial minSector maxSector isoPos headerBuffer)).1 = true ↔
      NoticedSucceed env minSector maxSector := by
  rw [iso_to_svod_eq]
  constructor
  · intro result
    have nonzero : (writeIsoBody env (IsoIo.initial minSector maxSector isoPos headerBuffer)).1 ≠ 0 := by
      intro zero
      simp [zero] at result
    obtain ⟨first, noticed, image, _⟩ := body_nonzero range nonzero
    have opens : ∀ num < fileCount (discBlocks minSector maxSector),
        env.fails (.openData num) = none ∧ env.fails (.writeDummy num) = none := by
      intro num present
      rcases Nat.eq_zero_or_pos num with zero | later
      · rw [zero]
        exact first
      · exact noticed.opens num later present
    refine ⟨?_, image, opens, fun index present => noticed.reads index (Nat.zero_le _) present⟩
    -- One file only: the loop returns its number, zero.
    rw [body_last_file isoPos headerBuffer range first noticed image] at nonzero
    omega
  · intro noticed
    have several := noticed.several
    have last := body_last_file isoPos headerBuffer range (noticed.opens 0 (by omega))
      (noticed_from_start noticed) noticed.image
    rw [if_pos (by omega)]

end Body

/-! ## The header pass under failing calls -/

section Headers

variable {env env' : Env} {lastFile num count total : Nat} {hashInfo : Digest} {s : IsoIo}

theorem header_data_log (env : Env) (num : Nat) (s : IsoIo) :
    Logged s (getHeaderData env num s).2 ∧
      ((getHeaderData env num s).1 = none → ∃ call, (call, false) ∈
        (getHeaderData env num s).2.calls) ∧
      ((getHeaderData env num s).1 ≠ none →
        env.fails (.reopenData num) = none ∧ env.fails (.rereadHeader num) = none) := by
  cases reopened : env.fails (.reopenData num) with
  | some count =>
      have result : getHeaderData env num s = (none, s.log (.reopenData num) false) := by
        simp only [getHeaderData, reopened]
      rw [result]
      exact ⟨fun entry member => List.mem_cons_of_mem _ member,
        fun _ => ⟨_, List.mem_cons_self⟩, fun found => absurd rfl found⟩
  | none =>
      cases stored : s.disk num with
      | none =>
          have result : getHeaderData env num s = (none, s.log (.reopenData num) false) := by
            simp only [getHeaderData, reopened, stored]
          rw [result]
          exact ⟨fun entry member => List.mem_cons_of_mem _ member,
            fun _ => ⟨_, List.mem_cons_self⟩, fun found => absurd rfl found⟩
      | some contents =>
          simp only [getHeaderData, reopened, stored]
          split
          · next ok =>
              rw [Bool.and_eq_true, Option.isNone_iff_eq_none] at ok
              refine ⟨?_, ?_, ?_⟩
              · intro entry member
                exact List.mem_cons_of_mem _ (List.mem_cons_of_mem _ member)
              · intro missing
                cases missing
              · exact fun _ => ⟨trivial, ok.1⟩
          · next failed =>
              refine ⟨?_, fun _ => ⟨.rereadHeader num, ?_⟩, fun found => absurd rfl found⟩
              · intro entry member
                exact List.mem_cons_of_mem _ (List.mem_cons_of_mem _ member)
              · rw [Bool.not_eq_true] at failed
                rw [fclose, IsoIo.log, failed]
                exact List.mem_cons_self

theorem fix_header_none {s' : IsoIo} (missing : getHeaderData env num s = (none, s')) :
    fixHeader env lastFile num hashInfo s = (none, s') := by
  rw [fixHeader, missing]

theorem fix_header_some {fptr : DataFile} {s' : IsoIo}
    (found : getHeaderData env num s = (some fptr, s')) :
    ∃ next after, fixHeader env lastFile num hashInfo s = (some next, after) ∧ Logged s' after ∧
      (num ≠ lastFile → LogsCall env (.rewriteHeader num) after) := by
  rw [fixHeader, found]
  by_cases last : num = lastFile
  · simp only [last, ne_eq, not_true_eq_false, if_false]
    exact ⟨_, _, rfl, fun entry member => member, False.elim⟩
  · simp only [last, ne_eq, not_false_eq_true, if_true]
    exact ⟨_, _, rfl, fun entry member => List.mem_cons_of_mem _ member,
      fun _ => List.mem_cons_self⟩

theorem fix_header_logged (env : Env) (lastFile num : Nat) (hashInfo : Digest) (s : IsoIo) :
    Logged s (fixHeader env lastFile num hashInfo s).2 := by
  obtain ⟨logged, _⟩ := header_data_log env num s
  cases data : getHeaderData env num s with
  | mk fptr s' =>
      rw [data] at logged
      cases fptr with
      | none =>
          rw [fix_header_none data]
          exact logged
      | some fptr =>
          obtain ⟨next, after, run, grown, _⟩ := fix_header_some data
          rw [run]
          exact logged.trans grown

theorem fix_header_unread
    (clean : ∀ entry ∈ (fixHeader env lastFile num hashInfo s).2.calls, entry.2 = true) :
    (env.fails (.reopenData num) = none ∧ env.fails (.rereadHeader num) = none) ∧
      (num ≠ lastFile → env.fails (.rewriteHeader num) = none) ∧
      ∃ next after, fixHeader env lastFile num hashInfo s = (some next, after) := by
  obtain ⟨_, missing, found⟩ := header_data_log env num s
  cases data : getHeaderData env num s with
  | mk fptr s' =>
      rw [data] at missing found
      cases fptr with
      | none =>
          obtain ⟨call, failed⟩ := missing rfl
          rw [fix_header_none data] at clean
          exact absurd (clean _ failed) (by simp)
      | some fptr =>
          obtain ⟨next, after, run, _, rewritten⟩ := fix_header_some data
          refine ⟨found (by simp), ?_, next, after, run⟩
          intro inner
          rw [run] at clean
          exact Option.isNone_iff_eq_none.mp (clean _ (rewritten inner))

theorem fix_headers_logged (env : Env) (lastFile count : Nat) (hashInfo : Digest) (s : IsoIo) :
    Logged s (fixHeaders env lastFile count hashInfo s).2 := by
  induction count generalizing hashInfo s with
  | zero => exact fun entry member => member
  | succ count ih =>
      have round := fix_header_logged env lastFile count hashInfo s
      rw [fixHeaders]
      cases run : fixHeader env lastFile count hashInfo s with
      | mk next s' =>
          rw [run] at round
          cases next with
          | none => exact round
          | some next => exact round.trans (ih next s')

theorem fix_headers_unread
    (clean : ∀ entry ∈ (fixHeaders env lastFile count hashInfo s).2.calls, entry.2 = true) :
    ∀ num < count, (env.fails (.reopenData num) = none ∧ env.fails (.rereadHeader num) = none) ∧
      (num ≠ lastFile → env.fails (.rewriteHeader num) = none) := by
  induction count generalizing hashInfo s with
  | zero => exact fun num none => absurd none (Nat.not_lt_zero num)
  | succ count ih =>
      have roundClean :
          ∀ entry ∈ (fixHeader env lastFile count hashInfo s).2.calls, entry.2 = true := by
        intro entry member
        apply clean
        rw [fixHeaders]
        cases run : fixHeader env lastFile count hashInfo s with
        | mk next s' =>
            rw [run] at member
            cases next with
            | none => exact member
            | some next => exact fix_headers_logged env lastFile count next s' _ member
      obtain ⟨reopened, rewritten, next, after, run⟩ := fix_header_unread roundClean
      rw [fixHeaders, run] at clean
      intro num bound
      rcases Nat.eq_or_lt_of_le (Nat.le_of_lt_succ bound) with same | earlier
      · rw [same]
        exact ⟨reopened, rewritten⟩
      · exact ih clean num earlier

theorem fix_iso_headers_state (env : Env) (lastFile : Nat) (s : IsoIo) :
    (fixIsoHeaders env lastFile s).2.calls =
      (fixHeaders env lastFile (lastFile + 1) Digest.zero s).2.calls := by
  rw [fixIsoHeaders]
  cases run : fixHeaders env lastFile (lastFile + 1) Digest.zero s with
  | mk next s' => cases next <;> rfl

/-! ## Agreeing runs -/

theorem fix_header_same (same : SameOutcomes total env env') (present : num < fileCount total)
    (last : lastFile + 1 = fileCount total) :
    fixHeader env lastFile num hashInfo s = fixHeader env' lastFile num hashInfo s := by
  obtain ⟨_, _, _, reopened, reread, rewritten⟩ := same.files num present
  have data : getHeaderData env num s = getHeaderData env' num s := by
    rw [getHeaderData, getHeaderData, reopened, reread]
  have write : num ≠ lastFile → ∀ fptr s, writeHeaderToFile env (.rewriteHeader num) fptr s =
      writeHeaderToFile env' (.rewriteHeader num) fptr s :=
    fun inner fptr s => fwrite_same (rewritten (by omega)) _ _ _
  rw [fixHeader, fixHeader, data]
  by_cases isLast : num = lastFile
  · simp only [isLast, ne_eq, not_true_eq_false, if_false, same.sha]
  · simp only [isLast, ne_eq, not_false_eq_true, if_true, same.sha, write isLast]

theorem fix_headers_same (same : SameOutcomes total env env') (present : count ≤ fileCount total)
    (last : lastFile + 1 = fileCount total) :
    fixHeaders env lastFile count hashInfo s = fixHeaders env' lastFile count hashInfo s := by
  induction count generalizing hashInfo s with
  | zero => rfl
  | succ count ih =>
      rw [fixHeaders, fixHeaders, fix_header_same same (by omega) last]
      simp only [ih (by omega)]

end Headers

section Result

variable {env : Env} {minSector maxSector : UInt32} {isoPos : Nat} {headerBuffer : Bytes}

/-- With every call of the disc succeeding, the rest of `fails` is not consulted. -/
theorem faultless_same_outcomes (noticed : NoticedSucceed env minSector maxSector)
    (unread : UnreadSucceed env minSector maxSector) :
    SameOutcomes (discBlocks minSector maxSector) env (faultless env) := by
  refine ⟨rfl, rfl, rfl, unread.volume, ?_, ?_⟩
  · intro index present
    exact ⟨noticed.reads index present, unread.blocks index present⟩
  · intro num present
    obtain ⟨opened, dummy⟩ := noticed.opens num present
    obtain ⟨reopened, reread⟩ := unread.reopened num present
    exact ⟨opened, dummy, unread.headers num present, reopened, reread,
      fun inner => unread.links num inner⟩

theorem write_iso_body_same (isoPos : Nat) (headerBuffer : Bytes) {env' : Env}
    (range : SectorRange minSector maxSector)
    (same : SameOutcomes (discBlocks minSector maxSector) env env')
    (several : 0 < fileCount (discBlocks minSector maxSector)) :
    writeIsoBody env (IsoIo.initial minSector maxSector isoPos headerBuffer) =
      writeIsoBody env' (IsoIo.initial minSector maxSector isoPos headerBuffer) := by
  have start := start_same same several (IsoIo.initial minSector maxSector isoPos headerBuffer)
  have volume : ∀ s, volumeRead env s = volumeRead env' s := by
    intro s
    rw [volumeRead, volumeRead, setIsoSector, setIsoSector, same.baseOffset,
      read_same same.isoData same.volume]
    simp only [setIsoSector]
  cases started : startNewFile env' 0 (IsoIo.initial minSector maxSector isoPos headerBuffer) with
  | mk fptr s =>
      cases fptr with
      | none => rw [writeIsoBody, writeIsoBody, start, started]
      | some fptr =>
          have words : s.minSector = minSector ∧ s.maxSector = maxSector := by
            obtain ⟨opened, dummy⟩ := start_opened started
            rw [start_succeeds opened dummy] at started
            cases started
            exact ⟨rfl, rfl⟩
          rw [body_started started words.1 words.2,
            body_started (start.trans started) words.1 words.2, volume]
          exact body_loop_same same (first_place range fptr)

theorem iso_to_svod_faultless (isoPos : Nat) (headerBuffer : Bytes)
    (range : SectorRange minSector maxSector)
    (noticed : NoticedSucceed env minSector maxSector)
    (unread : UnreadSucceed env minSector maxSector) :
    isoToSvod env (IsoIo.initial minSector maxSector isoPos headerBuffer) =
      isoToSvod (faultless env) (IsoIo.initial minSector maxSector isoPos headerBuffer) := by
  have same := faultless_same_outcomes noticed unread
  have several := noticed.several
  have body := write_iso_body_same isoPos headerBuffer range same (by omega)
  have last := body_last_file isoPos headerBuffer range (noticed.opens 0 (by omega))
    (noticed_from_start noticed) noticed.image
  rw [iso_to_svod_eq, iso_to_svod_eq, ← body, if_pos (by omega), if_pos (by omega), fixIsoHeaders,
    fixIsoHeaders, fix_headers_same same (by omega) (by omega)]

/-- A reported success without a logged failure leaves no unread failure. -/
theorem no_failure_logged_unread (range : SectorRange minSector maxSector)
    (noticed : NoticedSucceed env minSector maxSector)
    (clean : ∀ entry ∈ (isoToSvod env
      (IsoIo.initial minSector maxSector isoPos headerBuffer)).2.calls, entry.2 = true) :
    UnreadSucceed env minSector maxSector := by
  have several := noticed.several
  have last := body_last_file isoPos headerBuffer range (noticed.opens 0 (by omega))
    (noticed_from_start noticed) noticed.image
  rw [iso_to_svod_eq, if_pos (by omega)] at clean
  change ∀ entry ∈ (fixIsoHeaders env _ _).2.calls, entry.2 = true at clean
  rw [fix_iso_headers_state] at clean
  have headers := fix_headers_unread clean
  have bodyClean : ∀ entry ∈ (writeIsoBody env
      (IsoIo.initial minSector maxSector isoPos headerBuffer)).2.calls, entry.2 = true :=
    fun entry member => clean entry (fix_headers_logged env _ _ _ _ entry member)
  obtain ⟨_, _, _, before, ⟨ok, outcome, volume⟩, logged⟩ := body_nonzero range
    (show (writeIsoBody env (IsoIo.initial minSector maxSector isoPos headerBuffer)).1 ≠ 0 by omega)
  have read := bodyClean _ (logged.logged _ volume)
  rw [outcome, Bool.and_eq_true, Option.isNone_iff_eq_none, decide_eq_true_eq] at read
  refine ⟨read.1, read.2, ?_, ?_, ?_, ?_⟩
  · intro index present
    exact Option.isNone_iff_eq_none.mp
      (bodyClean _ (logged.blocks index (Nat.zero_le _) present))
  · intro num present
    exact Option.isNone_iff_eq_none.mp
      (bodyClean _ (logged.headers num (Nat.zero_le _) present))
  · intro num present
    exact (headers num (by omega)).1
  · intro num inner
    exact (headers num (by omega)).2 (by omega)

theorem faultless_succeeds (noticed : NoticedSucceed env minSector maxSector)
    (unread : UnreadSucceed env minSector maxSector) : AllSucceeds (faultless env) maxSector := by
  have isoData : (faultless env).isoData = env.isoData := rfl
  have baseOffset : (faultless env).baseOffset = env.baseOffset := rfl
  refine ⟨fun _ => rfl, ?_, ?_⟩
  · rw [isoData, baseOffset]
    exact unread.volumeInImage
  · rw [isoData, baseOffset]
    exact noticed.image

theorem faultless_reports (isoPos : Nat) (headerBuffer : Bytes)
    (range : SectorRange minSector maxSector) (noticed : NoticedSucceed env minSector maxSector)
    (unread : UnreadSucceed env minSector maxSector) :
    ReportsFailures env (IsoIo.initial minSector maxSector isoPos headerBuffer) := by
  have same := iso_to_svod_faultless isoPos headerBuffer range noticed unread
  rw [ReportsFailures, same]
  cases run : isoToSvod (faultless env)
      (IsoIo.initial minSector maxSector isoPos headerBuffer) with
  | mk result s' =>
      intro success
      have converts : isoToSvod (faultless env)
          (IsoIo.initial minSector maxSector isoPos headerBuffer) = (true, s') := by
        rw [run]
        exact congrArg (fun ok => (ok, s')) success
      have converted :=
        iso_to_svod_converted range (faultless_succeeds noticed unread) converts
      exact ⟨converted.succeeded, rfl, rfl⟩

theorem reports_failures_iff (range : SectorRange minSector maxSector) :
    ReportsFailures env (IsoIo.initial minSector maxSector isoPos headerBuffer) ↔
      ¬ NoticedSucceed env minSector maxSector ∨ UnreadSucceed env minSector maxSector := by
  have result := iso_to_svod_true_iff env isoPos headerBuffer range
  by_cases noticed : NoticedSucceed env minSector maxSector
  · constructor
    · intro reports
      right
      exact no_failure_logged_unread range noticed (reports (result.mpr noticed)).1
    · intro condition
      exact faultless_reports isoPos headerBuffer range noticed
        (condition.resolve_left (not_not_intro noticed))
  · constructor
    · exact fun _ => Or.inl noticed
    · exact fun _ success => absurd (result.mp success) noticed

/-- A disc of two files on which the write of the first segment fails. -/
def fullDisk : Env :=
  { blankDisc 82824 with fails := fun call => if call = .writeBlock 0 0 then some 0 else none }

/-- The failing write is not reported. -/
theorem full_disk_not_reported : SectorRange 0 82824 ∧
    ¬ ReportsFailures fullDisk (IsoIo.initial 0 82824 0 (zeros headerSize)) := by
  have range : SectorRange 0 82824 := ⟨by decide, by decide, by decide⟩
  refine ⟨range, ?_⟩
  intro reports
  have calm : AllSucceeds (blankDisc 82824) 82824 :=
    blank_disc_succeeds (by decide) (by decide)
  have isoData : fullDisk.isoData = (blankDisc 82824).isoData := rfl
  have baseOffset : fullDisk.baseOffset = (blankDisc 82824).baseOffset := rfl
  have noticed : NoticedSucceed fullDisk 0 82824 := by
    refine ⟨by decide, ?_, fun _ _ => ⟨rfl, rfl⟩, fun _ _ => rfl⟩
    rw [isoData, baseOffset]
    exact calm.sectors
  have success := (iso_to_svod_true_iff fullDisk 0 (zeros headerSize) range).mpr noticed
  have unread := no_failure_logged_unread range noticed (reports success).1
  have written := unread.blocks 0 (by decide)
  exact absurd written (by decide)

def refusedDisk : Env :=
  { blankDisc 82824 with fails := fun call => if call = .openData 1 then some 0 else none }

/-- The refused disc gives `FALSE`, and the disc without failures `TRUE`. -/
theorem refused_disk_report :
    (ReportsFailures refusedDisk (IsoIo.initial 0 82824 0 (zeros headerSize)) ∧
        (isoToSvod refusedDisk (IsoIo.initial 0 82824 0 (zeros headerSize))).1 = false) ∧
      ReportsFailures (blankDisc 82824) (IsoIo.initial 0 82824 0 (zeros headerSize)) ∧
        (isoToSvod (blankDisc 82824) (IsoIo.initial 0 82824 0 (zeros headerSize))).1 = true := by
  have range : SectorRange 0 82824 := ⟨by decide, by decide, by decide⟩
  constructor
  · have refused : ¬ NoticedSucceed refusedDisk 0 82824 := by
      intro noticed
      have opened := (noticed.opens 1 (by decide)).1
      exact absurd opened (by decide)
    refine ⟨(reports_failures_iff range).mpr (Or.inl refused), ?_⟩
    rw [← Bool.not_eq_true]
    exact fun success => refused ((iso_to_svod_true_iff refusedDisk 0 _ range).mp success)
  · have calm : AllSucceeds (blankDisc 82824) 82824 := blank_disc_succeeds (by decide) (by decide)
    have noticed : NoticedSucceed (blankDisc 82824) 0 82824 :=
      ⟨by decide, calm.sectors, fun _ _ => ⟨rfl, rfl⟩, fun _ _ => rfl⟩
    have unread : UnreadSucceed (blankDisc 82824) 0 82824 :=
      ⟨rfl, calm.volume, fun _ _ => rfl, fun _ _ => rfl, fun _ _ => ⟨rfl, rfl⟩, fun _ _ => rfl⟩
    exact ⟨(reports_failures_iff range).mpr (Or.inr unread),
      (iso_to_svod_true_iff (blankDisc 82824) 0 _ range).mpr noticed⟩

end Result

end XeBuild.Iso2svod
