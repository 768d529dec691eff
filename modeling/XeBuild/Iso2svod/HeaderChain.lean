import XeBuild.Iso2svod.FileAddress
import XeBuild.Iso2svod.Conversion

/-!
# Linking the headers

`fixIsoHeaders` walks the data files from the last to the first. The invariant
after each round: the files not reached yet still carry an empty link, the
others are final, and `hashInfo` is the digest of the table of the last one
reached. The last file is hashed but not written again; its link is the empty
one it already has.
-/

namespace XeBuild.Iso2svod

open ListRange ListChunks

set_option autoImplicit false

section Link

variable (sha : Sha) {segments : List Bytes}

theorem link_patched (fits : segments.length ≤ segmentsPerFile) (next : Digest) :
    patch (level1Table sha segments Digest.zero) nextFragmentOffset next.bytes =
      level1Table sha segments next := by
  have count : (segments.map (level0Table sha)).length ≤ 0xCB := by
    rw [List.length_map]
    exact fits
  have front : (entryBytes (level1Digests sha segments)).length = nextFragmentOffset := by
    rw [entry_bytes_length, level1Digests, DigestTree.table_length _ _ count, nextFragmentOffset]
  have middle := patch_middle (entryBytes (level1Digests sha segments)) Digest.zero.bytes
    (zeros 0x10) next.bytes (by rw [next.size, Digest.zero.size])
  rw [front] at middle
  exact middle

theorem file_bytes_linked (fits : segments.length ≤ segmentsPerFile) (next : Digest) :
    patch (fileBytes sha segments Digest.zero) 0 (level1Table sha segments next) =
      fileBytes sha segments next := by
  have same : (level1Table sha segments next).length =
      (level1Table sha segments Digest.zero).length := by
    rw [level1_table_length sha fits, level1_table_length sha fits]
  exact patch_front _ _ _ same

theorem next_digest_step (files : List (List Bytes)) (num : Nat) (present : num < files.length) :
    Payload.nextDigest sha (files.drop num) =
      sha (level1Table sha files[num] (Payload.nextDigest sha (files.drop (num + 1)))) := by
  rw [List.drop_eq_getElem_cons present]
  rfl

end Link

/-! ## One round -/

section Round

variable {env : Env} {num : Nat} {segments : List Bytes} {s : IsoIo}

def headerLoaded (env : Env) (num : Nat) (segments : List Bytes) (s : IsoIo) : IsoIo :=
  { s with
    openFiles := num :: s.openFiles
    lv1hash := level1Table env.sha segments Digest.zero
    calls := (.rereadHeader num, true) :: (.reopenData num, true) :: s.calls }

theorem header_loads (clean : ∀ call, env.fails call = none)
    (contents : s.disk num = some (fileBytes env.sha segments Digest.zero))
    (fits : segments.length ≤ segmentsPerFile) (buffer : s.lv1hash.length = 0x1000) :
    getHeaderData env num s = (some ⟨num, 0x1000⟩, headerLoaded env num segments s) := by
  have header := file_bytes_header env.sha Digest.zero fits
  have size := level1_table_length env.sha fits Digest.zero
  have long : 0x1000 ≤ (fileBytes env.sha segments Digest.zero).length := by
    rw [fileBytes, List.length_append, size]
    omega
  have loaded : patch s.lv1hash 0 (level1Table env.sha segments Digest.zero) =
      level1Table env.sha segments Digest.zero := by
    have whole := patch_front s.lv1hash [] (level1Table env.sha segments Digest.zero)
      (by rw [size, buffer])
    rwa [List.append_nil, List.append_nil] at whole
  simp [getHeaderData, clean, contents, transferred, header, long, loaded, size, IsoIo.log,
    headerLoaded]

/-- What holds between two rounds: `count` files still wait for their link. -/
structure HeadersFixed (env : Env) (files : List (List Bytes)) (count : Nat) (s : IsoIo) :
    Prop where
  pending : ∀ index < count, (present : index < files.length) →
    s.disk index = some (fileBytes env.sha files[index] Digest.zero)
  final : ∀ index, count ≤ index → s.disk index = files[index]?.map fun segments =>
    fileBytes env.sha segments (Payload.nextDigest env.sha (files.drop (index + 1)))
  hashed : ∀ header ∈ DigestTree.chainHeaders env.sha Digest.zero (level1Table env.sha)
    (files.drop count), header ∈ s.hashed
  buffer : s.lv1hash.length = 0x1000
  closed : s.openFiles = []

variable {files : List (List Bytes)} {count : Nat}

def linkOf (sha : Sha) (files : List (List Bytes)) (num : Nat) : Digest :=
  Payload.nextDigest sha (files.drop (num + 1))

/-- The effect of one round: file `num` is final, its table has been hashed. -/
structure RoundDone (sha : Sha) (files : List (List Bytes)) (num : Nat) (segments : List Bytes)
    (s s' : IsoIo) : Prop where
  written : s'.disk num = some (fileBytes sha segments (linkOf sha files num))
  others : ∀ other, other ≠ num → s'.disk other = s.disk other
  hashed : s'.hashed = level1Table sha segments (linkOf sha files num) :: s.hashed
  buffer : s'.lv1hash = level1Table sha segments (linkOf sha files num)
  handles : s'.openFiles = s.openFiles
  progress : Progress s s'

theorem headers_fixed_step (valid : ∀ segments ∈ files, IsFile segments)
    (present : count < files.length) {s' : IsoIo} (fixed : HeadersFixed env files (count + 1) s)
    (done : RoundDone env.sha files count files[count] s s') : HeadersFixed env files count s' := by
  have fits := (valid files[count] (List.getElem_mem present)).fits
  refine ⟨?_, ?_, ?_, ?_, done.handles.trans fixed.closed⟩
  · intro index earlier inFiles
    rw [done.others index (Nat.ne_of_lt earlier)]
    exact fixed.pending index (by omega) inFiles
  · intro index later
    by_cases here : index = count
    · rw [here, List.getElem?_eq_getElem present]
      exact done.written
    · rw [done.others index here]
      exact fixed.final index (by omega)
  · intro header member
    rw [List.drop_eq_getElem_cons present] at member
    rw [done.hashed]
    rcases List.mem_cons.mp member with same | later
    · rw [same]
      exact List.mem_cons_self
    · exact List.mem_cons_of_mem _ (fixed.hashed header later)
  · rw [done.buffer]
    exact level1_table_length env.sha fits _

theorem last_header_round (clean : ∀ call, env.fails call = none)
    (contents : s.disk num = some (fileBytes env.sha segments Digest.zero))
    (fits : segments.length ≤ segmentsPerFile) (buffer : s.lv1hash.length = 0x1000)
    (last : files.length ≤ num + 1) (hashInfo : Digest) :
    ∃ s', fixHeader env num num hashInfo s =
        (some (env.sha (level1Table env.sha segments (linkOf env.sha files num))), s') ∧
      RoundDone env.sha files num segments s s' := by
  have empty : linkOf env.sha files num = Digest.zero := by
    rw [linkOf, List.drop_eq_nil_of_le last]
    rfl
  refine ⟨{ headerLoaded env num segments s with
    hashed := level1Table env.sha segments Digest.zero :: s.hashed
    openFiles := s.openFiles }, ?_, ?_⟩
  · rw [fixHeader, header_loads clean contents fits buffer, empty]
    simp only [ne_eq, not_true_eq_false, if_false, fclose, headerLoaded, List.erase_cons_head]
  · refine ⟨?_, fun _ _ => rfl, ?_, ?_, rfl, rfl, rfl, rfl, ?_, ?_⟩
    · rw [empty]
      exact contents
    · rw [empty]
    · rw [empty]
      rfl
    · intro block member
      exact List.mem_cons_of_mem _ member
    · intro entry member
      simp only [headerLoaded, List.mem_cons] at member
      rcases member with rfl | rfl | earlier
      · exact Or.inr rfl
      · exact Or.inr rfl
      · exact Or.inl earlier

/-- The round of any other file: the link is patched in and the table written. -/
theorem inner_header_round (clean : ∀ call, env.fails call = none)
    (contents : s.disk num = some (fileBytes env.sha segments Digest.zero))
    (fits : segments.length ≤ segmentsPerFile) (buffer : s.lv1hash.length = 0x1000)
    {lastFile : Nat} (inner : num ≠ lastFile) :
    ∃ s', fixHeader env lastFile num (linkOf env.sha files num) s =
        (some (env.sha (level1Table env.sha segments (linkOf env.sha files num))), s') ∧
      RoundDone env.sha files num segments s s' := by
  have patched := link_patched env.sha fits (linkOf env.sha files num)
  have linked := file_bytes_linked env.sha fits (linkOf env.sha files num)
  refine ⟨{ headerLoaded env num segments s with
    lv1hash := level1Table env.sha segments (linkOf env.sha files num)
    disk := Function.update s.disk num
      (some (fileBytes env.sha segments (linkOf env.sha files num)))
    calls := (.rewriteHeader num, true) :: (headerLoaded env num segments s).calls
    hashed := level1Table env.sha segments (linkOf env.sha files num) :: s.hashed
    openFiles := s.openFiles }, ?_, ?_⟩
  · rw [fixHeader, header_loads clean contents fits buffer]
    simp only [inner, ne_eq, not_false_eq_true, if_true, headerLoaded, patched,
      writeHeaderToFile, fwrite_succeeds (clean _), contents, Option.getD_some, linked, fclose,
      List.erase_cons_head, IsoIo.log]
  · refine ⟨Function.update_self _ _ _, fun _ other => Function.update_of_ne other _ _,
      rfl, rfl, rfl, rfl, rfl, rfl, ?_, ?_⟩
    · intro block member
      exact List.mem_cons_of_mem _ member
    · intro entry member
      simp only [headerLoaded, List.mem_cons] at member
      rcases member with rfl | rfl | rfl | earlier
      · exact Or.inr rfl
      · exact Or.inr rfl
      · exact Or.inr rfl
      · exact Or.inl earlier

theorem fix_header_step (clean : ∀ call, env.fails call = none)
    (valid : ∀ segments ∈ files, IsFile segments) (present : count < files.length)
    (fixed : HeadersFixed env files (count + 1) s) :
    ∃ s', fixHeader env (files.length - 1) count (linkOf env.sha files count) s =
        (some (Payload.nextDigest env.sha (files.drop count)), s') ∧
      HeadersFixed env files count s' ∧ Progress s s' := by
  have fits := (valid files[count] (List.getElem_mem present)).fits
  have contents := fixed.pending count (Nat.lt_succ_self count) present
  have round : ∃ s', fixHeader env (files.length - 1) count (linkOf env.sha files count) s =
      (some (env.sha (level1Table env.sha files[count] (linkOf env.sha files count))), s') ∧
      RoundDone env.sha files count files[count] s s' := by
    by_cases last : count = files.length - 1
    · rw [← last]
      exact last_header_round clean contents fits fixed.buffer (by omega) _
    · exact inner_header_round clean contents fits fixed.buffer last
  obtain ⟨s', run, done⟩ := round
  refine ⟨s', ?_, headers_fixed_step valid present fixed done, done.progress⟩
  rw [run, next_digest_step env.sha files count present]
  rfl

theorem fix_headers_run (clean : ∀ call, env.fails call = none)
    (valid : ∀ segments ∈ files, IsFile segments) (present : count ≤ files.length)
    (fixed : HeadersFixed env files count s) :
    ∃ s', fixHeaders env (files.length - 1) count
        (Payload.nextDigest env.sha (files.drop count)) s =
        (some (Payload.nextDigest env.sha files), s') ∧
      HeadersFixed env files 0 s' ∧ Progress s s' := by
  induction count generalizing s with
  | zero => exact ⟨s, rfl, fixed, Progress.refl s⟩
  | succ count ih =>
      obtain ⟨s', round, next, step⟩ := fix_header_step clean valid (by omega) fixed
      obtain ⟨s'', run, done, progress⟩ := ih (by omega) next
      refine ⟨s'', ?_, done, step.trans progress⟩
      rw [linkOf] at round
      rw [fixHeaders, round]
      exact run

end Round

/-! ## `isoToSvod` -/

section Convert

variable {env : Env} {minSector maxSector : UInt32} {isoPos : Nat} {headerBuffer : Bytes}

/-- The result of a conversion: the layout of the payload on the disk, the
digest of its first table in the header, and everything under a digest hashed. -/
structure Converted (env : Env) (payload : Payload) (s s' : IsoIo) : Prop where
  disk : ∀ num, s'.disk num = payload.dataFile env.sha num
  header : s'.headerBuffer = patch s.headerBuffer firstFragmentHashOffset
    (Payload.nextDigest env.sha payload.files).bytes
  segments : ∀ segment ∈ payload.segments, SegmentHashed env.sha segment s'
  chain : ∀ header ∈ DigestTree.chainHeaders env.sha Digest.zero (level1Table env.sha)
    payload.files, header ∈ s'.hashed
  succeeded : ∀ entry ∈ s'.calls, entry.2 = true
  minSector : s'.minSector = s.minSector
  maxSector : s'.maxSector = s.maxSector

def firstFragmentHash (s : IsoIo) : Bytes := slice s.headerBuffer firstFragmentHashOffset 0x14

theorem converted_first_fragment {payload : Payload} {s s' : IsoIo}
    (size : s.headerBuffer.length = headerSize) (converted : Converted env payload s s') :
    firstFragmentHash s' = (Payload.nextDigest env.sha payload.files).bytes := by
  have written := slice_patch_same s.headerBuffer firstFragmentHashOffset
    (Payload.nextDigest env.sha payload.files).bytes (by rw [size]; decide)
  rw [(Payload.nextDigest env.sha payload.files).size] at written
  rw [firstFragmentHash, converted.header]
  exact written

/-- The state in front of the header pass is the invariant's first instance. -/
theorem body_headers_fixed {payload : Payload} {s' : IsoIo}
    (done : BodyDone env 0 payload.files payload.segments
      (volumeLoaded env (IsoIo.initial minSector maxSector isoPos headerBuffer)) s') :
    HeadersFixed env payload.files payload.files.length s' := by
  have positive := payload_files_positive payload
  refine ⟨?_, ?_, ?_, done.level1, done.closed⟩
  · intro index _ present
    have written := done.written index present
    rwa [Nat.zero_add] at written
  · intro index past
    have untouched := done.after index (by omega)
    have other : index ≠ 0 := by omega
    rw [untouched, List.getElem?_eq_none past]
    exact Function.update_of_ne other _ _
  · intro header member
    rw [List.drop_length] at member
    cases member

theorem fix_iso_headers_run (clean : ∀ call, env.fails call = none) {payload : Payload}
    {s : IsoIo} (fixed : HeadersFixed env payload.files payload.files.length s) :
    ∃ s', fixIsoHeaders env (payload.files.length - 1) s = (true, { s' with
        headerBuffer := patch s'.headerBuffer firstFragmentHashOffset
          (Payload.nextDigest env.sha payload.files).bytes }) ∧
      HeadersFixed env payload.files 0 s' ∧ Progress s s' := by
  have positive := payload_files_positive payload
  obtain ⟨s', run, done, progress⟩ :=
    fix_headers_run clean (fun segments member => payload_file member) (Nat.le_refl _) fixed
  refine ⟨s', ?_, done, progress⟩
  have count : payload.files.length - 1 + 1 = payload.files.length := by omega
  have unlinked : Payload.nextDigest env.sha [] = Digest.zero := rfl
  rw [List.drop_length, unlinked] at run
  rw [fixIsoHeaders, count, run]

theorem iso_to_svod_run (isoPos : Nat) (headerBuffer : Bytes)
    (range : SectorRange minSector maxSector)
    (success : AllSucceeds env maxSector)
    (several : 1 < (payloadOf range success).files.length) :
    let s := IsoIo.initial minSector maxSector isoPos headerBuffer
    ∃ s', isoToSvod env s = (true, s') ∧ Converted env (payloadOf range success) s s' := by
  intro s
  obtain ⟨written, body, done⟩ :=
    write_iso_body_run isoPos headerBuffer range success
  obtain ⟨linked, pass, fixed, progress⟩ :=
    fix_iso_headers_run success.calls (body_headers_fixed done)
  have last : (payloadOf range success).files.length - 1 ≠ 0 := by omega
  refine ⟨{ linked with
    headerBuffer := patch linked.headerBuffer firstFragmentHashOffset
      (Payload.nextDigest env.sha (payloadOf range success).files).bytes }, ?_, ?_⟩
  · rw [isoToSvod, body]
    simp only [last, ne_eq, not_false_eq_true, if_true]
    rw [pass]
  · refine ⟨?_, ?_, ?_, fixed.hashed, ?_, ?_, ?_⟩
    · intro num
      exact fixed.final num (Nat.zero_le num)
    · change patch linked.headerBuffer _ _ = _
      rw [progress.headerBuffer, done.progress.headerBuffer]
      rfl
    · intro segment member
      have hashed : SegmentHashed env.sha segment linked :=
        (done.hashed segment member).mono progress
      exact hashed
    · intro entry member
      rcases progress.succeeded entry member with earlier | ok
      · rcases done.progress.succeeded entry earlier with first | ok
        · simp only [volumeLoaded, fileStarted, IsoIo.initial, List.mem_cons,
            List.not_mem_nil, or_false] at first
          rcases first with rfl | rfl | rfl <;> rfl
        · exact ok
      · exact ok
    · exact progress.minSector.trans done.progress.minSector
    · exact progress.maxSector.trans done.progress.maxSector

/-- A payload of one file: the file number is zero, which reads as a failure. -/
theorem iso_to_svod_single_file (isoPos : Nat) (headerBuffer : Bytes)
    (range : SectorRange minSector maxSector)
    (success : AllSucceeds env maxSector)
    (single : (payloadOf range success).files.length = 1) :
    (isoToSvod env (IsoIo.initial minSector maxSector isoPos headerBuffer)).1 = false := by
  obtain ⟨written, body, _⟩ :=
    write_iso_body_run isoPos headerBuffer range success
  rw [isoToSvod, body, single]
  rfl

theorem iso_to_svod_result (isoPos : Nat) (headerBuffer : Bytes)
    (range : SectorRange minSector maxSector)
    (success : AllSucceeds env maxSector) :
    (isoToSvod env (IsoIo.initial minSector maxSector isoPos headerBuffer)).1 = true ↔
      1 < (payloadOf range success).files.length := by
  have positive := payload_files_positive (payloadOf range success)
  constructor
  · intro result
    by_contra few
    have single : (payloadOf range success).files.length = 1 := by omega
    rw [iso_to_svod_single_file isoPos headerBuffer range success single] at result
    cases result
  · intro several
    obtain ⟨s', run, _⟩ :=
      iso_to_svod_run isoPos headerBuffer range success several
    rw [run]

/-- Whenever a run without failures reports success, it has converted. -/
theorem iso_to_svod_converted (range : SectorRange minSector maxSector)
    (success : AllSucceeds env maxSector) {s' : IsoIo}
    (run : isoToSvod env (IsoIo.initial minSector maxSector isoPos headerBuffer) = (true, s')) :
    Converted env (payloadOf range success)
      (IsoIo.initial minSector maxSector isoPos headerBuffer) s' := by
  have several := (iso_to_svod_result isoPos headerBuffer
    range success).mp (by rw [run])
  obtain ⟨s'', converted, result⟩ :=
    iso_to_svod_run isoPos headerBuffer range success several
  rw [run] at converted
  cases converted
  exact result

/-- What success means for the size of the disc: more blocks than one file holds. -/
theorem several_files_iff (range : SectorRange minSector maxSector)
    (success : AllSucceeds env maxSector) :
    1 < (payloadOf range success).files.length ↔
      0xCB * 0xCC < (maxSector.toNat - minSector.toNat) / 2 + 1 := by
  have minEven := range.minEven
  have maxEven := range.maxEven
  have files : 1 < (payloadOf range success).files.length ↔
      1 * segmentsPerFile < (payloadOf range success).segments.length :=
    lt_chunks_length (by decide) _ 1
  have segments : 1 * segmentsPerFile < (payloadOf range success).segments.length ↔
      1 * segmentsPerFile * segmentSize < (payloadOf range success).bytes.length :=
    lt_chunks_length (by decide) _ _
  have length : (payloadOf range success).bytes.length =
      0x1000 + (maxSector.toNat - minSector.toNat) * 0x800 := iso_payload_length range success
  rw [files, segments, length, segmentsPerFile, segmentSize]
  omega

end Convert

/-! ## A disc of two files -/

def leadingBytes (data : Bytes) : Digest :=
  ⟨(data ++ zeros 0x14).take 0x14, by simp [XECRYPT_SHA_DIGEST_SIZE]⟩

def blankDisc (sectors : Nat) : Env where
  sha := leadingBytes
  isoData := List.replicate (sectors * XGD_SECTOR_SIZE) 1
  baseOffset := 0
  fails := fun _ => none

theorem blank_disc_succeeds {sectors : Nat} {maxSector : UInt32} (last : maxSector.toNat ≤ sectors)
    (volume : SVOD_START_SECTOR + 2 ≤ sectors) : AllSucceeds (blankDisc sectors) maxSector := by
  have length : (blankDisc sectors).isoData.length = sectors * XGD_SECTOR_SIZE :=
    List.length_replicate
  have start : SVOD_START_SECTOR * XGD_SECTOR_SIZE + 0x1000 =
      (SVOD_START_SECTOR + 2) * XGD_SECTOR_SIZE := by
    decide
  refine ⟨fun _ => rfl, ?_, ?_⟩
  · change SVOD_START_SECTOR * XGD_SECTOR_SIZE + 0 + 0x1000 ≤ _
    rw [length, Nat.add_zero, start]
    exact Nat.mul_le_mul_right _ volume
  · change maxSector.toNat * XGD_SECTOR_SIZE + 0 ≤ _
    rw [length, Nat.add_zero]
    exact Nat.mul_le_mul_right _ last

theorem blank_disc_payload {sectors : Nat} {minSector maxSector : UInt32}
    (range : SectorRange minSector maxSector)
    (success : AllSucceeds (blankDisc sectors) maxSector) :
    isoPayload (blankDisc sectors) minSector maxSector =
      List.replicate 0x1000 1 ++
        List.replicate ((maxSector.toNat - minSector.toNat) * XGD_SECTOR_SIZE) 1 := by
  have length : (blankDisc sectors).isoData.length = sectors * XGD_SECTOR_SIZE :=
    List.length_replicate
  have volume := success.volume
  have sectorsFit := range_in_image range success
  rw [length] at volume sectorsFit
  have front : slice (blankDisc sectors).isoData _ 0x1000 = List.replicate 0x1000 1 :=
    slice_replicate 1 _ _ _ volume
  have back : slice (blankDisc sectors).isoData _ _ = List.replicate _ 1 :=
    slice_replicate 1 _ _ _ sectorsFit
  rw [isoPayload, front, back]

end XeBuild.Iso2svod
