import XeBuild.SuCheck.ManifestRun

/-!
# What the totals tell

The counters of a run against the items that had to be verified. An item that
was not read raises no counter, so equal totals speak for all items only in runs
that read all of them, read none, or found a bad one.
-/

namespace XeBuild.SuCheck

open ListRange

set_option autoImplicit false

section Totals

variable (env : CheckEnv) (body : Nat → Byte) (sbuf : Bytes)

/-- An item with a source name that is a container, a file or named `flash`. -/
def MustVerify (item : Nat) : Prop :=
  let view := itemView schema3 body item
  view.entry.srcNameOff ≠ 0 ∧
    ((itemNames view (heldName schema3 body sbuf item)).compared = flashName ∨
      view.entry.entryType = 2 ∨ view.entry.entryType = 3)

def ItemPassed (item : Nat) : Prop :=
  ∃ use, useAt env schema3 body sbuf item = some use ∧ env.outcome item use.call = .passed

def CheckEnv.Reads (env : CheckEnv) (item : Nat) (call : VerifyCall) : Prop :=
  call.len ≠ 0 ∧ ∃ fdata, env.readFileToBuf item call.cfilename = some fdata ∧ fdata.length ≠ 0

def CheckEnv.Rejects (env : CheckEnv) (item : Nat) (call : VerifyCall) : Prop :=
  call.len ≠ 0 ∧ ∃ fdata, env.readFileToBuf item call.cfilename = some fdata ∧
    fdata.length ≠ 0 ∧ call.check env.sha fdata = .failed

/-- The run ends without an undefined step, and equal totals mean that every
item passed. -/
def TotalsTell (w : ManifestWalk) : Prop :=
  w.defined = true ∧ ∀ total, printedTotals w = some (total, total) →
    ∀ item < numEntries body, MustVerify body sbuf item → ItemPassed env body sbuf item

variable {env body sbuf}

theorem use_at_some_iff (item : Nat) :
    (∃ use, useAt env schema3 body sbuf item = some use) ↔ MustVerify body sbuf item := by
  rw [useAt, MustVerify, itemUse]
  by_cases noName : (itemView schema3 body item).entry.srcNameOff = 0
  · simp [noName]
  by_cases flash : (itemNames (itemView schema3 body item)
      (heldName schema3 body sbuf item)).compared = flashName
  · simp [noName, flash]
  by_cases container : (itemView schema3 body item).entry.entryType = 2
  · simp [noName, flash, container]
  by_cases file : (itemView schema3 body item).entry.entryType = 3
  · simp [noName, flash, file]
  · simp [noName, flash, container, file]

/-! ## Outcomes -/

theorem check_not_unread (sha : Sha) (fdata : Bytes) (call : VerifyCall) :
    call.check sha fdata ≠ .unread := by
  cases call with
  | container cfilename len expVer doCopy isSupd =>
      rw [VerifyCall.check]
      cases conCheckHeader sha fdata fdata.length expVer isSupd with
      | error => simp
      | ok good => cases good <;> simp
  | file cfilename len hdat =>
      rw [VerifyCall.check]
      split_ifs <;> simp

theorem outcome_unread_iff (item : Nat) (call : VerifyCall) :
    env.outcome item call = .unread ↔ ¬ env.Reads item call := by
  rw [CheckEnv.outcome, CheckEnv.Reads]
  by_cases empty : call.len = 0
  · simp [empty]
  rw [if_neg empty]
  cases env.readFileToBuf item call.cfilename with
  | none => simp
  | some fdata =>
      by_cases emptyFile : fdata = []
      · simp [emptyFile]
      · simp [empty, emptyFile, check_not_unread]

theorem outcome_failed_iff (item : Nat) (call : VerifyCall) :
    env.outcome item call = .failed ↔ env.Rejects item call := by
  rw [CheckEnv.outcome, CheckEnv.Rejects]
  by_cases empty : call.len = 0
  · simp [empty]
  rw [if_neg empty]
  cases env.readFileToBuf item call.cfilename with
  | none => simp
  | some fdata =>
      by_cases emptyFile : fdata = []
      · simp [emptyFile]
      · simp [empty, emptyFile]

theorem count_counted (outcomes : Nat → Outcome) (items : List Nat) :
    items.countP (fun item => (outcomes item).counted) =
      items.countP (fun item => outcomes item = .passed) +
        items.countP (fun item => outcomes item = .failed) := by
  induction items with
  | nil => rfl
  | cons item items ih =>
      simp only [List.countP_cons, ih]
      cases outcomes item <;> simp [Outcome.counted] <;> omega

/-! ## The totals -/

theorem printed_totals_agree_iff (w : ManifestWalk) :
    (∃ total, printedTotals w = some (total, total)) ↔
      w.ttlChecked ≠ 0 ∧ w.ttlOk = w.ttlChecked := by
  rw [printedTotals, ManifestWalk.ttlChecked, ManifestWalk.ttlOk]
  by_cases counted : w.ttlFilesChecked ≠ 0 ∨ w.ttlConChecked ≠ 0
  · rw [if_pos counted]
    simp only [Option.some.injEq, Prod.mk.injEq, exists_eq_left']
    omega
  · rw [if_neg counted]
    simp only [reduceCtorEq, exists_false, false_iff]
    omega

theorem accepted_parse {man : ManifestBuffer} (accepted : Accepted env.sha man 3)
    (w : ManifestWalk) : parseManifest env man w = verifyManifestItems env man.body w := by
  have size : ¬ (0x10000 < man.len ∨ man.len < 0x164) := by
    have atLeast := accepted.atLeast
    have atMost := accepted.atMost
    omega
  rw [parseManifest, if_neg size, if_pos accepted.header, if_neg (by rw [accepted.schema]; decide),
    if_pos accepted.schema]

/-- No item is read, or a file that is read is rejected, or all are read. -/
def TotalsCondition (env : CheckEnv) (body : Nat → Byte) (sbuf : Bytes) : Prop :=
  (∀ item < numEntries body, ∀ use, useAt env schema3 body sbuf item = some use →
      ¬ env.Reads item use.call) ∨
    (∃ item < numEntries body, ∃ use, useAt env schema3 body sbuf item = some use ∧
      env.Rejects item use.call) ∨
    ∀ item < numEntries body, ∀ use, useAt env schema3 body sbuf item = some use →
      env.Reads item use.call

theorem outcome_at_of_use {item : Nat} {use : ItemUse}
    (found : useAt env schema3 body sbuf item = some use) :
    outcomeAt env schema3 body sbuf item = env.outcome item use.call := by
  rw [outcomeAt, found, CheckEnv.useOutcome]

theorem outcome_at_of_none {item : Nat} (found : useAt env schema3 body sbuf item = none) :
    outcomeAt env schema3 body sbuf item = .unread := by
  rw [outcomeAt, found, CheckEnv.useOutcome]

/-- When some item was counted and none failed, equal totals are printed, and
all items passed exactly when all were read. -/
theorem all_passed_iff_all_read
    (steps : ∀ item < numEntries body, outcomeAt env schema3 body sbuf item ≠ .undefined)
    (noFailure : ∀ item < numEntries body, outcomeAt env schema3 body sbuf item ≠ .failed) :
    (∀ item < numEntries body, MustVerify body sbuf item → ItemPassed env body sbuf item) ↔
      ∀ item < numEntries body, ∀ use, useAt env schema3 body sbuf item = some use →
        env.Reads item use.call := by
  constructor
  · intro passed item bound use found
    have must := (use_at_some_iff item).mp ⟨use, found⟩
    obtain ⟨other, same, good⟩ := passed item bound must
    obtain rfl := Option.some.inj (found.symm.trans same)
    by_contra unread
    rw [(outcome_unread_iff item use.call).mpr unread] at good
    cases good
  · intro read item bound must
    obtain ⟨use, found⟩ := (use_at_some_iff item).mpr must
    refine ⟨use, found, ?_⟩
    have reads := read item bound use found
    have notUndefined := steps item bound
    have notFailed := noFailure item bound
    rw [outcome_at_of_use found] at notUndefined notFailed
    have notUnread : env.outcome item use.call ≠ .unread := fun unread =>
      (outcome_unread_iff item use.call).mp unread reads
    cases outcome : env.outcome item use.call with
    | passed => rfl
    | unread => exact absurd outcome notUnread
    | failed => exact absurd outcome notFailed
    | undefined => exact absurd outcome notUndefined

theorem run_outcome_cases {item : Nat} (counted : (outcomeAt env schema3 body sbuf item).counted) :
    ∃ use, useAt env schema3 body sbuf item = some use ∧ env.Reads item use.call := by
  cases found : useAt env schema3 body sbuf item with
  | none =>
      rw [outcome_at_of_none found] at counted
      cases counted
  | some use =>
      refine ⟨use, rfl, ?_⟩
      rw [outcome_at_of_use found] at counted
      by_contra unread
      rw [(outcome_unread_iff item use.call).mpr unread] at counted
      cases counted

theorem rejects_of_failed {item : Nat}
    (failed : outcomeAt env schema3 body sbuf item = .failed) :
    ∃ use, useAt env schema3 body sbuf item = some use ∧ env.Rejects item use.call := by
  cases found : useAt env schema3 body sbuf item with
  | none =>
      rw [outcome_at_of_none found] at failed
      cases failed
  | some use =>
      rw [outcome_at_of_use found] at failed
      exact ⟨use, rfl, (outcome_failed_iff item use.call).mp failed⟩

theorem failed_of_rejects {item : Nat} {use : ItemUse}
    (found : useAt env schema3 body sbuf item = some use) (rejects : env.Rejects item use.call) :
    outcomeAt env schema3 body sbuf item = .failed := by
  rw [outcome_at_of_use found]
  exact (outcome_failed_iff item use.call).mpr rejects

theorem not_reads_of_not_counted {item : Nat} {use : ItemUse}
    (step : outcomeAt env schema3 body sbuf item ≠ .undefined)
    (notCounted : ¬ (outcomeAt env schema3 body sbuf item).counted)
    (found : useAt env schema3 body sbuf item = some use) : ¬ env.Reads item use.call := by
  rw [outcome_at_of_use found] at step notCounted
  cases outcome : env.outcome item use.call with
  | unread => exact (outcome_unread_iff item use.call).mp outcome
  | failed => simp [outcome, Outcome.counted] at notCounted
  | passed => simp [outcome, Outcome.counted] at notCounted
  | undefined => exact absurd outcome step

theorem count_range_pos {count item : Nat} {p : Nat → Bool} (bound : item < count)
    (holds : p item) : 0 < (List.range count).countP p :=
  List.countP_pos_iff.mpr ⟨item, List.mem_range.mpr bound, holds⟩

theorem count_range_zero {count : Nat} {p : Nat → Bool} (never : ∀ item < count, ¬ p item) :
    (List.range count).countP p = 0 := by
  rw [List.countP_eq_zero]
  intro item member
  exact never item (List.mem_range.mp member)

theorem totals_tell_of_leaves {w : ManifestWalk}
    (leaves : WalkLeaves env schema3 body sbuf (numEntries body) w)
    (steps : ∀ item < numEntries body, outcomeAt env schema3 body sbuf item ≠ .undefined) :
    (∀ total, printedTotals w = some (total, total) →
        ∀ item < numEntries body, MustVerify body sbuf item → ItemPassed env body sbuf item) ↔
      TotalsCondition env body sbuf := by
  have agree := printed_totals_agree_iff w
  have split := count_counted (outcomeAt env schema3 body sbuf) (List.range (numEntries body))
  rw [leaves.ttlChecked, leaves.ttlOk, split] at agree
  by_cases failure : ∃ item < numEntries body, outcomeAt env schema3 body sbuf item = .failed
  · -- A failed item keeps the totals apart.
    rcases failure with ⟨item, bound, failed⟩
    have positive : 0 < (List.range (numEntries body)).countP fun item =>
        outcomeAt env schema3 body sbuf item = .failed := by
      apply count_range_pos bound
      rw [failed]
      rfl
    constructor
    · intro _
      exact Or.inr (Or.inl ⟨item, bound, rejects_of_failed failed⟩)
    · intro _ total printed
      have same := (agree.mp ⟨total, printed⟩).2
      omega
  · push Not at failure
    have allPassed := all_passed_iff_all_read steps failure
    have noRejection : ¬ ∃ item < numEntries body, ∃ use,
        useAt env schema3 body sbuf item = some use ∧ env.Rejects item use.call := by
      intro rejection
      rcases rejection with ⟨item, bound, use, found, rejects⟩
      exact failure item bound (failed_of_rejects found rejects)
    have none : (List.range (numEntries body)).countP (fun item =>
        outcomeAt env schema3 body sbuf item = .failed) = 0 := by
      apply count_range_zero
      intro item bound
      simpa using failure item bound
    rw [none, Nat.add_zero] at agree split
    by_cases counted : ∃ item < numEntries body, (outcomeAt env schema3 body sbuf item).counted
    · rcases counted with ⟨item, bound, isCounted⟩
      have positive := @count_range_pos (numEntries body) item
        (fun item => (outcomeAt env schema3 body sbuf item).counted) bound isCounted
      rcases agree.mpr ⟨by omega, rfl⟩ with ⟨total, printed⟩
      have notNone : ¬ ∀ item < numEntries body, ∀ use,
          useAt env schema3 body sbuf item = some use → ¬ env.Reads item use.call := by
        intro unread
        rcases run_outcome_cases isCounted with ⟨use, found, reads⟩
        exact unread item bound use found reads
      rw [TotalsCondition, or_iff_right notNone, or_iff_right noRejection, ← allPassed]
      exact ⟨fun passed => passed total printed, fun passed _ _ => passed⟩
    · push Not at counted
      have zero := count_range_zero counted
      constructor
      · intro _
        left
        intro item bound use found
        exact not_reads_of_not_counted (steps item bound) (counted item bound) found
      · intro _ total printed
        have some := (agree.mp ⟨total, printed⟩).1
        omega

/-- Equal totals of a run tell that every item passed exactly when every step is
defined and no item is read, or a file that is read is rejected, or all are read. -/
theorem totals_tell_iff {man : ManifestBuffer} (accepted : Accepted env.sha man 3)
    (sbuf : Bytes) :
    TotalsTell env man.body sbuf (parseManifest env man (.start sbuf)) ↔
      (∀ item < numEntries man.body, roundDefined env schema3 man.body sbuf item = true) ∧
        TotalsCondition env man.body sbuf := by
  have leaves := @walk_items_leaves env schema3 man.body sbuf (numEntries man.body)
  have defined : (parseManifest env man (.start sbuf)).defined = true ↔
      ∀ item < numEntries man.body, roundDefined env schema3 man.body sbuf item = true := by
    rw [accepted_parse accepted, verifyManifestItems, leaves.defined, List.all_eq_true]
    simp only [List.mem_range]
  rw [TotalsTell, defined]
  apply and_congr_right
  intro steps
  rw [accepted_parse accepted, verifyManifestItems]
  apply totals_tell_of_leaves leaves
  intro item bound
  have step := steps item bound
  rw [roundDefined, Bool.and_eq_true, bne_iff_ne] at step
  exact step.2

end Totals

/-! ## A missing file -/

/-- A manifest body of schema 3 with two files of one byte, `a` and `b`. -/
def twoFileFields : Bytes :=
  [0x78, 0x73, 0x79, 0x6D, 0, 0, 0, 0xF8] ++ zeros 8 ++ [0, 0, 0, 3] ++ zeros 0x18 ++ [0, 0, 0, 2] ++
    ([0, 0, 0, 0xF0] ++ zeros 4 ++ [0, 0, 0, 1] ++ zeros 0xC ++ [0, 0, 0, 3] ++ zeros 4 ++
      [0, 0, 0, 0xF0] ++ zeros 0x3C) ++
    ([0, 0, 0, 0xF4] ++ zeros 4 ++ [0, 0, 0, 1] ++ zeros 0xC ++ [0, 0, 0, 3] ++ zeros 4 ++
      [0, 0, 0, 0xF4] ++ zeros 0x3C) ++ [0, 1, 0x61, 0, 0, 1, 0x62, 0]

def twoFileBody (sha : Sha) : Nat → Byte :=
  storeBytes (fun offset => twoFileFields.getD offset 0) 0x68 (sha [0x2A]).bytes

def twoFileEntry (srcNameOff : Nat) (dataHash : Bytes) : ItemEntry where
  srcNameOff := srcNameOff
  fileSize := 1
  versionOff := 0
  flagsOff := 0
  entryType := 3
  intNameOff := 0
  destNameOff := srcNameOff
  dataHash := dataHash
  contentType := 0
  contentTitleId := 0

theorem two_file_byte (sha : Sha) {offset : Nat} (apart : offset < 0x68 ∨ 0x7C ≤ offset) :
    twoFileBody sha offset = twoFileFields.getD offset 0 := by
  rw [twoFileBody, storeBytes, if_neg]
  rw [(sha [0x2A]).size, XECRYPT_SHA_DIGEST_SIZE]
  omega

theorem two_file_bytes (sha : Sha) {offset size : Nat}
    (apart : offset + size ≤ 0x68 ∨ 0x7C ≤ offset) :
    bytesAt (twoFileBody sha) offset size =
      bytesAt (fun offset => twoFileFields.getD offset 0) offset size := by
  apply bytes_at_congr
  intro index bound
  exact two_file_byte sha (by omega)

theorem two_file_word (sha : Sha) {offset : Nat} (apart : offset + 4 ≤ 0x68 ∨ 0x7C ≤ offset) :
    be32At (twoFileBody sha) offset =
      be32At (fun offset => twoFileFields.getD offset 0) offset := by
  rw [be32At, two_file_bytes sha apart, be32At]

theorem two_file_string (sha : Sha) {offset : Nat} (apart : 0x7C ≤ offset) :
    manifestString (twoFileBody sha) offset =
      manifestString (fun offset => twoFileFields.getD offset 0) offset := by
  rw [manifestString, manifestString, be16At, be16At, two_file_byte sha (by omega),
    two_file_byte sha (by omega), two_file_bytes sha (by omega)]

theorem two_file_entries (sha : Sha) :
    itemEntry schema3 (twoFileBody sha) 0 = twoFileEntry 0xF0 (sha [0x2A]).bytes ∧
      itemEntry schema3 (twoFileBody sha) 1 = twoFileEntry 0xF4 (zeros 0x14) := by
  have hash : bytesAt (twoFileBody sha) 0x68 XECRYPT_SHA_DIGEST_SIZE = (sha [0x2A]).bytes := by
    have stored := bytes_at_store (fun offset => twoFileFields.getD offset 0) 0x68
      (sha [0x2A]).bytes
    rwa [(sha [0x2A]).size] at stored
  constructor
  · simp only [itemEntry, schema3, entryOffset, entriesOffset, Nat.mul_zero, Nat.reduceAdd, hash]
    simp only [two_file_word sha, Nat.reduceAdd, Nat.reduceLeDiff, true_or, or_true]
    rfl
  · have noHash : bytesAt (twoFileBody sha) 0xC8 XECRYPT_SHA_DIGEST_SIZE = zeros 0x14 := by
      rw [two_file_bytes sha (by omega)]
      rfl
    simp only [itemEntry, schema3, entryOffset, entriesOffset, Nat.mul_one, Nat.reduceAdd, noHash]
    simp only [two_file_word sha, Nat.reduceAdd, Nat.reduceLeDiff, or_true]
    rfl

theorem two_file_views (sha : Sha) :
    itemView schema3 (twoFileBody sha) 0 =
        ⟨twoFileEntry 0xF0 (sha [0x2A]).bytes, some [0x61], none, some [0x61], 0, 0⟩ ∧
      itemView schema3 (twoFileBody sha) 1 =
        ⟨twoFileEntry 0xF4 (zeros 0x14), some [0x62], none, some [0x62], 0, 0⟩ := by
  obtain ⟨first, second⟩ := two_file_entries sha
  have firstName : manifestString (twoFileBody sha) 0xF0 = some [0x61] := by
    rw [two_file_string sha (by omega)]
    decide
  have secondName : manifestString (twoFileBody sha) 0xF4 = some [0x62] := by
    rw [two_file_string sha (by omega)]
    decide
  constructor
  · rw [itemView, first]
    simp [twoFileEntry, firstName]
  · rw [itemView, second]
    simp [twoFileEntry, secondName]

def oneFileEnv (sha : Sha) : CheckEnv where
  sha := sha
  copyToFolder := false
  outbasepath := []
  readFileToBuf := fun _ cfilename =>
    if cfilename = MANIFEST_BASE ++ [0x61] then some [0x2A] else none

def twoFileUse (name : Byte) (dataHash : Bytes) : ItemUse where
  call := .file (MANIFEST_BASE ++ [name]) 1 dataHash
  ver := 0
  dstFile := some (schema3.drive ++ (hex8 0 ++ backslash ++ [name]))
  outfilepath := none

theorem two_file_uses (sha : Sha) (sbuf : Bytes) :
    useAt (oneFileEnv sha) schema3 (twoFileBody sha) sbuf 0 =
        some (twoFileUse 0x61 (sha [0x2A]).bytes) ∧
      useAt (oneFileEnv sha) schema3 (twoFileBody sha) sbuf 1 =
        some (twoFileUse 0x62 (zeros 0x14)) := by
  obtain ⟨first, second⟩ := two_file_views sha
  constructor
  · rw [useAt, first]
    rfl
  · rw [useAt, second]
    rfl

theorem two_file_accepted (sha : Sha) :
    Accepted sha (sealManifest sha (twoFileBody sha) 0x230) 3 := by
  apply seal_accepted
  · decide
  · decide
  · rw [two_file_word sha (by omega)]
    rfl
  · rw [two_file_word sha (by omega)]
    rfl

theorem two_file_count (sha : Sha) : numEntries (twoFileBody sha) = 2 := by
  rw [numEntries, numEntriesOffset, two_file_word sha (by omega)]
  rfl

theorem two_file_outcomes (sha : Sha) :
    (oneFileEnv sha).outcome 0 (twoFileUse 0x61 (sha [0x2A]).bytes).call = .passed ∧
      (oneFileEnv sha).outcome 1 (twoFileUse 0x62 (zeros 0x14)).call = .unread := by
  constructor
  · simp [twoFileUse, oneFileEnv, outcome_file]
  · simp [twoFileUse, oneFileEnv, outcome_file]

theorem two_file_defined (sha : Sha) (sbuf : Bytes) :
    ∀ item < 2, roundDefined (oneFileEnv sha) schema3 (twoFileBody sha) sbuf item = true := by
  obtain ⟨firstView, secondView⟩ := two_file_views sha
  obtain ⟨first, second⟩ := two_file_uses sha sbuf
  obtain ⟨firstOutcome, secondOutcome⟩ := two_file_outcomes sha
  intro item bound
  rcases Nat.le_one_iff_eq_zero_or_eq_one.mp (Nat.le_of_lt_succ bound) with rfl | rfl
  · rw [roundDefined, outcome_at_of_use first, firstOutcome, firstView]
    rfl
  · rw [roundDefined, outcome_at_of_use second, secondOutcome, secondView]
    rfl

/-- The file `b` is missing, and the last line says that one of one files is good. -/
theorem missing_file_not_told :
    ¬ ∃ sha : Sha, ∀ (env : CheckEnv) (man : ManifestBuffer) (sbuf : Bytes), env.sha = sha →
      Accepted sha man 3 → (parseManifest env man (.start sbuf)).defined = true →
        ∀ total, printedTotals (parseManifest env man (.start sbuf)) = some (total, total) →
          ∀ item < numEntries man.body, MustVerify man.body sbuf item →
            ItemPassed env man.body sbuf item := by
  intro claimed
  obtain ⟨sha, claimed⟩ := claimed
  have accepted := two_file_accepted sha
  obtain ⟨first, second⟩ := two_file_uses sha []
  obtain ⟨firstOutcome, secondOutcome⟩ := two_file_outcomes sha
  have parsed : parseManifest (oneFileEnv sha) (sealManifest sha (twoFileBody sha) 0x230)
      (.start []) = walkItems (oneFileEnv sha) schema3 (twoFileBody sha) (.start []) 2 := by
    rw [accepted_parse accepted, verifyManifestItems, seal_body, two_file_count]
  have leaves := @walk_items_leaves (oneFileEnv sha) schema3 (twoFileBody sha) [] 2
  have outcomes : outcomeAt (oneFileEnv sha) schema3 (twoFileBody sha) [] 0 = .passed ∧
      outcomeAt (oneFileEnv sha) schema3 (twoFileBody sha) [] 1 = .unread := by
    rw [outcome_at_of_use first, outcome_at_of_use second]
    exact ⟨firstOutcome, secondOutcome⟩
  have checked := leaves.ttlChecked
  have ok := leaves.ttlOk
  simp only [List.range_succ, List.range_zero, List.nil_append, List.cons_append, List.countP_cons,
    List.countP_nil, outcomes] at checked ok
  obtain ⟨total, printed⟩ := (printed_totals_agree_iff _).mpr
    ⟨by rw [checked]; decide, by rw [ok, checked]; rfl⟩
  have defined : (parseManifest (oneFileEnv sha) (sealManifest sha (twoFileBody sha) 0x230)
      (.start [])).defined = true := by
    rw [parsed, leaves.defined, List.all_eq_true]
    intro item member
    exact two_file_defined sha [] item (List.mem_range.mp member)
  have passed := claimed (oneFileEnv sha) (sealManifest sha (twoFileBody sha) 0x230) [] rfl accepted
    defined total (by rw [parsed, printed]) 1
  rw [seal_body, two_file_count] at passed
  obtain ⟨use, found, good⟩ := passed (by decide) ((use_at_some_iff 1).mp ⟨_, second⟩)
  obtain rfl := Option.some.inj (found.symm.trans second)
  rw [secondOutcome] at good
  cases good

def bothFilesEnv : CheckEnv where
  sha := fun _ => Digest.zero
  copyToFolder := false
  outbasepath := []
  readFileToBuf := fun _ _ => some [0x2A]

def twoFileManifest : ManifestBuffer :=
  sealManifest (fun _ => Digest.zero) (twoFileBody fun _ => Digest.zero) 0x230

theorem both_files_read :
    TotalsCondition bothFilesEnv twoFileManifest.body [] := by
  right
  right
  have count : numEntries twoFileManifest.body = 2 := by decide +kernel
  have sizes : ∀ item < 2, ∀ use, useAt bothFilesEnv schema3 twoFileManifest.body [] item = some use →
      use.call.len ≠ 0 := by
    decide +kernel
  intro item bound use found
  rw [count] at bound
  exact ⟨sizes item bound use found, [0x2A], rfl, by decide⟩

theorem two_file_totals :
    printedTotals (parseManifest bothFilesEnv twoFileManifest (.start [])) = some (2, 2) ∧
      ∀ item < 2, MustVerify twoFileManifest.body [] item ∧
        ItemPassed bothFilesEnv twoFileManifest.body [] item := by
  have accepted : Accepted bothFilesEnv.sha twoFileManifest 3 := two_file_accepted _
  have defined : ∀ item < numEntries twoFileManifest.body,
      roundDefined bothFilesEnv schema3 twoFileManifest.body [] item = true := by
    decide +kernel
  have printed : printedTotals (parseManifest bothFilesEnv twoFileManifest (.start [])) =
      some (2, 2) := by
    decide +kernel
  have used : ∀ item < 2, (useAt bothFilesEnv schema3 twoFileManifest.body [] item).isSome := by
    decide +kernel
  have tells := (totals_tell_iff accepted []).mpr ⟨defined, both_files_read⟩
  refine ⟨printed, ?_⟩
  intro item bound
  have must := (use_at_some_iff item).mp (Option.isSome_iff_exists.mp (used item bound))
  refine ⟨must, tells.2 2 printed item ?_ must⟩
  have count : numEntries twoFileManifest.body = 2 := by decide +kernel
  rwa [count]

end XeBuild.SuCheck
