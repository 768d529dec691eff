import XeBuild.Lib.FiniteWalk
import XeBuild.OptIdx.PatchRecords

/-!
# What the loaders read

`processPatchFile` walks through offsets of a patch file. A size that wraps can
lead it back, and it comes out of its loop exactly when no offset is met again;
for a file of one word the bound of the loop wraps, too. `loadAddonBaseIdx` has
no bound but its counts, so it stays inside exactly when every entry does.
-/

namespace XeBuild.OptIdx

open FiniteWalk ListRange Relation Runs

set_option autoImplicit false

structure EndsInside {Result : Type} (run : Except Fault Result) : Prop where
  ends : run ≠ .error .endless
  inside : ∀ offset, run ≠ .error (.load offset)

section EndsInside

variable {First Result : Type} {run : Except Fault First}

theorem ends_inside_ok (result : Result) : EndsInside (.ok result) := by
  constructor
  · intro same
    cases same
  · intro offset same
    cases same

theorem ends_inside_error_iff {fault : Fault} :
    EndsInside (.error fault : Except Fault Result) ↔
      fault ≠ .endless ∧ ∀ offset, fault ≠ .load offset := by
  constructor
  · intro safe
    refine ⟨?_, ?_⟩
    · rintro rfl
      exact safe.ends rfl
    · rintro offset rfl
      exact safe.inside offset rfl
  · intro apart
    constructor
    · intro same
      cases same
      exact apart.1 rfl
    · intro offset same
      cases same
      exact apart.2 offset rfl

theorem ends_inside_bad_alloc : EndsInside (.error .badAlloc : Except Fault Result) :=
  ends_inside_error_iff.mpr ⟨Fault.noConfusion, fun _ => Fault.noConfusion⟩

theorem ends_inside_store (offset : Nat) :
    EndsInside (.error (.store offset) : Except Fault Result) :=
  ends_inside_error_iff.mpr ⟨Fault.noConfusion, fun _ => Fault.noConfusion⟩

theorem not_ends_inside_load (offset : Nat) :
    ¬ EndsInside (.error (.load offset) : Except Fault Result) := by
  intro safe
  exact safe.inside offset rfl

theorem not_ends_inside_endless : ¬ EndsInside (.error .endless : Except Fault Result) := by
  intro safe
  exact safe.ends rfl

theorem ends_inside_bind {next : First → Except Fault Result}
    (after : ∀ value, run = .ok value → EndsInside (next value)) :
    EndsInside (run >>= next) ↔ EndsInside run := by
  cases run with
  | ok value =>
      constructor
      · intro _
        exact ends_inside_ok value
      · intro _
        exact after value rfl
  | error fault =>
      change EndsInside (.error fault : Except Fault Result) ↔
        EndsInside (.error fault : Except Fault First)
      rw [ends_inside_error_iff, ends_inside_error_iff]

end EndsInside

/-! ## Words of a file -/

def wordAt (buf : Bytes) (offset : Nat) : UInt32 := UInt32.ofNat (getBe32 (slice buf offset 4))

theorem get_be_u32_inside {buf : Bytes} {offset : Nat} (inside : offset + 4 ≤ buf.length) :
    getBeU32 buf offset = .ok (wordAt buf offset) := if_pos inside

theorem get_be_u32_outside {buf : Bytes} {offset : Nat} (outside : buf.length < offset + 4) :
    getBeU32 buf offset = .error (.load offset) := if_neg (by omega)

/-! ## The walk through a patch file -/

def NextRecord (buf : Bytes) (curroff later : Nat) : Prop :=
  curroff < sub32 buf.length 8 ∧
    later = u32 (curroff + (wordAt buf (curroff + 4)).toNat * 4 + 8)

section PatchWalk

variable {buf : Bytes} {curroff rounds : Nat}

/-- Behind the test of the loop, both words of the record are in the file. -/
theorem record_words_inside (large : 8 ≤ buf.length) (bound : buf.length < 0x100000000)
    (going : curroff < sub32 buf.length 8) : curroff + 8 < buf.length := by
  rw [sub32_of_le large bound] at going
  omega

theorem patch_records_round (large : 8 ≤ buf.length) (bound : buf.length < 0x100000000)
    (going : curroff < sub32 buf.length 8) :
    patchRecords buf (rounds + 1) curroff =
      (patchRecords buf rounds
        (u32 (curroff + (wordAt buf (curroff + 4)).toNat * 4 + 8)) >>= fun pitm =>
          .ok (⟨wordAt buf curroff, wordAt buf (curroff + 4)⟩ :: pitm)) := by
  have inside := record_words_inside large bound going
  rw [patchRecords, if_pos going, get_be_u32_inside (by omega), ok_bind,
    get_be_u32_inside (by omega), ok_bind]
  rfl

/-- A file of two words or more is never left, so only the rounds can fail. -/
theorem patch_records_iff_within (large : 8 ≤ buf.length) (bound : buf.length < 0x100000000) :
    EndsInside (patchRecords buf rounds curroff) ↔ EndsWithin (NextRecord buf) rounds curroff := by
  induction rounds generalizing curroff with
  | zero =>
      constructor
      · intro inside
        exact absurd inside not_ends_inside_endless
      · intro within
        cases within
  | succ rounds ih =>
      by_cases going : curroff < sub32 buf.length 8
      · rw [patch_records_round large bound going]
        have next : EndsInside (patchRecords buf rounds
            (u32 (curroff + (wordAt buf (curroff + 4)).toNat * 4 + 8))) ↔
              EndsWithin (NextRecord buf) (rounds + 1) curroff := by
          rw [ih]
          constructor
          · intro within later step
            rw [step.2]
            exact within
          · intro within
            exact within _ ⟨going, rfl⟩
        rw [← next]
        apply ends_inside_bind
        intro pitm _
        exact ends_inside_ok _
      · rw [patchRecords, if_neg going]
        constructor
        · intro _ later step
          exact absurd step.1 going
        · intro _
          exact ends_inside_ok []

/-- One word and the fixed part of the loop's bound make it pass the end. -/
theorem patch_records_one_word (short : buf.length = 4) :
    patchRecords buf (rounds + 1) 0 = .error (.load 4) := by
  have bound : sub32 buf.length 8 = 0xFFFFFFFC := by rw [short]; rfl
  rw [patchRecords, bound, if_pos (by decide), get_be_u32_inside (by omega), ok_bind,
    get_be_u32_outside (by omega)]
  rfl

theorem patch_walk_within (large : 8 ≤ buf.length) (bound : buf.length < 0x100000000)
    (noReturn : NoReturn (NextRecord buf) 0) :
    EndsWithin (NextRecord buf) (buf.length + 1) 0 := by
  have within := ends_within_of_no_return (Finset.range buf.length)
    (by
      intro state later _ step
      have inside := record_words_inside large bound step.1
      rw [Finset.mem_range]
      omega) noReturn
  rwa [Finset.card_range] at within

/-- The loop comes out, inside the file, exactly when the file is longer than a
word and no offset of the walk is met again. -/
theorem patch_loop_ends_iff (positive : 0 < buf.length) (words : buf.length % 4 = 0)
    (bound : buf.length < 0x100000000) :
    EndsInside (patchRecords buf (buf.length + 1) 0) ↔
      buf.length ≠ 4 ∧ NoReturn (NextRecord buf) 0 := by
  by_cases short : buf.length = 4
  · constructor
    · intro safe
      rw [patch_records_one_word short] at safe
      exact absurd safe (not_ends_inside_load 4)
    · intro condition
      exact absurd short condition.1
  · have large : 8 ≤ buf.length := by omega
    rw [patch_records_iff_within large bound]
    constructor
    · intro within
      exact ⟨short, no_return_of_ends (ends_of_within within)⟩
    · intro condition
      exact patch_walk_within large bound condition.2

/-- The rounds that the model allows are enough: a loop that they do not suffice
for has no end. -/
theorem patch_loop_rounds_suffice (large : 8 ≤ buf.length) (bound : buf.length < 0x100000000)
    (ends : EndsInside (patchRecords buf rounds 0)) :
    EndsInside (patchRecords buf (buf.length + 1) 0) := by
  rw [patch_records_iff_within large bound] at ends ⊢
  exact patch_walk_within large bound (no_return_of_ends (ends_of_within ends))

end PatchWalk

/-! ## The entries of an index file -/

structure EntryInside (buf : Bytes) (curroff : Nat) : Prop where
  count : curroff + 4 ≤ buf.length
  pairs : curroff + 4 + (wordAt buf curroff).toNat * 8 ≤ buf.length
  name : (0 : Byte) ∈ buf.drop (curroff + 4 + (wordAt buf curroff).toNat * 8)

def entryAfter (buf : Bytes) (curroff : Nat) : Nat :=
  u32 (curroff + 4 + (wordAt buf curroff).toNat * 8 + 16)

def entryStart (buf : Bytes) (curroff : Nat) : Nat → Nat
  | 0 => curroff
  | index + 1 => entryStart buf (entryAfter buf curroff) index

section Entries

variable {buf : Bytes} {curroff pttl ttl : Nat}

theorem load_items_inside (inside : curroff + pttl * 8 ≤ buf.length)
    (bound : buf.length < 0x100000000) :
    ∃ pitm, loadItems buf pttl curroff = .ok (pitm, curroff + pttl * 8) := by
  induction pttl generalizing curroff with
  | zero =>
      refine ⟨[], ?_⟩
      rw [loadItems, Nat.zero_mul, Nat.add_zero]
  | succ pttl ih =>
      have later : u32 (curroff + 8) = curroff + 8 := u32_of_lt (by omega)
      rcases @ih (curroff + 8) (by omega) with ⟨pitm, rest⟩
      refine ⟨⟨wordAt buf curroff, wordAt buf (curroff + 4)⟩ :: pitm, ?_⟩
      have ends : curroff + 8 + pttl * 8 = curroff + (pttl + 1) * 8 := by omega
      rw [loadItems, get_be_u32_inside (by omega), ok_bind, get_be_u32_inside (by omega), ok_bind,
        later, rest, ok_bind, ends]
      rfl

theorem load_items_outside (start : curroff ≤ buf.length) (bound : buf.length < 0x100000000)
    (outside : buf.length < curroff + pttl * 8) :
    ∃ offset, loadItems buf pttl curroff = .error (.load offset) := by
  induction pttl generalizing curroff with
  | zero => omega
  | succ pttl ih =>
      by_cases first : curroff + 4 ≤ buf.length
      · by_cases second : curroff + 8 ≤ buf.length
        · have later : u32 (curroff + 8) = curroff + 8 := by
            apply u32_of_lt
            omega
          rcases @ih (curroff + 8) second (by omega) with ⟨offset, rest⟩
          refine ⟨offset, ?_⟩
          rw [loadItems, get_be_u32_inside first, ok_bind, get_be_u32_inside (by omega), ok_bind,
            later, rest]
          rfl
        · refine ⟨curroff + 4, ?_⟩
          rw [loadItems, get_be_u32_inside first, ok_bind, get_be_u32_outside (by omega)]
          rfl
      · refine ⟨curroff, ?_⟩
        rw [loadItems, get_be_u32_outside (by omega)]
        rfl

theorem load_files_round (entry : EntryInside buf curroff) (bound : buf.length < 0x100000000)
    (build : Build) (pfiles : List PatchFile) :
    ∃ pfl, loadFiles build buf (ttl + 1) curroff pfiles =
      (pushBack build pfiles pfl >>= loadFiles build buf ttl (entryAfter buf curroff)) := by
  have pairs := entry.pairs
  have behind : u32 (curroff + 4) = curroff + 4 := u32_of_lt (by omega)
  rcases load_items_inside pairs bound with ⟨pitm, items⟩
  refine ⟨⟨cString (buf.drop (curroff + 4 + (wordAt buf curroff).toNat * 8)), pitm⟩, ?_⟩
  rw [loadFiles, get_be_u32_inside entry.count, ok_bind, behind, items, ok_bind]
  simp only [getString, if_pos entry.name, ok_bind]
  rfl

/-- An entry that is not inside is left, whatever can be allocated. -/
theorem load_files_outside (entry : ¬ EntryInside buf curroff) (bound : buf.length < 0x100000000)
    (build : Build) (pfiles : List PatchFile) :
    ∃ offset, loadFiles build buf (ttl + 1) curroff pfiles = .error (.load offset) := by
  by_cases count : curroff + 4 ≤ buf.length
  · have behind : u32 (curroff + 4) = curroff + 4 := u32_of_lt (by omega)
    by_cases pairs : curroff + 4 + (wordAt buf curroff).toNat * 8 ≤ buf.length
    · rcases load_items_inside pairs bound with ⟨pitm, items⟩
      have name : (0 : Byte) ∉ buf.drop (curroff + 4 + (wordAt buf curroff).toNat * 8) := by
        intro name
        exact entry ⟨count, pairs, name⟩
      refine ⟨curroff + 4 + (wordAt buf curroff).toNat * 8, ?_⟩
      rw [loadFiles, get_be_u32_inside count, ok_bind, behind, items, ok_bind]
      simp only [getString, if_neg name]
      rfl
    · rcases load_items_outside count bound (Nat.lt_of_not_le pairs) with ⟨offset, items⟩
      refine ⟨offset, ?_⟩
      rw [loadFiles, get_be_u32_inside count, ok_bind, behind, items]
      rfl
  · refine ⟨curroff, ?_⟩
    rw [loadFiles, get_be_u32_outside (by omega)]
    rfl

theorem load_files_inside (entries : ∀ index < ttl, EntryInside buf (entryStart buf curroff index))
    (bound : buf.length < 0x100000000) (build : Build) (pfiles : List PatchFile) :
    EndsInside (loadFiles build buf ttl curroff pfiles) := by
  induction ttl generalizing curroff pfiles with
  | zero => exact ends_inside_ok pfiles
  | succ ttl ih =>
      have first : EntryInside buf curroff := entries 0 (Nat.succ_pos ttl)
      rcases @load_files_round _ _ ttl first bound build pfiles with ⟨pfl, round⟩
      have rest : ∀ index < ttl, EntryInside buf (entryStart buf (entryAfter buf curroff) index) := by
        intro index counted
        exact entries (index + 1) (by omega)
      rw [round, pushBack]
      split_ifs with room
      · exact ih rest _
      · exact ends_inside_bad_alloc

/-- Where everything can be allocated, the loop comes to every entry. -/
theorem entries_of_load_files {build : Build} (roomy : ∀ pfiles, build.allocates pfiles = true)
    (bound : buf.length < 0x100000000) (pfiles : List PatchFile)
    (safe : EndsInside (loadFiles build buf ttl curroff pfiles)) :
    ∀ index < ttl, EntryInside buf (entryStart buf curroff index) := by
  induction ttl generalizing curroff pfiles with
  | zero =>
      intro index counted
      omega
  | succ ttl ih =>
      by_cases first : EntryInside buf curroff
      · rcases @load_files_round _ _ ttl first bound build pfiles with ⟨pfl, round⟩
        rw [round, pushBack, if_pos (roomy _), ok_bind] at safe
        intro index counted
        cases index with
        | zero => exact first
        | succ index => exact ih _ safe index (by omega)
      · rcases @load_files_outside _ _ ttl first bound build pfiles with ⟨offset, left⟩
        rw [left] at safe
        exact absurd safe (not_ends_inside_load offset)

end Entries

/-! ## Both loaders -/

def PatchWalkEnds (buf : Bytes) : Prop := buf.length ≠ 4 ∧ NoReturn (NextRecord buf) 0

def EntriesInside (buf : Bytes) : Prop :=
  ∀ index < (wordAt buf 0).toNat, EntryInside buf (entryStart buf 4 index)

theorem process_patch_file_inside_iff (build : Build) (fname : Bytes) (data : Option Bytes)
    (pfiles : List PatchFile) :
    EndsInside (processPatchFile build fname data pfiles) ↔
      EndsInside (fileRecords build.lib data) := by
  rw [processPatchFile]
  apply ends_inside_bind
  intro pitm _
  split_ifs
  · exact ends_inside_ok pfiles
  · rw [nameBuffer]
    split_ifs
    · rw [ok_bind]
      split_ifs
      · rw [pushBack]
        split_ifs
        · exact ends_inside_ok _
        · exact ends_inside_bad_alloc
      · exact ends_inside_ok pfiles
    · exact ends_inside_store 16

section Loaders

variable {lib : Library} {data : Option Bytes} {buf : Bytes}

theorem file_records_inside_iff (loaded : fileToBuffer lib data = some buf)
    (positive : 0 < buf.length) (words : buf.length % 4 = 0) :
    EndsInside (fileRecords lib data) ↔ PatchWalkEnds buf := by
  rw [fileRecords, loaded]
  simp only
  rw [if_neg (by omega), if_neg (by omega)]
  apply patch_loop_ends_iff
  · exact positive
  · exact words
  · exact file_to_buffer_length loaded

theorem load_addon_base_idx_eq {build : Build} (loaded : fileToBuffer build.lib data = some buf)
    (positive : 0 < buf.length) (words : buf.length % 4 = 0) (pfiles : List PatchFile) :
    loadAddonBaseIdx build data pfiles = loadFiles build buf (wordAt buf 0).toNat 4 pfiles := by
  rw [loadAddonBaseIdx, loaded]
  simp only
  rw [if_neg (by omega), if_neg (by omega), get_be_u32_inside (by omega), ok_bind]

/-- For every file that is loaded in a positive multiple of four bytes. -/
theorem loaders_end_inside_iff (loaded : fileToBuffer lib data = some buf)
    (positive : 0 < buf.length) (words : buf.length % 4 = 0) :
    ((∀ build fname pfiles, build.lib = lib →
          EndsInside (processPatchFile build fname data pfiles)) ↔ PatchWalkEnds buf) ∧
      ((∀ build pfiles, build.lib = lib → EndsInside (loadAddonBaseIdx build data pfiles)) ↔
        EntriesInside buf) := by
  have bound := file_to_buffer_length loaded
  constructor
  · constructor
    · intro safe
      have ends := safe ⟨false, fun _ => true, lib⟩ [] [] rfl
      rwa [process_patch_file_inside_iff, file_records_inside_iff loaded positive words] at ends
    · rintro ends build fname pfiles rfl
      rwa [process_patch_file_inside_iff, file_records_inside_iff loaded positive words]
  · constructor
    · intro safe
      have entries := safe ⟨false, fun _ => true, lib⟩ [] rfl
      rw [load_addon_base_idx_eq loaded positive words] at entries
      exact entries_of_load_files (fun _ => rfl) bound [] entries
    · rintro entries build pfiles rfl
      rw [load_addon_base_idx_eq loaded positive words]
      exact load_files_inside entries bound build pfiles

end Loaders

def smallFile : Bytes := [0, 0, 0, 0, 0, 0, 0, 1, 0x60, 0, 0, 0]

theorem small_file_step {curroff later : Nat} (place : curroff = 0 ∨ curroff = 12)
    (step : NextRecord smallFile curroff later) : curroff = 0 ∧ later = 12 := by
  have limit : sub32 smallFile.length 8 = 4 := rfl
  have going := step.1
  rw [limit] at going
  have here : curroff = 0 := by omega
  refine ⟨here, ?_⟩
  rw [step.2, here]
  rfl

theorem small_file_walk : NoReturn (NextRecord smallFile) 0 := by
  have places : ∀ place, ReflTransGen (NextRecord smallFile) 0 place →
      place = 0 ∨ place = 12 := by
    intro place path
    induction path with
    | refl => exact Or.inl rfl
    | tail _ step known => exact Or.inr (small_file_step known step).2
  intro place path cycle
  rcases TransGen.head'_iff.mp cycle with ⟨later, step, back⟩
  have first := small_file_step (places place path) step
  rcases ReflTransGen.cases_head back with same | ⟨next, again, _⟩
  · omega
  · have second := small_file_step (Or.inr first.2) again
    omega

def pairedFile : Bytes :=
  setBeU32 2 ++ (setBeU32 1 ++ (setBeU32 0x1000 ++ setBeU32 1) ++ nameField [0x61]) ++
    (setBeU32 2 ++ (setBeU32 0x2000 ++ setBeU32 3) ++ (setBeU32 0x3000 ++ setBeU32 0) ++
      nameField [0x62, 0x63])

theorem paired_file_entries : EntriesInside pairedFile := by
  have count : (wordAt pairedFile 0).toNat = 2 := by decide
  rw [EntriesInside, count]
  intro index bound
  rcases Nat.le_one_iff_eq_zero_or_eq_one.mp (Nat.le_of_lt_succ bound) with rfl | rfl
  · exact ⟨by decide, by decide, by decide⟩
  · exact ⟨by decide, by decide, by decide⟩

theorem small_file_loads :
    (∀ build fname pfiles, build.lib = wholeFiles →
        EndsInside (processPatchFile build fname (some smallFile) pfiles)) ∧
      ∀ build pfiles, build.lib = wholeFiles →
        EndsInside (loadAddonBaseIdx build (some pairedFile) pfiles) := by
  have small : fileToBuffer wholeFiles (some smallFile) = some smallFile :=
    file_to_buffer_whole ⟨by decide, rfl⟩
  have paired : fileToBuffer wholeFiles (some pairedFile) = some pairedFile :=
    file_to_buffer_whole ⟨by decide, rfl⟩
  constructor
  · apply (loaders_end_inside_iff small (by decide) (by decide)).1.mpr
    exact ⟨by decide, small_file_walk⟩
  · apply (loaders_end_inside_iff paired (by decide) (by decide)).2.mpr
    exact paired_file_entries

/-- One word: read as a patch file, and as an index file of one entry. -/
def oneWordFile : Bytes := [0, 0, 0, 1]

/-- A size of 0x3FFFFFFE words leads back to the start. -/
def wrappingFile : Bytes := [0, 0, 0, 0, 0x3F, 0xFF, 0xFF, 0xFE, 0, 0, 0, 0]

theorem short_file_left (build : Build) (lib : build.lib = wholeFiles) (fname : Bytes)
    (pfiles : List PatchFile) :
    processPatchFile build fname (some oneWordFile) pfiles = .error (.load 4) ∧
      loadAddonBaseIdx build (some oneWordFile) pfiles = .error (.load 4) := by
  rw [processPatchFile, loadAddonBaseIdx, lib]
  exact ⟨rfl, rfl⟩

theorem wrapping_file_endless (rounds : Nat) :
    patchRecords wrappingFile rounds 0 = .error .endless := by
  induction rounds with
  | zero => rfl
  | succ rounds ih =>
      rw [patch_records_round (by decide) (by decide) (by decide)]
      have back : u32 (0 + (wordAt wrappingFile (0 + 4)).toNat * 4 + 8) = 0 := rfl
      rw [back, ih]
      rfl

theorem loaders_leave_short_files :
    (¬ ∀ data buf, fileToBuffer wholeFiles (some data) = some buf → 0 < buf.length →
      buf.length % 4 = 0 → ∀ build fname pfiles, build.lib = wholeFiles →
        EndsInside (processPatchFile build fname (some data) pfiles)) ∧
    (¬ ∀ data buf, fileToBuffer wholeFiles (some data) = some buf → 0 < buf.length →
      buf.length % 4 = 0 → ∀ build pfiles, build.lib = wholeFiles →
        EndsInside (loadAddonBaseIdx build (some data) pfiles)) ∧
    ∀ rounds, ¬ EndsInside (patchRecords wrappingFile rounds 0) := by
  have loaded : fileToBuffer wholeFiles (some oneWordFile) = some oneWordFile :=
    file_to_buffer_whole ⟨by decide, rfl⟩
  have left := short_file_left ⟨false, fun _ => true, wholeFiles⟩ rfl [] []
  refine ⟨?_, ?_, ?_⟩
  · intro claim
    have short := claim oneWordFile oneWordFile loaded (by decide) (by decide)
      ⟨false, fun _ => true, wholeFiles⟩ [] [] rfl
    rw [left.1] at short
    exact not_ends_inside_load 4 short
  · intro claim
    have short := claim oneWordFile oneWordFile loaded (by decide) (by decide)
      ⟨false, fun _ => true, wholeFiles⟩ [] rfl
    rw [left.2] at short
    exact not_ends_inside_load 4 short
  · intro rounds safe
    rw [wrapping_file_endless rounds] at safe
    exact not_ends_inside_endless safe

end XeBuild.OptIdx
