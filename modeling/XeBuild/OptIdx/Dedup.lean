import XeBuild.Lib.DistinctAppend
import XeBuild.OptIdx.AddonIndex

/-!
# Deduplication of patch files

`shouldAdd` counts agreeing positions; for lists of one length the count is full
exactly when the lists are equal. A completed `addCurrentOptPatches` therefore
appends the patch files whose list of items is not there yet.
-/

namespace XeBuild.OptIdx

open ListRange Runs DistinctAppend

set_option autoImplicit false

/-! ## The count decides equality -/

theorem mtch_eq_length_iff {left right : List PatchItem} (same : left.length = right.length) :
    mtch left right = right.length ↔ left = right := by
  have zipped : (left.zip right).length = right.length := by
    rw [List.length_zip, same, Nat.min_self]
  constructor
  · intro full
    rw [← zipped, mtch, List.countP_eq_length] at full
    apply List.ext_getElem same
    intro index leftBound rightBound
    have member : (left[index], right[index]) ∈ left.zip right := by
      rw [← List.getElem_zip]
      exact List.getElem_mem (by omega)
    simpa using full _ member
  · intro equal
    subst equal
    rw [← zipped, mtch, List.countP_eq_length]
    intro pair member
    rcases List.mem_iff_getElem.mp member with ⟨index, bound, rfl⟩
    simp

theorem should_add_iff (pfiles : List PatchFile) (ci : PatchFile) :
    shouldAdd pfiles ci = true ↔ ci.pitm ∉ pfiles.map PatchFile.pitm := by
  rw [shouldAdd, Bool.not_eq_true', ← Bool.not_eq_true, List.any_eq_true, List.mem_map]
  apply not_congr
  constructor
  · intro found
    rcases found with ⟨pfl, member, agrees⟩
    rw [Bool.and_eq_true, beq_iff_eq, beq_iff_eq] at agrees
    exact ⟨pfl, member, (mtch_eq_length_iff agrees.1).mp agrees.2⟩
  · intro found
    rcases found with ⟨pfl, member, same⟩
    refine ⟨pfl, member, ?_⟩
    rw [Bool.and_eq_true, beq_iff_eq, beq_iff_eq, same]
    exact ⟨rfl, (mtch_eq_length_iff rfl).mpr rfl⟩

/-! ## What one found file adds -/

/-- The patch file that `processPatchFile` builds before it looks at `pfiles`. -/
def foundPatch (build : Build) (found : FoundFile) : Except Fault (Option PatchFile) :=
  if found.isPatchFile then do
    let pitm ← fileRecords build.lib found.data
    if pitm = [] then return none
    else
      let name ← nameBuffer (fixupName build (ADDON_OPT_FOLDER build ++ found.cFileName))
      return some ⟨name, pitm⟩
  else return none

def foundPatches (build : Build) (files : List FoundFile) : List PatchFile :=
  files.filterMap fun found => (foundPatch build found).toOption.join

def addPatch (build : Build) (pfiles : List PatchFile) :
    Option PatchFile → Except Fault (List PatchFile)
  | none => .ok pfiles
  | some pfl => if shouldAdd pfiles pfl then pushBack build pfiles pfl else .ok pfiles

theorem add_current_cons (build : Build) (found : FoundFile) (files : List FoundFile)
    (pfiles : List PatchFile) :
    addCurrentOptPatches build (found :: files) pfiles =
      foundPatch build found >>= fun patch =>
        addPatch build pfiles patch >>= addCurrentOptPatches build files := by
  rw [addCurrentOptPatches, foundPatch]
  by_cases isPatch : found.isPatchFile = true
  · rw [if_pos isPatch, if_pos isPatch, processPatchFile]
    cases fileRecords build.lib found.data with
    | error fault => rfl
    | ok pitm =>
        simp only [ok_bind]
        by_cases empty : pitm = []
        · rw [if_pos empty, if_pos empty]
          rfl
        · rw [if_neg empty, if_neg empty]
          cases nameBuffer (fixupName build (ADDON_OPT_FOLDER build ++ found.cFileName)) with
          | error fault => rfl
          | ok name => rfl
  · rw [if_neg isPatch, if_neg isPatch]
    rfl

theorem add_patch_ok_iff (build : Build) (pfiles : List PatchFile) (pfl : PatchFile)
    (result : List PatchFile) :
    addPatch build pfiles (some pfl) = .ok result ↔
      result = insertNew PatchFile.pitm pfiles pfl ∧
        (pfl.pitm ∉ pfiles.map PatchFile.pitm → build.allocates (pfiles ++ [pfl]) = true) := by
  rw [addPatch]
  by_cases present : pfl.pitm ∈ pfiles.map PatchFile.pitm
  · have skipped : ¬ shouldAdd pfiles pfl = true := by
      rw [should_add_iff]
      exact not_not.mpr present
    rw [if_neg skipped, insert_new_of_mem present, Except.ok.injEq, eq_comm]
    simp [present]
  · rw [if_pos ((should_add_iff _ _).mpr present), insert_new_of_not_mem present, pushBack]
    by_cases room : build.allocates (pfiles ++ [pfl]) = true
    · rw [if_pos room, Except.ok.injEq, eq_comm]
      simp [room]
    · rw [if_neg room]
      simp [room, present]

/-! ## A completed run -/

/-- Every vector on the way from `pfiles` to `result` could be allocated. -/
def GrownTo (build : Build) (pfiles result : List PatchFile) : Prop :=
  ∀ count, pfiles.length < count → count ≤ result.length →
    build.allocates (result.take count) = true

section Grown

variable {build : Build} {pfiles result : List PatchFile} {pfl : PatchFile}
  {fresh : List PatchFile}

theorem grown_insert
    (whole : result = insertAll PatchFile.pitm (insertNew PatchFile.pitm pfiles pfl) fresh)
    (room : pfl.pitm ∉ pfiles.map PatchFile.pitm → build.allocates (pfiles ++ [pfl]) = true)
    (grown : GrownTo build (insertNew PatchFile.pitm pfiles pfl) result) :
    GrownTo build pfiles result := by
  have before : insertNew PatchFile.pitm pfiles pfl <+: result := whole ▸ insert_all_front _ _
  by_cases present : pfl.pitm ∈ pfiles.map PatchFile.pitm
  · rwa [insert_new_of_mem present] at grown
  · rw [insert_new_of_not_mem present] at grown before
    intro count more bound
    by_cases first : count = (pfiles ++ [pfl]).length
    · rw [first, ← List.prefix_iff_eq_take.mp before]
      exact room present
    · apply grown count _ bound
      rw [List.length_append, List.length_singleton] at first ⊢
      omega

theorem grown_of_insert
    (whole : result = insertAll PatchFile.pitm (insertNew PatchFile.pitm pfiles pfl) fresh)
    (grown : GrownTo build pfiles result) :
    (pfl.pitm ∉ pfiles.map PatchFile.pitm → build.allocates (pfiles ++ [pfl]) = true) ∧
      GrownTo build (insertNew PatchFile.pitm pfiles pfl) result := by
  have before : insertNew PatchFile.pitm pfiles pfl <+: result := whole ▸ insert_all_front _ _
  constructor
  · intro absent
    rw [insert_new_of_not_mem absent] at before
    rw [List.prefix_iff_eq_take.mp before]
    apply grown _ _ before.length_le
    rw [List.length_append, List.length_singleton]
    omega
  · intro count more
    exact grown count (Nat.lt_of_le_of_lt (insert_new_front pfiles pfl).length_le more)

end Grown

theorem add_current_ok_iff (build : Build) (files : List FoundFile) (pfiles result : List PatchFile) :
    addCurrentOptPatches build files pfiles = .ok result ↔
      (∀ found ∈ files, ∃ patch, foundPatch build found = .ok patch) ∧
        result = insertAll PatchFile.pitm pfiles (foundPatches build files) ∧
        GrownTo build pfiles result := by
  induction files generalizing pfiles with
  | nil =>
      rw [addCurrentOptPatches, Except.ok.injEq]
      constructor
      · intro same
        subst same
        exact ⟨fun _ member => absurd member List.not_mem_nil, rfl, fun count _ _ => by omega⟩
      · intro all
        exact all.2.1.symm
  | cons found files ih =>
      rw [add_current_cons, bind_ok_iff, List.forall_mem_cons]
      constructor
      · intro completed
        rcases completed with ⟨patch, built, completed⟩
        rcases bind_ok_iff.mp completed with ⟨next, added, rest⟩
        rcases (ih next).mp rest with ⟨others, whole, grown⟩
        refine ⟨⟨⟨patch, built⟩, others⟩, ?_⟩
        rw [foundPatches, List.filterMap_cons, built]
        cases patch with
        | none =>
            cases added
            exact ⟨whole, grown⟩
        | some pfl =>
            rcases (add_patch_ok_iff build pfiles pfl next).mp added with ⟨rfl, room⟩
            exact ⟨whole, grown_insert whole room grown⟩
      · intro all
        rcases all with ⟨⟨⟨patch, built⟩, others⟩, whole, grown⟩
        refine ⟨patch, built, ?_⟩
        rw [foundPatches, List.filterMap_cons, built] at whole
        rw [bind_ok_iff]
        cases patch with
        | none => exact ⟨pfiles, rfl, (ih pfiles).mpr ⟨others, whole, grown⟩⟩
        | some pfl =>
            have parts := grown_of_insert whole grown
            exact ⟨_, (add_patch_ok_iff build pfiles pfl _).mpr ⟨rfl, parts.1⟩,
              (ih _).mpr ⟨others, whole, parts.2⟩⟩

theorem found_patch_of_records {build : Build} {found : FoundFile} {pitm : List PatchItem}
    {patch : Option PatchFile} (isPatch : found.isPatchFile = true)
    (records : fileRecords build.lib found.data = .ok pitm) (nonempty : pitm ≠ [])
    (built : foundPatch build found = .ok patch) : ∃ fname, patch = some ⟨fname, pitm⟩ := by
  rw [foundPatch, if_pos isPatch, records, ok_bind, if_neg nonempty, bind_ok_iff] at built
  rcases built with ⟨fname, _, made⟩
  cases made
  exact ⟨fname, rfl⟩

theorem found_patches_pitm {build : Build} {files : List FoundFile} {found : FoundFile}
    (member : found ∈ files) {pfl : PatchFile} (built : foundPatch build found = .ok (some pfl)) :
    pfl.pitm ∈ (foundPatches build files).map PatchFile.pitm := by
  apply List.mem_map_of_mem
  rw [foundPatches, List.mem_filterMap]
  exact ⟨found, member, by rw [built]; rfl⟩

theorem found_patches_perm (build : Build) {files reordered : List FoundFile}
    (perm : reordered.Perm files) :
    (foundPatches build reordered).Perm (foundPatches build files) :=
  perm.filterMap _

/-- Where every vector can be allocated, the order does not decide completion. -/
theorem add_current_completes {build : Build} {files reordered : List FoundFile}
    {pbase pfiles : List PatchFile} (perm : reordered.Perm files)
    (room : ∀ vector, build.allocates vector = true)
    (added : addCurrentOptPatches build files pbase = .ok pfiles) :
    ∃ result, addCurrentOptPatches build reordered pbase = .ok result := by
  have completed := (add_current_ok_iff build files pbase pfiles).mp added
  refine ⟨insertAll PatchFile.pitm pbase (foundPatches build reordered), ?_⟩
  rw [add_current_ok_iff]
  refine ⟨?_, rfl, fun count _ _ => room _⟩
  intro found member
  exact completed.1 found (perm.mem_iff.mp member)

/-- After a completed load and enumeration: the base entries come first and
unchanged, no file with records is lost, no added entry repeats the items of
another entry, and another order of the folder gives the same lists of items. -/
theorem patch_files_deduplicated (build : Build) (idx : Option Bytes) (files : List FoundFile)
    {pfiles : List PatchFile}
    (completed : (loadAddonBaseIdx build idx [] >>= addCurrentOptPatches build files) = .ok pfiles) :
    ∃ pbase, loadAddonBaseIdx build idx [] = .ok pbase ∧ pbase <+: pfiles ∧
      (∀ found ∈ files, found.isPatchFile = true → ∀ pitm,
        fileRecords build.lib found.data = .ok pitm → pitm ≠ [] → pitm ∈ pfiles.map PatchFile.pitm) ∧
      (∀ new other, pbase.length ≤ new → ∀ (newBound : new < pfiles.length)
        (otherBound : other < pfiles.length), other ≠ new →
        pfiles[other].pitm ≠ pfiles[new].pitm) ∧
      ∀ reordered, reordered.Perm files →
        ((∀ vector, build.allocates vector = true) → ∃ result,
          (loadAddonBaseIdx build idx [] >>= addCurrentOptPatches build reordered) = .ok result) ∧
        ∀ result,
          (loadAddonBaseIdx build idx [] >>= addCurrentOptPatches build reordered) = .ok result →
          ∀ pitm, pitm ∈ result.map PatchFile.pitm ↔ pitm ∈ pfiles.map PatchFile.pitm := by
  rcases bind_ok_iff.mp completed with ⟨pbase, loaded, added⟩
  have run := (add_current_ok_iff build files pbase pfiles).mp added
  rcases run with ⟨built, rfl, grown⟩
  refine ⟨pbase, loaded, insert_all_front _ _, ?_, ?_, ?_⟩
  · intro found member isPatch pitm records nonempty
    rcases built found member with ⟨patch, made⟩
    rcases found_patch_of_records isPatch records nonempty made with ⟨fname, rfl⟩
    rw [insert_all_keys]
    exact Or.inr (found_patches_pitm member made)
  · intro new other behind newBound otherBound distinct
    have kept := extends_insert_all (@extends_refl _ _ PatchFile.pitm pbase)
      (foundPatches build files)
    exact extends_key_ne kept behind newBound otherBound distinct
  · intro reordered perm
    rw [loaded, ok_bind]
    refine ⟨fun room => add_current_completes perm room added, ?_⟩
    intro result other pitm
    rcases (add_current_ok_iff build reordered pbase result).mp other with ⟨_, rfl, _⟩
    exact insert_all_perm_keys (found_patches_perm build perm) pitm

def sampleBaseIdx : Bytes :=
  setBeU32 1 ++ setBeU32 1 ++ setBeU32 0x1000 ++ setBeU32 1 ++ asciiText ['n', 'o', 'h', 'd', 'd'] ++
    zeros 11

def samplePatchData (offset : Nat) : Bytes :=
  setBeU32 offset ++ setBeU32 1 ++ setBeU32 0x60000000 ++ setBeU32 0xFFFFFFFF

/-- The first file repeats the entry of the base index, the others each other. -/
def sampleFolder : List FoundFile :=
  [⟨asciiText ['a', '.', 'b', 'i', 'n'], false, some (samplePatchData 0x1000)⟩,
    ⟨asciiText ['b', '.', 'b', 'i', 'n'], false, some (samplePatchData 0x2000)⟩,
    ⟨asciiText ['c', '.', 'b', 'i', 'n'], false, some (samplePatchData 0x2000)⟩]

def roomyBuild : Build := ⟨true, fun _ => true, wholeFiles⟩

theorem sample_folder_run :
    (loadAddonBaseIdx roomyBuild (some sampleBaseIdx) [] >>=
      addCurrentOptPatches roomyBuild sampleFolder) =
      .ok [⟨asciiText ['n', 'o', 'h', 'd', 'd'], [⟨0x1000, 1⟩]⟩,
        ⟨asciiText ['b'], [⟨0x2000, 1⟩]⟩] := by
  rfl

theorem sample_folder_deduplicated : ∃ pbase,
    loadAddonBaseIdx roomyBuild (some sampleBaseIdx) [] = .ok pbase ∧
      pbase <+: [⟨asciiText ['n', 'o', 'h', 'd', 'd'], [⟨0x1000, 1⟩]⟩,
        ⟨asciiText ['b'], [⟨0x2000, 1⟩]⟩] := by
  rcases patch_files_deduplicated roomyBuild (some sampleBaseIdx) sampleFolder sample_folder_run
    with ⟨pbase, loaded, front, _⟩
  exact ⟨pbase, loaded, front⟩

end XeBuild.OptIdx
