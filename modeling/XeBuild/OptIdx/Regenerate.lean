import XeBuild.OptIdx.Dedup
import XeBuild.OptIdx.IndexRoundTrip

/-!
# Running `opt_idx` again

In the base build the index that a run writes is the base index of the next run.
The second run loads the list that the first one had at its end, finds every
patch file of the folder in it, and writes the same bytes. The vectors live in
a 32-bit address space, so the index of a list that was built fits, too.
-/

namespace XeBuild.OptIdx

open ListRange Runs DistinctAppend

set_option autoImplicit false

/-! ## What a load leaves -/

theorem get_string_no_zero {buf : Bytes} {offset : Nat} {fname : Bytes}
    (read : getString buf offset = .ok fname) : (0 : Byte) ∉ fname := by
  rw [getString] at read
  by_cases ended : (0 : Byte) ∈ buf.drop offset
  · rw [if_pos ended] at read
    cases read
    exact c_string_no_zero _
  · rw [if_neg ended] at read
    cases read

theorem push_back_ok {build : Build} {pfiles result : List PatchFile} {pfl : PatchFile}
    (pushed : pushBack build pfiles pfl = .ok result) :
    result = pfiles ++ [pfl] ∧ build.allocates (pfiles ++ [pfl]) = true := by
  rw [pushBack] at pushed
  by_cases room : build.allocates (pfiles ++ [pfl]) = true
  · rw [if_pos room] at pushed
    cases pushed
    exact ⟨rfl, room⟩
  · rw [if_neg room] at pushed
    cases pushed

theorem grown_refl (build : Build) (pfiles : List PatchFile) : GrownTo build pfiles pfiles := by
  intro count more bound
  omega

theorem grown_trans {build : Build} {first middle last : List PatchFile} (front : middle <+: last)
    (left : GrownTo build first middle) (right : GrownTo build middle last) :
    GrownTo build first last := by
  intro count more bound
  by_cases early : count ≤ middle.length
  · have same : last.take count = middle.take count := by
      rw [List.prefix_iff_eq_take.mp front, List.take_take, Nat.min_eq_left early]
    rw [same]
    exact left count more early
  · exact right count (Nat.lt_of_not_le early) bound

/-- The outer loop keeps what is there, grows by vectors that could be allocated
and pushes C strings. -/
theorem load_files_ok {build : Build} {buf : Bytes} {ttl curroff : Nat}
    {pfiles result : List PatchFile}
    (loaded : loadFiles build buf ttl curroff pfiles = .ok result) :
    pfiles <+: result ∧ GrownTo build pfiles result ∧
      ∀ pfl ∈ result, pfl ∈ pfiles ∨ (0 : Byte) ∉ pfl.fname := by
  induction ttl generalizing curroff pfiles with
  | zero =>
      cases loaded
      exact ⟨List.prefix_rfl, grown_refl build _, fun pfl member => Or.inl member⟩
  | succ ttl ih =>
      rw [loadFiles, bind_ok_iff] at loaded
      rcases loaded with ⟨pttl, _, loaded⟩
      rcases bind_ok_iff.mp loaded with ⟨⟨pitm, behind⟩, _, named⟩
      rcases bind_ok_iff.mp named with ⟨fname, read, pushing⟩
      rcases bind_ok_iff.mp pushing with ⟨next, pushed, rest⟩
      rcases push_back_ok pushed with ⟨rfl, room⟩
      rcases ih rest with ⟨front, grown, names⟩
      have step : GrownTo build pfiles (pfiles ++ [⟨fname, pitm⟩]) := by
        intro count more bound
        have whole : count = (pfiles ++ [(⟨fname, pitm⟩ : PatchFile)]).length := by
          rw [List.length_append, List.length_singleton] at bound ⊢
          omega
        rw [whole, List.take_length]
        exact room
      refine ⟨(List.prefix_append _ _).trans front, grown_trans front step grown, ?_⟩
      intro pfl member
      rcases names pfl member with old | noZero
      · rw [List.mem_append, List.mem_singleton] at old
        rcases old with old | rfl
        · exact Or.inl old
        · exact Or.inr (get_string_no_zero read)
      · exact Or.inr noZero

theorem load_base_ok {build : Build} {idx : Option Bytes} {pbase : List PatchFile}
    (loaded : loadAddonBaseIdx build idx [] = .ok pbase) :
    GrownTo build [] pbase ∧ ∀ pfl ∈ pbase, (0 : Byte) ∉ pfl.fname := by
  have none : ∀ result, (.ok [] : Except Fault (List PatchFile)) = .ok result →
      GrownTo build [] result ∧ ∀ pfl ∈ result, (0 : Byte) ∉ pfl.fname := by
    intro result same
    cases same
    exact ⟨grown_refl build [], fun pfl member => absurd member List.not_mem_nil⟩
  rw [loadAddonBaseIdx] at loaded
  cases file : fileToBuffer build.lib idx with
  | none =>
      rw [file] at loaded
      exact none _ loaded
  | some buf =>
      rw [file] at loaded
      simp only at loaded
      by_cases empty : buf.length = 0
      · rw [if_pos empty] at loaded
        exact none _ loaded
      · by_cases odd : buf.length % 4 ≠ 0
        · rw [if_neg empty, if_pos odd] at loaded
          exact none _ loaded
        · rw [if_neg empty, if_neg odd, bind_ok_iff] at loaded
          rcases loaded with ⟨ttl, _, rounds⟩
          rcases load_files_ok rounds with ⟨_, grown, names⟩
          refine ⟨grown, ?_⟩
          intro pfl member
          rcases names pfl member with old | noZero
          · exact absurd old List.not_mem_nil
          · exact noZero

/-! ## What a found file is named -/

theorem name_buffer_named {name fname : Bytes} (copied : nameBuffer name = .ok fname) :
    fname.length ≤ 15 ∧ (0 : Byte) ∉ fname := by
  rw [nameBuffer] at copied
  by_cases fits : name.length < 16
  · rw [if_pos fits] at copied
    cases copied
    have shorter := (List.takeWhile_prefix (p := fun char : Byte => char != 0) (l := name)).length_le
    refine ⟨?_, c_string_no_zero name⟩
    rw [cString]
    omega
  · rw [if_neg fits] at copied
    cases copied

theorem found_patches_named {build : Build} {files : List FoundFile} :
    ∀ pfl ∈ foundPatches build files, pfl.Named := by
  intro pfl member
  rcases List.mem_filterMap.mp member with ⟨found, _, yields⟩
  cases built : foundPatch build found with
  | error fault =>
      rw [built] at yields
      cases yields
  | ok patch =>
      rw [built] at yields
      have made : patch = some pfl := yields
      rw [made, foundPatch] at built
      by_cases isPatch : found.isPatchFile = true
      · rw [if_pos isPatch, bind_ok_iff] at built
        rcases built with ⟨pitm, _, built⟩
        by_cases empty : pitm = []
        · rw [if_pos empty] at built
          cases built
        · rw [if_neg empty, bind_ok_iff] at built
          rcases built with ⟨fname, copied, last⟩
          cases last
          have named := name_buffer_named copied
          exact ⟨named.1, named.2⟩
      · rw [if_neg isPatch] at built
        cases built

/-! ## The second run -/

/-- A `PATCH_FILE` takes 36 bytes or more, a `PATCH_ITEM` 8. -/
def heapSize : List PatchFile → Nat
  | [] => 0
  | pfl :: rest => pfl.pitm.length * 8 + 36 + heapSize rest

theorem heap_size_eq (pfiles : List PatchFile) :
    heapSize pfiles = filesSize pfiles + pfiles.length * 16 := by
  induction pfiles with
  | nil => rfl
  | cons pfl rest ih =>
      rw [heapSize, files_size_cons, List.length_cons, fileSize]
      omega

theorem index_size_le_heap {pfiles : List PatchFile} (nonempty : pfiles ≠ []) :
    indexSize pfiles ≤ heapSize pfiles := by
  have sizes := heap_size_eq pfiles
  have count := List.length_pos_iff.mpr nonempty
  rw [indexSize]
  omega

theorem add_current_again {build : Build} {files again : List FoundFile}
    {pbase pfiles : List PatchFile} (perm : again.Perm files)
    (added : addCurrentOptPatches build files pbase = .ok pfiles) :
    addCurrentOptPatches build again pfiles = .ok pfiles := by
  rcases (add_current_ok_iff build files pbase pfiles).mp added with ⟨built, whole, _⟩
  rw [add_current_ok_iff]
  refine ⟨?_, ?_, grown_refl build pfiles⟩
  · intro found member
    exact built found (perm.mem_iff.mp member)
  · rw [insert_all_of_present]
    intro pfl member
    have early := (found_patches_perm build perm).mem_iff.mp member
    rw [whole, insert_all_keys]
    exact Or.inr (List.mem_map_of_mem early)

theorem base_build_paths {build : Build} (baseBuild : build.forBaseBuild = true) :
    ADDON_OPT_OUTFILE build = ADDON_BASE_IDX build := by
  rw [ADDON_OPT_OUTFILE, if_pos baseBuild]

/-- The list at the end of a run whose base index has short names. -/
theorem gathered_named {build : Build} {idx : Option Bytes} {files : List FoundFile}
    {pbase pfiles : List PatchFile} (loaded : loadAddonBaseIdx build idx [] = .ok pbase)
    (short : ∀ pfl ∈ pbase, pfl.fname.length ≤ 15)
    (added : addCurrentOptPatches build files pbase = .ok pfiles) :
    ∀ pfl ∈ pfiles, pfl.Named := by
  rcases (add_current_ok_iff build files pbase pfiles).mp added with ⟨_, rfl, _⟩
  intro pfl member
  rcases insert_all_mem member with old | new
  · exact ⟨short pfl old, (load_base_ok loaded).2 pfl old⟩
  · exact found_patches_named pfl new

theorem gathered_grown {build : Build} {idx : Option Bytes} {files : List FoundFile}
    {pbase pfiles : List PatchFile} (loaded : loadAddonBaseIdx build idx [] = .ok pbase)
    (added : addCurrentOptPatches build files pbase = .ok pfiles) :
    pbase <+: pfiles ∧ GrownTo build [] pfiles := by
  rcases (add_current_ok_iff build files pbase pfiles).mp added with ⟨_, whole, grown⟩
  have front : pbase <+: pfiles := whole ▸ insert_all_front _ _
  exact ⟨front, grown_trans front (load_base_ok loaded).1 grown⟩

/-- The list fits the address space, and its index a buffer and a `long`. -/
structure RoomFor (build : Build) (pfiles : List PatchFile) : Prop where
  addressSpace : heapSize pfiles < 0x100000000
  loads : build.lib.Loads (indexSize pfiles)

/-- In the base build a second run over the folder, in any order of its files,
writes the file of the first run again. -/
theorem regeneration_idempotent (build : Build) (idx : Option Bytes)
    (files again : List FoundFile) (perm : again.Perm files) {out : Option Bytes}
    (baseBuild : build.forBaseBuild = true)
    (roomy : ∀ pfiles, build.allocates pfiles = true → RoomFor build pfiles)
    (short : ∀ pbase, loadAddonBaseIdx build idx [] = .ok pbase →
      ∀ pfl ∈ pbase, pfl.fname.length ≤ 15)
    (first : main build idx files = .ok out) :
    main build (nextBaseIdx build idx out) again = .ok out := by
  rw [main, bind_ok_iff] at first
  rcases first with ⟨pbase, loaded, first⟩
  rcases bind_ok_iff.mp first with ⟨pfiles, added, output⟩
  have rerun := add_current_again perm added
  have front := gathered_grown loaded added
  rw [nextBaseIdx, if_pos (base_build_paths baseBuild)]
  by_cases empty : pfiles = []
  · -- nothing was gathered: the base index is still the old one
    rw [if_pos empty] at output
    cases output
    subst empty
    have nothing : pbase = [] := List.prefix_nil.mp front.1
    subst nothing
    rw [Option.none_or, main, loaded, ok_bind, rerun, ok_bind, if_pos rfl]
    rfl
  · rw [if_neg empty] at output
    have named := gathered_named loaded (short pbase loaded) added
    have count := List.length_pos_iff.mpr empty
    have room : build.allocates pfiles = true := by
      have last := front.2 pfiles.length count (Nat.le_refl _)
      rwa [List.take_length] at last
    have loads := (roomy pfiles room).loads
    have fits : indexSize pfiles < 0x100000000 :=
      Nat.lt_of_le_of_lt (index_size_le_heap empty) (roomy pfiles room).addressSpace
    have reloaded : loadAddonBaseIdx build (some (indexBytes pfiles)) [] = .ok pfiles := by
      apply load_index_bytes named fits
      · intro vector before nonempty
        rw [List.prefix_iff_eq_take.mp before]
        exact front.2 _ (List.length_pos_iff.mpr nonempty) before.length_le
      · exact loads
    have bytes := output_idx_bytes named fits loads.room
    rw [bytes] at output
    cases output
    rw [Option.some_or, main, reloaded, ok_bind, rerun, ok_bind, if_neg empty, bytes]

def win32Build : Build := ⟨true, fun pfiles => heapSize pfiles < 0x100000000, wholeFiles⟩

theorem win32_build_roomy (pfiles : List PatchFile)
    (room : win32Build.allocates pfiles = true) : RoomFor win32Build pfiles := by
  have space : heapSize pfiles < 0x100000000 := of_decide_eq_true room
  have small : indexSize pfiles < 0x100000000 := by
    by_cases empty : pfiles = []
    · rw [empty]
      decide
    · exact Nat.lt_of_le_of_lt (index_size_le_heap empty) space
  exact ⟨space, Nat.mod_eq_of_lt small, rfl⟩

def sampleNextIdx : Bytes :=
  indexBytes [⟨asciiText ['n', 'o', 'h', 'd', 'd'], [⟨0x1000, 1⟩]⟩,
    ⟨asciiText ['b'], [⟨0x2000, 1⟩]⟩]

theorem sample_first_run :
    main win32Build (some sampleBaseIdx) sampleFolder = .ok (some sampleNextIdx) := by
  rfl

theorem sample_base_loads : loadAddonBaseIdx win32Build (some sampleBaseIdx) [] =
    .ok [⟨asciiText ['n', 'o', 'h', 'd', 'd'], [⟨0x1000, 1⟩]⟩] := by
  rfl

theorem sample_regeneration :
    main win32Build (nextBaseIdx win32Build (some sampleBaseIdx) (some sampleNextIdx))
      sampleFolder.reverse = .ok (some sampleNextIdx) := by
  apply regeneration_idempotent win32Build (some sampleBaseIdx) sampleFolder
  · exact List.reverse_perm sampleFolder
  · rfl
  · exact win32_build_roomy
  · intro pbase loaded
    rw [sample_base_loads] at loaded
    cases loaded
    decide
  · exact sample_first_run

end XeBuild.OptIdx
