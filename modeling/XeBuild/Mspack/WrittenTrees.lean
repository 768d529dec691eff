import XeBuild.Mspack.DecoderSafety
import XeBuild.Mspack.WrittenElements

/-!
# Trees of a block as they are written

The code lengths of a block as their three texts, and the aligned tree as eight
numbers. The tables that are built from what was written are those of the lengths
that the texts stand for.
-/

namespace XeBuild.Mspack

open BitText ListRange Runs WordBits

set_option autoImplicit false

structure TreesText where
  chars : LensText
  offsets : LensText
  length : LensText

def TreesText.apply (written : TreesText) (lens : CodeLens) : CodeLens :=
  { lens with
    main := written.offsets.apply LZX_NUM_CHARS (written.chars.apply 0 lens.main)
    length := written.length.apply 0 lens.length }

def TreesText.bits (written : TreesText) : Option (List Bool) := do
  let chars ← written.chars.bits
  let offsets ← written.offsets.bits
  let length ← written.length.bits
  return chars ++ (offsets ++ length)

/-- The main tree is a complete code; the length tree is one or has no codes at all. -/
structure TreesText.Valid (num_offsets : Nat) (written : TreesText) (lens : CodeLens) : Prop where
  chars : written.chars.Valid 0 LZX_NUM_CHARS
  offsets : written.offsets.Valid LZX_NUM_CHARS (LZX_NUM_CHARS + num_offsets)
  length : written.length.Valid 0 LZX_NUM_SECONDARY_LENGTHS
  mainComplete : Complete MAINTREE (written.apply lens).main
  lengthComplete : Complete LENGTH (written.apply lens).length ∨
    ∀ symbol < LENGTH.maxSymbols, (written.apply lens).length.getD symbol 0 = 0

structure CodeLens.Sized (lens : CodeLens) : Prop where
  main : lens.main.length = MAINTREE.maxSymbols + LZX_LENTABLE_SAFETY
  length : lens.length.length = LENGTH.maxSymbols + LZX_LENTABLE_SAFETY

structure LzxTrees.Holds (trees : LzxTrees) (lens : CodeLens) : Prop where
  main : ∀ symbol < Mspack.MAINTREE.maxSymbols,
    trees.MAINTREE.len.getD symbol 0 = lens.main.getD symbol 0
  length : ∀ symbol < Mspack.LENGTH.maxSymbols,
    trees.LENGTH.len.getD symbol 0 = lens.length.getD symbol 0

section Written

variable {trees : LzxTrees} {lens : CodeLens} {num_offsets : Nat} {p : BitReader} {text : Text}
  {bits : List Bool} {memory : TreeMemory}

theorem safely_holds {Value : Type} {is_delta : Bool} {result : Except Stop Value}
    {Holds : Value → Prop} {value : Value} (safe : Safely is_delta result Holds)
    (run : result = .ok value) : Holds value := by
  rcases safe with ⟨status, _, failed⟩ | ⟨array, index, left, _⟩ | ⟨other, same, holds⟩
  · rw [run] at failed
    cases failed
  · rw [run] at left
    cases left
  · rw [run] at same
    cases same
    exact holds

section Lens

variable {written : LensText} {len len' : List Nat} {first last nsyms : Nat}

theorem lens_apply_frame (valid : written.Valid first last) (room : last + 50 ≤ len.length)
    (start : first ≤ last) :
    (written.apply first len).length = len.length ∧
      ∀ index, last + 50 ≤ index → (written.apply first len).getD index 0 = len.getD index 0 := by
  have frame := apply_codes_frame valid.codes valid.covers room (by omega)
  exact ⟨frame.1, fun index behind => frame.2 index (Or.inr behind)⟩

/-- A text means the same for the array of a stream. -/
theorem lens_apply_same (valid : written.Valid first last) (room : last + 50 ≤ len.length)
    (room' : last + 50 ≤ len'.length) (start : first ≤ last) (inside : last ≤ nsyms)
    (same : ∀ symbol < nsyms, len.getD symbol 0 = len'.getD symbol 0) :
    ∀ symbol < nsyms,
      (written.apply first len).getD symbol 0 = (written.apply first len').getD symbol 0 :=
  apply_codes_same valid.codes valid.covers room room' (by omega) inside same

end Lens

/-! ## The main tree -/

def TreesText.mainLens (written : TreesText) (len : List Nat) : List Nat :=
  written.offsets.apply LZX_NUM_CHARS (written.chars.apply 0 len)

theorem build_main_complete (sized : memory.Sized MAINTREE) (count : OffsetCount false num_offsets)
    (unused : UnusedBehind num_offsets memory.len) (complete : Complete MAINTREE memory.len) :
    ∃ made, buildTable MAINTREE memory = .ok made ∧ made.len = memory.len ∧ made.Built MAINTREE := by
  rcases build_table_result maintree_fits sized with ⟨made, run, len, _, built⟩ |
    ⟨run, notFull⟩ | ⟨index, run, _, _⟩
  · exact ⟨made, run, len, built⟩
  · exact absurd complete notFull
  · rcases maintree_left sized count unused index run with same | ⟨same, _⟩
    · exact absurd same (by decide)
    · exact absurd same Bool.false_ne_true

section Main

variable {written : TreesText} {len len' : List Nat}

theorem main_lens_frame (valid : written.Valid num_offsets lens)
    (count : OffsetCount false num_offsets)
    (size : len.length = MAINTREE.maxSymbols + LZX_LENTABLE_SAFETY) :
    (written.mainLens len).length = len.length ∧
      ∀ index, LZX_NUM_CHARS + num_offsets + 50 ≤ index →
        (written.mainLens len).getD index 0 = len.getD index 0 := by
  have few := count.room
  have chars : LZX_NUM_CHARS = 256 := rfl
  have whole : MAINTREE.maxSymbols + LZX_LENTABLE_SAFETY = 2640 := rfl
  have front := @lens_apply_frame _ len _ _ valid.chars (by omega) (by omega)
  have back := @lens_apply_frame _ (written.chars.apply 0 len) _ _ valid.offsets (by omega) (by omega)
  refine ⟨back.1.trans front.1, ?_⟩
  intro index behind
  rw [TreesText.mainLens, back.2 index behind, front.2 index (by omega)]

theorem main_lens_same (valid : written.Valid num_offsets lens)
    (count : OffsetCount false num_offsets)
    (size : len.length = MAINTREE.maxSymbols + LZX_LENTABLE_SAFETY)
    (size' : len'.length = MAINTREE.maxSymbols + LZX_LENTABLE_SAFETY)
    (same : ∀ symbol < MAINTREE.maxSymbols, len.getD symbol 0 = len'.getD symbol 0) :
    ∀ symbol < MAINTREE.maxSymbols,
      (written.mainLens len).getD symbol 0 = (written.mainLens len').getD symbol 0 := by
  have few := count.room
  have chars : LZX_NUM_CHARS = 256 := rfl
  have symbols : MAINTREE.maxSymbols = 2576 := rfl
  have whole : MAINTREE.maxSymbols + LZX_LENTABLE_SAFETY = 2640 := rfl
  have front := @lens_apply_frame _ len _ _ valid.chars (by omega) (by omega)
  have front' := @lens_apply_frame _ len' _ _ valid.chars (by omega) (by omega)
  apply lens_apply_same valid.offsets (by omega) (by omega) (by omega) (by omega)
  exact lens_apply_same valid.chars (by omega) (by omega) (by omega) (by omega) same

theorem main_tree_made (sized : trees.Sized) (count : OffsetCount false num_offsets)
    (unused : UnusedBehind num_offsets trees.MAINTREE.len) (size : lens.Sized)
    (holds : trees.Holds lens) (valid : written.Valid num_offsets lens) :
    ∃ maintree, buildTable MAINTREE
        { trees.MAINTREE with len := written.mainLens trees.MAINTREE.len } = .ok maintree ∧
      maintree.Codes MAINTREE (written.apply lens).main := by
  have frame := main_lens_frame valid count sized.maintree.len
  have same := main_lens_same valid count sized.maintree.len size.main holds.main
  have unused' : UnusedBehind num_offsets (written.mainLens trees.MAINTREE.len) := by
    intro symbol small behind
    rw [frame.2 symbol behind]
    exact unused symbol small behind
  have complete : Complete MAINTREE (written.mainLens trees.MAINTREE.len) := by
    rw [Complete, code_leaves_congr same]
    exact valid.mainComplete
  have sized' : (TreeMemory.mk (written.mainLens trees.MAINTREE.len) trees.MAINTREE.table).Sized
      MAINTREE := ⟨frame.1.trans sized.maintree.len, sized.maintree.table⟩
  rcases build_main_complete sized' count unused' complete with ⟨maintree, build, made, built⟩
  refine ⟨maintree, build, ?_, built, valid.mainComplete⟩
  rw [made]
  exact same

end Main

/-! ## The length tree -/

section Length

variable {written : TreesText}

theorem length_lens_same (valid : written.Valid num_offsets lens) (sized : trees.Sized)
    (size : lens.Sized) (holds : trees.Holds lens) :
    ∀ symbol < LENGTH.maxSymbols, (written.length.apply 0 trees.LENGTH.len).getD symbol 0 =
      (written.apply lens).length.getD symbol 0 := by
  apply lens_apply_same valid.length _ _ (by decide) (by decide) holds.length
  · rw [sized.length.len]
    decide
  · rw [size.length]
    decide

/-- The tree with its flag, whether it has codes or none. -/
theorem length_tree_made (valid : written.Valid num_offsets lens) (sized : trees.Sized)
    (size : lens.Sized) (holds : trees.Holds lens) :
    ∃ length empty, buildTableMaybeEmpty LENGTH
        { trees.LENGTH with len := written.length.apply 0 trees.LENGTH.len } = .ok (length, empty) ∧
      (∀ symbol < LENGTH.maxSymbols,
        length.len.getD symbol 0 = (written.apply lens).length.getD symbol 0) ∧
      (empty = false → length.Codes LENGTH (written.apply lens).length) ∧
      (empty = true → ∀ symbol, symbolCode LENGTH (written.apply lens).length symbol = none) := by
  have same := length_lens_same valid sized size holds
  have frame := @lens_apply_frame written.length trees.LENGTH.len _ _ valid.length
    (by rw [sized.length.len]; decide) (by decide)
  have sized' : (TreeMemory.mk (written.length.apply 0 trees.LENGTH.len) trees.LENGTH.table).Sized
      LENGTH := ⟨frame.1.trans sized.length.len, sized.length.table⟩
  have made := build_table_maybe_empty_made length_fits sized' (length_inside sized')
  rcases valid.lengthComplete with complete | empty
  · have complete' : Complete LENGTH (written.length.apply 0 trees.LENGTH.len) := by
      rw [Complete, code_leaves_congr same]
      exact complete
    rcases made.1 complete' with ⟨length, run, len, _, built⟩
    have same' : ∀ symbol < LENGTH.maxSymbols,
        length.len.getD symbol 0 = (written.apply lens).length.getD symbol 0 := by
      rw [len]
      exact same
    exact ⟨length, false, run, same', fun _ => ⟨same', built, complete⟩, fun no => Bool.noConfusion no⟩
  · have none : ∀ symbol < LENGTH.maxSymbols,
        (written.length.apply 0 trees.LENGTH.len).getD symbol 0 = 0 := by
      intro symbol small
      rw [same symbol small]
      exact empty symbol small
    refine ⟨_, true, made.2 none, same, fun no => Bool.noConfusion no, ?_⟩
    intro _ symbol
    rw [symbolCode, code_leaves_empty empty]
    rfl

end Length

/-! ## All trees of a block -/

section Block

variable {written : TreesText}

theorem written_trees_sized (valid : written.Valid num_offsets lens)
    (count : OffsetCount false num_offsets) (size : lens.Sized) : (written.apply lens).Sized := by
  have main := main_lens_frame valid count size.main
  have length := @lens_apply_frame written.length lens.length _ _ valid.length
    (by rw [size.length]; decide) (by decide)
  exact ⟨main.1.trans size.main, length.1.trans size.length⟩

/-- The three texts are read one after the other, each with its own pretree. -/
theorem block_lens_read (sized : trees.Sized) (count : OffsetCount false num_offsets)
    (valid : written.Valid num_offsets lens) (given : written.bits = some bits) (sound : p.Sound)
    (before : p.Before (text.prepend bits)) (roomy : 16 ≤ text.bits.length) :
    ∃ pretree₁ p₁ pretree₂ p₂ pretree₃ p',
      lzxdReadLens trees.PRETREE trees.MAINTREE.len 0 LZX_NUM_CHARS p =
        .ok (pretree₁, written.chars.apply 0 trees.MAINTREE.len, p₁) ∧
      lzxdReadLens pretree₁ (written.chars.apply 0 trees.MAINTREE.len) LZX_NUM_CHARS
          (LZX_NUM_CHARS + num_offsets) p₁ =
        .ok (pretree₂, written.mainLens trees.MAINTREE.len, p₂) ∧
      lzxdReadLens pretree₂ trees.LENGTH.len 0 LZX_NUM_SECONDARY_LENGTHS p₂ =
        .ok (pretree₃, written.length.apply 0 trees.LENGTH.len, p') ∧
      p'.Sound ∧ p'.Before text := by
  have few := count.room
  have chars : LZX_NUM_CHARS = 256 := rfl
  have mainSize : trees.MAINTREE.len.length = 2640 := sized.maintree.len
  have front := @lens_apply_frame _ trees.MAINTREE.len _ _ valid.chars (by omega) (by omega)
  rcases Option.bind_eq_some_iff.mp given with ⟨bits₁, first, given⟩
  rcases Option.bind_eq_some_iff.mp given with ⟨bits₂, second, given⟩
  rcases Option.bind_eq_some_iff.mp given with ⟨bits₃, third, same⟩
  cases same
  rw [prepend_append, prepend_append] at before
  have roomy₁ : 16 ≤ (text.prepend bits₃).bits.length := by
    rw [prepend_bits, List.length_append]
    omega
  have roomy₂ : 16 ≤ ((text.prepend bits₃).prepend bits₂).bits.length := by
    rw [prepend_bits, List.length_append]
    omega
  have room₁ : LZX_NUM_CHARS + 50 ≤ trees.MAINTREE.len.length := by omega
  have room₂ : LZX_NUM_CHARS + num_offsets + 50 ≤
      (written.chars.apply 0 trees.MAINTREE.len).length := by omega
  have room₃ : LZX_NUM_SECONDARY_LENGTHS + 50 ≤ trees.LENGTH.len.length := by
    rw [sized.length.len]
    decide
  rcases lzxd_read_lens_before sized.pretree valid.chars first sound before roomy₂ room₁ with
    ⟨pretree₁, p₁, run₁, sized₁, sound₁, before₁⟩
  rcases lzxd_read_lens_before sized₁ valid.offsets second sound₁ before₁ roomy₁ room₂ with
    ⟨pretree₂, p₂, run₂, sized₂, sound₂, before₂⟩
  rcases lzxd_read_lens_before sized₂ valid.length third sound₂ before₂ roomy room₃ with
    ⟨pretree₃, p', run₃, _, sound', before'⟩
  exact ⟨pretree₁, p₁, pretree₂, p₂, pretree₃, p', run₁, run₂, run₃, sound', before'⟩

/-- The trees that were written are read, and their tables are those of the lengths. -/
theorem read_block_trees_before {block_type : Nat} (sized : trees.Sized)
    (count : OffsetCount false num_offsets)
    (unused : UnusedBehind num_offsets trees.MAINTREE.len) (size : lens.Sized)
    (holds : trees.Holds lens) (valid : written.Valid num_offsets lens)
    (aligned : block_type = LZX_BLOCKTYPE_ALIGNED → trees.ALIGNED.Codes ALIGNED lens.aligned)
    (given : written.bits = some bits) (sound : p.Sound)
    (before : p.Before (text.prepend bits)) (roomy : 16 ≤ text.bits.length) :
    ∃ trees' p', readBlockTrees trees num_offsets p = .ok (trees', p') ∧
      trees'.Holds (written.apply lens) ∧
      trees'.Shows block_type (written.apply lens) ∧
      (written.apply lens).Sized ∧ p'.Sound ∧ p'.Before text := by
  rcases block_lens_read sized count valid given sound before roomy with
    ⟨pretree₁, p₁, pretree₂, p₂, pretree₃, p', run₁, run₂, run₃, sound', before'⟩
  rcases main_tree_made sized count unused size holds valid with ⟨maintree, build, codes⟩
  rcases length_tree_made valid sized size holds with ⟨length, empty, run, same, filled, none⟩
  have chars : LZX_NUM_CHARS = 256 := rfl
  have whole : readBlockTrees trees num_offsets p = .ok ({ trees with
      PRETREE := pretree₃, MAINTREE := maintree, LENGTH := length, LENGTH_empty := empty }, p') := by
    rw [chars] at run₁ run₂
    rw [readBlockTrees, run₁, ok_bind]
    dsimp only
    rw [chars, run₂, ok_bind]
    dsimp only
    rw [build, ok_bind, run₃, ok_bind]
    dsimp only
    rw [run]
    rfl
  exact ⟨_, p', whole, ⟨codes.same, same⟩, ⟨codes, filled, none, aligned⟩,
    written_trees_sized valid count size, sound', before'⟩

end Block

end Written

end XeBuild.Mspack
