import XeBuild.Mspack.MatchOffsets
import XeBuild.Mspack.WindowCopies

/-!
# Elements of a block

The loops over the elements of verbatim and aligned blocks, which differ in how they
read an offset only: a literal, or a match with its length and its offset, is read
and put into the window.
-/

namespace XeBuild.Mspack

open BitText Runs SlidingWindow WordBits

set_option autoImplicit false

def LZX_BLOCKTYPE_INVALID : Nat := 0
def LZX_BLOCKTYPE_VERBATIM : Nat := 1
def LZX_BLOCKTYPE_ALIGNED : Nat := 2
def LZX_BLOCKTYPE_UNCOMPRESSED : Nat := 3

structure LzxTrees where
  PRETREE : TreeMemory
  MAINTREE : TreeMemory
  LENGTH : TreeMemory
  ALIGNED : TreeMemory
  LENGTH_empty : Bool

inductive Element
  | literal (byte : Byte)
  | copy (match_length match_offset : Nat)
  deriving DecidableEq

def Element.count : Element → Nat
  | .literal _ => 1
  | .copy match_length _ => match_length

structure Cursor where
  window : Bytes
  window_posn : Nat
  queue : OffsetQueue
  bits : BitReader

def readMatchLength (trees : LzxTrees) (main_element : Nat) (p : BitReader) :
    Except Stop (Nat × BitReader) :=
  let match_length := main_element &&& LZX_NUM_PRIMARY_LENGTHS
  if match_length = LZX_NUM_PRIMARY_LENGTHS then
    if trees.LENGTH_empty then .error (.error MSPACK_ERR_DECRUNCH)
    else do
      let (length_footer, p) ← readHuffsym LENGTH trees.LENGTH p
      return (match_length + length_footer + LZX_MIN_MATCH, p)
  else .ok (match_length + LZX_MIN_MATCH, p)

/-- The tree of four entries behind a match of the maximal length. -/
def readExtraLen (p : BitReader) : Except Stop (Nat × BitReader) := do
  let p ← ensureBits 3 p
  if peekBits 1 p = 0 then readBits 8 (removeBits 1 p)
  else if peekBits 2 p = 2 then
    let (extra_len, p) ← readBits 10 (removeBits 2 p)
    return (extra_len + 0x100, p)
  else if peekBits 3 p = 6 then
    let (extra_len, p) ← readBits 12 (removeBits 3 p)
    return (extra_len + 0x500, p)
  else readBits 15 (removeBits 3 p)

def readOffset (trees : LzxTrees) (block_type slot : Nat) (q : OffsetQueue) (p : BitReader) :
    Except Stop (Nat × OffsetQueue × BitReader) :=
  if block_type = LZX_BLOCKTYPE_ALIGNED then alignedOffset trees.ALIGNED slot q p
  else verbatimOffset slot q p

def readElement (trees : LzxTrees) (is_delta : Bool) (block_type : Nat) (q : OffsetQueue)
    (p : BitReader) : Except Stop (Element × OffsetQueue × BitReader) := do
  let (main_element, p) ← readHuffsym MAINTREE trees.MAINTREE p
  if main_element < LZX_NUM_CHARS then
    return (.literal (UInt8.ofNat main_element), q, p)
  else
    -- LZX_NUM_CHARS + ((slot << 3) | length_header)
    let main_element := main_element - LZX_NUM_CHARS
    let (match_length, p) ← readMatchLength trees main_element p
    let (match_offset, q, p) ← readOffset trees block_type (main_element >>> 3) q p
    if match_length = LZX_MAX_MATCH ∧ is_delta = true then
      let (extra_len, p) ← readExtraLen p
      return (.copy (match_length + extra_len) match_offset, q, p)
    else return (.copy match_length match_offset, q, p)

def placeElement (limits : WindowLimits) (window : Bytes) (window_posn : Nat) :
    Element → Except Stop Bytes
  | .literal byte => storeWindow window window_posn byte
  | .copy match_length match_offset => copyMatch limits window_posn match_offset match_length window

/-- `while (this_run > 0)` over the elements of a block. -/
def elementLoop (trees : LzxTrees) (is_delta : Bool) (block_type : Nat) (limits : WindowLimits) :
    Nat → Int → Cursor → Except Stop (Int × Cursor)
  | 0, this_run, c => if this_run > 0 then .error .roundsSpent else .ok (this_run, c)
  | rounds + 1, this_run, c =>
      if this_run > 0 then do
        let (element, queue, bits) ← readElement trees is_delta block_type c.queue c.bits
        let window ← placeElement limits c.window c.window_posn element
        elementLoop trees is_delta block_type limits rounds (this_run - element.count)
          ⟨window, c.window_posn + element.count, queue, bits⟩
      else .ok (this_run, c)

/-! ## Elements that are read -/

structure LzxTrees.Ready (trees : LzxTrees) (block_type : Nat) : Prop where
  main : trees.MAINTREE.Built Mspack.MAINTREE
  length : trees.LENGTH_empty = false → trees.LENGTH.Built Mspack.LENGTH
  aligned : block_type = LZX_BLOCKTYPE_ALIGNED → trees.ALIGNED.Built Mspack.ALIGNED

section Read

variable {trees : LzxTrees} {is_delta : Bool} {block_type main_element slot : Nat}
  {q : OffsetQueue} {p : BitReader}

/-- An error of the library, and no access outside of an array. -/
def Fails {Value : Type} (result : Except Stop Value) : Prop :=
  ∃ status, status ≠ MSPACK_ERR_OK ∧ result = .error (.error status)

theorem fails_error {Value : Type} (status : Nat) (bad : status ≠ MSPACK_ERR_OK) :
    Fails (.error (.error status) : Except Stop Value) := ⟨status, bad, rfl⟩

theorem read_match_length_result (ready : trees.Ready block_type) (sound : p.Sound) :
    Fails (readMatchLength trees main_element p) ∨
      ∃ match_length p', readMatchLength trees main_element p = .ok (match_length, p') ∧
        2 ≤ match_length ∧ p'.Sound ∧ p'.available ≤ p.available := by
  rw [readMatchLength]
  dsimp only
  split_ifs with longer empty
  · exact Or.inl (fails_error _ (by decide))
  · rcases read_huffsym_cases (ready.length (Bool.eq_false_iff.mpr empty)) sound with failed |
      ⟨symbol, p', read, _, sound', less⟩
    · rw [failed]
      exact Or.inl (fails_error _ (by decide))
    · rw [read]
      exact Or.inr ⟨_, p', rfl, Nat.le_add_left _ _, sound', Nat.le_of_lt less⟩
  · exact Or.inr ⟨_, p, rfl, Nat.le_add_left _ _, sound, Nat.le_refl _⟩

theorem read_extra_len_result (sound : p.Sound) :
    Fails (readExtraLen p) ∨
      ∃ extra_len p', readExtraLen p = .ok (extra_len, p') ∧ p'.Sound ∧
        p'.available ≤ p.available := by
  rw [readExtraLen]
  rcases ensure_bits_result sound (by decide : 3 ≤ 17) with ⟨_, failed⟩ | ⟨p₁, run, fills⟩
  · rw [failed]
    exact Or.inl (fails_error _ (by decide))
  · rw [run, ok_bind]
    have removed (count : Nat) (few : count ≤ 3) : (removeBits count p₁).Sound ∧
        (removeBits count p₁).available ≤ p.available := by
      have left : (removeBits count p₁).bits_left = p₁.bits_left - count := rfl
      have unread : (removeBits count p₁).unread = p₁.unread := rfl
      refine ⟨(remove_sound fills.sound (Nat.le_trans few fills.enough)).1, ?_⟩
      rw [← fills.available, BitReader.available, BitReader.available, left, unread]
      omega
    have field (count width : Nat) (few : count ≤ 3) (word : width ≤ 17) (added : Nat) :
        Fails (do
            let (extra_len, p) ← readBits width (removeBits count p₁)
            return (extra_len + added, p)) ∨
          ∃ extra_len p', (do
              let (extra_len, p) ← readBits width (removeBits count p₁)
              return (extra_len + added, p)) = (.ok (extra_len, p') : Except Stop (Nat × BitReader)) ∧
            p'.Sound ∧ p'.available ≤ p.available := by
      have after := removed count few
      rcases read_bits_cases after.1 word with failed | ⟨value, p', read, _, sound', less⟩
      · rw [failed]
        exact Or.inl (fails_error _ (by decide))
      · rw [read]
        exact Or.inr ⟨_, p', rfl, sound', by omega⟩
    have plain (count width : Nat) (few : count ≤ 3) (word : width ≤ 17) :
        Fails (readBits width (removeBits count p₁)) ∨
          ∃ extra_len p', readBits width (removeBits count p₁) = .ok (extra_len, p') ∧
            p'.Sound ∧ p'.available ≤ p.available := by
      have after := removed count few
      rcases read_bits_cases after.1 word with failed | ⟨value, p', read, _, sound', less⟩
      · exact Or.inl ⟨_, by decide, failed⟩
      · exact Or.inr ⟨value, p', read, sound', by omega⟩
    split_ifs with short middle long
    · exact plain 1 8 (by decide) (by decide)
    · exact field 2 10 (by decide) (by decide) 0x100
    · exact field 3 12 (by decide) (by decide) 0x500
    · exact plain 3 15 (by decide) (by decide)

theorem read_offset_result (ready : trees.Ready block_type) (sound : p.Sound) (below : slot < 290) :
    Fails (readOffset trees block_type slot q p) ∨
      ∃ match_offset q' p', readOffset trees block_type slot q p = .ok (match_offset, q', p') ∧
        p'.Sound ∧ p'.available ≤ p.available := by
  rw [readOffset]
  split_ifs with kind
  · rcases @aligned_offset_result _ slot q p (ready.aligned kind) sound below with failed | read
    · exact Or.inl ⟨_, by decide, failed⟩
    · exact Or.inr read
  · rcases @verbatim_offset_result slot q p sound below with failed | read
    · exact Or.inl ⟨_, by decide, failed⟩
    · exact Or.inr read

theorem read_element_result (ready : trees.Ready block_type) (sound : p.Sound) :
    Fails (readElement trees is_delta block_type q p) ∨
      ∃ element q' p', readElement trees is_delta block_type q p = .ok (element, q', p') ∧
        1 ≤ element.count ∧ p'.Sound ∧ p'.available < p.available := by
  rw [readElement]
  rcases read_huffsym_cases ready.main sound with failed | ⟨symbol, p₁, read, small, sound₁, less₁⟩
  · rw [failed]
    exact Or.inl (fails_error _ (by decide))
  · rw [read, ok_bind]
    dsimp only
    split_ifs with char
    · exact Or.inr ⟨_, _, p₁, rfl, Nat.le_refl 1, sound₁, less₁⟩
    · have slot : (symbol - LZX_NUM_CHARS) >>> 3 < 290 := by
        have size : Mspack.MAINTREE.maxSymbols = 2576 := rfl
        have chars : LZX_NUM_CHARS = 256 := rfl
        rw [Nat.shiftRight_eq_div_pow]
        omega
      rcases @read_match_length_result trees block_type (symbol - LZX_NUM_CHARS) p₁ ready sound₁
        with ⟨status, bad, failed⟩ | ⟨match_length, p₂, second, least, sound₂, less₂⟩
      · rw [failed]
        exact Or.inl (fails_error _ bad)
      · rw [second, ok_bind]
        dsimp only
        rcases @read_offset_result trees block_type _ q p₂ ready sound₂ slot with
          ⟨status, bad, failed⟩ | ⟨match_offset, q', p₃, third, sound₃, less₃⟩
        · rw [failed]
          exact Or.inl (fails_error _ bad)
        · rw [third, ok_bind]
          dsimp only
          split_ifs with longer
          · rcases read_extra_len_result sound₃ with ⟨status, bad, failed⟩ |
              ⟨extra_len, p₄, fourth, sound₄, less₄⟩
            · rw [failed]
              exact Or.inl (fails_error _ bad)
            · rw [fourth]
              refine Or.inr ⟨_, _, p₄, rfl, ?_, sound₄, by omega⟩
              show 1 ≤ match_length + extra_len
              omega
          · exact Or.inr ⟨_, _, p₃, rfl, by show 1 ≤ match_length; omega, sound₃, by omega⟩

end Read

/-! ## Runs of elements -/

section Loop

variable {trees : LzxTrees} {is_delta : Bool} {block_type rounds : Nat} {limits : WindowLimits}
  {this_run : Int} {c : Cursor} {element : Element}

theorem place_element_result (fit : limits.Fit c.window) (inside : c.window_posn < c.window.length) :
    Fails (placeElement limits c.window c.window_posn element) ∨
      ∃ window', placeElement limits c.window c.window_posn element = .ok window' ∧
        window'.length = c.window.length ∧ c.window_posn + element.count ≤ c.window.length := by
  cases element with
  | literal byte =>
      exact Or.inr ⟨_, store_window_ok inside, List.length_set, inside⟩
  | copy match_length match_offset =>
      rcases @copy_match_result limits c.window c.window_posn match_offset match_length fit with
        failed | placed
      · exact Or.inl ⟨_, by decide, failed⟩
      · exact Or.inr placed

structure LoopDone (this_run this_run' : Int) (c c' : Cursor) : Prop where
  done : this_run' ≤ 0
  sum : c'.window_posn + this_run' = c.window_posn + this_run
  window : c'.window.length = c.window.length
  inside : c'.window_posn ≤ c.window.length
  sound : c'.bits.Sound
  available : c'.bits.available ≤ c.bits.available

theorem element_loop_result (ready : trees.Ready block_type) (fit : limits.Fit c.window)
    (sound : c.bits.Sound) (inside : c.window_posn ≤ c.window.length)
    (room : c.window_posn + this_run ≤ c.window.length) (enough : this_run ≤ rounds) :
    Fails (elementLoop trees is_delta block_type limits rounds this_run c) ∨
      ∃ this_run' c', elementLoop trees is_delta block_type limits rounds this_run c =
        .ok (this_run', c') ∧ LoopDone this_run this_run' c c' := by
  induction rounds generalizing this_run c with
  | zero =>
      refine Or.inr ⟨this_run, c, if_neg (by omega), by omega, rfl, rfl, inside, sound, Nat.le_refl _⟩
  | succ rounds ih =>
      rw [elementLoop]
      split_ifs with more
      · rcases @read_element_result trees is_delta block_type c.queue c.bits ready sound with
          ⟨status, bad, failed⟩ | ⟨element, queue, bits, read, least, sound₁, less⟩
        · rw [failed]
          exact Or.inl (fails_error _ bad)
        · rw [read, ok_bind]
          dsimp only
          rcases @place_element_result limits c element fit (by omega) with
            ⟨status, bad, failed⟩ | ⟨window, placed, length, below⟩
          · rw [failed]
            exact Or.inl (fails_error _ bad)
          · rw [placed, ok_bind]
            have fit₁ : limits.Fit window :=
              ⟨fit.size.trans length.symm, by rw [length]; exact fit.small, fit.offset,
                by rw [length]; exact fit.ref_data_size⟩
            rcases @ih (this_run - element.count) ⟨window, c.window_posn + element.count, queue, bits⟩
              fit₁ sound₁ (by rw [length]; exact below) (by
                show ((c.window_posn + element.count : Nat) : Int) + _ ≤ (window.length : Int)
                omega) (by omega) with failed | ⟨this_run', c', run, loop⟩
            · exact Or.inl failed
            · have sum := loop.sum
              refine Or.inr ⟨this_run', c', run, loop.done, ?_, loop.window.trans length, ?_,
                loop.sound, Nat.le_trans loop.available (Nat.le_of_lt less)⟩
              · rw [sum]
                show ((c.window_posn + element.count : Nat) : Int) + _ = _
                omega
              · rw [← length]
                exact loop.inside
      · exact Or.inr ⟨this_run, c, rfl, by omega, rfl, rfl, inside, sound, Nat.le_refl _⟩

end Loop

end XeBuild.Mspack
