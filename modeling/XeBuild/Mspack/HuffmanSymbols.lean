import XeBuild.Mspack.BitReader
import XeBuild.Mspack.TableRoom

/-!
# Symbols of the Huffman trees

The four trees of LZX, `BUILD_TABLE` and `READ_HUFFSYM`. A symbol is read when its
code is ahead; a table that was built reads one whenever 16 bits are left.
-/

namespace XeBuild.Mspack

open BitText PrefixCodes Runs WordBits

set_option autoImplicit false

def LZX_NUM_CHARS : Nat := 256
def LZX_NUM_PRIMARY_LENGTHS : Nat := 7
def LZX_NUM_SECONDARY_LENGTHS : Nat := 249
def LZX_LENTABLE_SAFETY : Nat := 64

/-- `MAXSYMBOLS(tbl)`, `TABLEBITS(tbl)` and the array of a tree. -/
structure HuffTree where
  maxSymbols : Nat
  tableBits : Nat
  array : LzxArray

def PRETREE : HuffTree := ⟨20, 6, .PRETREE_table⟩
def MAINTREE : HuffTree := ⟨LZX_NUM_CHARS + 290 * 8, 12, .MAINTREE_table⟩
def LENGTH : HuffTree := ⟨LZX_NUM_SECONDARY_LENGTHS + 1, 12, .LENGTH_table⟩
def ALIGNED : HuffTree := ⟨8, 7, .ALIGNED_table⟩

structure TreeMemory where
  len : List Nat
  table : List Nat

/-- A failed table is an error of the stream, an access outside of it is none of the library. -/
def inTable {Value : Type} (tree : HuffTree) (result : Except TableStop Value) :
    Except Stop Value :=
  match result with
  | .ok value => .ok value
  | .error .unusable => .error (.error MSPACK_ERR_DECRUNCH)
  | .error (.outside index) => .error (.outside tree.array index)

def buildTable (tree : HuffTree) (memory : TreeMemory) : Except Stop TreeMemory := do
  let table ← inTable tree
    (makeDecodeTable tree.maxSymbols tree.tableBits memory.len memory.table)
  return { memory with table := table }

/-- `BUILD_TABLE_MAYBE_EMPTY`, with the flag for the empty tree. -/
def buildTableMaybeEmpty (tree : HuffTree) (memory : TreeMemory) :
    Except Stop (TreeMemory × Bool) :=
  match makeDecodeTable tree.maxSymbols tree.tableBits memory.len memory.table with
  | .ok table => .ok ({ memory with table := table }, false)
  | .error (.outside index) => .error (.outside tree.array index)
  | .error .unusable =>
      if (List.range tree.maxSymbols).any fun i => memory.len.getD i 0 > 0 then
        .error (.error MSPACK_ERR_DECRUNCH)
      else .ok (memory, true)

def readHuffsym (tree : HuffTree) (memory : TreeMemory) (p : BitReader) :
    Except Stop (Nat × BitReader) := do
  let p ← ensureBits HUFF_MAXBITS p
  let sym ← inTable tree (lookupSymbol tree.maxSymbols tree.tableBits memory.table p.bit_buffer)
  return (sym, removeBits (memory.len.getD sym 0) p)

/-! ## Built tables -/

structure TreeMemory.Sized (tree : HuffTree) (memory : TreeMemory) : Prop where
  len : memory.len.length = tree.maxSymbols + LZX_LENTABLE_SAFETY
  table : memory.table.length = 2 ^ tree.tableBits + 2 * tree.maxSymbols

/-- The table looks every number up. -/
def TreeMemory.Built (tree : HuffTree) (memory : TreeMemory) : Prop :=
  LooksUp tree.maxSymbols tree.tableBits memory.len memory.table

def TreeMemory.leaves (tree : HuffTree) (memory : TreeMemory) : List Leaf :=
  codeLeaves tree.maxSymbols memory.len

def symbolCode (tree : HuffTree) (len : List Nat) (symbol : Nat) : Option (List Bool) :=
  code 16 (codeLeaves tree.maxSymbols len) symbol

/-- The codes of the lengths fill the code space. -/
def Complete (tree : HuffTree) (len : List Nat) : Prop :=
  total 16 (codeLeaves tree.maxSymbols len) = 2 ^ 16

theorem code_leaves_congr {nsyms : Nat} {len len' : List Nat}
    (same : ∀ symbol < nsyms, len.getD symbol 0 = len'.getD symbol 0) :
    codeLeaves nsyms len = codeLeaves nsyms len' := by
  have widths (bit_num : Nat) : leavesOfWidth nsyms len bit_num = leavesOfWidth nsyms len' bit_num := by
    rw [leavesOfWidth, leavesOfWidth]
    congr 1
    apply List.filter_congr
    intro symbol member
    rw [same symbol (List.mem_range.mp member)]
  rw [codeLeaves, codeLeaves, leavesOfWidths, leavesOfWidths, funext widths]

section Symbols

variable {tree : HuffTree} {memory : TreeMemory} {p p' : BitReader} {symbol : Nat} {bits : List Bool}
  {text : Text}

theorem buffer_front (p : BitReader) : p.bit_buffer / 2 ^ 16 = peekBits 16 p := by
  rw [peekBits, Nat.shiftRight_eq_div_pow, bitbufWidth]

theorem buffer_lt (sound : p.Sound) : p.bit_buffer < 2 ^ BITBUF_WIDTH := by
  have held := sound.held
  have width : 2 ^ BITBUF_WIDTH = 2 ^ p.bits_left * 2 ^ (bitbufWidth - p.bits_left) := by
    rw [← Nat.pow_add, Nat.add_sub_cancel' sound.left]
    rfl
  rw [sound.buffer, width]
  exact Nat.mul_lt_mul_of_pos_right held (Nat.two_pow_pos _)

/-- With a built table, a symbol of the tree is read whenever 16 bits are left. -/
theorem read_huffsym_result (built : memory.Built tree) (sound : p.Sound) :
    (p.available < 16 ∧ readHuffsym tree memory p = .error (.error MSPACK_ERR_READ)) ∨
      ∃ p₁ leaf, Fills 16 p p₁ ∧ locate 16 (memory.leaves tree) (peekBits 16 p₁) = some leaf ∧
        leaf ∈ memory.leaves tree ∧
        readHuffsym tree memory p = .ok (leaf.symbol, removeBits leaf.width p₁) ∧
        (removeBits leaf.width p₁).Sound ∧ 16 ≤ p₁.bits_left := by
  rcases ensure_bits_result sound (by decide : HUFF_MAXBITS ≤ 17) with ⟨none, failed⟩ |
    ⟨p₁, run, fills⟩
  · exact Or.inl ⟨none, by rw [readHuffsym, failed]; rfl⟩
  · rcases built p₁.bit_buffer (buffer_lt fills.sound) with ⟨leaf, located, looked⟩
    have member : leaf ∈ memory.leaves tree := by
      rcases locate_some_split located with ⟨front, back, shape, _⟩
      rw [TreeMemory.leaves, shape]
      simp
    have widths := code_leaves_mem member
    have enough : 16 ≤ p₁.bits_left := fills.enough
    rw [buffer_front] at located
    refine Or.inr ⟨p₁, leaf, fills, located, member, ?_, ?_, enough⟩
    · rw [readHuffsym, run, ok_bind, looked, inTable, ok_bind, widths.2.1]
      rfl
    · exact (remove_sound fills.sound (by omega)).1

theorem read_huffsym_cases (built : memory.Built tree) (sound : p.Sound) :
    readHuffsym tree memory p = .error (.error MSPACK_ERR_READ) ∨
      ∃ symbol p', readHuffsym tree memory p = .ok (symbol, p') ∧ symbol < tree.maxSymbols ∧
        p'.Sound ∧ p'.available < p.available := by
  rcases read_huffsym_result built sound with ⟨_, failed⟩ |
    ⟨p₁, leaf, fills, _, member, run, sound', word⟩
  · exact Or.inl failed
  · have widths := code_leaves_mem member
    have left : (removeBits leaf.width p₁).bits_left = p₁.bits_left - leaf.width := rfl
    have unread : (removeBits leaf.width p₁).unread = p₁.unread := rfl
    refine Or.inr ⟨leaf.symbol, _, run, widths.1, sound', ?_⟩
    rw [← fills.available, BitReader.available, BitReader.available, left, unread]
    omega

theorem read_huffsym_before (built : memory.Built tree) (complete : Complete tree memory.len)
    (given : symbolCode tree memory.len symbol = some bits) (sound : p.Sound)
    (before : p.Before (text.prepend bits)) (enough : 16 ≤ p.available) :
    ∃ p', readHuffsym tree memory p = .ok (symbol, p') ∧ p'.Sound ∧ p'.Before text := by
  rcases read_huffsym_result built sound with ⟨none, _⟩ |
    ⟨p₁, leaf, fills, located, _, run, _, word⟩
  · omega
  · have ordered := @code_leaves_ordered tree.maxSymbols memory.len 16 (Nat.le_refl _)
    have width : bits.length ≤ 16 := by
      rcases code_from_some_split given with ⟨front, leaf', back, shape, _, made⟩
      rw [made, to_bits_length]
      apply ordered.bounded
      rw [shape]
      simp
    have before₁ := fills.before _ before
    have split := loaded_split fills.sound word
    rcases shows_drop before₁ (by rw [loaded_length]; omega) with ⟨rest, shape, _⟩
    have starts : toBits 16 (peekBits 16 p₁) =
        bits ++ (toBits 16 (peekBits 16 p₁)).drop bits.length := by
      have fronts := congrArg (List.take bits.length) (split.1.symm.trans shape)
      rw [List.take_append_of_le_length (by rw [to_bits_length]; exact width), List.take_left]
        at fronts
      nth_rewrite 1 [← fronts]
      rw [List.take_append_drop]
    rcases locate_of_code ordered (Nat.le_of_eq complete) given split.2 starts with
      ⟨found, located', same, size⟩
    rw [TreeMemory.leaves, located'] at located
    cases located
    have removed := remove_before fills.sound before₁ (by omega)
    rw [← size] at removed
    refine ⟨_, ?_, removed.2.1, removed.2.2⟩
    rw [run, same]

theorem available_before (before : p.Before (text.prepend bits)) (roomy : 16 ≤ text.bits.length) :
    16 ≤ p.available := by
  rw [available_eq before, prepend_bits, List.length_append]
  omega

structure TreeMemory.Codes (tree : HuffTree) (memory : TreeMemory) (len : List Nat) : Prop where
  same : ∀ symbol < tree.maxSymbols, memory.len.getD symbol 0 = len.getD symbol 0
  built : memory.Built tree
  complete : Complete tree len

theorem read_huffsym_codes {len : List Nat} (codes : memory.Codes tree len)
    (given : symbolCode tree len symbol = some bits) (sound : p.Sound)
    (before : p.Before (text.prepend bits)) (roomy : 16 ≤ text.bits.length) :
    ∃ p', readHuffsym tree memory p = .ok (symbol, p') ∧ p'.Sound ∧ p'.Before text := by
  have leaves := code_leaves_congr codes.same
  apply read_huffsym_before codes.built _ _ sound before (available_before before roomy)
  · rw [Complete, leaves]
    exact codes.complete
  · rw [symbolCode, leaves]
    exact given

end Symbols

/-! ## The tables of the four trees -/

section Trees

variable {tree : HuffTree} {memory : TreeMemory}

structure HuffTree.Fits (tree : HuffTree) : Prop where
  positive : 0 < tree.tableBits
  bits : tree.tableBits < 16
  small : 2 ^ tree.tableBits + 2 * tree.maxSymbols ≤ unusedEntry

theorem pretree_fits : PRETREE.Fits := ⟨by decide, by decide, by decide⟩
theorem maintree_fits : MAINTREE.Fits := ⟨by decide, by decide, by decide⟩
theorem length_fits : LENGTH.Fits := ⟨by decide, by decide, by decide⟩
theorem aligned_fits : ALIGNED.Fits := ⟨by decide, by decide, by decide⟩

theorem table_size (fits : tree.Fits) (sized : memory.Sized tree) :
    TableSize tree.maxSymbols tree.tableBits memory.table :=
  ⟨fits.positive, fits.bits, sized.table, by rw [sized.table]; exact fits.small⟩

def longCodes (tree : HuffTree) (len : List Nat) : Nat :=
  (longLeaves tree.maxSymbols tree.tableBits len).length

inductive BuildResult (tree : HuffTree) (memory : TreeMemory) (result : Except Stop TreeMemory) : Prop
  | made (made : TreeMemory) (run : result = .ok made) (len : made.len = memory.len)
      (sized : made.Sized tree) (built : made.Built tree)
  | unusable (run : result = .error (.error MSPACK_ERR_DECRUNCH))
      (notFull : ¬ Complete tree memory.len)
  | outside (index : Nat) (run : result = .error (.outside tree.array index))
      (beyond : min tree.maxSymbols (2 ^ (tree.tableBits - 1)) <
        tableNodes tree.maxSymbols tree.tableBits memory.len)
      (notFull : longCodes tree memory.len ≤ 2 ^ (tree.tableBits - 1) →
        ¬ Complete tree memory.len)

theorem build_table_outside {index : Nat}
    (left : makeDecodeTable tree.maxSymbols tree.tableBits memory.len memory.table =
      .error (.outside index)) :
    buildTable tree memory = .error (.outside tree.array index) := by
  rw [buildTable, left]
  rfl

theorem build_table_result (fits : tree.Fits) (sized : memory.Sized tree) :
    BuildResult tree memory (buildTable tree memory) := by
  have size := table_size fits sized
  rcases @make_decode_table_result tree.maxSymbols tree.tableBits memory.len memory.table
      size.positive (Nat.le_of_lt size.bits) size.room size.small with
    ⟨made, run, length, looksUp, _⟩ | ⟨made, run, length, looksUp, _⟩ | ⟨run, _, notFull, _⟩ |
    ⟨index, run, under, beyond⟩
  · refine .made { memory with table := made } ?_ rfl ⟨sized.len, length.trans sized.table⟩ looksUp
    rw [buildTable, run]
    rfl
  · refine .made { memory with table := made } ?_ rfl ⟨sized.len, length.trans sized.table⟩ looksUp
    rw [buildTable, run]
    rfl
  · refine .unusable ?_ notFull
    rw [buildTable, run]
    rfl
  · have outside := (make_decode_table_outside_iff size).mp ⟨index, run⟩
    refine .outside index (build_table_outside run) outside.2 ?_
    intro codes complete
    have inside := @usable_inside tree.maxSymbols tree.tableBits memory.len memory.table size codes
      (Or.inr complete) under
    omega

/-- The long codes of a tree may need more nodes than its table has room for: the build writes
past the end of the table exactly then. -/
theorem build_table_left_iff (fits : tree.Fits) (sized : memory.Sized tree) :
    (∃ array index, buildTable tree memory = .error (.outside array index)) ↔
      total tree.tableBits (shortLeaves tree.maxSymbols tree.tableBits memory.len) <
          2 ^ tree.tableBits ∧
        min tree.maxSymbols (2 ^ (tree.tableBits - 1)) <
          tableNodes tree.maxSymbols tree.tableBits memory.len := by
  rw [← make_decode_table_outside_iff (table_size fits sized)]
  constructor
  · rintro ⟨array, index, left⟩
    cases run : makeDecodeTable tree.maxSymbols tree.tableBits memory.len memory.table with
    | ok table =>
        rw [buildTable, run] at left
        cases left
    | error stop =>
        cases stop with
        | unusable =>
            rw [buildTable, run] at left
            cases left
        | outside index => exact ⟨index, rfl⟩
  · rintro ⟨index, left⟩
    exact ⟨tree.array, index, build_table_outside left⟩

/-- Twenty codes of fifteen bits fill twenty-five nodes of the pretree. -/
theorem long_pretree_left :
    ∃ array index, buildTable PRETREE ⟨List.replicate 20 15 ++ List.replicate 64 0,
      List.replicate 104 0⟩ = .error (.outside array index) :=
  (build_table_left_iff pretree_fits ⟨by decide, by decide⟩).mpr ⟨by decide +kernel, by decide +kernel⟩

theorem build_table_complete (fits : tree.Fits) (sized : memory.Sized tree)
    (codes : longCodes tree memory.len ≤ 2 ^ (tree.tableBits - 1))
    (complete : Complete tree memory.len) :
    ∃ made, buildTable tree memory = .ok made ∧ made.len = memory.len ∧ made.Sized tree ∧
      made.Built tree := by
  rcases build_table_result fits sized with ⟨made, run, len, sized', built⟩ | ⟨run, notFull⟩ |
    ⟨index, run, _, notFull⟩
  · exact ⟨made, run, len, sized', built⟩
  · exact absurd complete notFull
  · exact absurd complete (notFull codes)

theorem build_table_inside (fits : tree.Fits) (sized : memory.Sized tree)
    (codes : longCodes tree memory.len ≤ min tree.maxSymbols (2 ^ (tree.tableBits - 1)))
    (large : (16 - tree.tableBits) * 2 ^ (16 - tree.tableBits) + (16 - tree.tableBits) ≤
      min tree.maxSymbols (2 ^ (tree.tableBits - 1)))
    (array : LzxArray) (index : Nat) : buildTable tree memory ≠ .error (.outside array index) := by
  intro run
  have inside := make_decode_table_inside (table_size fits sized) codes large
  rw [buildTable] at run
  cases made : makeDecodeTable tree.maxSymbols tree.tableBits memory.len memory.table with
  | ok table =>
      rw [made] at run
      cases run
  | error stop =>
      cases stop with
      | unusable =>
          rw [made] at run
          cases run
      | outside index' => exact inside index' made

/-- A tree without long codes needs no room behind the direct entries. -/
theorem build_table_direct (fits : tree.Fits) (sized : memory.Sized tree)
    (short : ∀ symbol < tree.maxSymbols, memory.len.getD symbol 0 ≤ tree.tableBits)
    (array : LzxArray) (index : Nat) : buildTable tree memory ≠ .error (.outside array index) := by
  have none : longLeaves tree.maxSymbols tree.tableBits memory.len = [] := by
    rw [← List.length_eq_zero_iff]
    exact Nat.le_zero.mp (long_leaves_length fun symbol small _ => short symbol small)
  rcases build_table_result fits sized with ⟨made, run, _⟩ | ⟨run, _⟩ | ⟨_, _, beyond, _⟩
  · intro other
    rw [run] at other
    cases other
  · intro other
    rw [run] at other
    cases other
  · rw [tableNodes, none, longNodes] at beyond
    exact absurd beyond (Nat.not_lt_zero _)

/-- What comes of `BUILD_TABLE_MAYBE_EMPTY` where the table is not left. -/
theorem build_table_maybe_empty_result (fits : tree.Fits) (sized : memory.Sized tree)
    (inside : ∀ array index, buildTable tree memory ≠ .error (.outside array index)) :
    (buildTableMaybeEmpty tree memory = .error (.error MSPACK_ERR_DECRUNCH) ∧
        ¬ Complete tree memory.len ∧ ∃ symbol < tree.maxSymbols, memory.len.getD symbol 0 ≠ 0) ∨
      (buildTableMaybeEmpty tree memory = .ok (memory, true) ∧
        ∀ symbol < tree.maxSymbols, memory.len.getD symbol 0 = 0) ∨
      ∃ made, buildTableMaybeEmpty tree memory = .ok (made, false) ∧ made.len = memory.len ∧
        made.Sized tree ∧ made.Built tree := by
  rcases build_table_result fits sized with ⟨made, run, len, sized', built⟩ | ⟨run, notFull⟩ |
    ⟨index, run, _, _⟩
  · right
    right
    refine ⟨made, ?_, len, sized', built⟩
    rw [buildTable] at run
    rw [buildTableMaybeEmpty]
    cases table : makeDecodeTable tree.maxSymbols tree.tableBits memory.len memory.table with
    | ok table =>
        rw [table] at run
        cases run
        rfl
    | error stop =>
        rw [table] at run
        cases stop <;> cases run
  · rw [buildTable] at run
    rw [buildTableMaybeEmpty]
    cases table : makeDecodeTable tree.maxSymbols tree.tableBits memory.len memory.table with
    | ok table =>
        rw [table] at run
        cases run
    | error stop =>
        cases stop with
        | outside index =>
            rw [table] at run
            cases run
        | unusable =>
            dsimp only
            split_ifs with some_
            · rcases List.any_eq_true.mp some_ with ⟨symbol, listed, used⟩
              exact Or.inl ⟨rfl, notFull, symbol, List.mem_range.mp listed,
                Nat.ne_of_gt (of_decide_eq_true used)⟩
            · refine Or.inr (Or.inl ⟨rfl, ?_⟩)
              intro symbol small
              by_contra used
              apply some_
              rw [List.any_eq_true]
              exact ⟨symbol, List.mem_range.mpr small, decide_eq_true (Nat.pos_of_ne_zero used)⟩
  · exact absurd run (inside _ _)

theorem code_leaves_empty {nsyms : Nat} {len : List Nat}
    (empty : ∀ symbol < nsyms, len.getD symbol 0 = 0) : codeLeaves nsyms len = [] := by
  apply List.eq_nil_iff_forall_not_mem.mpr
  intro leaf member
  have widths := code_leaves_mem member
  rw [empty leaf.symbol widths.1] at widths
  omega

theorem symbol_code_used {len : List Nat} {symbol : Nat} {bits : List Bool}
    (given : symbolCode tree len symbol = some bits) :
    len.getD symbol 0 ≠ 0 := by
  rcases code_from_some_split given with ⟨front, leaf, back, shape, same, _⟩
  have member : leaf ∈ codeLeaves tree.maxSymbols len := by
    rw [shape]
    exact List.mem_append_right _ List.mem_cons_self
  have widths := code_leaves_mem member
  rw [same] at widths
  omega

theorem not_complete_of_empty {len : List Nat}
    (empty : ∀ symbol < tree.maxSymbols, len.getD symbol 0 = 0) : ¬ Complete tree len := by
  rw [Complete, code_leaves_empty empty]
  exact (by decide : total 16 [] ≠ 2 ^ 16)

theorem not_built_of_empty
    (empty : ∀ symbol < tree.maxSymbols, memory.len.getD symbol 0 = 0) : ¬ memory.Built tree := by
  intro built
  rcases built 0 (Nat.two_pow_pos _) with ⟨leaf, located, _⟩
  rw [code_leaves_empty empty] at located
  cases located

/-- The tree that may be empty, where its lengths are all zero or those of a complete code. -/
theorem build_table_maybe_empty_made (fits : tree.Fits) (sized : memory.Sized tree)
    (inside : ∀ array index, buildTable tree memory ≠ .error (.outside array index)) :
    (Complete tree memory.len → ∃ made, buildTableMaybeEmpty tree memory = .ok (made, false) ∧
        made.len = memory.len ∧ made.Sized tree ∧ made.Built tree) ∧
      ((∀ symbol < tree.maxSymbols, memory.len.getD symbol 0 = 0) →
        buildTableMaybeEmpty tree memory = .ok (memory, true)) := by
  rcases build_table_maybe_empty_result fits sized inside with ⟨_, notFull, symbol, small, used⟩ |
    ⟨run, empty⟩ | ⟨made, run, len, sized', built⟩
  · exact ⟨fun complete => absurd complete notFull, fun empty => absurd (empty symbol small) used⟩
  · exact ⟨fun complete => absurd complete (not_complete_of_empty empty), fun _ => run⟩
  · refine ⟨fun _ => ⟨made, run, len, sized', built⟩, fun empty => ?_⟩
    rw [← len] at empty
    exact absurd built (not_built_of_empty empty)

end Trees

end XeBuild.Mspack
