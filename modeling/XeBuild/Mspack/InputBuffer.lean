import XeBuild.Lib.SideBySide
import XeBuild.Mspack.LzxdCalls

/-!
# The buffer of the input

Every step of the decoder goes on alike over two readers with the same bits and
bytes ahead. So it does not matter into which pieces the input buffer cuts the
input, and a frame does not depend on what has become of the output.
-/

namespace XeBuild.Mspack

open ListRange Runs SideBySide

set_option autoImplicit false

/-- The same bits and bytes ahead, in two buffers. -/
structure Alike (p q : BitReader) : Prop extends SameAhead p q where
  buffered : p.Buffered
  buffered' : q.Buffered

def AlikeBehind {Value : Type} (left right : Value × BitReader) : Prop :=
  left.1 = right.1 ∧ Alike left.2 right.2

/-! ## Bits and bytes -/

section Bits

variable {p q : BitReader}

theorem lockstep_next_byte (alike : Alike p q) :
    Lockstep AlikeBehind (nextByte p) (nextByte q) := by
  have unread := alike.unread
  rcases next_byte_result alike.buffered with ⟨none, failed⟩ | ⟨byte, p', run, ahead, size, buffer, left⟩
  · rcases next_byte_result alike.buffered' with ⟨_, failed'⟩ | ⟨byte, q', _, ahead, _⟩
    · rw [failed, failed']
      exact .error _
    · rw [← unread, none] at ahead
      cases ahead
  · rcases next_byte_result alike.buffered' with ⟨none, _⟩ | ⟨byte', q', run', ahead', size', buffer', left'⟩
    · rw [unread, none] at ahead
      cases ahead
    · rw [unread, ahead'] at ahead
      rcases List.cons.inj ahead with ⟨same, rest⟩
      rw [run, run', same]
      refine .ok ⟨rfl, ⟨⟨rest.symm, ?_, ?_⟩, ?_, ?_⟩⟩
      · rw [buffer, buffer', alike.bit_buffer]
      · rw [left, left', alike.bits_left]
      · exact Nat.le_trans alike.buffered (Nat.le_of_eq size.symm)
      · exact Nat.le_trans alike.buffered' (Nat.le_of_eq size'.symm)

theorem alike_inject (alike : Alike p q) (bitdata nbits : Nat) :
    Alike (injectBits bitdata nbits p) (injectBits bitdata nbits q) := by
  refine ⟨⟨alike.unread, ?_, ?_⟩, alike.buffered, alike.buffered'⟩
  · rw [injectBits, injectBits, alike.bit_buffer, alike.bits_left]
  · rw [injectBits, injectBits, alike.bits_left]

theorem alike_remove (alike : Alike p q) (nbits : Nat) :
    Alike (removeBits nbits p) (removeBits nbits q) := by
  refine ⟨⟨alike.unread, ?_, ?_⟩, alike.buffered, alike.buffered'⟩
  · rw [removeBits, removeBits, alike.bit_buffer]
  · rw [removeBits, removeBits, alike.bits_left]

theorem alike_peek (alike : Alike p q) (nbits : Nat) : peekBits nbits p = peekBits nbits q := by
  rw [peekBits, peekBits, alike.bit_buffer]

theorem alike_drop (alike : Alike p q) : Alike (dropBits p) (dropBits q) :=
  ⟨⟨alike.unread, rfl, rfl⟩, alike.buffered, alike.buffered'⟩

theorem alike_available (alike : Alike p q) : p.available = q.available := by
  rw [BitReader.available, BitReader.available, alike.unread, alike.bits_left]

theorem lockstep_read_bytes (alike : Alike p q) : Lockstep Alike (readBytes p) (readBytes q) := by
  rw [readBytes, readBytes]
  apply lockstep_bind (lockstep_next_byte alike)
  rintro ⟨b0, p₁⟩ ⟨_, q₁⟩ ⟨rfl, alike₁⟩ _
  apply lockstep_bind (lockstep_next_byte alike₁)
  rintro ⟨b1, p₂⟩ ⟨_, q₂⟩ ⟨rfl, alike₂⟩ _
  exact .ok (alike_inject alike₂ _ _)

theorem lockstep_ensure_loop (nbits rounds : Nat) (alike : Alike p q) :
    Lockstep Alike (ensureLoop nbits rounds p) (ensureLoop nbits rounds q) := by
  induction rounds generalizing p q with
  | zero =>
      rw [ensureLoop, ensureLoop, alike.bits_left]
      split_ifs
      · exact .error _
      · exact .ok alike
  | succ rounds ih =>
      rw [ensureLoop, ensureLoop, alike.bits_left]
      split_ifs
      · apply lockstep_bind (lockstep_read_bytes alike)
        intro p₁ q₁ alike₁ _
        exact ih alike₁
      · exact .ok alike

theorem lockstep_ensure_bits (nbits : Nat) (alike : Alike p q) :
    Lockstep Alike (ensureBits nbits p) (ensureBits nbits q) :=
  lockstep_ensure_loop nbits nbits alike

theorem lockstep_read_bits (nbits : Nat) (alike : Alike p q) :
    Lockstep AlikeBehind (readBits nbits p) (readBits nbits q) := by
  rw [readBits, readBits]
  apply lockstep_bind (lockstep_ensure_bits nbits alike)
  intro p₁ q₁ alike₁ _
  exact .ok ⟨alike_peek alike₁ nbits, alike_remove alike₁ nbits⟩

theorem lockstep_fill_empty (alike : Alike p q) :
    Lockstep Alike (fillEmpty p) (fillEmpty q) := by
  rw [fillEmpty, fillEmpty, alike.bits_left]
  split_ifs
  · exact lockstep_ensure_bits 16 alike
  · exact .ok alike

theorem lockstep_realign (alike : Alike p q) : Lockstep Alike (realign p) (realign q) := by
  have filled : Lockstep Alike (fillStarted p) (fillStarted q) := by
    rw [fillStarted, fillStarted, alike.bits_left]
    split_ifs
    · exact lockstep_ensure_bits 16 alike
    · exact .ok alike
  rw [realign, realign]
  apply lockstep_bind filled
  intro p₁ q₁ alike₁ _
  rw [alike₁.bits_left]
  split_ifs
  · exact .ok (alike_remove alike₁ _)
  · exact .ok alike₁

theorem lockstep_read_raw (count : Nat) (alike : Alike p q) :
    Lockstep AlikeBehind (readRaw count p) (readRaw count q) := by
  induction count generalizing p q with
  | zero => exact .ok ⟨rfl, alike⟩
  | succ count ih =>
      rw [readRaw, readRaw]
      apply lockstep_bind (lockstep_next_byte alike)
      rintro ⟨byte, p₁⟩ ⟨_, q₁⟩ ⟨rfl, alike₁⟩ _
      apply lockstep_bind (ih alike₁)
      rintro ⟨rest, p₂⟩ ⟨_, q₂⟩ ⟨rfl, alike₂⟩ _
      exact .ok ⟨rfl, alike₂⟩

theorem lockstep_stored_offsets (alike : Alike p q) :
    Lockstep AlikeBehind (readStoredOffsets p) (readStoredOffsets q) := by
  rw [readStoredOffsets, readStoredOffsets]
  apply lockstep_bind (lockstep_fill_empty alike)
  intro p₁ q₁ alike₁ _
  apply lockstep_bind (lockstep_read_raw 12 (alike_drop alike₁))
  rintro ⟨buf, p₂⟩ ⟨_, q₂⟩ ⟨rfl, alike₂⟩ _
  exact .ok ⟨rfl, alike₂⟩

end Bits

/-! ## Trees -/

section Trees

variable {p q : BitReader}

theorem lockstep_huffsym (tree : HuffTree) (memory : TreeMemory) (alike : Alike p q) :
    Lockstep AlikeBehind (readHuffsym tree memory p) (readHuffsym tree memory q) := by
  rw [readHuffsym, readHuffsym]
  apply lockstep_bind (lockstep_ensure_bits _ alike)
  intro p₁ q₁ alike₁ _
  rw [alike₁.bit_buffer]
  apply lockstep_bind_same
  intro sym
  exact .ok ⟨rfl, alike_remove alike₁ _⟩

theorem lockstep_plain_lens (width count x : Nat) (len : List Nat) (alike : Alike p q) :
    Lockstep AlikeBehind (readPlainLens width count x len p) (readPlainLens width count x len q) := by
  induction count generalizing x len p q with
  | zero => exact .ok ⟨rfl, alike⟩
  | succ count ih =>
      rw [readPlainLens, readPlainLens]
      apply lockstep_bind (lockstep_read_bits width alike)
      rintro ⟨y, p₁⟩ ⟨_, q₁⟩ ⟨rfl, alike₁⟩ _
      apply lockstep_bind_same
      intro len
      exact ih (x + 1) len alike₁

theorem lockstep_lens_loop (pretree : TreeMemory) (last rounds x : Nat) (lens : List Nat)
    (alike : Alike p q) :
    Lockstep AlikeBehind (readLensLoop pretree last rounds x lens p)
      (readLensLoop pretree last rounds x lens q) := by
  induction rounds generalizing x lens p q with
  | zero =>
      rw [readLensLoop, readLensLoop]
      split_ifs
      · exact .error _
      · exact .ok ⟨rfl, alike⟩
  | succ rounds ih =>
      rw [readLensLoop, readLensLoop]
      split_ifs
      · apply lockstep_bind (lockstep_huffsym PRETREE pretree alike)
        rintro ⟨z, p₁⟩ ⟨_, q₁⟩ ⟨rfl, alike₁⟩ _
        dsimp only
        split_ifs
        · apply lockstep_bind (lockstep_read_bits 4 alike₁)
          rintro ⟨y, p₂⟩ ⟨_, q₂⟩ ⟨rfl, alike₂⟩ _
          apply lockstep_bind_same
          intro lens
          exact ih _ lens alike₂
        · apply lockstep_bind (lockstep_read_bits 5 alike₁)
          rintro ⟨y, p₂⟩ ⟨_, q₂⟩ ⟨rfl, alike₂⟩ _
          apply lockstep_bind_same
          intro lens
          exact ih _ lens alike₂
        · apply lockstep_bind (lockstep_read_bits 1 alike₁)
          rintro ⟨y, p₂⟩ ⟨_, q₂⟩ ⟨rfl, alike₂⟩ _
          apply lockstep_bind (lockstep_huffsym PRETREE pretree alike₂)
          rintro ⟨z, p₃⟩ ⟨_, q₃⟩ ⟨rfl, alike₃⟩ _
          apply lockstep_bind_same
          intro len
          apply lockstep_bind_same
          intro lens
          exact ih _ lens alike₃
        · apply lockstep_bind_same
          intro len
          apply lockstep_bind_same
          intro lens
          exact ih _ lens alike₁
      · exact .ok ⟨rfl, alike⟩

def AlikeLens (left right : TreeMemory × List Nat × BitReader) : Prop :=
  left.1 = right.1 ∧ AlikeBehind left.2 right.2

theorem lockstep_read_lens (pretree : TreeMemory) (lens : List Nat) (first last : Nat)
    (alike : Alike p q) :
    Lockstep AlikeLens (lzxdReadLens pretree lens first last p)
      (lzxdReadLens pretree lens first last q) := by
  rw [lzxdReadLens, lzxdReadLens]
  apply lockstep_bind (lockstep_plain_lens 4 20 0 pretree.len alike)
  rintro ⟨len, p₁⟩ ⟨_, q₁⟩ ⟨rfl, alike₁⟩ _
  apply lockstep_bind_same
  intro pretree
  apply lockstep_bind (lockstep_lens_loop pretree last (last - first) first lens alike₁)
  rintro ⟨lens, p₂⟩ ⟨_, q₂⟩ ⟨rfl, alike₂⟩ _
  exact .ok ⟨rfl, rfl, alike₂⟩

theorem lockstep_block_trees (trees : LzxTrees) (num_offsets : Nat) (alike : Alike p q) :
    Lockstep AlikeBehind (readBlockTrees trees num_offsets p) (readBlockTrees trees num_offsets q) := by
  rw [readBlockTrees, readBlockTrees]
  apply lockstep_bind (lockstep_read_lens _ _ 0 256 alike)
  rintro ⟨pretree, len, p₁⟩ ⟨_, _, q₁⟩ ⟨rfl, rfl, alike₁⟩ _
  apply lockstep_bind (lockstep_read_lens _ _ 256 _ alike₁)
  rintro ⟨pretree, len, p₂⟩ ⟨_, _, q₂⟩ ⟨rfl, rfl, alike₂⟩ _
  apply lockstep_bind_same
  intro maintree
  apply lockstep_bind (lockstep_read_lens _ _ 0 _ alike₂)
  rintro ⟨pretree, len, p₃⟩ ⟨_, _, q₃⟩ ⟨rfl, rfl, alike₃⟩ _
  apply lockstep_bind_same
  intro length
  exact .ok ⟨rfl, alike₃⟩

theorem lockstep_aligned_tree (trees : LzxTrees) (alike : Alike p q) :
    Lockstep AlikeBehind (readAlignedTree trees p) (readAlignedTree trees q) := by
  rw [readAlignedTree, readAlignedTree]
  apply lockstep_bind (lockstep_plain_lens 3 8 0 _ alike)
  rintro ⟨len, p₁⟩ ⟨_, q₁⟩ ⟨rfl, alike₁⟩ _
  apply lockstep_bind_same
  intro aligned
  exact .ok ⟨rfl, alike₁⟩

end Trees

/-! ## Elements -/

def AlikeBehindTwo {First Second : Type} (left right : First × Second × BitReader) : Prop :=
  left.1 = right.1 ∧ AlikeBehind left.2 right.2

inductive AlikeCursor (c : Cursor) : Cursor → Prop
  | bits (q : BitReader) (alike : Alike c.bits q) : AlikeCursor c { c with bits := q }

section Elements

variable {p q : BitReader} {c d : Cursor}

theorem lockstep_match_length (trees : LzxTrees) (main_element : Nat) (alike : Alike p q) :
    Lockstep AlikeBehind (readMatchLength trees main_element p)
      (readMatchLength trees main_element q) := by
  rw [readMatchLength, readMatchLength]
  dsimp only
  split_ifs
  · exact .error _
  · apply lockstep_bind (lockstep_huffsym LENGTH trees.LENGTH alike)
    rintro ⟨length_footer, p₁⟩ ⟨_, q₁⟩ ⟨rfl, alike₁⟩ _
    exact .ok ⟨rfl, alike₁⟩
  · exact .ok ⟨rfl, alike⟩

theorem lockstep_extra_len (alike : Alike p q) :
    Lockstep AlikeBehind (readExtraLen p) (readExtraLen q) := by
  rw [readExtraLen, readExtraLen]
  apply lockstep_bind (lockstep_ensure_bits 3 alike)
  intro p₁ q₁ alike₁ _
  rw [alike_peek alike₁ 1, alike_peek alike₁ 2, alike_peek alike₁ 3]
  split_ifs
  · exact lockstep_read_bits 8 (alike_remove alike₁ 1)
  · apply lockstep_bind (lockstep_read_bits 10 (alike_remove alike₁ 2))
    rintro ⟨extra_len, p₂⟩ ⟨_, q₂⟩ ⟨rfl, alike₂⟩ _
    exact .ok ⟨rfl, alike₂⟩
  · apply lockstep_bind (lockstep_read_bits 12 (alike_remove alike₁ 3))
    rintro ⟨extra_len, p₂⟩ ⟨_, q₂⟩ ⟨rfl, alike₂⟩ _
    exact .ok ⟨rfl, alike₂⟩
  · exact lockstep_read_bits 15 (alike_remove alike₁ 3)

theorem lockstep_verbatim (slot : Nat) (queue : OffsetQueue) (alike : Alike p q) :
    Lockstep AlikeBehindTwo (verbatimOffset slot queue p) (verbatimOffset slot queue q) := by
  rw [verbatimOffset, verbatimOffset]
  split_ifs
  · exact .ok ⟨rfl, rfl, alike⟩
  · exact .ok ⟨rfl, rfl, alike⟩
  · exact .ok ⟨rfl, rfl, alike⟩
  · exact .ok ⟨rfl, rfl, alike⟩
  · apply lockstep_bind (lockstep_read_bits _ alike)
    rintro ⟨verbatim_bits, p₁⟩ ⟨_, q₁⟩ ⟨rfl, alike₁⟩ _
    apply lockstep_bind_same
    intro base
    exact .ok ⟨rfl, rfl, alike₁⟩

theorem lockstep_aligned (aligned : TreeMemory) (slot : Nat) (queue : OffsetQueue)
    (alike : Alike p q) :
    Lockstep AlikeBehindTwo (alignedOffset aligned slot queue p)
      (alignedOffset aligned slot queue q) := by
  rw [alignedOffset, alignedOffset]
  split_ifs
  · exact .ok ⟨rfl, rfl, alike⟩
  · exact .ok ⟨rfl, rfl, alike⟩
  · exact .ok ⟨rfl, rfl, alike⟩
  · apply lockstep_bind_same
    intro base
    dsimp only
    split_ifs
    · apply lockstep_bind (lockstep_read_bits _ alike)
      rintro ⟨verbatim_bits, p₁⟩ ⟨_, q₁⟩ ⟨rfl, alike₁⟩ _
      apply lockstep_bind (lockstep_huffsym ALIGNED aligned alike₁)
      rintro ⟨aligned_bits, p₂⟩ ⟨_, q₂⟩ ⟨rfl, alike₂⟩ _
      exact .ok ⟨rfl, rfl, alike₂⟩
    · apply lockstep_bind (lockstep_huffsym ALIGNED aligned alike)
      rintro ⟨aligned_bits, p₁⟩ ⟨_, q₁⟩ ⟨rfl, alike₁⟩ _
      exact .ok ⟨rfl, rfl, alike₁⟩
    · apply lockstep_bind (lockstep_read_bits _ alike)
      rintro ⟨verbatim_bits, p₁⟩ ⟨_, q₁⟩ ⟨rfl, alike₁⟩ _
      exact .ok ⟨rfl, rfl, alike₁⟩
    · exact .ok ⟨rfl, rfl, alike⟩

theorem lockstep_offset (trees : LzxTrees) (block_type slot : Nat) (queue : OffsetQueue)
    (alike : Alike p q) :
    Lockstep AlikeBehindTwo (readOffset trees block_type slot queue p)
      (readOffset trees block_type slot queue q) := by
  rw [readOffset, readOffset]
  split_ifs
  · exact lockstep_aligned trees.ALIGNED slot queue alike
  · exact lockstep_verbatim slot queue alike

theorem lockstep_element (trees : LzxTrees) (is_delta : Bool) (block_type : Nat)
    (queue : OffsetQueue) (alike : Alike p q) :
    Lockstep AlikeBehindTwo (readElement trees is_delta block_type queue p)
      (readElement trees is_delta block_type queue q) := by
  rw [readElement, readElement]
  apply lockstep_bind (lockstep_huffsym MAINTREE trees.MAINTREE alike)
  rintro ⟨main_element, p₁⟩ ⟨_, q₁⟩ ⟨rfl, alike₁⟩ _
  dsimp only
  split_ifs
  · exact .ok ⟨rfl, rfl, alike₁⟩
  · apply lockstep_bind (lockstep_match_length trees _ alike₁)
    rintro ⟨match_length, p₂⟩ ⟨_, q₂⟩ ⟨rfl, alike₂⟩ _
    apply lockstep_bind (lockstep_offset trees block_type _ queue alike₂)
    rintro ⟨match_offset, queue₃, p₃⟩ ⟨_, _, q₃⟩ ⟨rfl, rfl, alike₃⟩ _
    dsimp only
    split_ifs
    · apply lockstep_bind (lockstep_extra_len alike₃)
      rintro ⟨extra_len, p₄⟩ ⟨_, q₄⟩ ⟨rfl, alike₄⟩ _
      exact .ok ⟨rfl, rfl, alike₄⟩
    · exact .ok ⟨rfl, rfl, alike₃⟩

def AlikeRun (left right : Int × Cursor) : Prop := left.1 = right.1 ∧ AlikeCursor left.2 right.2

theorem lockstep_element_loop (trees : LzxTrees) (is_delta : Bool) (block_type : Nat)
    (limits : WindowLimits) (rounds : Nat) (this_run : Int) (alike : AlikeCursor c d) :
    Lockstep AlikeRun (elementLoop trees is_delta block_type limits rounds this_run c)
      (elementLoop trees is_delta block_type limits rounds this_run d) := by
  induction rounds generalizing this_run c d with
  | zero =>
      rw [elementLoop, elementLoop]
      split_ifs
      · exact .error _
      · exact .ok ⟨rfl, alike⟩
  | succ rounds ih =>
      rw [elementLoop, elementLoop]
      split_ifs
      · rcases alike with ⟨q, alike⟩
        apply lockstep_bind (lockstep_element trees is_delta block_type c.queue alike)
        rintro ⟨element, queue₁, p₁⟩ ⟨_, _, q₁⟩ ⟨rfl, rfl, alike₁⟩ _
        apply lockstep_bind_same
        intro window
        exact ih _ (.bits q₁ alike₁)
      · exact .ok ⟨rfl, alike⟩

end Elements

/-! ## Streams -/

/-- The other stream has this output, and differs in its buffer only. -/
inductive AlikeStream (output : Option MemFile) (lzx : LzxdStream) : LzxdStream → Prop
  | other (q : BitReader) (alike : Alike lzx.cursor.bits q) :
      AlikeStream output lzx { lzx with output := output, cursor := { lzx.cursor with bits := q } }

section Streams

variable {output : Option MemFile} {p q : BitReader} {lzx other : LzxdStream} {window : Bytes}
  {rounds this_run rundest bytes_todo frame_size : Nat}

theorem safely_value {Value : Type} {is_delta : Bool} {result : Except Stop Value}
    {Holds : Value → Prop} {value : Value} (safe : Safely is_delta result Holds)
    (run : result = .ok value) : Holds value := by
  rcases safe with ⟨_, _, failed⟩ | ⟨_, _, left, _⟩ | ⟨other, run', holds⟩
  · rw [run] at failed
    cases failed
  · rw [run] at left
    cases left
  · rw [run] at run'
    cases run'
    exact holds

theorem lockstep_skip_odd (alike : AlikeStream output lzx other) :
    Lockstep Alike (skipOddByte lzx) (skipOddByte other) := by
  rcases alike with ⟨q, alike⟩
  rw [skipOddByte, skipOddByte]
  dsimp only
  split_ifs
  · apply lockstep_bind (lockstep_next_byte alike)
    rintro ⟨byte, p₁⟩ ⟨_, q₁⟩ ⟨rfl, alike₁⟩ _
    exact .ok alike₁
  · exact .ok alike

theorem lockstep_first_tree (alike : AlikeStream output lzx other) :
    Lockstep AlikeBehind (readFirstTree lzx) (readFirstTree other) := by
  rcases alike with ⟨q, alike⟩
  rw [readFirstTree, readFirstTree]
  dsimp only
  split_ifs
  · exact lockstep_aligned_tree lzx.trees alike
  · exact .ok ⟨rfl, alike⟩

theorem lockstep_compressed_header (alike : AlikeStream output lzx other) :
    Lockstep (AlikeStream output) (readCompressedHeader lzx) (readCompressedHeader other) := by
  rw [readCompressedHeader, readCompressedHeader]
  apply lockstep_bind (lockstep_first_tree alike)
  rintro ⟨trees, p₁⟩ ⟨_, q₁⟩ ⟨rfl, alike₁⟩ _
  rcases alike with ⟨q, _⟩
  apply lockstep_bind (lockstep_block_trees trees lzx.num_offsets alike₁)
  rintro ⟨trees, p₂⟩ ⟨_, q₂⟩ ⟨rfl, alike₂⟩ _
  exact .ok (.other q₂ alike₂)

theorem lockstep_uncompressed_header (alike : AlikeStream output lzx other) :
    Lockstep (AlikeStream output) (readUncompressedHeader lzx) (readUncompressedHeader other) := by
  rcases alike with ⟨q, alike⟩
  rw [readUncompressedHeader, readUncompressedHeader]
  apply lockstep_bind (lockstep_stored_offsets alike)
  rintro ⟨queue, p₁⟩ ⟨_, q₁⟩ ⟨rfl, alike₁⟩ _
  exact .ok (.other q₁ alike₁)

theorem lockstep_block_header (alike : AlikeStream output lzx other) :
    Lockstep (AlikeStream output) (readBlockHeader lzx) (readBlockHeader other) := by
  rw [readBlockHeader, readBlockHeader]
  apply lockstep_bind (lockstep_skip_odd alike)
  intro p₁ q₁ alike₁ _
  rcases alike with ⟨q, _⟩
  apply lockstep_bind (lockstep_read_bits 3 alike₁)
  rintro ⟨block_type, p₂⟩ ⟨_, q₂⟩ ⟨rfl, alike₂⟩ _
  apply lockstep_bind (lockstep_read_bits 16 alike₂)
  rintro ⟨i, p₃⟩ ⟨_, q₃⟩ ⟨rfl, alike₃⟩ _
  apply lockstep_bind (lockstep_read_bits 8 alike₃)
  rintro ⟨j, p₄⟩ ⟨_, q₄⟩ ⟨rfl, alike₄⟩ _
  dsimp only
  split_ifs
  · exact lockstep_compressed_header (.other q₄ alike₄)
  · exact lockstep_uncompressed_header (.other q₄ alike₄)
  · exact .error _

/-- The pieces in which an uncompressed run is copied do not matter. -/
theorem lockstep_uncompressed (alike : Alike p q) (inside : rundest + this_run ≤ window.length)
    (enough : 2 * this_run ≤ rounds) :
    Lockstep AlikeBehind (uncompressedRun rounds this_run rundest window p)
      (uncompressedRun rounds this_run rundest window q) := by
  have unread := alike.unread
  rcases uncompressed_run_result alike.buffered inside (Or.inl enough) with
    ⟨short, failed⟩ | ⟨p', run, taken⟩
  · rcases uncompressed_run_result alike.buffered' inside (Or.inl enough) with
      ⟨_, failed'⟩ | ⟨q', _, taken'⟩
    · rw [failed, failed']
      exact .error _
    · have enough' := taken'.enough
      rw [← unread] at enough'
      omega
  · rcases uncompressed_run_result alike.buffered' inside (Or.inl enough) with
      ⟨short, _⟩ | ⟨q', run', taken'⟩
    · have enough' := taken.enough
      rw [unread] at enough'
      omega
    · rw [run, run', unread]
      refine .ok ⟨rfl, ⟨⟨?_, ?_, ?_⟩, ?_, ?_⟩⟩
      · rw [taken.unread, taken'.unread, unread]
      · rw [taken.bit_buffer, taken'.bit_buffer, alike.bit_buffer]
      · rw [taken.bits_left, taken'.bits_left, alike.bits_left]
      · exact Nat.le_trans alike.buffered (Nat.le_of_eq taken.inbuf_size.symm)
      · exact Nat.le_trans alike.buffered' (Nat.le_of_eq taken'.inbuf_size.symm)

theorem lockstep_run_block (alike : AlikeStream output lzx other)
    (room : lzx.cursor.window_posn + this_run ≤ lzx.cursor.window.length) :
    Lockstep AlikeRun (runBlock lzx this_run) (runBlock other this_run) := by
  rcases alike with ⟨q, alike⟩
  rw [runBlock, runBlock]
  dsimp only
  split_ifs
  · exact lockstep_element_loop _ _ _ _ _ _ (.bits q alike)
  · apply lockstep_bind (lockstep_uncompressed alike room (Nat.le_refl _))
    rintro ⟨window, p₁⟩ ⟨_, q₁⟩ ⟨rfl, alike₁⟩ _
    exact .ok ⟨rfl, .bits q₁ alike₁⟩
  · exact .error _

theorem lockstep_next_block (alike : AlikeStream output lzx other) :
    Lockstep (AlikeStream output) (nextBlock lzx) (nextBlock other) := by
  have remaining : other.block_remaining = lzx.block_remaining := by
    rcases alike with ⟨q, alike⟩
    rfl
  rw [nextBlock, nextBlock, remaining]
  split_ifs
  · exact lockstep_block_header alike
  · exact .ok alike

def AlikeRound (output : Option MemFile) (left right : Nat × LzxdStream) : Prop :=
  left.1 = right.1 ∧ AlikeStream output left.2 right.2

theorem lockstep_block_round (alike : AlikeStream output lzx other) (inFrame : lzx.InFrame bytes_todo) :
    Lockstep (AlikeRound output) (blockRound bytes_todo lzx) (blockRound bytes_todo other) := by
  rw [blockRound, blockRound]
  apply lockstep_bind (lockstep_next_block alike)
  intro lzx₁ other₁ alike₁ run
  rcases safely_value (safely_next_block inFrame.inside) run with ⟨inside₁, keeps, posn, _⟩
  have few := (this_run_bounds lzx₁.block_remaining bytes_todo).1
  have room := inFrame.room
  have window := inside₁.window
  rw [← keeps.window_size] at room
  rcases alike₁ with ⟨q, alike₁⟩
  apply lockstep_bind (@lockstep_run_block output lzx₁ _ (thisRun lzx₁.block_remaining bytes_todo)
    (.other q alike₁) (by omega))
  rintro ⟨left, c⟩ ⟨_, _⟩ ⟨rfl, ⟨q₂, alike₂⟩⟩ _
  dsimp only
  split_ifs
  · exact .error _
  · exact .ok ⟨rfl, .other q₂ alike₂⟩
  · exact .ok ⟨rfl, .other q₂ alike₂⟩

theorem lockstep_block_loop (alike : AlikeStream output lzx other) (inFrame : lzx.InFrame bytes_todo) :
    Lockstep (AlikeStream output) (blockLoop rounds bytes_todo lzx) (blockLoop rounds bytes_todo other) := by
  induction rounds generalizing bytes_todo lzx other with
  | zero =>
      rw [blockLoop, blockLoop]
      split_ifs
      · exact .error _
      · exact .ok alike
  | succ rounds ih =>
      rw [blockLoop, blockLoop]
      split_ifs with more
      · apply lockstep_bind (lockstep_block_round alike inFrame)
        rintro ⟨bytes_todo₁, lzx₁⟩ ⟨_, other₁⟩ ⟨rfl, alike₁⟩ run
        exact ih alike₁ (safely_value (safely_block_round inFrame more) run).inFrame
      · exact .ok alike

theorem lockstep_reset (alike : AlikeStream output lzx other) :
    Lockstep (AlikeStream output) (resetAtInterval lzx) (resetAtInterval other) := by
  rcases alike with ⟨q, alike⟩
  rw [resetAtInterval, resetAtInterval]
  dsimp only
  split_ifs
  · exact .error _
  · exact .ok (.other q alike)
  · exact .ok (.other q alike)

theorem lockstep_chunk_size (alike : AlikeStream output lzx other) :
    Lockstep (AlikeStream output) (skipChunkSize lzx) (skipChunkSize other) := by
  rcases alike with ⟨q, alike⟩
  rw [skipChunkSize, skipChunkSize]
  dsimp only
  split_ifs
  · apply lockstep_bind (lockstep_ensure_bits 16 alike)
    intro p₁ q₁ alike₁ _
    exact .ok (.other _ (alike_remove alike₁ 16))
  · exact .ok (.other q alike)

theorem lockstep_stream_header (alike : AlikeStream output lzx other) :
    Lockstep (AlikeStream output) (readStreamHeader lzx) (readStreamHeader other) := by
  rcases alike with ⟨q, alike⟩
  rw [readStreamHeader, readStreamHeader]
  dsimp only
  split_ifs
  · exact .ok (.other q alike)
  · apply lockstep_bind (lockstep_read_bits 1 alike)
    rintro ⟨i, p₁⟩ ⟨_, q₁⟩ ⟨rfl, alike₁⟩ _
    dsimp only
    split_ifs
    · apply lockstep_bind (lockstep_read_bits 16 alike₁)
      rintro ⟨i, p₂⟩ ⟨_, q₂⟩ ⟨rfl, alike₂⟩ _
      apply lockstep_bind (lockstep_read_bits 16 alike₂)
      rintro ⟨j, p₃⟩ ⟨_, q₃⟩ ⟨rfl, alike₃⟩ _
      exact .ok (.other q₃ alike₃)
    · exact .ok (.other q₁ alike₁)

theorem lockstep_translate_output (alike : AlikeStream output lzx other) :
    Lockstep (AlikeStream output) (translateOutput lzx frame_size) (translateOutput other frame_size) := by
  rcases alike with ⟨q, alike⟩
  rw [translateOutput, translateOutput]
  apply lockstep_bind_same
  intro data
  dsimp only
  split_ifs
  · apply lockstep_bind_same
    intro data
    exact .ok (.other q alike)
  · exact .error _
  · exact .ok (.other q alike)
  · exact .ok (.other q alike)

/-- A frame does not depend on the output and on how the input is buffered. -/
theorem lockstep_decode_frame (alike : AlikeStream output lzx other) (at_ : lzx.AtFrame)
    (written : lzx.pending = []) :
    Lockstep (AlikeRound output) (decodeFrame lzx) (decodeFrame other) := by
  rw [decodeFrame, decodeFrame]
  apply lockstep_bind (lockstep_reset alike)
  intro lzx₁ other₁ alike₁ run₁
  have prepared₁ := safely_value (safely_reset at_.inside) run₁
  apply lockstep_bind (lockstep_chunk_size alike₁)
  intro lzx₂ other₂ alike₂ run₂
  have prepared₂ := safely_value (safely_chunk_size prepared₁.inside) run₂
  apply lockstep_bind (lockstep_stream_header alike₂)
  intro lzx₃ other₃ alike₃ run₃
  have prepared₃ := safely_value (safely_stream_header prepared₂.inside) run₃
  have prepared := prepared_trans prepared₁ (prepared_trans prepared₂ prepared₃)
  have keeps := prepared.keeps
  have room := (frame_size_room at_ written).1
  have posn : lzx₃.cursor.window_posn = lzx₃.frame_posn := by
    rw [prepared.window_posn, keeps.frame_posn]
    exact at_.posn
  have inFrame : lzx₃.InFrame (lzx₃.frame_posn + frameSize lzx₃ - lzx₃.cursor.window_posn) := by
    refine ⟨prepared.inside, ?_⟩
    rw [posn, Nat.add_sub_cancel_left, keeps.frame_posn, keeps.window_size, frame_size_keeps keeps]
    exact room
  have same : frameSize other₃ = frameSize lzx₃ ∧ other₃.frame_posn = lzx₃.frame_posn ∧
      other₃.cursor.window_posn = lzx₃.cursor.window_posn ∧
      other₃.cursor.bits.available = lzx₃.cursor.bits.available := by
    rcases alike₃ with ⟨q, alike₃⟩
    exact ⟨rfl, rfl, rfl, (alike_available alike₃).symm⟩
  dsimp only
  rw [same.1, same.2.1, same.2.2.1, same.2.2.2]
  apply lockstep_bind (lockstep_block_loop alike₃ inFrame)
  intro lzx₄ other₄ alike₄ _
  rcases alike₄ with ⟨q, alike₄⟩
  dsimp only
  split_ifs
  · exact .error _
  · apply lockstep_bind (lockstep_realign alike₄)
    intro p₅ q₅ _ _
    exact .error _
  · apply lockstep_bind (lockstep_realign alike₄)
    intro p₅ q₅ alike₅ _
    apply lockstep_bind (@lockstep_translate_output output
      { lzx₄ with cursor := { lzx₄.cursor with bits := p₅ } } _ _ (.other q₅ alike₅))
    intro lzx₆ other₆ alike₆ _
    exact .ok ⟨rfl, alike₆⟩

end Streams

/-! ## Calls -/

def AlikeCall {Answer : Type} (left right : Answer × LzxdStream) : Prop :=
  left.1 = right.1 ∧ AlikeStream left.2.output left.2 right.2

section Calls

variable {lzx other : LzxdStream} {end_frame out_bytes rounds i frame_size : Nat}

theorem alike_variables {output : Option MemFile} (alike : AlikeStream output lzx other) :
    other.frame = lzx.frame ∧ other.error = lzx.error ∧ other.offset = lzx.offset ∧
      other.pending = lzx.pending ∧ other.output = output := by
  rcases alike with ⟨q, alike⟩
  exact ⟨rfl, rfl, rfl, rfl, rfl⟩

theorem alike_error {status : Nat} (alike : AlikeStream lzx.output lzx other) :
    AlikeStream lzx.output { lzx with error := status } { other with error := status } := by
  rcases alike with ⟨q, alike⟩
  exact .other q alike

theorem write_pending_alike (alike : AlikeStream lzx.output lzx other) :
    (writePending i other).2 = (writePending i lzx).2 ∧
      AlikeStream (writePending i lzx).1.output (writePending i lzx).1 (writePending i other).1 := by
  rcases alike with ⟨q, alike⟩
  rw [writePending, writePending]
  dsimp only
  cases memWrite lzx.output (lzx.pending.take i) with
  | none => exact ⟨rfl, .other q alike⟩
  | some written =>
      dsimp only
      split_ifs
      · exact ⟨rfl, .other q alike⟩
      · exact ⟨rfl, .other q alike⟩

theorem next_frame_alike (alike : AlikeStream lzx.output lzx other) :
    AlikeStream (nextFrame frame_size lzx).output (nextFrame frame_size lzx)
      (nextFrame frame_size other) := by
  rcases alike with ⟨q, alike⟩
  exact .other q alike

theorem lockstep_frames_ended (alike : AlikeStream lzx.output lzx other) :
    Lockstep AlikeCall
      (if out_bytes ≠ 0 then
        .ok (MSPACK_ERR_DECRUNCH, { lzx with error := MSPACK_ERR_DECRUNCH })
      else .ok (MSPACK_ERR_OK, lzx) : Except Stop (Nat × LzxdStream))
      (if out_bytes ≠ 0 then
        .ok (MSPACK_ERR_DECRUNCH, { other with error := MSPACK_ERR_DECRUNCH })
      else .ok (MSPACK_ERR_OK, other)) := by
  split_ifs
  · have failed := @alike_error lzx other MSPACK_ERR_DECRUNCH alike
    exact .ok ⟨rfl, failed⟩
  · exact .ok ⟨rfl, alike⟩

/-- Frames that were decoded alike are written out alike. -/
theorem lockstep_write {next : LzxdStream → Except Stop (Nat × LzxdStream)}
    (alike : AlikeStream lzx.output lzx other) (room : i ≤ lzx.pending.length)
    (later : ∀ lzx' other', writePending i lzx = (lzx', true) → AlikeStream lzx'.output lzx' other' →
      Lockstep AlikeCall (next lzx') (next other')) :
    Lockstep AlikeCall
      (match writePending i lzx with
        | (lzx, false) => .ok (lzx.error, lzx)
        | (lzx, true) => next lzx)
      (match writePending i other with
        | (lzx, false) => .ok (lzx.error, lzx)
        | (lzx, true) => next lzx) := by
  have write := @write_pending_alike lzx other i alike
  generalize writePending i other = result at write ⊢
  rcases result with ⟨other', _⟩
  rcases write_pending_result room with ⟨lzx', bytes, failed, _⟩ | ⟨fh, _, _, wrote_⟩
  · rw [failed] at write ⊢
    rcases write with ⟨rfl, alike'⟩
    have same := (alike_variables alike').2.1
    dsimp only at same ⊢
    rw [same]
    exact .ok ⟨rfl, alike'⟩
  · rw [wrote_] at write ⊢
    rcases write with ⟨rfl, alike'⟩
    exact later _ other' wrote_ alike'

theorem lockstep_frame_loop (alike : AlikeStream lzx.output lzx other)
    (inLoop : lzx.InLoop end_frame out_bytes) :
    Lockstep AlikeCall (frameLoop end_frame rounds out_bytes lzx)
      (frameLoop end_frame rounds out_bytes other) := by
  have ended : lzx.frame < end_frame ↔ other.frame < end_frame := by
    rw [(alike_variables alike).1]
  induction rounds generalizing lzx other out_bytes with
  | zero =>
      rw [frameLoop, frameLoop]
      by_cases more : lzx.frame < end_frame
      · rw [if_pos more, if_pos (ended.mp more)]
        exact .error _
      · rw [if_neg more, if_neg fun more' => more (ended.mpr more')]
        exact lockstep_frames_ended alike
  | succ rounds ih =>
      rw [frameLoop, frameLoop]
      by_cases more : lzx.frame < end_frame
      · rw [if_pos more, if_pos (ended.mp more)]
        have written := in_loop_pending inLoop more
        have safe := safely_decode_frame inLoop.ready.at_ written
        have decoded := lockstep_decode_frame alike inLoop.ready.at_ written
        generalize decodeFrame lzx = left at decoded safe
        generalize decodeFrame other = right at decoded
        cases decoded with
        | error fault =>
            cases fault with
            | error status =>
                have failed := @alike_error lzx other status alike
                exact .ok ⟨rfl, failed⟩
            | outside array index => exact .error _
            | roundsSpent => exact .error _
        | @ok left right related =>
            rcases left with ⟨frame_size, lzx₁⟩
            rcases right with ⟨_, other₁⟩
            rcases related with ⟨rfl, alike₁⟩
            have done := safely_value safe rfl
            dsimp only at done alike₁
            rw [← done.output] at alike₁
            have size := write_size out_bytes frame_size
            dsimp only
            generalize (if out_bytes < frame_size then out_bytes else frame_size) = i at size ⊢
            have pending : i ≤ lzx₁.pending.length := by
              rw [done.pending]
              exact size.frame
            apply lockstep_write alike₁ pending
            intro lzx' other' wrote_ alike'
            have alike₂ := @next_frame_alike _ _ frame_size alike'
            rcases write_pending_result pending with ⟨_, _, failed, _⟩ | ⟨fh, output, room, run⟩
            · rw [failed] at wrote_
              cases wrote_
            · rw [run] at wrote_
              cases wrote_
              exact ih alike₂ (in_loop_next inLoop more done size output room)
                (by rw [(alike_variables alike₂).1])
      · rw [if_neg more, if_neg fun more' => more (ended.mpr more')]
        exact lockstep_frames_ended alike

theorem write_stored_alike (alike : AlikeStream lzx.output lzx other) :
    (writeStored out_bytes other).2 = (writeStored out_bytes lzx).2 ∧
      AlikeStream (writeStored out_bytes lzx).1.output (writeStored out_bytes lzx).1
        (writeStored out_bytes other).1 := by
  have same : storedSize out_bytes other = storedSize out_bytes lzx := by
    rw [storedSize, storedSize, (alike_variables alike).2.2.2.1]
  rw [writeStored, writeStored, same]
  split_ifs
  · exact write_pending_alike alike
  · exact ⟨rfl, alike⟩

theorem lockstep_decompress (alike : AlikeStream lzx.output lzx other)
    (usable : lzx.Ready ∨ lzx.error ≠ MSPACK_ERR_OK) (out_bytes : Int) :
    Lockstep AlikeCall (lzxdDecompress lzx out_bytes) (lzxdDecompress other out_bytes) := by
  have same := alike_variables alike
  rw [lzxdDecompress, lzxdDecompress, same.2.1]
  split_ifs with negative bad
  · exact .ok ⟨rfl, alike⟩
  · exact .ok ⟨rfl, alike⟩
  · have ready := usable.resolve_right bad
    have write := @write_stored_alike lzx other out_bytes.toNat alike
    have size : storedSize out_bytes.toNat other = storedSize out_bytes.toNat lzx := by
      rw [storedSize, storedSize, same.2.2.2.1]
    rcases @write_stored_result lzx out_bytes.toNat ready with ⟨lzx', bytes, failed, _⟩ |
      ⟨middle, run, stored⟩
    · rw [failed] at write ⊢
      generalize writeStored out_bytes.toNat other = result at write ⊢
      rcases result with ⟨other', _⟩
      rcases write with ⟨rfl, alike'⟩
      have error := (alike_variables alike').2.1
      dsimp only at error ⊢
      rw [error]
      exact .ok ⟨rfl, alike'⟩
    · rw [run] at write ⊢
      generalize writeStored out_bytes.toNat other = result at write ⊢
      rcases result with ⟨other', _⟩
      rcases write with ⟨rfl, alike'⟩
      have same₁ := alike_variables alike'
      dsimp only at same₁ ⊢
      rw [size, decodeFrames, decodeFrames, same₁.2.2.1, same₁.1]
      split_ifs with none
      · exact .ok ⟨rfl, alike'⟩
      · exact lockstep_frame_loop alike' (stored_in_loop stored none)

theorem call_usable {lzx' : LzxdStream} {status : Nat} {out_bytes : Int}
    (usable : lzx.Ready ∨ lzx.error ≠ MSPACK_ERR_OK)
    (run : lzxdDecompress lzx out_bytes = .ok (status, lzx')) :
    lzx'.Ready ∨ lzx'.error ≠ MSPACK_ERR_OK := by
  rcases one_call_result usable out_bytes with ⟨_, _, left, _⟩ | ⟨_, _, run', usable', _⟩
  · rw [run] at left
    cases left
  · rw [run] at run'
    cases run'
    exact usable'

theorem lockstep_run_calls (alike : AlikeStream lzx.output lzx other)
    (usable : lzx.Ready ∨ lzx.error ≠ MSPACK_ERR_OK) (calls : List Int) :
    Lockstep AlikeCall (runCalls calls lzx) (runCalls calls other) := by
  induction calls generalizing lzx other with
  | nil => exact .ok ⟨rfl, alike⟩
  | cons out_bytes calls ih =>
      rw [runCalls, runCalls]
      apply lockstep_bind (lockstep_decompress alike usable out_bytes)
      rintro ⟨status, lzx₁⟩ ⟨_, other₁⟩ ⟨rfl, alike₁⟩ run
      apply lockstep_bind (ih alike₁ (call_usable usable run))
      rintro ⟨statuses, lzx₂⟩ ⟨_, other₂⟩ ⟨rfl, alike₂⟩ _
      exact .ok ⟨rfl, alike₂⟩

end Calls

section Sizes

variable {memory : LzxMemory} {input output : Option MemFile}
  {window_bits reset_interval size size' output_length : Nat} {is_delta : Bool}
  {lzx other : LzxdStream}

theorem lzxd_init_alike
    (made : lzxdInit memory input output window_bits reset_interval size output_length is_delta =
      some lzx)
    (made' : lzxdInit memory input output window_bits reset_interval size' output_length is_delta =
      some other) : AlikeStream lzx.output lzx other := by
  rw [lzxdInit] at made made'
  split_ifs at made made' with range none none'
  have buffered : 2 ≤ (size + 1) / 2 * 2 := by
    have some_ : (size + 1) / 2 * 2 ≠ 0 := none
    omega
  have buffered' : 2 ≤ (size' + 1) / 2 * 2 := by
    have some_ : (size' + 1) / 2 * 2 ≠ 0 := none'
    omega
  split at made
  · rename_i trees window stream bytes _
    rw [stream, bytes] at made'
    split at made'
    · rename_i trees' window' same same' _
      cases same
      cases same'
      cases made
      cases made'
      exact .other ⟨input, (size' + 1) / 2 * 2, [], false, 0, 0⟩
        ⟨⟨rfl, rfl, rfl⟩, buffered, buffered'⟩
    · cases made'
  · cases made

/-- The answers and the output are the same for every size of the input buffer. -/
theorem input_buffer_size_free
    (made : lzxdInit memory input output window_bits reset_interval size output_length is_delta =
      some lzx)
    (made' : lzxdInit memory input output window_bits reset_interval size' output_length is_delta =
      some other) (calls : List Int) :
    (runCalls calls other).map (fun done => (done.1, done.2.out)) =
      (runCalls calls lzx).map fun done => (done.1, done.2.out) := by
  have run := lockstep_run_calls (lzxd_init_alike made made')
    (Or.inl (lzxd_init_ready made).1) calls
  generalize runCalls calls lzx = left at run ⊢
  generalize runCalls calls other = right at run ⊢
  cases run with
  | error fault => rfl
  | ok related =>
      rename_i left right
      have same := (alike_variables related.2).2.2.2.2
      show Except.ok (right.1, right.2.out) = Except.ok (left.1, left.2.out)
      rw [related.1, LzxdStream.out, LzxdStream.out, same]

def threeBytesInput : MemFile :=
  ⟨[0, 0x30, 0x30, 0, 1, 0, 0, 0, 1, 0, 0, 0, 1, 0, 0, 0, 1, 2, 3], 0, Nat.zero_le _, by decide⟩

def threeBytesOutput : MemFile := ⟨[0, 0, 0], 0, Nat.zero_le _, by decide⟩

theorem three_bytes_buffered :
    ∃ lzx other,
      lzxdInit zeroMemory (some threeBytesInput) (some threeBytesOutput) 15 0 4096 3 false = some lzx ∧
      lzxdInit zeroMemory (some threeBytesInput) (some threeBytesOutput) 15 0 2 3 false = some other ∧
      (runCalls [2, 1] other).map (fun done => (done.1, done.2.out)) =
        (runCalls [2, 1] lzx).map fun done => (done.1, done.2.out) :=
  ⟨_, _, rfl, rfl, @input_buffer_size_free zeroMemory (some threeBytesInput) (some threeBytesOutput)
    15 0 4096 2 3 false _ _ rfl rfl [2, 1]⟩

end Sizes

end XeBuild.Mspack
