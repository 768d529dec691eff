import XeBuild.Mspack.LzxDecoder

/-!
# What decoding a block can do

Whatever the input is, the steps of the decoder end in an error of the library or
give a stream whose arrays and positions fit together. The one array that a stream
without LZX DELTA can leave is the table of the pretree, while it is made.
-/

namespace XeBuild.Mspack

open ListRange Runs

set_option autoImplicit false

def LeftTable (is_delta : Bool) (array : LzxArray) : Prop :=
  array = .PRETREE_table ∨ is_delta = true ∧ array = .MAINTREE_table

/-- An error of the library, a table that is left, or a value with a property. -/
def Safely {Value : Type} (is_delta : Bool) (result : Except Stop Value)
    (Holds : Value → Prop) : Prop :=
  Fails result ∨
    (∃ array index, result = .error (.outside array index) ∧ LeftTable is_delta array) ∨
    ∃ value, result = .ok value ∧ Holds value

section Safely

variable {Value Next : Type} {is_delta : Bool} {result : Except Stop Value}
  {next : Value → Except Stop Next} {Holds More : Value → Prop} {Later : Next → Prop}

theorem safely_ok {value : Value} (holds : Holds value) : Safely is_delta (.ok value) Holds :=
  Or.inr (Or.inr ⟨value, rfl, holds⟩)

theorem safely_error (status : Nat) (bad : status ≠ MSPACK_ERR_OK) :
    Safely is_delta (.error (.error status)) Holds := Or.inl ⟨status, bad, rfl⟩

theorem safely_bind (first : Safely is_delta result Holds)
    (rest : ∀ value, Holds value → Safely is_delta (next value) Later) :
    Safely is_delta (result >>= next) Later := by
  rcases first with ⟨status, bad, failed⟩ | ⟨array, index, left, table⟩ | ⟨value, run, holds⟩
  · rw [failed]
    exact Or.inl ⟨status, bad, rfl⟩
  · rw [left]
    exact Or.inr (Or.inl ⟨array, index, rfl, table⟩)
  · rw [run, ok_bind]
    exact rest value holds

theorem safely_imp (first : Safely is_delta result Holds) (more : ∀ value, Holds value → More value) :
    Safely is_delta result More := by
  rcases first with failed | left | ⟨value, run, holds⟩
  · exact Or.inl failed
  · exact Or.inr (Or.inl left)
  · exact Or.inr (Or.inr ⟨value, run, more value holds⟩)

end Safely

/-! ## Bits and bytes -/

section Bits

variable {is_delta : Bool} {p : BitReader} {nbits count : Nat}

/-- The reader is sound, and no more is available than before. -/
structure Further (p p' : BitReader) : Prop where
  sound : p'.Sound
  available : p'.available ≤ p.available

theorem further_trans {p' p'' : BitReader} (first : Further p p') (second : Further p' p'') :
    Further p p'' := ⟨second.sound, Nat.le_trans second.available first.available⟩

theorem safely_read_bits (sound : p.Sound) (word : nbits ≤ 17) :
    Safely is_delta (readBits nbits p) fun read =>
      read.1 < 2 ^ nbits ∧ read.2.Sound ∧ read.2.available + nbits = p.available := by
  rcases read_bits_cases sound word with failed | ⟨value, p', run, small, sound', available⟩
  · rw [failed]
    exact safely_error _ (by decide)
  · rw [run]
    exact safely_ok ⟨small, sound', available⟩

theorem safely_ensure_bits (sound : p.Sound) (word : nbits ≤ 17) :
    Safely is_delta (ensureBits nbits p) fun p' => Fills nbits p p' := by
  rcases ensure_bits_result sound word with ⟨_, failed⟩ | ⟨p', run, fills⟩
  · rw [failed]
    exact safely_error _ (by decide)
  · rw [run]
    exact safely_ok fills

theorem sound_of_same {p' : BitReader} (sound : p.Sound) (size : p'.inbuf_size = p.inbuf_size)
    (buffer : p'.bit_buffer = p.bit_buffer) (left : p'.bits_left = p.bits_left) : p'.Sound := by
  have held : p'.held = p.held := by rw [BitReader.held, BitReader.held, buffer, left]
  refine ⟨?_, ?_, ?_, ?_⟩
  · rw [BitReader.Buffered, size]
    exact sound.buffered
  · rw [left]
    exact sound.left
  · rw [held, buffer, left]
    exact sound.buffer
  · rw [held, left]
    exact sound.held

theorem safely_next_byte (sound : p.Sound) :
    Safely is_delta (nextByte p) fun read => Further p read.2 := by
  rcases next_byte_result sound.buffered with ⟨_, failed⟩ |
    ⟨byte, p', run, ahead, size, buffer, left⟩
  · rw [failed]
    exact safely_error _ (by decide)
  · rw [run]
    refine safely_ok ⟨sound_of_same sound size buffer left, ?_⟩
    show p'.available ≤ p.available
    rw [BitReader.available, BitReader.available, left, ahead, List.length_cons]
    omega

theorem safely_read_raw (sound : p.Sound) :
    Safely is_delta (readRaw count p) fun read => Further p read.2 := by
  induction count generalizing p with
  | zero => exact safely_ok ⟨sound, Nat.le_refl _⟩
  | succ count ih =>
      rw [readRaw]
      apply safely_bind (safely_next_byte sound)
      intro read further
      apply safely_bind (ih further.sound)
      intro rest later
      exact safely_ok (further_trans further later)

end Bits

/-! ## Trees of a block -/

/-- No code starts behind the lengths that are read, however far their runs go on. -/
def UnusedBehind (num_offsets : Nat) (len : List Nat) : Prop :=
  ∀ symbol < MAINTREE.maxSymbols, LZX_NUM_CHARS + num_offsets + 50 ≤ symbol → len.getD symbol 0 = 0

/-- The numbers of offsets that the window sizes have. -/
structure OffsetCount (is_delta : Bool) (num_offsets : Nat) : Prop where
  room : num_offsets ≤ 290 * 8
  plain : is_delta = false → num_offsets ≤ 50 * 8

section Trees

variable {is_delta : Bool} {pretree memory : TreeMemory} {lens : List Nat} {first last num_offsets : Nat}
  {p : BitReader} {trees : LzxTrees}

theorem safely_read_lens (sized : pretree.Sized PRETREE) (sound : p.Sound)
    (room : last + 50 ≤ lens.length) (start : first ≤ last) :
    Safely is_delta (lzxdReadLens pretree lens first last p) fun read =>
      read.1.Sized PRETREE ∧ Further p read.2.2 ∧ read.2.1.length = lens.length ∧
        ∀ index, last + 50 ≤ index → read.2.1.getD index 0 = lens.getD index 0 := by
  rcases @lzxd_read_lens_result pretree lens first last p sized sound room with
    ⟨status, bad, failed⟩ | ⟨index, left⟩ | ⟨pretree', lens', p', run, read⟩
  · rw [failed]
    exact safely_error _ bad
  · rw [left]
    exact Or.inr (Or.inl ⟨_, _, rfl, Or.inl rfl⟩)
  · rw [run]
    have frame := lens_read_length read room start
    exact safely_ok ⟨read.sized, ⟨read.sound, read.available⟩, frame.1,
      fun index behind => frame.2 index (Or.inr behind)⟩

theorem safely_build (tree : HuffTree) (fits : tree.Fits) (sized : memory.Sized tree)
    (inside : ∀ index, buildTable tree memory = .error (.outside tree.array index) →
      LeftTable is_delta tree.array) :
    Safely is_delta (buildTable tree memory) fun made =>
      made.len = memory.len ∧ made.Sized tree ∧ made.Built tree := by
  rcases build_table_result fits sized with ⟨made, run, len, sized', built⟩ | ⟨run, _⟩ |
    ⟨index, run, _, _⟩
  · rw [run]
    exact safely_ok ⟨len, sized', built⟩
  · rw [run]
    exact safely_error _ (by decide)
  · rw [run]
    exact Or.inr (Or.inl ⟨_, _, rfl, inside index run⟩)

/-- So few symbols of the main tree have codes that its table is not left, but for LZX DELTA. -/
theorem maintree_left (sized : memory.Sized MAINTREE) (count : OffsetCount is_delta num_offsets)
    (unused : UnusedBehind num_offsets memory.len) (index : Nat)
    (left : buildTable MAINTREE memory = .error (.outside MAINTREE.array index)) :
    LeftTable is_delta MAINTREE.array := by
  cases delta : is_delta with
  | true => exact Or.inr ⟨rfl, rfl⟩
  | false =>
      have few := count.plain delta
      have codes : longCodes MAINTREE memory.len ≤ LZX_NUM_CHARS + num_offsets + 50 := by
        apply long_leaves_length
        intro symbol small behind
        rw [unused symbol small behind]
        exact Nat.zero_le _
      have chars : LZX_NUM_CHARS = 256 := rfl
      have capacity : min MAINTREE.maxSymbols (2 ^ (MAINTREE.tableBits - 1)) = 2048 := by decide
      exact absurd left (build_table_inside maintree_fits sized (by rw [capacity]; omega)
        (by rw [capacity]; decide) _ _)

theorem length_inside (sized : memory.Sized LENGTH) (array : LzxArray) (index : Nat) :
    buildTable LENGTH memory ≠ .error (.outside array index) := by
  have capacity : min LENGTH.maxSymbols (2 ^ (LENGTH.tableBits - 1)) = LENGTH.maxSymbols := by
    decide
  apply build_table_inside length_fits sized
  · rw [capacity]
    exact long_leaves_length_le
  · rw [capacity]
    decide

theorem safely_build_length (sized : memory.Sized LENGTH) :
    Safely is_delta (buildTableMaybeEmpty LENGTH memory) fun made =>
      made.1.Sized LENGTH ∧ (made.2 = false → made.1.Built LENGTH) := by
  rcases build_table_maybe_empty_result length_fits sized (length_inside sized) with
    ⟨failed, _⟩ | ⟨run, _⟩ | ⟨made, run, _, sized', built⟩
  · rw [failed]
    exact safely_error _ (by decide)
  · rw [run]
    exact safely_ok ⟨sized, fun empty => Bool.noConfusion empty⟩
  · rw [run]
    exact safely_ok ⟨sized', fun _ => built⟩

structure TreesRead (num_offsets : Nat) (trees trees' : LzxTrees) : Prop where
  sized : trees'.Sized
  main : trees'.MAINTREE.Built MAINTREE
  length : trees'.LENGTH_empty = false → trees'.LENGTH.Built LENGTH
  aligned : trees'.ALIGNED = trees.ALIGNED
  unused : UnusedBehind num_offsets trees'.MAINTREE.len

theorem safely_read_block_trees (sized : trees.Sized) (count : OffsetCount is_delta num_offsets)
    (unused : UnusedBehind num_offsets trees.MAINTREE.len) (sound : p.Sound) :
    Safely is_delta (readBlockTrees trees num_offsets p) fun read =>
      TreesRead num_offsets trees read.1 ∧ Further p read.2 := by
  have chars : LZX_NUM_CHARS = 256 := rfl
  have mainSize : trees.MAINTREE.len.length = 2640 := sized.maintree.len
  have lengthSize : trees.LENGTH.len.length = 314 := sized.length.len
  have few := count.room
  rw [readBlockTrees]
  apply safely_bind (safely_read_lens sized.pretree sound (by omega) (by decide))
  rintro ⟨pretree₁, len₁, p₁⟩ ⟨sized₁, further₁, length₁, same₁⟩
  dsimp only at sized₁ further₁ length₁ same₁ ⊢
  apply safely_bind (safely_read_lens sized₁ further₁.sound (by omega) (by omega))
  rintro ⟨pretree₂, len₂, p₂⟩ ⟨sized₂, further₂, length₂, same₂⟩
  dsimp only at sized₂ further₂ length₂ same₂ ⊢
  have unused₂ : UnusedBehind num_offsets len₂ := by
    intro symbol small behind
    rw [same₂ symbol (by omega), same₁ symbol (by omega)]
    exact unused symbol small behind
  have main₂ : (TreeMemory.mk len₂ trees.MAINTREE.table).Sized MAINTREE :=
    ⟨length₂.trans (length₁.trans sized.maintree.len), sized.maintree.table⟩
  apply safely_bind (safely_build MAINTREE maintree_fits main₂ (maintree_left main₂ count unused₂))
  rintro maintree ⟨len, mainSized, built⟩
  apply safely_bind (safely_read_lens sized₂ further₂.sound
    (by rw [lengthSize]; decide) (by decide))
  rintro ⟨pretree₃, len₃, p₃⟩ ⟨sized₃, further₃, length₃, _⟩
  dsimp only at sized₃ further₃ length₃ ⊢
  have length₃' : (TreeMemory.mk len₃ trees.LENGTH.table).Sized LENGTH :=
    ⟨length₃.trans sized.length.len, sized.length.table⟩
  apply safely_bind (safely_build_length length₃')
  rintro ⟨length, empty⟩ ⟨lengthSized, lengthBuilt⟩
  refine safely_ok ⟨⟨⟨sized₃, mainSized, lengthSized, sized.aligned⟩, built, lengthBuilt, rfl, ?_⟩,
    further_trans further₁ (further_trans further₂ further₃)⟩
  show UnusedBehind num_offsets maintree.len
  rw [len]
  exact unused₂

theorem safely_read_aligned_tree (sized : trees.Sized) (sound : p.Sound) :
    Safely is_delta (readAlignedTree trees p) fun read =>
      Further p read.2 ∧ read.1.ALIGNED.Sized ALIGNED ∧ read.1.ALIGNED.Built ALIGNED ∧
        read.1 = { trees with ALIGNED := read.1.ALIGNED } := by
  have size : trees.ALIGNED.len.length = 72 := sized.aligned.len
  rw [readAlignedTree]
  rcases @read_plain_lens_result trees.ALIGNED.len 0 8 3 p sound (by decide) (by omega) with failed |
    ⟨values, p₁, run, count, small, sound₁, less⟩
  · rw [failed]
    exact safely_error _ (by decide)
  · rw [run, ok_bind]
    dsimp only
    have sized₁ : (TreeMemory.mk (patch trees.ALIGNED.len 0 values) trees.ALIGNED.table).Sized
        ALIGNED := by
      refine ⟨?_, sized.aligned.table⟩
      show (patch trees.ALIGNED.len 0 values).length = _
      rw [patch_length (by omega), sized.aligned.len]
    have short : ∀ symbol < ALIGNED.maxSymbols,
        (patch trees.ALIGNED.len 0 values).getD symbol 0 ≤ ALIGNED.tableBits := by
      intro symbol below
      have inside : symbol < values.length := by rw [count]; exact below
      rw [patch_front_get_d _ _ inside, List.getD_eq_getElem _ _ inside]
      exact Nat.le_of_lt_succ (small _ (List.getElem_mem inside))
    apply safely_bind (safely_build ALIGNED aligned_fits sized₁
      (fun index left => absurd left (build_table_direct aligned_fits sized₁ short _ _)))
    rintro aligned ⟨_, sized', built⟩
    exact safely_ok ⟨⟨sound₁, less⟩, sized', built, rfl⟩

end Trees

/-! ## Blocks -/

structure LzxdStream.Arrays (lzx : LzxdStream) : Prop where
  window : lzx.cursor.window.length = lzx.window_size
  frames : LZX_FRAME_SIZE ∣ lzx.window_size
  small : lzx.window_size ≤ 2 ^ 25
  trees : lzx.trees.Sized
  count : OffsetCount lzx.is_delta lzx.num_offsets
  unused : UnusedBehind lzx.num_offsets lzx.trees.MAINTREE.len
  bits : lzx.cursor.bits.Sound
  reference : lzx.ref_data_size ≤ lzx.window_size
  offset : lzx.offset < 0x80000000

structure LzxdStream.Inside (lzx : LzxdStream) : Prop extends lzx.Arrays where
  block : lzx.block_remaining ≠ 0 →
    lzx.block_type = LZX_BLOCKTYPE_VERBATIM ∨ lzx.block_type = LZX_BLOCKTYPE_ALIGNED →
      lzx.trees.Ready lzx.block_type

structure Keeps (lzx lzx' : LzxdStream) : Prop where
  output : lzx'.output = lzx.output
  offset : lzx'.offset = lzx.offset
  length : lzx'.length = lzx.length
  window_size : lzx'.window_size = lzx.window_size
  frame_posn : lzx'.frame_posn = lzx.frame_posn
  frame : lzx'.frame = lzx.frame
  is_delta : lzx'.is_delta = lzx.is_delta
  error : lzx'.error = lzx.error
  pending : lzx'.pending = lzx.pending

theorem keeps_trans {lzx lzx' lzx'' : LzxdStream} (first : Keeps lzx lzx')
    (second : Keeps lzx' lzx'') : Keeps lzx lzx'' where
  output := second.output.trans first.output
  offset := second.offset.trans first.offset
  length := second.length.trans first.length
  window_size := second.window_size.trans first.window_size
  frame_posn := second.frame_posn.trans first.frame_posn
  frame := second.frame.trans first.frame
  is_delta := second.is_delta.trans first.is_delta
  error := second.error.trans first.error
  pending := second.pending.trans first.pending

/-- A header has at least 27 bits, and leaves the position where it is. -/
structure HeaderRead (lzx lzx' : LzxdStream) : Prop where
  inside : lzx'.Inside
  keeps : Keeps lzx lzx'
  window_posn : lzx'.cursor.window_posn = lzx.cursor.window_posn
  available : lzx'.cursor.bits.available + 27 ≤ lzx.cursor.bits.available

section Headers

variable {lzx : LzxdStream} {p : BitReader}

theorem safely_skip_odd_byte (sound : lzx.cursor.bits.Sound) :
    Safely lzx.is_delta (skipOddByte lzx) fun p => Further lzx.cursor.bits p := by
  rw [skipOddByte]
  split_ifs with odd
  · apply safely_bind (safely_next_byte sound)
    intro read further
    exact safely_ok further
  · exact safely_ok ⟨sound, Nat.le_refl _⟩

theorem drop_bits_sound (sound : p.Sound) : (dropBits p).Sound := by
  have left : (dropBits p).bits_left = 0 := rfl
  have buffer : (dropBits p).bit_buffer = 0 := rfl
  exact (@held_of_buffer (dropBits p) 0 (by rw [left]; exact Nat.zero_le _)
    (by rw [buffer, Nat.zero_mul]) (Nat.two_pow_pos _) sound.buffered).1

theorem drop_bits_further (sound : p.Sound) : Further p (dropBits p) := by
  refine ⟨drop_bits_sound sound, ?_⟩
  rw [BitReader.available, BitReader.available]
  exact Nat.add_le_add_right (Nat.zero_le _) _

theorem safely_fill_empty (sound : p.Sound) :
    Safely lzx.is_delta (fillEmpty p) fun p' => Further p p' := by
  rw [fillEmpty]
  split_ifs with empty
  · exact safely_imp (safely_ensure_bits sound (by decide))
      fun p' fills => ⟨fills.sound, Nat.le_of_eq fills.available⟩
  · exact safely_ok ⟨sound, Nat.le_refl _⟩

theorem safely_stored_offsets (sound : p.Sound) :
    Safely lzx.is_delta (readStoredOffsets p) fun read => Further p read.2 := by
  rw [readStoredOffsets]
  apply safely_bind (safely_fill_empty sound)
  intro p₁ further₁
  have dropped := drop_bits_further further₁.sound
  apply safely_bind (safely_read_raw dropped.sound)
  rintro ⟨buf, p₃⟩ further₃
  exact safely_ok (further_trans further₁ (further_trans dropped further₃))

theorem safely_first_tree (inside : lzx.Arrays) :
    Safely lzx.is_delta (readFirstTree lzx) fun read =>
      Further lzx.cursor.bits read.2 ∧ read.1.Sized ∧
        UnusedBehind lzx.num_offsets read.1.MAINTREE.len ∧
        (lzx.block_type = LZX_BLOCKTYPE_ALIGNED → read.1.ALIGNED.Built ALIGNED) := by
  rw [readFirstTree]
  split_ifs with kind
  · apply safely_imp (safely_read_aligned_tree inside.trees inside.bits)
    rintro ⟨trees, p⟩ ⟨further, sized, built, same⟩
    dsimp only at further sized built same ⊢
    refine ⟨further, ?_, ?_, fun _ => built⟩
    · rw [same]
      exact ⟨inside.trees.pretree, inside.trees.maintree, inside.trees.length, sized⟩
    · rw [same]
      exact inside.unused
  · exact safely_ok ⟨⟨inside.bits, Nat.le_refl _⟩, inside.trees, inside.unused,
      fun same => absurd same kind⟩

theorem safely_compressed_header (inside : lzx.Arrays) :
    Safely lzx.is_delta (readCompressedHeader lzx) fun lzx' =>
      lzx'.Inside ∧ Keeps lzx lzx' ∧ lzx'.cursor.window_posn = lzx.cursor.window_posn ∧
        lzx'.cursor.bits.available ≤ lzx.cursor.bits.available := by
  rw [readCompressedHeader]
  apply safely_bind (safely_first_tree inside)
  rintro ⟨trees, p⟩ ⟨further, sized, unused, built⟩
  dsimp only at further sized unused built ⊢
  apply safely_bind (safely_read_block_trees sized inside.count unused further.sound)
  rintro ⟨trees', p'⟩ ⟨read, further'⟩
  have ready : trees'.Ready lzx.block_type := by
    refine ⟨read.main, read.length, ?_⟩
    intro kind
    rw [read.aligned]
    exact built kind
  refine safely_ok ⟨?_, ⟨rfl, rfl, rfl, rfl, rfl, rfl, rfl, rfl, rfl⟩, rfl,
    (further_trans further further').available⟩
  exact ⟨⟨inside.window, inside.frames, inside.small, read.sized, inside.count, read.unused,
    further'.sound, inside.reference, inside.offset⟩, fun _ _ => ready⟩

theorem safely_uncompressed_header (inside : lzx.Arrays)
    (kind : lzx.block_type = LZX_BLOCKTYPE_UNCOMPRESSED) :
    Safely lzx.is_delta (readUncompressedHeader lzx) fun lzx' =>
      lzx'.Inside ∧ Keeps lzx lzx' ∧ lzx'.cursor.window_posn = lzx.cursor.window_posn ∧
        lzx'.cursor.bits.available ≤ lzx.cursor.bits.available := by
  rw [readUncompressedHeader]
  apply safely_bind (safely_stored_offsets inside.bits)
  rintro ⟨queue, p⟩ further
  refine safely_ok ⟨?_, ⟨rfl, rfl, rfl, rfl, rfl, rfl, rfl, rfl, rfl⟩, rfl, further.available⟩
  refine ⟨⟨inside.window, inside.frames, inside.small, inside.trees, inside.count, inside.unused,
    further.sound, inside.reference, inside.offset⟩, ?_⟩
  intro _ compressed
  have other : LZX_BLOCKTYPE_UNCOMPRESSED = LZX_BLOCKTYPE_VERBATIM ∨
      LZX_BLOCKTYPE_UNCOMPRESSED = LZX_BLOCKTYPE_ALIGNED := kind ▸ compressed
  exact absurd other (by decide)

theorem safely_block_header (inside : lzx.Inside) :
    Safely lzx.is_delta (readBlockHeader lzx) fun lzx' => HeaderRead lzx lzx' := by
  rw [readBlockHeader]
  apply safely_bind (safely_skip_odd_byte inside.bits)
  intro p₀ further₀
  apply safely_bind (safely_read_bits further₀.sound (by decide))
  rintro ⟨block_type, p₁⟩ ⟨_, sound₁, less₁⟩
  dsimp only at sound₁ less₁ ⊢
  apply safely_bind (safely_read_bits sound₁ (by decide))
  rintro ⟨i, p₂⟩ ⟨_, sound₂, less₂⟩
  dsimp only at sound₂ less₂ ⊢
  apply safely_bind (safely_read_bits sound₂ (by decide))
  rintro ⟨j, p₃⟩ ⟨_, sound₃, less₃⟩
  dsimp only at sound₃ less₃ ⊢
  have least := further₀.available
  have arrays : LzxdStream.Arrays
      { lzx with
        block_type := block_type, block_length := (i <<< 8) ||| j,
        block_remaining := (i <<< 8) ||| j, cursor := { lzx.cursor with bits := p₃ } } :=
    ⟨inside.window, inside.frames, inside.small, inside.trees, inside.count, inside.unused, sound₃,
      inside.reference, inside.offset⟩
  split_ifs with compressed uncompressed
  · apply safely_imp (safely_compressed_header arrays)
    rintro lzx' ⟨inside', keeps, posn, less⟩
    refine ⟨inside', keeps_trans (by constructor <;> rfl) keeps, posn, ?_⟩
    dsimp only at less
    omega
  · apply safely_imp (safely_uncompressed_header arrays uncompressed)
    rintro lzx' ⟨inside', keeps, posn, less⟩
    refine ⟨inside', keeps_trans (by constructor <;> rfl) keeps, posn, ?_⟩
    dsimp only at less
    omega
  · exact safely_error _ (by decide)

end Headers

/-! ## Runs -/

structure Taken (count : Nat) (p p' : BitReader) : Prop where
  enough : count ≤ p.unread.length
  unread : p'.unread = p.unread.drop count
  inbuf_size : p'.inbuf_size = p.inbuf_size
  bit_buffer : p'.bit_buffer = p.bit_buffer
  bits_left : p'.bits_left = p.bits_left

section Runs

variable {lzx : LzxdStream} {p : BitReader} {window : Bytes} {rounds this_run rundest bytes_todo : Nat}

theorem taken_further {p' : BitReader} (sound : p.Sound) (taken : Taken this_run p p') :
    Further p p' := by
  refine ⟨sound_of_same sound taken.inbuf_size taken.bit_buffer taken.bits_left, ?_⟩
  rw [BitReader.available, BitReader.available, taken.bits_left, taken.unread, List.length_drop]
  omega

theorem unread_ahead (p : BitReader) :
    ∃ more, ∀ bytes, BitReader.unread { p with ahead := bytes } = bytes ++ more := by
  cases input : p.input with
  | none => exact ⟨[], fun bytes => by rw [BitReader.unread, List.append_nil]⟩
  | some fh =>
      refine ⟨fh.rest ++ if p.input_end then [] else [0, 0], fun bytes => ?_⟩
      rw [BitReader.unread]
      exact List.append_assoc _ _ _

section Copied

variable {i : Nat}

theorem ahead_length_le : p.ahead.length ≤ p.unread.length := by
  rcases unread_ahead p with ⟨more, whole⟩
  have parts : p.unread = p.ahead ++ more := whole p.ahead
  rw [parts, List.length_append]
  exact Nat.le_add_right _ _

theorem ahead_take (few : i ≤ p.ahead.length) : p.ahead.take i = p.unread.take i := by
  rcases unread_ahead p with ⟨more, whole⟩
  have parts : p.unread = p.ahead ++ more := whole p.ahead
  rw [parts, List.take_append_of_le_length few]

theorem unread_drop (few : i ≤ p.ahead.length) :
    BitReader.unread { p with ahead := p.ahead.drop i } = p.unread.drop i := by
  rcases unread_ahead p with ⟨more, whole⟩
  have parts : p.unread = p.ahead ++ more := whole p.ahead
  rw [whole, parts, List.drop_append_of_le_length few]

theorem taken_after_read {p₁ p' : BitReader} (same : SameAhead p₁ p)
    (size : p₁.inbuf_size = p.inbuf_size) (taken : Taken this_run p₁ p') : Taken this_run p p' where
  enough := same.unread ▸ taken.enough
  unread := same.unread ▸ taken.unread
  inbuf_size := taken.inbuf_size.trans size
  bit_buffer := taken.bit_buffer.trans same.bit_buffer
  bits_left := taken.bits_left.trans same.bits_left

theorem taken_after_copy {p' : BitReader} (few : i ≤ p.ahead.length) (part : i ≤ this_run)
    (taken : Taken (this_run - i) { p with ahead := p.ahead.drop i } p') :
    Taken this_run p p' where
  enough := by
    have rest := taken.enough
    have least := @ahead_length_le p
    rw [unread_drop few, List.length_drop] at rest
    omega
  unread := by
    rw [taken.unread, unread_drop few, List.drop_drop, Nat.add_sub_cancel' part]
  inbuf_size := taken.inbuf_size
  bit_buffer := taken.bit_buffer
  bits_left := taken.bits_left

/-- Two pieces of a run in the window are one. -/
theorem patch_pieces {bytes : Bytes} (few : i ≤ bytes.length) (part : i ≤ this_run)
    (inside : rundest + i ≤ window.length) :
    patch (patch window rundest (bytes.take i)) (rundest + i) ((bytes.drop i).take (this_run - i)) =
      patch window rundest (bytes.take this_run) := by
  have count : (bytes.take i).length = i := List.length_take_of_le few
  have parts : bytes.take i ++ (bytes.drop i).take (this_run - i) = bytes.take this_run := by
    rw [← List.take_add, Nat.add_sub_cancel' part]
  have joined := patch_patch window rundest (bytes.take i) ((bytes.drop i).take (this_run - i))
    (by omega)
  rwa [count, parts] at joined

end Copied

/-- An uncompressed run puts the next bytes into the window, or the input ends. -/
theorem uncompressed_run_result (buffered : p.Buffered)
    (inside : rundest + this_run ≤ window.length)
    (enough : 2 * this_run ≤ rounds ∨ p.ahead ≠ [] ∧ 2 * this_run ≤ rounds + 1) :
    (p.unread.length < this_run ∧
        uncompressedRun rounds this_run rundest window p = .error (.error MSPACK_ERR_READ)) ∨
      ∃ p', uncompressedRun rounds this_run rundest window p =
          .ok (patch window rundest (p.unread.take this_run), p') ∧ Taken this_run p p' := by
  induction rounds generalizing this_run rundest window p with
  | zero =>
      have none : this_run = 0 := by omega
      subst none
      exact Or.inr ⟨p, by simp [uncompressedRun, patch], Nat.zero_le _, rfl, rfl, rfl, rfl⟩
  | succ rounds ih =>
      rw [uncompressedRun]
      by_cases more : this_run > 0
      · rw [if_pos more]
        dsimp only
        by_cases empty : p.ahead.length = 0
        · -- a round that reads leaves bytes for the next one
          rw [if_pos empty]
          have none : p.ahead = [] := List.length_eq_zero_iff.mp empty
          rcases read_if_needed_result buffered with ⟨ended, failed⟩ |
            ⟨p₁, byte, rest, run, ahead, same, size⟩
          · refine Or.inl ⟨by rw [ended]; exact more, ?_⟩
            rw [failed]
            rfl
          · have buffered₁ : p₁.Buffered := by
              rw [BitReader.Buffered, size]
              exact buffered
            have filled : p₁.ahead ≠ [] := by
              rw [ahead]
              exact List.cons_ne_nil _ _
            have rounds_ : 2 * this_run ≤ rounds + 1 := by
              rcases enough with all | ⟨some_, _⟩
              · exact all
              · exact absurd none some_
            rw [run, ok_bind, ← same.unread]
            rcases ih buffered₁ inside (Or.inr ⟨filled, rounds_⟩) with failed | ⟨p', run', taken⟩
            · exact Or.inl failed
            · exact Or.inr ⟨p', run', taken_after_read same size taken⟩
        · rw [if_neg empty]
          let i := if p.ahead.length > this_run then this_run else p.ahead.length
          have bounds : 1 ≤ i ∧ i ≤ this_run ∧ i ≤ p.ahead.length := by
            show 1 ≤ (if _ then _ else _) ∧ (if _ then _ else _) ≤ _ ∧ (if _ then _ else _) ≤ _
            split_ifs <;> omega
          show (_ ∧ (if rundest + i ≤ window.length then _ else _) = _) ∨
            ∃ p', (if rundest + i ≤ window.length then _ else _) = _ ∧ _
          have few : i ≤ p.unread.length := Nat.le_trans bounds.2.2 ahead_length_le
          have length : (patch window rundest (p.unread.take i)).length = window.length :=
            patch_length (by rw [List.length_take_of_le few]; omega)
          rw [if_pos (by omega), ahead_take bounds.2.2]
          rcases @ih { p with ahead := p.ahead.drop i } (patch window rundest (p.unread.take i))
            (this_run - i) (rundest + i) buffered (by rw [length]; omega) (Or.inl (by omega)) with
            ⟨short, failed⟩ | ⟨p', run', taken⟩
          · refine Or.inl ⟨?_, failed⟩
            rw [unread_drop bounds.2.2, List.length_drop] at short
            omega
          · refine Or.inr ⟨p', ?_, taken_after_copy bounds.2.2 bounds.2.1 taken⟩
            rw [run', unread_drop bounds.2.2, patch_pieces few bounds.2.1 (by omega)]
      · rw [if_neg more]
        have none : this_run = 0 := by omega
        subst none
        exact Or.inr ⟨p, by simp [patch], Nat.zero_le _, rfl, rfl, rfl, rfl⟩

/-- A run of any block ends behind its bytes, inside of the window. -/
theorem safely_run_block (inside : lzx.Inside) (remaining : lzx.block_remaining ≠ 0 ∨ this_run = 0)
    (room : lzx.cursor.window_posn + this_run ≤ lzx.window_size) :
    Safely lzx.is_delta (runBlock lzx this_run) fun done =>
      LoopDone this_run done.1 lzx.cursor done.2 := by
  have window := inside.window
  rw [runBlock]
  split_ifs with compressed uncompressed
  · have fit : lzx.limits.Fit lzx.cursor.window :=
      ⟨window.symm, by rw [window]; exact inside.small, inside.offset,
        by rw [window]; exact inside.reference⟩
    rcases remaining with some_ | none
    · rcases @element_loop_result lzx.trees lzx.is_delta lzx.block_type this_run lzx.limits this_run
        lzx.cursor (inside.block some_ compressed) fit inside.bits (by omega) (by omega)
        (Int.le_refl _) with failed | ⟨left, c, run, done⟩
      · exact Or.inl failed
      · rw [run]
        exact safely_ok done
    · subst none
      have below : lzx.cursor.window_posn ≤ lzx.cursor.window.length := by omega
      exact safely_ok ⟨Int.le_refl _, rfl, rfl, below, inside.bits, Nat.le_refl _⟩
  · rcases @uncompressed_run_result lzx.cursor.bits lzx.cursor.window (2 * this_run) this_run
      lzx.cursor.window_posn inside.bits.buffered (by omega) (Or.inl (Nat.le_refl _)) with
      ⟨_, failed⟩ | ⟨p', run, taken⟩
    · rw [failed]
      exact safely_error _ (by decide)
    · rw [run, ok_bind]
      have further := taken_further inside.bits taken
      have count : (lzx.cursor.bits.unread.take this_run).length = this_run := by
        rw [List.length_take]
        have enough := taken.enough
        omega
      refine safely_ok ⟨Int.le_refl _, ?_, ?_, ?_, further.sound, further.available⟩
      · show ((lzx.cursor.window_posn + this_run : Nat) : Int) + 0 = _
        omega
      · exact patch_length (by rw [count]; omega)
      · show lzx.cursor.window_posn + this_run ≤ lzx.cursor.window.length
        omega
  · exact safely_error _ (by decide)

/-- A stream inside of a frame that still wants some bytes. -/
structure LzxdStream.InFrame (lzx : LzxdStream) (bytes_todo : Nat) : Prop where
  inside : lzx.Inside
  room : lzx.cursor.window_posn + bytes_todo ≤ lzx.window_size

structure RoundDone (bytes_todo : Nat) (lzx : LzxdStream) (bytes_todo' : Nat) (lzx' : LzxdStream) :
    Prop where
  inFrame : lzx'.InFrame bytes_todo'
  keeps : Keeps lzx lzx'
  posn : lzx.cursor.window_posn + bytes_todo ≤ lzx'.cursor.window_posn + bytes_todo'
  less : lzx'.cursor.bits.available + bytes_todo' < lzx.cursor.bits.available + bytes_todo

theorem safely_next_block (inside : lzx.Inside) :
    Safely lzx.is_delta (nextBlock lzx) fun lzx' =>
      lzx'.Inside ∧ Keeps lzx lzx' ∧ lzx'.cursor.window_posn = lzx.cursor.window_posn ∧
        (lzx'.cursor.bits.available < lzx.cursor.bits.available ∨
          lzx'.block_remaining ≠ 0 ∧ lzx'.cursor.bits.available ≤ lzx.cursor.bits.available) := by
  rw [nextBlock]
  split_ifs with needed
  · apply safely_imp (safely_block_header inside)
    intro lzx' header
    have less := header.available
    exact ⟨header.inside, header.keeps, header.window_posn, Or.inl (by omega)⟩
  · exact safely_ok ⟨inside, ⟨rfl, rfl, rfl, rfl, rfl, rfl, rfl, rfl, rfl⟩, rfl,
      Or.inr ⟨needed, Nat.le_refl _⟩⟩

theorem this_run_bounds (block_remaining bytes_todo : Nat) :
    thisRun block_remaining bytes_todo ≤ bytes_todo ∧
      thisRun block_remaining bytes_todo ≤ block_remaining ∧
      (thisRun block_remaining bytes_todo = bytes_todo ∨
        thisRun block_remaining bytes_todo = block_remaining) := by
  rw [thisRun]
  split_ifs <;> omega

theorem safely_block_round (inFrame : lzx.InFrame bytes_todo) (todo : 0 < bytes_todo) :
    Safely lzx.is_delta (blockRound bytes_todo lzx) fun done =>
      RoundDone bytes_todo lzx done.1 done.2 := by
  rw [blockRound]
  apply safely_bind (safely_next_block inFrame.inside)
  rintro lzx₁ ⟨inside₁, keeps₁, posn₁, less₁⟩
  have room := inFrame.room
  dsimp only
  have run := this_run_bounds lzx₁.block_remaining bytes_todo
  generalize thisRun lzx₁.block_remaining bytes_todo = this_run at run ⊢
  have same := keeps₁.window_size
  have delta := keeps₁.is_delta
  rw [← delta]
  apply safely_bind (@safely_run_block lzx₁ this_run inside₁ (by omega) (by omega))
  rintro ⟨left, c⟩ done
  dsimp only at done ⊢
  have ended := done.done
  have sum := done.sum
  have window := inside₁.window
  have posn := done.inside
  have available := done.available
  have next (remaining : Nat) (less : remaining ≤ lzx₁.block_remaining) :
      LzxdStream.Inside { lzx₁ with cursor := c, block_remaining := remaining } :=
    ⟨⟨done.window.trans inside₁.window, inside₁.frames, inside₁.small, inside₁.trees, inside₁.count,
      inside₁.unused, done.sound, inside₁.reference, inside₁.offset⟩,
      fun some_ => inside₁.block (by
        have positive : remaining ≠ 0 := some_
        omega)⟩
  split_ifs with beyond past
  · exact safely_error _ (by decide)
  · refine safely_ok ⟨⟨next _ (by omega), ?_⟩, keeps_trans keeps₁ (by constructor <;> rfl), ?_, ?_⟩
    · show c.window_posn + (bytes_todo - this_run) ≤ lzx₁.window_size
      omega
    · show lzx.cursor.window_posn + bytes_todo ≤ c.window_posn + (bytes_todo - this_run)
      omega
    · show c.bits.available + (bytes_todo - this_run) < _
      omega
  · refine safely_ok ⟨⟨next _ (by omega), ?_⟩, keeps_trans keeps₁ (by constructor <;> rfl), ?_, ?_⟩
    · show c.window_posn + (bytes_todo - this_run) ≤ lzx₁.window_size
      omega
    · show lzx.cursor.window_posn + bytes_todo ≤ c.window_posn + (bytes_todo - this_run)
      omega
    · show c.bits.available + (bytes_todo - this_run) < _
      omega

/-- The loop over the blocks ends behind the frame; its rounds are enough. -/
theorem safely_block_loop (inFrame : lzx.InFrame bytes_todo)
    (enough : lzx.cursor.bits.available + bytes_todo ≤ rounds) :
    Safely lzx.is_delta (blockLoop rounds bytes_todo lzx) fun lzx' =>
      lzx'.InFrame 0 ∧ Keeps lzx lzx' ∧
        lzx.cursor.window_posn + bytes_todo ≤ lzx'.cursor.window_posn := by
  induction rounds generalizing bytes_todo lzx with
  | zero =>
      have none : bytes_todo = 0 := by omega
      subst none
      exact safely_ok ⟨inFrame, ⟨rfl, rfl, rfl, rfl, rfl, rfl, rfl, rfl, rfl⟩, Nat.le_refl _⟩
  | succ rounds ih =>
      rw [blockLoop]
      split_ifs with more
      · apply safely_bind (safely_block_round inFrame more)
        rintro ⟨bytes_todo₁, lzx₁⟩ done
        dsimp only at done ⊢
        have less := done.less
        have posn := done.posn
        rw [← done.keeps.is_delta]
        apply safely_imp (ih done.inFrame (by omega))
        rintro lzx' ⟨inFrame', keeps, posn'⟩
        exact ⟨inFrame', keeps_trans done.keeps keeps, by omega⟩
      · have none : bytes_todo = 0 := by omega
        subst none
        exact safely_ok ⟨inFrame, ⟨rfl, rfl, rfl, rfl, rfl, rfl, rfl, rfl, rfl⟩, Nat.le_refl _⟩

end Runs

end XeBuild.Mspack
