import XeBuild.Mspack.WrittenTrees

/-!
# Blocks as they are written

A block is written in the segments that the frames cut it into; the first of them
has its header. What the encoder and the decoder both know in front of a segment is
its coding. A round of the decoder reads a segment that was written and comes to the
coding behind it.
-/

namespace XeBuild.Mspack

open BitText ListRange Runs SlidingWindow WordBits

set_option autoImplicit false

inductive BlockText
  | compressed (aligned : Option (List Nat)) (trees : TreesText)
  | uncompressed (pad : List Bool) (queue : OffsetQueue)

/-- The header of a block. The first byte is there behind an uncompressed block of odd length. -/
structure NewBlock where
  odd : Byte
  block_length : Nat
  block : BlockText

inductive Payload
  | tokens (elements : List Token)
  | stored (bytes : Bytes)

/-- The part of a block inside of a frame, with the header if it is the first. -/
structure Segment where
  start : Option NewBlock
  payload : Payload

/-- What is known in front of a segment. -/
structure Coding where
  lens : CodeLens
  block_type : Nat
  block_length : Nat
  block_remaining : Nat
  past : Past
  started : Bool

/-! ## What a segment stands for -/

def BlockText.block_type : BlockText → Nat
  | .compressed none _ => LZX_BLOCKTYPE_VERBATIM
  | .compressed (some _) _ => LZX_BLOCKTYPE_ALIGNED
  | .uncompressed _ _ => LZX_BLOCKTYPE_UNCOMPRESSED

def blockLens (aligned : Option (List Nat)) (trees : TreesText) (lens : CodeLens) : CodeLens :=
  trees.apply { lens with aligned := aligned.getD lens.aligned }

def NewBlock.open (new : NewBlock) (c : Coding) : Coding :=
  match new.block with
  | .compressed aligned trees =>
      let lens := blockLens aligned trees c.lens
      { lens := lens
        block_type := new.block.block_type
        block_length := new.block_length
        block_remaining := new.block_length
        past := c.past
        started := if lens.main.getD 0xE8 0 ≠ 0 then true else c.started }
  | .uncompressed _ queue =>
      { lens := c.lens
        block_type := new.block.block_type
        block_length := new.block_length
        block_remaining := new.block_length
        past := { c.past with queue := queue }
        started := true }

def Segment.open (segment : Segment) (c : Coding) : Coding :=
  match segment.start with
  | none => c
  | some new => new.open c

def Payload.count : Payload → Nat
  | .tokens elements => tokensCount elements
  | .stored bytes => bytes.length

def Payload.expand (window_size : Nat) (past : Past) : Payload → Option Past
  | .tokens elements => expandTokens window_size elements past
  | .stored bytes => some { past with history := past.history ++ bytes }

def Segment.next (window_size : Nat) (segment : Segment) (c : Coding) : Option Coding :=
  let c := segment.open c
  (segment.payload.expand window_size c.past).map fun past =>
    { c with past := past, block_remaining := c.block_remaining - segment.payload.count }

/-! ## What is written -/

def wordText (word : Nat) : Bytes :=
  [UInt8.ofNat word, UInt8.ofNat (word >>> 8), UInt8.ofNat (word >>> 16), UInt8.ofNat (word >>> 24)]

def queueText (queue : OffsetQueue) : Bytes :=
  wordText queue.R0 ++ (wordText queue.R1 ++ wordText queue.R2)

def alignedText (aligned : Option (List Nat)) : List Bool :=
  match aligned with
  | none => []
  | some lens => lens.flatMap (toBits 3)

def BlockText.put (rest : Text) : BlockText → Option Text
  | .compressed aligned trees =>
      trees.bits.map fun bits => (rest.prepend bits).prepend (alignedText aligned)
  | .uncompressed pad queue => (rest.putBytes (queueText queue)).map (Text.prepend pad)

def headerBits (block_type block_length : Nat) : List Bool :=
  toBits 3 block_type ++ (toBits 16 (block_length / 256) ++ toBits 8 (block_length % 256))

def putOdd (c : Coding) (odd : Byte) (rest : Text) : Option Text :=
  if c.block_type = LZX_BLOCKTYPE_UNCOMPRESSED ∧ c.block_length % 2 = 1 then rest.putBytes [odd]
  else some rest

def NewBlock.put (new : NewBlock) (c : Coding) (rest : Text) : Option Text := do
  let rest ← new.block.put rest
  putOdd c new.odd (rest.prepend (headerBits new.block.block_type new.block_length))

def Payload.put (c : Coding) (rest : Text) : Payload → Option Text
  | .tokens elements => (tokensBits c.block_type c.lens elements).map rest.prepend
  | .stored bytes => rest.putBytes bytes

def Segment.put (segment : Segment) (c : Coding) (rest : Text) : Option Text := do
  let rest ← segment.payload.put (segment.open c) rest
  match segment.start with
  | none => return rest
  | some new => new.put c rest

/-! ## What can be written -/

def BlockText.Valid (num_offsets : Nat) (lens : CodeLens) : BlockText → Prop
  | .compressed aligned trees =>
      (∀ values, aligned = some values →
        values.length = 8 ∧ (∀ value ∈ values, value < 2 ^ 3) ∧ Complete ALIGNED values) ∧
      trees.Valid num_offsets { lens with aligned := aligned.getD lens.aligned }
  | .uncompressed pad queue =>
      1 ≤ pad.length ∧ pad.length ≤ 16 ∧ queue.R0 < 0x100000000 ∧ queue.R1 < 0x100000000 ∧
        queue.R2 < 0x100000000

structure NewBlock.Valid (num_offsets : Nat) (new : NewBlock) (c : Coding) : Prop where
  length : new.block_length < 2 ^ 24
  block : new.block.Valid num_offsets c.lens

def Payload.Valid (block_type : Nat) : Payload → Prop
  | .tokens elements =>
      (block_type = LZX_BLOCKTYPE_VERBATIM ∨ block_type = LZX_BLOCKTYPE_ALIGNED) ∧
        ∀ token ∈ elements, token.Valid
  | .stored _ => block_type = LZX_BLOCKTYPE_UNCOMPRESSED

/-- A header is there when the block before has ended, and a segment is as long as it can be. -/
structure Segment.Valid (num_offsets todo : Nat) (segment : Segment) (c : Coding) : Prop where
  start : segment.start.isSome ↔ c.block_remaining = 0
  new : ∀ new, segment.start = some new → new.Valid num_offsets c
  payload : segment.payload.Valid (segment.open c).block_type
  count : segment.payload.count = thisRun (segment.open c).block_remaining todo

/-! ## Streams that are in front of a coding -/

structure LzxdStream.Follows (lzx : LzxdStream) (c : Coding) : Prop where
  inside : lzx.Inside
  plain : lzx.is_delta = false
  holds : lzx.trees.Holds c.lens
  size : c.lens.Sized
  shows_ : c.block_type = LZX_BLOCKTYPE_VERBATIM ∨ c.block_type = LZX_BLOCKTYPE_ALIGNED →
    lzx.trees.Shows c.block_type c.lens
  block_type : lzx.block_type = c.block_type
  block_length : lzx.block_length = c.block_length
  block_remaining : lzx.block_remaining = c.block_remaining
  tracks : lzx.cursor.Tracks lzx.limits c.past
  started : lzx.intel_started = c.started
  stored : c.block_type = LZX_BLOCKTYPE_UNCOMPRESSED → lzx.cursor.bits.bits_left = 0

section Bytes

variable {p : BitReader} {text : Text} {bytes : Bytes} {word : Nat}

theorem before_bytes_iff (none : p.bits_left = 0) (text : Text) :
    p.Before text ↔ text = ⟨[], p.unread⟩ := by
  have loaded : p.loaded = [] := by
    apply List.length_eq_zero_iff.mp
    rw [loaded_length, none]
  constructor
  · intro before
    rw [BitReader.Before, loaded] at before
    exact bytes_of_shows before
  · intro same
    rw [BitReader.Before, loaded, same]
    exact shows_bytes _

theorem next_byte_before {byte : Byte} {rest : Bytes} (sound : p.Sound) (none : p.bits_left = 0)
    (before : p.Before ⟨[], byte :: rest⟩) :
    ∃ p', nextByte p = .ok (byte, p') ∧ p'.Sound ∧ p'.bits_left = 0 ∧ p'.Before ⟨[], rest⟩ := by
  have same := congrArg Text.bytes ((before_bytes_iff none _).mp before)
  dsimp only at same
  rcases next_byte_result sound.buffered with ⟨ended, _⟩ |
    ⟨byte', p', run, ahead, size, buffer, left⟩
  · rw [ended] at same
    cases same
  · rw [ahead] at same
    cases same
    have none' : p'.bits_left = 0 := left.trans none
    exact ⟨p', run, sound_of_same sound size buffer left, none', (before_bytes_iff none' _).mpr rfl⟩

theorem read_raw_before {rest : Bytes} (sound : p.Sound) (none : p.bits_left = 0)
    (before : p.Before ⟨[], bytes ++ rest⟩) :
    ∃ p', readRaw bytes.length p = .ok (bytes, p') ∧ p'.Sound ∧ p'.bits_left = 0 ∧
      p'.Before ⟨[], rest⟩ := by
  induction bytes generalizing p with
  | nil => exact ⟨p, rfl, sound, none, before⟩
  | cons byte bytes ih =>
      rcases next_byte_before sound none before with ⟨p₁, run, sound₁, none₁, before₁⟩
      rcases ih sound₁ none₁ before₁ with ⟨p', more, sound', none', before'⟩
      refine ⟨p', ?_, sound', none', before'⟩
      rw [List.length_cons, readRaw, run, ok_bind]
      dsimp only
      rw [more]
      rfl

theorem word_of_text (small : word < 0x100000000) :
    wordOf (UInt8.ofNat word) (UInt8.ofNat (word >>> 8)) (UInt8.ofNat (word >>> 16))
      (UInt8.ofNat (word >>> 24)) = word := by
  rw [word_of_eq]
  simp only [UInt8.toNat_ofNat', Nat.shiftRight_eq_div_pow]
  omega

theorem stored_offsets_text {queue : OffsetQueue} (small : queue.R0 < 0x100000000)
    (small' : queue.R1 < 0x100000000) (small'' : queue.R2 < 0x100000000) :
    (⟨storedOffset (queueText queue) 0, storedOffset (queueText queue) 4,
      storedOffset (queueText queue) 8⟩ : OffsetQueue) = queue := by
  have first : storedOffset (queueText queue) 0 = queue.R0 := word_of_text small
  have second : storedOffset (queueText queue) 4 = queue.R1 := word_of_text small'
  have third : storedOffset (queueText queue) 8 = queue.R2 := word_of_text small''
  rw [first, second, third]

end Bytes

/-! ## Headers -/

structure KeepsSettings (lzx lzx' : LzxdStream) : Prop where
  num_offsets : lzx'.num_offsets = lzx.num_offsets
  ref_data_size : lzx'.ref_data_size = lzx.ref_data_size
  reset_interval : lzx'.reset_interval = lzx.reset_interval
  intel_filesize : lzx'.intel_filesize = lzx.intel_filesize
  header_read : lzx'.header_read = lzx.header_read

theorem settings_trans {lzx lzx' lzx'' : LzxdStream} (first : KeepsSettings lzx lzx')
    (second : KeepsSettings lzx' lzx'') : KeepsSettings lzx lzx'' where
  num_offsets := second.num_offsets.trans first.num_offsets
  ref_data_size := second.ref_data_size.trans first.ref_data_size
  reset_interval := second.reset_interval.trans first.reset_interval
  intel_filesize := second.intel_filesize.trans first.intel_filesize
  header_read := second.header_read.trans first.header_read

section Headers

variable {lzx : LzxdStream} {trees : LzxTrees} {c : Coding} {p : BitReader} {text rest : Text}
  {new : NewBlock} {values : List Nat} {pad : List Bool} {queue : OffsetQueue}

theorem aligned_tree_before (sized : trees.Sized) (count : values.length = 8)
    (small : ∀ value ∈ values, value < 2 ^ 3) (complete : Complete ALIGNED values) (sound : p.Sound)
    (before : p.Before (text.prepend (values.flatMap (toBits 3)))) :
    ∃ aligned p', readAlignedTree trees p = .ok ({ trees with ALIGNED := aligned }, p') ∧
      aligned.Sized ALIGNED ∧ aligned.Codes ALIGNED values ∧ p'.Sound ∧ p'.Before text := by
  have size : trees.ALIGNED.len.length = 72 := sized.aligned.len
  have room : 0 + values.length ≤ trees.ALIGNED.len.length := by omega
  rcases read_plain_lens_before sound (by decide : 3 ≤ 17) small room before with
    ⟨p', plain, sound', before'⟩
  rw [count] at plain
  have sized' : (TreeMemory.mk (patch trees.ALIGNED.len 0 values) trees.ALIGNED.table).Sized
      ALIGNED := ⟨(patch_length room).trans sized.aligned.len, sized.aligned.table⟩
  have same : ∀ symbol < ALIGNED.maxSymbols,
      (patch trees.ALIGNED.len 0 values).getD symbol 0 = values.getD symbol 0 := by
    intro symbol below
    exact patch_front_get_d _ _ (by rw [count]; exact below)
  have complete' : Complete ALIGNED (patch trees.ALIGNED.len 0 values) := by
    rw [Complete, code_leaves_congr same]
    exact complete
  have few : longCodes ALIGNED (patch trees.ALIGNED.len 0 values) ≤ 2 ^ (ALIGNED.tableBits - 1) :=
    Nat.le_trans long_leaves_length_le (by decide)
  rcases build_table_complete aligned_fits sized' few complete' with
    ⟨made, build, len, madeSized, built⟩
  refine ⟨made, p', ?_, madeSized, ⟨?_, built, complete⟩, sound', before'⟩
  · rw [readAlignedTree, plain, ok_bind]
    dsimp only
    rw [build]
    rfl
  · rw [len]
    exact same

theorem first_tree_before {aligned : Option (List Nat)} {written : TreesText}
    (kind : lzx.block_type = (BlockText.compressed aligned written).block_type)
    (sized : lzx.trees.Sized)
    (valid : ∀ values, aligned = some values →
      values.length = 8 ∧ (∀ value ∈ values, value < 2 ^ 3) ∧ Complete ALIGNED values)
    (sound : lzx.cursor.bits.Sound)
    (before : lzx.cursor.bits.Before (text.prepend (alignedText aligned))) :
    ∃ made p', readFirstTree lzx = .ok ({ lzx.trees with ALIGNED := made }, p') ∧
      made.Sized ALIGNED ∧ p'.Sound ∧ p'.Before text ∧
      ∀ lens, lzx.block_type = LZX_BLOCKTYPE_ALIGNED → made.Codes ALIGNED (aligned.getD lens) := by
  rw [readFirstTree, kind]
  cases aligned with
  | none =>
      have other : (BlockText.compressed none written).block_type ≠ LZX_BLOCKTYPE_ALIGNED := by
        show LZX_BLOCKTYPE_VERBATIM ≠ LZX_BLOCKTYPE_ALIGNED
        decide
      rw [if_neg other]
      exact ⟨lzx.trees.ALIGNED, lzx.cursor.bits, rfl, sized.aligned, sound, before,
        fun _ same => absurd same other⟩
  | some values =>
      rcases valid values rfl with ⟨count, small, complete⟩
      rcases aligned_tree_before sized count small complete sound before with
        ⟨made, p', run, madeSized, codes, sound', before'⟩
      exact ⟨made, p', (if_pos rfl).trans run, madeSized, sound', before', fun _ _ => codes⟩

theorem compressed_header_before {aligned : Option (List Nat)} {written : TreesText} {lens : CodeLens}
    (arrays : lzx.Arrays) (plain : lzx.is_delta = false)
    (kind : lzx.block_type = (BlockText.compressed aligned written).block_type)
    (holds : lzx.trees.Holds lens) (size : lens.Sized)
    (valid : (BlockText.compressed aligned written).Valid lzx.num_offsets lens)
    (put : (BlockText.compressed aligned written).put rest = some text)
    (before : lzx.cursor.bits.Before text) (roomy : 16 ≤ rest.bits.length) :
    ∃ trees p', readCompressedHeader lzx = .ok { lzx with
        trees := trees, cursor := { lzx.cursor with bits := p' },
        intel_started := if (blockLens aligned written lens).main.getD 0xE8 0 ≠ 0 then true
          else lzx.intel_started } ∧
      trees.Holds (blockLens aligned written lens) ∧
      trees.Shows lzx.block_type (blockLens aligned written lens) ∧
      (blockLens aligned written lens).Sized ∧ p'.Sound ∧ p'.Before rest := by
  rcases Option.map_eq_some_iff.mp put with ⟨bits, given, same⟩
  rw [← same] at before
  have count : OffsetCount false lzx.num_offsets := plain ▸ arrays.count
  rcases first_tree_before kind arrays.trees valid.1 arrays.bits before with
    ⟨made, p₁, first, madeSized, sound₁, before₁, codes⟩
  rcases @read_block_trees_before { lzx.trees with ALIGNED := made }
    { lens with aligned := aligned.getD lens.aligned } lzx.num_offsets p₁ rest bits written
    lzx.block_type ⟨arrays.trees.pretree, arrays.trees.maintree, arrays.trees.length, madeSized⟩
    count arrays.unused ⟨size.main, size.length⟩ ⟨holds.main, holds.length⟩ valid.2
    (codes lens.aligned) given sound₁ before₁ roomy with
    ⟨trees, p', second, holds', shows_, sized', sound', before'⟩
  refine ⟨trees, p', ?_, holds', shows_, sized', sound', before'⟩
  have literal : trees.MAINTREE.len.getD 0xE8 0 =
      (blockLens aligned written lens).main.getD 0xE8 0 := holds'.main 0xE8 (by decide)
  rw [readCompressedHeader, first, ok_bind]
  dsimp only
  rw [second, ok_bind]
  dsimp only
  rw [literal]
  rfl

/-- The bits in front of the stored offsets fill up the word that is started. -/
theorem fill_empty_before (sound : p.Sound) (few : p.bits_left < 16) (start : rest.partialWord = [])
    (some_ : 1 ≤ pad.length) (most : pad.length ≤ 16) (before : p.Before (rest.prepend pad)) :
    ∃ p', fillEmpty p = .ok p' ∧ p'.Sound ∧ p'.Before (rest.prepend pad) ∧
      p'.bits_left = pad.length := by
  have started : rest.Started := by
    rw [Text.Started, start]
    exact Nat.zero_lt_succ 15
  have word := @prepend_partial_length pad rest started
  rw [start, List.length_nil, Nat.add_zero] at word
  have partial_ := shows_partial_length before
  rw [loaded_length] at partial_
  rw [fillEmpty]
  split_ifs with none
  · have available := available_eq before
    rw [prepend_bits, List.length_append] at available
    rcases ensure_bits_result sound (by decide : 16 ≤ 17) with ⟨short, _⟩ | ⟨p', run, fills⟩
    · omega
    · have before' := fills.before _ before
      have partial' := shows_partial_length before'
      rw [loaded_length] at partial'
      have enough := fills.enough
      have least := fills.least
      exact ⟨p', run, fills.sound, before', by omega⟩
  · exact ⟨p, rfl, sound, before, by omega⟩

theorem stored_offsets_before (sound : p.Sound) (few : p.bits_left < 16) (some_ : 1 ≤ pad.length)
    (most : pad.length ≤ 16)
    (small : queue.R0 < 0x100000000 ∧ queue.R1 < 0x100000000 ∧ queue.R2 < 0x100000000)
    (put : rest.putBytes (queueText queue) = some text) (before : p.Before (text.prepend pad)) :
    ∃ p', readStoredOffsets p = .ok (queue, p') ∧ p'.Sound ∧ p'.bits_left = 0 ∧ p'.Before rest := by
  rcases put_bytes_some put with ⟨_, shape, rest_⟩
  rw [shape] at before
  rcases fill_empty_before sound few rfl some_ most before with ⟨p₁, fill, sound₁, before₁, left₁⟩
  -- nothing but the bits in front of them is loaded
  have dropped : (dropBits p₁).Before ⟨[], queueText queue ++ rest.bytes⟩ := by
    rcases shows_drop before₁ (by rw [loaded_length, left₁]) with ⟨loaded, whole, shown⟩
    have size := congrArg List.length whole
    rw [List.length_append, loaded_length, left₁] at size
    have none : loaded = [] := List.length_eq_zero_iff.mp (by omega)
    rw [none] at shown
    exact shown
  have twelve : (queueText queue).length = 12 := rfl
  rcases read_raw_before (drop_bits_sound sound₁) rfl dropped with
    ⟨p', read, sound', none', before'⟩
  rw [twelve] at read
  refine ⟨p', ?_, sound', none', ?_⟩
  · rw [readStoredOffsets, fill, ok_bind]
    dsimp only
    rw [read, ok_bind]
    dsimp only
    rw [stored_offsets_text small.1 small.2.1 small.2.2]
    rfl
  · rw [rest_]
    exact before'

/-- A byte fills up the block before, if it was uncompressed and of odd length. -/
theorem skip_odd_before {odd : Byte} (follows : lzx.Follows c) (put : putOdd c odd rest = some text)
    (before : lzx.cursor.bits.Before text) :
    ∃ p', skipOddByte lzx = .ok p' ∧ p'.Sound ∧ p'.Before rest := by
  rw [putOdd] at put
  rw [skipOddByte, follows.block_type, follows.block_length]
  split_ifs at put ⊢ with filled
  · rcases put_bytes_some put with ⟨_, shape, rest_⟩
    rw [shape] at before
    rcases next_byte_before follows.inside.bits (follows.stored filled.1) before with
      ⟨p', run, sound', _, before'⟩
    refine ⟨p', ?_, sound', ?_⟩
    · rw [run]
      rfl
    · rw [rest_]
      exact before'
  · cases put
    exact ⟨_, rfl, follows.inside.bits, before⟩

/-- The type and the length are read, and less than a word is left in the buffer. -/
theorem header_bits_before {block_type block_length : Nat} (sound : p.Sound)
    (kind : block_type < 2 ^ 3) (length : block_length < 2 ^ 24)
    (before : p.Before (text.prepend (headerBits block_type block_length))) :
    ∃ p₁ p₂ p', readBits 3 p = .ok (block_type, p₁) ∧
      readBits 16 p₁ = .ok (block_length / 256, p₂) ∧
      readBits 8 p₂ = .ok (block_length % 256, p') ∧ p'.Sound ∧ p'.Before text ∧
      p'.bits_left < 16 := by
  rw [headerBits, prepend_append, prepend_append] at before
  rcases read_field_before sound (by decide) kind before with ⟨p₁, first, sound₁, before₁, left₁⟩
  rcases read_field_before sound₁ (by decide) (by omega) before₁ with ⟨p₂, second, sound₂, before₂, left₂⟩
  rcases read_field_before sound₂ (by decide) (by omega) before₂ with ⟨p', third, sound', before', left'⟩
  have most : p.bits_left ≤ 32 := sound.left
  exact ⟨p₁, p₂, p', first, second, third, sound', before', by omega⟩

theorem tracks_bits {cursor : Cursor} {limits : WindowLimits} {past : Past}
    (tracks : cursor.Tracks limits past) (bits : BitReader) :
    Cursor.Tracks { cursor with bits := bits } limits past :=
  ⟨tracks.fit, tracks.recent, tracks.inside, tracks.place, tracks.queue⟩

/-- The stream is behind what was written, in the same frame. -/
structure Reaches (lzx lzx' : LzxdStream) (count : Nat) (c : Coding) (rest : Text) : Prop where
  follows : lzx'.Follows c
  before : lzx'.cursor.bits.Before rest
  keeps : Keeps lzx lzx'
  settings : KeepsSettings lzx lzx'
  posn : lzx'.cursor.window_posn = lzx.cursor.window_posn + count
  curpos : lzx'.intel_curpos = lzx.intel_curpos

theorem compressed_block_type (aligned : Option (List Nat)) (written : TreesText) :
    (BlockText.compressed aligned written).block_type = LZX_BLOCKTYPE_ALIGNED ∨
      (BlockText.compressed aligned written).block_type = LZX_BLOCKTYPE_VERBATIM := by
  cases aligned with
  | none => exact Or.inr rfl
  | some values => exact Or.inl rfl

theorem compressed_not_stored (aligned : Option (List Nat)) (written : TreesText) :
    (BlockText.compressed aligned written).block_type ≠ LZX_BLOCKTYPE_UNCOMPRESSED := by
  rcases compressed_block_type aligned written with same | same
  · rw [same]
    decide
  · rw [same]
    decide

theorem uncompressed_block_type :
    ¬ ((BlockText.uncompressed pad queue).block_type = LZX_BLOCKTYPE_ALIGNED ∨
      (BlockText.uncompressed pad queue).block_type = LZX_BLOCKTYPE_VERBATIM) :=
  (by decide : ¬ (LZX_BLOCKTYPE_UNCOMPRESSED = LZX_BLOCKTYPE_ALIGNED ∨
    LZX_BLOCKTYPE_UNCOMPRESSED = LZX_BLOCKTYPE_VERBATIM))

def LzxdStream.opened (lzx : LzxdStream) (new : NewBlock) (bits : BitReader) : LzxdStream :=
  { lzx with
    block_type := new.block.block_type, block_length := new.block_length,
    block_remaining := new.block_length, cursor := { lzx.cursor with bits := bits } }

theorem opened_arrays (inside : lzx.Inside) (sound : p.Sound) : (lzx.opened new p).Arrays :=
  ⟨inside.window, inside.frames, inside.small, inside.trees, inside.count, inside.unused, sound,
    inside.reference, inside.offset⟩

theorem opened_compressed_before {aligned : Option (List Nat)} {written : TreesText}
    (follows : lzx.Follows c) (block : new.block = .compressed aligned written)
    (valid : new.block.Valid lzx.num_offsets c.lens) (put : new.block.put rest = some text)
    (sound : p.Sound) (before : p.Before text) (roomy : 16 ≤ rest.bits.length) :
    ∃ lzx', readCompressedHeader (lzx.opened new p) = .ok lzx' ∧
      (lzx'.Inside → Reaches lzx lzx' 0 (new.open c) rest) := by
  have kind : (lzx.opened new p).block_type = (BlockText.compressed aligned written).block_type :=
    congrArg BlockText.block_type block
  rw [block] at valid put
  rcases @compressed_header_before (lzx.opened new p) text rest aligned written c.lens
    (opened_arrays follows.inside sound) follows.plain kind follows.holds follows.size valid put before
    roomy with ⟨trees, p', run, holds, shows_, size, _, before'⟩
  have opened : new.open c =
      { lens := blockLens aligned written c.lens
        block_type := (BlockText.compressed aligned written).block_type
        block_length := new.block_length
        block_remaining := new.block_length
        past := c.past
        started := if (blockLens aligned written c.lens).main.getD 0xE8 0 ≠ 0 then true
          else c.started } := by
    rw [NewBlock.open, block]
  have other := compressed_not_stored aligned written
  refine ⟨_, run, fun inside =>
    ⟨?_, before', by constructor <;> rfl, by constructor <;> rfl, rfl, rfl⟩⟩
  rw [opened]
  rw [kind] at shows_
  refine ⟨inside, follows.plain, holds, size, fun _ => shows_, kind, rfl, rfl,
    tracks_bits follows.tracks p', ?_, fun stored => absurd stored other⟩
  show (if (blockLens aligned written c.lens).main.getD 0xE8 0 ≠ 0 then true
    else lzx.intel_started) = _
  rw [follows.started]

theorem opened_uncompressed_before (follows : lzx.Follows c)
    (block : new.block = .uncompressed pad queue)
    (valid : new.block.Valid lzx.num_offsets c.lens) (put : new.block.put rest = some text)
    (sound : p.Sound) (few : p.bits_left < 16) (before : p.Before text) :
    ∃ lzx', readUncompressedHeader (lzx.opened new p) = .ok lzx' ∧
      (lzx'.Inside → Reaches lzx lzx' 0 (new.open c) rest) := by
  have kind : new.block.block_type = LZX_BLOCKTYPE_UNCOMPRESSED := by rw [block]; rfl
  have opened : new.open c =
      { lens := c.lens
        block_type := new.block.block_type
        block_length := new.block_length
        block_remaining := new.block_length
        past := { c.past with queue := queue }
        started := true } := by
    rw [NewBlock.open, block]
  rw [block] at valid put
  rcases valid with ⟨some_, most, small⟩
  rcases Option.map_eq_some_iff.mp put with ⟨text', stored, same⟩
  rw [← same] at before
  rcases stored_offsets_before sound few some_ most small stored before with
    ⟨p', run, _, none, before'⟩
  refine ⟨{ lzx.opened new p with
      cursor := { lzx.cursor with queue := queue, bits := p' }, intel_started := true }, ?_,
    fun inside =>
    ⟨?_, before', by constructor <;> rfl, by constructor <;> rfl, rfl, rfl⟩⟩
  · have bits : (lzx.opened new p).cursor.bits = p := rfl
    rw [readUncompressedHeader, bits, run]
    rfl
  · have tracks := follows.tracks
    rw [opened]
    refine ⟨inside, follows.plain, follows.holds, follows.size, ?_, rfl, rfl, rfl,
      ⟨tracks.fit, tracks.recent, tracks.inside, tracks.place, rfl⟩, rfl, fun _ => none⟩
    rw [kind]
    intro (compressed : LZX_BLOCKTYPE_UNCOMPRESSED = LZX_BLOCKTYPE_VERBATIM ∨
      LZX_BLOCKTYPE_UNCOMPRESSED = LZX_BLOCKTYPE_ALIGNED)
    exact absurd compressed (by decide)

theorem block_header_before (follows : lzx.Follows c) (put : new.put c rest = some text)
    (valid : new.Valid lzx.num_offsets c) (before : lzx.cursor.bits.Before text)
    (roomy : 16 ≤ rest.bits.length) :
    ∃ lzx', readBlockHeader lzx = .ok lzx' ∧ Reaches lzx lzx' 0 (new.open c) rest := by
  rcases Option.bind_eq_some_iff.mp put with ⟨behind, body, put⟩
  rcases skip_odd_before follows put before with ⟨p₀, skip, sound₀, before₀⟩
  have kind : new.block.block_type < 2 ^ 3 := by
    rcases new.block with ⟨_ | values, trees⟩ | ⟨pad, queue⟩
    · exact (by decide : LZX_BLOCKTYPE_VERBATIM < 2 ^ 3)
    · exact (by decide : LZX_BLOCKTYPE_ALIGNED < 2 ^ 3)
    · exact (by decide : LZX_BLOCKTYPE_UNCOMPRESSED < 2 ^ 3)
  rcases header_bits_before sound₀ kind valid.length before₀ with
    ⟨p₁, p₂, p₃, first, second, third, sound₃, before₃, few⟩
  have length : (new.block_length / 256) <<< 8 ||| new.block_length % 256 = new.block_length := by
    rw [← Nat.shiftLeft_add_eq_or_of_lt (Nat.mod_lt _ (by decide : 0 < 2 ^ 8)), Nat.shiftLeft_eq]
    omega
  have run : readBlockHeader lzx =
      if new.block.block_type = LZX_BLOCKTYPE_ALIGNED ∨
          new.block.block_type = LZX_BLOCKTYPE_VERBATIM then
        readCompressedHeader (lzx.opened new p₃)
      else if new.block.block_type = LZX_BLOCKTYPE_UNCOMPRESSED then
        readUncompressedHeader (lzx.opened new p₃)
      else .error (.error MSPACK_ERR_DECRUNCH) := by
    rw [readBlockHeader, skip, ok_bind, first, ok_bind]
    dsimp only
    rw [second, ok_bind]
    dsimp only
    rw [third, ok_bind]
    dsimp only
    rw [length]
    rfl
  have header : ∃ lzx', readBlockHeader lzx = .ok lzx' ∧
      (lzx'.Inside → Reaches lzx lzx' 0 (new.open c) rest) := by
    rw [run]
    cases block : new.block with
    | compressed aligned written =>
        rw [if_pos (compressed_block_type aligned written)]
        exact opened_compressed_before follows block valid.block body sound₃ before₃ roomy
    | uncompressed pad queue =>
        have stored : (BlockText.uncompressed pad queue).block_type =
            LZX_BLOCKTYPE_UNCOMPRESSED := rfl
        rw [if_neg uncompressed_block_type, if_pos stored]
        exact opened_uncompressed_before follows block valid.block body sound₃ few before₃
  rcases header with ⟨lzx', read, reaches⟩
  exact ⟨lzx', read, reaches (safely_holds (safely_block_header follows.inside) read).inside⟩

end Headers

end XeBuild.Mspack
