import XeBuild.Mspack.DecoderSafety

/-!
# What decoding a frame can do

The positions of a stream in front of a frame: all frames but the last have the full
size, and the window is turned when its end is reached. A frame that is decoded has
the bytes that it is to have.
-/

namespace XeBuild.Mspack

open ListRange Runs

set_option autoImplicit false

def LzxdStream.decoded (lzx : LzxdStream) : Nat := lzx.offset + lzx.pending.length

def framesEnd (length frames : Nat) : Nat :=
  if length = 0 then frames * LZX_FRAME_SIZE else min (frames * LZX_FRAME_SIZE) length

structure LzxdStream.AtFrame (lzx : LzxdStream) : Prop where
  inside : lzx.Inside
  posn : lzx.cursor.window_posn = lzx.frame_posn
  below : lzx.frame_posn < lzx.window_size
  decoded : lzx.decoded = framesEnd lzx.length lzx.frame
  place : lzx.decoded = lzx.frame * LZX_FRAME_SIZE → lzx.frame_posn = lzx.decoded % lzx.window_size

def outputFrame (filesize curpos : Int) (frame : Nat) (started : Bool) (data : Bytes) : Bytes :=
  if started = true ∧ filesize ≠ 0 ∧ frame ≤ 32768 ∧ data.length > 10 then
    mapCalls (relativeOffset filesize) curpos data
  else data

section Frames

variable {lzx : LzxdStream} {p : BitReader} {frame_size : Nat}

theorem clear_lens_sized {tree : HuffTree} {memory : TreeMemory} (sized : memory.Sized tree) :
    (clearLens tree memory).Sized tree := by
  refine ⟨?_, sized.table⟩
  have room : 0 + (List.replicate tree.maxSymbols 0).length ≤ memory.len.length := by
    rw [List.length_replicate, sized.len]
    omega
  show (patch memory.len 0 _).length = _
  rw [patch_length room, sized.len]

theorem clear_lens_get_d {tree : HuffTree} {memory : TreeMemory} {symbol : Nat}
    (small : symbol < tree.maxSymbols) : (clearLens tree memory).len.getD symbol 0 = 0 := by
  have inside : symbol < (List.replicate tree.maxSymbols 0).length := by
    rw [List.length_replicate]
    exact small
  show (patch memory.len 0 _).getD symbol 0 = 0
  rw [patch_front_get_d _ _ inside, List.getD_eq_getElem _ _ inside, List.getElem_replicate]

theorem reset_state_arrays (arrays : lzx.Arrays) : (lzxdResetState lzx).Arrays := by
  refine ⟨arrays.window, arrays.frames, arrays.small, ⟨arrays.trees.pretree,
    clear_lens_sized arrays.trees.maintree, clear_lens_sized arrays.trees.length,
    arrays.trees.aligned⟩, arrays.count, ?_, arrays.bits, arrays.reference, arrays.offset⟩
  intro symbol small _
  exact clear_lens_get_d small

/-- The steps in front of the blocks of a frame keep the stream as it is to be. -/
structure Prepared (lzx lzx' : LzxdStream) : Prop where
  inside : lzx'.Inside
  keeps : Keeps lzx lzx'
  window_posn : lzx'.cursor.window_posn = lzx.cursor.window_posn

theorem prepared_trans {lzx' lzx'' : LzxdStream} (first : Prepared lzx lzx')
    (second : Prepared lzx' lzx'') : Prepared lzx lzx'' :=
  ⟨second.inside, keeps_trans first.keeps second.keeps,
    second.window_posn.trans first.window_posn⟩

theorem prepared_refl (inside : lzx.Inside) : Prepared lzx lzx :=
  ⟨inside, ⟨rfl, rfl, rfl, rfl, rfl, rfl, rfl, rfl, rfl⟩, rfl⟩

theorem safely_reset (inside : lzx.Inside) :
    Safely lzx.is_delta (resetAtInterval lzx) fun lzx' => Prepared lzx lzx' := by
  rw [resetAtInterval]
  split_ifs with due remaining
  · exact safely_error _ (by decide)
  · exact safely_ok ⟨⟨reset_state_arrays inside.toArrays, fun some_ => absurd rfl some_⟩,
      ⟨rfl, rfl, rfl, rfl, rfl, rfl, rfl, rfl, rfl⟩, rfl⟩
  · exact safely_ok (prepared_refl inside)

theorem bits_inside (inside : lzx.Inside) (sound : p.Sound) :
    LzxdStream.Inside { lzx with cursor := { lzx.cursor with bits := p } } :=
  ⟨⟨inside.window, inside.frames, inside.small, inside.trees, inside.count, inside.unused, sound,
    inside.reference, inside.offset⟩, inside.block⟩

theorem safely_chunk_size (inside : lzx.Inside) :
    Safely lzx.is_delta (skipChunkSize lzx) fun lzx' => Prepared lzx lzx' := by
  rw [skipChunkSize]
  split_ifs with delta
  · apply safely_bind (safely_ensure_bits inside.bits (by decide))
    intro p fills
    exact safely_ok ⟨bits_inside inside (remove_sound fills.sound fills.enough).1,
      ⟨rfl, rfl, rfl, rfl, rfl, rfl, rfl, rfl, rfl⟩, rfl⟩
  · exact safely_ok (prepared_refl inside)

theorem safely_stream_header (inside : lzx.Inside) :
    Safely lzx.is_delta (readStreamHeader lzx) fun lzx' => Prepared lzx lzx' := by
  rw [readStreamHeader]
  have header (filesize : Int) (p : BitReader) (sound : p.Sound) :
      Prepared lzx { lzx with
        intel_filesize := filesize, header_read := true,
        cursor := { lzx.cursor with bits := p } } :=
    ⟨⟨⟨inside.window, inside.frames, inside.small, inside.trees, inside.count, inside.unused, sound,
      inside.reference, inside.offset⟩, inside.block⟩,
      ⟨rfl, rfl, rfl, rfl, rfl, rfl, rfl, rfl, rfl⟩, rfl⟩
  split_ifs with read
  · exact safely_ok (prepared_refl inside)
  · apply safely_bind (safely_read_bits inside.bits (by decide))
    rintro ⟨i, p₁⟩ ⟨_, sound₁, _⟩
    dsimp only at sound₁ ⊢
    split_ifs with some_
    · apply safely_bind (safely_read_bits sound₁ (by decide))
      rintro ⟨i, p₂⟩ ⟨_, sound₂, _⟩
      dsimp only at sound₂ ⊢
      apply safely_bind (safely_read_bits sound₂ (by decide))
      rintro ⟨j, p₃⟩ ⟨_, sound₃, _⟩
      exact safely_ok (header _ p₃ sound₃)
    · exact safely_ok (header _ p₁ sound₁)

theorem safely_fill_started (sound : p.Sound) :
    Safely lzx.is_delta (fillStarted p) fun p' => Further p p' := by
  rw [fillStarted]
  split_ifs with some_
  · exact safely_imp (safely_ensure_bits sound (by decide))
      fun p' fills => ⟨fills.sound, Nat.le_of_eq fills.available⟩
  · exact safely_ok ⟨sound, Nat.le_refl _⟩

theorem safely_realign (sound : p.Sound) :
    Safely lzx.is_delta (realign p) fun p' => p'.Sound := by
  rw [realign]
  apply safely_bind (safely_fill_started sound)
  intro p₁ further
  refine safely_ok ?_
  split_ifs with some_
  · exact (remove_sound further.sound Nat.and_le_left).1
  · exact further.sound

theorem frame_size_room (at_ : lzx.AtFrame) (written : lzx.pending = []) :
    lzx.frame_posn + frameSize lzx ≤ lzx.window_size ∧ frameSize lzx ≤ LZX_FRAME_SIZE ∧
      lzx.decoded + frameSize lzx = framesEnd lzx.length (lzx.frame + 1) ∧
      (lzx.decoded ≠ lzx.frame * LZX_FRAME_SIZE → frameSize lzx = 0) := by
  have decoded := at_.decoded
  have below := at_.below
  have place := at_.place
  have size : LZX_FRAME_SIZE = 32768 := rfl
  rw [LzxdStream.decoded, written, List.length_nil, Nat.add_zero] at decoded place ⊢
  rw [framesEnd] at decoded ⊢
  have offset := at_.inside.offset
  -- a window is a number of frames, so a full frame ends in it
  have full : lzx.offset = lzx.frame * LZX_FRAME_SIZE →
      lzx.frame_posn + LZX_FRAME_SIZE ≤ lzx.window_size := by
    intro whole
    rcases at_.inside.frames with ⟨frames, shape⟩
    have turned : lzx.offset % lzx.window_size = LZX_FRAME_SIZE * (lzx.frame % frames) := by
      rw [shape, whole, Nat.mul_comm lzx.frame, Nat.mul_mod_mul_left]
    have posn := place whole
    have least : lzx.frame % frames + 1 ≤ frames := by
      apply Nat.mod_lt
      by_contra none
      rw [Nat.le_zero.mp (Nat.le_of_not_lt none), Nat.mul_zero] at shape
      omega
    have room := Nat.mul_le_mul_left LZX_FRAME_SIZE least
    rw [Nat.mul_add, Nat.mul_one] at room
    rw [posn, turned, shape]
    exact room
  have parts : (lzx.frame + 1) * LZX_FRAME_SIZE = lzx.frame * LZX_FRAME_SIZE + LZX_FRAME_SIZE := by
    rw [Nat.add_mul, Nat.one_mul]
  rw [frameSize, parts]
  by_cases unknown : lzx.length = 0
  · rw [if_pos unknown] at decoded ⊢
    rw [if_neg (fun last => last.1 unknown)]
    have all := full decoded
    exact ⟨all, Nat.le_refl _, by omega, fun other => absurd decoded other⟩
  · rw [if_neg unknown] at decoded ⊢
    by_cases last : (lzx.length : Int) - lzx.offset < LZX_FRAME_SIZE
    · have ends : (((lzx.length : Int) - lzx.offset) % 0x100000000).toNat =
          lzx.length - lzx.offset := by omega
      rw [if_pos ⟨unknown, last⟩, ends]
      by_cases whole : lzx.offset = lzx.frame * LZX_FRAME_SIZE
      · have all := full whole
        exact ⟨by omega, by omega, by omega, fun other => absurd whole other⟩
      · exact ⟨by omega, by omega, by omega, fun _ => by omega⟩
    · have whole : lzx.offset = lzx.frame * LZX_FRAME_SIZE := by omega
      have all := full whole
      rw [if_neg (fun both => last both.2)]
      exact ⟨all, Nat.le_refl _, by omega, fun other => absurd whole other⟩

/-- A frame that is decoded waits to be written. -/
structure FrameDone (lzx : LzxdStream) (frame_size : Nat) (lzx' : LzxdStream) : Prop where
  size : frame_size = frameSize lzx
  inside : lzx'.Inside
  output : lzx'.output = lzx.output
  offset : lzx'.offset = lzx.offset
  length : lzx'.length = lzx.length
  window_size : lzx'.window_size = lzx.window_size
  frame_posn : lzx'.frame_posn = lzx.frame_posn
  frame : lzx'.frame = lzx.frame
  is_delta : lzx'.is_delta = lzx.is_delta
  error : lzx'.error = lzx.error
  window_posn : lzx'.cursor.window_posn = lzx.frame_posn + frame_size
  pending : lzx'.pending.length = frame_size

theorem translate_output_result (room : lzx.frame_posn + frame_size ≤ lzx.cursor.window.length)
    (small : frame_size ≤ LZX_FRAME_SIZE) :
    translateOutput lzx frame_size = .ok { lzx with
      pending := outputFrame lzx.intel_filesize lzx.intel_curpos lzx.frame lzx.intel_started
        (slice lzx.cursor.window lzx.frame_posn frame_size)
      intel_curpos := if lzx.intel_filesize ≠ 0 then lzx.intel_curpos + frame_size
        else lzx.intel_curpos } := by
  have length := slice_length_of_le room
  rw [translateOutput, loadFrame, if_pos room, ok_bind, outputFrame, length]
  split_ifs with asked some_ some_
  · rw [translate_frame_map, ok_bind]
    rfl
  · exact absurd asked.2.1 some_
  · rfl
  · rfl

theorem output_frame_length {filesize curpos : Int} {frame : Nat} {started : Bool} {data : Bytes} :
    (outputFrame filesize curpos frame started data).length = data.length := by
  rw [outputFrame]
  split_ifs
  · exact map_calls_length
  · rfl

theorem frame_size_keeps {lzx' : LzxdStream} (keeps : Keeps lzx lzx') :
    frameSize lzx' = frameSize lzx := by
  rw [frameSize, frameSize, keeps.length, keeps.offset]

theorem safely_prepare (inside : lzx.Inside) :
    Safely lzx.is_delta (resetAtInterval lzx >>= fun lzx => skipChunkSize lzx >>= readStreamHeader)
      fun lzx' => Prepared lzx lzx' := by
  apply safely_bind (safely_reset inside)
  intro lzx₁ first
  rw [← first.keeps.is_delta]
  apply safely_bind (safely_chunk_size first.inside)
  intro lzx₂ second
  rw [← second.keeps.is_delta]
  exact safely_imp (safely_stream_header second.inside)
    fun lzx₃ third => prepared_trans first (prepared_trans second third)

/-- A frame is decoded to the bytes that it is to have, or the decoding fails. -/
theorem safely_decode_frame (at_ : lzx.AtFrame) (written : lzx.pending = []) :
    Safely lzx.is_delta (decodeFrame lzx) fun done => FrameDone lzx done.1 done.2 := by
  rw [decodeFrame]
  have room := frame_size_room at_ written
  have prepared := safely_prepare at_.inside
  rw [← bind_assoc, ← bind_assoc, bind_assoc (resetAtInterval lzx)]
  apply safely_bind prepared
  intro lzx₁ prepared
  have keeps := prepared.keeps
  have posn : lzx₁.cursor.window_posn = lzx₁.frame_posn := by
    rw [prepared.window_posn, keeps.frame_posn]
    exact at_.posn
  have todo : lzx₁.frame_posn + frameSize lzx₁ - lzx₁.cursor.window_posn = frameSize lzx₁ := by
    rw [posn]
    exact Nat.add_sub_cancel_left _ _
  have size := frame_size_keeps keeps
  have inFrame : lzx₁.InFrame (frameSize lzx₁) := by
    refine ⟨prepared.inside, ?_⟩
    rw [posn, keeps.frame_posn, keeps.window_size, size]
    exact room.1
  dsimp only
  rw [todo, ← keeps.is_delta]
  apply safely_bind (safely_block_loop inFrame (Nat.le_refl _))
  rintro lzx₂ ⟨inFrame₂, keeps₂, least⟩
  have delta := keeps₂.is_delta
  split_ifs with beyond waits
  · exact safely_error _ (by decide)
  · rw [← delta]
    apply safely_bind (safely_realign inFrame₂.inside.bits)
    intro p sound
    exact safely_error _ (by decide)
  · rw [← delta]
    apply safely_bind (safely_realign inFrame₂.inside.bits)
    intro p sound
    have same := keeps_trans keeps keeps₂
    have exact_ : lzx₂.cursor.window_posn = lzx₂.frame_posn + frameSize lzx₁ := by
      rw [keeps₂.frame_posn]
      rw [keeps₂.frame_posn] at beyond
      omega
    have inside₃ := bits_inside inFrame₂.inside sound
    have fits : lzx₂.frame_posn + frameSize lzx₁ ≤ lzx₂.window_size := by
      rw [← exact_]
      exact inFrame₂.room
    have fits' : lzx₂.frame_posn + frameSize lzx₁ ≤ lzx₂.cursor.window.length := by
      rw [inFrame₂.inside.window]
      exact fits
    have small : frameSize lzx₁ ≤ LZX_FRAME_SIZE := by
      rw [size]
      exact room.2.1
    rw [@translate_output_result { lzx₂ with cursor := { lzx₂.cursor with bits := p } }
      (frameSize lzx₁) fits' small]
    refine safely_ok ⟨size, ⟨⟨inside₃.window, inside₃.frames, inside₃.small, inside₃.trees,
      inside₃.count, inside₃.unused, inside₃.bits, inside₃.reference, inside₃.offset⟩,
      inside₃.block⟩, same.output, same.offset, same.length, same.window_size, same.frame_posn,
      same.frame, same.is_delta, same.error, ?_, ?_⟩
    · show lzx₂.cursor.window_posn = _
      rw [exact_, same.frame_posn]
    · exact output_frame_length.trans (slice_length_of_le fits')

end Frames

end XeBuild.Mspack
