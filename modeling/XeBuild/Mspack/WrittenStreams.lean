import XeBuild.Mspack.LzxdCalls
import XeBuild.Mspack.WrittenFrames

/-!
# Streams as they are written

A stream is written as the size for the translation and its frames. One call for all
bytes reads the frames one after the other, and an empty one behind them where the last
frame is full; it writes what the frames stand for.
-/

namespace XeBuild.Mspack

open BitText ListRange Runs SlidingWindow WordBits

set_option autoImplicit false

def nextFrames (window_size : Nat) : List FrameText → Coding → Option Coding
  | [], c => some c
  | frame :: frames, c =>
      (nextSegments window_size frame.segments c).bind (nextFrames window_size frames)

def putFrames (window_size : Nat) : List FrameText → Coding → Text → Option Text
  | [], _, rest => some rest
  | frame :: frames, c, rest => do
      let c' ← nextSegments window_size frame.segments c
      let rest ← putFrames window_size frames c' rest
      frame.put window_size c rest

/-- Frames that can be written and have so many bytes; all but the last are full. -/
def FramesValid (window_size num_offsets : Nat) : List FrameText → Nat → Coding → Prop
  | [], bytes_todo, _ => bytes_todo = 0
  | frame :: frames, bytes_todo, c =>
      0 < bytes_todo ∧ frame.Valid window_size num_offsets (min LZX_FRAME_SIZE bytes_todo) c ∧
        ∀ c', nextSegments window_size frame.segments c = some c' →
          FramesValid window_size num_offsets frames (bytes_todo - min LZX_FRAME_SIZE bytes_todo) c'

def outputFrames (filesize : Int) (window_size : Nat) : List FrameText → Nat → Coding → Bytes
  | [], _, _ => []
  | frame :: frames, index, c =>
      match nextSegments window_size frame.segments c with
      | none => []
      | some c' =>
          outputFrame filesize c.past.history.length index c'.started
              (c'.past.history.drop c.past.history.length) ++
            outputFrames filesize window_size frames (index + 1) c'

/-- A stream in front of a text, all of whose bytes so far were written out. -/
structure LzxdStream.InText (lzx : LzxdStream) (c : Coding) (text : Text) : Prop where
  ready : lzx.Ready
  follows : lzx.Follows c
  before : lzx.cursor.bits.Before text
  written : lzx.pending = []
  interval : lzx.reset_interval = 0
  header : lzx.header_read = true
  history : c.past.history.length = lzx.offset
  curpos : lzx.intel_filesize ≠ 0 → lzx.intel_curpos = lzx.offset

section Frames

variable {lzx lzx' : LzxdStream} {c c' : Coding} {text rest : Text} {frame : FrameText}
  {frames : List FrameText} {out_bytes bytes_todo end_frame rounds : Nat} {fh : MemFile}

theorem frame_size_todo (length : lzx.length = lzx.offset + bytes_todo) (some_ : lzx.length ≠ 0) :
    frameSize lzx = min LZX_FRAME_SIZE bytes_todo := by
  have size : LZX_FRAME_SIZE = 32768 := rfl
  rw [frameSize]
  split_ifs with last <;> omega

theorem output_frame_curpos {filesize curpos : Int} {index place : Nat} {started : Bool}
    {data : Bytes} (same : filesize ≠ 0 → curpos = place) :
    outputFrame filesize curpos index started data =
      outputFrame filesize place index started data := by
  rw [outputFrame, outputFrame]
  by_cases none : filesize = 0
  · rw [if_neg (fun asked => asked.2.1 none), if_neg (fun asked => asked.2.1 none)]
  · rw [same none]

/-- A frame that was read and written out leaves the stream in front of the next one. -/
theorem wrote_in_text (in_ : lzx.InText c text) (reaches : FrameReaches lzx lzx' c c' rest)
    (output : lzx'.output = some fh) (room : fh.posn + frameSize lzx ≤ fh.data.length) :
    (nextFrame (frameSize lzx) (wrote fh (frameSize lzx) lzx')).InText c' rest := by
  have done := reaches.done
  have offset' : lzx'.offset ≤ lzx'.outPosn := by
    rw [LzxdStream.outPosn, done.offset, done.output]
    exact in_.ready.offset
  have grown := wrote_out output room (Nat.le_of_eq done.pending.symm)
  have small := out_posn_lt output room offset'
  have at_ := @next_at_frame lzx lzx' (frameSize lzx) (frameSize lzx) fh in_.ready.at_ in_.written
    done (Nat.le_refl _) small
  have follows := reaches.follows
  have window := follows.inside.window
  have length := reaches.grows.length
  have history := in_.history
  have moved : lzx'.offset + frameSize lzx = c'.past.history.length := by
    rw [done.offset]
    omega
  have tracks := follows.tracks
  have turned : Cursor.Tracks { lzx'.cursor with
      window_posn := if lzx'.cursor.window_posn = lzx'.window_size then 0
        else lzx'.cursor.window_posn }
      ⟨lzx'.window_size, lzx'.offset + frameSize lzx, lzx'.ref_data_size⟩ c'.past := by
    rcases tracks.place with ⟨rounds, whole, known⟩
    refine ⟨⟨tracks.fit.size, tracks.fit.small, small, tracks.fit.ref_data_size⟩, tracks.recent, ?_, ?_,
      tracks.queue⟩
    · show (if lzx'.cursor.window_posn = lzx'.window_size then 0 else lzx'.cursor.window_posn) ≤ _
      have inside := tracks.inside
      split_ifs
      · exact Nat.zero_le _
      · exact inside
    · rw [moved]
      show ∃ rounds, c'.past.history.length = lzx'.cursor.window.length * rounds +
        (if lzx'.cursor.window_posn = lzx'.window_size then 0 else lzx'.cursor.window_posn) ∧
          lzx'.cursor.window.length * rounds ≤ c'.past.history.length
      split_ifs with end_
      · refine ⟨rounds + 1, ?_, ?_⟩
        · rw [Nat.mul_add, Nat.mul_one]
          omega
        · rw [Nat.mul_add, Nat.mul_one]
          omega
      · exact ⟨rounds, whole, by omega⟩
  refine ⟨⟨at_, ?_, ?_⟩, ⟨at_.inside, follows.plain, follows.holds, follows.size, follows.shows_,
    follows.block_type, follows.block_length, follows.block_remaining, turned, follows.started,
    follows.stored⟩, reaches.before, ?_, ?_, ?_, moved.symm, ?_⟩
  · show lzx'.error = _
    rw [done.error]
    exact in_.ready.error
  · show lzx'.offset + frameSize lzx ≤ (wrote fh (frameSize lzx) lzx').outPosn
    rw [grown.2]
    omega
  · exact List.drop_of_length_le (Nat.le_of_eq done.pending)
  · exact reaches.settings.reset_interval.trans in_.interval
  · exact reaches.settings.header_read.trans in_.header
  · show lzx'.intel_filesize ≠ 0 → lzx'.intel_curpos = ((lzx'.offset + frameSize lzx : Nat) : Int)
    rw [reaches.settings.intel_filesize, reaches.curpos, done.offset]
    intro some_
    rw [if_pos some_, in_.curpos some_]
    omega

/-- A round of the loop over the frames reads the frame that was written. -/
theorem frame_round_before (in_ : lzx.InText c text)
    (valid : frame.Valid lzx.window_size lzx.num_offsets (frameSize lzx) c)
    (put : frame.put lzx.window_size c rest = some text)
    (next : nextSegments lzx.window_size frame.segments c = some c')
    (roomy : 16 ≤ rest.bits.length) (output : lzx.output = some fh)
    (room : fh.posn + frameSize lzx ≤ fh.data.length) (more : lzx.frame < end_frame)
    (asked : frameSize lzx ≤ out_bytes) :
    ∃ lzx', frameLoop end_frame (rounds + 1) out_bytes lzx =
        frameLoop end_frame rounds (out_bytes - frameSize lzx) lzx' ∧
      lzx'.InText c' rest ∧ KeepsSettings lzx lzx' ∧ lzx'.window_size = lzx.window_size ∧
      lzx'.length = lzx.length ∧ lzx'.frame = lzx.frame + 1 ∧
      lzx'.offset = lzx.offset + frameSize lzx ∧
      (∃ fh', lzx'.output = some fh' ∧ fh'.posn = fh.posn + frameSize lzx ∧
        fh'.data.length = fh.data.length) ∧
      lzx'.out = lzx.out ++ outputFrame lzx.intel_filesize c.past.history.length lzx.frame c'.started
        (c'.past.history.drop c.past.history.length) := by
  rcases decode_frame_before in_.ready.at_ in_.written in_.follows in_.interval in_.header valid put
    next in_.before roomy with ⟨lzx₁, run, reaches⟩
  have done := reaches.done
  have output₁ : lzx₁.output = some fh := done.output.trans output
  have in' := wrote_in_text in_ reaches output₁ room
  have grown := wrote_out output₁ room (Nat.le_of_eq done.pending.symm)
  have all : lzx₁.pending.take (frameSize lzx) = lzx₁.pending :=
    List.take_of_length_le (Nat.le_of_eq done.pending)
  have written : writePending (frameSize lzx) lzx₁ = (wrote fh (frameSize lzx) lzx₁, true) := by
    have whole := todo_all fh lzx₁.pending (by rw [done.pending]; exact room)
    rw [writePending, output₁, memWrite, all, whole, done.pending]
    dsimp only
    rw [if_neg (not_not.mpr rfl), wrote, all]
  refine ⟨_, ?_, in', ?_, done.window_size, done.length, ?_, ?_, ⟨_, rfl, ?_, put_length _ _⟩, ?_⟩
  · rw [frameLoop, if_pos more, run]
    dsimp only
    rw [if_neg (Nat.not_lt.mpr asked), written]
  · have settings := reaches.settings
    exact ⟨settings.num_offsets, settings.ref_data_size, settings.reset_interval,
      settings.intel_filesize, settings.header_read⟩
  · show lzx₁.frame + 1 = _
    rw [done.frame]
  · show lzx₁.offset + frameSize lzx = _
    rw [done.offset]
  · have posn := grown.2
    rw [LzxdStream.outPosn, LzxdStream.outPosn, output₁] at posn
    exact posn
  · have curpos : lzx.intel_filesize ≠ 0 → lzx.intel_curpos = (c.past.history.length : Int) := by
      rw [in_.history]
      exact in_.curpos
    show (wrote fh (frameSize lzx) lzx₁).out = _
    rw [grown.1, all, reaches.pending, output_frame_curpos curpos, LzxdStream.out, LzxdStream.out,
      done.output]

theorem frame_ends_with {window_size : Nat} (put : frame.put window_size c rest = some text) :
    EndsWith text rest := by
  rcases Option.bind_eq_some_iff.mp put with ⟨rest', start, segments⟩
  exact ends_with_trans (put_segments_ends_with segments)
    (ends_with_trans (prepend_ends_with _ _) (put_bytes_ends_with start))

theorem frames_ends_with {window_size : Nat} (put : putFrames window_size frames c rest = some text) :
    EndsWith text rest := by
  induction frames generalizing c text with
  | nil =>
      rw [Option.some.inj put]
      exact ends_with_refl _
  | cons frame frames ih =>
      rcases Option.bind_eq_some_iff.mp put with ⟨c₁, _, put⟩
      rcases Option.bind_eq_some_iff.mp put with ⟨middle, later, put⟩
      exact ends_with_trans (frame_ends_with put) (ih later)

theorem frame_loop_ended (done : ¬ lzx.frame < end_frame) :
    frameLoop end_frame rounds 0 lzx = .ok (MSPACK_ERR_OK, lzx) := by
  cases rounds with
  | zero => rw [frameLoop, if_neg done, if_neg (not_not.mpr rfl)]
  | succ rounds => rw [frameLoop, if_neg done, if_neg (not_not.mpr rfl)]

theorem frame_loop_empty (in_ : lzx.InText c ⟨[], rest.bytes⟩) (length : lzx.length = lzx.offset)
    (some_ : lzx.length ≠ 0) (roomy : 2 ≤ rest.bytes.length) (output : lzx.output = some fh)
    (last : end_frame = lzx.length / LZX_FRAME_SIZE + 1) (enough : end_frame ≤ lzx.frame + rounds) :
    ∃ lzx', frameLoop end_frame rounds 0 lzx = .ok (MSPACK_ERR_OK, lzx') ∧ lzx'.out = lzx.out := by
  by_cases more : lzx.frame < end_frame
  · have size : frameSize lzx = 0 := by
      rw [@frame_size_todo lzx 0 length some_, Nat.min_zero]
    have decoded := in_.ready.at_.decoded
    have full : LZX_FRAME_SIZE = 32768 := rfl
    rw [LzxdStream.decoded, in_.written, List.length_nil, framesEnd, if_neg some_, full] at decoded
    rw [full] at last
    rcases Nat.exists_eq_succ_of_ne_zero (by omega : rounds ≠ 0) with ⟨rounds, rfl⟩
    have bits : 16 ≤ (Text.mk [] rest.bytes).bits.length := by
      rw [Text.bits, List.nil_append, word_bits_length]
      dsimp only
      omega
    have inside := fh.inside
    rcases @frame_round_before lzx c c ⟨[], rest.bytes⟩ ⟨[], rest.bytes⟩ ⟨[], []⟩ 0 end_frame rounds
      fh in_ ⟨by decide, size⟩ rfl rfl bits output (by omega) more (by omega) with
      ⟨lzx', run, _, _, _, _, next, _, _, out⟩
    refine ⟨lzx', ?_, ?_⟩
    · rw [run, size]
      exact frame_loop_ended (by omega)
    · have none : outputFrame lzx.intel_filesize c.past.history.length lzx.frame c.started
          (c.past.history.drop c.past.history.length) = [] := by
        apply List.length_eq_zero_iff.mp
        rw [output_frame_length, List.drop_length, List.length_nil]
      rw [out, none, List.append_nil]
  · exact ⟨lzx, frame_loop_ended more, rfl⟩

/-- The frames that were written are read, and all of their bytes are written out. -/
theorem frame_loop_before (in_ : lzx.InText c text) (length : lzx.length = lzx.offset + bytes_todo)
    (some_ : lzx.length ≠ 0)
    (valid : FramesValid lzx.window_size lzx.num_offsets frames bytes_todo c)
    (put : putFrames lzx.window_size frames c ⟨[], rest.bytes⟩ = some text)
    (next : nextFrames lzx.window_size frames c = some c') (roomy : 2 ≤ rest.bytes.length)
    (output : lzx.output = some fh) (room : fh.posn + bytes_todo ≤ fh.data.length)
    (last : end_frame = lzx.length / LZX_FRAME_SIZE + 1) (enough : end_frame ≤ lzx.frame + rounds) :
    ∃ lzx', frameLoop end_frame rounds bytes_todo lzx = .ok (MSPACK_ERR_OK, lzx') ∧
      lzx'.out = lzx.out ++ outputFrames lzx.intel_filesize lzx.window_size frames lzx.frame c := by
  induction frames generalizing lzx c text bytes_todo rounds fh with
  | nil =>
      cases valid
      rw [← Option.some.inj put] at in_
      rcases frame_loop_empty in_ length some_ roomy output last enough with ⟨lzx', run, out⟩
      exact ⟨lzx', run, by rw [out, outputFrames, List.append_nil]⟩
  | cons frame frames ih =>
      rcases valid with ⟨todo, here, later⟩
      rcases Option.bind_eq_some_iff.mp next with ⟨c₁, first, next⟩
      rcases Option.bind_eq_some_iff.mp put with ⟨c₂, again, put⟩
      rw [first] at again
      cases again
      rcases Option.bind_eq_some_iff.mp put with ⟨middle, behind, put⟩
      have size := frame_size_todo length some_
      have full : LZX_FRAME_SIZE = 32768 := rfl
      have decoded := in_.ready.at_.decoded
      rw [LzxdStream.decoded, in_.written, List.length_nil, framesEnd, if_neg some_, full] at decoded
      have ends := last
      rw [full] at ends
      have bits : 16 ≤ middle.bits.length := by
        have least := (frames_ends_with behind).bits
        rw [Text.bits, List.nil_append, word_bits_length] at least
        dsimp only at least
        omega
      rcases Nat.exists_eq_succ_of_ne_zero (by omega : rounds ≠ 0) with ⟨rounds, rfl⟩
      rcases @frame_round_before lzx c c₁ text middle frame bytes_todo end_frame rounds fh in_
        (by rw [size]; exact here) put first bits output (by omega) (by omega) (by omega) with
        ⟨lzx₁, run, in₁, settings, window_size, length₁, frame₁, offset₁,
          ⟨fh₁, output₁, posn₁, data₁⟩, out₁⟩
      rcases @ih lzx₁ c₁ middle (bytes_todo - frameSize lzx) rounds fh₁ in₁ (by omega) (by omega)
        (by rw [window_size, settings.num_offsets, size]; exact later c₁ first)
        (by rw [window_size]; exact behind) (by rw [window_size]; exact next) output₁ (by omega)
        (by rw [length₁]; exact last) (by omega) with ⟨lzx', rest_, out'⟩
      refine ⟨lzx', run.trans rest_, ?_⟩
      rw [out', out₁, settings.intel_filesize, window_size, frame₁, outputFrames, first,
        List.append_assoc]

end Frames

/-! ## Streams -/

/-- The size that the translation of calls uses, if it is asked for, and the frames. -/
structure StreamText where
  filesize : Option Nat
  frames : List FrameText

def headerText : Option Nat → List Bool
  | none => toBits 1 0
  | some filesize => toBits 1 1 ++ (toBits 16 (filesize / 0x10000) ++ toBits 16 (filesize % 0x10000))

def headerSize : Option Nat → Int
  | none => 0
  | some filesize => asInt filesize

def firstCoding : Coding where
  lens := ⟨List.replicate (MAINTREE.maxSymbols + LZX_LENTABLE_SAFETY) 0,
    List.replicate (LENGTH.maxSymbols + LZX_LENTABLE_SAFETY) 0, []⟩
  block_type := LZX_BLOCKTYPE_INVALID
  block_length := 0
  block_remaining := 0
  past := ⟨[], ⟨1, 1, 1⟩⟩
  started := false

/-- The text of a stream in front of the two bytes that the reader makes up. -/
def StreamText.put (window_size : Nat) (stream : StreamText) : Option Text := do
  let text ← putFrames window_size stream.frames firstCoding ⟨[], [0, 0]⟩
  (text.prepend (headerText stream.filesize)).putBytes []

def StreamText.file (window_size : Nat) (stream : StreamText) : Option Bytes :=
  (stream.put window_size).map fun text => text.bytes.take (text.bytes.length - 2)

def offsetSymbols (window_bits : Nat) : Nat := positionSlots.getD (window_bits - 15) 0 <<< 3

structure StreamText.Valid (window_bits length : Nat) (stream : StreamText) : Prop where
  filesize : ∀ filesize, stream.filesize = some filesize → filesize < 0x100000000
  frames : FramesValid (1 <<< window_bits) (offsetSymbols window_bits) stream.frames length firstCoding

structure LzxdStream.New (lzx : LzxdStream) (window_bits length : Nat) (input output : MemFile) :
    Prop where
  ready : lzx.Ready
  follows : lzx.Follows firstCoding
  before : lzx.cursor.bits.Before ⟨[], input.rest ++ [0, 0]⟩
  window_size : lzx.window_size = 1 <<< window_bits
  num_offsets : lzx.num_offsets = offsetSymbols window_bits
  length : lzx.length = length
  offset : lzx.offset = 0
  frame : lzx.frame = 0
  pending : lzx.pending = []
  interval : lzx.reset_interval = 0
  curpos : lzx.intel_curpos = 0
  unread : lzx.header_read = false
  output : lzx.output = some output

section Streams

variable {lzx lzx₁ lzx' : LzxdStream} {c c' : Coding} {text : Text} {stream : StreamText}
  {memory : LzxMemory} {input output : MemFile}
  {window_bits input_buffer_size length : Nat}

theorem replicate_zero_get_d (count symbol : Nat) : (List.replicate count 0).getD symbol 0 = 0 := by
  rw [List.getD_eq_getElem?_getD, List.getElem?_replicate]
  split_ifs <;> rfl

theorem lzxd_init_new
    (made : lzxdInit memory (some input) (some output) window_bits 0 input_buffer_size length false =
      some lzx) : lzx.New window_bits length input output := by
  have ready := lzxd_init_ready made
  have inside := ready.1.at_.inside
  rcases lzxd_init_cases made with ⟨_, _, trees, window, inbuf_size, _, window_length, _, rfl⟩
  refine ⟨ready.1, ⟨inside, rfl, ⟨?_, ?_⟩, ⟨List.length_replicate, List.length_replicate⟩, ?_, rfl,
    rfl, rfl, ?_, rfl, ?_⟩, ?_, rfl, rfl, rfl, rfl, rfl, rfl, rfl, rfl, rfl, rfl⟩
  · intro symbol small
    exact (clear_lens_get_d small).trans (replicate_zero_get_d _ _).symm
  · intro symbol small
    exact (clear_lens_get_d small).trans (replicate_zero_get_d _ _).symm
  · intro compressed
    exact absurd compressed (by decide)
  · have positive : 0 < window.length := by
      rw [window_length, Nat.one_shiftLeft]
      exact Nat.two_pow_pos _
    have small : window.length ≤ 2 ^ 25 := by
      have most := inside.small
      rw [← inside.window] at most
      exact most
    exact ⟨⟨window_length.symm, small, (by decide : 0 < 0x80000000), Nat.zero_le _⟩,
      recent_nil positive, Nat.zero_le _, ⟨0, rfl, Nat.le_refl _⟩, rfl⟩
  · intro stored
    exact absurd stored (by decide)
  · apply (before_bytes_iff rfl _).mpr
    rfl

theorem stream_header_before {filesize : Option Nat}
    (small : ∀ value, filesize = some value → value < 0x100000000) (follows : lzx.Follows c)
    (unread : lzx.header_read = false)
    (before : lzx.cursor.bits.Before (text.prepend (headerText filesize))) :
    ∃ p, readStreamHeader lzx = .ok { lzx with
        intel_filesize := headerSize filesize, header_read := true,
        cursor := { lzx.cursor with bits := p } } ∧ p.Sound ∧ p.Before text := by
  rw [readStreamHeader, if_neg (by rw [unread]; exact Bool.false_ne_true)]
  have sound := follows.inside.bits
  cases filesize with
  | none =>
      rcases read_field_before sound (by decide) (by decide) before with
        ⟨p, read, sound', before', _⟩
      refine ⟨p, ?_, sound', before'⟩
      rw [read]
      rfl
  | some filesize =>
      have below := small filesize rfl
      rw [headerText, prepend_append, prepend_append] at before
      rcases read_field_before sound (by decide) (by decide) before with
        ⟨p₁, first, sound₁, before₁, _⟩
      rcases read_field_before sound₁ (by decide) (by omega) before₁ with
        ⟨p₂, second, sound₂, before₂, _⟩
      rcases read_field_before sound₂ (by decide) (by omega) before₂ with
        ⟨p, third, sound', before', _⟩
      have joined : (filesize / 0x10000) <<< 16 ||| filesize % 0x10000 = filesize := by
        rw [← Nat.shiftLeft_add_eq_or_of_lt (Nat.mod_lt _ (by decide : 0 < 2 ^ 16)),
          Nat.shiftLeft_eq]
        omega
      refine ⟨p, ?_, sound', before'⟩
      rw [first, ok_bind]
      dsimp only
      rw [if_pos (by decide), second, ok_bind]
      dsimp only
      rw [third, ok_bind]
      dsimp only
      rw [joined]
      rfl

/-- Behind its header a new stream is in front of the text of its frames. -/
theorem header_in_text {filesize : Option Nat} {p : BitReader}
    (new : lzx.New window_bits length input output) (sound : p.Sound) (before : p.Before text) :
    LzxdStream.InText { lzx with
      intel_filesize := headerSize filesize, header_read := true,
      cursor := { lzx.cursor with bits := p } } firstCoding text := by
  have ready := new.ready
  have follows := new.follows
  have inside := bits_inside follows.inside sound
  have inside' : LzxdStream.Inside { lzx with
      intel_filesize := headerSize filesize, header_read := true,
      cursor := { lzx.cursor with bits := p } } :=
    ⟨⟨inside.window, inside.frames, inside.small, inside.trees, inside.count, inside.unused,
      inside.bits, inside.reference, inside.offset⟩, inside.block⟩
  refine ⟨⟨⟨inside', ready.at_.posn, ready.at_.below, ready.at_.decoded, ready.at_.place⟩,
    ready.error, ready.offset⟩, ⟨inside', follows.plain, follows.holds, follows.size, follows.shows_,
    follows.block_type, follows.block_length, follows.block_remaining,
    tracks_bits follows.tracks p, follows.started, fun stored => absurd stored (by decide)⟩, before,
    new.pending, new.interval, rfl, new.offset.symm, fun _ => ?_⟩
  show lzx.intel_curpos = (lzx.offset : Int)
  rw [new.curpos, new.offset]
  rfl

/-- A frame that starts with the header of the stream is the frame behind the header. -/
theorem decode_frame_header (interval : lzx.reset_interval = 0)
    (plain : lzx.is_delta = false) (read : readStreamHeader lzx = .ok lzx₁)
    (interval₁ : lzx₁.reset_interval = 0) (plain₁ : lzx₁.is_delta = false)
    (header : lzx₁.header_read = true) : decodeFrame lzx = decodeFrame lzx₁ := by
  have steps {lzx : LzxdStream} (interval : lzx.reset_interval = 0) (plain : lzx.is_delta = false) :
      resetAtInterval lzx = .ok lzx ∧ skipChunkSize lzx = .ok lzx := by
    refine ⟨if_neg fun due => due.1 interval, if_neg ?_⟩
    rw [plain]
    exact Bool.false_ne_true
  have again : readStreamHeader lzx₁ = .ok lzx₁ := if_pos header
  rw [decodeFrame, decodeFrame, (steps interval plain).1, (steps interval₁ plain₁).1, ok_bind,
    ok_bind, (steps interval plain).2, (steps interval₁ plain₁).2, ok_bind, ok_bind, read, again]

/-- A loop that goes well behind the header goes well in front of it. -/
theorem frame_loop_header {end_frame rounds out_bytes : Nat} (interval : lzx.reset_interval = 0)
    (plain : lzx.is_delta = false) (read : readStreamHeader lzx = .ok lzx₁)
    (in_ : lzx₁.InText c text) (same : lzx₁.frame = lzx.frame) (more : lzx.frame < end_frame)
    (run : frameLoop end_frame (rounds + 1) out_bytes lzx₁ = .ok (MSPACK_ERR_OK, lzx')) :
    frameLoop end_frame (rounds + 1) out_bytes lzx = .ok (MSPACK_ERR_OK, lzx') := by
  have more₁ : lzx₁.frame < end_frame := by
    rw [same]
    exact more
  have header := decode_frame_header interval plain read in_.interval in_.follows.plain in_.header
  rw [frameLoop, if_pos more₁] at run
  rw [frameLoop, if_pos more, header]
  rcases safely_decode_frame in_.ready.at_ in_.written with ⟨status, bad, failed⟩ |
    ⟨array, index, left, _⟩ | ⟨done, decoded, _⟩
  · rw [failed] at run
    exact absurd (congrArg Prod.fst (Except.ok.inj run)) bad
  · rw [left] at run
    cases run
  · rw [decoded] at run ⊢
    exact run

theorem lzxd_decompress_new (new : lzx.New window_bits length input output) (some_ : 0 < length)
    (small : length < 0x80000000) : lzxdDecompress lzx length =
      frameLoop (length / LZX_FRAME_SIZE + 1) (length / LZX_FRAME_SIZE + 1) length lzx := by
  have asked : ¬ (length : Int) < 0 := by omega
  have full : LZX_FRAME_SIZE = 32768 := rfl
  have end_ : ((lzx.offset + length) / LZX_FRAME_SIZE + 1) % 0x100000000 =
      length / LZX_FRAME_SIZE + 1 := by
    rw [new.offset, full]
    omega
  have none : storedSize length lzx = 0 := by
    rw [storedSize, new.pending]
    exact if_neg (Nat.not_lt_zero _)
  have stored : writeStored length lzx = (lzx, true) := by
    rw [writeStored, none]
    rfl
  rw [lzxdDecompress, if_neg asked, if_neg (fun bad => bad new.ready.error), Int.toNat_natCast,
    stored, none]
  dsimp only
  rw [Nat.sub_zero, decodeFrames, if_neg (by omega), end_, new.frame]
  rfl

theorem stream_text_bytes {window_size : Nat} {bytes : Bytes}
    (file : stream.file window_size = some bytes) :
    ∃ text, putFrames window_size stream.frames firstCoding ⟨[], [0, 0]⟩ = some text ∧
      text.prepend (headerText stream.filesize) = ⟨[], bytes ++ [0, 0]⟩ := by
  rcases Option.map_eq_some_iff.mp file with ⟨whole, put, taken⟩
  rcases Option.bind_eq_some_iff.mp put with ⟨text, frames, start⟩
  rcases put_bytes_some start with ⟨_, shape, same⟩
  refine ⟨text, frames, ?_⟩
  rw [List.nil_append, ← same] at shape
  have ends := ends_with_trans (prepend_ends_with (headerText stream.filesize) text)
    (frames_ends_with frames)
  rw [← shape] at ends same
  rcases ends.bytes with ⟨front, parts⟩
  rw [← parts, List.length_append] at taken
  have size : front.length + [(0 : Byte), 0].length - 2 = front.length := Nat.add_sub_cancel _ _
  rw [size, List.take_left] at taken
  rw [← shape, same, ← parts, taken]

theorem header_text_length (filesize : Option Nat) :
    (headerText filesize).length = 1 ∨ (headerText filesize).length = 33 := by
  cases filesize with
  | none => exact Or.inl rfl
  | some filesize =>
      right
      rw [headerText, List.length_append, List.length_append, to_bits_length, to_bits_length,
        to_bits_length]

theorem stream_file_nonempty {window_size : Nat} {bytes : Bytes}
    (file : stream.file window_size = some bytes) : bytes ≠ [] := by
  intro none
  rcases stream_text_bytes file with ⟨text, put, whole⟩
  have least := (frames_ends_with put).bits
  have header := header_text_length stream.filesize
  have count : (text.prepend (headerText stream.filesize)).bits.length =
      (Text.mk [] [0, 0]).bits.length := by
    rw [whole, none]
    rfl
  rw [prepend_bits, List.length_append] at count
  omega

/-- All bytes of a stream that was written are asked for at once: they are written out. -/
theorem stream_decompressed (new : lzx.New window_bits length input output)
    (valid : stream.Valid window_bits length)
    (file : stream.file (1 <<< window_bits) = some input.rest)
    (next : nextFrames (1 <<< window_bits) stream.frames firstCoding = some c')
    (some_ : 0 < length) (room : output.posn + length ≤ output.data.length) :
    ∃ lzx', lzxdDecompress lzx length = .ok (MSPACK_ERR_OK, lzx') ∧
      lzx'.out = output.done ++ outputFrames (headerSize stream.filesize) (1 <<< window_bits)
        stream.frames 0 firstCoding := by
  have before := new.before
  rcases stream_text_bytes file with ⟨text, put, whole⟩
  rw [← whole] at before
  rcases stream_header_before valid.filesize new.follows new.unread before with
    ⟨p, read, sound, before₁⟩
  have in_ := @header_in_text lzx text input output window_bits length stream.filesize p new sound
    before₁
  have small := output.small
  have first : lzx.frame < length / LZX_FRAME_SIZE + 1 := by
    rw [new.frame]
    exact Nat.succ_pos _
  have window := new.window_size
  have length_ := new.length
  rcases @frame_loop_before _ firstCoding c' text ⟨[], [0, 0]⟩ stream.frames length
    (length / LZX_FRAME_SIZE + 1) (length / LZX_FRAME_SIZE + 1) output in_
    (by show lzx.length = lzx.offset + length; rw [new.offset]; omega)
    (by show lzx.length ≠ 0; omega)
    (by show FramesValid lzx.window_size lzx.num_offsets _ _ _
        rw [window, new.num_offsets]
        exact valid.frames)
    (by show putFrames lzx.window_size _ _ _ = _; rw [window]; exact put)
    (by show nextFrames lzx.window_size _ _ = _; rw [window]; exact next)
    (Nat.le_refl _) new.output room (by show _ = lzx.length / _ + 1; rw [length_]) (by omega) with
    ⟨lzx', loop, out⟩
  refine ⟨lzx', (lzxd_decompress_new new some_ (by omega)).trans
    (frame_loop_header new.interval new.follows.plain read in_ rfl first loop), ?_⟩
  have start : lzx.out = output.done := by rw [LzxdStream.out, new.output]
  have index : lzx.frame = 0 := new.frame
  rw [out]
  show lzx.out ++ outputFrames _ lzx.window_size _ lzx.frame _ = _
  rw [start, window, index]

end Streams

end XeBuild.Mspack
