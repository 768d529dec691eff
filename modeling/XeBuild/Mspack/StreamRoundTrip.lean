import XeBuild.Mspack.TranslatedOutput

/-!
# Round trips of streams

What the decoder writes out for a stream is what the blocks stand for, with its calls
translated. An encoder that translates the other way first gets its bytes back, and one
that puts every frame into an uncompressed block can write all bytes.
-/

namespace XeBuild.Mspack

open BitText ListChunks ListRange Runs SlidingWindow WordBits

set_option autoImplicit false

section Output

variable {lzx : LzxdStream} {c' : Coding} {stream : StreamText} {input output : MemFile}
  {window_bits length : Nat}

theorem first_coding_quiet : firstCoding.Quiet := by
  refine ⟨fun _ => List.not_mem_nil, fun _ => ⟨by decide, ?_⟩⟩
  exact replicate_zero_get_d _ _

/-- The output of a stream is its history with all frames translated. -/
theorem stream_output (new : lzx.New window_bits length input output)
    (valid : stream.Valid window_bits length)
    (file : stream.file (1 <<< window_bits) = some input.rest)
    (next : nextFrames (1 <<< window_bits) stream.frames firstCoding = some c')
    (some_ : 0 < length) (room : output.posn + length ≤ output.data.length) :
    c'.past.history.length = length ∧
      ∃ lzx', lzxdDecompress lzx length = .ok (MSPACK_ERR_OK, lzx') ∧
        lzx'.out = output.done ++
          translated relativeOffset (headerSize stream.filesize) c'.past.history := by
  rcases stream_text_bytes file with ⟨text, put, _⟩
  rcases stream_decompressed new valid file next some_ room with ⟨lzx', run, out⟩
  have frames := @output_frames_translated firstCoding c' (headerSize stream.filesize) 0
    stream.frames (1 <<< window_bits) (offsetSymbols window_bits) length text ⟨[], [0, 0]⟩
    first_coding_quiet valid.frames put next (fun _ => (Nat.zero_mul _).symm)
  have grown := frames.2.length
  refine ⟨by rw [grown]; exact Nat.zero_add _, lzx', run, ?_⟩
  rw [out, frames.1]
  rfl

end Output

/-! ## Translation and back -/

section Inverse

variable {operand back : Int → Int → Int} {index : Nat} {data frame : Bytes} {filesize : Int}

theorem translated_frame_length : (translatedFrame operand index frame).length = frame.length := by
  rw [translatedFrame]
  split_ifs
  · exact map_calls_length
  · rfl

theorem translated_frames_length (frames : List Bytes) :
    (translatedFrames operand index frames).length = frames.flatten.length := by
  induction frames generalizing index with
  | nil => rfl
  | cons frame frames ih =>
      rw [translatedFrames, List.length_append, ih, translated_frame_length, List.flatten_cons,
        List.length_append]

theorem translated_length {operand : Int → Int → Int → Int} :
    (translated operand filesize data).length = data.length := by
  rw [translated]
  split_ifs
  · rfl
  · rw [translated_frames_length, chunks_flatten (by decide)]

/-- Frames that are all translated back are those that there were. -/
theorem translated_frames_inverse
    (inverse : ∀ place frame, (place * LZX_FRAME_SIZE + frame.length : Nat) ≤ 0x80000000 →
      mapCalls back (place * LZX_FRAME_SIZE : Nat)
        (mapCalls operand (place * LZX_FRAME_SIZE : Nat) frame) = frame)
    (small : index * LZX_FRAME_SIZE + data.length ≤ 0x80000000) :
    translatedFrames back index (chunks LZX_FRAME_SIZE
      (translatedFrames operand index (chunks LZX_FRAME_SIZE data))) = data := by
  induction data using chunks.induct LZX_FRAME_SIZE generalizing index with
  | case1 data more ih =>
      have full : LZX_FRAME_SIZE = 32768 := rfl
      have one (frame : Bytes) (inside : index * LZX_FRAME_SIZE + frame.length ≤ 0x80000000) :
          translatedFrame back index (translatedFrame operand index frame) = frame := by
        rw [translatedFrame, translatedFrame]
        split_ifs with early
        · exact inverse index frame inside
        · rfl
      rw [chunks_step more.1 more.2]
      by_cases last : data.length ≤ LZX_FRAME_SIZE
      · have single : chunks LZX_FRAME_SIZE (translatedFrame operand index data) =
            [translatedFrame operand index data] := by
          apply chunks_single
          · rw [translated_frame_length]
            exact more.2
          · rw [translated_frame_length]
            exact last
        rw [List.take_of_length_le last, List.drop_of_length_le last, chunks_nil]
        show translatedFrames back index
          (chunks LZX_FRAME_SIZE (translatedFrame operand index data ++ [])) = data
        rw [List.append_nil, single]
        show translatedFrame back index (translatedFrame operand index data) ++ [] = data
        rw [List.append_nil, one data small]
      · have size : (data.take LZX_FRAME_SIZE).length = LZX_FRAME_SIZE := by
          rw [List.length_take]
          omega
        have later : (index + 1) * LZX_FRAME_SIZE + (data.drop LZX_FRAME_SIZE).length ≤
            0x80000000 := by
          rw [List.length_drop, Nat.add_mul, Nat.one_mul]
          omega
        rw [translatedFrames, chunks_full (by decide) (by rw [translated_frame_length]; exact size),
          translatedFrames, one _ (by rw [size]; omega), ih later, List.take_append_drop]
  | case2 data none =>
      have empty : data = [] := List.length_eq_zero_iff.mp (by
        have positive : 0 < LZX_FRAME_SIZE := by decide
        omega)
      rw [empty, chunks_nil]
      show translatedFrames back index (chunks LZX_FRAME_SIZE []) = []
      rw [chunks_nil]
      rfl

theorem relative_absolute_translated (size : 0 ≤ filesize ∧ filesize < 0x80000000)
    (small : data.length ≤ 0x80000000) :
    translated relativeOffset filesize (translated absoluteOffset filesize data) = data := by
  rw [translated, translated]
  split_ifs with none
  · rfl
  · apply translated_frames_inverse
    · intro place frame inside
      exact relative_absolute_calls ⟨size, by omega, by omega⟩
    · rw [Nat.zero_mul, Nat.zero_add]
      exact small

end Inverse

/-- The bytes are a stream, and its blocks stand for these data after their translation. -/
structure StreamText.Encodes (stream : StreamText) (window_bits : Nat) (data bytes : Bytes) :
    Prop where
  size : ∀ value, stream.filesize = some value → value < 0x80000000
  valid : stream.Valid window_bits data.length
  file : stream.file (1 <<< window_bits) = some bytes
  next : ∃ c', nextFrames (1 <<< window_bits) stream.frames firstCoding = some c' ∧
    c'.past.history = translated absoluteOffset (headerSize stream.filesize) data

/-! ## Uncompressed blocks -/

def storedBlock (pad : Nat) (bytes : Bytes) : NewBlock where
  odd := 0
  block_length := bytes.length
  block := .uncompressed (List.replicate pad false) ⟨1, 1, 1⟩

def storedFrame (pad : Nat) (bytes : Bytes) : FrameText where
  segments := [⟨some (storedBlock pad bytes), .stored bytes⟩]
  pad := []

/-- The frames; the first header starts four bits in front of a word. -/
def storedFrames : Nat → List Bytes → List FrameText
  | _, [] => []
  | pad, bytes :: frames => storedFrame pad bytes :: storedFrames 5 frames

def storedStream (filesize : Option Nat) (data : Bytes) : StreamText where
  filesize := filesize
  frames := storedFrames 4
    (chunks LZX_FRAME_SIZE (translated absoluteOffset (headerSize filesize) data))

def storedCoding (c : Coding) (bytes : Bytes) : Coding where
  lens := c.lens
  block_type := LZX_BLOCKTYPE_UNCOMPRESSED
  block_length := bytes.length
  block_remaining := 0
  past := ⟨c.past.history ++ bytes, ⟨1, 1, 1⟩⟩
  started := true

section Stored

variable {c : Coding} {bytes : Bytes} {frames : List Bytes} {rest text : Text}
  {pad window_size num_offsets : Nat}

theorem stored_segment_next : Segment.next window_size ⟨some (storedBlock pad bytes), .stored bytes⟩ c =
    some (storedCoding c bytes) := by
  have ended : bytes.length - bytes.length = 0 := Nat.sub_self _
  rw [storedCoding, ← ended]
  rfl

theorem stored_frame_next :
    nextSegments window_size (storedFrame pad bytes).segments c = some (storedCoding c bytes) := by
  show (Segment.next window_size ⟨some (storedBlock pad bytes), .stored bytes⟩ c).bind some = _
  rw [stored_segment_next]
  rfl

theorem stored_frame_valid (some_ : 0 < bytes.length) (small : bytes.length ≤ LZX_FRAME_SIZE)
    (ended : c.block_remaining = 0) (least : 1 ≤ pad) (most : pad ≤ 16) :
    (storedFrame pad bytes).Valid window_size num_offsets bytes.length c := by
  have full : LZX_FRAME_SIZE = 32768 := rfl
  refine ⟨Nat.zero_lt_succ 15, some_, ⟨?_, ?_, rfl, ?_⟩, ?_⟩
  · exact ⟨fun _ => ended, fun _ => rfl⟩
  · rintro new ⟨⟩
    refine ⟨by show bytes.length < 2 ^ 24; omega, ?_⟩
    show 1 ≤ (List.replicate pad false).length ∧ (List.replicate pad false).length ≤ 16 ∧ _
    rw [List.length_replicate]
    exact ⟨least, most, by decide, by decide, by decide⟩
  · show bytes.length = thisRun bytes.length bytes.length
    rw [thisRun, if_neg (Nat.lt_irrefl _)]
  · intro c' _
    show bytes.length - bytes.length = 0
    exact Nat.sub_self _

/-- A frame is written in front of a word, and its header starts where the one before ends. -/
theorem stored_frame_put (start : rest.partialWord = []) (even : c.block_length % 2 = 0)
    (most : pad ≤ 16) :
    ∃ text, (storedFrame pad bytes).put window_size c rest = some text ∧
      text.partialWord.length = (27 + pad) % 16 ∧
      text.bytes.length ≤ rest.bytes.length + bytes.length + 20 := by
  have aligned : rest.putBytes [] = some rest := by
    rw [Text.putBytes, if_pos start, List.nil_append]
    cases rest
    dsimp only at start
    rw [start]
  have header (block_type block_length : Nat) : (headerBits block_type block_length).length = 27 := by
    rw [headerBits, List.length_append, List.length_append, to_bits_length, to_bits_length,
      to_bits_length]
  have fresh : Text.Started ⟨[], queueText ⟨1, 1, 1⟩ ++ (bytes ++ rest.bytes)⟩ :=
    Nat.zero_lt_succ 15
  have word := @prepend_partial_length (List.replicate pad false) _ fresh
  have size := @prepend_bytes_length (List.replicate pad false) _ fresh
  have started := @prepend_started (List.replicate pad false) _ fresh
  have written : (storedBlock pad bytes).block.put ⟨[], bytes ++ rest.bytes⟩ =
      some (Text.prepend (List.replicate pad false)
        ⟨[], queueText ⟨1, 1, 1⟩ ++ (bytes ++ rest.bytes)⟩) := rfl
  have payload : rest.putBytes bytes = some ⟨[], bytes ++ rest.bytes⟩ := if_pos start
  have twelve : (queueText ⟨1, 1, 1⟩).length = 12 := rfl
  rw [List.length_replicate, List.length_nil, Nat.add_zero] at word
  rw [List.length_replicate, List.length_nil, List.length_append, List.length_append, twelve] at size
  generalize Text.prepend (List.replicate pad false)
    ⟨[], queueText ⟨1, 1, 1⟩ ++ (bytes ++ rest.bytes)⟩ = behind at word size started written
  have word' := @prepend_partial_length (headerBits LZX_BLOCKTYPE_UNCOMPRESSED bytes.length) behind
    started
  have size' := @prepend_bytes_length (headerBits LZX_BLOCKTYPE_UNCOMPRESSED bytes.length) behind
    started
  rw [header] at word' size'
  refine ⟨behind.prepend (headerBits LZX_BLOCKTYPE_UNCOMPRESSED bytes.length), ?_, by omega,
    by omega⟩
  have odd (text : Text) : putOdd c 0 text = some text := if_neg (fun both => by
    have filled := both.2
    omega)
  have block : (storedBlock pad bytes).put c ⟨[], bytes ++ rest.bytes⟩ =
      some (behind.prepend (headerBits LZX_BLOCKTYPE_UNCOMPRESSED bytes.length)) := by
    rw [NewBlock.put, written]
    exact odd _
  rw [FrameText.put, aligned]
  show (Segment.next window_size ⟨some (storedBlock pad bytes), .stored bytes⟩ c >>= fun _ =>
    Segment.put ⟨some (storedBlock pad bytes), .stored bytes⟩ c rest) = _
  rw [stored_segment_next]
  show (rest.putBytes bytes >>= fun rest => (storedBlock pad bytes).put c rest) = _
  rw [payload]
  exact block

structure StoredFrames (window_size num_offsets pad : Nat) (data last : Bytes) (c c' : Coding)
    (text : Text) : Prop where
  put : putFrames window_size (storedFrames pad (chunks LZX_FRAME_SIZE data)) c ⟨[], last⟩ = some text
  next : nextFrames window_size (storedFrames pad (chunks LZX_FRAME_SIZE data)) c = some c'
  history : c'.past.history = c.past.history ++ data
  valid : FramesValid window_size num_offsets (storedFrames pad (chunks LZX_FRAME_SIZE data))
    data.length c
  length : text.partialWord.length = if data = [] then 0 else (27 + pad) % 16
  size : text.bytes.length ≤ last.length + data.length + 20 * (chunks LZX_FRAME_SIZE data).length

theorem stored_frames (last : Bytes) {data : Bytes} (ended : c.block_remaining = 0)
    (even : data ≠ [] → c.block_length % 2 = 0) (least : 1 ≤ pad) (most : pad ≤ 16) :
    ∃ c' text, StoredFrames window_size num_offsets pad data last c c' text := by
  induction data using chunks.induct LZX_FRAME_SIZE generalizing c pad with
  | case1 data more ih =>
      have full : LZX_FRAME_SIZE = 32768 := rfl
      have size : (data.take LZX_FRAME_SIZE).length = min LZX_FRAME_SIZE data.length :=
        List.length_take
      have size' : (data.drop LZX_FRAME_SIZE).length =
          data.length - min LZX_FRAME_SIZE data.length := by
        rw [List.length_drop]
        omega
      have shape : storedFrames pad (chunks LZX_FRAME_SIZE data) =
          storedFrame pad (data.take LZX_FRAME_SIZE) ::
            storedFrames 5 (chunks LZX_FRAME_SIZE (data.drop LZX_FRAME_SIZE)) := by
        rw [chunks_step more.1 more.2]
        rfl
      have some_ : data ≠ [] := List.length_pos_iff.mp more.2
      -- a frame with one behind it is full, so no byte fills it up
      have even' : data.drop LZX_FRAME_SIZE ≠ [] →
          (storedCoding c (data.take LZX_FRAME_SIZE)).block_length % 2 = 0 := by
        intro later
        have positive := List.length_pos_iff.mpr later
        show (data.take LZX_FRAME_SIZE).length % 2 = 0
        omega
      rcases @ih (storedCoding c (data.take LZX_FRAME_SIZE)) 5 rfl even' (by decide) (by decide) with
        ⟨c', middle, behind⟩
      have aligned : middle.partialWord = [] := by
        have word := behind.length
        apply List.length_eq_zero_iff.mp
        split_ifs at word <;> omega
      rcases @stored_frame_put c (data.take LZX_FRAME_SIZE) middle pad window_size aligned
        (even some_) most with ⟨text, put, length, room⟩
      have valid := @stored_frame_valid c (data.take LZX_FRAME_SIZE) pad window_size num_offsets
        (by omega) (by omega) ended least most
      rw [size] at valid
      refine ⟨c', text, ?_, ?_, ?_, ?_, by rw [if_neg some_]; exact length, ?_⟩
      · rw [shape, putFrames, stored_frame_next]
        show (putFrames _ _ _ _ >>= fun rest => _) = _
        rw [behind.put]
        exact put
      · rw [shape, nextFrames, stored_frame_next]
        exact behind.next
      · rw [behind.history]
        show c.past.history ++ data.take _ ++ data.drop _ = _
        rw [List.append_assoc, List.take_append_drop]
      · rw [shape]
        refine ⟨more.2, valid, ?_⟩
        intro c₁ first
        rw [stored_frame_next] at first
        cases first
        rw [← size']
        exact behind.valid
      · have behind_ := behind.size
        rw [chunks_step more.1 more.2, List.length_cons]
        omega
  | case2 data none =>
      have empty : data = [] := List.length_eq_zero_iff.mp (by
        have positive : 0 < LZX_FRAME_SIZE := by decide
        omega)
      rw [empty]
      refine ⟨c, ⟨[], last⟩, ?_, ?_, (List.append_nil _).symm, ?_, rfl, Nat.le_add_right _ _⟩
      all_goals rw [chunks_nil]
      · rfl
      · rfl
      · exact rfl

/-- All bytes can be written as a stream, with at most twenty bytes more for a frame. -/
theorem stored_stream (filesize : Option Nat) {data : Bytes} {window_bits : Nat}
    (size : ∀ value, filesize = some value → value < 0x80000000) (some_ : data ≠ []) :
    ∃ bytes, (storedStream filesize data).Encodes window_bits data bytes ∧
      bytes.length ≤ data.length + 20 * (data.length / LZX_FRAME_SIZE + 1) + 6 := by
  have coded := @translated_length data (headerSize filesize) absoluteOffset
  have filled : translated absoluteOffset (headerSize filesize) data ≠ [] := by
    apply List.length_pos_iff.mp
    rw [coded]
    exact List.length_pos_iff.mpr some_
  rcases @stored_frames firstCoding 4 (1 <<< window_bits) (offsetSymbols window_bits) [0, 0]
    (translated absoluteOffset (headerSize filesize) data) rfl (fun _ => rfl) (by decide) (by decide)
    with ⟨c', text, stored⟩
  have length := stored.length
  rw [if_neg filled] at length
  have started : text.Started := by
    rw [Text.Started, length]
    decide
  have header := header_text_length filesize
  have word := @prepend_partial_length (headerText filesize) text started
  have start : (text.prepend (headerText filesize)).partialWord = [] :=
    List.length_eq_zero_iff.mp (by omega)
  have put : (storedStream filesize data).put (1 <<< window_bits) =
      some ⟨[], [] ++ (text.prepend (headerText filesize)).bytes⟩ := by
    rw [StreamText.put]
    show (putFrames _ (storedFrames 4 _) _ _ >>= fun text => _) = _
    rw [stored.put]
    exact if_pos start
  have valid := stored.valid
  rw [coded] at valid
  have small : ∀ value, filesize = some value → value < 2 ^ 32 := by
    intro value given
    exact Nat.lt_trans (size value given) (by decide)
  refine ⟨_, ⟨size, ⟨small, valid⟩, by rw [StreamText.file, put]; rfl, c', stored.next,
    stored.history⟩, ?_⟩
  have room := stored.size
  have whole := @prepend_bytes_length (headerText filesize) text started
  have count := chunks_length (by decide : 0 < LZX_FRAME_SIZE)
    (translated absoluteOffset (headerSize filesize) data)
  have full : LZX_FRAME_SIZE = 32768 := rfl
  have two : ([0, 0] : Bytes).length = 2 := rfl
  rw [count, coded, two, full] at room
  rw [List.length_take, List.nil_append, full]
  dsimp only
  omega

end Stored

/-! ## Decoding -/

section Decoded

variable {lzx : LzxdStream} {c' : Coding} {stream : StreamText} {memory : LzxMemory}
  {input output : MemFile} {window_bits input_buffer_size length : Nat}

/-- Whatever the blocks of a stream are, their trees, tokens, offsets and bytes: the decoder
writes out what they stand for, with the calls of every frame translated. -/
theorem written_stream_decoded
    (made : lzxdInit memory (some input) (some output) window_bits 0 input_buffer_size length false =
      some lzx)
    (valid : stream.Valid window_bits length)
    (file : stream.file (1 <<< window_bits) = some input.rest)
    (next : nextFrames (1 <<< window_bits) stream.frames firstCoding = some c')
    (some_ : 0 < length) (room : output.posn + length ≤ output.data.length) :
    c'.past.history.length = length ∧
      ∃ lzx', lzxdDecompress lzx length = .ok (MSPACK_ERR_OK, lzx') ∧
        lzx'.out = output.done ++
          translated relativeOffset (headerSize stream.filesize) c'.past.history :=
  stream_output (lzxd_init_new made) valid file next some_ room

theorem three_bytes_decoded :
    ∃ input output lzx lzx',
      lzxdInit zeroMemory (some input) (some output) 15 0 4096 3 false = some lzx ∧
        lzxdDecompress lzx 3 = .ok (MSPACK_ERR_OK, lzx') ∧ lzx'.out = [1, 2, 3] := by
  rcases @stored_stream none [1, 2, 3] 15 (fun _ none => by cases none) (by decide) with
    ⟨bytes, encoded, short⟩
  rcases encoded.next with ⟨c', next, history⟩
  have full : LZX_FRAME_SIZE = 32768 := rfl
  have three : ([1, 2, 3] : Bytes).length = 3 := rfl
  rw [full, three] at short
  let input : MemFile := ⟨bytes, 0, Nat.zero_le _, by omega⟩
  let output : MemFile := ⟨[0, 0, 0], 0, Nat.zero_le _, by decide⟩
  have init : lzxdInit zeroMemory (some input) (some output) 15 0 4096 3 false = some _ := rfl
  rcases written_stream_decoded init encoded.valid encoded.file next (by decide) (by decide) with
    ⟨_, lzx', run, out⟩
  refine ⟨input, output, _, lzx', init, run, ?_⟩
  rw [out, history]
  rfl

theorem header_size_range {filesize : Option Nat}
    (size : ∀ value, filesize = some value → value < 0x80000000) :
    0 ≤ headerSize filesize ∧ headerSize filesize < 0x80000000 := by
  cases filesize with
  | none => decide
  | some value =>
      have small := size value rfl
      show 0 ≤ asInt value ∧ asInt value < 0x80000000
      rw [asInt, if_pos small]
      omega

theorem encoded_stream_output {data : Bytes} (new : lzx.New window_bits data.length input output)
    (encoded : stream.Encodes window_bits data input.rest) (some_ : 0 < data.length)
    (room : output.posn + data.length ≤ output.data.length) :
    ∃ lzx', lzxdDecompress lzx data.length = .ok (MSPACK_ERR_OK, lzx') ∧
      lzx'.out = output.done ++ data := by
  rcases encoded.next with ⟨c', next, history⟩
  rcases stream_output new encoded.valid encoded.file next some_ room with ⟨_, lzx', run, out⟩
  have small := output.small
  refine ⟨lzx', run, ?_⟩
  rw [out, history, relative_absolute_translated (header_size_range encoded.size) (by omega)]

end Decoded

end XeBuild.Mspack
