import XeBuild.Lib.ListChunks
import XeBuild.Mspack.WrittenStreams

/-!
# The translated output

The decoder leaves out the translation as long as no block has a code for a call byte
and none is uncompressed. Then there is no call byte to translate, so the output of a
stream is its history with all frames translated, whatever its blocks are.
-/

namespace XeBuild.Mspack

open BitText ListChunks ListRange Runs SlidingWindow WordBits

set_option autoImplicit false

/-! ## Call bytes -/

/-- No call byte has come up. -/
structure Coding.Quiet (c : Coding) : Prop where
  none : c.started = false → callByte ∉ c.past.history
  code : c.started = false → c.block_type ≠ LZX_BLOCKTYPE_UNCOMPRESSED ∧
    c.lens.main.getD callByte.toNat 0 = 0

section Quiet

variable {c c' : Coding} {past past' : Past} {lens : CodeLens} {block_type window_size : Nat}
  {token : Token} {tokens : List Token} {bits : List Bool} {text rest : Text} {segment : Segment}
  {frame : FrameText} {num_offsets bytes_todo : Nat}

/-- A token that has a code brings no call byte, if the call byte has none. -/
theorem token_quiet (unused : lens.main.getD callByte.toNat 0 = 0)
    (given : token.bits block_type lens = some bits)
    (expand : token.expand window_size past = some past') (none : callByte ∉ past.history) :
    callByte ∉ past'.history := by
  rw [Token.bits] at given
  cases token with
  | literal byte =>
      cases expand
      rcases Option.bind_eq_some_iff.mp given with ⟨main, code, _⟩
      intro member
      rcases List.mem_append.mp member with before | last
      · exact none before
      · rw [← List.mem_singleton.mp last] at code
        exact symbol_code_used code unused
  | copy match_length source =>
      rw [Token.expand] at expand
      dsimp only at expand
      split_ifs at expand with inside
      rcases Option.map_eq_some_iff.mp expand with ⟨history', copied, rfl⟩
      exact fun member => none (copy_back_mem copied member)

theorem tokens_quiet (unused : lens.main.getD callByte.toNat 0 = 0)
    (given : tokensBits block_type lens tokens = some bits)
    (expand : expandTokens window_size tokens past = some past')
    (none : callByte ∉ past.history) : callByte ∉ past'.history := by
  induction tokens generalizing past bits with
  | nil =>
      cases expand
      exact none
  | cons token tokens ih =>
      rw [tokensBits] at given
      rcases Option.bind_eq_some_iff.mp given with ⟨front, coded, given⟩
      rcases Option.bind_eq_some_iff.mp given with ⟨back, later, _⟩
      rcases Option.bind_eq_some_iff.mp expand with ⟨middle, first, rest⟩
      exact ih later rest (token_quiet unused coded first none)

/-- A block that has no code for a call byte does not start the translation. -/
theorem open_quiet (quiet : c.Quiet) : (segment.open c).Quiet := by
  rcases segment with ⟨_ | ⟨odd, length, ⟨aligned, trees⟩ | ⟨pad, queue⟩⟩, payload⟩
  · exact quiet
  · have started : (if (blockLens aligned trees c.lens).main.getD 0xE8 0 ≠ 0 then true
        else c.started) = false →
        (blockLens aligned trees c.lens).main.getD 0xE8 0 = 0 ∧ c.started = false := by
      split_ifs with used
      · intro same
        cases same
      · exact fun same => ⟨not_not.mp used, same⟩
    exact ⟨fun same => quiet.none (started same).2,
      fun same => ⟨compressed_not_stored aligned trees, (started same).1⟩⟩
  · exact ⟨nofun, nofun⟩

theorem segment_quiet (quiet : c.Quiet) (valid : segment.Valid num_offsets bytes_todo c)
    (put : segment.put c rest = some text) (next : segment.next window_size c = some c') :
    c'.Quiet := by
  have opened := @open_quiet c segment quiet
  rcases Option.bind_eq_some_iff.mp put with ⟨middle, payload, _⟩
  rcases Option.map_eq_some_iff.mp next with ⟨past', expand, rfl⟩
  refine ⟨fun same => ?_, opened.code⟩
  have code := opened.code same
  have kind := valid.payload
  cases shape : segment.payload with
  | tokens elements =>
      rw [shape] at payload expand
      rcases Option.map_eq_some_iff.mp payload with ⟨bits, given, _⟩
      exact tokens_quiet code.2 given expand (opened.none same)
  | stored bytes =>
      rw [shape] at kind
      exact absurd kind code.1

theorem segments_quiet {segments : List Segment} (quiet : c.Quiet)
    (valid : SegmentsValid window_size num_offsets segments bytes_todo c)
    (put : putSegments window_size segments c rest = some text)
    (next : nextSegments window_size segments c = some c') : c'.Quiet := by
  induction segments generalizing c text bytes_todo with
  | nil =>
      cases next
      exact quiet
  | cons segment segments ih =>
      rcases valid with ⟨_, here, later⟩
      rcases Option.bind_eq_some_iff.mp next with ⟨c₁, first, next⟩
      rcases Option.bind_eq_some_iff.mp put with ⟨c₂, again, put⟩
      rw [first] at again
      cases again
      rcases Option.bind_eq_some_iff.mp put with ⟨middle, behind, put⟩
      exact ih (segment_quiet quiet here put first) (later c₁ first) behind next

end Quiet

/-! ## Frames -/

/-- A frame as it is written out; the translation ends behind 1 GiB. -/
def translatedFrame (operand : Int → Int → Int) (index : Nat) (frame : Bytes) : Bytes :=
  if index ≤ 32768 then mapCalls operand (index * LZX_FRAME_SIZE) frame else frame

def translatedFrames (operand : Int → Int → Int) : Nat → List Bytes → Bytes
  | _, [] => []
  | index, frame :: frames =>
      translatedFrame operand index frame ++ translatedFrames operand (index + 1) frames

/-- The operands of the calls of all frames replaced, if there is a size. -/
def translated (operand : Int → Int → Int → Int) (filesize : Int) (data : Bytes) : Bytes :=
  if filesize = 0 then data else translatedFrames (operand filesize) 0 (chunks LZX_FRAME_SIZE data)

section Frames

variable {c c' : Coding} {filesize curpos : Int} {index place : Nat} {started : Bool}
  {data frame : Bytes} {operand : Int → Int → Int} {frames : List FrameText}
  {window_size num_offsets bytes_todo : Nat} {text rest : Text}

theorem map_calls_none (none : callByte ∉ data) : mapCalls operand curpos data = data := by
  induction curpos, data using mapCalls.induct with
  | case1 curpos b0 b1 b2 b3 rest room ih => exact absurd List.mem_cons_self none
  | case2 curpos byte b0 b1 b2 b3 rest room other ih =>
      rw [mapCalls, if_pos room, if_neg other, ih fun member => none (List.mem_cons_of_mem _ member)]
  | case3 curpos byte b0 b1 b2 b3 rest short => rw [mapCalls, if_neg short]
  | case4 curpos bytes short =>
      rw [mapCalls]
      exact short

theorem output_frame_translated (quiet : started = false → callByte ∉ data) (some_ : filesize ≠ 0) :
    outputFrame filesize (index * LZX_FRAME_SIZE : Nat) index started data =
      translatedFrame (relativeOffset filesize) index data := by
  rw [outputFrame, translatedFrame]
  by_cases early : index ≤ 32768
  · rw [if_pos early]
    split_ifs with asked
    · rw [Nat.cast_mul]
    · cases same : started with
      | false => exact (map_calls_none (quiet same)).symm
      | true =>
          have short : data.length ≤ 10 := by
            by_contra long
            exact asked ⟨same, some_, early, by omega⟩
          exact (map_calls_short short).symm
  · rw [if_neg early, if_neg fun asked => early asked.2.2.1]

theorem output_frame_plain : outputFrame 0 curpos index started data = data :=
  if_neg fun asked => asked.2.1 rfl

/-- The first frame of the data, which is a whole one where more follows. -/
theorem translated_frames_append {more : Bytes} (todo : 0 < bytes_todo)
    (size : data.length = min LZX_FRAME_SIZE bytes_todo)
    (size' : more.length = bytes_todo - min LZX_FRAME_SIZE bytes_todo) :
    translatedFrames operand index (chunks LZX_FRAME_SIZE (data ++ more)) =
      translatedFrame operand index data ++
        translatedFrames operand (index + 1) (chunks LZX_FRAME_SIZE more) := by
  have full : LZX_FRAME_SIZE = 32768 := rfl
  by_cases last : bytes_todo ≤ LZX_FRAME_SIZE
  · have empty : more = [] := List.length_eq_zero_iff.mp (by omega)
    have single : chunks LZX_FRAME_SIZE data = [data] := chunks_single (by omega) (by omega)
    rw [empty, List.append_nil, chunks_nil, single]
    rfl
  · rw [chunks_full (by decide) (by omega)]
    rfl

/-- What is written out for frames is what they append to the history, translated. -/
theorem output_frames_translated (quiet : c.Quiet)
    (valid : FramesValid window_size num_offsets frames bytes_todo c)
    (put : putFrames window_size frames c rest = some text)
    (next : nextFrames window_size frames c = some c')
    (place : 0 < bytes_todo → c.past.history.length = index * LZX_FRAME_SIZE) :
    outputFrames filesize window_size frames index c =
      (if filesize = 0 then c'.past.history.drop c.past.history.length
      else translatedFrames (relativeOffset filesize) index
        (chunks LZX_FRAME_SIZE (c'.past.history.drop c.past.history.length))) ∧
      c.past.Grows c'.past bytes_todo := by
  induction frames generalizing c text bytes_todo index with
  | nil =>
      cases valid
      cases next
      refine ⟨?_, grows_refl _⟩
      rw [List.drop_length, chunks_nil, outputFrames]
      split_ifs <;> rfl
  | cons frame frames ih =>
      rcases valid with ⟨todo, here, later⟩
      rcases Option.bind_eq_some_iff.mp next with ⟨c₁, first, next⟩
      rcases Option.bind_eq_some_iff.mp put with ⟨c₂, again, put⟩
      rw [first] at again
      cases again
      rcases Option.bind_eq_some_iff.mp put with ⟨middle, behind, put⟩
      rcases Option.bind_eq_some_iff.mp put with ⟨aligned, _, segments⟩
      have quiet₁ := segments_quiet quiet here.segments segments first
      have grows := next_segments_grows here.segments first
      have full : LZX_FRAME_SIZE = 32768 := rfl
      have start := place todo
      have place₁ : 0 < bytes_todo - min LZX_FRAME_SIZE bytes_todo →
          c₁.past.history.length = (index + 1) * LZX_FRAME_SIZE := by
        intro more
        rw [grows.length, start, Nat.add_mul, Nat.one_mul, Nat.min_eq_left (by omega)]
      rcases ih quiet₁ (later c₁ first) behind next place₁ with ⟨rest_, grows'⟩
      rcases grows.front with ⟨data, front⟩
      rcases grows'.front with ⟨more, back⟩
      have data_ : c₁.past.history.drop c.past.history.length = data := by
        rw [← front, List.drop_left]
      have more_ : c'.past.history.drop c₁.past.history.length = more := by
        rw [← back, List.drop_left]
      have whole : c'.past.history.drop c.past.history.length = data ++ more := by
        rw [← back, ← front, List.append_assoc, List.drop_left]
      have size : data.length = min LZX_FRAME_SIZE bytes_todo := by
        have length := grows.length
        rw [← front, List.length_append] at length
        omega
      have size' : more.length = bytes_todo - min LZX_FRAME_SIZE bytes_todo := by
        have length := grows'.length
        rw [← back, List.length_append] at length
        omega
      have together := grows_trans grows grows'
      rw [Nat.add_sub_cancel' (Nat.min_le_right _ _)] at together
      refine ⟨?_, together⟩
      rw [outputFrames, first]
      dsimp only
      rw [rest_, data_, more_, whole, start]
      split_ifs with none
      · rw [none, output_frame_plain]
      · have still : c₁.started = false → callByte ∉ data := by
          intro same member
          apply quiet₁.none same
          rw [← front]
          exact List.mem_append_right _ member
        rw [output_frame_translated still none, translated_frames_append todo size size']

end Frames

end XeBuild.Mspack
