import XeBuild.Mspack.StreamRoundTrip

/-!
# One call in pieces

Bytes that one call would give can be asked for in pieces of any sizes, down to
single bytes: every call of the pieces succeeds, and they give the same bytes.
-/

namespace XeBuild.Mspack

open ListRange Runs

set_option autoImplicit false

section Writes

variable {lzx : LzxdStream} {fh : MemFile} {i j : Nat} {first second : Bytes}

theorem put_put (room : fh.posn + (first.length + second.length) ≤ fh.data.length) :
    (fh.put first).put second = fh.put (first ++ second) := by
  have whole : (first ++ second).length = first.length + second.length := List.length_append
  have todo : fh.todo first.length = first.length := todo_all fh first (by omega)
  have todo' : (fh.put first).todo second.length = second.length := by
    apply todo_all
    rw [put_length]
    show fh.posn + fh.todo first.length + second.length ≤ _
    omega
  have todo₂ : fh.todo (first ++ second).length = (first ++ second).length :=
    todo_all fh _ (by rw [whole]; exact room)
  have data : ((fh.put first).put second).data = (fh.put (first ++ second)).data := by
    show patch (patch fh.data fh.posn (first.take (fh.todo first.length)))
      (fh.posn + fh.todo first.length) (second.take ((fh.put first).todo second.length)) =
        patch fh.data fh.posn ((first ++ second).take (fh.todo (first ++ second).length))
    rw [todo, todo', todo₂, List.take_length, List.take_length, List.take_length,
      patch_patch _ _ _ _ fh.inside]
  have posn : ((fh.put first).put second).posn = (fh.put (first ++ second)).posn := by
    show fh.posn + fh.todo first.length + (fh.put first).todo second.length =
      fh.posn + fh.todo (first ++ second).length
    rw [todo, todo', todo₂, whole, Nat.add_assoc]
  generalize (fh.put first).put second = left at data posn
  generalize fh.put (first ++ second) = right at data posn
  cases left
  cases right
  dsimp only at data posn
  subst data
  subst posn
  rfl

theorem put_take_posn {bytes : Bytes} (few : i ≤ bytes.length) (room : fh.posn + i ≤ fh.data.length) :
    (fh.put (bytes.take i)).posn = fh.posn + i := by
  have count : (bytes.take i).length = i := by
    rw [List.length_take]
    exact Nat.min_eq_left few
  show fh.posn + fh.todo (bytes.take i).length = _
  rw [todo_all fh _ (by rw [count]; exact room), count]

theorem wrote_wrote (inside : i + j ≤ lzx.pending.length) (room : fh.posn + (i + j) ≤ fh.data.length) :
    wrote (fh.put (lzx.pending.take i)) j (wrote fh i lzx) = wrote fh (i + j) lzx := by
  have first : (lzx.pending.take i).length = i := by
    rw [List.length_take]
    omega
  have second : ((lzx.pending.drop i).take j).length = j := by
    rw [List.length_take, List.length_drop]
    omega
  have parts : lzx.pending.take (i + j) = lzx.pending.take i ++ (lzx.pending.drop i).take j :=
    List.take_add
  have file : (fh.put (lzx.pending.take i)).put ((lzx.pending.drop i).take j) =
      fh.put (lzx.pending.take (i + j)) := by
    rw [parts]
    apply put_put
    rw [first, second]
    exact room
  show LzxdStream.mk (some ((fh.put (lzx.pending.take i)).put ((lzx.pending.drop i).take j)))
    (lzx.offset + i + j) _ _ _ _ _ _ _ _ _ _ _ _ _ _ _ _ _ _ ((lzx.pending.drop i).drop j) = _
  rw [file, List.drop_drop, Nat.add_assoc]
  rfl

theorem write_pending_room (output : lzx.output = some fh) (inside : i ≤ lzx.pending.length)
    (room : fh.posn + i ≤ fh.data.length) : writePending i lzx = (wrote fh i lzx, true) := by
  rcases @write_pending_result lzx i inside with ⟨lzx', bytes, failed, _, more, _⟩ |
    ⟨fh', output', _, wrote_⟩
  · have count : (lzx.pending.take i).length = i := by
      rw [List.length_take]
      omega
    rw [writePending, output, memWrite] at failed
    dsimp only at failed
    rw [todo_all fh _ (by rw [count]; exact room), count, if_neg (not_not.mpr rfl)] at failed
    cases (Prod.mk.inj failed).2
  · rw [output] at output'
    cases output'
    exact wrote_

end Writes

/-! ## Frames of a call that succeeds -/

structure FrameStep (out_bytes : Nat) (lzx : LzxdStream) (frame_size : Nat) (lzx₁ : LzxdStream)
    (fh : MemFile) (i : Nat) : Prop where
  run : decodeFrame lzx = .ok (frame_size, lzx₁)
  done : FrameDone lzx frame_size lzx₁
  size : WriteSize out_bytes frame_size i
  output : lzx₁.output = some fh
  room : fh.posn + i ≤ fh.data.length

section Loop

variable {lzx lzx' lzx₁ : LzxdStream} {fh : MemFile}
  {i end_frame out_bytes rounds frame_size : Nat}

theorem write_size_eq (size : WriteSize out_bytes frame_size i) :
    (if out_bytes < frame_size then out_bytes else frame_size) = i := by
  have asked := size.asked
  have frame := size.frame
  have whole := size.whole
  split_ifs <;> omega

theorem frame_loop_step (step : FrameStep out_bytes lzx frame_size lzx₁ fh i)
    (more : lzx.frame < end_frame) :
    frameLoop end_frame (rounds + 1) out_bytes lzx =
      frameLoop end_frame rounds (out_bytes - i) (nextFrame frame_size (wrote fh i lzx₁)) := by
  have inside : i ≤ lzx₁.pending.length := by
    rw [step.done.pending]
    exact step.size.frame
  rw [frameLoop, if_pos more, step.run]
  dsimp only
  rw [write_size_eq step.size, write_pending_room step.output inside step.room]

theorem frame_loop_ok (inLoop : lzx.InLoop end_frame out_bytes) (more : lzx.frame < end_frame)
    (run : frameLoop end_frame (rounds + 1) out_bytes lzx = .ok (MSPACK_ERR_OK, lzx')) :
    ∃ frame_size lzx₁ fh i, FrameStep out_bytes lzx frame_size lzx₁ fh i := by
  rw [frameLoop, if_pos more] at run
  rcases safely_decode_frame inLoop.ready.at_ (in_loop_pending inLoop more) with
    ⟨status, bad, failed⟩ | ⟨array, index, left, _⟩ | ⟨⟨frame_size, lzx₁⟩, decoded, done⟩
  · rw [failed] at run
    exact absurd (Prod.mk.inj (Except.ok.inj run)).1 bad
  · rw [left] at run
    cases run
  · rw [decoded] at run
    have size := write_size out_bytes frame_size
    dsimp only at done run
    generalize (if out_bytes < frame_size then out_bytes else frame_size) = i at size run
    rcases @write_pending_result lzx₁ i (by rw [done.pending]; exact size.frame) with
      ⟨stopped, bytes, failed, error, _⟩ | ⟨fh, output, room, _⟩
    · rw [failed] at run
      have status := (Prod.mk.inj (Except.ok.inj run)).1
      rw [error] at status
      exact absurd status (by decide)
    · exact ⟨frame_size, lzx₁, fh, i, decoded, done, size, output, room⟩

theorem loop_past_end (inLoop : lzx.InLoop end_frame out_bytes)
    (past : lzx.offset < lzx.frame * LZX_FRAME_SIZE) (written : lzx.pending = [])
    (some_ : 0 < out_bytes) :
    frameLoop end_frame rounds out_bytes lzx ≠ .ok (MSPACK_ERR_OK, lzx') := by
  have ended (lzx : LzxdStream) : (if out_bytes ≠ 0 then
      .ok (MSPACK_ERR_DECRUNCH, { lzx with error := MSPACK_ERR_DECRUNCH })
      else .ok (MSPACK_ERR_OK, lzx) : Except Stop (Nat × LzxdStream)) ≠ .ok (MSPACK_ERR_OK, lzx') := by
    rw [if_pos (by omega)]
    intro run
    exact absurd (Prod.mk.inj (Except.ok.inj run)).1 (by decide)
  induction rounds generalizing lzx with
  | zero =>
      rw [frameLoop]
      by_cases more : lzx.frame < end_frame
      · rw [if_pos more]
        intro run
        cases run
      · rw [if_neg more]
        exact ended lzx
  | succ rounds ih =>
      intro run
      by_cases more : lzx.frame < end_frame
      · rcases frame_loop_ok inLoop more run with ⟨frame_size, lzx₁, fh, i, step⟩
        rw [frame_loop_step step more] at run
        have empty : frame_size = 0 := by
          rw [step.done.size]
          apply (frame_size_room inLoop.ready.at_ written).2.2.2
          rw [LzxdStream.decoded, written, List.length_nil]
          omega
        have none : i = 0 := by
          have few := step.size.frame
          omega
        have behind := frame_written inLoop.ready written step.done step.size.frame step.output
          step.room
        have inLoop' := in_loop_next inLoop more step.done step.size step.output step.room
        rw [none, Nat.sub_zero] at run inLoop'
        rw [none] at behind
        refine ih inLoop' ?_ ?_ run
        · rw [behind.offset, behind.frame, Nat.add_mul]
          omega
        · show lzx₁.pending.drop 0 = []
          rw [List.drop_zero, ← List.length_eq_zero_iff, step.done.pending]
          exact empty
      · rw [frameLoop, if_neg more] at run
        exact ended lzx run

end Loop

/-! ## The calls of the pieces -/

section Pieces

variable {lzx lzx' middle : LzxdStream} {fh : MemFile}
  {end_frame end_frame' first second rounds out_bytes : Nat}

theorem decompress_eq (ready : lzx.Ready) :
    lzxdDecompress lzx (out_bytes : Nat) = match writeStored out_bytes lzx with
      | (lzx, false) => .ok (lzx.error, lzx)
      | (written, true) => decodeFrames (out_bytes - storedSize out_bytes lzx) written := by
  have asked : ¬ ((out_bytes : Nat) : Int) < 0 := by omega
  rw [lzxdDecompress, if_neg asked, if_neg (fun bad => bad ready.error)]
  rfl

theorem decompress_none (ready : lzx.Ready) :
    lzxdDecompress lzx (0 : Nat) = .ok (MSPACK_ERR_OK, lzx) := by
  have size : storedSize 0 lzx = 0 := by
    rw [storedSize]
    split_ifs <;> omega
  rw [decompress_eq ready, writeStored, size]
  rfl

theorem decompress_stored (ready : lzx.Ready) (some_ : out_bytes ≠ 0)
    (few : out_bytes ≤ lzx.pending.length) (output : lzx.output = some fh)
    (room : fh.posn + out_bytes ≤ fh.data.length) :
    lzxdDecompress lzx (out_bytes : Nat) = .ok (MSPACK_ERR_OK, wrote fh out_bytes lzx) := by
  have size : storedSize out_bytes lzx = out_bytes := by
    rw [storedSize]
    split_ifs <;> omega
  rw [decompress_eq ready, writeStored, size, Nat.sub_self, if_pos some_,
    write_pending_room output few room]
  rfl

theorem decompress_stored_out (ready : lzx.Ready) (few : out_bytes ≤ lzx.pending.length)
    (output : lzx.output = some fh) (room : fh.posn + out_bytes ≤ fh.data.length) :
    ∃ lzx', lzxdDecompress lzx (out_bytes : Nat) = .ok (MSPACK_ERR_OK, lzx') ∧
      lzx'.out = lzx.out ++ lzx.pending.take out_bytes := by
  by_cases none : out_bytes = 0
  · subst none
    refine ⟨lzx, decompress_none ready, ?_⟩
    rw [List.take_zero, List.append_nil]
  · exact ⟨_, decompress_stored ready none few output room,
      (wrote_stored ready few output room).more.out⟩

theorem decompress_behind (ready : lzx.Ready) (some_ : lzx.pending ≠ [])
    (less : lzx.pending.length < out_bytes) (output : lzx.output = some fh)
    (room : fh.posn + lzx.pending.length ≤ fh.data.length) :
    lzxdDecompress lzx (out_bytes : Nat) =
      decodeFrames (out_bytes - lzx.pending.length) (wrote fh lzx.pending.length lzx) := by
  have size : storedSize out_bytes lzx = lzx.pending.length := if_neg (by omega)
  have positive : lzx.pending.length ≠ 0 := by
    rw [ne_eq, List.length_eq_zero_iff]
    exact some_
  rw [decompress_eq ready, writeStored, size, if_pos positive, write_pending_room output (Nat.le_refl _) room]

theorem decompress_frames (ready : lzx.Ready) (written : lzx.pending = []) :
    lzxdDecompress lzx (out_bytes : Nat) = decodeFrames out_bytes lzx := by
  have size : storedSize out_bytes lzx = 0 := by
    rw [storedSize, written]
    exact if_neg (Nat.not_lt_zero _)
  rw [decompress_eq ready, writeStored, size]
  rfl

theorem decode_frames_eq (some_ : 0 < out_bytes) (small : lzx.offset + out_bytes < 0x80000000)
    (last : end_frame = (lzx.offset + out_bytes) / LZX_FRAME_SIZE + 1) :
    decodeFrames out_bytes lzx = frameLoop end_frame (end_frame - lzx.frame) out_bytes lzx := by
  have full : LZX_FRAME_SIZE = 32768 := rfl
  have word : ((lzx.offset + out_bytes) / LZX_FRAME_SIZE + 1) % 0x100000000 = end_frame := by
    rw [last, full]
    omega
  rw [decodeFrames, if_neg (by omega), word]

theorem loop_nothing_more (inLoop : lzx.InLoop end_frame 0) (enough : end_frame ≤ lzx.frame + rounds)
    (run : frameLoop end_frame rounds 0 lzx = .ok (MSPACK_ERR_OK, lzx')) : lzx'.out = lzx.out := by
  have result := frame_loop_result inLoop enough
  rw [run] at result
  cases result with
  | failed _ _ failed => exact absurd rfl failed.bad
  | delivered _ delivered =>
      rcases delivered.bytes with ⟨bytes, more, none⟩
      rw [more.out, List.length_eq_zero_iff.mp none, List.append_nil]

structure Pieces (end_frame end_frame' first second : Nat) (lzx : LzxdStream) : Prop where
  inLoop : lzx.InLoop end_frame (first + second)
  last : end_frame = (lzx.offset + (first + second)) / LZX_FRAME_SIZE + 1
  last' : end_frame' = (lzx.offset + first) / LZX_FRAME_SIZE + 1
  small : lzx.offset + (first + second) < 0x80000000

/-- The frames of the first piece and a call for the second one give what there is to give. -/
def SplitsTo (end_frame' first second : Nat) (lzx lzx' : LzxdStream) : Prop :=
  ∃ middle final,
    frameLoop end_frame' (end_frame' - lzx.frame) first lzx = .ok (MSPACK_ERR_OK, middle) ∧
      lzxdDecompress middle (second : Nat) = .ok (MSPACK_ERR_OK, final) ∧ final.out = lzx'.out

theorem pieces_order (pieces : Pieces end_frame end_frame' first second lzx) :
    end_frame' ≤ end_frame := by
  rw [pieces.last, pieces.last']
  exact Nat.succ_le_succ (Nat.div_le_div_right (by omega))

theorem split_without_frames (pieces : Pieces end_frame end_frame' first second lzx)
    (beyond : ¬ lzx.frame < end_frame)
    (run : frameLoop end_frame 0 (first + second) lzx = .ok (MSPACK_ERR_OK, lzx')) :
    SplitsTo end_frame' first second lzx lzx' := by
  have order := pieces_order pieces
  have ready := pieces.inLoop.ready
  rw [frameLoop, if_neg beyond] at run
  by_cases more : first + second ≠ 0
  · rw [if_pos more] at run
    exact absurd (Prod.mk.inj (Except.ok.inj run)).1 (by decide)
  · rw [if_neg more] at run
    cases run
    have none : first = 0 := by omega
    have none' : second = 0 := by omega
    subst none
    subst none'
    refine ⟨lzx, lzx, ?_, ?_, rfl⟩
    · have spent : end_frame' - lzx.frame = 0 := by omega
      rw [spent, frameLoop, if_neg (by omega)]
      rfl
    · exact decompress_none ready

theorem split_in_front (pieces : Pieces end_frame end_frame' first second lzx)
    (more : lzx.frame < end_frame) (none : ¬ lzx.frame < end_frame')
    (run : frameLoop end_frame (end_frame - lzx.frame) (first + second) lzx =
      .ok (MSPACK_ERR_OK, lzx')) :
    SplitsTo end_frame' first second lzx lzx' := by
  have written := in_loop_pending pieces.inLoop more
  have last := pieces.last
  have last' := pieces.last'
  by_cases empty : first = 0
  · subst empty
    have small := pieces.small
    rw [Nat.zero_add] at run last small
    have spent : end_frame' - lzx.frame = 0 := by omega
    have some_ : 0 < second := by
      by_contra zero
      rw [Nat.eq_zero_of_not_pos zero, ← last'] at last
      omega
    refine ⟨lzx, lzx', ?_, ?_, rfl⟩
    · rw [spent, frameLoop, if_neg none]
      rfl
    · rw [decompress_frames pieces.inLoop.ready written, decode_frames_eq some_ small last]
      exact run
  · have past : lzx.offset < lzx.frame * LZX_FRAME_SIZE := by
      have positive : 0 < LZX_FRAME_SIZE := by decide
      have less : (lzx.offset + first) / LZX_FRAME_SIZE < lzx.frame := by omega
      have inside := (Nat.div_lt_iff_lt_mul positive).mp less
      omega
    exact absurd run (loop_past_end pieces.inLoop past written (by omega))

section Frame

variable {lzx₁ : LzxdStream} {frame_size i : Nat}

theorem pieces_next (pieces : Pieces end_frame end_frame' first second lzx)
    (more : lzx.frame < end_frame)
    (step : FrameStep (first + second) lzx frame_size lzx₁ fh frame_size)
    (all : frame_size ≤ first) :
    Pieces end_frame end_frame' (first - frame_size) second
      (nextFrame frame_size (wrote fh frame_size lzx₁)) := by
  have written := in_loop_pending pieces.inLoop more
  have offset := (frame_written pieces.inLoop.ready written step.done step.size.frame step.output
    step.room).offset
  have small := pieces.small
  have rest : first + second - frame_size = first - frame_size + second := by omega
  refine ⟨?_, ?_, ?_, by omega⟩
  · rw [← rest]
    exact in_loop_next pieces.inLoop more step.done step.size step.output step.room
  · rw [pieces.last, offset]
    congr 2
    omega
  · rw [pieces.last', offset]
    congr 2
    omega

/-- A first piece that ends inside of a frame leaves the rest of the frame stored up. -/
structure LeavesStored (first frame_size : Nat) (fh : MemFile) (lzx₁ : LzxdStream) : Prop where
  pending : (nextFrame frame_size (wrote fh first lzx₁)).pending = lzx₁.pending.drop first
  length : (lzx₁.pending.drop first).length = frame_size - first
  output : (nextFrame frame_size (wrote fh first lzx₁)).output =
    some (fh.put (lzx₁.pending.take first))
  posn : (fh.put (lzx₁.pending.take first)).posn = fh.posn + first
  size : (fh.put (lzx₁.pending.take first)).data.length = fh.data.length

theorem leaves_stored (length : lzx₁.pending.length = frame_size) (part : first < frame_size)
    (room : fh.posn + first ≤ fh.data.length) : LeavesStored first frame_size fh lzx₁ := by
  exact ⟨rfl, by rw [List.length_drop, length], rfl, put_take_posn (by omega) room, put_length fh _⟩

/-- The frames of a first piece that ends inside of the next frame. -/
theorem first_inside (pieces : Pieces end_frame end_frame' first second lzx)
    (more : lzx.frame < end_frame) (more' : lzx.frame < end_frame')
    (step : FrameStep first lzx frame_size lzx₁ fh first) (part : first < frame_size) :
    frameLoop end_frame' (end_frame' - lzx.frame) first lzx =
      .ok (MSPACK_ERR_OK, nextFrame frame_size (wrote fh first lzx₁)) := by
  have written := in_loop_pending pieces.inLoop more
  have behind := frame_written pieces.inLoop.ready written step.done step.size.frame step.output
    step.room
  have beyond := last_frame pieces.inLoop.ready written step.done.size part
  have last' := pieces.last'
  have frame := behind.frame
  have left : end_frame' - lzx.frame = 0 + 1 := by omega
  rw [left, frame_loop_step step more', frameLoop, if_neg (by omega), Nat.sub_self]
  rfl

theorem split_inside (pieces : Pieces end_frame end_frame' first second lzx)
    (more : lzx.frame < end_frame) (more' : lzx.frame < end_frame')
    (step : FrameStep (first + second) lzx frame_size lzx₁ fh (first + second))
    (part : first < frame_size)
    (run : frameLoop end_frame (end_frame - lzx.frame) (first + second) lzx =
      .ok (MSPACK_ERR_OK, lzx')) :
    SplitsTo end_frame' first second lzx lzx' := by
  have ready := pieces.inLoop.ready
  have written := in_loop_pending pieces.inLoop more
  have room := step.room
  have step' : FrameStep first lzx frame_size lzx₁ fh first :=
    ⟨step.run, step.done, ⟨Nat.le_refl _, by omega, Or.inr ⟨rfl, part⟩⟩, step.output, by omega⟩
  have stored := leaves_stored step.done.pending part step'.room
  have behind := frame_written ready written step.done step'.size.frame step.output step'.room
  have behind' := frame_written ready written step.done step.size.frame step.output step.room
  have whole := step.size.frame
  rcases @decompress_stored_out (nextFrame frame_size (wrote fh first lzx₁))
    (fh.put (lzx₁.pending.take first)) second behind.ready
    (by rw [stored.pending, stored.length]; omega) stored.output
    (by rw [stored.posn, stored.size]; omega) with ⟨final, back, out⟩
  refine ⟨_, final, first_inside pieces more more' step' part, back, ?_⟩
  have left : end_frame - lzx.frame = end_frame - (lzx.frame + 1) + 1 := by omega
  have inLoop' := in_loop_next pieces.inLoop more step.done step.size step.output step.room
  have frame := behind'.frame
  rw [left, frame_loop_step step more, Nat.sub_self] at run
  rw [Nat.sub_self] at inLoop'
  rw [loop_nothing_more inLoop' (by omega) run, behind'.more.out, out, behind.more.out,
    stored.pending, List.append_assoc, ← List.take_add]

theorem split_behind (pieces : Pieces end_frame end_frame' first second lzx)
    (more : lzx.frame < end_frame) (more' : lzx.frame < end_frame')
    (step : FrameStep (first + second) lzx frame_size lzx₁ fh frame_size)
    (part : first < frame_size) (past : frame_size < first + second)
    (run : frameLoop end_frame (end_frame - lzx.frame) (first + second) lzx =
      .ok (MSPACK_ERR_OK, lzx')) :
    SplitsTo end_frame' first second lzx lzx' := by
  have ready := pieces.inLoop.ready
  have written := in_loop_pending pieces.inLoop more
  have room := step.room
  have small := pieces.small
  have step' : FrameStep first lzx frame_size lzx₁ fh first :=
    ⟨step.run, step.done, ⟨Nat.le_refl _, by omega, Or.inr ⟨rfl, part⟩⟩, step.output, by omega⟩
  have stored := leaves_stored step.done.pending part step'.room
  have behind := frame_written ready written step.done step'.size.frame step.output step'.room
  have behind' := frame_written ready written step.done step.size.frame step.output step.room
  -- the two writes of the frame are one
  have turned : wrote (fh.put (lzx₁.pending.take first)) (frame_size - first)
      (nextFrame frame_size (wrote fh first lzx₁)) =
        nextFrame frame_size (wrote fh frame_size lzx₁) := by
    have length := step.done.pending
    have parts := @wrote_wrote lzx₁ fh first (frame_size - first) (by omega) (by omega)
    rw [Nat.add_sub_cancel' (Nat.le_of_lt part)] at parts
    rw [← parts]
    rfl
  have back := @decompress_behind (nextFrame frame_size (wrote fh first lzx₁))
    (fh.put (lzx₁.pending.take first)) second behind.ready
    (by rw [stored.pending, ← List.length_pos_iff, stored.length]; omega)
    (by rw [stored.pending, stored.length]; omega) stored.output
    (by rw [stored.posn, stored.size, stored.pending, stored.length]; omega)
  have offset := behind'.offset
  have last : end_frame = ((nextFrame frame_size (wrote fh frame_size lzx₁)).offset +
      (second - (frame_size - first))) / LZX_FRAME_SIZE + 1 := by
    rw [pieces.last, offset]
    congr 2
    omega
  have rest : first + second - frame_size = second - (frame_size - first) := by omega
  have left : end_frame - lzx.frame = end_frame - (lzx.frame + 1) + 1 := by omega
  rw [left, frame_loop_step step more, rest] at run
  rw [stored.pending, stored.length, turned, decode_frames_eq (by omega) (by omega) last,
    behind'.frame] at back
  exact ⟨_, lzx', first_inside pieces more more' step' part, back.trans run, rfl⟩

end Frame

/-- The frames of one call, as the frames of a first piece and a call for the second. -/
theorem frame_loop_split (pieces : Pieces end_frame end_frame' first second lzx)
    (rounds_ : end_frame - lzx.frame = rounds)
    (run : frameLoop end_frame rounds (first + second) lzx = .ok (MSPACK_ERR_OK, lzx')) :
    SplitsTo end_frame' first second lzx lzx' := by
  induction rounds generalizing lzx first with
  | zero => exact split_without_frames pieces (by omega) run
  | succ rounds ih =>
      have more : lzx.frame < end_frame := by omega
      rcases frame_loop_ok pieces.inLoop more run with ⟨frame_size, lzx₁, fh, i, step⟩
      have whole := step.size.whole
      have asked := step.size.asked
      by_cases more' : lzx.frame < end_frame'
      · by_cases all : frame_size ≤ first
        · have same : i = frame_size := by omega
          subst same
          have written := in_loop_pending pieces.inLoop more
          have frame := (frame_written pieces.inLoop.ready written step.done step.size.frame
            step.output step.room).frame
          have rest : first + second - i = first - i + second := by omega
          have left : end_frame' - lzx.frame = end_frame' - (lzx.frame + 1) + 1 := by omega
          have step' : FrameStep first lzx i lzx₁ fh i :=
            ⟨step.run, step.done, ⟨all, Nat.le_refl _, Or.inl rfl⟩, step.output, step.room⟩
          rw [frame_loop_step step more, rest] at run
          rcases ih (pieces_next pieces more step all) (by omega) run with
            ⟨middle, final, front, back, out⟩
          refine ⟨middle, final, ?_, back, out⟩
          rw [left, frame_loop_step step' more', ← frame]
          exact front
        · rw [← rounds_] at run
          rcases whole with same | ⟨same, _⟩
          · subst same
            by_cases past : i < first + second
            · exact split_behind pieces more more' step (by omega) past run
            · have both : first + second = i := by omega
              exact split_inside pieces more more' (by rw [both]; rw [both] at step; exact step)
                (by omega) run
          · subst same
            exact split_inside pieces more more' step (by omega) run
      · rw [← rounds_] at run
        exact split_in_front pieces more more' run

theorem decode_frames_split (ready : lzx.Ready) (written : lzx.pending = []) (some_ : 0 < first)
    (small : lzx.offset + (first + second) < 0x80000000)
    (run : decodeFrames (first + second) lzx = .ok (MSPACK_ERR_OK, lzx')) :
    ∃ middle final, decodeFrames first lzx = .ok (MSPACK_ERR_OK, middle) ∧
      lzxdDecompress middle (second : Nat) = .ok (MSPACK_ERR_OK, final) ∧ final.out = lzx'.out := by
  have pieces : Pieces ((lzx.offset + (first + second)) / LZX_FRAME_SIZE + 1)
      ((lzx.offset + first) / LZX_FRAME_SIZE + 1) first second lzx :=
    ⟨⟨ready, Or.inl written, Nat.le_refl _⟩, rfl, rfl, small⟩
  rw [decode_frames_eq (by omega) small rfl] at run
  rw [decode_frames_eq some_ (by omega) rfl]
  exact frame_loop_split pieces rfl run

theorem stored_room (ready : lzx.Ready) (some_ : storedSize out_bytes lzx ≠ 0)
    (run : lzxdDecompress lzx (out_bytes : Nat) = .ok (MSPACK_ERR_OK, lzx')) :
    ∃ fh, lzx.output = some fh ∧ fh.posn + storedSize out_bytes lzx ≤ fh.data.length := by
  rw [decompress_eq ready, writeStored, if_pos some_] at run
  rcases @write_pending_result lzx (storedSize out_bytes lzx) stored_size_le.2.1 with
    ⟨stopped, bytes, failed, error, _⟩ | ⟨fh, output, room, _⟩
  · rw [failed] at run
    have status := (Prod.mk.inj (Except.ok.inj run)).1
    rw [error] at status
    exact absurd status (by decide)
  · exact ⟨fh, output, room⟩

theorem split_all_stored (ready : lzx.Ready) (some_ : first ≠ 0)
    (all : first + second ≤ lzx.pending.length) (output : lzx.output = some fh)
    (room : fh.posn + (first + second) ≤ fh.data.length) :
    ∃ middle final, lzxdDecompress lzx (first : Nat) = .ok (MSPACK_ERR_OK, middle) ∧
      lzxdDecompress middle (second : Nat) = .ok (MSPACK_ERR_OK, final) ∧
      final.out = (wrote fh (first + second) lzx).out := by
  have front := wrote_stored ready (by omega : first ≤ lzx.pending.length) output (by omega)
  have posn := @put_take_posn fh first lzx.pending (by omega) (by omega)
  rcases @decompress_stored_out (wrote fh first lzx) (fh.put (lzx.pending.take first)) second
    front.ready (by rw [front.pending, List.length_drop]; omega) rfl
    (by rw [posn, put_length]; omega) with ⟨final, back, out⟩
  refine ⟨_, final, decompress_stored ready some_ (by omega) output (by omega), back, ?_⟩
  rw [out, front.more.out, front.pending, List.append_assoc, ← List.take_add]
  exact (wrote_stored ready all output room).more.out.symm

/-- The first piece leaves something stored up, and the second one needs frames. -/
theorem split_part_stored (ready : lzx.Ready) (some_ : first ≠ 0) (part : first < lzx.pending.length)
    (past : lzx.pending.length < first + second) (output : lzx.output = some fh)
    (room : fh.posn + lzx.pending.length ≤ fh.data.length) :
    ∃ middle, lzxdDecompress lzx (first : Nat) = .ok (MSPACK_ERR_OK, middle) ∧
      lzxdDecompress middle (second : Nat) =
        decodeFrames (first + second - lzx.pending.length) (wrote fh lzx.pending.length lzx) := by
  have front := wrote_stored ready (Nat.le_of_lt part) output (by omega)
  have posn := @put_take_posn fh first lzx.pending (Nat.le_of_lt part) (by omega)
  have left : (wrote fh first lzx).pending.length = lzx.pending.length - first := by
    rw [front.pending, List.length_drop]
  have turned := @wrote_wrote lzx fh first (lzx.pending.length - first) (by omega) (by omega)
  have back := @decompress_behind (wrote fh first lzx) (fh.put (lzx.pending.take first)) second
    front.ready (by rw [← List.length_pos_iff, left]; omega) (by rw [left]; omega) rfl
    (by rw [posn, put_length, left]; omega)
  have rest : first + second - lzx.pending.length = second - (lzx.pending.length - first) := by omega
  rw [Nat.add_sub_cancel' (Nat.le_of_lt part)] at turned
  rw [left, turned, ← rest] at back
  exact ⟨_, decompress_stored ready some_ (Nat.le_of_lt part) output (by omega), back⟩

theorem decompress_split (ready : lzx.Ready)
    (run : lzxdDecompress lzx (first + second : Nat) = .ok (MSPACK_ERR_OK, lzx')) :
    ∃ middle final, lzxdDecompress lzx (first : Nat) = .ok (MSPACK_ERR_OK, middle) ∧
      lzxdDecompress middle (second : Nat) = .ok (MSPACK_ERR_OK, final) ∧ final.out = lzx'.out := by
  have small : lzx.offset + (first + second) < 0x80000000 := by
    have result := @lzxd_decompress_result lzx (first + second) ready
    rw [run] at result
    cases result with
    | failed _ _ failed => exact absurd rfl failed.bad
    | delivered _ delivered =>
        rw [← delivered.offset]
        exact delivered.ready.at_.inside.offset
  by_cases none : first = 0
  · subst none
    rw [Nat.zero_add] at run
    exact ⟨lzx, lzx', decompress_none ready, run, rfl⟩
  by_cases written : lzx.pending = []
  · rw [decompress_frames ready written] at run ⊢
    exact decode_frames_split ready written (by omega) small run
  have positive := List.length_pos_iff.mpr written
  have stored : storedSize (first + second) lzx ≠ 0 := by
    rw [storedSize]
    split_ifs <;> omega
  rcases stored_room ready stored run with ⟨fh, output, room⟩
  by_cases all : first + second ≤ lzx.pending.length
  · have size : storedSize (first + second) lzx = first + second := by
      rw [storedSize]
      split_ifs <;> omega
    rw [size] at room
    rw [decompress_stored ready (by omega) all output room] at run
    cases run
    exact split_all_stored ready none all output room
  · have size : storedSize (first + second) lzx = lzx.pending.length := if_neg (by omega)
    rw [size] at room
    have flushed := wrote_stored ready (Nat.le_refl _) output room
    have empty : (wrote fh lzx.pending.length lzx).pending = [] := by
      rw [flushed.pending, List.drop_length]
    have offset := flushed.offset
    have more : lzx.pending.length < first + second := by omega
    rw [decompress_behind ready written more output room] at run
    rcases Nat.lt_trichotomy first lzx.pending.length with part | same | past
    · rcases split_part_stored ready none part (by omega) output room with ⟨middle, front, back⟩
      exact ⟨middle, lzx', front, back.trans run, rfl⟩
    · subst same
      rw [Nat.add_sub_cancel_left] at run
      refine ⟨_, lzx', decompress_stored ready none (Nat.le_refl _) output room, ?_, rfl⟩
      rw [decompress_frames flushed.ready empty]
      exact run
    · have rest : first + second - lzx.pending.length = first - lzx.pending.length + second := by
        omega
      rw [rest] at run
      rw [decompress_behind ready written past output room]
      exact decode_frames_split flushed.ready empty (by omega) (by omega) run

end Pieces

/-- Calls of any sizes give the bytes of one call for all of them, if that call succeeds. -/
theorem split_calls {memory : LzxMemory} {input output : Option MemFile}
    {window_bits reset_interval input_buffer_size output_length : Nat} {is_delta : Bool}
    {lzx lzx' : LzxdStream}
    (made : lzxdInit memory input output window_bits reset_interval input_buffer_size output_length
      is_delta = some lzx) (calls : List Nat)
    (run : lzxdDecompress lzx calls.sum = .ok (MSPACK_ERR_OK, lzx')) :
    ∃ final, runCalls (calls.map Int.ofNat) lzx =
        .ok (List.replicate calls.length MSPACK_ERR_OK, final) ∧ final.out = lzx'.out := by
  have ready := (lzxd_init_ready made).1
  clear made
  induction calls generalizing lzx lzx' with
  | nil =>
      rw [List.sum_nil, decompress_none ready] at run
      cases run
      exact ⟨_, rfl, rfl⟩
  | cons first calls ih =>
      rw [List.sum_cons] at run
      rcases decompress_split ready run with ⟨middle, last, front, back, out⟩
      have ready' : middle.Ready := by
        have result := @lzxd_decompress_result lzx first ready
        rw [front] at result
        cases result with
        | failed _ _ failed => exact absurd rfl failed.bad
        | delivered _ delivered => exact delivered.ready
      rcases ih back ready' with ⟨final, rest, same⟩
      refine ⟨final, ?_, same.trans out⟩
      rw [List.map_cons, runCalls]
      show (lzxdDecompress lzx (first : Nat) >>= _) = _
      rw [front, ok_bind]
      dsimp only
      rw [rest]
      rfl

theorem three_bytes_split :
    ∃ input output lzx final,
      lzxdInit zeroMemory (some input) (some output) 15 0 4096 3 false = some lzx ∧
        runCalls [1, 0, 2] lzx = .ok ([MSPACK_ERR_OK, MSPACK_ERR_OK, MSPACK_ERR_OK], final) ∧
          final.out = [1, 2, 3] := by
  rcases @stored_stream none [1, 2, 3] 15 (fun _ none => by cases none) (by decide) with
    ⟨bytes, encoded, short⟩
  have full : LZX_FRAME_SIZE = 32768 := rfl
  have three : ([1, 2, 3] : Bytes).length = 3 := rfl
  rw [full, three] at short
  let input : MemFile := ⟨bytes, 0, Nat.zero_le _, by omega⟩
  let output : MemFile := ⟨[0, 0, 0], 0, Nat.zero_le _, by decide⟩
  have init : lzxdInit zeroMemory (some input) (some output) 15 0 4096 3 false = some _ := rfl
  have new : LzxdStream.New _ 15 ([1, 2, 3] : Bytes).length input output := lzxd_init_new init
  rcases encoded_stream_output new encoded (by decide) (by decide) with ⟨lzx', run, out⟩
  rcases split_calls init [1, 0, 2] run with ⟨final, pieces, same⟩
  exact ⟨input, output, _, final, init, pieces, same.trans out⟩

end XeBuild.Mspack
