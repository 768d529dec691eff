import XeBuild.Mspack.FrameSafety

/-!
# Calls of the decoder

`lzxd_init` and any sequence of calls of `lzxd_decompress`. A call that succeeds has
written as many bytes as it was asked for, behind those that were written before; a
stream that has failed keeps its error. No input makes the decoder leave an array,
except for the tables that `LeftTable` names, and no loop of it goes on for ever.
-/

namespace XeBuild.Mspack

open ListRange Runs

set_option autoImplicit false

def LzxdStream.out (lzx : LzxdStream) : Bytes :=
  match lzx.output with
  | none => []
  | some fh => fh.done

def LzxdStream.outPosn (lzx : LzxdStream) : Nat :=
  match lzx.output with
  | none => 0
  | some fh => fh.posn

structure LzxdStream.Ready (lzx : LzxdStream) : Prop where
  at_ : lzx.AtFrame
  error : lzx.error = MSPACK_ERR_OK
  offset : lzx.offset ≤ lzx.outPosn

structure Extends (lzx lzx' : LzxdStream) (bytes : Bytes) : Prop where
  out : lzx'.out = lzx.out ++ bytes
  is_delta : lzx'.is_delta = lzx.is_delta

def wrote (fh : MemFile) (i : Nat) (lzx : LzxdStream) : LzxdStream :=
  { lzx with
    output := some (fh.put (lzx.pending.take i))
    pending := lzx.pending.drop i
    offset := lzx.offset + i }

section Writes

variable {lzx lzx₁ : LzxdStream} {i frame_size : Nat} {fh : MemFile}

theorem write_pending_result (inside : i ≤ lzx.pending.length) :
    (∃ lzx' bytes, writePending i lzx = (lzx', false) ∧ lzx'.error = MSPACK_ERR_WRITE ∧
        Extends lzx lzx' bytes ∧ bytes.length ≤ i) ∨
      ∃ fh, lzx.output = some fh ∧ fh.posn + i ≤ fh.data.length ∧
        writePending i lzx = (wrote fh i lzx, true) := by
  have count : (lzx.pending.take i).length = i := by
    rw [List.length_take]
    omega
  rw [writePending]
  cases output : lzx.output with
  | none =>
      rw [memWrite]
      refine Or.inl ⟨_, [], rfl, rfl, ⟨?_, rfl⟩, Nat.zero_le _⟩
      rw [List.append_nil, LzxdStream.out, LzxdStream.out, output]
  | some fh =>
      rw [memWrite, count]
      dsimp only
      have posn := fh.inside
      split_ifs with short
      · refine Or.inl ⟨_, (lzx.pending.take i).take (fh.todo i), rfl, rfl, ⟨?_, rfl⟩, ?_⟩
        · have put := put_done_take fh (lzx.pending.take i)
          rw [count] at put
          rw [LzxdStream.out, LzxdStream.out, output]
          exact put
        · rw [List.length_take, count]
          exact Nat.min_le_right _ _
      · refine Or.inr ⟨fh, rfl, ?_, rfl⟩
        rw [MemFile.todo] at short
        omega

theorem wrote_out (output : lzx.output = some fh) (room : fh.posn + i ≤ fh.data.length)
    (inside : i ≤ lzx.pending.length) :
    (wrote fh i lzx).out = lzx.out ++ lzx.pending.take i ∧
      (wrote fh i lzx).outPosn = lzx.outPosn + i := by
  have count : (lzx.pending.take i).length = i := by
    rw [List.length_take]
    omega
  have all := todo_all fh (lzx.pending.take i) (by rw [count]; exact room)
  rw [count] at all
  constructor
  · have put := put_done_take fh (lzx.pending.take i)
    rw [count, all, List.take_take, Nat.min_self] at put
    rw [LzxdStream.out, LzxdStream.out, output]
    exact put
  · rw [LzxdStream.outPosn, LzxdStream.outPosn, output]
    show fh.posn + fh.todo (lzx.pending.take i).length = _
    rw [count, all]

theorem out_posn_lt (output : lzx.output = some fh) (room : fh.posn + i ≤ fh.data.length)
    (offset : lzx.offset ≤ lzx.outPosn) : lzx.offset + i < 0x80000000 := by
  have small := fh.small
  rw [LzxdStream.outPosn, output] at offset
  dsimp only at offset
  omega

theorem wrote_at_frame (at_ : lzx.AtFrame) (inside : i ≤ lzx.pending.length)
    (small : lzx.offset + i < 0x80000000) : (wrote fh i lzx).AtFrame := by
  have decoded : (wrote fh i lzx).decoded = lzx.decoded := by
    show lzx.offset + i + (lzx.pending.drop i).length = lzx.offset + lzx.pending.length
    rw [List.length_drop]
    omega
  refine ⟨⟨⟨at_.inside.window, at_.inside.frames, at_.inside.small, at_.inside.trees,
    at_.inside.count, at_.inside.unused, at_.inside.bits, at_.inside.reference, small⟩,
    at_.inside.block⟩, at_.posn, at_.below, decoded.trans at_.decoded, ?_⟩
  rw [decoded]
  exact at_.place

theorem next_at_frame (at_ : lzx.AtFrame) (written : lzx.pending = [])
    (done : FrameDone lzx frame_size lzx₁) (inside : i ≤ frame_size)
    (small : lzx₁.offset + i < 0x80000000) :
    (nextFrame frame_size (wrote fh i lzx₁)).AtFrame := by
  have room := frame_size_room at_ written
  have below := at_.below
  have place := at_.place
  have decoded : (nextFrame frame_size (wrote fh i lzx₁)).decoded = lzx.decoded + frame_size := by
    show lzx₁.offset + i + (lzx₁.pending.drop i).length = lzx.offset + lzx.pending.length + _
    rw [List.length_drop, done.pending, done.offset, written, List.length_nil]
    omega
  have turned : (nextFrame frame_size (wrote fh i lzx₁)).frame_posn =
      if lzx.frame_posn + frame_size = lzx.window_size then 0 else lzx.frame_posn + frame_size := by
    show (if lzx₁.frame_posn + frame_size = lzx₁.window_size then 0
      else lzx₁.frame_posn + frame_size) = _
    rw [done.frame_posn, done.window_size]
  have posn : (nextFrame frame_size (wrote fh i lzx₁)).cursor.window_posn =
      if lzx.frame_posn + frame_size = lzx.window_size then 0 else lzx.frame_posn + frame_size := by
    show (if lzx₁.cursor.window_posn = lzx₁.window_size then 0 else lzx₁.cursor.window_posn) = _
    rw [done.window_posn, done.window_size]
  have size := done.size
  refine ⟨⟨⟨done.inside.window, done.inside.frames, done.inside.small, done.inside.trees,
    done.inside.count, done.inside.unused, done.inside.bits, done.inside.reference, small⟩,
    done.inside.block⟩, posn.trans turned.symm, ?_, ?_, ?_⟩
  · rw [turned]
    show _ < lzx₁.window_size
    rw [done.window_size]
    split_ifs with whole <;> omega
  · rw [decoded]
    show lzx.decoded + frame_size = framesEnd lzx₁.length (lzx₁.frame + 1)
    rw [done.length, done.frame, size]
    exact room.2.2.1
  · rw [decoded, turned]
    show _ = (lzx₁.frame + 1) * LZX_FRAME_SIZE → _ = _ % lzx₁.window_size
    rw [done.frame, done.window_size]
    intro whole
    have parts : (lzx.frame + 1) * LZX_FRAME_SIZE = lzx.frame * LZX_FRAME_SIZE + LZX_FRAME_SIZE := by
      rw [Nat.add_mul, Nat.one_mul]
    have positive : 0 < LZX_FRAME_SIZE := by decide
    have full : lzx.decoded = lzx.frame * LZX_FRAME_SIZE := by
      by_contra other
      have none := room.2.2.2 other
      have least := at_.decoded
      rw [framesEnd] at least
      split_ifs at least <;> omega
    have start := place full
    rw [Nat.add_mod, ← start]
    split_ifs with end_
    · by_cases whole' : frame_size = lzx.window_size
      · have first : lzx.frame_posn = 0 := by omega
        rw [first, whole', Nat.mod_self, Nat.add_zero, Nat.zero_mod]
      · rw [Nat.mod_eq_of_lt (by omega : frame_size < lzx.window_size), end_, Nat.mod_self]
    · rw [Nat.mod_eq_of_lt (by omega : frame_size < lzx.window_size), Nat.mod_eq_of_lt (by omega)]

end Writes

/-! ## One call -/

structure Delivered (out_bytes : Nat) (lzx lzx' : LzxdStream) : Prop where
  ready : lzx'.Ready
  offset : lzx'.offset = lzx.offset + out_bytes
  bytes : ∃ bytes, Extends lzx lzx' bytes ∧ bytes.length = out_bytes

/-- A call that fails leaves its status, and no more bytes than it was asked for. -/
structure Failed (out_bytes status : Nat) (lzx lzx' : LzxdStream) : Prop where
  bad : status ≠ MSPACK_ERR_OK
  error : lzx'.error = status
  bytes : ∃ bytes, Extends lzx lzx' bytes ∧ bytes.length ≤ out_bytes

inductive CallResult (out_bytes : Nat) (lzx : LzxdStream) : Except Stop (Nat × LzxdStream) → Prop
  | left (array : LzxArray) (index : Nat) (table : LeftTable lzx.is_delta array) :
      CallResult out_bytes lzx (.error (.outside array index))
  | failed (status : Nat) (lzx' : LzxdStream) (failed : Failed out_bytes status lzx lzx') :
      CallResult out_bytes lzx (.ok (status, lzx'))
  | delivered (lzx' : LzxdStream) (delivered : Delivered out_bytes lzx lzx') :
      CallResult out_bytes lzx (.ok (MSPACK_ERR_OK, lzx'))

section Calls

variable {lzx middle : LzxdStream} {end_frame rounds out_bytes i : Nat} {bytes : Bytes}
  {result : Except Stop (Nat × LzxdStream)}

theorem extends_refl (lzx : LzxdStream) : Extends lzx lzx [] := ⟨(List.append_nil _).symm, rfl⟩

theorem extends_trans {lzx' : LzxdStream} {more : Bytes} (first : Extends lzx middle bytes)
    (second : Extends middle lzx' more) : Extends lzx lzx' (bytes ++ more) :=
  ⟨by rw [second.out, first.out, List.append_assoc], second.is_delta.trans first.is_delta⟩

theorem call_result_before (first : Extends lzx middle bytes)
    (offset : middle.offset = lzx.offset + bytes.length) (few : bytes.length ≤ out_bytes)
    (rest : CallResult (out_bytes - bytes.length) middle result) :
    CallResult out_bytes lzx result := by
  cases rest with
  | left array index table =>
      rw [first.is_delta] at table
      exact .left array index table
  | failed status lzx' failed =>
      rcases failed.bytes with ⟨more, second, size⟩
      refine .failed status lzx' ⟨failed.bad, failed.error, bytes ++ more,
        extends_trans first second, ?_⟩
      rw [List.length_append]
      omega
  | delivered lzx' delivered =>
      rcases delivered.bytes with ⟨more, second, size⟩
      refine .delivered lzx' ⟨delivered.ready, ?_, bytes ++ more, extends_trans first second, ?_⟩
      · rw [delivered.offset, offset]
        omega
      · rw [List.length_append]
        omega

theorem frames_ended (ready : lzx.Ready) : CallResult out_bytes lzx (if out_bytes ≠ 0 then
    .ok (MSPACK_ERR_DECRUNCH, { lzx with error := MSPACK_ERR_DECRUNCH })
    else .ok (MSPACK_ERR_OK, lzx)) := by
  split_ifs with left
  · exact .failed _ _ ⟨by decide, rfl, [], ⟨(List.append_nil _).symm, rfl⟩, Nat.zero_le _⟩
  · refine .delivered lzx ⟨ready, by omega, [], extends_refl lzx, ?_⟩
    rw [List.length_nil]
    omega

theorem last_frame {frame_size : Nat} (ready : lzx.Ready) (written : lzx.pending = [])
    (size : frame_size = frameSize lzx) (part : out_bytes < frame_size) :
    (lzx.offset + out_bytes) / LZX_FRAME_SIZE ≤ lzx.frame := by
  have room := frame_size_room ready.at_ written
  have full : lzx.decoded = lzx.frame * LZX_FRAME_SIZE := by
    by_contra other
    have none := room.2.2.2 other
    omega
  rw [LzxdStream.decoded, written, List.length_nil, Nat.add_zero] at full
  rw [full]
  apply Nat.le_of_lt_succ
  rw [Nat.div_lt_iff_lt_mul (by decide), Nat.succ_mul]
  omega

structure FrameWritten (i : Nat) (lzx lzx₁ lzx' : LzxdStream) : Prop where
  ready : lzx'.Ready
  more : Extends lzx lzx' (lzx₁.pending.take i)
  offset : lzx'.offset = lzx.offset + i
  frame : lzx'.frame = lzx.frame + 1

theorem frame_written {fh : MemFile} {frame_size : Nat} {lzx₁ : LzxdStream} (ready : lzx.Ready)
    (written : lzx.pending = []) (done : FrameDone lzx frame_size lzx₁) (few : i ≤ frame_size)
    (output : lzx₁.output = some fh) (room : fh.posn + i ≤ fh.data.length) :
    FrameWritten i lzx lzx₁ (nextFrame frame_size (wrote fh i lzx₁)) := by
  have inside : i ≤ lzx₁.pending.length := by
    rw [done.pending]
    exact few
  have grown := wrote_out output room inside
  have offset : lzx₁.offset ≤ lzx₁.outPosn := by
    rw [LzxdStream.outPosn, done.offset, done.output]
    exact ready.offset
  have small := out_posn_lt output room offset
  refine ⟨⟨next_at_frame ready.at_ written done few small, ?_, ?_⟩, ⟨?_, done.is_delta⟩, ?_, ?_⟩
  · show lzx₁.error = _
    rw [done.error]
    exact ready.error
  · show lzx₁.offset + i ≤ (wrote fh i lzx₁).outPosn
    rw [grown.2]
    omega
  · show (wrote fh i lzx₁).out = _
    rw [grown.1, LzxdStream.out, LzxdStream.out, done.output]
  · show lzx₁.offset + i = _
    rw [done.offset]
  · show lzx₁.frame + 1 = _
    rw [done.frame]

/-- A call in front of its next frame: only the last frame may stay in part. -/
structure LzxdStream.InLoop (end_frame out_bytes : Nat) (lzx : LzxdStream) : Prop where
  ready : lzx.Ready
  waits : lzx.pending = [] ∨ end_frame ≤ lzx.frame
  last : end_frame ≤ (lzx.offset + out_bytes) / LZX_FRAME_SIZE + 1

structure WriteSize (out_bytes frame_size i : Nat) : Prop where
  asked : i ≤ out_bytes
  frame : i ≤ frame_size
  whole : i = frame_size ∨ i = out_bytes ∧ out_bytes < frame_size

theorem write_size (out_bytes frame_size : Nat) :
    WriteSize out_bytes frame_size (if out_bytes < frame_size then out_bytes else frame_size) := by
  constructor <;> split_ifs <;> omega

theorem in_loop_pending (inLoop : lzx.InLoop end_frame out_bytes) (more : lzx.frame < end_frame) :
    lzx.pending = [] := by
  rcases inLoop.waits with written | beyond
  · exact written
  · omega

theorem in_loop_next {fh : MemFile} {frame_size : Nat} {lzx₁ : LzxdStream}
    (inLoop : lzx.InLoop end_frame out_bytes) (more : lzx.frame < end_frame)
    (done : FrameDone lzx frame_size lzx₁) (size : WriteSize out_bytes frame_size i)
    (output : lzx₁.output = some fh) (room : fh.posn + i ≤ fh.data.length) :
    (nextFrame frame_size (wrote fh i lzx₁)).InLoop end_frame (out_bytes - i) := by
  have written := in_loop_pending inLoop more
  have behind := frame_written inLoop.ready written done size.frame output room
  have few := size.asked
  have last := inLoop.last
  have sum : (nextFrame frame_size (wrote fh i lzx₁)).offset + (out_bytes - i) =
      lzx.offset + out_bytes := by
    rw [behind.offset]
    omega
  refine ⟨behind.ready, ?_, by rw [sum]; exact last⟩
  rcases size.whole with whole | ⟨_, part⟩
  · left
    apply List.drop_of_length_le
    rw [done.pending, whole]
  · right
    have beyond := last_frame inLoop.ready written done.size part
    rw [behind.frame]
    omega

theorem frame_loop_result (inLoop : lzx.InLoop end_frame out_bytes)
    (enough : end_frame ≤ lzx.frame + rounds) :
    CallResult out_bytes lzx (frameLoop end_frame rounds out_bytes lzx) := by
  induction rounds generalizing lzx out_bytes with
  | zero =>
      rw [frameLoop, if_neg (by omega)]
      exact frames_ended inLoop.ready
  | succ rounds ih =>
      rw [frameLoop]
      by_cases more : lzx.frame < end_frame
      · rw [if_pos more]
        have written := in_loop_pending inLoop more
        rcases safely_decode_frame inLoop.ready.at_ written with ⟨status, bad, failed⟩ |
          ⟨array, index, left, table⟩ | ⟨⟨frame_size, lzx₁⟩, run, done⟩
        · rw [failed]
          exact .failed _ _ ⟨bad, rfl, [], ⟨(List.append_nil _).symm, rfl⟩, Nat.zero_le _⟩
        · rw [left]
          exact .left array index table
        · rw [run]
          dsimp only at done ⊢
          have size := write_size out_bytes frame_size
          generalize (if out_bytes < frame_size then out_bytes else frame_size) = i at size ⊢
          have asked := size.asked
          have same : Extends lzx lzx₁ [] := by
            refine ⟨?_, done.is_delta⟩
            rw [LzxdStream.out, LzxdStream.out, done.output, List.append_nil]
          rcases @write_pending_result lzx₁ i (by rw [done.pending]; exact size.frame) with
            ⟨lzx', bytes, failed, error, more, short⟩ | ⟨fh, output, room, wrote_⟩
          · rw [failed]
            refine .failed _ _ ⟨by rw [error]; decide, rfl, bytes, ?_, by omega⟩
            exact extends_trans same more
          · rw [wrote_]
            have count : (lzx₁.pending.take i).length = i := by
              rw [List.length_take, done.pending]
              exact Nat.min_eq_left size.frame
            have behind := frame_written inLoop.ready written done size.frame output room
            have frames := behind.frame
            apply call_result_before behind.more (by rw [count]; exact behind.offset)
              (by rw [count]; exact asked)
            rw [count]
            exact ih (in_loop_next inLoop more done size output room) (by omega)
      · rw [if_neg more]
        exact frames_ended inLoop.ready

structure StoredWritten (i : Nat) (lzx lzx' : LzxdStream) : Prop where
  ready : lzx'.Ready
  more : Extends lzx lzx' (lzx.pending.take i)
  offset : lzx'.offset = lzx.offset + i
  pending : lzx'.pending = lzx.pending.drop i

theorem stored_size_le : storedSize out_bytes lzx ≤ out_bytes ∧
    storedSize out_bytes lzx ≤ lzx.pending.length ∧
    (storedSize out_bytes lzx = lzx.pending.length ∨ storedSize out_bytes lzx = out_bytes) := by
  rw [storedSize]
  split_ifs <;> omega

theorem wrote_stored {fh : MemFile} (ready : lzx.Ready) (few : i ≤ lzx.pending.length)
    (output : lzx.output = some fh) (room : fh.posn + i ≤ fh.data.length) :
    StoredWritten i lzx (wrote fh i lzx) := by
  have grown := wrote_out output room few
  have small := out_posn_lt output room ready.offset
  have offset := ready.offset
  refine ⟨⟨wrote_at_frame ready.at_ few small, ready.error, ?_⟩, ⟨grown.1, rfl⟩, rfl, rfl⟩
  show lzx.offset + i ≤ _
  rw [grown.2]
  omega

theorem nothing_stored (ready : lzx.Ready) : StoredWritten 0 lzx lzx :=
  ⟨ready, extends_refl lzx, rfl, rfl⟩

/-- The stored-up bytes that are asked for are written, or the write fails. -/
theorem write_stored_result (ready : lzx.Ready) :
    (∃ lzx' bytes, writeStored out_bytes lzx = (lzx', false) ∧ lzx'.error = MSPACK_ERR_WRITE ∧
        Extends lzx lzx' bytes ∧ bytes.length ≤ out_bytes) ∨
      ∃ lzx', writeStored out_bytes lzx = (lzx', true) ∧
        StoredWritten (storedSize out_bytes lzx) lzx lzx' := by
  have bounds := @stored_size_le lzx out_bytes
  rw [writeStored]
  split_ifs with some_
  · rcases @write_pending_result lzx (storedSize out_bytes lzx) bounds.2.1 with
      ⟨lzx', bytes, failed, error, more, size⟩ | ⟨fh, output, room, wrote_⟩
    · exact Or.inl ⟨lzx', bytes, failed, error, more, by omega⟩
    · exact Or.inr ⟨_, wrote_, wrote_stored ready bounds.2.1 output room⟩
  · rw [not_not.mp some_]
    exact Or.inr ⟨lzx, rfl, nothing_stored ready⟩

/-- Behind the stored-up bytes a call is in front of a frame, unless it is done. -/
theorem stored_in_loop {middle : LzxdStream}
    (stored : StoredWritten (storedSize out_bytes lzx) lzx middle)
    (more : out_bytes - storedSize out_bytes lzx ≠ 0) :
    middle.InLoop (((middle.offset + (out_bytes - storedSize out_bytes lzx)) / LZX_FRAME_SIZE + 1) %
      0x100000000) (out_bytes - storedSize out_bytes lzx) := by
  have bounds := @stored_size_le lzx out_bytes
  refine ⟨stored.ready, Or.inl ?_, Nat.mod_le _ _⟩
  rw [stored.pending]
  apply List.drop_of_length_le
  omega

theorem lzxd_decompress_result (ready : lzx.Ready) :
    CallResult out_bytes lzx (lzxdDecompress lzx out_bytes) := by
  have asked : ¬ (out_bytes : Int) < 0 := by omega
  have bounds := @stored_size_le lzx out_bytes
  rw [lzxdDecompress, if_neg asked, if_neg (fun bad => bad ready.error), Int.toNat_natCast]
  rcases @write_stored_result lzx out_bytes ready with ⟨lzx', bytes, failed, error, more, size⟩ |
    ⟨middle, run, stored⟩
  · rw [failed]
    exact .failed _ _ ⟨by rw [error]; decide, rfl, bytes, more, size⟩
  · have count : (lzx.pending.take (storedSize out_bytes lzx)).length = storedSize out_bytes lzx := by
      rw [List.length_take]
      exact Nat.min_eq_left bounds.2.1
    rw [run]
    dsimp only
    apply call_result_before stored.more (by rw [count]; exact stored.offset)
      (by rw [count]; exact bounds.1)
    rw [count, decodeFrames]
    split_ifs with none
    · rw [none]
      exact .delivered middle ⟨stored.ready, rfl, [], extends_refl middle, rfl⟩
    · exact frame_loop_result (stored_in_loop stored none) (by omega)

theorem lzxd_decompress_failed (bad : lzx.error ≠ MSPACK_ERR_OK) :
    lzxdDecompress lzx out_bytes = .ok (lzx.error, lzx) := by
  have asked : ¬ (out_bytes : Int) < 0 := by omega
  rw [lzxdDecompress, if_neg asked, if_pos bad]

end Calls

/-! ## Runs of calls -/

def runCalls : List Int → LzxdStream → Except Stop (List Nat × LzxdStream)
  | [], lzx => .ok ([], lzx)
  | out_bytes :: rest, lzx => do
      let (status, lzx) ← lzxdDecompress lzx out_bytes
      let (statuses, lzx) ← runCalls rest lzx
      return (status :: statuses, lzx)

def deliveredBytes : List Int → List Nat → Nat
  | out_bytes :: calls, status :: statuses =>
      (if status = MSPACK_ERR_OK then out_bytes.toNat else 0) + deliveredBytes calls statuses
  | _, _ => 0

def askedBytes (calls : List Int) : Nat := (calls.map Int.toNat).sum

/-- What comes of some calls: all of them are answered, and the output has the bytes of
those that succeed. -/
structure CallsDone (calls : List Int) (lzx : LzxdStream) (statuses : List Nat) (lzx' : LzxdStream) :
    Prop where
  answered : statuses.length = calls.length
  usable : lzx'.Ready ∨ lzx'.error ≠ MSPACK_ERR_OK
  bytes : ∃ bytes, Extends lzx lzx' bytes ∧ deliveredBytes calls statuses ≤ bytes.length ∧
    bytes.length ≤ askedBytes calls

section Runs

variable {lzx : LzxdStream} {calls : List Int}

theorem one_call_result (usable : lzx.Ready ∨ lzx.error ≠ MSPACK_ERR_OK) (out_bytes : Int) :
    (∃ array index, lzxdDecompress lzx out_bytes = .error (.outside array index) ∧
        LeftTable lzx.is_delta array) ∨
      ∃ status lzx', lzxdDecompress lzx out_bytes = .ok (status, lzx') ∧
        (lzx'.Ready ∨ lzx'.error ≠ MSPACK_ERR_OK) ∧
        ∃ bytes, Extends lzx lzx' bytes ∧
          (if status = MSPACK_ERR_OK then out_bytes.toNat else 0) ≤ bytes.length ∧
          bytes.length ≤ out_bytes.toNat := by
  by_cases negative : out_bytes < 0
  · refine Or.inr ⟨MSPACK_ERR_ARGS, lzx, ?_, usable, [], extends_refl lzx, Nat.zero_le _,
      Nat.zero_le _⟩
    rw [lzxdDecompress, if_pos negative]
  · have whole : ((out_bytes.toNat : Nat) : Int) = out_bytes := Int.toNat_of_nonneg (by omega)
    rcases usable with ready | bad
    · have result := @lzxd_decompress_result lzx out_bytes.toNat ready
      rw [whole] at result
      generalize lzxdDecompress lzx out_bytes = made at result ⊢
      cases result with
      | left array index table => exact Or.inl ⟨array, index, rfl, table⟩
      | failed status lzx' failed =>
          rcases failed.bytes with ⟨bytes, more, size⟩
          refine Or.inr ⟨status, lzx', rfl, Or.inr ?_, bytes, more, ?_, size⟩
          · rw [failed.error]
            exact failed.bad
          · rw [if_neg failed.bad]
            exact Nat.zero_le _
      | delivered lzx' delivered =>
          rcases delivered.bytes with ⟨bytes, more, size⟩
          exact Or.inr ⟨_, lzx', rfl, Or.inl delivered.ready, bytes, more,
            by rw [if_pos rfl, size], Nat.le_of_eq size⟩
    · have same := @lzxd_decompress_failed lzx out_bytes.toNat bad
      rw [whole] at same
      refine Or.inr ⟨lzx.error, lzx, same, Or.inr bad, [], extends_refl lzx, ?_, Nat.zero_le _⟩
      rw [if_neg bad]
      exact Nat.zero_le _

theorem run_calls_result (usable : lzx.Ready ∨ lzx.error ≠ MSPACK_ERR_OK) :
    (∃ array index, runCalls calls lzx = .error (.outside array index) ∧
        LeftTable lzx.is_delta array) ∨
      ∃ statuses lzx', runCalls calls lzx = .ok (statuses, lzx') ∧
        CallsDone calls lzx statuses lzx' := by
  induction calls generalizing lzx with
  | nil =>
      exact Or.inr ⟨[], lzx, rfl, rfl, usable, [], extends_refl lzx, Nat.zero_le _, Nat.zero_le _⟩
  | cons out_bytes calls ih =>
      rw [runCalls]
      rcases one_call_result usable out_bytes with ⟨array, index, left, table⟩ |
        ⟨status, middle, run, usable₁, bytes, first, least, most⟩
      · rw [left]
        exact Or.inl ⟨array, index, rfl, table⟩
      · rw [run, ok_bind]
        dsimp only
        rcases ih usable₁ with ⟨array, index, left, table⟩ | ⟨statuses, lzx', rest, done⟩
        · rw [left]
          rw [first.is_delta] at table
          exact Or.inl ⟨array, index, rfl, table⟩
        · rw [rest]
          rcases done.bytes with ⟨more, second, least', most'⟩
          refine Or.inr ⟨_, lzx', rfl, ?_, done.usable, bytes ++ more, extends_trans first second,
            ?_, ?_⟩
          · rw [List.length_cons, List.length_cons, done.answered]
          · show (if status = MSPACK_ERR_OK then out_bytes.toNat else 0) +
              deliveredBytes calls statuses ≤ _
            rw [List.length_append]
            omega
          · rw [askedBytes] at most' ⊢
            rw [List.map_cons, List.sum_cons, List.length_append]
            omega

end Runs

/-! ## New streams -/

section Init

variable {memory : LzxMemory} {input output : Option MemFile}
  {window_bits reset_interval input_buffer_size output_length : Nat} {is_delta : Bool}
  {lzx : LzxdStream}

theorem offset_count (least : 15 ≤ window_bits) (most : window_bits ≤ lastWindowBits is_delta) :
    OffsetCount is_delta (positionSlots.getD (window_bits - 15) 0 <<< 3) := by
  have all : ∀ window_bits ∈ List.range' 15 11,
      positionSlots.getD (window_bits - 15) 0 <<< 3 ≤ 290 * 8 ∧
        (window_bits ≤ 21 → positionSlots.getD (window_bits - 15) 0 <<< 3 ≤ 50 * 8) := by
    decide
  have listed : window_bits ∈ List.range' 15 11 := by
    rw [lastWindowBits] at most
    rw [List.mem_range'_1]
    split_ifs at most <;> omega
  refine ⟨(all _ listed).1, ?_⟩
  intro plain
  rw [plain] at most
  exact (all _ listed).2 most

theorem lzxd_init_cases
    (made : lzxdInit memory input output window_bits reset_interval input_buffer_size output_length
      is_delta = some lzx) :
    15 ≤ window_bits ∧ window_bits ≤ lastWindowBits is_delta ∧
      ∃ trees window inbuf_size, LzxTrees.Sized trees ∧ window.length = 1 <<< window_bits ∧
        2 ≤ inbuf_size ∧ lzx = lzxdResetState (newStream trees window input output window_bits
          reset_interval inbuf_size output_length is_delta) := by
  rw [lzxdInit] at made
  split_ifs at made with range buffer
  have size : 2 ≤ (input_buffer_size + 1) / 2 * 2 := by
    have some_ : (input_buffer_size + 1) / 2 * 2 ≠ 0 := buffer
    omega
  refine ⟨by omega, by omega, ?_⟩
  generalize (input_buffer_size + 1) / 2 * 2 = inbuf_size at made size
  cases stream : memory.stream with
  | none =>
      rw [stream] at made
      cases made
  | some trees =>
      cases window : memory.window (1 <<< window_bits) with
      | none =>
          rw [stream, window] at made
          cases made
      | some bytes =>
          cases inbuf : memory.inbuf inbuf_size with
          | false =>
              rw [stream, window, inbuf] at made
              cases made
          | true =>
              rw [stream, window, inbuf] at made
              cases made
              exact ⟨trees.val, bytes.val, inbuf_size, trees.property, bytes.property, size, rfl⟩

theorem lzxd_init_ready
    (made : lzxdInit memory input output window_bits reset_interval input_buffer_size output_length
      is_delta = some lzx) :
    lzx.Ready ∧ lzx.is_delta = is_delta ∧ lzx.output = output := by
  rcases lzxd_init_cases made with
    ⟨least, most, trees, window, inbuf_size, sized, length, size, rfl⟩
  have last : lastWindowBits is_delta ≤ 25 := by
    rw [lastWindowBits]
    split_ifs <;> decide
  have shape : 1 <<< window_bits = LZX_FRAME_SIZE * 2 ^ (window_bits - 15) := by
    have frame : LZX_FRAME_SIZE = 2 ^ 15 := rfl
    rw [Nat.one_shiftLeft, frame, ← Nat.pow_add, Nat.add_sub_cancel' least]
  have small : 1 <<< window_bits ≤ 2 ^ 25 := by
    rw [Nat.one_shiftLeft]
    exact Nat.pow_le_pow_right (by decide) (by omega)
  have positive : 0 < 1 <<< window_bits := by
    rw [Nat.one_shiftLeft]
    exact Nat.two_pow_pos _
  have sound : BitReader.Sound ⟨input, inbuf_size, [], false, 0, 0⟩ :=
    (@held_of_buffer ⟨input, inbuf_size, [], false, 0, 0⟩ 0 (Nat.zero_le _) (Nat.zero_mul _).symm
      (Nat.two_pow_pos _) size).1
  have arrays : (lzxdResetState (newStream trees window input output window_bits reset_interval
      inbuf_size output_length is_delta)).Arrays := by
    refine ⟨length, ⟨_, shape⟩, small, ⟨sized.pretree, clear_lens_sized sized.maintree,
      clear_lens_sized sized.length, sized.aligned⟩, offset_count least most, ?_, sound,
      Nat.zero_le _, (by decide : 0 < 0x80000000)⟩
    intro symbol below _
    exact clear_lens_get_d below
  refine ⟨⟨⟨⟨arrays, fun some_ => absurd rfl some_⟩, rfl, positive, ?_, ?_⟩, rfl, Nat.zero_le _⟩, rfl,
    rfl⟩
  · show 0 = framesEnd output_length 0
    rw [framesEnd]
    split_ifs <;> simp
  · intro _
    exact (Nat.zero_mod _).symm

/-- Whatever the input is and however it is asked for, all calls are answered, with the bytes
of those that succeed, unless the table of a tree is left. -/
theorem lzxd_calls
    (made : lzxdInit memory input output window_bits reset_interval input_buffer_size output_length
      is_delta = some lzx) (calls : List Int) :
    (∃ array index, runCalls calls lzx = .error (.outside array index) ∧
        LeftTable is_delta array) ∨
      ∃ statuses lzx' bytes, runCalls calls lzx = .ok (statuses, lzx') ∧
        statuses.length = calls.length ∧ lzx'.out = lzx.out ++ bytes ∧
        deliveredBytes calls statuses ≤ bytes.length ∧ bytes.length ≤ askedBytes calls := by
  have new := lzxd_init_ready made
  rcases @run_calls_result lzx calls (Or.inl new.1) with left | ⟨statuses, lzx', run, done⟩
  · rw [new.2.1] at left
    exact Or.inl left
  · rcases done.bytes with ⟨bytes, more, least, most⟩
    exact Or.inr ⟨statuses, lzx', bytes, run, done.answered, more.out, least, most⟩

end Init

/-! ## Cleared memory -/

def zeroTree (tree : HuffTree) : TreeMemory where
  len := List.replicate (tree.maxSymbols + LZX_LENTABLE_SAFETY) 0
  table := List.replicate (2 ^ tree.tableBits + 2 * tree.maxSymbols) 0

theorem zero_tree_sized (tree : HuffTree) : (zeroTree tree).Sized tree :=
  ⟨List.length_replicate, List.length_replicate⟩

def zeroTrees : LzxTrees := ⟨zeroTree PRETREE, zeroTree MAINTREE, zeroTree LENGTH, zeroTree ALIGNED,
  false⟩

def zeroMemory : LzxMemory where
  stream := some ⟨zeroTrees, ⟨zero_tree_sized _, zero_tree_sized _, zero_tree_sized _,
    zero_tree_sized _⟩⟩
  window size := some ⟨List.replicate size 0, List.length_replicate⟩
  inbuf _ := true

theorem empty_stream_calls :
    ∃ lzx, lzxdInit zeroMemory none none 15 0 4096 0 false = some lzx ∧
      ((∃ array index, runCalls [100, -1, 5] lzx = .error (.outside array index) ∧
          LeftTable false array) ∨
        ∃ statuses lzx' bytes, runCalls [100, -1, 5] lzx = .ok (statuses, lzx') ∧
          statuses.length = 3 ∧ lzx'.out = lzx.out ++ bytes ∧
          deliveredBytes [100, -1, 5] statuses ≤ bytes.length ∧
          bytes.length ≤ askedBytes [100, -1, 5]) :=
  ⟨_, rfl, @lzxd_calls zeroMemory none none 15 0 4096 0 false _ rfl [100, -1, 5]⟩

end XeBuild.Mspack
