import XeBuild.Mspack.FrameSafety
import XeBuild.Mspack.WrittenBlocks

/-!
# Frames as they are written

A frame is written as its segments and the bits that fill up its last word. Rounds of
the decoder read the segments one after the other, and the frame that comes out of the
window is what they stand for.
-/

namespace XeBuild.Mspack

open BitText ListRange Runs SlidingWindow WordBits

set_option autoImplicit false

/-! ## Runs of blocks -/

section Runs

variable {lzx : LzxdStream} {c c' : Coding} {cursor : Cursor} {limits : WindowLimits}
  {past past' : Past} {text rest : Text} {bytes : Bytes} {payload : Payload} {segment : Segment}
  {bytes_todo : Nat}

theorem stored_bytes_tracks (tracks : cursor.Tracks limits past)
    (room : cursor.window_posn + bytes.length ≤ cursor.window.length) (p : BitReader) :
    Cursor.Tracks { cursor with
        window := patch cursor.window cursor.window_posn bytes
        window_posn := cursor.window_posn + bytes.length
        bits := p } limits { past with history := past.history ++ bytes } := by
  have length := patch_length room
  have recent : Recent (patch cursor.window cursor.window_posn bytes) (past.history ++ bytes) := by
    by_cases below : cursor.window_posn < cursor.window.length
    · rw [tracks_posn tracks below] at room ⊢
      exact recent_patch tracks.recent room
    · have none : bytes = [] := List.length_eq_zero_iff.mp (by omega)
      rw [none, patch, List.append_nil, List.append_nil, List.length_nil, Nat.add_zero,
        List.take_append_drop]
      exact tracks.recent
  rcases tracks.place with ⟨rounds, whole, known⟩
  refine ⟨⟨?_, ?_, tracks.fit.offset, ?_⟩, recent, ?_, ⟨rounds, ?_, ?_⟩, tracks.queue⟩
  · exact tracks.fit.size.trans length.symm
  · rw [length]; exact tracks.fit.small
  · rw [length]; exact tracks.fit.ref_data_size
  · rw [length]; exact room
  · rw [length, List.length_append, whole]
    exact Nat.add_assoc _ _ _
  · rw [length]; exact known

/-- A run of the block that was opened gives what its payload stands for. -/
theorem run_block_before (follows : lzx.Follows c) (valid : payload.Valid c.block_type)
    (put : payload.put c rest = some text)
    (expand : payload.expand lzx.window_size c.past = some past')
    (room : lzx.cursor.window_posn + payload.count ≤ lzx.window_size)
    (before : lzx.cursor.bits.Before text) (roomy : 16 ≤ rest.bits.length) :
    ∃ cursor, runBlock lzx payload.count = .ok (0, cursor) ∧
      cursor.window_posn = lzx.cursor.window_posn + payload.count ∧
      cursor.Tracks lzx.limits past' ∧ cursor.bits.Before rest ∧
      (c.block_type = LZX_BLOCKTYPE_UNCOMPRESSED → cursor.bits.bits_left = 0) := by
  have window := follows.inside.window
  rw [runBlock, follows.block_type]
  cases payload with
  | tokens elements =>
      rcases valid with ⟨kind, valid⟩
      rcases Option.map_eq_some_iff.mp put with ⟨bits, given, same⟩
      rw [← same] at before
      rw [if_pos kind, follows.plain]
      rcases element_loop_before (follows.shows_ kind) valid given follows.tracks expand
        (by rw [window]; exact room) follows.inside.bits before roomy (Nat.le_refl _) with
        ⟨cursor, run, posn, _, tracks, _, before'⟩
      refine ⟨cursor, run, posn, tracks, before', fun stored => ?_⟩
      rw [stored] at kind
      exact absurd kind (by decide)
  | stored bytes =>
      have kind : c.block_type = LZX_BLOCKTYPE_UNCOMPRESSED := valid
      cases expand
      rcases put_bytes_some put with ⟨_, shape, rest_⟩
      have none := follows.stored kind
      rw [shape] at before
      have unread : bytes ++ rest.bytes = lzx.cursor.bits.unread :=
        congrArg Text.bytes ((before_bytes_iff none _).mp before)
      have room' : lzx.cursor.window_posn + bytes.length ≤ lzx.cursor.window.length := by
        rw [window]
        exact room
      rw [if_neg (by rw [kind]; decide), if_pos kind]
      rcases @uncompressed_run_result lzx.cursor.bits lzx.cursor.window (2 * bytes.length)
        bytes.length lzx.cursor.window_posn follows.inside.bits.buffered room'
        (Or.inl (Nat.le_refl _)) with ⟨short, _⟩ | ⟨p', run, taken⟩
      · rw [← unread, List.length_append] at short
        omega
      · have left : p'.bits_left = 0 := taken.bits_left.trans none
        rw [← unread, List.take_left] at run
        have behind := taken.unread
        rw [← unread, List.drop_left] at behind
        refine ⟨_, ?_, rfl, stored_bytes_tracks follows.tracks room' p', ?_, fun _ => left⟩
        · show (uncompressedRun (2 * bytes.length) bytes.length _ _ _ >>= _) = _
          rw [run]
          rfl
        · apply (before_bytes_iff left _).mpr
          rw [behind]
          exact rest_

theorem next_block_before {todo : Nat} (follows : lzx.Follows c)
    (valid : segment.Valid lzx.num_offsets todo c)
    (put : (match segment.start with
      | none => some rest
      | some new => new.put c rest) = some text)
    (before : lzx.cursor.bits.Before text) (roomy : 16 ≤ rest.bits.length) :
    ∃ lzx', nextBlock lzx = .ok lzx' ∧ Reaches lzx lzx' 0 (segment.open c) rest := by
  have starts := valid.start
  rw [nextBlock, follows.block_remaining, Segment.open]
  cases start : segment.start with
  | none =>
      rw [start] at starts put
      cases put
      have goes : ¬ c.block_remaining = 0 := by
        intro ended
        exact absurd (starts.mpr ended) (by decide)
      rw [if_neg goes]
      exact ⟨lzx, rfl, follows, before, by constructor <;> rfl, by constructor <;> rfl, rfl, rfl⟩
  | some new =>
      rw [start] at starts put
      rw [if_pos (starts.mp rfl)]
      exact block_header_before follows put (valid.new new start) before roomy

theorem payload_ends_with (put : payload.put c rest = some text) : EndsWith text rest := by
  cases payload with
  | tokens elements =>
      rcases Option.map_eq_some_iff.mp put with ⟨bits, _, same⟩
      rw [← same]
      exact prepend_ends_with _ _
  | stored bytes => exact put_bytes_ends_with put

theorem block_round_before (follows : lzx.Follows c)
    (valid : segment.Valid lzx.num_offsets bytes_todo c)
    (put : segment.put c rest = some text) (next : segment.next lzx.window_size c = some c')
    (room : lzx.cursor.window_posn + bytes_todo ≤ lzx.window_size) (todo : 0 < bytes_todo)
    (before : lzx.cursor.bits.Before text) (roomy : 16 ≤ rest.bits.length) :
    ∃ lzx', blockRound bytes_todo lzx = .ok (bytes_todo - segment.payload.count, lzx') ∧
      Reaches lzx lzx' segment.payload.count c' rest := by
  rcases Option.bind_eq_some_iff.mp put with ⟨middle, payload, put⟩
  rcases Option.map_eq_some_iff.mp next with ⟨past', expand, rfl⟩
  rcases next_block_before follows valid put before (Nat.le_trans roomy (payload_ends_with payload).bits) with
    ⟨lzx₁, first, reaches⟩
  have count := valid.count
  have bounds := this_run_bounds (segment.open c).block_remaining bytes_todo
  have window_size := reaches.keeps.window_size
  have posn := reaches.posn
  rcases run_block_before reaches.follows valid.payload payload (by rw [window_size]; exact expand)
    (by omega) reaches.before roomy with ⟨cursor, run, posn', tracks, before', left⟩
  have ran : blockRound bytes_todo lzx = .ok (bytes_todo - segment.payload.count,
      { lzx₁ with
        cursor := cursor, block_remaining := lzx₁.block_remaining - segment.payload.count }) := by
    rw [blockRound, first, ok_bind]
    dsimp only
    rw [reaches.follows.block_remaining, ← count, run, ok_bind]
    rfl
  have done := safely_holds (safely_block_round ⟨follows.inside, room⟩ todo) ran
  have behind := reaches.follows
  refine ⟨_, ran, ⟨done.inFrame.inside, behind.plain, ?_, ?_, ?_, ?_, ?_, ?_, ?_, ?_, ?_⟩, before',
    done.keeps, settings_trans reaches.settings (by constructor <;> rfl), ?_, reaches.curpos⟩
  · exact behind.holds
  · exact behind.size
  · exact behind.shows_
  · exact behind.block_type
  · exact behind.block_length
  · show lzx₁.block_remaining - _ = _
    rw [behind.block_remaining]
  · exact tracks
  · exact behind.started
  · exact left
  · show cursor.window_posn = _
    omega

theorem new_block_ends_with {new : NewBlock} (put : new.put c rest = some text) :
    EndsWith text rest := by
  rcases Option.bind_eq_some_iff.mp put with ⟨behind, body, put⟩
  have block : EndsWith behind rest := by
    cases block : new.block with
    | compressed aligned trees =>
        rw [block] at body
        rcases Option.map_eq_some_iff.mp body with ⟨bits, _, same⟩
        rw [← same]
        exact ends_with_trans (prepend_ends_with _ _) (prepend_ends_with _ _)
    | uncompressed pad queue =>
        rw [block] at body
        rcases Option.map_eq_some_iff.mp body with ⟨stored, put, same⟩
        rw [← same]
        exact ends_with_trans (prepend_ends_with _ _) (put_bytes_ends_with put)
  have header := ends_with_trans
    (prepend_ends_with (headerBits new.block.block_type new.block_length) behind) block
  refine ends_with_trans ?_ header
  rw [putOdd] at put
  split_ifs at put with filled
  · exact put_bytes_ends_with put
  · rw [Option.some.inj put]
    exact ends_with_refl _

theorem segment_ends_with (put : segment.put c rest = some text) : EndsWith text rest := by
  rcases Option.bind_eq_some_iff.mp put with ⟨middle, payload, put⟩
  refine ends_with_trans ?_ (payload_ends_with payload)
  cases start : segment.start with
  | none =>
      rw [start] at put
      cases put
      exact ends_with_refl _
  | some new =>
      rw [start] at put
      exact new_block_ends_with put

theorem segment_next_grows {window_size : Nat} (next : segment.next window_size c = some c') :
    c.past.Grows c'.past segment.payload.count := by
  rcases Option.map_eq_some_iff.mp next with ⟨past', expand, rfl⟩
  have same : (segment.open c).past.history = c.past.history := by
    rcases segment with ⟨_ | ⟨odd, length, aligned, trees | ⟨pad, queue⟩⟩, payload⟩ <;> rfl
  have grows : (segment.open c).past.Grows past' segment.payload.count := by
    cases payload : segment.payload with
    | tokens elements =>
        rw [payload] at expand
        exact expand_tokens_grows expand
    | stored bytes =>
        rw [payload] at expand
        cases expand
        exact ⟨List.prefix_append _ _, List.length_append⟩
  exact ⟨same ▸ grows.front, same ▸ grows.length⟩

end Runs

/-! ## Frames -/

def nextSegments (window_size : Nat) : List Segment → Coding → Option Coding
  | [], c => some c
  | segment :: segments, c => (segment.next window_size c).bind (nextSegments window_size segments)

def putSegments (window_size : Nat) : List Segment → Coding → Text → Option Text
  | [], _, rest => some rest
  | segment :: segments, c, rest => do
      let c' ← segment.next window_size c
      let rest ← putSegments window_size segments c' rest
      segment.put c rest

def SegmentsValid (window_size num_offsets : Nat) : List Segment → Nat → Coding → Prop
  | [], bytes_todo, _ => bytes_todo = 0
  | segment :: segments, bytes_todo, c =>
      0 < bytes_todo ∧ segment.Valid num_offsets bytes_todo c ∧
        ∀ c', segment.next window_size c = some c' →
          SegmentsValid window_size num_offsets segments (bytes_todo - segment.payload.count) c'

/-- A frame, and the bits up to the end of its last word. -/
structure FrameText where
  segments : List Segment
  pad : List Bool

/-- A frame is written in front of one that starts with a word. -/
def FrameText.put (window_size : Nat) (frame : FrameText) (c : Coding) (rest : Text) :
    Option Text := do
  let rest ← rest.putBytes []
  putSegments window_size frame.segments c (rest.prepend frame.pad)

structure FrameText.Valid (window_size num_offsets frame_size : Nat) (frame : FrameText)
    (c : Coding) : Prop where
  pad : frame.pad.length < 16
  segments : SegmentsValid window_size num_offsets frame.segments frame_size c

section Frames

variable {lzx : LzxdStream} {c c' : Coding} {text rest : Text} {segments : List Segment}
  {bytes_todo rounds window_size num_offsets : Nat} {p : BitReader} {pad : List Bool}

theorem put_segments_ends_with (put : putSegments window_size segments c rest = some text) :
    EndsWith text rest := by
  induction segments generalizing c text with
  | nil =>
      cases put
      exact ends_with_refl _
  | cons segment segments ih =>
      rcases Option.bind_eq_some_iff.mp put with ⟨c₁, _, put⟩
      rcases Option.bind_eq_some_iff.mp put with ⟨middle, later, put⟩
      exact ends_with_trans (segment_ends_with put) (ih later)

theorem next_segments_grows
    (valid : SegmentsValid window_size num_offsets segments bytes_todo c)
    (next : nextSegments window_size segments c = some c') :
    c.past.Grows c'.past bytes_todo := by
  induction segments generalizing c bytes_todo with
  | nil =>
      cases valid
      cases next
      exact grows_refl _
  | cons segment segments ih =>
      rcases valid with ⟨_, here, later⟩
      rcases Option.bind_eq_some_iff.mp next with ⟨c₁, first, rest⟩
      have bounds := this_run_bounds (segment.open c).block_remaining bytes_todo
      have whole := grows_trans (segment_next_grows first) (ih (later c₁ first) rest)
      rwa [Nat.add_sub_cancel' (by rw [here.count]; exact bounds.1)] at whole

theorem block_loop_before (follows : lzx.Follows c)
    (valid : SegmentsValid lzx.window_size lzx.num_offsets segments bytes_todo c)
    (put : putSegments lzx.window_size segments c rest = some text)
    (next : nextSegments lzx.window_size segments c = some c')
    (room : lzx.cursor.window_posn + bytes_todo ≤ lzx.window_size)
    (before : lzx.cursor.bits.Before text) (roomy : 16 ≤ rest.bits.length)
    (enough : lzx.cursor.bits.available + bytes_todo ≤ rounds) :
    ∃ lzx', blockLoop rounds bytes_todo lzx = .ok lzx' ∧ Reaches lzx lzx' bytes_todo c' rest := by
  induction segments generalizing lzx c text bytes_todo rounds with
  | nil =>
      cases valid
      cases put
      cases next
      refine ⟨lzx, ?_, follows, before, by constructor <;> rfl, by constructor <;> rfl, rfl, rfl⟩
      cases rounds with
      | zero => exact if_neg (by decide)
      | succ rounds => exact if_neg (by decide)
  | cons segment segments ih =>
      rcases valid with ⟨todo, here, later⟩
      rcases Option.bind_eq_some_iff.mp next with ⟨c₁, first, next⟩
      rcases Option.bind_eq_some_iff.mp put with ⟨c₂, again, put⟩
      rw [first] at again
      cases again
      rcases Option.bind_eq_some_iff.mp put with ⟨middle, behind, put⟩
      have roomier := Nat.le_trans roomy (put_segments_ends_with behind).bits
      rcases block_round_before follows here put first room todo before roomier with
        ⟨lzx₁, run, reaches⟩
      have done := safely_holds (safely_block_round ⟨follows.inside, room⟩ todo) run
      have less := done.less
      dsimp only at less
      have bounds := this_run_bounds (segment.open c).block_remaining bytes_todo
      have count := here.count
      have posn := reaches.posn
      have window_size := reaches.keeps.window_size
      have num_offsets := reaches.settings.num_offsets
      rcases Nat.exists_eq_succ_of_ne_zero (by omega : rounds ≠ 0) with ⟨rounds, rfl⟩
      rcases ih reaches.follows (by rw [window_size, num_offsets]; exact later c₁ first)
        (by rw [window_size]; exact behind) (by rw [window_size]; exact next) (by omega)
        reaches.before (show _ + (bytes_todo - segment.payload.count) ≤ rounds by omega) with
        ⟨lzx', rest_, reaches'⟩
      refine ⟨lzx', ?_, reaches'.follows, reaches'.before, keeps_trans reaches.keeps reaches'.keeps,
        settings_trans reaches.settings reaches'.settings, ?_, reaches'.curpos.trans reaches.curpos⟩
      · rw [blockLoop, if_pos todo, run, ok_bind]
        exact rest_
      · rw [reaches'.posn, posn]
        omega

theorem realign_before (sound : p.Sound) (few : pad.length < 16) (start : rest.partialWord = [])
    (before : p.Before (rest.prepend pad)) (roomy : 16 ≤ rest.bits.length) :
    ∃ p', realign p = .ok p' ∧ p'.Sound ∧ p'.Before rest ∧ (p.bits_left = 0 → p'.bits_left = 0) := by
  have started : rest.Started := by
    rw [Text.Started, start]
    exact Nat.zero_lt_succ 15
  have word := @prepend_partial_length pad rest started
  rw [start, List.length_nil, Nat.add_zero, Nat.mod_eq_of_lt few] at word
  -- whole words are behind the bits that are dropped
  have low {p₁ : BitReader} (before₁ : p₁.Before (rest.prepend pad)) :
      p₁.bits_left % 16 = pad.length := by
    have partial_ := shows_partial_length before₁
    rwa [loaded_length, word, Nat.mod_eq_of_lt few] at partial_
  have filled : ∃ p₁, fillStarted p = .ok p₁ ∧ p₁.Sound ∧ p₁.Before (rest.prepend pad) ∧
      pad.length ≤ p₁.bits_left ∧ (p.bits_left = 0 → p₁.bits_left = 0) := by
    have here := low before
    rw [fillStarted]
    split_ifs with some_
    · have available := available_eq before
      rw [prepend_bits, List.length_append] at available
      rcases ensure_bits_result sound (by decide : 16 ≤ 17) with ⟨short, _⟩ | ⟨p₁, run, fills⟩
      · omega
      · have enough := fills.enough
        exact ⟨p₁, run, fills.sound, fills.before _ before, by omega, fun none => by omega⟩
    · exact ⟨p, rfl, sound, before, by omega, fun none => none⟩
  rcases filled with ⟨p₁, run, sound₁, before₁, enough, none⟩
  have removed := remove_before sound₁ before₁ enough
  have mask : p₁.bits_left &&& 15 = pad.length := by
    have fifteen : 15 = 2 ^ 4 - 1 := rfl
    rw [fifteen, Nat.and_two_pow_sub_one_eq_mod]
    exact low before₁
  rw [realign, run, ok_bind, mask]
  split_ifs with some_
  · refine ⟨_, rfl, removed.2.1, removed.2.2, fun empty => ?_⟩
    show p₁.bits_left - pad.length = 0
    rw [none empty, Nat.zero_sub]
  · have empty : pad = [] := List.length_eq_zero_iff.mp (not_not.mp some_)
    rw [empty] at before₁
    exact ⟨_, rfl, sound₁, before₁, none⟩

structure FrameReaches (lzx lzx' : LzxdStream) (c c' : Coding) (rest : Text) : Prop where
  done : FrameDone lzx (frameSize lzx) lzx'
  follows : lzx'.Follows c'
  before : lzx'.cursor.bits.Before rest
  settings : KeepsSettings lzx lzx'
  curpos : lzx'.intel_curpos =
    if lzx.intel_filesize ≠ 0 then lzx.intel_curpos + frameSize lzx else lzx.intel_curpos
  pending : lzx'.pending = outputFrame lzx.intel_filesize lzx.intel_curpos lzx.frame c'.started
    (c'.past.history.drop c.past.history.length)
  grows : c.past.Grows c'.past (frameSize lzx)

/-- In a stream without reset points the frame is its blocks, the alignment and the translation. -/
theorem decode_frame_run {lzx₁ : LzxdStream} {p : BitReader} (interval : lzx.reset_interval = 0)
    (plain : lzx.is_delta = false) (header : lzx.header_read = true)
    (start : lzx.cursor.window_posn = lzx.frame_posn)
    (loop : blockLoop (lzx.cursor.bits.available + frameSize lzx) (frameSize lzx) lzx = .ok lzx₁)
    (whole : lzx₁.cursor.window_posn = lzx₁.frame_posn + frameSize lzx)
    (aligns : realign lzx₁.cursor.bits = .ok p) (written : lzx₁.pending = []) :
    decodeFrame lzx = translateOutput { lzx₁ with cursor := { lzx₁.cursor with bits := p } }
      (frameSize lzx) >>= fun lzx' => .ok (frameSize lzx, lzx') := by
  have none : ¬ (lzx.reset_interval ≠ 0 ∧ lzx.frame % lzx.reset_interval = 0) :=
    fun due => due.1 interval
  have todo : lzx.frame_posn + frameSize lzx - lzx.cursor.window_posn = frameSize lzx := by omega
  have complete : ¬ lzx₁.cursor.window_posn - lzx₁.frame_posn ≠ frameSize lzx := by omega
  rw [decodeFrame, resetAtInterval, if_neg none, ok_bind, skipChunkSize, plain,
    if_neg Bool.false_ne_true, ok_bind, readStreamHeader, if_pos header, ok_bind]
  dsimp only
  rw [todo, loop, ok_bind, if_neg complete, aligns, ok_bind, if_neg (not_not.mpr written)]
  rfl

/-- The frame in the window is what was appended to the history. -/
theorem frame_slice {lzx₁ : LzxdStream} (follows : lzx.Follows c) (behind : lzx₁.Follows c')
    (keeps : lzx₁.window_size = lzx.window_size) (frame_posn : lzx₁.frame_posn = lzx.frame_posn)
    (start : lzx.cursor.window_posn = lzx.frame_posn) (below : lzx.frame_posn < lzx.window_size)
    (grows : c.past.Grows c'.past (frameSize lzx))
    (room : lzx₁.frame_posn + frameSize lzx ≤ lzx₁.cursor.window.length) :
    slice lzx₁.cursor.window lzx₁.frame_posn (frameSize lzx) =
      c'.past.history.drop c.past.history.length := by
  have window := follows.inside.window
  have turned := tracks_posn follows.tracks (by rw [window, start]; exact below)
  have length : lzx₁.cursor.window.length = lzx.cursor.window.length := by
    rw [behind.inside.window, keeps, window]
  have place : lzx₁.frame_posn = c.past.history.length % lzx₁.cursor.window.length := by
    rw [frame_posn, length, ← turned, start]
  rw [place] at room ⊢
  exact recent_slice behind.tracks.recent grows.length.symm room

/-- The frame that was written is read, and what it stands for is to be written out. -/
theorem decode_frame_before {frame : FrameText} (at_ : lzx.AtFrame) (written : lzx.pending = [])
    (follows : lzx.Follows c) (interval : lzx.reset_interval = 0) (header : lzx.header_read = true)
    (valid : frame.Valid lzx.window_size lzx.num_offsets (frameSize lzx) c)
    (put : frame.put lzx.window_size c rest = some text)
    (next : nextSegments lzx.window_size frame.segments c = some c')
    (before : lzx.cursor.bits.Before text) (roomy : 16 ≤ rest.bits.length) :
    ∃ lzx', decodeFrame lzx = .ok (frameSize lzx, lzx') ∧ FrameReaches lzx lzx' c c' rest := by
  rcases Option.bind_eq_some_iff.mp put with ⟨rest', start, segments⟩
  rcases put_bytes_some start with ⟨aligned, shape, same⟩
  rw [shape, List.nil_append, ← same] at segments
  have room := frame_size_room at_ written
  have posn := at_.posn
  have grows := next_segments_grows valid.segments next
  have padded : 16 ≤ (rest.prepend frame.pad).bits.length :=
    Nat.le_trans roomy (prepend_ends_with _ _).bits
  rcases @block_loop_before lzx c c' text (rest.prepend frame.pad) frame.segments (frameSize lzx)
    (lzx.cursor.bits.available + frameSize lzx) follows valid.segments segments next (by omega) before
    padded (Nat.le_refl _) with ⟨lzx₁, loop, reaches⟩
  rcases realign_before reaches.follows.inside.bits valid.pad aligned reaches.before roomy with
    ⟨p, aligns, sound, before', empty⟩
  have keeps := reaches.keeps
  have behind := reaches.follows
  have posn₁ := reaches.posn
  have frame_posn := keeps.frame_posn
  have room₁ : lzx₁.frame_posn + frameSize lzx ≤ lzx₁.cursor.window.length := by
    rw [frame_posn, behind.inside.window, keeps.window_size]
    exact room.1
  have run := decode_frame_run interval follows.plain header posn loop (by omega) aligns
    (keeps.pending.trans written)
  have output := @translate_output_result { lzx₁ with cursor := { lzx₁.cursor with bits := p } }
    (frameSize lzx) room₁ room.2.1
  rw [output, ok_bind] at run
  have done := safely_holds (safely_decode_frame at_ written) run
  have data := frame_slice follows behind keeps.window_size frame_posn posn at_.below grows room₁
  refine ⟨_, run, done, ⟨done.inside, behind.plain, behind.holds, behind.size, behind.shows_,
    behind.block_type, behind.block_length, behind.block_remaining, tracks_bits behind.tracks p,
    behind.started, fun stored => empty (behind.stored stored)⟩, before',
    settings_trans reaches.settings (by constructor <;> rfl), ?_, ?_, grows⟩
  · show (if lzx₁.intel_filesize ≠ 0 then lzx₁.intel_curpos + (frameSize lzx : Int)
      else lzx₁.intel_curpos) = _
    rw [reaches.settings.intel_filesize, reaches.curpos]
  · show outputFrame lzx₁.intel_filesize lzx₁.intel_curpos lzx₁.frame lzx₁.intel_started
      (slice lzx₁.cursor.window lzx₁.frame_posn (frameSize lzx)) = _
    rw [reaches.settings.intel_filesize, reaches.curpos, keeps.frame, behind.started, data]

end Frames

end XeBuild.Mspack
