import XeBuild.Bytes
import XeBuild.Lib.CheckedBuffer
import XeBuild.Lib.Runs

/-!
# Compressed data of `xexInflate.c`

`rebufInData`: the chunks of the compressed blocks, copied one behind the other.
A block starts with the size of the block that follows it. The input and the
output buffer have `inLen` bytes, and an access outside of them is a fault.
-/

namespace XeBuild.Iso2svod

open CheckedBuffer ListRange Runs

set_option autoImplicit false

def getBe16 (data : Bytes) : Nat := (data.getD 0 0).toNat * 0x100 + (data.getD 1 0).toNat

/-- The two lengths that are read at a position. -/
def be16 (data : Bytes) (pos : Nat) : Nat := getBe16 (slice data pos 2)

def be32 (data : Bytes) (pos : Nat) : Nat := getBe32 (slice data pos 4)

def beU32 (value : Nat) : Bytes := hostU32 (bswap32 value)

theorem be32_stored {before after : Bytes} {value : Nat} (word : value < 0x100000000) :
    be32 (before ++ (beU32 value ++ after)) before.length = value := by
  have field : slice (before ++ (beU32 value ++ after)) before.length 4 = beU32 value ++ [] :=
    slice_append_right before (beU32 value ++ after) 0 4
  rw [be32, field]
  exact get_be32_host_bswap32 value word []

/-! ## `rebufInData` -/

structure Rebuf where
  buf : Bytes
  currLen : Nat
  nextLen : Nat
  compressedSz : Nat
  currPos : Nat
  lastPos : Nat
  deriving DecidableEq

/-- The inner loop: chunks up to the length zero. -/
def copyChunks (pInData : Bytes) : Nat → Rebuf → Except Fault Rebuf
  | 0, _ => .error .roundsSpent
  | rounds + 1, s => do
      let field ← load pInData s.currPos 2
      let innerLen := getBe16 field
      if innerLen = 0 then return s
      else
        let currPos := u32 (s.currPos + 2)
        let chunk ← load pInData currPos innerLen
        let buf ← store s.buf s.compressedSz chunk
        copyChunks pInData rounds
          { s with
            buf
            currPos := u32 (currPos + innerLen)
            compressedSz := u32 (s.compressedSz + innerLen) }

/-- The outer loop: blocks up to the one without a next. -/
def copyBlocks (pInData : Bytes) : Nat → Rebuf → Except Fault Rebuf
  | 0, _ => .error .roundsSpent
  | rounds + 1, s =>
      if s.currPos < pInData.length ∧ s.nextLen ≠ 0 then do
        let field ← load pInData s.currPos 4
        let nextLen := getBe32 field
        let s ← copyChunks pInData rounds { s with nextLen, currPos := u32 (s.currPos + 0x18) }
        let currPos := u32 (s.lastPos + s.currLen)
        copyBlocks pInData rounds { s with currPos, currLen := nextLen, lastPos := currPos }
      else return s

/-- The buffer and `finSiz`. `malloced` is the memory that `malloc` gives. -/
def rebufInData (malloced : Option Bytes) (pInData : Bytes) (firstSize rounds : Nat) :
    Except Fault (Option Bytes × Nat) :=
  match malloced with
  | none => .ok (none, 0)
  | some buf => do
      let s ← copyBlocks pInData rounds ⟨buf, firstSize, 1, 0, 0, 0⟩
      return (some s.buf, s.compressedSz)

/-- From some number of rounds on, the outcome is this. -/
def RebufReturns (malloced : Option Bytes) (pInData : Bytes) (firstSize : Nat)
    (result : Option Bytes × Nat) : Prop :=
  ∃ needed, ∀ rounds, needed ≤ rounds → rebufInData malloced pInData firstSize rounds = .ok result

/-! ## Chunks and blocks of an input -/

/-- The chunks from a position on lie in the input, and hold these bytes. -/
inductive Chunks (data : Bytes) : Nat → Bytes → Prop
  | finish {pos : Nat} (inside : pos + 2 ≤ data.length) (zero : be16 data pos = 0) :
      Chunks data pos []
  | chunk {pos : Nat} {rest : Bytes} (inside : pos + 2 ≤ data.length) (more : be16 data pos ≠ 0)
      (whole : pos + 2 + be16 data pos ≤ data.length)
      (later : Chunks data (pos + 2 + be16 data pos) rest) :
      Chunks data pos (slice data (pos + 2) (be16 data pos) ++ rest)

structure StreamPlace where
  pos : Nat
  size : Nat
  deriving DecidableEq

def StreamPlace.chunkStart (place : StreamPlace) : Nat := u32 (place.pos + 0x18)

/-- The place behind a block, by its size, with the size that the block announces. -/
def StreamPlace.next (place : StreamPlace) (data : Bytes) : StreamPlace :=
  ⟨u32 (place.pos + place.size), be32 data place.pos⟩

/-- The blocks from a place on lie in the input, come to an end, and hold these bytes. -/
inductive Stream (data : Bytes) : StreamPlace → Bytes → Prop
  | past {place : StreamPlace} (past : data.length ≤ place.pos) : Stream data place []
  | last {place : StreamPlace} {out : Bytes} (header : place.pos + 4 ≤ data.length)
      (zero : be32 data place.pos = 0) (chunks : Chunks data place.chunkStart out) :
      Stream data place out
  | more {place : StreamPlace} {out rest : Bytes} (header : place.pos + 4 ≤ data.length)
      (announced : be32 data place.pos ≠ 0) (chunks : Chunks data place.chunkStart out)
      (later : Stream data (place.next data) rest) : Stream data place (out ++ rest)

section Unique

variable {data left right : Bytes} {pos : Nat} {place : StreamPlace}

theorem chunks_unique (first : Chunks data pos left) (second : Chunks data pos right) :
    left = right := by
  induction first generalizing right with
  | finish _ zero =>
      cases second with
      | finish => rfl
      | chunk _ more => exact absurd zero more
  | chunk _ more _ _ ih =>
      cases second with
      | finish _ zero => exact absurd zero more
      | chunk _ _ _ later => rw [ih later]

theorem stream_unique (first : Stream data place left) (second : Stream data place right) :
    left = right := by
  induction first generalizing right with
  | past past =>
      cases second with
      | past => rfl
      | last header => omega
      | more header => omega
  | last header zero chunks =>
      cases second with
      | past past => omega
      | last _ _ other => exact chunks_unique chunks other
      | more _ announced => exact absurd zero announced
  | more header announced chunks _ ih =>
      cases second with
      | past past => omega
      | last _ zero => exact absurd zero announced
      | more _ _ other later => rw [chunks_unique chunks other, ih later]

end Unique

/-! ## The loops over them -/

def Rebuf.copied (s : Rebuf) (out : Bytes) : Rebuf :=
  { s with buf := patch s.buf s.compressedSz out, compressedSz := s.compressedSz + out.length }

def Rebuf.movedTo (s : Rebuf) (currPos : Nat) : Rebuf := { s with currPos }

def Rebuf.Fits (s : Rebuf) (out : Bytes) : Prop := s.compressedSz + out.length ≤ s.buf.length

section Loops

variable {data out rest : Bytes} {rounds pos : Nat} {s last : Rebuf} {place : StreamPlace}

theorem be32_lt (data : Bytes) (pos : Nat) : be32 data pos < 0x100000000 := by
  have first := ((slice data pos 4).getD 0 0).toNat_lt
  have second := ((slice data pos 4).getD 1 0).toNat_lt
  have third := ((slice data pos 4).getD 2 0).toNat_lt
  have fourth := ((slice data pos 4).getD 3 0).toNat_lt
  rw [be32, getBe32]
  omega

theorem copied_nil (s : Rebuf) : s.copied [] = s := by
  simp [Rebuf.copied, patch]

theorem copied_append (fits : s.Fits out) :
    (s.copied out).copied rest = s.copied (out ++ rest) := by
  rw [Rebuf.Fits] at fits
  simp only [Rebuf.copied, patch_patch fits, List.length_append, Nat.add_assoc]

theorem copied_fits (fits : s.Fits out) : (s.copied out).Fits rest ↔ s.Fits (out ++ rest) := by
  rw [Rebuf.Fits] at fits
  simp only [Rebuf.Fits, Rebuf.copied, patch_length fits, List.length_append, Nat.add_assoc]

theorem copy_chunks_end (inside : s.currPos + 2 ≤ data.length) (zero : be16 data s.currPos = 0) :
    copyChunks data (rounds + 1) s = .ok s := by
  have read : getBe16 (slice data s.currPos 2) = 0 := zero
  rw [copyChunks, load_inside inside, ok_bind, if_pos read]
  rfl

theorem copy_chunks_more (word : data.length < 0x100000000)
    (inside : s.currPos + 2 ≤ data.length) (more : be16 data s.currPos ≠ 0) :
    copyChunks data (rounds + 1) s =
      load data (s.currPos + 2) (be16 data s.currPos) >>= fun chunk =>
        store s.buf s.compressedSz chunk >>= fun buf =>
          copyChunks data rounds
            { s with
              buf
              currPos := u32 (s.currPos + 2 + be16 data s.currPos)
              compressedSz := u32 (s.compressedSz + be16 data s.currPos) } := by
  have read : getBe16 (slice data s.currPos 2) ≠ 0 := more
  have moved : u32 (s.currPos + 2) = s.currPos + 2 := u32_of_lt (by omega)
  rw [copyChunks, load_inside inside, ok_bind, if_neg read, moved]
  rfl

theorem copy_chunks_step (word : data.length < 0x100000000)
    (bufWord : s.buf.length < 0x100000000) (inside : s.currPos + 2 ≤ data.length)
    (more : be16 data s.currPos ≠ 0) (whole : s.currPos + 2 + be16 data s.currPos ≤ data.length)
    (fits : s.Fits (slice data (s.currPos + 2) (be16 data s.currPos))) :
    copyChunks data (rounds + 1) s =
      copyChunks data rounds
        ((s.copied (slice data (s.currPos + 2) (be16 data s.currPos))).movedTo
          (s.currPos + 2 + be16 data s.currPos)) := by
  have length := slice_length_of_le whole
  have room := fits
  rw [Rebuf.Fits, length] at room
  rw [copy_chunks_more word inside more, load_inside whole, ok_bind, store_inside fits, ok_bind,
    u32_of_lt (by omega), u32_of_lt (by omega), Rebuf.copied, length]
  rfl

theorem copy_chunks_inside (run : copyChunks data (rounds + 1) s = .ok last) :
    s.currPos + 2 ≤ data.length := by
  rw [copyChunks, bind_ok_iff] at run
  rcases run with ⟨field, got, _⟩
  exact (load_ok_iff.mp got).1

theorem copy_chunks_whole (word : data.length < 0x100000000)
    (more : be16 data s.currPos ≠ 0) (run : copyChunks data (rounds + 1) s = .ok last) :
    s.currPos + 2 + be16 data s.currPos ≤ data.length ∧
      s.Fits (slice data (s.currPos + 2) (be16 data s.currPos)) := by
  rw [copy_chunks_more word (copy_chunks_inside run) more, bind_ok_iff] at run
  rcases run with ⟨chunk, got, run⟩
  rcases load_ok_iff.mp got with ⟨whole, rfl⟩
  rw [bind_ok_iff] at run
  rcases run with ⟨buf, stored, _⟩
  exact ⟨whole, (store_ok_iff.mp stored).1⟩

/-- An inner loop that ends has copied the chunks at its position. -/
theorem chunks_of_copy (word : data.length < 0x100000000) (bufWord : s.buf.length < 0x100000000)
    (room : s.compressedSz ≤ s.buf.length) (run : copyChunks data rounds s = .ok last) :
    ∃ out pos, Chunks data s.currPos out ∧ s.Fits out ∧ last = (s.copied out).movedTo pos := by
  induction rounds generalizing s with
  | zero => cases run
  | succ rounds ih =>
      have inside := copy_chunks_inside run
      by_cases zero : be16 data s.currPos = 0
      · rw [copy_chunks_end inside zero] at run
        have same : s = last := Except.ok.inj run
        refine ⟨[], s.currPos, Chunks.finish inside zero, room, ?_⟩
        rw [copied_nil, ← same]
        rfl
      · rcases copy_chunks_whole word zero run with ⟨whole, fits⟩
        rw [copy_chunks_step word bufWord inside zero whole fits] at run
        have kept : (s.copied (slice data (s.currPos + 2) (be16 data s.currPos))).buf.length =
            s.buf.length := patch_length fits
        have used : s.compressedSz + (slice data (s.currPos + 2) (be16 data s.currPos)).length ≤
            (s.copied (slice data (s.currPos + 2) (be16 data s.currPos))).buf.length := kept ▸ fits
        rcases ih (kept ▸ bufWord) used run with ⟨rest, pos, later, restFits, rfl⟩
        refine ⟨_, pos, Chunks.chunk inside zero whole later, (copied_fits fits).mp restFits, ?_⟩
        rw [← copied_append fits]
        rfl

/-- With enough rounds the inner loop copies the chunks at its position. -/
theorem copy_of_chunks (word : data.length < 0x100000000) (chunks : Chunks data pos out) :
    ∃ needed last, ∀ rounds, needed ≤ rounds → ∀ s, s.currPos = pos →
      s.buf.length < 0x100000000 → s.Fits out →
        copyChunks data rounds s = .ok ((s.copied out).movedTo last) := by
  induction chunks with
  | @finish pos inside zero =>
      refine ⟨1, pos, ?_⟩
      intro rounds enough s here _ _
      rcases Nat.exists_eq_add_of_le' enough with ⟨rounds, rfl⟩
      subst here
      rw [copy_chunks_end inside zero, copied_nil]
      rfl
  | @chunk pos rest inside more whole _ ih =>
      rcases ih with ⟨needed, last, copies⟩
      refine ⟨needed + 1, last, ?_⟩
      intro rounds enough s here bufWord fits
      rcases Nat.exists_eq_add_of_le' (Nat.one_le_of_lt enough) with ⟨rounds, rfl⟩
      subst here
      have first : s.Fits (slice data (s.currPos + 2) (be16 data s.currPos)) := by
        rw [Rebuf.Fits, List.length_append] at fits
        rw [Rebuf.Fits]
        omega
      have kept : (s.copied (slice data (s.currPos + 2) (be16 data s.currPos))).buf.length =
          s.buf.length := patch_length first
      have later := copies rounds (by omega)
        ((s.copied (slice data (s.currPos + 2) (be16 data s.currPos))).movedTo
          (s.currPos + 2 + be16 data s.currPos)) rfl (kept ▸ bufWord) ((copied_fits first).mpr fits)
      rw [copy_chunks_step word bufWord inside more whole first, later, ← copied_append first]
      rfl

def Rebuf.entered (s : Rebuf) (data : Bytes) : Rebuf :=
  { s with nextLen := be32 data s.currPos, currPos := u32 (s.currPos + 0x18) }

def Rebuf.advanced (s : Rebuf) : Rebuf :=
  { s with
    currPos := u32 (s.lastPos + s.currLen)
    currLen := s.nextLen
    lastPos := u32 (s.lastPos + s.currLen) }

structure Rebuf.At (s : Rebuf) (place : StreamPlace) : Prop where
  currPos : s.currPos = place.pos
  lastPos : s.lastPos = place.pos
  currLen : s.currLen = place.size

theorem copy_blocks_done (done : ¬ (s.currPos < data.length ∧ s.nextLen ≠ 0)) :
    copyBlocks data (rounds + 1) s = .ok s := by
  rw [copyBlocks, if_neg done]
  rfl

theorem copy_blocks_step (header : s.currPos + 4 ≤ data.length) (goes : s.nextLen ≠ 0) :
    copyBlocks data (rounds + 1) s =
      copyChunks data rounds (s.entered data) >>= fun later =>
        copyBlocks data rounds
          { later with
            currPos := u32 (later.lastPos + later.currLen)
            currLen := be32 data s.currPos
            lastPos := u32 (later.lastPos + later.currLen) } := by
  rw [copyBlocks, if_pos ⟨by omega, goes⟩, load_inside header, ok_bind]
  rfl

theorem copy_blocks_header (goes : s.currPos < data.length ∧ s.nextLen ≠ 0)
    (run : copyBlocks data (rounds + 1) s = .ok last) : s.currPos + 4 ≤ data.length := by
  rw [copyBlocks, if_pos goes, bind_ok_iff] at run
  rcases run with ⟨field, got, _⟩
  exact (load_ok_iff.mp got).1

def Rebuf.behind (s : Rebuf) (data out : Bytes) (pos : Nat) : Rebuf :=
  (((s.entered data).copied out).movedTo pos).advanced

theorem behind_at (here : s.At place) (out : Bytes) (pos : Nat) :
    (s.behind data out pos).At (place.next data) := by
  rcases here with ⟨currPos, lastPos, currLen⟩
  have moved : u32 (s.lastPos + s.currLen) = u32 (place.pos + place.size) := by
    rw [lastPos, currLen]
  have announced : be32 data s.currPos = be32 data place.pos := by rw [currPos]
  exact ⟨moved, moved, announced⟩

def Rebuf.Leaves (s : Rebuf) (out : Bytes) (last : Rebuf) : Prop :=
  last.buf = patch s.buf s.compressedSz out ∧ last.compressedSz = s.compressedSz + out.length

theorem leaves_append (fits : s.Fits out) {middle : Rebuf} (first : s.Leaves out middle)
    (second : middle.Leaves rest last) : s.Leaves (out ++ rest) last := by
  rcases first with ⟨buf, size⟩
  rcases second with ⟨lastBuf, lastSize⟩
  rw [buf, size, patch_patch fits] at lastBuf
  rw [size] at lastSize
  refine ⟨lastBuf, ?_⟩
  rw [lastSize, List.length_append, Nat.add_assoc]

/-- An outer loop that ends has copied the blocks from its place on. -/
theorem stream_of_copy (word : data.length < 0x100000000) (bufWord : s.buf.length < 0x100000000)
    (room : s.compressedSz ≤ s.buf.length) (here : s.At place) (goes : s.nextLen ≠ 0)
    (run : copyBlocks data rounds s = .ok last) :
    ∃ out, Stream data place out ∧ s.Fits out ∧ s.Leaves out last := by
  induction rounds generalizing s place with
  | zero => cases run
  | succ rounds ih =>
      by_cases inside : s.currPos < data.length
      · have header := copy_blocks_header ⟨inside, goes⟩ run
        rw [copy_blocks_step header goes, bind_ok_iff] at run
        rcases run with ⟨later, chunkRun, run⟩
        rcases @chunks_of_copy data rounds (s.entered data) later word bufWord room chunkRun with
          ⟨out, pos, chunks, fits, rfl⟩
        have start : (s.entered data).currPos = place.chunkStart := by
          rw [Rebuf.entered, here.currPos]
          rfl
        rw [start] at chunks
        rw [here.currPos] at header
        have kept : (patch s.buf s.compressedSz out).length = s.buf.length := patch_length fits
        have after : copyBlocks data rounds (s.behind data out pos) = .ok last := run
        have first : s.Leaves out (s.behind data out pos) := ⟨rfl, rfl⟩
        by_cases zero : be32 data place.pos = 0
        · cases rounds with
          | zero => cases after
          | succ rounds =>
              have done : (s.behind data out pos).nextLen = 0 := by
                rw [← zero, ← here.currPos]
                rfl
              rw [copy_blocks_done (fun both => both.2 done)] at after
              have same := Except.ok.inj after
              exact ⟨out, Stream.last header zero chunks, fits, same ▸ first⟩
        · have onward : (s.behind data out pos).nextLen ≠ 0 := by
            rw [← here.currPos] at zero
            exact zero
          rcases @ih (s.behind data out pos) (place.next data) (kept ▸ bufWord) (kept ▸ fits)
            (behind_at here out pos) onward after with ⟨rest, stream, restFits, leaves⟩
          exact ⟨out ++ rest, Stream.more header zero chunks stream, (copied_fits fits).mp restFits,
            leaves_append fits first leaves⟩
      · rw [copy_blocks_done (fun both => inside both.1)] at run
        have same : s = last := Except.ok.inj run
        refine ⟨[], Stream.past (by rw [← here.currPos]; omega), room, ?_, ?_⟩
        · rw [← same]
          simp [patch]
        · rw [← same]
          rfl

theorem copy_of_block (word : data.length < 0x100000000) (header : place.pos + 4 ≤ data.length)
    (chunks : Chunks data place.chunkStart out) :
    ∃ needed pos, ∀ rounds, needed ≤ rounds → ∀ s : Rebuf, s.At place → s.nextLen ≠ 0 →
      s.buf.length < 0x100000000 → s.Fits out →
        copyBlocks data (rounds + 1) s = copyBlocks data rounds (s.behind data out pos) := by
  rcases copy_of_chunks word chunks with ⟨needed, pos, copies⟩
  refine ⟨needed, pos, ?_⟩
  intro rounds enough s here goes bufWord fits
  have start : (s.entered data).currPos = place.chunkStart := by
    rw [Rebuf.entered, here.currPos]
    rfl
  have inside : s.currPos + 4 ≤ data.length := by
    rw [here.currPos]
    exact header
  rw [copy_blocks_step inside goes, copies rounds enough (s.entered data) start bufWord fits]
  rfl

/-- With enough rounds the outer loop copies the blocks from its place on. -/
theorem copy_of_stream (word : data.length < 0x100000000) (stream : Stream data place out) :
    ∃ needed, ∀ rounds, needed ≤ rounds → ∀ s : Rebuf, s.At place → s.nextLen ≠ 0 →
      s.buf.length < 0x100000000 → s.Fits out →
        ∃ last, copyBlocks data rounds s = .ok last ∧ s.Leaves out last := by
  induction stream with
  | @past place past =>
      refine ⟨1, ?_⟩
      intro rounds enough s here _ _ _
      rcases Nat.exists_eq_add_of_le' enough with ⟨rounds, rfl⟩
      refine ⟨s, copy_blocks_done ?_, ?_, rfl⟩
      · rw [here.currPos]
        omega
      · simp [patch]
  | @last place out header zero chunks =>
      rcases copy_of_block word header chunks with ⟨needed, pos, copies⟩
      refine ⟨needed + 2, ?_⟩
      intro rounds enough s here goes bufWord fits
      rcases Nat.exists_eq_add_of_le' (Nat.le_of_add_left_le enough) with ⟨rounds, rfl⟩
      have done : (s.behind data out pos).nextLen = 0 := by
        rw [← zero, ← here.currPos]
        rfl
      refine ⟨s.behind data out pos, ?_, rfl, rfl⟩
      rw [copies (rounds + 1) (by omega) s here goes bufWord fits,
        copy_blocks_done (fun both => both.2 done)]
  | @more place out rest header announced chunks _ ih =>
      rcases copy_of_block word header chunks with ⟨needed, pos, copies⟩
      rcases ih with ⟨neededLater, later⟩
      refine ⟨max needed neededLater + 1, ?_⟩
      intro rounds enough s here goes bufWord fits
      rcases Nat.exists_eq_add_of_le' (Nat.one_le_of_lt enough) with ⟨rounds, rfl⟩
      have first : s.Fits out := by
        rw [Rebuf.Fits, List.length_append] at fits
        rw [Rebuf.Fits]
        omega
      have kept : (patch s.buf s.compressedSz out).length = s.buf.length := patch_length first
      have onward : (s.behind data out pos).nextLen ≠ 0 := by
        rw [← here.currPos] at announced
        exact announced
      rcases later rounds (by omega) (s.behind data out pos) (behind_at here out pos) onward
        (kept ▸ bufWord) ((copied_fits first).mpr fits) with ⟨last, run, leaves⟩
      refine ⟨last, ?_, leaves_append first ⟨rfl, rfl⟩ leaves⟩
      rw [copies rounds (by omega) s here goes bufWord first, run]

end Loops

/-! ## Outcomes -/

section Outcomes

variable {data out malloced : Bytes} {firstSize : Nat} {result : Option Bytes × Nat}

theorem start_at (malloced : Bytes) (firstSize : Nat) :
    Rebuf.At ⟨malloced, firstSize, 1, 0, 0, 0⟩ ⟨0, firstSize⟩ := ⟨rfl, rfl, rfl⟩

/-- The function returns exactly when the blocks from the start on lie in the
input and what they hold fits the buffer. -/
theorem rebuf_returns_iff (word : data.length < 0x100000000)
    (bufWord : malloced.length < 0x100000000) :
    RebufReturns (some malloced) data firstSize result ↔
      ∃ out, Stream data ⟨0, firstSize⟩ out ∧ out.length ≤ malloced.length ∧
        result = (some (patch malloced 0 out), out.length) := by
  constructor
  · intro returns
    rcases returns with ⟨needed, returns⟩
    have run := returns needed (Nat.le_refl _)
    rw [rebufInData, bind_ok_iff] at run
    rcases run with ⟨last, run, made⟩
    rcases stream_of_copy word bufWord (Nat.zero_le _) (start_at malloced firstSize)
      (Nat.one_ne_zero) run with ⟨out, stream, fits, buf, size⟩
    rw [Rebuf.Fits, Nat.zero_add] at fits
    rw [Nat.zero_add] at size
    refine ⟨out, stream, fits, ?_⟩
    rw [← buf, ← size]
    exact (Except.ok.inj made).symm
  · intro walked
    rcases walked with ⟨out, stream, fits, rfl⟩
    rcases copy_of_stream word stream with ⟨needed, copies⟩
    refine ⟨needed, ?_⟩
    intro rounds enough
    have room : Rebuf.Fits ⟨malloced, firstSize, 1, 0, 0, 0⟩ out := by
      rw [Rebuf.Fits, Nat.zero_add]
      exact fits
    rcases copies rounds enough _ (start_at malloced firstSize) Nat.one_ne_zero bufWord room with
      ⟨last, run, buf, size⟩
    rw [Nat.zero_add] at size
    rw [rebufInData, run, ok_bind, buf, size]
    rfl

end Outcomes

end XeBuild.Iso2svod
