import Mathlib.Data.Finite.Prod
import XeBuild.Iso2svod.XexInflate
import XeBuild.Lib.FiniteWalk

/-!
# Compressed streams

Blocks as the format stores them come out of `rebufInData` as their payload. For
any other input, the blocks that the loop comes to decide whether it stays in
its buffers.
-/

namespace XeBuild.Iso2svod

open CheckedBuffer FiniteWalk ListRange Relation

set_option autoImplicit false

/-! ## Stored blocks -/

structure DataChunk where
  payload : Bytes
  length_pos : 0 < payload.length
  length_lt : payload.length < 0x10000

/-- Any bytes can follow the length zero behind the chunks. -/
structure DataBlock where
  digest : Digest
  chunks : List DataChunk
  padding : Bytes

def beU16 (value : Nat) : Bytes := [UInt8.ofNat (value / 0x100), UInt8.ofNat value]

def DataChunk.bytes (chunk : DataChunk) : Bytes := beU16 chunk.payload.length ++ chunk.payload

def chunkBytes (chunks : List DataChunk) : Bytes := chunks.flatMap DataChunk.bytes ++ [0, 0]

def DataBlock.size (block : DataBlock) : Nat :=
  0x18 + (chunkBytes block.chunks).length + block.padding.length

def firstDataSize : List DataBlock → Nat
  | [] => 0
  | block :: _ => block.size

def DataBlock.bytes (block : DataBlock) (next : Nat) : Bytes :=
  beU32 next ++ (block.digest.bytes ++ (chunkBytes block.chunks ++ block.padding))

def streamBytes : List DataBlock → Bytes
  | [] => []
  | block :: blocks => block.bytes (firstDataSize blocks) ++ streamBytes blocks

def chunkPayloads (chunks : List DataChunk) : Bytes := chunks.flatMap DataChunk.payload

def payloads (blocks : List DataBlock) : Bytes :=
  blocks.flatMap fun block => chunkPayloads block.chunks

section Stored

variable {before after : Bytes}

theorem block_length (block : DataBlock) (next : Nat) :
    (block.bytes next).length = block.size := by
  have digest : block.digest.bytes.length = 0x14 := block.digest.size
  simp only [DataBlock.bytes, DataBlock.size, beU32, hostU32, List.length_append, List.length_cons,
    List.length_nil, digest]
  omega

theorem be16_stored {value : Nat} (word : value < 0x10000) :
    be16 (before ++ (beU16 value ++ after)) before.length = value := by
  have field : slice (before ++ (beU16 value ++ after)) before.length 2 = beU16 value :=
    slice_append_right before (beU16 value ++ after) 0 2
  rw [be16, field]
  simp only [beU16, getBe16, List.getD_cons_zero, List.getD_cons_succ, UInt8.toNat_ofNat']
  omega

theorem chunks_stored (chunks : List DataChunk) :
    Chunks (before ++ (chunkBytes chunks ++ after)) before.length (chunkPayloads chunks) := by
  induction chunks generalizing before with
  | nil =>
      apply Chunks.finish
      · simp [chunkBytes]
      · exact @be16_stored before after 0 (by decide)
  | cons chunk chunks ih =>
      have shape : before ++ (chunkBytes (chunk :: chunks) ++ after) =
          before ++ (beU16 chunk.payload.length ++
            (chunk.payload ++ (chunkBytes chunks ++ after))) := by
        simp only [chunkBytes, DataChunk.bytes, List.flatMap_cons, List.append_assoc]
      have behind : before ++ (chunkBytes (chunk :: chunks) ++ after) =
          before ++ (beU16 chunk.payload.length ++ chunk.payload) ++
            (chunkBytes chunks ++ after) := by
        rw [shape]
        simp only [List.append_assoc]
      have length : be16 (before ++ (chunkBytes (chunk :: chunks) ++ after)) before.length =
          chunk.payload.length := by
        rw [shape, be16_stored chunk.length_lt]
      have found : slice (before ++ (chunkBytes (chunk :: chunks) ++ after)) (before.length + 2)
          chunk.payload.length = chunk.payload := by
        rw [shape, slice_append_right]
        simp [slice, beU16]
      have later := @ih (before ++ (beU16 chunk.payload.length ++ chunk.payload))
      have moved : (before ++ (beU16 chunk.payload.length ++ chunk.payload)).length =
          before.length + 2 + chunk.payload.length := by
        simp only [beU16, List.length_append, List.length_cons, List.length_nil]
        omega
      have size : before.length + 2 + chunk.payload.length + 2 ≤
          (before ++ (chunkBytes (chunk :: chunks) ++ after)).length := by
        rw [behind, List.length_append, moved, chunkBytes, List.length_append, List.length_append]
        simp only [List.length_cons, List.length_nil]
        omega
      have positive := chunk.length_pos
      rw [← behind, moved, ← length] at later
      rw [chunkPayloads, List.flatMap_cons]
      nth_rewrite 1 [← found]
      rw [← length]
      apply Chunks.chunk
      · omega
      · omega
      · omega
      · exact later

theorem block_stored {block : DataBlock} {next : Nat} (word : next < 0x100000000)
    (inside : (before ++ (block.bytes next ++ after)).length < 0x100000000) (size : Nat) :
    before.length + 4 ≤ (before ++ (block.bytes next ++ after)).length ∧
      be32 (before ++ (block.bytes next ++ after)) before.length = next ∧
      Chunks (before ++ (block.bytes next ++ after)) (StreamPlace.chunkStart ⟨before.length, size⟩)
        (chunkPayloads block.chunks) := by
  have whole := block_length block next
  have digest : block.digest.bytes.length = 0x14 := block.digest.size
  have shape : before ++ (block.bytes next ++ after) = before ++ (beU32 next ++
      (block.digest.bytes ++ (chunkBytes block.chunks ++ (block.padding ++ after)))) := by
    simp only [DataBlock.bytes, List.append_assoc]
  have behind : before ++ (block.bytes next ++ after) =
      before ++ (beU32 next ++ block.digest.bytes) ++
        (chunkBytes block.chunks ++ (block.padding ++ after)) := by
    rw [shape]
    simp only [List.append_assoc]
  have start : (before ++ (beU32 next ++ block.digest.bytes)).length = before.length + 0x18 := by
    simp only [beU32, hostU32, List.length_append, List.length_cons, List.length_nil, digest]
  rw [List.length_append, List.length_append, whole, DataBlock.size] at inside
  refine ⟨?_, ?_, ?_⟩
  · rw [List.length_append, List.length_append, whole, DataBlock.size]
    omega
  · rw [shape, be32_stored word]
  · have small : before.length + 0x18 < 0x100000000 := by omega
    have moved : StreamPlace.chunkStart ⟨before.length, size⟩ = before.length + 0x18 :=
      u32_of_lt small
    rw [moved, ← start, behind]
    exact chunks_stored block.chunks

theorem stream_stored (block : DataBlock) (blocks : List DataBlock)
    (word : (before ++ (streamBytes (block :: blocks) ++ after)).length < 0x100000000) :
    Stream (before ++ (streamBytes (block :: blocks) ++ after)) ⟨before.length, block.size⟩
      (payloads (block :: blocks)) := by
  induction blocks generalizing before block with
  | nil =>
      have shape : before ++ (streamBytes [block] ++ after) =
          before ++ (block.bytes 0 ++ after) := by
        rw [streamBytes, streamBytes, List.append_nil, firstDataSize]
      have payload : payloads [block] = chunkPayloads block.chunks := List.flatMap_singleton _ _
      rw [shape] at word ⊢
      rw [payload]
      rcases block_stored (Nat.succ_pos _) word block.size with ⟨header, announced, chunks⟩
      exact Stream.last header announced chunks
  | cons next blocks ih =>
      have shape : before ++ (streamBytes (block :: next :: blocks) ++ after) =
          before ++ (block.bytes next.size ++ (streamBytes (next :: blocks) ++ after)) := by
        rw [streamBytes, firstDataSize, List.append_assoc]
      have behind : before ++ (block.bytes next.size ++ (streamBytes (next :: blocks) ++ after)) =
          before ++ block.bytes next.size ++ (streamBytes (next :: blocks) ++ after) :=
        (List.append_assoc _ _ _).symm
      have moved : (before ++ block.bytes next.size).length = before.length + block.size := by
        rw [List.length_append, block_length]
      rw [shape] at word ⊢
      have small : before.length + block.size + next.size < 0x100000000 := by
        rw [streamBytes] at word
        simp only [List.length_append, block_length] at word
        omega
      rcases block_stored (by omega) word block.size with ⟨header, announced, chunks⟩
      have later := @ih (before ++ block.bytes next.size) next (behind ▸ word)
      rw [← behind, moved] at later
      rw [payloads, List.flatMap_cons, ← payloads]
      apply Stream.more header
      · rw [announced, DataBlock.size]
        omega
      · exact chunks
      · have room : before.length + block.size < 0x100000000 := by omega
        rw [StreamPlace.next, announced, u32_of_lt room]
        exact later

theorem chunk_payloads_le (chunks : List DataChunk) :
    (chunkPayloads chunks).length ≤ (chunkBytes chunks).length := by
  induction chunks with
  | nil => exact Nat.zero_le _
  | cons chunk chunks ih =>
      rw [chunkBytes, List.length_append] at ih ⊢
      rw [chunkPayloads, List.flatMap_cons, List.length_append, List.flatMap_cons,
        List.length_append, DataChunk.bytes, List.length_append, ← chunkPayloads]
      omega

theorem payloads_le (blocks : List DataBlock) :
    (payloads blocks).length ≤ (streamBytes blocks).length := by
  induction blocks with
  | nil => exact Nat.zero_le _
  | cons block blocks ih =>
      have chunks := chunk_payloads_le block.chunks
      rw [payloads, List.flatMap_cons, List.length_append, ← payloads, streamBytes,
        List.length_append, block_length, DataBlock.size]
      omega

end Stored

/-- Stored blocks come out as their payload, whatever follows the last one. -/
theorem rebuf_stored_blocks (blocks : List DataBlock) (tail malloced : Bytes)
    (first : blocks ≠ [] ∨ tail = [])
    (word : (streamBytes blocks ++ tail).length < 0x100000000)
    (allocated : malloced.length = (streamBytes blocks ++ tail).length) :
    ∃ buf finSiz,
      RebufReturns (some malloced) (streamBytes blocks ++ tail) (firstDataSize blocks)
        (some buf, finSiz) ∧
      finSiz = (payloads blocks).length ∧ buf.take finSiz = payloads blocks := by
  have stream : Stream (streamBytes blocks ++ tail) ⟨0, firstDataSize blocks⟩
      (payloads blocks) := by
    cases blocks with
    | nil =>
        rcases first with filled | rfl
        · exact absurd rfl filled
        · exact Stream.past (Nat.le_refl _)
    | cons block blocks => exact @stream_stored [] tail block blocks word
  have fits : (payloads blocks).length ≤ malloced.length := by
    have short := payloads_le blocks
    rw [allocated, List.length_append]
    omega
  refine ⟨_, _, (rebuf_returns_iff word (allocated ▸ word)).mpr ⟨_, stream, fits, rfl⟩, rfl, ?_⟩
  simp [patch]

theorem three_bytes_pos : 0 < [(1 : Byte), 2, 3].length := by decide

theorem three_bytes_lt : [(1 : Byte), 2, 3].length < 0x10000 := by decide

def threeBytes : DataChunk := ⟨[1, 2, 3], three_bytes_pos, three_bytes_lt⟩

def twoBlocks : List DataBlock :=
  [⟨Digest.zero, [threeBytes, threeBytes], [0xAA]⟩, ⟨Digest.zero, [threeBytes], []⟩]

theorem two_blocks_rebuffed :
    ∃ buf finSiz,
      RebufReturns (some (zeros 0x44)) (streamBytes twoBlocks ++ []) (firstDataSize twoBlocks)
        (some buf, finSiz) ∧
      finSiz = (payloads twoBlocks).length ∧ buf.take finSiz = payloads twoBlocks :=
  rebuf_stored_blocks twoBlocks [] (zeros 0x44) (Or.inr rfl) (by decide) (by decide)

/-! ## Any input -/

/-- The places behind a place: none at the end of the input and at the last block. -/
def Follows (data : Bytes) (place next : StreamPlace) : Prop :=
  place.pos < data.length ∧ be32 data place.pos ≠ 0 ∧ next = place.next data

/-- The place can be read: it is behind the input, or its header and its chunks
lie in the input. -/
def BlockInside (data : Bytes) (place : StreamPlace) : Prop :=
  place.pos < data.length →
    place.pos + 4 ≤ data.length ∧ ∃ out, Chunks data place.chunkStart out

structure StreamSafe (data : Bytes) (firstSize : Nat) : Prop where
  inside : ∀ place, ReflTransGen (Follows data) ⟨0, firstSize⟩ place → BlockInside data place
  ends : NoReturn (Follows data) ⟨0, firstSize⟩
  /-- What the blocks hold fits a buffer of the size of the input. -/
  fits : ∀ out, Stream data ⟨0, firstSize⟩ out → out.length ≤ data.length

section Safe

variable {data : Bytes} {place next : StreamPlace} {firstSize : Nat}

theorem stream_ends {out : Bytes} (stream : Stream data place out) :
    Ends (Follows data) place ∧
      ∀ later, ReflTransGen (Follows data) place later → BlockInside data later := by
  have cons {place : StreamPlace} (here : BlockInside data place)
      (behind : ∀ next, Follows data place next → Ends (Follows data) next ∧
        ∀ later, ReflTransGen (Follows data) next later → BlockInside data later) :
      Ends (Follows data) place ∧
        ∀ later, ReflTransGen (Follows data) place later → BlockInside data later := by
    refine ⟨⟨_, fun next step => (behind next step).1⟩, ?_⟩
    intro last path
    rcases ReflTransGen.cases_head path with rfl | ⟨next, step, path⟩
    · exact here
    · exact (behind next step).2 last path
  induction stream with
  | past past =>
      apply cons
      · intro inside
        omega
      · intro next step
        exact absurd step.1 (Nat.not_lt.mpr past)
  | last header zero chunks =>
      apply cons (fun _ => ⟨header, _, chunks⟩)
      intro next step
      exact absurd zero step.2.1
  | more header announced chunks _ ih =>
      apply cons (fun _ => ⟨header, _, chunks⟩)
      intro next step
      rw [step.2.2]
      exact ih

theorem stream_of_ends (ends : Ends (Follows data) place)
    (inside : ∀ later, ReflTransGen (Follows data) place later → BlockInside data later) :
    ∃ out, Stream data place out := by
  induction ends with
  | intro place _ ih =>
      by_cases past : data.length ≤ place.pos
      · exact ⟨[], Stream.past past⟩
      · rcases inside place ReflTransGen.refl (Nat.lt_of_not_le past) with ⟨header, out, chunks⟩
        by_cases zero : be32 data place.pos = 0
        · exact ⟨out, Stream.last header zero chunks⟩
        · have step : Follows data place (place.next data) := ⟨by omega, zero, rfl⟩
          rcases ih (place.next data) step
            (fun later path => inside later (ReflTransGen.head step path)) with ⟨rest, stream⟩
          exact ⟨out ++ rest, Stream.more header zero chunks stream⟩

def StreamPlace.Words (place : StreamPlace) : Prop :=
  place.pos < 0x100000000 ∧ place.size < 0x100000000

theorem stream_words_finite : {place : StreamPlace | place.Words}.Finite := by
  have words := Set.finite_lt_nat 0x100000000
  have pairs := (words.prod words).image fun pair => (⟨pair.1, pair.2⟩ : StreamPlace)
  apply pairs.subset
  intro place bounds
  exact ⟨(place.pos, place.size), bounds, rfl⟩

theorem followed_finite (size : firstSize < 0x100000000) :
    {place | ReflTransGen (Follows data) ⟨0, firstSize⟩ place}.Finite := by
  apply stream_words_finite.subset
  intro place path
  have start : StreamPlace.Words ⟨0, firstSize⟩ := ⟨Nat.succ_pos _, size⟩
  have kept : ∀ earlier later : StreamPlace, earlier.Words → Follows data earlier later →
      later.Words := by
    intro earlier later _ step
    rw [step.2.2]
    exact ⟨u32_lt _, be32_lt _ _⟩
  exact reached_invariant start kept path

theorem stream_safe_iff (size : firstSize < 0x100000000) :
    StreamSafe data firstSize ↔
      ∃ out, Stream data ⟨0, firstSize⟩ out ∧ out.length ≤ data.length := by
  constructor
  · intro safe
    have ends := (ends_iff_no_return (followed_finite size)).mpr safe.ends
    rcases stream_of_ends ends safe.inside with ⟨out, stream⟩
    exact ⟨out, stream, safe.fits out stream⟩
  · intro walked
    rcases walked with ⟨out, stream, fits⟩
    rcases stream_ends stream with ⟨ends, inside⟩
    refine ⟨inside, (ends_iff_no_return (followed_finite size)).mp ends, ?_⟩
    intro other again
    rwa [stream_unique again stream]

/-- The function stays in its buffers and returns exactly on such an input. -/
theorem rebuf_safe_iff {malloced : Bytes} (word : data.length < 0x100000000)
    (size : firstSize < 0x100000000) (allocated : malloced.length = data.length) :
    (∃ buf finSiz, RebufReturns (some malloced) data firstSize (some buf, finSiz) ∧
        finSiz ≤ data.length) ↔
      StreamSafe data firstSize := by
  rw [stream_safe_iff size]
  constructor
  · intro returns
    rcases returns with ⟨buf, finSiz, returns, _⟩
    rcases (rebuf_returns_iff word (allocated ▸ word)).mp returns with ⟨out, stream, fits, _⟩
    exact ⟨out, stream, allocated ▸ fits⟩
  · intro walked
    rcases walked with ⟨out, stream, fits⟩
    refine ⟨_, _, (rebuf_returns_iff word (allocated ▸ word)).mpr
      ⟨out, stream, allocated ▸ fits, rfl⟩, fits⟩

end Safe

def cyclicStream : Bytes := [0xFF, 0xFF, 0xFF, 0xF8, 0, 0, 0, 0, 0, 0, 0, 8] ++ zeros 0x16

theorem cyclic_stream_returns : TransGen (Follows cyclicStream) ⟨0, 8⟩ ⟨0, 8⟩ := by
  have forth : Follows cyclicStream ⟨0, 8⟩ ⟨8, 0xFFFFFFF8⟩ := by
    refine ⟨by decide, by decide, by decide⟩
  have back : Follows cyclicStream ⟨8, 0xFFFFFFF8⟩ ⟨0, 8⟩ := by
    refine ⟨by decide, by decide, by decide⟩
  exact (TransGen.single forth).tail back

/-- A header that is cut off is read past its end, and a cycle is never left. -/
theorem small_inputs_not_rebuffed :
    (¬ ∃ buf finSiz, RebufReturns (some (zeros 3)) (zeros 3) 0x20 (some buf, finSiz) ∧
        finSiz ≤ 3) ∧
      ¬ ∃ buf finSiz, RebufReturns (some (zeros 0x22)) cyclicStream 8 (some buf, finSiz) ∧
        finSiz ≤ 0x22 := by
  constructor
  · intro returns
    rcases returns with ⟨buf, finSiz, returns, _⟩
    rcases (rebuf_returns_iff (by decide) (by decide)).mp returns with ⟨out, stream, _⟩
    have inside := (stream_ends stream).2 _ ReflTransGen.refl (by decide)
    exact absurd inside.1 (by decide)
  · intro returns
    rcases returns with ⟨buf, finSiz, returns, _⟩
    rcases (rebuf_returns_iff (by decide) (by decide)).mp returns with ⟨out, stream, _⟩
    exact not_cycle_of_ends (stream_ends stream).1 cyclic_stream_returns

theorem two_blocks_stream_safe :
    StreamSafe (streamBytes twoBlocks) (firstDataSize twoBlocks) := by
  have stored := @stream_stored [] [] ⟨Digest.zero, [threeBytes, threeBytes], [0xAA]⟩
    [⟨Digest.zero, [threeBytes], []⟩] (by decide)
  rw [List.append_nil, List.nil_append] at stored
  exact (stream_safe_iff (by decide)).mpr ⟨_, stored, payloads_le twoBlocks⟩

/-- The input of the two stored blocks. -/
theorem two_blocks_safe :
    ∃ buf finSiz, RebufReturns (some (zeros 0x44)) (streamBytes twoBlocks)
        (firstDataSize twoBlocks) (some buf, finSiz) ∧
      finSiz ≤ (streamBytes twoBlocks).length :=
  (rebuf_safe_iff (by decide) (by decide) (by decide)).mpr two_blocks_stream_safe

end XeBuild.Iso2svod
