import XeBuild.Lib.Runs
import XeBuild.Lib.WordBits
import XeBuild.Mspack.MemFile

/-!
# Reading bits

The macros of `readbits.h` as LZX uses them: 16-bit words of the input, the low
byte first, are put behind the bits of a 32-bit buffer, and bits are taken from its
top. At the end of the input two zero bytes are made up, once.
-/

namespace XeBuild.Mspack

open BitText Runs

set_option autoImplicit false

def MSPACK_ERR_OK : Nat := 0
def MSPACK_ERR_ARGS : Nat := 1
def MSPACK_ERR_READ : Nat := 3
def MSPACK_ERR_WRITE : Nat := 4
def MSPACK_ERR_DECRUNCH : Nat := 11

inductive LzxArray
  | inbuf
  | window
  | e8_buf
  | PRETREE_table
  | MAINTREE_table
  | LENGTH_table
  | ALIGNED_table
  | lens
  | position_base
  deriving DecidableEq, Repr

/-- Why the decoding stops: an error of the library, an access outside of an array, or
a loop that is given too few rounds. -/
inductive Stop
  | error (status : Nat)
  | outside (array : LzxArray) (index : Nat)
  | roundsSpent
  deriving DecidableEq, Repr

/-- The variables of the bit stream. `ahead` are the bytes from `i_ptr` to `i_end`. -/
structure BitReader where
  input : Option MemFile
  inbuf_size : Nat
  ahead : Bytes
  input_end : Bool
  bit_buffer : Nat
  bits_left : Nat

def readInput (p : BitReader) : Except Stop BitReader :=
  match memRead p.input p.inbuf_size with
  | none => .error (.error MSPACK_ERR_READ)
  | some (read, input) =>
      if read = [] then
        if p.input_end then .error (.error MSPACK_ERR_READ)
        else .ok { p with input := input, ahead := [0, 0], input_end := true }
      else .ok { p with input := input, ahead := read }

def readIfNeeded (p : BitReader) : Except Stop BitReader :=
  if p.ahead = [] then readInput p else .ok p

def takeByte (p : BitReader) : Except Stop (Byte × BitReader) :=
  match p.ahead with
  | [] => .error (.outside .inbuf 0)
  | byte :: rest => .ok (byte, { p with ahead := rest })

def nextByte (p : BitReader) : Except Stop (Byte × BitReader) := do
  let p ← readIfNeeded p
  takeByte p

def bitbufWidth : Nat := 32

def injectBits (bitdata nbits : Nat) (p : BitReader) : BitReader :=
  { p with
    bit_buffer := p.bit_buffer ||| (bitdata <<< (bitbufWidth - nbits - p.bits_left)) % 2 ^ bitbufWidth
    bits_left := p.bits_left + nbits }

def readBytes (p : BitReader) : Except Stop BitReader := do
  let (b0, p) ← nextByte p
  let (b1, p) ← nextByte p
  return injectBits ((b1.toNat <<< 8) ||| b0.toNat) 16 p

def ensureLoop (nbits : Nat) : Nat → BitReader → Except Stop BitReader
  | 0, p => if p.bits_left < nbits then .error .roundsSpent else .ok p
  | rounds + 1, p =>
      if p.bits_left < nbits then do
        let p ← readBytes p
        ensureLoop nbits rounds p
      else .ok p

def ensureBits (nbits : Nat) (p : BitReader) : Except Stop BitReader := ensureLoop nbits nbits p

def peekBits (nbits : Nat) (p : BitReader) : Nat := p.bit_buffer >>> (bitbufWidth - nbits)

def removeBits (nbits : Nat) (p : BitReader) : BitReader :=
  { p with
    bit_buffer := (p.bit_buffer <<< nbits) % 2 ^ bitbufWidth
    bits_left := p.bits_left - nbits }

def readBits (nbits : Nat) (p : BitReader) : Except Stop (Nat × BitReader) := do
  let p ← ensureBits nbits p
  return (peekBits nbits p, removeBits nbits p)

/-! ## The bytes that are left -/

/-- The bytes that were not taken yet, with those that are made up at the end. -/
def BitReader.unread (p : BitReader) : Bytes :=
  match p.input with
  | none => p.ahead
  | some fh => p.ahead ++ fh.rest ++ if p.input_end then [] else [0, 0]

/-- A buffer that can be filled, with room for the two made-up bytes. -/
def BitReader.Buffered (p : BitReader) : Prop := 2 ≤ p.inbuf_size

/-- The two readers have the same bits and bytes ahead, however they are buffered. -/
structure SameAhead (p q : BitReader) : Prop where
  unread : p.unread = q.unread
  bit_buffer : p.bit_buffer = q.bit_buffer
  bits_left : p.bits_left = q.bits_left

section Bytes

variable {p p' : BitReader} {byte : Byte} {rest : Bytes}

theorem take_byte_unread (shape : p.ahead = byte :: rest) :
    ∃ p', takeByte p = .ok (byte, p') ∧ p.unread = byte :: p'.unread ∧
      p'.inbuf_size = p.inbuf_size ∧ p'.bit_buffer = p.bit_buffer ∧ p'.bits_left = p.bits_left := by
  refine ⟨{ p with ahead := rest }, by rw [takeByte, shape], ?_, rfl, rfl, rfl⟩
  cases input : p.input with
  | none =>
      rw [BitReader.unread, BitReader.unread, input]
      exact shape
  | some fh =>
      rw [BitReader.unread, BitReader.unread, input]
      dsimp only
      rw [shape, List.cons_append, List.cons_append]

/-- A refill changes nothing of what is ahead; it fails when nothing is. -/
theorem read_if_needed_result (buffered : p.Buffered) :
    (p.unread = [] ∧ readIfNeeded p = .error (.error MSPACK_ERR_READ)) ∨
      ∃ p' byte rest, readIfNeeded p = .ok p' ∧ p'.ahead = byte :: rest ∧ SameAhead p' p ∧
        p'.inbuf_size = p.inbuf_size := by
  cases ahead : p.ahead with
  | cons byte rest =>
      refine Or.inr ⟨p, byte, rest, ?_, ahead, ⟨rfl, rfl, rfl⟩, rfl⟩
      rw [readIfNeeded, ahead, if_neg (List.cons_ne_nil _ _)]
  | nil =>
      rw [readIfNeeded, if_pos ahead, readInput]
      cases input : p.input with
      | none =>
          refine Or.inl ⟨?_, by rw [memRead]⟩
          rw [BitReader.unread, input]
          exact ahead
      | some fh =>
          rw [mem_read_rest]
          dsimp only
          cases rest : fh.rest with
          | nil =>
              rw [List.take_nil, if_pos rfl]
              cases ended : p.input_end with
              | true =>
                  refine Or.inl ⟨?_, if_pos rfl⟩
                  rw [BitReader.unread, input]
                  dsimp only
                  rw [ahead, rest, ended]
                  rfl
              | false =>
                  refine Or.inr ⟨_, 0, [0], if_neg Bool.false_ne_true, rfl, ⟨?_, rfl, rfl⟩, rfl⟩
                  rw [BitReader.unread, BitReader.unread, input]
                  dsimp only
                  rw [skip_rest, rest, ahead, ended, List.drop_nil]
                  rfl
          | cons byte bytes =>
              rcases Nat.exists_eq_succ_of_ne_zero (Nat.ne_of_gt
                (Nat.lt_of_lt_of_le (by decide : 0 < 2) buffered)) with ⟨size, sized⟩
              rw [sized, List.take_succ_cons, if_neg (List.cons_ne_nil _ _)]
              refine Or.inr ⟨_, byte, bytes.take size, rfl, rfl, ⟨?_, rfl, rfl⟩, rfl⟩
              rw [BitReader.unread, BitReader.unread, input]
              dsimp only
              rw [skip_rest, ahead, ← List.take_succ_cons, ← rest, List.take_append_drop]
              rfl

/-- The next byte is the first of those that are left, whatever the buffer holds. -/
theorem next_byte_result (buffered : p.Buffered) :
    (p.unread = [] ∧ nextByte p = .error (.error MSPACK_ERR_READ)) ∨
      ∃ byte p', nextByte p = .ok (byte, p') ∧ p.unread = byte :: p'.unread ∧
        p'.inbuf_size = p.inbuf_size ∧ p'.bit_buffer = p.bit_buffer ∧
        p'.bits_left = p.bits_left := by
  rcases read_if_needed_result buffered with ⟨none, failed⟩ | ⟨p₁, byte, rest, run, ahead, same, size⟩
  · refine Or.inl ⟨none, ?_⟩
    rw [nextByte, failed]
    rfl
  · rcases take_byte_unread ahead with ⟨p', taken, shape, size', buffer, left⟩
    refine Or.inr ⟨byte, p', ?_, ?_, ?_, ?_, ?_⟩
    · rw [nextByte, run, ok_bind, taken]
    · rw [← same.unread, shape]
    · rw [size', size]
    · rw [buffer, same.bit_buffer]
    · rw [left, same.bits_left]

end Bytes

/-! ## The bits in the buffer -/

def BitReader.held (p : BitReader) : Nat := p.bit_buffer / 2 ^ (bitbufWidth - p.bits_left)

/-- The buffer has its bits at the top, and zeros behind them. -/
structure BitReader.Sound (p : BitReader) : Prop where
  buffered : p.Buffered
  left : p.bits_left ≤ bitbufWidth
  buffer : p.bit_buffer = p.held * 2 ^ (bitbufWidth - p.bits_left)
  held : p.held < 2 ^ p.bits_left

def BitReader.loaded (p : BitReader) : List Bool := toBits p.bits_left p.held

section Buffer

variable {p p' : BitReader} {count word value : Nat}

theorem held_of_buffer (left : p.bits_left ≤ bitbufWidth)
    (buffer : p.bit_buffer = value * 2 ^ (bitbufWidth - p.bits_left))
    (small : value < 2 ^ p.bits_left) (buffered : p.Buffered) : p.Sound ∧ p.held = value := by
  have same : p.held = value := by
    rw [BitReader.held, buffer, Nat.mul_div_cancel _ (Nat.two_pow_pos _)]
  exact ⟨⟨buffered, left, by rw [same]; exact buffer, by rw [same]; exact small⟩, same⟩

theorem inject_sound (sound : p.Sound) (word_ : word < 2 ^ 16) (room : p.bits_left ≤ 16) :
    (injectBits word 16 p).Sound ∧ (injectBits word 16 p).held = p.held * 2 ^ 16 + word ∧
      (injectBits word 16 p).bits_left = p.bits_left + 16 := by
  have small := sound.held
  have shift : bitbufWidth - 16 - p.bits_left = bitbufWidth - (p.bits_left + 16) := by
    rw [bitbufWidth]
    omega
  have above : bitbufWidth - p.bits_left = 16 + (bitbufWidth - (p.bits_left + 16)) := by
    rw [bitbufWidth]
    omega
  have width : 2 ^ bitbufWidth =
      2 ^ p.bits_left * (2 ^ 16 * 2 ^ (bitbufWidth - (p.bits_left + 16))) := by
    rw [← Nat.pow_add, ← Nat.pow_add, ← above, Nat.add_sub_cancel' sound.left]
  have low : word * 2 ^ (bitbufWidth - (p.bits_left + 16)) <
      2 ^ 16 * 2 ^ (bitbufWidth - (p.bits_left + 16)) :=
    Nat.mul_lt_mul_of_pos_right word_ (Nat.two_pow_pos _)
  have inside : word * 2 ^ (bitbufWidth - (p.bits_left + 16)) < 2 ^ bitbufWidth := by
    rw [width]
    exact Nat.lt_of_lt_of_le low (Nat.le_mul_of_pos_left _ (Nat.two_pow_pos _))
  have joined : (injectBits word 16 p).bit_buffer =
      (p.held * 2 ^ 16 + word) * 2 ^ (bitbufWidth - (p.bits_left + 16)) := by
    have high : p.bit_buffer = 2 ^ (16 + (bitbufWidth - (p.bits_left + 16))) * p.held := by
      rw [← above, Nat.mul_comm]
      exact sound.buffer
    show p.bit_buffer ||| (word <<< (bitbufWidth - 16 - p.bits_left)) % 2 ^ bitbufWidth = _
    rw [shift, Nat.shiftLeft_eq, Nat.mod_eq_of_lt inside, high, ← Nat.two_pow_add_eq_or_of_lt]
    · rw [Nat.pow_add]
      ring
    · rw [Nat.pow_add]
      exact low
  have bound : p.held * 2 ^ 16 + word < 2 ^ (p.bits_left + 16) := by
    rw [Nat.pow_add]
    have scaled : (p.held + 1) * 2 ^ 16 ≤ 2 ^ p.bits_left * 2 ^ 16 :=
      Nat.mul_le_mul_right _ small
    rw [Nat.add_mul, Nat.one_mul] at scaled
    omega
  have both := @held_of_buffer (injectBits word 16 p) (p.held * 2 ^ 16 + word)
    (by show p.bits_left + 16 ≤ bitbufWidth; rw [bitbufWidth]; omega) joined bound sound.buffered
  exact ⟨both.1, both.2, rfl⟩

theorem inject_loaded (sound : p.Sound) (word_ : word < 2 ^ 16) (room : p.bits_left ≤ 16) :
    (injectBits word 16 p).loaded = p.loaded ++ toBits 16 word := by
  have after := inject_sound sound word_ room
  have high : (p.held * 2 ^ 16 + word) / 2 ^ 16 = p.held := by
    rw [Nat.add_comm, Nat.add_mul_div_right _ _ (Nat.two_pow_pos _), Nat.div_eq_of_lt word_,
      Nat.zero_add]
  have low : (p.held * 2 ^ 16 + word) % 2 ^ 16 = word := by
    rw [Nat.add_comm, Nat.add_mul_mod_self_right, Nat.mod_eq_of_lt word_]
  rw [BitReader.loaded, after.2.1, after.2.2, to_bits_add, high, ← to_bits_mod 16, low,
    BitReader.loaded]

theorem peek_held (sound : p.Sound) (enough : count ≤ p.bits_left) :
    peekBits count p = p.held / 2 ^ (p.bits_left - count) := by
  have left := sound.left
  have parts : bitbufWidth - count = (bitbufWidth - p.bits_left) + (p.bits_left - count) := by
    omega
  rw [peekBits, Nat.shiftRight_eq_div_pow, parts, Nat.pow_add, ← Nat.div_div_eq_div_mul,
    ← BitReader.held]

theorem remove_sound (sound : p.Sound) (enough : count ≤ p.bits_left) :
    (removeBits count p).Sound ∧
      (removeBits count p).held = p.held % 2 ^ (p.bits_left - count) := by
  have left := sound.left
  have parts : bitbufWidth - (p.bits_left - count) = (bitbufWidth - p.bits_left) + count := by
    omega
  have width : bitbufWidth = (p.bits_left - count) + (bitbufWidth - (p.bits_left - count)) := by
    omega
  have buffer : (removeBits count p).bit_buffer =
      p.held % 2 ^ (p.bits_left - count) * 2 ^ (bitbufWidth - (p.bits_left - count)) := by
    show (p.bit_buffer <<< count) % 2 ^ bitbufWidth = _
    nth_rewrite 1 [width]
    rw [Nat.shiftLeft_eq, sound.buffer, Nat.mul_assoc, ← Nat.pow_add, ← parts, Nat.pow_add,
      Nat.mul_mod_mul_right]
  exact held_of_buffer (by show p.bits_left - count ≤ bitbufWidth; omega) buffer
    (Nat.mod_lt _ (Nat.two_pow_pos _)) sound.buffered

/-- The bits of the buffer are those that are peeked and those that stay. -/
theorem loaded_split (sound : p.Sound) (enough : count ≤ p.bits_left) :
    p.loaded = toBits count (peekBits count p) ++ (removeBits count p).loaded ∧
      peekBits count p < 2 ^ count := by
  have after := remove_sound sound enough
  have left : (removeBits count p).bits_left = p.bits_left - count := rfl
  have size : p.bits_left = count + (p.bits_left - count) := by omega
  refine ⟨?_, ?_⟩
  · rw [BitReader.loaded, BitReader.loaded, after.2, left, peek_held sound enough, to_bits_mod,
      ← to_bits_add, ← size]
  · rw [peek_held sound enough, Nat.div_lt_iff_lt_mul (Nat.two_pow_pos _), ← Nat.pow_add, ← size]
    exact sound.held

end Buffer

/-! ## Filling the buffer -/

open WordBits

def BitReader.available (p : BitReader) : Nat := p.bits_left + 16 * (p.unread.length / 2)

def BitReader.Before (p : BitReader) (text : Text) : Prop := Shows p.loaded p.unread text

structure Fills (nbits : Nat) (p p' : BitReader) : Prop where
  sound : p'.Sound
  enough : nbits ≤ p'.bits_left
  least : p'.bits_left = p.bits_left ∨ p'.bits_left < nbits + 16
  available : p'.available = p.available
  before : ∀ text, p.Before text → p'.Before text

section Fill

variable {p p' : BitReader} {nbits rounds value : Nat} {text : Text}

theorem loaded_length : p.loaded.length = p.bits_left := to_bits_length _ _

theorem read_bytes_result (sound : p.Sound) (room : p.bits_left ≤ 16) :
    (p.unread.length < 2 ∧ readBytes p = .error (.error MSPACK_ERR_READ)) ∨
      ∃ p', readBytes p = .ok p' ∧ p'.Sound ∧ p'.bits_left = p.bits_left + 16 ∧
        p'.available = p.available ∧ ∀ text, p.Before text → p'.Before text := by
  rcases next_byte_result sound.buffered with ⟨none, failed⟩ |
    ⟨low, p₁, first, ahead₁, size₁, buffer₁, left₁⟩
  · refine Or.inl ⟨by rw [none]; decide, ?_⟩
    rw [readBytes, failed]
    rfl
  · have buffered₁ : p₁.Buffered := by
      rw [BitReader.Buffered, size₁]
      exact sound.buffered
    rcases next_byte_result buffered₁ with ⟨none, failed⟩ |
      ⟨high, p₂, second, ahead₂, size₂, buffer₂, left₂⟩
    · refine Or.inl ⟨by rw [ahead₁, none]; exact Nat.lt_succ_self 1, ?_⟩
      rw [readBytes, first, ok_bind]
      dsimp only
      rw [failed]
      rfl
    · have held₂ : p₂.held = p.held := by
        rw [BitReader.held, BitReader.held, buffer₂, buffer₁, left₂, left₁]
      have sound₂ : p₂.Sound := by
        refine ⟨?_, ?_, ?_, ?_⟩
        · rw [BitReader.Buffered, size₂]
          exact buffered₁
        · rw [left₂, left₁]
          exact sound.left
        · rw [held₂, buffer₂, buffer₁, left₂, left₁]
          exact sound.buffer
        · rw [held₂, left₂, left₁]
          exact sound.held
      have lowSmall := low.toNat_lt
      have highSmall := high.toNat_lt
      have word : (high.toNat <<< 8) ||| low.toNat = high.toNat * 256 + low.toNat := by
        rw [← Nat.shiftLeft_add_eq_or_of_lt lowSmall, Nat.shiftLeft_eq]
      have small : high.toNat * 256 + low.toNat < 2 ^ 16 := by omega
      have left : p₂.bits_left = p.bits_left := by rw [left₂, left₁]
      have after := inject_sound sound₂ small (by rw [left]; exact room)
      have unread : p.unread = low :: high :: p₂.unread := by rw [ahead₁, ahead₂]
      have same : (injectBits (high.toNat * 256 + low.toNat) 16 p₂).unread = p₂.unread := rfl
      refine Or.inr ⟨injectBits (high.toNat * 256 + low.toNat) 16 p₂, ?_, after.1, ?_, ?_, ?_⟩
      · rw [readBytes, first, ok_bind]
        dsimp only
        rw [second, ok_bind]
        dsimp only
        rw [word]
        rfl
      · rw [after.2.2, left]
      · rw [BitReader.available, after.2.2, same, left, BitReader.available, unread,
          List.length_cons, List.length_cons]
        omega
      · intro text before
        rw [BitReader.Before, unread] at before
        have loads := shows_load before
        have loaded : p₂.loaded = p.loaded := by rw [BitReader.loaded, BitReader.loaded, left, held₂]
        rw [BitReader.Before, same, inject_loaded sound₂ small (by rw [left]; exact room), loaded]
        exact loads

theorem ensure_loop_result (sound : p.Sound) (word : nbits ≤ 17)
    (count : nbits ≤ p.bits_left + 16 * rounds) :
    (p.available < nbits ∧ ensureLoop nbits rounds p = .error (.error MSPACK_ERR_READ)) ∨
      ∃ p', ensureLoop nbits rounds p = .ok p' ∧ Fills nbits p p' := by
  induction rounds generalizing p with
  | zero =>
      refine Or.inr ⟨p, ?_, sound, by omega, Or.inl rfl, rfl, fun _ before => before⟩
      rw [ensureLoop, if_neg (by omega)]
  | succ rounds ih =>
      rw [ensureLoop]
      by_cases short : p.bits_left < nbits
      · rw [if_pos short]
        rcases read_bytes_result sound (by omega) with ⟨none, failed⟩ |
          ⟨p₁, run, sound₁, left₁, available₁, before₁⟩
        · refine Or.inl ⟨?_, by rw [failed]; rfl⟩
          rw [BitReader.available]
          omega
        · rw [run, ok_bind]
          rcases ih sound₁ (by omega) with ⟨none, failed⟩ | ⟨p', more, fills⟩
          · exact Or.inl ⟨by rw [← available₁]; exact none, failed⟩
          · refine Or.inr ⟨p', more, fills.sound, fills.enough, ?_, fills.available.trans available₁,
              fun text before => fills.before text (before₁ text before)⟩
            rcases fills.least with same | least
            · exact Or.inr (by omega)
            · exact Or.inr least
      · rw [if_neg short]
        exact Or.inr ⟨p, rfl, sound, by omega, Or.inl rfl, rfl, fun _ before => before⟩

/-- The buffer can be filled exactly when so many bits are left of the input. -/
theorem ensure_bits_result (sound : p.Sound) (word : nbits ≤ 17) :
    (p.available < nbits ∧ ensureBits nbits p = .error (.error MSPACK_ERR_READ)) ∨
      ∃ p', ensureBits nbits p = .ok p' ∧ Fills nbits p p' :=
  ensure_loop_result sound word (by omega)

/-- Bits are read whenever they are left, and taken off what is left. -/
theorem read_bits_cases (sound : p.Sound) (word : nbits ≤ 17) :
    readBits nbits p = .error (.error MSPACK_ERR_READ) ∨
      ∃ value p', readBits nbits p = .ok (value, p') ∧ value < 2 ^ nbits ∧ p'.Sound ∧
        p'.available + nbits = p.available := by
  rcases ensure_bits_result sound word with ⟨_, failed⟩ | ⟨p₁, run, fills⟩
  · left
    rw [readBits, failed]
    rfl
  · right
    have enough := fills.enough
    have left : (removeBits nbits p₁).bits_left = p₁.bits_left - nbits := rfl
    have unread : (removeBits nbits p₁).unread = p₁.unread := rfl
    refine ⟨peekBits nbits p₁, removeBits nbits p₁, ?_, (loaded_split fills.sound enough).2,
      (remove_sound fills.sound enough).1, ?_⟩
    · rw [readBits, run]
      rfl
    · rw [← fills.available, BitReader.available, BitReader.available, left, unread]
      omega

theorem available_eq (before : p.Before text) : p.available = text.bits.length := by
  have shown := congrArg List.length (shows_bits before)
  rw [List.length_append, loaded_length, word_bits_length] at shown
  exact shown

theorem remove_before {bits : List Bool} (sound : p.Sound) (before : p.Before (text.prepend bits))
    (enough : bits.length ≤ p.bits_left) :
    peekBits bits.length p = bitsValue bits ∧ (removeBits bits.length p).Sound ∧
      (removeBits bits.length p).Before text := by
  have split := loaded_split sound enough
  rcases shows_drop before (by rw [loaded_length]; exact enough) with ⟨rest, shape, shown⟩
  have parts : toBits bits.length (peekBits bits.length p) = bits ∧
      (removeBits bits.length p).loaded = rest := by
    apply List.append_inj
    · rw [← split.1, shape]
    · rw [to_bits_length]
  refine ⟨?_, (remove_sound sound enough).1, ?_⟩
  · rw [← parts.1, to_bits_length, bits_value_to_bits_of_lt split.2]
  · rw [BitReader.Before, parts.2]
    exact shown

theorem read_bits_before {bits : List Bool} (sound : p.Sound) (word : bits.length ≤ 17)
    (before : p.Before (text.prepend bits)) :
    ∃ p', readBits bits.length p = .ok (bitsValue bits, p') ∧ p'.Sound ∧ p'.Before text ∧
      (p'.bits_left + bits.length = p.bits_left ∨ p'.bits_left < 16) := by
  have available := available_eq before
  rw [prepend_bits, List.length_append] at available
  rcases ensure_bits_result sound word with ⟨none, _⟩ | ⟨p₁, run, fills⟩
  · omega
  · have removed := remove_before fills.sound (fills.before _ before) fills.enough
    refine ⟨removeBits bits.length p₁, ?_, removed.2.1, removed.2.2, ?_⟩
    · rw [readBits, run, ok_bind, removed.1]
      rfl
    · have left : (removeBits bits.length p₁).bits_left = p₁.bits_left - bits.length := rfl
      have enough := fills.enough
      rw [left]
      rcases fills.least with same | least <;> omega

end Fill

end XeBuild.Mspack
