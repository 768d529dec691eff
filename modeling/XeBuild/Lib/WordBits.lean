import XeBuild.Lib.BitText

/-!
# Bits in 16-bit words

A bit string that lies in bytes as words of 16 bits, the low byte first, and whose
reader may have taken part of a word: the bits that are left of that word and the
bytes behind it. Bits are put in front one at a time, and a word that is full goes
to the bytes.
-/

namespace WordBits

open BitText

set_option autoImplicit false

/-- The bits of the words in some bytes; a byte that is left over has none. -/
def wordBits : List UInt8 → List Bool
  | low :: high :: rest => toBits 16 (high.toNat * 256 + low.toNat) ++ wordBits rest
  | _ => []

def wordBytes (bits : List Bool) : List UInt8 :=
  [UInt8.ofNat (bitsValue bits), UInt8.ofNat (bitsValue bits / 256)]

/-- The bits that are left of a word, and the bytes behind it. -/
structure Text where
  partialWord : List Bool
  bytes : List UInt8

def Text.bits (text : Text) : List Bool := text.partialWord ++ wordBits text.bytes

def Text.Started (text : Text) : Prop := text.partialWord.length < 16

def Text.cons (bit : Bool) (text : Text) : Text :=
  if text.partialWord.length = 15 then ⟨[], wordBytes (bit :: text.partialWord) ++ text.bytes⟩
  else ⟨bit :: text.partialWord, text.bytes⟩

def Text.prepend (bits : List Bool) (text : Text) : Text := bits.foldr Text.cons text

/-- A text with more bytes in front, where a word starts. -/
def Text.putBytes (bytes : List UInt8) (text : Text) : Option Text :=
  if text.partialWord = [] then some ⟨[], bytes ++ text.bytes⟩ else none

section Text

variable {bit : Bool} {bits front back : List Bool} {text : Text}

theorem word_bits_word (size : bits.length = 16) (rest : List UInt8) :
    wordBits (wordBytes bits ++ rest) = bits ++ wordBits rest := by
  have small := bits_value_lt bits
  rw [size] at small
  have value : (UInt8.ofNat (bitsValue bits / 256)).toNat * 256 +
      (UInt8.ofNat (bitsValue bits)).toNat = bitsValue bits := by
    rw [UInt8.toNat_ofNat', UInt8.toNat_ofNat']
    omega
  have whole := to_bits_bits_value bits
  rw [size] at whole
  rw [wordBytes, List.cons_append, List.cons_append, List.nil_append, wordBits, value, whole]

theorem cons_started (started : text.Started) : (text.cons bit).Started := by
  rw [Text.cons]
  rw [Text.Started] at started
  split_ifs with full
  · exact Nat.succ_pos _
  · rw [Text.Started, List.length_cons]
    omega

theorem cons_bits : (text.cons bit).bits = bit :: text.bits := by
  rw [Text.cons]
  split_ifs with full
  · rw [Text.bits, word_bits_word (by rw [List.length_cons, full])]
    rfl
  · rfl

theorem prepend_append : text.prepend (front ++ back) = (text.prepend back).prepend front := by
  rw [Text.prepend, List.foldr_append]
  rfl

@[simp] theorem prepend_nil : text.prepend [] = text := rfl

theorem prepend_cons : text.prepend (bit :: bits) = (text.prepend bits).cons bit := rfl

theorem prepend_started (started : text.Started) : (text.prepend bits).Started := by
  induction bits with
  | nil => exact started
  | cons bit bits ih => exact cons_started ih

theorem prepend_bits : (text.prepend bits).bits = bits ++ text.bits := by
  induction bits with
  | nil => rfl
  | cons bit bits ih => rw [prepend_cons, cons_bits, ih, List.cons_append]

@[simp] theorem word_bytes_length : (wordBytes bits).length = 2 := rfl

theorem prepend_partial_length (started : text.Started) :
    (text.prepend bits).partialWord.length = (bits.length + text.partialWord.length) % 16 := by
  have few : text.partialWord.length < 16 := started
  induction bits with
  | nil =>
      rw [prepend_nil, List.length_nil]
      omega
  | cons bit bits ih =>
      rw [prepend_cons, Text.cons, List.length_cons]
      split_ifs with full
      · rw [List.length_nil]
        omega
      · rw [List.length_cons]
        omega

theorem prepend_bytes_length (started : text.Started) : (text.prepend bits).bytes.length =
    text.bytes.length + 2 * ((bits.length + text.partialWord.length) / 16) := by
  have few : text.partialWord.length < 16 := started
  induction bits with
  | nil =>
      rw [prepend_nil, List.length_nil]
      omega
  | cons bit bits ih =>
      have left := @prepend_partial_length bits text started
      rw [prepend_cons, Text.cons, List.length_cons]
      split_ifs with full
      · rw [List.length_append, word_bytes_length, ih]
        omega
      · rw [ih]
        omega

end Text

/-! ## A reader in front of a text -/

/-- A reader that has loaded these bits and has these bytes ahead is in front of the text:
it may have loaded some words more than the one that it has started. -/
def Shows (loaded : List Bool) (unread : List UInt8) (text : Text) : Prop :=
  ∃ words, text.bytes = words ++ unread ∧ words.length % 2 = 0 ∧
    loaded = text.partialWord ++ wordBits words

section Shows

variable {bit : Bool} {loaded bits : List Bool} {unread words : List UInt8} {text : Text}

theorem word_bits_append (even : words.length % 2 = 0) (rest : List UInt8) :
    wordBits (words ++ rest) = wordBits words ++ wordBits rest := by
  induction words using wordBits.induct with
  | case1 low high words ih =>
      have evenRest : words.length % 2 = 0 := by
        rw [List.length_cons, List.length_cons] at even
        omega
      rw [List.cons_append, List.cons_append, wordBits, wordBits, ih evenRest, List.append_assoc]
  | case2 words short =>
      cases words with
      | nil => rfl
      | cons low words =>
          cases words with
          | nil => simp at even
          | cons high words => exact absurd rfl (short low high words)

theorem word_bits_length (words : List UInt8) :
    (wordBits words).length = 16 * (words.length / 2) := by
  induction words using wordBits.induct with
  | case1 low high words ih =>
      rw [wordBits, List.length_append, to_bits_length, ih, List.length_cons, List.length_cons]
      omega
  | case2 words short =>
      have small : words.length < 2 := by
        cases words with
        | nil => decide
        | cons low words =>
            cases words with
            | nil => exact Nat.lt_succ_self 1
            | cons high words => exact absurd rfl (short low high words)
      have none : wordBits words = [] := by
        rw [wordBits]
        exact short
      rw [none, List.length_nil]
      omega

theorem shows_bits (shows_ : Shows loaded unread text) : loaded ++ wordBits unread = text.bits := by
  rcases shows_ with ⟨words, bytes, even, same⟩
  rw [same, Text.bits, bytes, word_bits_append even, List.append_assoc]

theorem shows_tail (shows_ : Shows loaded unread (text.cons bit))
    (some_ : loaded ≠ []) : ∃ rest, loaded = bit :: rest ∧ Shows rest unread text := by
  rcases shows_ with ⟨words, bytes, even, same⟩
  rw [Text.cons] at bytes same
  by_cases full : text.partialWord.length = 15
  · rw [if_pos full] at bytes same
    cases words with
    | nil => exact absurd same some_
    | cons low words =>
        cases words with
        | nil => simp at even
        | cons high words =>
            have evenRest : words.length % 2 = 0 := by
              rw [List.length_cons, List.length_cons] at even
              omega
            have parts : wordBytes (bit :: text.partialWord) = [low, high] ∧
                text.bytes = words ++ unread := by
              exact @List.append_inj _ _ [low, high] _ (words ++ unread) bytes rfl
            have word := @word_bits_word (bit :: text.partialWord) (by rw [List.length_cons, full])
              words
            rw [parts.1] at word
            refine ⟨text.partialWord ++ wordBits words, ?_, words, parts.2, evenRest, rfl⟩
            rw [same, List.nil_append]
            exact word
  · rw [if_neg full] at bytes same
    exact ⟨text.partialWord ++ wordBits words, same, words, bytes, even, rfl⟩

theorem shows_drop (shows_ : Shows loaded unread (text.prepend bits))
    (enough : bits.length ≤ loaded.length) :
    ∃ rest, loaded = bits ++ rest ∧ Shows rest unread text := by
  induction bits generalizing loaded with
  | nil => exact ⟨loaded, rfl, shows_⟩
  | cons bit bits ih =>
      rw [List.length_cons] at enough
      have some_ : loaded ≠ [] := by
        intro none
        rw [none, List.length_nil] at enough
        omega
      rcases shows_tail shows_ some_ with ⟨rest, shape, later⟩
      rw [shape, List.length_cons] at enough
      rcases ih later (by omega) with ⟨rest', shape', last⟩
      exact ⟨rest', by rw [shape, shape', List.cons_append], last⟩

theorem shows_load {low high : UInt8} (shows_ : Shows loaded (low :: high :: unread) text) :
    Shows (loaded ++ toBits 16 (high.toNat * 256 + low.toNat)) unread text := by
  rcases shows_ with ⟨words, bytes, even, same⟩
  refine ⟨words ++ [low, high], ?_, ?_, ?_⟩
  · rw [bytes, List.append_assoc]
    rfl
  · rw [List.length_append, List.length_cons, List.length_cons, List.length_nil]
    omega
  · have last : wordBits [low, high] = toBits 16 (high.toNat * 256 + low.toNat) :=
      List.append_nil _
    rw [word_bits_append even, same, List.append_assoc, last]

/-- A reader that has loaded nothing is in front of the bytes where a word starts. -/
theorem shows_bytes (bytes : List UInt8) : Shows [] bytes ⟨[], bytes⟩ := ⟨[], rfl, rfl, rfl⟩

theorem bytes_of_shows (shows_ : Shows [] unread text) :
    text = ⟨[], unread⟩ := by
  rcases shows_ with ⟨words, bytes, even, same⟩
  have both := List.append_eq_nil_iff.mp same.symm
  have size := congrArg List.length both.2
  rw [word_bits_length, List.length_nil] at size
  have none : words = [] := by
    apply List.length_eq_zero_iff.mp
    omega
  rw [none, List.nil_append] at bytes
  cases text
  dsimp only at bytes both
  rw [bytes, both.1]

theorem shows_partial_length (shows_ : Shows loaded unread text) :
    loaded.length % 16 = text.partialWord.length % 16 := by
  rcases shows_ with ⟨words, _, _, same⟩
  rw [same, List.length_append, word_bits_length]
  omega

end Shows

/-! ## Texts that end in the same way -/

/-- The text has the bytes of the other at its end, and no fewer bits. -/
structure EndsWith (text rest : Text) : Prop where
  bytes : rest.bytes <:+ text.bytes
  bits : rest.bits.length ≤ text.bits.length

section EndsWith

variable {bits : List Bool} {bytes : List UInt8} {text rest last : Text}

theorem ends_with_refl (text : Text) : EndsWith text text := ⟨List.suffix_refl _, Nat.le_refl _⟩

theorem ends_with_trans (first : EndsWith text rest) (second : EndsWith rest last) :
    EndsWith text last :=
  ⟨second.bytes.trans first.bytes, Nat.le_trans second.bits first.bits⟩

theorem prepend_ends_with (bits : List Bool) (text : Text) :
    EndsWith (text.prepend bits) text := by
  constructor
  · induction bits with
    | nil => exact List.suffix_refl _
    | cons bit bits ih =>
        rw [prepend_cons, Text.cons]
        split_ifs with full
        · exact ih.trans (List.suffix_append _ _)
        · exact ih
  · rw [prepend_bits, List.length_append]
    omega

theorem put_bytes_some (put : text.putBytes bytes = some last) :
    text.partialWord = [] ∧ last = ⟨[], bytes ++ text.bytes⟩ ∧ text = ⟨[], text.bytes⟩ := by
  rw [Text.putBytes] at put
  split_ifs at put with start
  cases put
  refine ⟨start, rfl, ?_⟩
  cases text
  dsimp only at start
  rw [start]

theorem put_bytes_ends_with (put : rest.putBytes bytes = some text) : EndsWith text rest := by
  rcases put_bytes_some put with ⟨_, rfl, shape⟩
  refine ⟨List.suffix_append _ _, ?_⟩
  rw [shape, Text.bits, Text.bits, List.nil_append, List.nil_append, word_bits_length,
    word_bits_length, List.length_append]
  dsimp only
  omega

end EndsWith

end WordBits
