import Mathlib.Algebra.Group.Nat.Defs
import Mathlib.Logic.Function.Basic

/-!
# Big-endian words in a byte memory

A memory of 64-bit addresses some of which are backed. A 32-bit word is four
bytes, most significant first, and an access to a byte that is not backed fails.
Addresses are naturals; an access reduces them, so a pointer may run past the
end of the address space and come back at its start.
-/

namespace WordMemory

set_option autoImplicit false

def addressSpace : Nat := 0x10000000000000000

abbrev Memory := Nat → Option UInt8

def byteAt (address index : Nat) : Nat := (address + index) % addressSpace

/-! ## One word -/

def wordByte (word : UInt32) (index : Nat) : UInt8 := UInt8.ofNat (word.toNat / 0x100 ^ (3 - index))

def wordOf (first second third fourth : UInt8) : UInt32 :=
  UInt32.ofNat (first.toNat * 0x1000000 + second.toNat * 0x10000 + third.toNat * 0x100 + fourth.toNat)

def loadWord (memory : Memory) (address : Nat) : Option UInt32 := do
  let first ← memory (byteAt address 0)
  let second ← memory (byteAt address 1)
  let third ← memory (byteAt address 2)
  let fourth ← memory (byteAt address 3)
  return wordOf first second third fourth

def WordBacked (memory : Memory) (address : Nat) : Prop :=
  ∀ index < 4, (memory (byteAt address index)).isSome

instance (memory : Memory) (address : Nat) : Decidable (WordBacked memory address) :=
  inferInstanceAs (Decidable (∀ index < 4, _))

def withWord (memory : Memory) (address : Nat) (word : UInt32) : Memory := fun byte =>
  if byte = byteAt address 0 then some (wordByte word 0)
  else if byte = byteAt address 1 then some (wordByte word 1)
  else if byte = byteAt address 2 then some (wordByte word 2)
  else if byte = byteAt address 3 then some (wordByte word 3)
  else memory byte

def storeWord (memory : Memory) (address : Nat) (word : UInt32) : Option Memory :=
  if WordBacked memory address then some (withWord memory address word) else none

section Word

variable {memory memory' : Memory} {address address' : Nat} {word : UInt32}

theorem byte_at_add (address offset index : Nat) :
    byteAt (address + offset) index = byteAt address (offset + index) := by
  rw [byteAt, byteAt, Nat.add_assoc]

/-- Addresses that differ by whole address spaces name the same bytes. -/
theorem byte_at_congr (same : address % addressSpace = address' % addressSpace) (index : Nat) :
    byteAt address index = byteAt address' index := by
  rw [byteAt, byteAt, Nat.add_mod, same, ← Nat.add_mod]

theorem byte_at_injective {first second : Nat} (firstSmall : first < addressSpace)
    (secondSmall : second < addressSpace) (same : byteAt address first = byteAt address second) :
    first = second := by
  unfold byteAt addressSpace at *
  omega

theorem load_word_congr (same : address % addressSpace = address' % addressSpace) :
    loadWord memory address = loadWord memory address' := by
  unfold loadWord
  simp only [byte_at_congr same]

theorem store_word_congr (same : address % addressSpace = address' % addressSpace) :
    storeWord memory address word = storeWord memory address' word := by
  have backed : WordBacked memory address ↔ WordBacked memory address' := by
    unfold WordBacked
    simp only [byte_at_congr same]
  have stored : withWord memory address word = withWord memory address' word := by
    unfold withWord
    simp only [byte_at_congr same]
  unfold storeWord
  rw [stored]
  simp only [backed]

theorem load_word_frame (same : ∀ index < 4, memory' (byteAt address index) =
    memory (byteAt address index)) :
    loadWord memory' address = loadWord memory address := by
  unfold loadWord
  rw [same 0 (by decide), same 1 (by decide), same 2 (by decide), same 3 (by decide)]

theorem load_word_some_iff : (∃ loaded, loadWord memory address = some loaded) ↔
    WordBacked memory address := by
  unfold loadWord WordBacked
  constructor
  · intro read index inWord
    rcases read with ⟨loaded, load⟩
    simp only [Option.bind_eq_bind, Option.bind_eq_some_iff] at load
    obtain ⟨first, atFirst, second, atSecond, third, atThird, fourth, atFourth, _⟩ := load
    obtain rfl | rfl | rfl | rfl : index = 0 ∨ index = 1 ∨ index = 2 ∨ index = 3 := by omega
    · rw [atFirst]; rfl
    · rw [atSecond]; rfl
    · rw [atThird]; rfl
    · rw [atFourth]; rfl
  · intro backed
    obtain ⟨first, atFirst⟩ := Option.isSome_iff_exists.mp (backed 0 (by decide))
    obtain ⟨second, atSecond⟩ := Option.isSome_iff_exists.mp (backed 1 (by decide))
    obtain ⟨third, atThird⟩ := Option.isSome_iff_exists.mp (backed 2 (by decide))
    obtain ⟨fourth, atFourth⟩ := Option.isSome_iff_exists.mp (backed 3 (by decide))
    rw [atFirst, atSecond, atThird, atFourth]
    exact ⟨_, rfl⟩

theorem store_word_iff : storeWord memory address word = some memory' ↔
    WordBacked memory address ∧ withWord memory address word = memory' := by
  unfold storeWord
  split <;> simp_all

theorem with_word_at {index : Nat} (inWord : index < 4) :
    withWord memory address word (byteAt address index) = some (wordByte word index) := by
  have different : ∀ {first second : Nat}, first < 4 → second < 4 → first ≠ second →
      byteAt address first ≠ byteAt address second := by
    intro first second firstSmall secondSmall unequal same
    exact unequal (byte_at_injective (Nat.lt_trans firstSmall (by decide))
      (Nat.lt_trans secondSmall (by decide)) same)
  unfold withWord
  obtain rfl | rfl | rfl | rfl : index = 0 ∨ index = 1 ∨ index = 2 ∨ index = 3 := by omega
  · rw [if_pos rfl]
  · rw [if_neg (different (by decide) (by decide) (by decide)), if_pos rfl]
  · rw [if_neg (different (by decide) (by decide) (by decide)),
      if_neg (different (by decide) (by decide) (by decide)), if_pos rfl]
  · rw [if_neg (different (by decide) (by decide) (by decide)),
      if_neg (different (by decide) (by decide) (by decide)),
      if_neg (different (by decide) (by decide) (by decide)), if_pos rfl]

theorem with_word_frame {byte : Nat} (outside : ∀ index < 4, byte ≠ byteAt address index) :
    withWord memory address word byte = memory byte := by
  unfold withWord
  rw [if_neg (outside 0 (by decide)), if_neg (outside 1 (by decide)),
    if_neg (outside 2 (by decide)),
    if_neg (outside 3 (by decide))]

theorem word_of_bytes (word : UInt32) :
    wordOf (wordByte word 0) (wordByte word 1) (wordByte word 2) (wordByte word 3) = word := by
  have bound : word.toNat < 0x100000000 := word.toNat_lt
  apply UInt32.toNat_inj.mp
  unfold wordOf wordByte
  simp only [UInt32.toNat_ofNat', UInt8.toNat_ofNat']
  omega

theorem load_stored (store : storeWord memory address word = some memory') :
    loadWord memory' address = some word := by
  obtain ⟨_, rfl⟩ := store_word_iff.mp store
  unfold loadWord
  rw [with_word_at (by decide), with_word_at (by decide), with_word_at (by decide),
    with_word_at (by decide)]
  exact congrArg some (word_of_bytes word)

theorem store_word_frame (store : storeWord memory address word = some memory') {byte : Nat}
    (outside : ∀ index < 4, byte ≠ byteAt address index) : memory' byte = memory byte := by
  obtain ⟨_, rfl⟩ := store_word_iff.mp store
  exact with_word_frame outside

theorem store_word_backed (store : storeWord memory address word = some memory') (byte : Nat) :
    (memory' byte).isSome = (memory byte).isSome := by
  obtain ⟨backed, rfl⟩ := store_word_iff.mp store
  by_cases inside : ∃ index < 4, byte = byteAt address index
  · obtain ⟨index, inWord, rfl⟩ := inside
    rw [with_word_at inWord, backed index inWord]
    rfl
  · rw [with_word_frame]
    intro index inWord same
    exact inside ⟨index, inWord, same⟩

end Word

/-! ## Runs of words -/

def Holds (memory : Memory) : Nat → List UInt32 → Prop
  | _, [] => True
  | address, word :: rest => loadWord memory address = some word ∧ Holds memory (address + 4) rest

def storeWords (memory : Memory) (address : Nat) : List UInt32 → Option Memory
  | [] => some memory
  | word :: rest => do
      let memory ← storeWord memory address word
      storeWords memory (address + 4) rest

def Region (address count : Nat) (byte : Nat) : Prop :=
    ∃ index < count * 4, byte = byteAt address index

section Words

variable {memory memory' : Memory} {address count : Nat} {word : UInt32} {words rest : List UInt32}

theorem region_word {byte : Nat} {index : Nat} (inWord : index < 4)
    (same : byte = byteAt address index) : Region address (count + 1) byte :=
  ⟨index, by omega, same⟩

theorem region_part (skip : Nat) {total byte : Nat}
    (inside : Region (address + skip * 4) count byte)
    (fits : skip + count ≤ total) : Region address total byte := by
  obtain ⟨index, bound, same⟩ := inside
  rw [byte_at_add] at same
  exact ⟨skip * 4 + index, by omega, same⟩

theorem region_rest {byte : Nat} (inside : Region (address + 4) count byte) :
    Region address (count + 1) byte :=
  region_part 1 inside (by omega)

theorem region_split {byte : Nat} (inside : Region address (count + 1) byte) :
    (∃ index < 4, byte = byteAt address index) ∨ Region (address + 4) count byte := by
  obtain ⟨index, bound, same⟩ := inside
  by_cases inWord : index < 4
  · exact Or.inl ⟨index, inWord, same⟩
  · right
    refine ⟨index - 4, by omega, ?_⟩
    rw [same, byte_at_add, Nat.add_sub_cancel' (by omega)]

theorem holds_append : Holds memory address (words ++ rest) ↔
    Holds memory address words ∧ Holds memory (address + words.length * 4) rest := by
  induction words generalizing address with
  | nil => simp [Holds]
  | cons word words ih =>
      have shift : address + 4 + words.length * 4 = address + (word :: words).length * 4 := by
        rw [List.length_cons]
        omega
      rw [List.cons_append, Holds, ih, Holds, shift, and_assoc]

theorem holds_frame (held : Holds memory address words)
    (same : ∀ byte, Region address words.length byte → memory' byte = memory byte) :
    Holds memory' address words := by
  induction words generalizing address with
  | nil => trivial
  | cons word words ih =>
      obtain ⟨first, others⟩ := held
      constructor
      · rw [load_word_frame, first]
        intro index inWord
        exact same _ (region_word inWord rfl)
      · apply ih others
        intro byte inside
        exact same byte (region_rest inside)

theorem store_words_cons : storeWords memory address (word :: rest) = some memory' ↔
    ∃ middle, storeWord memory address word = some middle ∧
      storeWords middle (address + 4) rest = some memory' := by
  simp only [storeWords, Option.bind_eq_bind, Option.bind_eq_some_iff]

theorem store_words_frame (store : storeWords memory address words = some memory') {byte : Nat}
    (outside : ¬ Region address words.length byte) : memory' byte = memory byte := by
  induction words generalizing memory address with
  | nil =>
      cases store
      rfl
  | cons word words ih =>
      obtain ⟨middle, first, others⟩ := store_words_cons.mp store
      rw [ih others (fun inside => outside (region_rest inside)), store_word_frame first]
      intro index inWord same
      exact outside (region_word inWord same)

theorem store_words_backed (store : storeWords memory address words = some memory') (byte : Nat) :
    (memory' byte).isSome = (memory byte).isSome := by
  induction words generalizing memory address with
  | nil =>
      cases store
      rfl
  | cons word words ih =>
      obtain ⟨middle, first, others⟩ := store_words_cons.mp store
      rw [ih others, store_word_backed first]

theorem store_words_exists
    (backed : ∀ byte, Region address words.length byte → (memory byte).isSome) :
    ∃ memory', storeWords memory address words = some memory' := by
  induction words generalizing memory address with
  | nil => exact ⟨memory, rfl⟩
  | cons word words ih =>
      have first : WordBacked memory address := by
        intro index inWord
        exact backed _ (region_word inWord rfl)
      have store : storeWord memory address word = some (withWord memory address word) :=
          if_pos first
      have left : ∀ byte, Region (address + 4) words.length byte →
          (withWord memory address word byte).isSome := by
        intro byte inside
        rw [store_word_backed store]
        exact backed byte (region_rest inside)
      obtain ⟨memory', others⟩ := ih left
      exact ⟨memory', store_words_cons.mpr ⟨_, store, others⟩⟩

/-- A run of words that does not come around is held after it was stored. -/
theorem store_words_hold (store : storeWords memory address words = some memory')
    (fits : words.length * 4 ≤ addressSpace) : Holds memory' address words := by
  induction words generalizing memory address with
  | nil => trivial
  | cons word words ih =>
      rw [List.length_cons] at fits
      obtain ⟨middle, first, others⟩ := store_words_cons.mp store
      constructor
      · rw [load_word_frame, load_stored first]
        intro index inWord
        apply store_words_frame others
        intro inRest
        rcases inRest with ⟨later, bound, same⟩
        rw [byte_at_add] at same
        have equal := byte_at_injective (by omega) (by omega) same
        omega
      · exact ih others (by omega)

end Words

end WordMemory
