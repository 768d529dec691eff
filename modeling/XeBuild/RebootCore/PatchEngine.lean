import XeBuild.Lib.WordMemory

/-!
# Patch lists and the patch engine of the reboot core

A patch list is a run of records closed by an end word. `patchEngine` applies
the first list by its records and sends the remaining three to the slots of the
later boot stages by looking for end words only.
-/

namespace XeBuild.RebootCore

open WordMemory

set_option autoImplicit false

/-! ## Patch lists -/

def endWord : UInt32 := 0xFFFFFFFF

structure Record where
  address : UInt32
  data : List UInt32
  notEnd : address ≠ endWord
  counted : data.length < 0x100000000

def Record.words (record : Record) : List UInt32 :=
  record.address :: UInt32.ofNat record.data.length :: record.data

def sectionWords (records : List Record) : List UInt32 := records.flatMap Record.words ++ [endWord]

/-- The bytes a record is written to, relative to `dest`. -/
def Target (dest : Nat) (record : Record) (byte : Nat) : Prop :=
  Region (dest + record.address.toNat) record.data.length byte

def Targets (dest : Nat) (records : List Record) (byte : Nat) : Prop :=
  ∃ record ∈ records, Target dest record byte

def storeRecords (dest : Nat) : List Record → Memory → Option Memory
  | [], memory => some memory
  | record :: rest, memory => do
      let memory ← storeWords memory (dest + record.address.toNat) record.data
      storeRecords dest rest memory

section Records

variable {dest s : Nat} {record : Record} {records : List Record} {memory memory' : Memory}

theorem section_words_cons :
    sectionWords (record :: records) =
      record.address :: UInt32.ofNat record.data.length ::
        (record.data ++ sectionWords records) := by
  simp [sectionWords, Record.words]

theorem section_words_length :
    (sectionWords (record :: records)).length =
      2 + record.data.length + (sectionWords records).length := by
  rw [section_words_cons, List.length_cons, List.length_cons, List.length_append]
  omega

theorem count_word (record : Record) : (UInt32.ofNat record.data.length).toNat =
    record.data.length := by
  rw [UInt32.toNat_ofNat']
  exact Nat.mod_eq_of_lt record.counted

theorem store_records_cons : storeRecords dest (record :: records) memory = some memory' ↔
    ∃ middle, storeWords memory (dest + record.address.toNat) record.data = some middle ∧
      storeRecords dest records middle = some memory' := by
  simp only [storeRecords, Option.bind_eq_bind, Option.bind_eq_some_iff]

theorem store_records_frame (store : storeRecords dest records memory = some memory') {byte : Nat}
    (outside : ¬ Targets dest records byte) : memory' byte = memory byte := by
  induction records generalizing memory with
  | nil =>
      cases store
      rfl
  | cons record records ih =>
      obtain ⟨middle, first, others⟩ := store_records_cons.mp store
      rw [ih others, store_words_frame first]
      · intro inside
        exact outside ⟨record, List.mem_cons_self, inside⟩
      · intro inRest
        rcases inRest with ⟨later, member, inside⟩
        exact outside ⟨later, List.mem_cons_of_mem _ member, inside⟩

theorem store_records_backed (store : storeRecords dest records memory = some memory')
    (byte : Nat) :
    (memory' byte).isSome = (memory byte).isSome := by
  induction records generalizing memory with
  | nil =>
      cases store
      rfl
  | cons record records ih =>
      obtain ⟨middle, first, others⟩ := store_records_cons.mp store
      rw [ih others, store_words_backed first]

theorem store_records_exists (backed : ∀ byte, Targets dest records byte → (memory byte).isSome) :
    ∃ memory', storeRecords dest records memory = some memory' := by
  induction records generalizing memory with
  | nil => exact ⟨memory, rfl⟩
  | cons record records ih =>
      obtain ⟨middle, first⟩ := store_words_exists fun byte inside =>
        backed byte ⟨record, List.mem_cons_self, inside⟩
      have left : ∀ byte, Targets dest records byte → (middle byte).isSome := by
        intro byte inRest
        rcases inRest with ⟨later, member, inside⟩
        rw [store_words_backed first]
        exact backed byte ⟨later, List.mem_cons_of_mem _ member, inside⟩
      obtain ⟨memory', others⟩ := ih left
      exact ⟨memory', store_records_cons.mpr ⟨middle, first, others⟩⟩

structure AfterRecord (dest s : Nat) (record : Record) (records : List Record)
    (memory middle : Memory) : Prop where
  stored : storeWords memory (dest + record.address.toNat) record.data = some middle
  held : Holds middle (s + (2 + record.data.length) * 4) (sectionWords records)
  apart : ∀ byte, Targets dest records byte →
    ¬ Region (s + (2 + record.data.length) * 4) (sectionWords records).length byte

theorem after_record (held : Holds memory s (sectionWords (record :: records)))
    (run : storeRecords dest (record :: records) memory = some memory')
    (apart : ∀ byte, Targets dest (record :: records) byte →
      ¬ Region s (sectionWords (record :: records)).length byte) :
    (loadWord memory s = some record.address ∧
        loadWord memory (s + 4) = some (UInt32.ofNat record.data.length) ∧
        Holds memory (s + 4 + 4) record.data) ∧
      (∀ byte, Region (dest + record.address.toNat) record.data.length byte →
        ¬ Region (s + 4 + 4) record.data.length byte) ∧
      ∃ middle, AfterRecord dest s record records memory middle ∧
        storeRecords dest records middle = some memory' := by
  rw [section_words_length] at apart
  rw [section_words_cons] at held
  obtain ⟨address, count, held⟩ := held
  obtain ⟨data, later⟩ := holds_append.mp held
  obtain ⟨middle, stored, rest⟩ := store_records_cons.mp run
  have outside : ∀ byte, Region (dest + record.address.toNat) record.data.length byte →
      ¬ Region s (2 + record.data.length + (sectionWords records).length) byte := by
    intro byte inTarget
    exact apart byte ⟨record, List.mem_cons_self, inTarget⟩
  have next : s + 4 + 4 + record.data.length * 4 = s + (2 + record.data.length) * 4 := by omega
  rw [next] at later
  refine ⟨⟨address, count, data⟩, ?_, middle, ⟨stored, ?_, ?_⟩, rest⟩
  · intro byte inTarget inData
    exact outside byte inTarget (region_part 2 inData (by omega))
  · apply holds_frame later
    intro byte inside
    apply store_words_frame stored
    intro inTarget
    exact outside byte inTarget (region_part (2 + record.data.length) inside (by omega))
  · intro byte inTargets inside
    rcases inTargets with ⟨other, member, inTarget⟩
    exact apart byte ⟨other, List.mem_cons_of_mem _ member, inTarget⟩
      (region_part (2 + record.data.length) inside (by omega))

end Records

/-! ## `patchEngine` -/

inductive Stop
  | fault (address : Nat)
  | outOfFuel
  deriving DecidableEq, Repr

def load (memory : Memory) (address : Nat) : Except Stop UInt32 :=
  match loadWord memory address with
  | some word => .ok word
  | none => .error (.fault address)

def store (memory : Memory) (address : Nat) (word : UInt32) : Except Stop Memory :=
  match storeWord memory address word with
  | some memory => .ok memory
  | none => .error (.fault address)

/-- `for(i = 0; i < count; i++) *tmp++ = *s++;` with the rounds that are left. -/
def copyWords : Nat → Nat → Nat → Memory → Except Stop (Nat × Memory)
  | 0, _, s, memory => .ok (s, memory)
  | remaining + 1, tmp, s, memory => do
      let word ← load memory s
      let memory ← store memory tmp word
      copyWords remaining (tmp + 4) (s + 4) memory

def applyPatches (dest : Nat) : Nat → UInt32 → Nat → Memory → Except Stop (Nat × Memory)
  | 0, _, _, _ => .error .outOfFuel
  | fuel + 1, addr, s, memory =>
      if addr = 0xFFFFFFFF then
        .ok (s, memory)
      else do
        let count ← load memory s
        let (s, memory) ← copyWords count.toNat (dest + addr.toNat) (s + 4) memory
        let addr ← load memory s
        applyPatches dest fuel addr (s + 4) memory

def shootRemainder (remDest : Nat) : Nat → Nat → Nat → Nat → Memory → Except Stop Memory
  | 0, _, _, _, _ => .error .outOfFuel
  | fuel + 1, count, tmp, s, memory =>
      if count < 3 then do
        let addr ← load memory s
        let memory ← store memory tmp addr
        if addr = 0xFFFFFFFF then
          shootRemainder remDest fuel (count + 1) (remDest + (count + 1) * 0x1000) (s + 4) memory
        else
          shootRemainder remDest fuel count (tmp + 4) (s + 4) memory
      else
        .ok memory

/-- The first loop with the read in front of it. -/
def firstLoop (fuel dest src : Nat) (memory : Memory) : Except Stop (Nat × Memory) := do
  let addr ← load memory src
  applyPatches dest fuel addr (src + 4) memory

def patchEngine (fuel dest src remDest : Nat) (memory : Memory) : Except Stop Memory := do
  let (s, memory) ← firstLoop fuel dest src memory
  shootRemainder remDest fuel 0 remDest s memory

/-! ## The first loop applies its records -/

section FirstLoop

variable {dest s tmp fuel : Nat} {word : UInt32} {words : List UInt32} {records : List Record}
variable {memory memory' : Memory}

theorem load_ok_iff : load memory s = .ok word ↔ loadWord memory s = some word := by
  unfold load
  split <;> simp_all

theorem store_ok_iff : store memory s word = .ok memory' ↔
    storeWord memory s word = some memory' := by
  unfold store
  split <;> simp_all

theorem copy_words_run (held : Holds memory s words)
    (run : storeWords memory tmp words = some memory')
    (apart : ∀ byte, Region tmp words.length byte → ¬ Region s words.length byte) :
    copyWords words.length tmp s memory = .ok (s + words.length * 4, memory') := by
  induction words generalizing s tmp memory with
  | nil =>
      cases run
      rfl
  | cons word words ih =>
      obtain ⟨first, others⟩ := held
      obtain ⟨middle, stored, rest⟩ := store_words_cons.mp run
      have left : Holds middle (s + 4) words := by
        apply holds_frame others
        intro byte inside
        apply store_word_frame stored
        intro index inWord same
        exact apart byte (region_word inWord same) (region_rest inside)
      have next := ih left rest fun byte target source =>
        apart byte (region_rest target) (region_rest source)
      have shift : s + 4 + words.length * 4 = s + (word :: words).length * 4 := by
        rw [List.length_cons]
        omega
      rw [List.length_cons, copyWords, load_ok_iff.mpr first, ← List.length_cons, ← shift, ← next]
      change (store memory tmp word >>= _) = _
      rw [store_ok_iff.mpr stored]
      rfl

theorem first_loop_run (held : Holds memory s (sectionWords records))
    (run : storeRecords dest records memory = some memory')
    (apart : ∀ byte, Targets dest records byte → ¬ Region s (sectionWords records).length byte)
    (enough : records.length < fuel) :
    firstLoop fuel dest s memory = .ok (s + (sectionWords records).length * 4, memory') := by
  induction records generalizing s memory fuel with
  | nil =>
      cases run
      obtain ⟨closing, _⟩ := held
      obtain ⟨rest, rfl⟩ : ∃ rest, fuel = rest + 1 := ⟨fuel - 1, by omega⟩
      rw [firstLoop, load_ok_iff.mpr closing]
      rfl
  | cons record records ih =>
      obtain ⟨left, rfl⟩ : ∃ left, fuel = left + 1 := ⟨fuel - 1, by omega⟩
      obtain ⟨⟨addr, count, data⟩, outside, middle, after, rest⟩ := after_record held run apart
      have copied := copy_words_run data after.stored outside
      have next : s + 4 + 4 + record.data.length * 4 = s + (2 + record.data.length) * 4 := by omega
      rw [next] at copied
      have final := ih after.held rest after.apart (Nat.lt_of_succ_lt_succ enough)
      have more : ¬ record.address = 0xFFFFFFFF := record.notEnd
      rw [firstLoop, load_ok_iff.mpr addr]
      change applyPatches dest (left + 1) record.address (s + 4) memory = _
      rw [applyPatches, if_neg more, load_ok_iff.mpr count]
      change (copyWords (UInt32.ofNat record.data.length).toNat _ _ _ >>= _) = _
      rw [count_word, copied]
      change firstLoop left dest (s + (2 + record.data.length) * 4) middle = _
      rw [final, section_words_length]
      congr 2
      omega

end FirstLoop

end XeBuild.RebootCore
