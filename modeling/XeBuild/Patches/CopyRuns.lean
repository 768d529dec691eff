import XeBuild.Patches.CopyPatches

/-!
# Runs of the assembled engines over patch lists

An engine copies a list of records with data just as the first loop of the reboot
core does. A record without data loads zero into `CTR`, so the countdown goes
around the address space; it hangs at the first address that no memory is behind.
-/

namespace XeBuild.Patches

open WordMemory Runs PowerPc RebootCore

set_option autoImplicit false

section Copying

variable {program : List Instr} {base list target ctr : Nat} {memory memory' : Memory} {cpu : Cpu}
variable {AtRecord : Nat → Memory → Cpu → Prop} {AtWord : Nat → Nat → Nat → Memory → Cpu → Prop}
variable {words : List UInt32} {records : List Record} {record : Record}

theorem copy_words (loop : CopyLoop program base AtRecord AtWord)
    (here : AtWord list target words.length memory cpu) (someData : words ≠ [])
    (small : words.length < addressSpace) (held : Holds memory list words)
    (run : storeWords memory target words = some memory')
    (apart : ∀ byte, Region target words.length byte → ¬ Region list words.length byte) :
    ∃ cpu', Leads program cpu cpu' ∧ AtRecord (list + words.length * 4) memory' cpu' := by
  induction words generalizing list target memory cpu with
  | nil => exact absurd rfl someData
  | cons word words ih =>
      obtain ⟨first, others⟩ := held
      obtain ⟨middle, stored, rest⟩ := store_words_cons.mp run
      rw [List.length_cons] at here small apart
      have down : (words.length + 1 + (addressSpace - 1)) % addressSpace = words.length := by
        rw [addressSpace] at small ⊢
        omega
      cases words with
      | nil =>
          cases rest
          exact loop.last here first stored down
      | cons next words =>
          obtain ⟨cpu₁, path, between⟩ := loop.again here first stored down (Nat.succ_ne_zero _)
          have kept : Holds middle (list + 4) (next :: words) := by
            apply holds_frame others
            intro byte inside
            apply store_word_frame stored
            intro index inWord same
            exact apart byte (region_word inWord same) (region_rest inside)
          obtain ⟨cpu₂, later, after⟩ := ih between (List.cons_ne_nil _ _) (Nat.lt_of_succ_lt small)
            kept rest fun byte inTarget inList => apart byte (region_rest inTarget)
              (region_rest inList)
          have shift : list + 4 + (next :: words).length * 4 =
              list + (word :: next :: words).length * 4 := by
            simp only [List.length_cons]
            omega
          rw [shift] at after
          exact ⟨cpu₂, reaches_trans path later, after⟩

/-- One record with data, from its address word to the next record. -/
theorem copy_record (loop : CopyLoop program base AtRecord AtWord) (here : AtRecord list memory cpu)
    (someData : record.data ≠ [])
    (words : loadWord memory list = some record.address ∧
      loadWord memory (list + 4) = some (UInt32.ofNat record.data.length) ∧
      Holds memory (list + 4 + 4) record.data)
    (run : storeWords memory (base + record.address.toNat) record.data = some memory')
    (apart : ∀ byte, Region (base + record.address.toNat) record.data.length byte →
      ¬ Region (list + 4 + 4) record.data.length byte) :
    ∃ cpu', Leads program cpu cpu' ∧
      AtRecord (list + (2 + record.data.length) * 4) memory' cpu' := by
  obtain ⟨address, count, data⟩ := words
  obtain ⟨cpu₁, path, between⟩ := loop.opening here address record.notEnd count
  rw [count_word] at between
  have small : record.data.length < addressSpace := by
    have counted := record.counted
    rw [addressSpace]
    omega
  obtain ⟨cpu₂, copy, after⟩ := copy_words loop between someData small data run apart
  have next : list + 4 + 4 + record.data.length * 4 = list + (2 + record.data.length) * 4 := by
    omega
  rw [next] at after
  exact ⟨cpu₂, reaches_trans path copy, after⟩

theorem copy_records (loop : CopyLoop program base AtRecord AtWord)
    (here : AtRecord list memory cpu)
    (held : Holds memory list (sectionWords records))
    (run : storeRecords base records memory = some memory')
    (apart : ∀ byte, Targets base records byte → ¬ Region list (sectionWords records).length byte)
    (filled : ∀ record ∈ records, record.data ≠ []) :
    ∃ cpu', Leads program cpu cpu' ∧ Halted program cpu' ∧ cpu'.memory = memory' := by
  induction records generalizing list memory cpu with
  | nil =>
      cases run
      exact loop.closing here held.1
  | cons record records ih =>
      obtain ⟨words, outside, middle, after, rest⟩ := after_record held run apart
      obtain ⟨cpu₁, copy, next⟩ := copy_record loop here (filled record List.mem_cons_self) words
        after.stored outside
      obtain ⟨cpu₂, path, halted, memoryAt⟩ := ih next after.held rest after.apart
        fun other member => filled other (List.mem_cons_of_mem _ member)
      exact ⟨cpu₂, reaches_trans copy path, halted, memoryAt⟩

/-! ## Records without data -/

/-- Somewhere ahead of the pointer there is no memory. -/
def Hole (memory : Memory) (list : Nat) : Prop := ∃ ahead, ¬ WordBacked memory (list + ahead * 4)

theorem hole_congr {list' : Nat} (hole : Hole memory list)
    (same : ∀ byte, (memory' byte).isSome = (memory byte).isSome) {words : Nat}
    (moved : list' = list + words * 4) : Hole memory' list' := by
  obtain ⟨ahead, missing⟩ := hole
  refine ⟨ahead + words * 0x3FFFFFFFFFFFFFFF, ?_⟩
  intro backed
  apply missing
  intro index inWord
  have around : (list' + (ahead + words * 0x3FFFFFFFFFFFFFFF) * 4) % addressSpace =
      (list + ahead * 4) % addressSpace := by
    rw [moved, addressSpace]
    omega
  have byte := backed index inWord
  rwa [byte_at_congr around, same] at byte

def rounds (ctr : Nat) : Nat := if ctr = 0 then addressSpace else ctr

theorem countdown_hangs (loop : CopyLoop program base AtRecord AtWord) {ahead : Nat}
    (here : AtWord list target ctr memory cpu) (small : ctr < addressSpace)
    (within : ahead < rounds ctr)
    (missing : ¬ WordBacked memory (list + ahead * 4)) : Hangs program cpu := by
  induction ahead generalizing list target ctr memory cpu with
  | zero =>
      apply loop.unloaded here
      rw [Option.eq_none_iff_forall_not_mem]
      intro word loaded
      rw [Nat.zero_mul, Nat.add_zero] at missing
      exact missing (load_word_some_iff.mp ⟨word, loaded⟩)
  | succ ahead ih =>
      cases loaded : loadWord memory list with
      | none => exact loop.unloaded here loaded
      | some word =>
          cases stored : storeWord memory target word with
          | none => exact loop.unstored here loaded stored
          | some middle =>
              have more : (ctr + (addressSpace - 1)) % addressSpace ≠ 0 ∧
                  ahead < rounds ((ctr + (addressSpace - 1)) % addressSpace) := by
                unfold rounds at within ⊢
                rw [addressSpace] at *
                split at within <;> split <;> omega
              obtain ⟨cpu₁, path, next⟩ := loop.again here loaded stored rfl more.1
              apply stuck_of_reaches path
              apply ih next (Nat.mod_lt _ (by decide)) more.2
              intro backed
              apply missing
              intro index inWord
              have byte := backed index inWord
              have shift : list + 4 + ahead * 4 = list + (ahead + 1) * 4 := by omega
              rwa [shift, store_word_backed stored] at byte

theorem zero_count_hangs (loop : CopyLoop program base AtRecord AtWord)
    (here : AtWord list target 0 memory cpu) (hole : Hole memory list) : Hangs program cpu := by
  obtain ⟨ahead, missing⟩ := hole
  have around : (list + ahead % addressSpace * 4) % addressSpace =
      (list + ahead * 4) % addressSpace := by
    rw [addressSpace]
    omega
  have within : ahead % addressSpace < rounds 0 := Nat.mod_lt ahead (by decide)
  apply countdown_hangs loop here (by decide) within
  intro backed
  apply missing
  intro index inWord
  have byte := backed index inWord
  rwa [byte_at_congr around] at byte

theorem empty_record_hangs (loop : CopyLoop program base AtRecord AtWord)
    (here : AtRecord list memory cpu) (held : Holds memory list (sectionWords records))
    (run : storeRecords base records memory = some memory')
    (apart : ∀ byte, Targets base records byte → ¬ Region list (sectionWords records).length byte)
    (hole : Hole memory list) (empty : ∃ record ∈ records, record.data = []) :
    Hangs program cpu := by
  induction records generalizing list memory cpu with
  | nil =>
      obtain ⟨record, member, _⟩ := empty
      cases member
  | cons record records ih =>
      obtain ⟨words, outside, middle, after, rest⟩ := after_record held run apart
      by_cases someData : record.data = []
      · obtain ⟨cpu₁, path, between⟩ := loop.opening here words.1 record.notEnd words.2.1
        rw [count_word, someData, List.length_nil] at between
        apply stuck_of_reaches path
        apply zero_count_hangs loop between
        exact hole_congr hole (fun _ => rfl) (by omega : list + 4 + 4 = list + 2 * 4)
      · obtain ⟨cpu₁, copy, next⟩ := copy_record loop here someData words after.stored outside
        apply stuck_of_reaches copy
        apply ih next after.held rest after.apart
          (hole_congr hole (store_words_backed after.stored) rfl)
        obtain ⟨other, member, noData⟩ := empty
        rcases List.mem_cons.mp member with rfl | later
        · exact absurd noData someData
        · exact ⟨other, later, noData⟩

end Copying

/-! ## The same effect at another base -/

section Relative

variable {base dest offset : Nat} {word : UInt32} {words : List UInt32} {records : List Record}
variable {memory memory' image image' : Memory}

def SameByte (base dest offset : Nat) (memory image : Memory) : Prop :=
  memory (byteAt base offset) = image (byteAt dest offset)

theorem byte_at_relative (base dest : Nat) {address index : Nat} :
    byteAt base offset = byteAt (base + address) index ↔
      byteAt dest offset = byteAt (dest + address) index := by
  unfold byteAt
  rw [addressSpace]
  omega

theorem targets_relative (base dest : Nat) :
    Targets base records (byteAt base offset) ↔ Targets dest records (byteAt dest offset) := by
  unfold Targets Target Region
  simp only [byte_at_relative base dest]

theorem store_word_same {address : Nat}
    (stored : storeWord memory (base + address) word = some memory')
    (stored' : storeWord image (dest + address) word = some image')
    (covered : SameByte base dest offset memory image ∨
      ∃ index < 4, byteAt base offset = byteAt (base + address) index) :
    SameByte base dest offset memory' image' := by
  unfold SameByte at covered ⊢
  by_cases inside : ∃ index < 4, byteAt base offset = byteAt (base + address) index
  · obtain ⟨index, inWord, same⟩ := inside
    have same' := (byte_at_relative base dest).mp same
    obtain ⟨_, rfl⟩ := store_word_iff.mp stored
    obtain ⟨_, rfl⟩ := store_word_iff.mp stored'
    rw [same, same', with_word_at inWord, with_word_at inWord]
  · have before := covered.resolve_right inside
    rw [store_word_frame stored, store_word_frame stored', before]
    · intro index inWord same
      exact inside ⟨index, inWord, (byte_at_relative base dest).mpr same⟩
    · intro index inWord same
      exact inside ⟨index, inWord, same⟩

theorem store_words_same {address : Nat}
    (stored : storeWords memory (base + address) words = some memory')
    (stored' : storeWords image (dest + address) words = some image')
    (covered : SameByte base dest offset memory image ∨
      Region (base + address) words.length (byteAt base offset)) :
    SameByte base dest offset memory' image' := by
  induction words generalizing address memory image with
  | nil =>
      cases stored
      cases stored'
      rcases covered with before | ⟨index, bound, _⟩
      · exact before
      · exact absurd bound (Nat.not_lt_zero _)
  | cons word words ih =>
      obtain ⟨middle, first, rest⟩ := store_words_cons.mp stored
      obtain ⟨middle', first', rest'⟩ := store_words_cons.mp stored'
      rw [Nat.add_assoc] at rest rest'
      apply ih rest rest'
      rcases covered with before | inside
      · exact Or.inl (store_word_same first first' (Or.inl before))
      · rcases region_split inside with inWord | later
        · exact Or.inl (store_word_same first first' (Or.inr inWord))
        · rw [Nat.add_assoc] at later
          exact Or.inr later

/-- Records stored at two bases leave every byte they reach the same. -/
theorem store_records_same (stored : storeRecords base records memory = some memory')
    (stored' : storeRecords dest records image = some image')
    (covered : SameByte base dest offset memory image ∨ Targets base records (byteAt base offset)) :
    SameByte base dest offset memory' image' := by
  induction records generalizing memory image with
  | nil =>
      cases stored
      cases stored'
      rcases covered with before | ⟨record, member, _⟩
      · exact before
      · cases member
  | cons record records ih =>
      obtain ⟨middle, first, rest⟩ := store_records_cons.mp stored
      obtain ⟨middle', first', rest'⟩ := store_records_cons.mp stored'
      apply ih rest rest'
      rcases covered with before | ⟨other, member, inside⟩
      · exact Or.inl (store_words_same first first' (Or.inl before))
      · rcases List.mem_cons.mp member with rfl | later
        · exact Or.inl (store_words_same first first' (Or.inr inside))
        · exact Or.inr ⟨other, later, inside⟩

end Relative

/-! ## The engines and the first loop -/

inductive Engine
  | ca1BL
  | cb1940
  | cd8453

namespace Engine

def program : Engine → List Instr
  | ca1BL => copyPatches1BL
  | cb1940 => copyPatchesCB
  | cd8453 => copyPatchesCD

/-- Where the engine looks for its list: its slot of the reboot core. -/
def list : Engine → Nat
  | ca1BL => 0x8000000001000000
  | cb1940 => 0x8000000001001000
  | cd8453 => 0x8000000001002000

/-- What it adds to the addresses of the records. -/
def base : Engine → Nat
  | ca1BL => 0x8000020000010000
  | cb1940 => 0x8000000004000000
  | cd8453 => 0

/-- Every engine comes to its first record with one of the two loop shapes. -/
theorem enters (engine : Engine) {cpu : Cpu} (entry : cpu.pc = 0) :
    ∃ AtRecord AtWord cpu', CopyLoop engine.program engine.base AtRecord AtWord ∧
      Leads engine.program cpu cpu' ∧ AtRecord engine.list cpu.memory cpu' := by
  cases engine with
  | ca1BL =>
      obtain ⟨cpu', path, here⟩ := entry_1BL entry
      exact ⟨_, _, cpu', base_loop rfl rfl _, path, here⟩
  | cb1940 =>
      obtain ⟨cpu', path, here⟩ := entry_CB entry
      exact ⟨_, _, cpu', base_loop rfl rfl _, path, here⟩
  | cd8453 =>
      obtain ⟨cpu', path, here⟩ := entry_CD entry
      exact ⟨_, _, cpu', cd_loop, path, here⟩

end Engine

/-- A list in memory whose targets are backed and do not touch it. -/
structure Listed (dest src : Nat) (records : List Record) (memory : Memory) : Prop where
  held : Holds memory src (sectionWords records)
  backed : ∀ byte, Targets dest records byte → (memory byte).isSome
  apart : ∀ byte, Targets dest records byte → ¬ Region src (sectionWords records).length byte

/-- Two memories after the same records: equal at every target, and otherwise each
as it was. -/
structure SameEffect (records : List Record) (base dest : Nat)
    (memory image memory' image' : Memory) : Prop where
  targets : ∀ offset, Targets base records (byteAt base offset) →
    SameByte base dest offset memory' image'
  others : ∀ offset, ¬ Targets base records (byteAt base offset) →
    memory' (byteAt base offset) = memory (byteAt base offset) ∧
      image' (byteAt dest offset) = image (byteAt dest offset)

def Agrees (engine : Engine) (records : List Record) (cpu : Cpu) (dest src : Nat)
    (image : Memory) : Prop :=
  ∃ steps cpu' fuel s image', runProgram engine.program steps cpu = some cpu' ∧
    firstLoop fuel dest src image = .ok (s, image') ∧
    SameEffect records engine.base dest cpu.memory image cpu'.memory image'

section Engines

variable {engine : Engine} {records : List Record} {cpu : Cpu} {dest src : Nat} {image : Memory}

theorem filled_agrees (entry : cpu.pc = 0)
    (listed : Listed engine.base engine.list records cpu.memory)
    (source : Listed dest src records image) (filled : ∀ record ∈ records, record.data ≠ []) :
    Agrees engine records cpu dest src image := by
  obtain ⟨AtRecord, AtWord, start, loop, path, here⟩ := engine.enters entry
  obtain ⟨memory', stored⟩ := store_records_exists listed.backed
  obtain ⟨image', stored'⟩ := store_records_exists source.backed
  obtain ⟨cpu', copy, halted, rfl⟩ := copy_records loop here listed.held stored listed.apart filled
  obtain ⟨steps, run⟩ := run_of_reaches (reaches_trans path copy) halted
  have loopRun := first_loop_run source.held stored' source.apart (Nat.lt_succ_self records.length)
  refine ⟨steps, cpu', _, _, image', run, loopRun, ?_, ?_⟩
  · intro offset inside
    exact store_records_same stored stored' (Or.inr inside)
  · intro offset outside
    exact ⟨store_records_frame stored outside,
      store_records_frame stored' fun inside => outside ((targets_relative _ _).mpr inside)⟩

theorem empty_disagrees (entry : cpu.pc = 0)
    (listed : Listed engine.base engine.list records cpu.memory)
    (hole : Hole cpu.memory engine.list)
    (empty : ∃ record ∈ records, record.data = []) :
    ¬ Agrees engine records cpu dest src image := by
  intro agrees
  rcases agrees with ⟨steps, cpu', _, _, _, run, _, _⟩
  obtain ⟨AtRecord, AtWord, start, loop, path, here⟩ := engine.enters entry
  obtain ⟨memory', stored⟩ := store_records_exists listed.backed
  have stuck := stuck_of_reaches path
    (empty_record_hangs loop here listed.held stored listed.apart hole empty)
  rw [runProgram, stuck] at run
  cases run

/-- An engine agrees with the first loop on every list whose records have data.
Where the address space is not all memory it agrees on no other. -/
theorem copy_patches_agrees_iff (entry : cpu.pc = 0)
    (listed : Listed engine.base engine.list records cpu.memory)
    (source : Listed dest src records image) :
    ((∀ record ∈ records, record.data ≠ []) → Agrees engine records cpu dest src image) ∧
      (Hole cpu.memory engine.list →
        (Agrees engine records cpu dest src image ↔ ∀ record ∈ records, record.data ≠ [])) := by
  constructor
  · exact filled_agrees entry listed source
  · intro hole
    constructor
    · intro agrees record member noData
      exact empty_disagrees entry listed hole ⟨record, member, noData⟩ agrees
    · exact filled_agrees entry listed source

end Engines

/-! ## Lists in the low part of memory -/

def atEntry (memory : Memory) : Cpu :=
  { gpr := fun _ => 0, ctr := 0, eq := false, msr := 0, pc := 0, memory := memory }

def lowMemory : Memory := fun byte => if byte < 0x9000000000000000 then some 0 else none

/-- A list of at most a page, with all its targets in the first page. -/
structure LowList (records : List Record) : Prop where
  targets : ∀ record ∈ records, record.address.toNat + record.data.length * 4 ≤ 0x1000
  length : (sectionWords records).length ≤ 0x400

section Low

variable {records : List Record}

theorem low_region {address count byte : Nat} (low : address + count * 4 ≤ 0x9000000000000000)
    (inside : Region address count byte) : address ≤ byte ∧ byte < address + count * 4 := by
  obtain ⟨index, bound, rfl⟩ := inside
  have place : byteAt address index = address + index :=
    Nat.mod_eq_of_lt (by rw [addressSpace]; omega)
  omega

theorem low_backed {address count byte : Nat} (low : address + count * 4 ≤ 0x9000000000000000)
    (inside : Region address count byte) : (lowMemory byte).isSome := by
  have bound := (low_region low inside).2
  rw [lowMemory, if_pos (by omega)]
  rfl

theorem low_target {dest byte : Nat} (list : LowList records) (low : dest ≤ 0x8FFFFFFFFFFFF000)
    (inside : Targets dest records byte) :
    (dest ≤ byte ∧ byte < dest + 0x1000) ∧ (lowMemory byte).isSome := by
  obtain ⟨record, member, region⟩ := inside
  have page := list.targets record member
  have bounds := low_region (by omega) region
  exact ⟨by omega, low_backed (by omega) region⟩

/-- The list in the slot of the 1BL engine, read by the engine and by the first loop. -/
theorem low_listed (low : LowList records) : ∃ memory,
    Listed Engine.ca1BL.base Engine.ca1BL.list records memory ∧
      Listed 0x8000000000000000 Engine.ca1BL.list records memory ∧
      Hole memory Engine.ca1BL.list := by
  have size := low.length
  have list : Engine.ca1BL.list = 0x8000000001000000 := rfl
  have base : Engine.ca1BL.base = 0x8000020000010000 := rfl
  rw [list, base]
  have room : 0x8000000001000000 + (sectionWords records).length * 4 ≤ 0x9000000000000000 := by
    omega
  obtain ⟨memory, stored⟩ : ∃ memory, storeWords lowMemory 0x8000000001000000
      (sectionWords records) = some memory :=
    store_words_exists fun byte inside => low_backed room inside
  have held := store_words_hold stored (by rw [addressSpace]; omega)
  refine ⟨memory, ⟨held, ?_, ?_⟩, ⟨held, ?_, ?_⟩, 0x400000000000000, ?_⟩
  · intro byte inside
    rw [store_words_backed stored]
    exact (low_target low (by decide) inside).2
  · intro byte inside source
    have target := (low_target low (by decide) inside).1
    have words := low_region room source
    omega
  · intro byte inside
    rw [store_words_backed stored]
    exact (low_target low (by decide) inside).2
  · intro byte inside source
    have target := (low_target low (by decide) inside).1
    have words := low_region room source
    omega
  · intro backed
    have byte := backed 0 (by decide)
    rw [store_words_backed stored] at byte
    exact absurd byte (by decide)

end Low

def twoRecords : List Record :=
  [⟨0x80, [0x60000000, 0x38600000, 0x4E800020], by decide, by decide⟩,
    ⟨0x280, [0x38800001, 0x4E800020], by decide, by decide⟩]

/-- Two records, of three words and of two, written by the 1BL engine and by the first loop. -/
theorem two_records_agree : ∃ memory,
    Hole memory Engine.ca1BL.list ∧
      Agrees .ca1BL twoRecords (atEntry memory) 0x8000000000000000 Engine.ca1BL.list memory := by
  have low : LowList twoRecords := ⟨by decide, by decide⟩
  obtain ⟨memory, listed, source, hole⟩ := low_listed low
  exact ⟨memory, hole, (copy_patches_agrees_iff rfl listed source).1 (by decide)⟩

def emptyRecord : Record := ⟨0x80, [], by decide, by decide⟩

/-- The 1BL engine does not come through it. -/
theorem empty_record_disagrees : ∃ memory,
    Listed Engine.ca1BL.base Engine.ca1BL.list [emptyRecord] memory ∧
      Listed 0x8000000000000000 Engine.ca1BL.list [emptyRecord] memory ∧
      ¬ Agrees .ca1BL [emptyRecord] (atEntry memory) 0x8000000000000000
        Engine.ca1BL.list memory := by
  have low : LowList [emptyRecord] := ⟨by decide, by decide⟩
  obtain ⟨memory, listed, source, hole⟩ := low_listed low
  refine ⟨memory, listed, source, ?_⟩
  apply empty_disagrees
  · rfl
  · exact listed
  · exact hole
  · exact ⟨_, List.mem_singleton_self _, rfl⟩

end XeBuild.Patches
