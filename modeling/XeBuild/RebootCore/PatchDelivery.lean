import XeBuild.RebootCore.PatchSlots

/-!
# What the patch engine delivers

For a stream of four sections the first one is applied in any case. The other
three are cut at their end words; the first section with an end word among its
data leaves its slot short.
-/

namespace XeBuild.RebootCore

open WordMemory Runs

set_option autoImplicit false

/-- Four sections, the last three of them no longer than a slot. -/
structure PatchStream where
  first : List Record
  second : List Record
  third : List Record
  fourth : List Record
  fits : ∀ records ∈ [second, third, fourth], (sectionWords records).length ≤ slotWords

namespace PatchStream

variable (stream : PatchStream)

def later : List (List Record) := [stream.second, stream.third, stream.fourth]

def remainder : List UInt32 := (stream.later.map sectionWords).flatten

def words : List UInt32 := sectionWords stream.first ++ stream.remainder

end PatchStream

/-- Where the stream, the targets of the first section and the slots lie: apart
from each other. -/
structure Placed (dest src remDest : Nat) (stream : PatchStream) : Prop where
  streamFits : stream.words.length * 4 ≤ addressSpace
  targetsKeepStream : ∀ byte, Targets dest stream.first byte → ¬ Region src stream.words.length byte
  slotsKeepStream : ∀ byte, Region remDest (3 * slotWords) byte →
    ¬ Region src stream.words.length byte
  targetsKeepSlots : ∀ byte, Targets dest stream.first byte → ¬ Region remDest (3 * slotWords) byte

/-- A memory with the stream at `src` that backs everything the engine writes. -/
structure Ready (dest src remDest : Nat) (stream : PatchStream) (memory : Memory) : Prop where
  held : Holds memory src stream.words
  targets : ∀ byte, Targets dest stream.first byte → (memory byte).isSome
  slots : ∀ byte, Region remDest (3 * slotWords) byte → (memory byte).isSome

/-- The records of the first section are stored in order, every later section is
in its slot with its closing word, and nothing else has changed. -/
structure Delivered (dest remDest : Nat) (stream : PatchStream) (memory memory' : Memory) :
    Prop where
  records : ∃ applied, storeRecords dest stream.first memory = some applied ∧
    ∀ byte, (∀ (index : Nat) (records : List Record), stream.later[index]? = some records →
      ¬ Region (slot remDest index) (sectionWords records).length byte) →
        memory' byte = applied byte
  slots : ∀ (index : Nat) (records : List Record), stream.later[index]? = some records →
    Holds memory' (slot remDest index) (sectionWords records)

def Delivers (dest src remDest : Nat) (stream : PatchStream) : Prop :=
  ∀ memory, Ready dest src remDest stream memory →
    ∃ fuel memory', patchEngine fuel dest src remDest memory = .ok memory' ∧
      Delivered dest remDest stream memory memory'

/-! ## Runs -/

section Runs

variable {dest src remDest s tmp count fuel : Nat} {addr : UInt32} {stream : PatchStream}
variable {memory memory' : Memory} {pieces : List (List UInt32)} {rest : List UInt32}

theorem patch_engine_run (placed : Placed dest src remDest stream)
    (ready : Ready dest src remDest stream memory)
    (cutting : stream.remainder = pieces.flatten ++ rest)
    (three : pieces.length = 3) (cut : ∀ piece ∈ pieces, IsPiece piece ∧ piece.length ≤ slotWords) :
    ∃ applied memory', storeRecords dest stream.first memory = some applied ∧
      storeSlots remDest 0 pieces applied = some memory' ∧
      ∃ least, ∀ fuel, least < fuel → patchEngine fuel dest src remDest memory = .ok memory' := by
  obtain ⟨applied, records⟩ := store_records_exists ready.targets
  have slots : ∀ byte, Region remDest (3 * slotWords) byte → (applied byte).isSome := by
    intro byte inside
    rw [store_records_backed records]
    exact ready.slots byte inside
  obtain ⟨memory', stored⟩ := store_slots_exists (fun piece member => (cut piece member).2)
    (by omega : 0 + pieces.length ≤ 3) slots
  refine ⟨applied, memory', records, stored, stream.first.length + pieces.flatten.length, ?_⟩
  intro fuel enough
  have length : stream.words.length =
      (sectionWords stream.first).length + (pieces.flatten.length + rest.length) := by
    rw [PatchStream.words, cutting, List.length_append, List.length_append]
  have held := ready.held
  rw [PatchStream.words] at held
  obtain ⟨first, others⟩ := holds_append.mp held
  have applies := first_loop_run first records (fun byte target source =>
    placed.targetsKeepStream byte target (by
      rw [length]
      exact region_part 0 source (by omega))) (by omega : stream.first.length < fuel)
  have kept : Holds applied (src + (sectionWords stream.first).length * 4) stream.remainder := by
    apply holds_frame others
    intro byte inside
    apply store_records_frame records
    intro target
    apply placed.targetsKeepStream byte target
    rw [length]
    rw [cutting, List.length_append] at inside
    exact region_part _ inside (Nat.le_refl _)
  rw [cutting] at kept
  have shot := shoot_pieces (holds_append.mp kept).1 cut (by omega : 0 + pieces.length = 3)
    (fun byte target source => placed.slotsKeepStream byte target (by
      rw [length]
      exact region_part _ source (by omega))) stored (by omega : pieces.flatten.length < fuel)
  rw [patchEngine, applies]
  have start : slot remDest 0 = remDest := by rw [slot, Nat.zero_mul, Nat.add_zero]
  rw [start] at shot
  exact shot

theorem apply_patches_more {result : Nat × Memory}
    (run : applyPatches dest fuel addr s memory = .ok result) (extra : Nat) :
    applyPatches dest (fuel + extra) addr s memory = .ok result := by
  induction fuel generalizing addr s memory with
  | zero => cases run
  | succ fuel ih =>
      rw [Nat.succ_add]
      unfold applyPatches at run ⊢
      by_cases closing : addr = 0xFFFFFFFF
      · rwa [if_pos closing] at run ⊢
      · rw [if_neg closing] at run ⊢
        simp only [bind_ok_iff] at run ⊢
        obtain ⟨word, loaded, copied, copy, next, nextLoaded, others⟩ := run
        exact ⟨word, loaded, copied, copy, next, nextLoaded, ih others⟩

theorem shoot_remainder_more (run : shootRemainder remDest fuel count tmp s memory = .ok memory')
    (extra : Nat) : shootRemainder remDest (fuel + extra) count tmp s memory = .ok memory' := by
  induction fuel generalizing count tmp s memory with
  | zero => cases run
  | succ fuel ih =>
      rw [Nat.succ_add]
      unfold shootRemainder at run ⊢
      by_cases present : count < 3
      · rw [if_pos present] at run ⊢
        simp only [bind_ok_iff] at run ⊢
        obtain ⟨word, loaded, middle, stored, others⟩ := run
        refine ⟨word, loaded, middle, stored, ?_⟩
        by_cases closing : word = 0xFFFFFFFF
        · rw [if_pos closing] at others ⊢
          exact ih others
        · rw [if_neg closing] at others ⊢
          exact ih others
      · rwa [if_neg present] at run ⊢

theorem patch_engine_more (run : patchEngine fuel dest src remDest memory = .ok memory')
    (extra : Nat) : patchEngine (fuel + extra) dest src remDest memory = .ok memory' := by
  unfold patchEngine firstLoop at run ⊢
  simp only [bind_ok_iff] at run ⊢
  obtain ⟨result, ⟨addr, loaded, applied⟩, shot⟩ := run
  exact ⟨result, ⟨addr, loaded, apply_patches_more applied extra⟩, shoot_remainder_more shot extra⟩

end Runs

/-! ## Cutting sections into pieces -/

section Cutting

theorem first_piece (front : List UInt32) :
    ∃ body more, front ++ [endWord] = (body ++ [endWord]) ++ more ∧ endWord ∉ body ∧
      (more = [] ∨ ∃ front', more = front' ++ [endWord]) := by
  induction front with
  | nil => exact ⟨[], [], rfl, List.not_mem_nil, Or.inl rfl⟩
  | cons word front ih =>
      by_cases closing : word = endWord
      · exact ⟨[], front ++ [endWord], by rw [closing]; rfl, List.not_mem_nil, Or.inr ⟨front, rfl⟩⟩
      · obtain ⟨body, more, same, noEnd, left⟩ := ih
        refine ⟨word :: body, more, by rw [List.cons_append, same]; rfl, ?_, left⟩
        intro member
        rcases List.mem_cons.mp member with first | later
        · exact closing first.symm
        · exact noEnd later

/-- Some piece is a proper front of the section in its place. -/
def CutShort (pieces blocks : List (List UInt32)) : Prop :=
  ∃ (index : Nat) (piece more : List UInt32),
    pieces[index]? = some piece ∧ blocks[index]? = some (piece ++ more) ∧ more ≠ []

theorem cut_short_cons {piece block : List UInt32} {pieces blocks : List (List UInt32)}
    (short : CutShort pieces blocks) : CutShort (piece :: pieces) (block :: blocks) := by
  obtain ⟨index, front, more, atPiece, atBlock, left⟩ := short
  exact ⟨index + 1, front, more, atPiece, atBlock, left⟩

/-- Any closed blocks can be cut into pieces from the front. Either the pieces are
the blocks, or the first block that is not a piece has lost its end to the next one. -/
theorem cut_pieces (count : Nat) (blocks : List (List UInt32))
    (closed : ∀ block ∈ blocks, (∃ front, block = front ++ [endWord]) ∧ block.length ≤ slotWords)
    (enough : count ≤ blocks.length) :
    ∃ pieces rest, pieces.length = count ∧ blocks.flatten = pieces.flatten ++ rest ∧
      (∀ piece ∈ pieces, IsPiece piece ∧ piece.length ≤ slotWords) ∧
      (blocks.take count = pieces ∨ CutShort pieces blocks) := by
  induction count generalizing blocks with
  | zero =>
      refine ⟨[], blocks.flatten, rfl, rfl, ?_, Or.inl rfl⟩
      intro piece member
      cases member
  | succ count ih =>
      cases blocks with
      | nil => cases enough
      | cons block blocks =>
          have others := fun other member => closed other (List.mem_cons_of_mem block member)
          obtain ⟨⟨front, same⟩, fits⟩ := closed block List.mem_cons_self
          obtain ⟨body, more, cutting, noEnd, left⟩ := first_piece front
          rw [← same] at cutting
          have length := congrArg List.length cutting
          rw [List.length_append] at length
          have head : IsPiece (body ++ [endWord]) ∧ (body ++ [endWord]).length ≤ slotWords :=
            ⟨⟨body, rfl, noEnd⟩, by omega⟩
          rcases left with rfl | ⟨front', rfl⟩
          · rw [List.append_nil] at cutting
            obtain ⟨pieces, rest, size, split, cut, alternatives⟩ := ih blocks others
              (Nat.le_of_succ_le_succ enough)
            refine ⟨block :: pieces, rest, congrArg Nat.succ size, ?_, ?_, ?_⟩
            · rw [List.flatten_cons, List.flatten_cons, split, List.append_assoc]
            · rw [List.forall_mem_cons, cutting]
              exact ⟨head, cut⟩
            · rcases alternatives with whole | short
              · exact Or.inl (congrArg (List.cons block) whole)
              · exact Or.inr (cut_short_cons short)
          · have closedRest : ∀ other ∈ (front' ++ [endWord]) :: blocks,
                (∃ front, other = front ++ [endWord]) ∧ other.length ≤ slotWords := by
              rw [List.forall_mem_cons]
              exact ⟨⟨⟨front', rfl⟩, by omega⟩, others⟩
            obtain ⟨pieces, rest, size, split, cut, _⟩ := ih _ closedRest
              (Nat.le_of_succ_le enough)
            refine ⟨(body ++ [endWord]) :: pieces, rest, congrArg Nat.succ size, ?_, ?_, Or.inr ?_⟩
            · rw [List.flatten_cons, List.flatten_cons, cutting,
                List.append_assoc (body ++ [endWord]),
                List.append_assoc (body ++ [endWord]), ← split,
                List.flatten_cons]
            · exact List.forall_mem_cons.mpr ⟨head, cut⟩
            · refine ⟨0, body ++ [endWord], front' ++ [endWord], rfl, congrArg some cutting, ?_⟩
              exact List.append_ne_nil_of_right_ne_nil _ (List.cons_ne_nil _ _)

theorem record_fits {record : Record} {records : List Record} (member : record ∈ records) :
    record.data.length ≤ (sectionWords records).length := by
  obtain ⟨front, back, rfl⟩ := List.append_of_mem member
  simp only [sectionWords, List.flatMap_append, List.flatMap_cons, Record.words, List.length_append,
    List.length_cons]
  omega

/-- A section is one piece when no data word is an end word. The count word of a
section that fits a slot is none either. -/
theorem section_piece_iff {records : List Record}
    (fits : (sectionWords records).length ≤ slotWords) :
    IsPiece (sectionWords records) ↔ ∀ record ∈ records, endWord ∉ record.data := by
  have words : IsPiece (sectionWords records) ↔ endWord ∉ records.flatMap Record.words := by
    constructor
    · intro piece
      rcases piece with ⟨body, same, noEnd⟩
      rwa [List.append_cancel_right same]
    · intro noEnd
      exact ⟨_, rfl, noEnd⟩
  rw [words]
  constructor
  · intro noEnd record member closing
    apply noEnd
    rw [List.mem_flatMap]
    exact ⟨record, member, List.mem_cons_of_mem _ (List.mem_cons_of_mem _ closing)⟩
  · intro clean member
    obtain ⟨record, inRecords, closing⟩ := List.mem_flatMap.mp member
    rcases List.mem_cons.mp closing with address | closing
    · exact record.notEnd address.symm
    · rcases List.mem_cons.mp closing with counted | data
      · have number := congrArg UInt32.toNat counted
        have small := record_fits inRecords
        rw [count_word] at number
        rw [slotWords] at fits
        change 0xFFFFFFFF = record.data.length at number
        omega
      · exact clean record inRecords data

end Cutting

/-! ## The result -/

section Delivery

variable {dest src remDest : Nat} {stream : PatchStream}

theorem later_blocks (stream : PatchStream) : ∀ block ∈ stream.later.map sectionWords,
    (∃ front, block = front ++ [endWord]) ∧ block.length ≤ slotWords := by
  intro block member
  obtain ⟨records, inLater, rfl⟩ := List.mem_map.mp member
  exact ⟨⟨_, rfl⟩, stream.fits records inLater⟩

theorem clean_delivers (placed : Placed dest src remDest stream)
    (clean : ∀ records ∈ stream.later, ∀ record ∈ records, endWord ∉ record.data) :
    Delivers dest src remDest stream := by
  intro memory ready
  have cut : ∀ piece ∈ stream.later.map sectionWords, IsPiece piece ∧ piece.length ≤ slotWords := by
    intro piece member
    obtain ⟨records, inLater, rfl⟩ := List.mem_map.mp member
    have fits := stream.fits records inLater
    exact ⟨(section_piece_iff fits).mpr (clean records inLater), fits⟩
  obtain ⟨applied, memory', records, stored, least, run⟩ := patch_engine_run placed ready
    (List.append_nil stream.remainder).symm rfl cut
  have found : ∀ {index : Nat} {laterRecords : List Record}, stream.later[index]? =
      some laterRecords →
      (stream.later.map sectionWords)[index]? = some (sectionWords laterRecords) := by
    intro index laterRecords atIndex
    rw [List.getElem?_map, atIndex]
    rfl
  refine ⟨least + 1, memory', run _ (Nat.lt_succ_self _), ⟨applied, records, ?_⟩, ?_⟩
  · intro byte outside
    apply store_slots_frame stored
    intro index piece atIndex
    rw [List.getElem?_map, Option.map_eq_some_iff] at atIndex
    obtain ⟨laterRecords, inLater, rfl⟩ := atIndex
    rw [Nat.zero_add]
    exact outside index laterRecords inLater
  · intro index laterRecords atIndex
    have slots := (store_slots_at stored (fun piece member => (cut piece member).2) (Nat.le_refl 3)
      (found atIndex)).1
    rwa [Nat.zero_add] at slots

theorem filled_ready (placed : Placed dest src remDest stream) (value : UInt8) :
    ∃ memory, Ready dest src remDest stream memory ∧
      ∀ byte, ¬ Region src stream.words.length byte → memory byte = some value := by
  obtain ⟨memory, stored⟩ : ∃ memory, storeWords (fun _ => some value) src stream.words =
      some memory :=
    store_words_exists fun _ _ => rfl
  have backed : ∀ byte, (memory byte).isSome := by
    intro byte
    rw [store_words_backed stored]
    rfl
  exact ⟨memory, ⟨store_words_hold stored placed.streamFits, fun byte _ => backed byte,
    fun byte _ => backed byte⟩, fun byte outside => store_words_frame stored outside⟩

/-- The word behind a piece lies in the slot and not in the piece. -/
theorem beyond_piece {index offset : Nat} {piece more : List UInt32} {word : UInt32}
    (fits : (piece ++ word :: more).length ≤ slotWords) (inWord : offset < 4) :
    Region (slot remDest index) (piece ++ word :: more).length
        (byteAt (slot remDest index + piece.length * 4) offset) ∧
      ¬ Region (slot remDest index) piece.length
        (byteAt (slot remDest index + piece.length * 4) offset) := by
  constructor
  · apply region_part piece.length (region_word inWord rfl : Region _ (0 + 1) _)
    rw [List.length_append, List.length_cons]
    omega
  · intro inPiece
    rcases inPiece with ⟨other, bound, equal⟩
    rw [byte_at_add] at equal
    rw [List.length_append, slotWords] at fits
    have numbers := byte_at_injective (by rw [addressSpace]; omega) (by rw [addressSpace]; omega)
      equal
    omega

/-- The word of a short slot behind its piece is what the memory held before. -/
theorem short_slot_word (placed : Placed dest src remDest stream)
    (delivers : Delivers dest src remDest stream) {pieces : List (List UInt32)} {rest : List UInt32}
    (cutting : stream.remainder = pieces.flatten ++ rest) (three : pieces.length = 3)
    (cut : ∀ piece ∈ pieces, IsPiece piece ∧ piece.length ≤ slotWords)
    {index : Nat} {piece more : List UInt32} {word : UInt32} (atPiece : pieces[index]? = some piece)
    (atBlock : (stream.later.map sectionWords)[index]? = some (piece ++ word :: more))
    (value : UInt8) :
    wordOf value value value value = word := by
  obtain ⟨memory, ready, filled⟩ := filled_ready placed value
  obtain ⟨fuel, memory', run, delivered⟩ := delivers memory ready
  obtain ⟨applied, final, records, stored, least, runs⟩ :=
    patch_engine_run placed ready cutting three cut
  have same : final = memory' := by
    have first := patch_engine_more run (least + 1)
    have second := runs (fuel + (least + 1)) (by omega)
    rw [first] at second
    exact (Except.ok.inj second).symm
  have fits := (later_blocks stream _ (List.mem_of_getElem? atBlock)).2
  have present : index < 3 := three ▸ (List.getElem?_eq_some_iff.mp atPiece).1
  have untouched : ∀ offset < 4,
      memory' (byteAt (slot remDest index + piece.length * 4) offset) = some value := by
    intro offset inWord
    obtain ⟨inside, beyond⟩ := beyond_piece fits inWord
    have inSlots := slot_region present fits inside
    have kept := (store_slots_at stored (fun piece member => (cut piece member).2)
      (by omega : 0 + pieces.length ≤ 3) atPiece).2 _ fits
    rw [Nat.zero_add] at kept
    rw [← same, kept _ inside beyond, store_records_frame records, filled]
    · exact placed.slotsKeepStream _ inSlots
    · intro target
      exact placed.targetsKeepSlots _ target inSlots
  have held : Holds memory' (slot remDest index) (piece ++ word :: more) := by
    rw [List.getElem?_map, Option.map_eq_some_iff] at atBlock
    obtain ⟨laterRecords, inLater, words⟩ := atBlock
    rw [← words]
    exact delivered.slots index laterRecords inLater
  have loaded : loadWord memory' (slot remDest index + piece.length * 4) = some word :=
    (holds_append.mp held).2.1
  unfold loadWord at loaded
  rw [untouched 0 (by decide), untouched 1 (by decide), untouched 2 (by decide),
    untouched 3 (by decide)] at loaded
  exact Option.some.inj loaded

/-- An end word among the data of a later section is not delivered. -/
theorem delivers_clean (placed : Placed dest src remDest stream)
    (delivers : Delivers dest src remDest stream) :
    ∀ records ∈ stream.later, ∀ record ∈ records, endWord ∉ record.data := by
  obtain ⟨pieces, rest, three, cutting, cut, alternatives⟩ :=
    cut_pieces 3 (stream.later.map sectionWords) (later_blocks stream) (Nat.le_refl 3)
  rcases alternatives with whole | ⟨index, piece, more, atPiece, atBlock, left⟩
  · intro records inLater
    rw [← section_piece_iff (stream.fits records inLater)]
    have member : sectionWords records ∈ pieces := by
      rw [← whole]
      exact List.mem_map_of_mem inLater
    exact (cut _ member).1
  · obtain ⟨word, more, rfl⟩ := List.exists_cons_of_ne_nil left
    have zero := short_slot_word placed delivers cutting three cut atPiece atBlock 0
    have one := short_slot_word placed delivers cutting three cut atPiece atBlock 1
    exact absurd (zero.trans one.symm) (by decide)

theorem patch_engine_delivers_iff (placed : Placed dest src remDest stream) :
    Delivers dest src remDest stream ↔
      ∀ records ∈ [stream.second, stream.third, stream.fourth], ∀ record ∈ records,
        endWord ∉ record.data := by
  constructor
  · exact delivers_clean placed
  · exact clean_delivers placed

end Delivery

/-! ## The call in `start` -/

def PATCH_MEM_DST : Nat := 0x8000000000000000
def PATCH_NAND_OFF : Nat := 0x80000200C8091000
def PATCH_REM_DST : Nat := 0x8000000001000000

/-- The flash window lies above all targets and the slots, so only the first
section's targets can be misplaced. -/
theorem start_placed (stream : PatchStream)
    (fits : PATCH_NAND_OFF + stream.words.length * 4 ≤ addressSpace)
    (targets : ∀ byte, Targets PATCH_MEM_DST stream.first byte →
      ¬ Region PATCH_REM_DST (3 * slotWords) byte) :
    Placed PATCH_MEM_DST PATCH_NAND_OFF PATCH_REM_DST stream := by
  have below : ∀ {address count byte : Nat}, address + count * 4 ≤ PATCH_NAND_OFF →
      Region address count byte → ¬ Region PATCH_NAND_OFF stream.words.length byte := by
    intro address count byte low inside inStream
    rcases inside with ⟨index, bound, rfl⟩
    rcases inStream with ⟨other, otherBound, same⟩
    unfold byteAt PATCH_NAND_OFF addressSpace at *
    omega
  constructor
  · omega
  · intro byte inTargets
    rcases inTargets with ⟨record, member, target⟩
    have address := record.address.toNat_lt
    have counted := record.counted
    apply below _ target
    rw [PATCH_MEM_DST, PATCH_NAND_OFF]
    omega
  · intro byte inside
    apply below _ inside
    decide
  · exact targets

/-- One record for the first stage and two for the later ones; `word` is data of
the second section. -/
def bootStream (word : UInt32) : PatchStream where
  first := [⟨0x100, [0x60000000], by decide, by decide⟩]
  second := [⟨0x200, [0x38600000, word], by decide, by simp⟩]
  third := [⟨0x300, [0x4E800020], by decide, by decide⟩]
  fourth := []
  fits := by
    intro records member
    simp only [List.mem_cons, List.not_mem_nil, or_false] at member
    rcases member with rfl | rfl | rfl <;>
      simp [sectionWords, Record.words, slotWords]

theorem boot_stream_placed (word : UInt32) :
    Placed PATCH_MEM_DST PATCH_NAND_OFF PATCH_REM_DST (bootStream word) := by
  apply start_placed
  · simp [bootStream, PatchStream.words, PatchStream.remainder, PatchStream.later, sectionWords,
      Record.words, PATCH_NAND_OFF, addressSpace]
  · intro byte inTargets inSlots
    rcases inTargets with ⟨record, member, index, bound, same⟩
    rcases inSlots with ⟨other, otherBound, equal⟩
    rw [bootStream, List.mem_singleton] at member
    rw [member] at bound same
    have offset : byte = (PATCH_MEM_DST + 0x100 + index) % addressSpace := same
    have small : index < 1 * 4 := bound
    rw [slotWords] at otherBound
    rw [byteAt, PATCH_REM_DST, addressSpace] at equal
    rw [PATCH_MEM_DST, addressSpace] at offset
    omega

/-- The stream with a return instruction in its place is delivered. -/
theorem boot_stream_delivered :
    Delivers PATCH_MEM_DST PATCH_NAND_OFF PATCH_REM_DST (bootStream 0x4E800020) := by
  rw [patch_engine_delivers_iff (boot_stream_placed _)]
  intro records member record inRecords
  simp only [bootStream, List.mem_cons, List.not_mem_nil, or_false] at member
  rcases member with rfl | rfl | rfl
  · rw [List.mem_singleton.mp inRecords]
    decide
  · rw [List.mem_singleton.mp inRecords]
    decide
  · cases inRecords

/-- A data word of all ones ends the second section early. -/
theorem all_ones_data_not_delivered :
    Placed PATCH_MEM_DST PATCH_NAND_OFF PATCH_REM_DST (bootStream 0xFFFFFFFF) ∧
      ¬ Delivers PATCH_MEM_DST PATCH_NAND_OFF PATCH_REM_DST (bootStream 0xFFFFFFFF) := by
  refine ⟨boot_stream_placed _, ?_⟩
  intro delivers
  apply delivers_clean (boot_stream_placed _) delivers _ List.mem_cons_self _ List.mem_cons_self
  decide

end XeBuild.RebootCore
