import XeBuild.RebootCore.PatchEngine
import XeBuild.Lib.Runs

/-!
# The slots of the later boot stages

The second loop cuts the words behind the first list at every end word. Each
piece goes to its slot. A section arrives whole exactly when its only end word
is the closing one, that is, when no data word looks like it.
-/

namespace XeBuild.RebootCore

open WordMemory Runs

set_option autoImplicit false

/-- Words of one slot, `0x1000` bytes. -/
def slotWords : Nat := 0x400

def slot (remDest count : Nat) : Nat := remDest + count * 0x1000

/-! ## Pieces -/

/-- Words that end with their first end word. -/
def IsPiece (piece : List UInt32) : Prop := ∃ body, piece = body ++ [endWord] ∧ endWord ∉ body

/-- Pieces stored in consecutive slots, the first one in slot `count`. -/
def storeSlots (remDest : Nat) : Nat → List (List UInt32) → Memory → Option Memory
  | _, [], memory => some memory
  | count, piece :: rest, memory => do
      let memory ← storeWords memory (slot remDest count) piece
      storeSlots remDest (count + 1) rest memory

section Pieces

variable {remDest tmp s count fuel : Nat} {piece body : List UInt32} {pieces : List (List UInt32)}
variable {memory memory' : Memory}

theorem slot_region {byte : Nat} (present : count < 3) (fits : piece.length ≤ slotWords)
    (inside : Region (slot remDest count) piece.length byte) :
    Region remDest (3 * slotWords) byte := by
  have shift : slot remDest count = remDest + count * slotWords * 4 := by
    rw [slot, slotWords]
    omega
  rw [shift] at inside
  apply region_part (count * slotWords) inside
  rw [slotWords] at fits ⊢
  omega

theorem slots_apart {other size size' byte : Nat} (present : count < 3) (present' : other < 3)
    (fits : size ≤ slotWords) (fits' : size' ≤ slotWords)
    (inside : Region (slot remDest count) size byte)
    (inside' : Region (slot remDest other) size' byte) :
    count = other := by
  obtain ⟨index, bound, same⟩ := inside
  obtain ⟨index', bound', same'⟩ := inside'
  rw [slot, byte_at_add] at same same'
  rw [slotWords] at fits fits'
  have equal := byte_at_injective (by rw [addressSpace]; omega) (by rw [addressSpace]; omega)
    (same.symm.trans same')
  omega

theorem store_slots_cons : storeSlots remDest count (piece :: pieces) memory = some memory' ↔
    ∃ middle, storeWords memory (slot remDest count) piece = some middle ∧
      storeSlots remDest (count + 1) pieces middle = some memory' := by
  simp only [storeSlots, Option.bind_eq_bind, Option.bind_eq_some_iff]

theorem shoot_step {word : UInt32} (present : count < 3) (loaded : loadWord memory s = some word)
    (stored : storeWord memory tmp word = some memory') :
    shootRemainder remDest (fuel + 1) count tmp s memory =
      if word = endWord then
        shootRemainder remDest fuel (count + 1) (slot remDest (count + 1)) (s + 4) memory'
      else
        shootRemainder remDest fuel count (tmp + 4) (s + 4) memory' := by
  rw [shootRemainder, if_pos present, load_ok_iff.mpr loaded]
  change (store memory tmp word >>= _) = _
  rw [store_ok_iff.mpr stored]
  rfl

theorem shoot_piece (noEnd : endWord ∉ body) (held : Holds memory s (body ++ [endWord]))
    (run : storeWords memory tmp (body ++ [endWord]) = some memory')
    (apart : ∀ byte, Region tmp (body ++ [endWord]).length byte →
      ¬ Region s (body ++ [endWord]).length byte)
    (present : count < 3) :
    shootRemainder remDest (fuel + (body ++ [endWord]).length) count tmp s memory =
      shootRemainder remDest fuel (count + 1) (slot remDest (count + 1))
        (s + (body ++ [endWord]).length * 4) memory' := by
  induction body generalizing s tmp memory with
  | nil =>
      obtain ⟨closing, _⟩ := held
      obtain ⟨middle, stored, done⟩ := store_words_cons.mp run
      cases done
      exact (shoot_step present closing stored).trans (if_pos rfl)
  | cons word body ih =>
      obtain ⟨first, others⟩ := held
      obtain ⟨middle, stored, rest⟩ := store_words_cons.mp run
      have more : ¬ word = endWord := fun closing => noEnd (List.mem_cons.mpr (Or.inl closing.symm))
      have later : endWord ∉ body := fun member => noEnd (List.mem_cons_of_mem _ member)
      rw [List.cons_append, List.length_cons] at apart ⊢
      have kept : Holds middle (s + 4) (body ++ [endWord]) := by
        apply holds_frame others
        intro byte inside
        apply store_word_frame stored
        intro index inWord same
        exact apart byte (region_word inWord same) (region_rest inside)
      have next := ih later kept rest fun byte target source =>
        apart byte (region_rest target) (region_rest source)
      have shift : s + 4 + (body ++ [endWord]).length * 4 =
          s + ((body ++ [endWord]).length + 1) * 4 := by omega
      rw [← shift, ← next, ← Nat.add_assoc, shoot_step present first stored, if_neg more]

theorem shoot_pieces (held : Holds memory s pieces.flatten)
    (cut : ∀ piece ∈ pieces, IsPiece piece ∧ piece.length ≤ slotWords)
    (slots : count + pieces.length = 3)
    (apart : ∀ byte, Region remDest (3 * slotWords) byte → ¬ Region s pieces.flatten.length byte)
    (run : storeSlots remDest count pieces memory = some memory')
    (enough : pieces.flatten.length < fuel) :
    shootRemainder remDest fuel count (slot remDest count) s memory = .ok memory' := by
  induction pieces generalizing s count memory fuel with
  | nil =>
      cases run
      obtain ⟨left, rfl⟩ : ∃ left, fuel = left + 1 := ⟨fuel - 1, by omega⟩
      rw [List.length_nil, Nat.add_zero] at slots
      rw [shootRemainder, if_neg (by omega)]
  | cons piece pieces ih =>
      obtain ⟨middle, stored, rest⟩ := store_slots_cons.mp run
      obtain ⟨⟨body, rfl, noEnd⟩, fits⟩ := cut piece List.mem_cons_self
      rw [List.length_cons] at slots
      rw [List.flatten_cons] at held
      rw [List.flatten_cons, List.length_append] at apart enough
      obtain ⟨first, others⟩ := holds_append.mp held
      obtain ⟨left, rfl⟩ : ∃ left, fuel = left + (body ++ [endWord]).length :=
        ⟨fuel - (body ++ [endWord]).length, by omega⟩
      have outside : ∀ byte, Region (slot remDest count) (body ++ [endWord]).length byte →
          ¬ Region s ((body ++ [endWord]).length + pieces.flatten.length) byte := by
        intro byte inside
        exact apart byte (slot_region (by omega) fits inside)
      have kept : Holds middle (s + (body ++ [endWord]).length * 4) pieces.flatten := by
        apply holds_frame others
        intro byte inside
        apply store_words_frame stored
        intro target
        exact outside byte target (region_part _ inside (Nat.le_refl _))
      rw [shoot_piece noEnd first stored _ (by omega)]
      · apply ih kept (fun later member => cut later (List.mem_cons_of_mem _ member))
          (by omega) _ rest
          (by omega)
        intro byte target source
        exact apart byte target (region_part _ source (Nat.le_refl _))
      · intro byte target source
        exact outside byte target (region_part 0 source (by omega))

theorem store_slots_frame (run : storeSlots remDest count pieces memory = some memory') {byte : Nat}
    (outside : ∀ index piece, pieces[index]? = some piece →
      ¬ Region (slot remDest (count + index)) piece.length byte) : memory' byte = memory byte := by
  induction pieces generalizing count memory with
  | nil =>
      cases run
      rfl
  | cons piece pieces ih =>
      obtain ⟨middle, stored, rest⟩ := store_slots_cons.mp run
      rw [ih rest, store_words_frame stored (outside 0 piece rfl)]
      intro index later atIndex
      have shift : count + (index + 1) = count + 1 + index := by omega
      rw [← shift]
      exact outside (index + 1) later atIndex

theorem store_slots_exists (cut : ∀ piece ∈ pieces, piece.length ≤ slotWords)
    (slots : count + pieces.length ≤ 3)
    (backed : ∀ byte, Region remDest (3 * slotWords) byte → (memory byte).isSome) :
    ∃ memory', storeSlots remDest count pieces memory = some memory' := by
  induction pieces generalizing count memory with
  | nil => exact ⟨memory, rfl⟩
  | cons piece pieces ih =>
      rw [List.length_cons] at slots
      have fits := cut piece List.mem_cons_self
      have present : count < 3 := by omega
      obtain ⟨middle, stored⟩ : ∃ middle, storeWords memory (slot remDest count) piece =
          some middle :=
        store_words_exists fun byte inside => backed byte (slot_region present fits inside)
      have left : ∀ byte, Region remDest (3 * slotWords) byte → (middle byte).isSome := by
        intro byte inside
        rw [store_words_backed stored]
        exact backed byte inside
      have others : ∀ later ∈ pieces, later.length ≤ slotWords :=
        fun later member => cut later (List.mem_cons_of_mem _ member)
      have room : count + 1 + pieces.length ≤ 3 := by omega
      obtain ⟨memory', rest⟩ := ih others room left
      exact ⟨memory', store_slots_cons.mpr ⟨middle, stored, rest⟩⟩

/-- Every piece is in its slot afterwards, and the slot is otherwise as it was. -/
theorem store_slots_at (run : storeSlots remDest count pieces memory = some memory')
    (cut : ∀ piece ∈ pieces, piece.length ≤ slotWords) (slots : count + pieces.length ≤ 3)
    {index : Nat} (atIndex : pieces[index]? = some piece) :
    Holds memory' (slot remDest (count + index)) piece ∧
      ∀ size ≤ slotWords, ∀ byte, Region (slot remDest (count + index)) size byte →
        ¬ Region (slot remDest (count + index)) piece.length byte → memory' byte = memory byte := by
  have present : index < pieces.length := (List.getElem?_eq_some_iff.mp atIndex).1
  constructor
  · induction pieces generalizing count memory index with
    | nil => simp at present
    | cons head pieces ih =>
        obtain ⟨middle, stored, rest⟩ := store_slots_cons.mp run
        rw [List.length_cons] at slots present
        cases index with
        | zero =>
            cases atIndex
            have fits := cut piece List.mem_cons_self
            apply holds_frame (store_words_hold stored
              (by rw [slotWords] at fits; rw [addressSpace]; omega))
            intro byte inside
            apply store_slots_frame rest
            intro later other found target
            have lengths := (List.getElem?_eq_some_iff.mp found).1
            have same := slots_apart (by omega) (by omega) fits
              (cut other (List.mem_cons_of_mem _ (List.mem_of_getElem? found))) inside target
            omega
        | succ index =>
            have next := ih rest (fun later member => cut later (List.mem_cons_of_mem _ member))
              (by omega) atIndex (by omega)
            have shift : count + 1 + index = count + (index + 1) := by omega
            rwa [shift] at next
  · intro size small byte inside outside
    apply store_slots_frame run
    intro other later found target
    have lengths := (List.getElem?_eq_some_iff.mp found).1
    have same := slots_apart (by omega) (by omega) small (cut later (List.mem_of_getElem? found))
      inside target
    have equal : other = index := by omega
    rw [equal, atIndex] at found
    cases found
    rw [equal] at target
    exact outside target

end Pieces

end XeBuild.RebootCore
