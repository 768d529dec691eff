import Mathlib.Data.Nat.Find
import XeBuild.Mspack.CodeLengths

/-!
# Offsets of matches

The tables of the position slots, the queue of the last three offsets, and how a
verbatim and an aligned block read an offset. A slot stands for a range of offsets
that follows the range of the slot before it, so every offset has one slot and one
number inside of its range.
-/

namespace XeBuild.Mspack

open BitText Runs WordBits

set_option autoImplicit false

def LZX_MIN_MATCH : Nat := 2
def LZX_MAX_MATCH : Nat := 257

def positionSlots : List Nat := [30, 32, 34, 36, 38, 42, 50, 66, 98, 162, 290]

def extraBits : List Nat :=
  [0, 0, 0, 0, 1, 1, 2, 2, 3, 3, 4, 4, 5, 5, 6, 6, 7, 7, 8, 8,
   9, 9, 10, 10, 11, 11, 12, 12, 13, 13, 14, 14, 15, 15, 16, 16]

def positionBase : List Nat :=
  [0, 1, 2, 3, 4, 6, 8, 12, 16, 24, 32, 48, 64, 96, 128, 192, 256, 384, 512, 768, 1024, 1536, 2048,
   3072, 4096, 6144, 8192, 12288, 16384, 24576, 32768, 49152, 65536, 98304, 131072, 196608, 262144,
   393216, 524288, 655360, 786432, 917504, 1048576, 1179648, 1310720, 1441792, 1572864, 1703936,
   1835008, 1966080, 2097152, 2228224, 2359296, 2490368, 2621440, 2752512, 2883584, 3014656,
   3145728, 3276800, 3407872, 3538944, 3670016, 3801088, 3932160, 4063232, 4194304, 4325376,
   4456448, 4587520, 4718592, 4849664, 4980736, 5111808, 5242880, 5373952, 5505024, 5636096,
   5767168, 5898240, 6029312, 6160384, 6291456, 6422528, 6553600, 6684672, 6815744, 6946816,
   7077888, 7208960, 7340032, 7471104, 7602176, 7733248, 7864320, 7995392, 8126464, 8257536,
   8388608, 8519680, 8650752, 8781824, 8912896, 9043968, 9175040, 9306112, 9437184, 9568256,
   9699328, 9830400, 9961472, 10092544, 10223616, 10354688, 10485760, 10616832, 10747904, 10878976,
   11010048, 11141120, 11272192, 11403264, 11534336, 11665408, 11796480, 11927552, 12058624,
   12189696, 12320768, 12451840, 12582912, 12713984, 12845056, 12976128, 13107200, 13238272,
   13369344, 13500416, 13631488, 13762560, 13893632, 14024704, 14155776, 14286848, 14417920,
   14548992, 14680064, 14811136, 14942208, 15073280, 15204352, 15335424, 15466496, 15597568,
   15728640, 15859712, 15990784, 16121856, 16252928, 16384000, 16515072, 16646144, 16777216,
   16908288, 17039360, 17170432, 17301504, 17432576, 17563648, 17694720, 17825792, 17956864,
   18087936, 18219008, 18350080, 18481152, 18612224, 18743296, 18874368, 19005440, 19136512,
   19267584, 19398656, 19529728, 19660800, 19791872, 19922944, 20054016, 20185088, 20316160,
   20447232, 20578304, 20709376, 20840448, 20971520, 21102592, 21233664, 21364736, 21495808,
   21626880, 21757952, 21889024, 22020096, 22151168, 22282240, 22413312, 22544384, 22675456,
   22806528, 22937600, 23068672, 23199744, 23330816, 23461888, 23592960, 23724032, 23855104,
   23986176, 24117248, 24248320, 24379392, 24510464, 24641536, 24772608, 24903680, 25034752,
   25165824, 25296896, 25427968, 25559040, 25690112, 25821184, 25952256, 26083328, 26214400,
   26345472, 26476544, 26607616, 26738688, 26869760, 27000832, 27131904, 27262976, 27394048,
   27525120, 27656192, 27787264, 27918336, 28049408, 28180480, 28311552, 28442624, 28573696,
   28704768, 28835840, 28966912, 29097984, 29229056, 29360128, 29491200, 29622272, 29753344,
   29884416, 30015488, 30146560, 30277632, 30408704, 30539776, 30670848, 30801920, 30932992,
   31064064, 31195136, 31326208, 31457280, 31588352, 31719424, 31850496, 31981568, 32112640,
   32243712, 32374784, 32505856, 32636928, 32768000, 32899072, 33030144, 33161216, 33292288,
   33423360]

/-- `(match_offset >= 36) ? 17 : extra_bits[match_offset]`. -/
def slotExtra (slot : Nat) : Nat := if slot ≥ 36 then 17 else extraBits.getD slot 0

def loadBase (slot : Nat) : Except Stop Nat :=
  if slot < positionBase.length then .ok (positionBase.getD slot 0)
  else .error (.outside .position_base slot)

structure OffsetQueue where
  R0 : Nat
  R1 : Nat
  R2 : Nat
  deriving DecidableEq

def OffsetQueue.push (q : OffsetQueue) (match_offset : Nat) : OffsetQueue :=
  ⟨match_offset, q.R0, q.R1⟩

def verbatimOffset (slot : Nat) (q : OffsetQueue) (p : BitReader) :
    Except Stop (Nat × OffsetQueue × BitReader) :=
  if slot = 0 then .ok (q.R0, q, p)
  else if slot = 1 then .ok (q.R1, ⟨q.R1, q.R0, q.R2⟩, p)
  else if slot = 2 then .ok (q.R2, ⟨q.R2, q.R1, q.R0⟩, p)
  else if slot = 3 then .ok (1, q.push 1, p)
  else do
    let extra := slotExtra slot
    let (verbatim_bits, p) ← readBits extra p
    let base ← loadBase slot
    let match_offset := base - 2 + verbatim_bits
    return (match_offset, q.push match_offset, p)

/-- The offset of a match in an aligned block: the low three bits have a code. -/
def alignedOffset (aligned : TreeMemory) (slot : Nat) (q : OffsetQueue) (p : BitReader) :
    Except Stop (Nat × OffsetQueue × BitReader) :=
  if slot = 0 then .ok (q.R0, q, p)
  else if slot = 1 then .ok (q.R1, ⟨q.R1, q.R0, q.R2⟩, p)
  else if slot = 2 then .ok (q.R2, ⟨q.R2, q.R1, q.R0⟩, p)
  else do
    let extra := slotExtra slot
    let base ← loadBase slot
    let (match_offset, p) ←
      if extra > 3 then do
        let (verbatim_bits, p) ← readBits (extra - 3) p
        let (aligned_bits, p) ← readHuffsym ALIGNED aligned p
        pure (base - 2 + (verbatim_bits <<< 3) + aligned_bits, p)
      else if extra = 3 then do
        let (aligned_bits, p) ← readHuffsym ALIGNED aligned p
        pure (base - 2 + aligned_bits, p)
      else if extra > 0 then do
        let (verbatim_bits, p) ← readBits extra p
        pure (base - 2 + verbatim_bits, p)
      else pure (1, p)
    return (match_offset, q.push match_offset, p)

/-! ## Slots -/

/-- The first number of a slot. Numbers are two more than the offsets that they stand for. -/
def slotBase (slot : Nat) : Nat := positionBase.getD slot 0

/-- The last slot that does not start behind a number. -/
def numberSlot (number : Nat) : Nat := Nat.findGreatest (fun slot => slotBase slot ≤ number) 289

def numbersEnd : Nat := 2 ^ 25

section Slots

variable {slot slot' footer footer' number : Nat}

theorem slot_base_succ (below : slot < 289) :
    slotBase (slot + 1) = slotBase slot + 2 ^ slotExtra slot := by
  have all : ∀ slot < 289, slotBase (slot + 1) = slotBase slot + 2 ^ slotExtra slot := by
    decide +kernel
  exact all slot below

theorem last_slot_end : slotBase 289 + 2 ^ slotExtra 289 = numbersEnd := by decide +kernel

theorem slot_base_le (order : slot < slot') (below : slot' ≤ 289) :
    slotBase slot + 2 ^ slotExtra slot ≤ slotBase slot' := by
  induction slot', order using Nat.le_induction with
  | base => exact Nat.le_of_eq (slot_base_succ (by omega)).symm
  | succ last order ih =>
      rw [slot_base_succ (by omega)]
      exact Nat.le_trans (ih (by omega)) (Nat.le_add_right _ _)

theorem number_slot_le : numberSlot number ≤ 289 := Nat.findGreatest_le 289

theorem number_slot_base : slotBase (numberSlot number) ≤ number := by
  have first : slotBase 0 ≤ number := Nat.zero_le number
  exact @Nat.findGreatest_spec 0 (fun slot => slotBase slot ≤ number) _ 289 (Nat.zero_le _) first

theorem number_slot_footer (small : number < numbersEnd) :
    number - slotBase (numberSlot number) < 2 ^ slotExtra (numberSlot number) := by
  have base := @number_slot_base number
  rcases Nat.lt_or_eq_of_le (@number_slot_le number) with below | last
  · have next := @Nat.findGreatest_is_greatest (numberSlot number + 1)
      (fun slot => slotBase slot ≤ number) _ 289 (Nat.lt_succ_self _) below
    rw [slot_base_succ below] at next
    omega
  · rw [last] at base ⊢
    have end_ := last_slot_end
    omega

theorem slot_extra_le : slotExtra slot ≤ 17 := by
  rw [slotExtra]
  split_ifs with large
  · exact Nat.le_refl _
  · have all : ∀ slot < 36, extraBits.getD slot 0 ≤ 17 := by decide
    exact all slot (by omega)

theorem slot_extra_positive (after : 4 ≤ slot) : 0 < slotExtra slot := by
  rw [slotExtra]
  split_ifs with large
  · decide
  · have all : ∀ slot < 36, 4 ≤ slot → 0 < extraBits.getD slot 0 := by decide
    exact all slot (by omega) after

theorem load_base_ok (below : slot < 290) : loadBase slot = .ok (slotBase slot) := by
  have size : positionBase.length = 290 := by decide +kernel
  rw [loadBase, if_pos (by omega), slotBase]

end Slots

/-! ## Offsets that are read -/

section Read

variable {aligned : TreeMemory} {slot : Nat} {q : OffsetQueue} {p : BitReader}

theorem verbatim_offset_result (sound : p.Sound) (below : slot < 290) :
    verbatimOffset slot q p = .error (.error MSPACK_ERR_READ) ∨
      ∃ match_offset q' p', verbatimOffset slot q p = .ok (match_offset, q', p') ∧ p'.Sound ∧
        p'.available ≤ p.available := by
  rw [verbatimOffset]
  split_ifs with first second third next
  · exact Or.inr ⟨_, _, p, rfl, sound, Nat.le_refl _⟩
  · exact Or.inr ⟨_, _, p, rfl, sound, Nat.le_refl _⟩
  · exact Or.inr ⟨_, _, p, rfl, sound, Nat.le_refl _⟩
  · exact Or.inr ⟨_, _, p, rfl, sound, Nat.le_refl _⟩
  · dsimp only
    rcases read_bits_cases sound (@slot_extra_le slot) with failed |
      ⟨bits, p₁, read, _, sound₁, less⟩
    · rw [failed]
      exact Or.inl rfl
    · rw [read, ok_bind]
      dsimp only
      rw [load_base_ok below]
      exact Or.inr ⟨_, _, p₁, rfl, sound₁, by omega⟩

theorem aligned_offset_result (built : aligned.Built ALIGNED) (sound : p.Sound)
    (below : slot < 290) :
    alignedOffset aligned slot q p = .error (.error MSPACK_ERR_READ) ∨
      ∃ match_offset q' p', alignedOffset aligned slot q p = .ok (match_offset, q', p') ∧ p'.Sound ∧
        p'.available ≤ p.available := by
  rw [alignedOffset]
  split_ifs with first second third
  · exact Or.inr ⟨_, _, p, rfl, sound, Nat.le_refl _⟩
  · exact Or.inr ⟨_, _, p, rfl, sound, Nat.le_refl _⟩
  · exact Or.inr ⟨_, _, p, rfl, sound, Nat.le_refl _⟩
  · dsimp only
    rw [load_base_ok below, ok_bind]
    have extra := @slot_extra_le slot
    split_ifs with both low high
    · rcases @read_bits_cases p (slotExtra slot - 3) sound (by omega) with failed |
        ⟨bits, p₁, read, _, sound₁, less⟩
      · rw [failed]
        exact Or.inl rfl
      · rw [read, ok_bind]
        dsimp only
        rcases read_huffsym_cases built sound₁ with failed | ⟨symbol, p₂, coded, _, sound₂, less₂⟩
        · rw [failed]
          exact Or.inl rfl
        · rw [coded]
          exact Or.inr ⟨_, _, p₂, rfl, sound₂, by omega⟩
    · rcases read_huffsym_cases built sound with failed | ⟨symbol, p₁, coded, _, sound₁, less₁⟩
      · rw [failed]
        exact Or.inl rfl
      · rw [coded]
        exact Or.inr ⟨_, _, p₁, rfl, sound₁, by omega⟩
    · rcases read_bits_cases sound extra with failed | ⟨bits, p₁, read, _, sound₁, less⟩
      · rw [failed]
        exact Or.inl rfl
      · rw [read]
        exact Or.inr ⟨_, _, p₁, rfl, sound₁, by omega⟩
    · exact Or.inr ⟨_, _, p, rfl, sound, Nat.le_refl _⟩

end Read

/-! ## Offsets that are written -/

/-- Where a match copies from: one of the last three offsets, or an offset of its own. -/
inductive MatchSource
  | newest
  | second
  | third
  | offset (match_offset : Nat)
  deriving DecidableEq

def MatchSource.slot : MatchSource → Nat
  | .newest => 0
  | .second => 1
  | .third => 2
  | .offset match_offset => numberSlot (match_offset + 2)

def offsetFooter (match_offset : Nat) : Nat :=
  match_offset + 2 - slotBase (numberSlot (match_offset + 2))

def MatchSource.resolve (q : OffsetQueue) : MatchSource → Nat × OffsetQueue
  | .newest => (q.R0, q)
  | .second => (q.R1, ⟨q.R1, q.R0, q.R2⟩)
  | .third => (q.R2, ⟨q.R2, q.R1, q.R0⟩)
  | .offset match_offset => (match_offset, q.push match_offset)

def MatchSource.Valid : MatchSource → Prop
  | .offset match_offset => 0 < match_offset ∧ match_offset + 2 < numbersEnd
  | _ => True

def MatchSource.verbatimBits : MatchSource → List Bool
  | .offset match_offset =>
      toBits (slotExtra (numberSlot (match_offset + 2))) (offsetFooter match_offset)
  | _ => []

def MatchSource.alignedBits (aligned : List Nat) : MatchSource → Option (List Bool)
  | .offset match_offset =>
      let extra := slotExtra (numberSlot (match_offset + 2))
      let footer := offsetFooter match_offset
      if 3 ≤ extra then
        (symbolCode ALIGNED aligned (footer % 8)).map (toBits (extra - 3) (footer / 8) ++ ·)
      else some (toBits extra footer)
  | _ => some []

section Written

variable {aligned : TreeMemory} {q : OffsetQueue} {p : BitReader} {text : Text}
  {source : MatchSource} {bits : List Bool} {match_offset : Nat}

theorem offset_slot (positive : 0 < match_offset) : 3 ≤ numberSlot (match_offset + 2) := by
  apply Nat.le_findGreatest (by decide)
  show 3 ≤ match_offset + 2
  omega

theorem offset_footer_add :
    slotBase (numberSlot (match_offset + 2)) + offsetFooter match_offset = match_offset + 2 :=
  Nat.add_sub_cancel' number_slot_base

theorem offset_footer_lt (small : match_offset + 2 < numbersEnd) :
    offsetFooter match_offset < 2 ^ slotExtra (numberSlot (match_offset + 2)) :=
  number_slot_footer small

theorem offset_of_slot_three (small : match_offset + 2 < numbersEnd)
    (slot : numberSlot (match_offset + 2) = 3) : match_offset = 1 := by
  have footer := offset_footer_lt small
  have parts := @offset_footer_add match_offset
  rw [slot] at footer parts
  have base : slotBase 3 = 3 := by decide
  have extra : slotExtra 3 = 0 := by decide
  rw [extra] at footer
  omega

theorem offset_base (slot : 4 ≤ numberSlot (match_offset + 2)) :
    slotBase (numberSlot (match_offset + 2)) - 2 + offsetFooter match_offset = match_offset := by
  have parts := @offset_footer_add match_offset
  have base : 4 ≤ slotBase (numberSlot (match_offset + 2)) := by
    rcases Nat.lt_or_eq_of_le slot with after | same
    · exact Nat.le_trans (Nat.le_add_right _ _) (slot_base_le after number_slot_le)
    · rw [← same]
      decide
  omega

theorem verbatim_offset_before (valid : source.Valid) (sound : p.Sound)
    (before : p.Before (text.prepend source.verbatimBits)) :
    ∃ p', verbatimOffset source.slot q p = .ok ((source.resolve q).1, (source.resolve q).2, p') ∧
      p'.Sound ∧ p'.Before text := by
  cases source with
  | newest => exact ⟨p, rfl, sound, before⟩
  | second => exact ⟨p, rfl, sound, before⟩
  | third => exact ⟨p, rfl, sound, before⟩
  | offset match_offset =>
      have least := offset_slot valid.1
      rw [verbatimOffset, MatchSource.slot, if_neg (by omega), if_neg (by omega),
        if_neg (by omega)]
      rw [MatchSource.verbatimBits] at before
      by_cases next : numberSlot (match_offset + 2) = 3
      · have one := offset_of_slot_three valid.2 next
        rw [if_pos next, one]
        rw [next] at before
        exact ⟨p, rfl, sound, before⟩
      · rw [if_neg next]
        rcases read_field_before sound slot_extra_le (offset_footer_lt valid.2) before with
          ⟨p', read, sound', before', _⟩
        refine ⟨p', ?_, sound', before'⟩
        dsimp only
        rw [read, ok_bind]
        dsimp only
        rw [load_base_ok (Nat.lt_succ_of_le number_slot_le), ok_bind, offset_base (by omega)]
        rfl

/-! ### The footer in an aligned block -/

def alignedFooter (aligned : TreeMemory) (extra base : Nat) (p : BitReader) :
    Except Stop (Nat × BitReader) :=
  if extra > 3 then do
    let (verbatim_bits, p) ← readBits (extra - 3) p
    let (aligned_bits, p) ← readHuffsym ALIGNED aligned p
    pure (base - 2 + (verbatim_bits <<< 3) + aligned_bits, p)
  else if extra = 3 then do
    let (aligned_bits, p) ← readHuffsym ALIGNED aligned p
    pure (base - 2 + aligned_bits, p)
  else if extra > 0 then do
    let (verbatim_bits, p) ← readBits extra p
    pure (base - 2 + verbatim_bits, p)
  else pure (1, p)

theorem aligned_offset_footer {slot : Nat} (plain : 3 ≤ slot) (last : slot ≤ 289) :
    alignedOffset aligned slot q p = (alignedFooter aligned (slotExtra slot) (slotBase slot) p >>=
      fun read => .ok (read.1, q.push read.1, read.2)) := by
  rw [alignedOffset, if_neg (by omega), if_neg (by omega), if_neg (by omega)]
  dsimp only
  rw [load_base_ok (Nat.lt_succ_of_le last), ok_bind, alignedFooter]
  split_ifs
  · simp only [bind_assoc, pure_bind]
    rfl
  · simp only [bind_assoc, pure_bind]
    rfl
  · simp only [bind_assoc, pure_bind]
    rfl
  · rfl

theorem later_of_extra (least : 3 ≤ numberSlot (match_offset + 2))
    (some_ : 0 < slotExtra (numberSlot (match_offset + 2))) :
    4 ≤ numberSlot (match_offset + 2) := by
  by_contra small
  have three : numberSlot (match_offset + 2) = 3 := by omega
  rw [three] at some_
  exact absurd some_ (by decide)

section Footer

variable {len : List Nat} {extra base footer : Nat}

theorem footer_both_before {coded : List Bool} (codes : aligned.Codes ALIGNED len)
    (deep : 3 < extra) (most : extra ≤ 17) (small : footer < 2 ^ extra)
    (code : symbolCode ALIGNED len (footer % 8) = some coded) (sound : p.Sound)
    (before : p.Before (text.prepend (toBits (extra - 3) (footer / 8) ++ coded)))
    (roomy : 16 ≤ text.bits.length) :
    ∃ p', alignedFooter aligned extra base p = .ok (base - 2 + footer, p') ∧ p'.Sound ∧
      p'.Before text := by
  rw [prepend_append] at before
  have size : extra = extra - 3 + 3 := by omega
  have high : footer / 8 < 2 ^ (extra - 3) := by
    rw [size, Nat.pow_add] at small
    omega
  rcases read_field_before sound (by omega) high before with ⟨p₁, read, sound₁, before₁, _⟩
  rcases read_huffsym_codes codes code sound₁ before₁ roomy with ⟨p', symbol, sound', before'⟩
  have sum : base - 2 + (footer / 8) <<< 3 + footer % 8 = base - 2 + footer := by
    rw [Nat.shiftLeft_eq]
    omega
  refine ⟨p', ?_, sound', before'⟩
  rw [alignedFooter, if_pos deep, read, ok_bind]
  dsimp only
  rw [symbol, ok_bind]
  dsimp only
  rw [sum]
  rfl

theorem footer_low_before {coded : List Bool} (codes : aligned.Codes ALIGNED len)
    (code : symbolCode ALIGNED len footer = some coded) (sound : p.Sound)
    (before : p.Before (text.prepend coded)) (roomy : 16 ≤ text.bits.length) :
    ∃ p', alignedFooter aligned 3 base p = .ok (base - 2 + footer, p') ∧ p'.Sound ∧
      p'.Before text := by
  rcases read_huffsym_codes codes code sound before roomy with ⟨p', symbol, sound', before'⟩
  refine ⟨p', ?_, sound', before'⟩
  rw [alignedFooter, if_neg (by decide), if_pos rfl, symbol]
  rfl

theorem footer_plain_before (some_ : 0 < extra) (low : extra < 3) (small : footer < 2 ^ extra)
    (sound : p.Sound) (before : p.Before (text.prepend (toBits extra footer))) :
    ∃ p', alignedFooter aligned extra base p = .ok (base - 2 + footer, p') ∧ p'.Sound ∧
      p'.Before text := by
  rcases read_field_before sound (by omega) small before with ⟨p', read, sound', before', _⟩
  refine ⟨p', ?_, sound', before'⟩
  rw [alignedFooter, if_neg (by omega), if_neg (by omega), if_pos some_, read]
  rfl

end Footer

theorem aligned_footer_before {len : List Nat} (codes : aligned.Codes ALIGNED len)
    (valid : (MatchSource.offset match_offset).Valid)
    (given : (MatchSource.offset match_offset).alignedBits len = some bits) (sound : p.Sound)
    (before : p.Before (text.prepend bits)) (roomy : 16 ≤ text.bits.length) :
    ∃ p', alignedFooter aligned (slotExtra (numberSlot (match_offset + 2)))
        (slotBase (numberSlot (match_offset + 2))) p = .ok (match_offset, p') ∧ p'.Sound ∧
      p'.Before text := by
  have least := offset_slot valid.1
  have footer := offset_footer_lt valid.2
  rw [MatchSource.alignedBits] at given
  by_cases none : slotExtra (numberSlot (match_offset + 2)) = 0
  · have three : numberSlot (match_offset + 2) = 3 := by
      by_contra other
      have positive := @slot_extra_positive (numberSlot (match_offset + 2)) (by omega)
      omega
    rw [none, if_neg (by decide)] at given
    cases given
    have one := offset_of_slot_three valid.2 three
    rw [none, one]
    exact ⟨p, rfl, sound, before⟩
  · have whole := offset_base (later_of_extra least (Nat.pos_of_ne_zero none))
    split_ifs at given with low
    · rcases Option.map_eq_some_iff.mp given with ⟨coded, code, rfl⟩
      rcases Nat.lt_or_eq_of_le low with deep | three
      · have read := @footer_both_before _ _ _ _ _ (slotBase (numberSlot (match_offset + 2)))
          _ _ codes deep slot_extra_le footer code sound before roomy
        rwa [whole] at read
      · rw [← three] at footer before ⊢
        have below : offsetFooter match_offset < 8 := footer
        rw [Nat.mod_eq_of_lt below] at code
        have read := @footer_low_before _ _ _ _ (slotBase (numberSlot (match_offset + 2)))
          _ _ codes code sound before roomy
        rwa [whole] at read
    · cases given
      have read := @footer_plain_before aligned _ _ _ (slotBase (numberSlot (match_offset + 2)))
        _ (Nat.pos_of_ne_zero none) (Nat.lt_of_not_le low) footer sound before
      rwa [whole] at read

theorem aligned_offset_before {len : List Nat} (codes : aligned.Codes ALIGNED len)
    (valid : source.Valid) (given : source.alignedBits len = some bits) (sound : p.Sound)
    (before : p.Before (text.prepend bits)) (roomy : 16 ≤ text.bits.length) :
    ∃ p', alignedOffset aligned source.slot q p =
        .ok ((source.resolve q).1, (source.resolve q).2, p') ∧ p'.Sound ∧ p'.Before text := by
  cases source with
  | newest => cases given; exact ⟨p, rfl, sound, before⟩
  | second => cases given; exact ⟨p, rfl, sound, before⟩
  | third => cases given; exact ⟨p, rfl, sound, before⟩
  | offset match_offset =>
      rcases aligned_footer_before codes valid given sound before roomy with
        ⟨p', read, sound', before'⟩
      refine ⟨p', ?_, sound', before'⟩
      rw [MatchSource.slot, aligned_offset_footer (offset_slot valid.1) number_slot_le, read]
      rfl

end Written

end XeBuild.Mspack
