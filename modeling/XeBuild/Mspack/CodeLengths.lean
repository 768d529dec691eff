import Mathlib.Data.List.GetD
import XeBuild.Mspack.HuffmanSymbols

/-!
# Code lengths of a block

`lzxd_read_lens`: the lengths of a tree, as differences from the lengths of the
block before. A pretree codes the differences, runs of zeros and runs of one
difference. A run may pass the last length, into the room behind the array's end.
-/

namespace XeBuild.Mspack

open BitText ListRange PrefixCodes Runs WordBits

set_option autoImplicit false

def loadLen (lens : List Nat) (x : Nat) : Except Stop Nat :=
  if x < lens.length then .ok (lens.getD x 0) else .error (.outside .lens x)

def storeLen (lens : List Nat) (x value : Nat) : Except Stop (List Nat) :=
  if x < lens.length then .ok (lens.set x value) else .error (.outside .lens x)

/-- `while (y--) lens[x++] = z;` -/
def storeRun : Nat → Nat → Nat → List Nat → Except Stop (List Nat)
  | 0, _, _, lens => .ok lens
  | y + 1, x, value, lens => do
      let lens ← storeLen lens x value
      storeRun y (x + 1) value lens

/-- The length of an `unsigned char` behind a difference. -/
def deltaLen (len z : Nat) : Nat :=
  let z : Int := (len : Int) - z
  let z := if z < 0 then z + 17 else z
  (z % 256).toNat

def readPlainLens (width : Nat) : Nat → Nat → List Nat → BitReader →
    Except Stop (List Nat × BitReader)
  | 0, _, len, p => .ok (len, p)
  | count + 1, x, len, p => do
      let (y, p) ← readBits width p
      let len ← storeLen len x y
      readPlainLens width count (x + 1) len p

def readLensLoop (pretree : TreeMemory) (last : Nat) : Nat → Nat → List Nat → BitReader →
    Except Stop (List Nat × BitReader)
  | 0, x, lens, p => if x < last then .error .roundsSpent else .ok (lens, p)
  | rounds + 1, x, lens, p =>
      if x < last then do
        let (z, p) ← readHuffsym PRETREE pretree p
        if z = 17 then
          let (y, p) ← readBits 4 p
          let lens ← storeRun (y + 4) x 0 lens
          readLensLoop pretree last rounds (x + (y + 4)) lens p
        else if z = 18 then
          let (y, p) ← readBits 5 p
          let lens ← storeRun (y + 20) x 0 lens
          readLensLoop pretree last rounds (x + (y + 20)) lens p
        else if z = 19 then
          let (y, p) ← readBits 1 p
          let (z, p) ← readHuffsym PRETREE pretree p
          let len ← loadLen lens x
          let lens ← storeRun (y + 4) x (deltaLen len z) lens
          readLensLoop pretree last rounds (x + (y + 4)) lens p
        else
          let len ← loadLen lens x
          let lens ← storeLen lens x (deltaLen len z)
          readLensLoop pretree last rounds (x + 1) lens p
      else .ok (lens, p)

def lzxdReadLens (pretree : TreeMemory) (lens : List Nat) (first last : Nat) (p : BitReader) :
    Except Stop (TreeMemory × List Nat × BitReader) := do
  let (len, p) ← readPlainLens 4 20 0 pretree.len p
  let pretree ← buildTable PRETREE { pretree with len := len }
  let (lens, p) ← readLensLoop pretree last (last - first) first lens p
  return (pretree, lens, p)

/-! ## Instructions -/

inductive LenCode
  | difference (z : Nat)
  | zeros (y : Nat)
  | moreZeros (y : Nat)
  | differences (y z : Nat)
  deriving DecidableEq

def LenCode.count : LenCode → Nat
  | .difference _ => 1
  | .zeros y => y + 4
  | .moreZeros y => y + 20
  | .differences y _ => y + 4

/-- The length that a round sets, where `len` is the one that was there. -/
def LenCode.value (len : Nat) : LenCode → Nat
  | .difference z => deltaLen len z
  | .zeros _ => 0
  | .moreZeros _ => 0
  | .differences _ z => deltaLen len z

def setRun (lens : List Nat) (x count value : Nat) : List Nat :=
  patch lens x (List.replicate count value)

def applyCodes : List LenCode → Nat → List Nat → Nat × List Nat
  | [], x, lens => (x, lens)
  | instr :: rest, x, lens =>
      applyCodes rest (x + instr.count) (setRun lens x instr.count (instr.value (lens.getD x 0)))

def LenCode.Valid : LenCode → Prop
  | .difference z => z ≤ 16
  | .zeros y => y < 16
  | .moreZeros y => y < 32
  | .differences y z => y < 2 ∧ z < 20

/-- The bits of a round under the lengths of the pretree, where its symbols have codes. -/
def LenCode.bits (pretree : List Nat) : LenCode → Option (List Bool)
  | .difference z => symbolCode PRETREE pretree z
  | .zeros y => (symbolCode PRETREE pretree 17).map (· ++ toBits 4 y)
  | .moreZeros y => (symbolCode PRETREE pretree 18).map (· ++ toBits 5 y)
  | .differences y z => do
      let front ← symbolCode PRETREE pretree 19
      let back ← symbolCode PRETREE pretree z
      return front ++ toBits 1 y ++ back

/-- The rounds that the loop makes: it goes on below the last length, and ends behind it. -/
def Covers (last : Nat) : List LenCode → Nat → Prop
  | [], x => last ≤ x
  | instr :: rest, x => x < last ∧ Covers last rest (x + instr.count)

def codesBits (pretree : List Nat) (codes : List LenCode) : Option (List Bool) :=
  codes.foldr (fun instr rest => do
    let front ← instr.bits pretree
    let back ← rest
    return front ++ back) (some [])

section Runs

variable {lens : List Nat} {x count value last : Nat} {codes : List LenCode} {instr : LenCode}

theorem code_count_le (valid : instr.Valid) : 1 ≤ instr.count ∧ instr.count ≤ 51 := by
  cases instr <;> simp only [LenCode.Valid, LenCode.count] at valid ⊢ <;> omega

theorem set_run_length (inside : x + count ≤ lens.length) :
    (setRun lens x count value).length = lens.length :=
  patch_length (by rw [List.length_replicate]; exact inside)

theorem set_run_outside {index : Nat} (start : x ≤ lens.length)
    (outside : index < x ∨ x + count ≤ index) :
    (setRun lens x count value).getD index 0 = lens.getD index 0 := by
  have front : (lens.take x).length = x := by simp [start]
  have both : (lens.take x ++ List.replicate count value).length = x + count := by
    simp [start]
  rw [List.getD_eq_getElem?_getD, List.getD_eq_getElem?_getD, setRun, patch, List.length_replicate]
  rcases outside with before | behind
  · rw [List.getElem?_append_left (by omega), List.getElem?_append_left (by omega),
      List.getElem?_take_of_lt before]
  · rw [List.getElem?_append_right (by omega), both, List.getElem?_drop, Nat.add_sub_cancel' behind]

theorem set_run_inside {index : Nat} (start : x ≤ lens.length) (from_ : x ≤ index)
    (below : index < x + count) : (setRun lens x count value).getD index 0 = value := by
  have front : (lens.take x).length = x := by simp [start]
  have both : (lens.take x ++ List.replicate count value).length = x + count := by
    simp [start]
  rw [List.getD_eq_getElem?_getD, setRun, patch, List.getElem?_append_left (by omega),
    List.getElem?_append_right (by omega), front, List.getElem?_replicate, if_pos (by omega),
    Option.getD_some]

theorem store_run_ok (inside : x + count ≤ lens.length) :
    storeRun count x value lens = .ok (setRun lens x count value) := by
  induction count generalizing x lens with
  | zero => simp [storeRun, setRun, patch]
  | succ count ih =>
      rw [storeRun, storeLen, if_pos (by omega), ok_bind, ih (by rw [List.length_set]; omega),
        setRun, patch_set (by omega), ← List.replicate_succ, setRun]

/-- The rounds set lengths from `x` on, at most 50 of them behind the last. -/
theorem apply_codes_frame (valid : ∀ instr ∈ codes, instr.Valid) (covers : Covers last codes x)
    (room : last + 50 ≤ lens.length) (start : x ≤ last + 50) :
    (applyCodes codes x lens).2.length = lens.length ∧
      ∀ index, index < x ∨ last + 50 ≤ index →
        (applyCodes codes x lens).2.getD index 0 = lens.getD index 0 := by
  induction codes generalizing x lens with
  | nil => exact ⟨rfl, fun _ _ => rfl⟩
  | cons instr codes ih =>
      have count := code_count_le (valid instr List.mem_cons_self)
      have below := covers.1
      have length := @set_run_length lens x instr.count (instr.value (lens.getD x 0)) (by omega)
      have rest := ih (fun other member => valid other (List.mem_cons_of_mem _ member)) covers.2
        (by rw [length]; exact room) (by omega)
      rw [applyCodes]
      refine ⟨rest.1.trans length, ?_⟩
      intro index outside
      rw [rest.2 index (by omega), set_run_outside (by omega) (by omega)]

/-- Only the lengths of the symbols matter for those behind the rounds. -/
theorem apply_codes_same {lens' : List Nat} {nsyms : Nat} (valid : ∀ instr ∈ codes, instr.Valid)
    (covers : Covers last codes x) (room : last + 50 ≤ lens.length)
    (room' : last + 50 ≤ lens'.length) (start : x ≤ last + 50) (inside : last ≤ nsyms)
    (same : ∀ symbol < nsyms, lens.getD symbol 0 = lens'.getD symbol 0) :
    ∀ symbol < nsyms,
      (applyCodes codes x lens).2.getD symbol 0 = (applyCodes codes x lens').2.getD symbol 0 := by
  induction codes generalizing x lens lens' with
  | nil => exact same
  | cons instr codes ih =>
      have count := code_count_le (valid instr List.mem_cons_self)
      have below := covers.1
      rw [applyCodes, applyCodes, same x (by omega)]
      apply ih (fun other member => valid other (List.mem_cons_of_mem _ member)) covers.2
      · rw [set_run_length (by omega)]
        exact room
      · rw [set_run_length (by omega)]
        exact room'
      · omega
      · intro symbol small
        by_cases within : x ≤ symbol ∧ symbol < x + instr.count
        · rw [set_run_inside (by omega) within.1 within.2,
            set_run_inside (by omega) within.1 within.2]
        · rw [set_run_outside (by omega) (by omega), set_run_outside (by omega) (by omega)]
          exact same symbol small

end Runs

/-! ## What the loop reads -/

def readLenCode (pretree : TreeMemory) (p : BitReader) : Except Stop (LenCode × BitReader) := do
  let (z, p) ← readHuffsym PRETREE pretree p
  if z = 17 then
    let (y, p) ← readBits 4 p
    return (.zeros y, p)
  else if z = 18 then
    let (y, p) ← readBits 5 p
    return (.moreZeros y, p)
  else if z = 19 then
    let (y, p) ← readBits 1 p
    let (z, p) ← readHuffsym PRETREE pretree p
    return (.differences y z, p)
  else return (.difference z, p)

section Loop

variable {pretree : TreeMemory} {lens : List Nat} {x last rounds : Nat} {p : BitReader}

theorem read_len_code_cases (built : pretree.Built PRETREE) (sound : p.Sound) :
    readLenCode pretree p = .error (.error MSPACK_ERR_READ) ∨
      ∃ instr p', readLenCode pretree p = .ok (instr, p') ∧ instr.Valid ∧ p'.Sound ∧
        p'.available ≤ p.available := by
  rw [readLenCode]
  rcases read_huffsym_cases built sound with failed | ⟨z, p₁, first, small, sound₁, less₁⟩
  · rw [failed]
    exact Or.inl rfl
  · have symbols : z < 20 := small
    rw [first, ok_bind]
    dsimp only
    split_ifs with run17 run18 run19
    · rcases read_bits_cases sound₁ (by decide : 4 ≤ 17) with failed |
        ⟨y, p₂, second, bound, sound₂, less₂⟩
      · rw [failed]
        exact Or.inl rfl
      · rw [second]
        exact Or.inr ⟨.zeros y, p₂, rfl, bound, sound₂, by omega⟩
    · rcases read_bits_cases sound₁ (by decide : 5 ≤ 17) with failed |
        ⟨y, p₂, second, bound, sound₂, less₂⟩
      · rw [failed]
        exact Or.inl rfl
      · rw [second]
        exact Or.inr ⟨.moreZeros y, p₂, rfl, bound, sound₂, by omega⟩
    · rcases read_bits_cases sound₁ (by decide : 1 ≤ 17) with failed |
        ⟨y, p₂, second, bound, sound₂, less₂⟩
      · rw [failed]
        exact Or.inl rfl
      · rw [second, ok_bind]
        dsimp only
        rcases read_huffsym_cases built sound₂ with failed | ⟨z', p₃, third, small', sound₃, less₃⟩
        · rw [failed]
          exact Or.inl rfl
        · rw [third]
          exact Or.inr ⟨.differences y z', p₃, rfl, ⟨bound, small'⟩, sound₃, by omega⟩
    · exact Or.inr ⟨.difference z, p₁, rfl, by rw [LenCode.Valid]; omega, sound₁, by omega⟩

def applyRound (pretree : TreeMemory) (last rounds x : Nat) (lens : List Nat)
    (read : LenCode × BitReader) : Except Stop (List Nat × BitReader) := do
  let lens' ← storeRun read.1.count x (read.1.value (lens.getD x 0)) lens
  readLensLoop pretree last rounds (x + read.1.count) lens' read.2

theorem read_lens_round (below : x < last) (inside : x < lens.length) :
    readLensLoop pretree last (rounds + 1) x lens p =
      readLenCode pretree p >>= applyRound pretree last rounds x lens := by
  have load : loadLen lens x = .ok (lens.getD x 0) := if_pos inside
  rw [readLensLoop, if_pos below, readLenCode, bind_assoc]
  apply bind_congr
  intro first
  dsimp only
  split_ifs with run17 run18 run19
  · rw [bind_assoc]
    rfl
  · rw [bind_assoc]
    rfl
  · rw [bind_assoc]
    apply bind_congr
    intro second
    rw [bind_assoc]
    apply bind_congr
    intro third
    rw [load, ok_bind]
    rfl
  · rw [load, ok_bind]
    have one (value : Nat) : storeRun 1 x value lens = storeLen lens x value := by
      rw [storeRun]
      exact bind_pure _
    show _ = applyRound pretree last rounds x lens (.difference first.1, first.2)
    rw [applyRound]
    dsimp only [LenCode.count, LenCode.value]
    rw [one]

/-- The loop reads instructions until they cover the lengths, or the input ends. -/
theorem read_lens_loop_result (built : pretree.Built PRETREE) (sound : p.Sound)
    (room : last + 50 ≤ lens.length) (enough : last ≤ x + rounds) :
    readLensLoop pretree last rounds x lens p = .error (.error MSPACK_ERR_READ) ∨
      ∃ codes p', readLensLoop pretree last rounds x lens p =
          .ok ((applyCodes codes x lens).2, p') ∧ p'.Sound ∧ p'.available ≤ p.available ∧
        Covers last codes x ∧ ∀ instr ∈ codes, instr.Valid := by
  induction rounds generalizing x lens p with
  | zero =>
      refine Or.inr ⟨[], p, ?_, sound, Nat.le_refl _, by rw [Covers]; omega, by simp⟩
      rw [readLensLoop, if_neg (by omega)]
      rfl
  | succ rounds ih =>
      by_cases below : x < last
      · rw [read_lens_round below (by omega)]
        rcases read_len_code_cases built sound with failed | ⟨instr, p₁, read, valid, sound₁, less₁⟩
        · rw [failed]
          exact Or.inl rfl
        · have counts := code_count_le valid
          have size := @set_run_length lens x instr.count (instr.value (lens.getD x 0)) (by omega)
          rw [read, ok_bind, applyRound]
          dsimp only
          rw [store_run_ok (by omega), ok_bind]
          rcases @ih (setRun lens x instr.count (instr.value (lens.getD x 0))) (x + instr.count) p₁
            sound₁ (by rw [size]; exact room) (by omega) with failed |
            ⟨codes, p', rest, sound', less', covers, all⟩
          · exact Or.inl failed
          · refine Or.inr ⟨instr :: codes, p', rest, sound', by omega, ⟨below, covers⟩, ?_⟩
            intro other member
            rcases List.mem_cons.mp member with rfl | later
            · exact valid
            · exact all other later
      · refine Or.inr ⟨[], p, ?_, sound, Nat.le_refl _, by rw [Covers]; omega, by simp⟩
        rw [readLensLoop, if_neg below]
        rfl

end Loop

/-! ## The function as a whole -/

section Whole

variable {pretree : TreeMemory} {lens len values : List Nat} {x first last count width : Nat}
  {p : BitReader}

theorem read_plain_lens_result (sound : p.Sound) (word : width ≤ 17)
    (room : x + count ≤ len.length) :
    readPlainLens width count x len p = .error (.error MSPACK_ERR_READ) ∨
      ∃ values p', readPlainLens width count x len p = .ok (patch len x values, p') ∧
        values.length = count ∧ (∀ value ∈ values, value < 2 ^ width) ∧ p'.Sound ∧
        p'.available ≤ p.available := by
  induction count generalizing x len p with
  | zero => exact Or.inr ⟨[], p, by simp [readPlainLens, patch], rfl, by simp, sound, Nat.le_refl _⟩
  | succ count ih =>
      rw [readPlainLens]
      rcases read_bits_cases sound word with failed | ⟨y, p₁, read, small, sound₁, less₁⟩
      · rw [failed]
        exact Or.inl rfl
      · have inside : x < len.length := by omega
        have stored : storeLen len x y = .ok (len.set x y) := if_pos inside
        rw [read, ok_bind]
        dsimp only
        rw [stored, ok_bind]
        rcases @ih (len.set x y) (x + 1) p₁ sound₁ (by rw [List.length_set]; omega) with failed |
          ⟨values, p', rest, size, bounds, sound', less'⟩
        · exact Or.inl failed
        · refine Or.inr ⟨y :: values, p', ?_, by rw [List.length_cons, size], ?_, sound', by omega⟩
          · rw [rest, patch_set inside]
          · intro value member
            rcases List.mem_cons.mp member with rfl | later
            · exact small
            · exact bounds value later

structure LensRead (lens : List Nat) (first last : Nat) (p : BitReader)
    (pretree' : TreeMemory) (lens' : List Nat) (p' : BitReader) : Prop where
  sized : pretree'.Sized PRETREE
  sound : p'.Sound
  available : p'.available ≤ p.available
  codes : ∃ codes, lens' = (applyCodes codes first lens).2 ∧ Covers last codes first ∧
    ∀ instr ∈ codes, instr.Valid

theorem lens_read_length {pretree' : TreeMemory} {lens' : List Nat} {p' : BitReader}
    (read : LensRead lens first last p pretree' lens' p') (room : last + 50 ≤ lens.length)
    (start : first ≤ last) :
    lens'.length = lens.length ∧ ∀ index, index < first ∨ last + 50 ≤ index →
      lens'.getD index 0 = lens.getD index 0 := by
  rcases read.codes with ⟨codes, rfl, covers, valid⟩
  exact apply_codes_frame valid covers room (by omega)

/-- What comes of a call: an error of the library, a pretree that leaves its table, or lengths. -/
theorem lzxd_read_lens_result (sized : pretree.Sized PRETREE) (sound : p.Sound)
    (room : last + 50 ≤ lens.length) :
    (∃ status, status ≠ MSPACK_ERR_OK ∧
        lzxdReadLens pretree lens first last p = .error (.error status)) ∨
      (∃ index, lzxdReadLens pretree lens first last p = .error (.outside .PRETREE_table index)) ∨
      ∃ pretree' lens' p', lzxdReadLens pretree lens first last p = .ok (pretree', lens', p') ∧
        LensRead lens first last p pretree' lens' p' := by
  rw [lzxdReadLens]
  have space : 0 + 20 ≤ pretree.len.length := by
    rw [sized.len]
    exact (by decide : 20 ≤ PRETREE.maxSymbols + LZX_LENTABLE_SAFETY)
  rcases @read_plain_lens_result pretree.len 0 20 4 p sound (by decide) space with failed |
    ⟨values, p₁, read, size, _, sound₁, less₁⟩
  · rw [failed]
    exact Or.inl ⟨_, by decide, rfl⟩
  · rw [read, ok_bind]
    dsimp only
    have sized₁ : (TreeMemory.mk (patch pretree.len 0 values) pretree.table).Sized PRETREE := by
      refine ⟨?_, sized.table⟩
      show (patch pretree.len 0 values).length = _
      rw [patch_length (by rw [size]; exact space), sized.len]
    rcases build_table_result pretree_fits sized₁ with ⟨made, run, _, sized', built⟩ | ⟨run, _⟩ |
      ⟨index, run, _⟩
    · rw [run, ok_bind]
      rcases @read_lens_loop_result made lens first last (last - first) p₁ built sound₁ room
        (by omega) with failed | ⟨codes, p', loop, sound', less', covers, valid⟩
      · rw [failed]
        exact Or.inl ⟨_, by decide, rfl⟩
      · rw [loop]
        exact Or.inr (Or.inr ⟨made, _, p', rfl, sized', sound', by omega, codes, rfl, covers, valid⟩)
    · rw [run]
      exact Or.inl ⟨_, by decide, rfl⟩
    · rw [run]
      exact Or.inr (Or.inl ⟨index, rfl⟩)

end Whole

/-! ## Reading what was written -/

/-- The lengths of a tree as they are written: those of the pretree, and instructions. -/
structure LensText where
  pre : List Nat
  codes : List LenCode

def LensText.bits (written : LensText) : Option (List Bool) :=
  (codesBits written.pre written.codes).map (written.pre.flatMap (toBits 4) ++ ·)

/-- The pretree is a complete code of 4-bit lengths, and the instructions have codes in it. -/
structure LensText.Valid (written : LensText) (first last : Nat) : Prop where
  size : written.pre.length = 20
  small : ∀ value ∈ written.pre, value < 2 ^ 4
  complete : Complete PRETREE written.pre
  codes : ∀ instr ∈ written.codes, instr.Valid
  covers : Covers last written.codes first

def LensText.apply (written : LensText) (first : Nat) (lens : List Nat) : List Nat :=
  (applyCodes written.codes first lens).2

section Written

variable {pretree : TreeMemory} {lens len pre values : List Nat} {x first last rounds width : Nat}
  {p : BitReader} {text : Text} {bits : List Bool} {instr : LenCode}

theorem read_plain_lens_before (sound : p.Sound) (word : width ≤ 17)
    (small : ∀ value ∈ values, value < 2 ^ width) (room : x + values.length ≤ len.length)
    (before : p.Before (text.prepend (values.flatMap (toBits width)))) :
    ∃ p', readPlainLens width values.length x len p = .ok (patch len x values, p') ∧ p'.Sound ∧
      p'.Before text := by
  induction values generalizing x len p with
  | nil => exact ⟨p, by simp [readPlainLens, patch], sound, before⟩
  | cons value values ih =>
      rw [List.length_cons] at room
      rw [List.flatMap_cons, prepend_append] at before
      have size : (toBits width value).length = width := to_bits_length _ _
      rcases read_bits_before sound (by rw [size]; exact word) before with
        ⟨p₁, read, sound₁, before₁, _⟩
      rw [size, bits_value_to_bits_of_lt (small value List.mem_cons_self)] at read
      have inside : x < len.length := by omega
      have stored : storeLen len x value = .ok (len.set x value) := if_pos inside
      rcases @ih (len.set x value) (x + 1) p₁ sound₁
        (fun other member => small other (List.mem_cons_of_mem _ member))
        (by rw [List.length_set]; omega) before₁ with ⟨p', rest, sound', before'⟩
      refine ⟨p', ?_, sound', before'⟩
      rw [List.length_cons, readPlainLens, read, ok_bind]
      dsimp only
      rw [stored, ok_bind, rest, patch_set inside]

theorem read_field_before {value : Nat} (sound : p.Sound) (word : width ≤ 17)
    (small : value < 2 ^ width) (before : p.Before (text.prepend (toBits width value))) :
    ∃ p', readBits width p = .ok (value, p') ∧ p'.Sound ∧ p'.Before text ∧
      (p'.bits_left + width = p.bits_left ∨ p'.bits_left < 16) := by
  have size : (toBits width value).length = width := to_bits_length _ _
  rcases read_bits_before sound (by rw [size]; exact word) before with
    ⟨p', read, sound', before', left⟩
  rw [size, bits_value_to_bits_of_lt small] at read
  rw [size] at left
  exact ⟨p', read, sound', before', left⟩

theorem read_len_code_before (codes : pretree.Codes PRETREE pre) (valid : instr.Valid)
    (given : instr.bits pre = some bits) (sound : p.Sound)
    (before : p.Before (text.prepend bits)) (roomy : 16 ≤ text.bits.length) :
    ∃ p', readLenCode pretree p = .ok (instr, p') ∧ p'.Sound ∧ p'.Before text := by
  have roomier (more : List Bool) : 16 ≤ (text.prepend more).bits.length := by
    rw [prepend_bits, List.length_append]
    omega
  rw [readLenCode]
  cases instr with
  | difference z =>
      have small : z ≤ 16 := valid
      rcases read_huffsym_codes codes given sound before roomy with ⟨p₁, read, sound₁, before₁⟩
      refine ⟨p₁, ?_, sound₁, before₁⟩
      rw [read, ok_bind]
      dsimp only
      rw [if_neg (by omega), if_neg (by omega), if_neg (by omega)]
      rfl
  | zeros y =>
      rcases Option.map_eq_some_iff.mp given with ⟨front, coded, rfl⟩
      rw [prepend_append] at before
      rcases read_huffsym_codes codes coded sound before (roomier _) with
        ⟨p₁, read, sound₁, before₁⟩
      rcases read_field_before sound₁ (by decide) valid before₁ with ⟨p₂, field, sound₂, before₂, _⟩
      refine ⟨p₂, ?_, sound₂, before₂⟩
      rw [read, ok_bind]
      dsimp only
      rw [if_pos rfl, field]
      rfl
  | moreZeros y =>
      rcases Option.map_eq_some_iff.mp given with ⟨front, coded, rfl⟩
      rw [prepend_append] at before
      rcases read_huffsym_codes codes coded sound before (roomier _) with
        ⟨p₁, read, sound₁, before₁⟩
      rcases read_field_before sound₁ (by decide) valid before₁ with ⟨p₂, field, sound₂, before₂, _⟩
      refine ⟨p₂, ?_, sound₂, before₂⟩
      rw [read, ok_bind]
      dsimp only
      rw [if_neg (by decide), if_pos rfl, field]
      rfl
  | differences y z =>
      rcases Option.bind_eq_some_iff.mp given with ⟨front, coded, given⟩
      rcases Option.bind_eq_some_iff.mp given with ⟨back, coded', same⟩
      cases same
      rw [prepend_append, prepend_append] at before
      have more : 16 ≤ ((text.prepend back).prepend (toBits 1 y)).bits.length := by
        have least := roomier back
        rw [prepend_bits, List.length_append]
        omega
      rcases read_huffsym_codes codes coded sound before more with ⟨p₁, read, sound₁, before₁⟩
      rcases read_field_before sound₁ (by decide) valid.1 before₁ with ⟨p₂, field, sound₂, before₂, _⟩
      rcases read_huffsym_codes codes coded' sound₂ before₂ roomy with
        ⟨p₃, read', sound₃, before₃⟩
      refine ⟨p₃, ?_, sound₃, before₃⟩
      rw [read, ok_bind]
      dsimp only
      rw [if_neg (by decide), if_neg (by decide), if_pos rfl, field, ok_bind]
      dsimp only
      rw [read']
      rfl

/-- Instructions that were written are read, and do to the lengths what they say. -/
theorem read_lens_loop_before {instrs : List LenCode} (codes : pretree.Codes PRETREE pre)
    (valid : ∀ instr ∈ instrs, instr.Valid) (covers : Covers last instrs x)
    (given : codesBits pre instrs = some bits) (sound : p.Sound)
    (before : p.Before (text.prepend bits)) (roomy : 16 ≤ text.bits.length)
    (room : last + 50 ≤ lens.length) (enough : last ≤ x + rounds) :
    ∃ p', readLensLoop pretree last rounds x lens p = .ok ((applyCodes instrs x lens).2, p') ∧
      p'.Sound ∧ p'.Before text := by
  induction instrs generalizing x lens p bits rounds with
  | nil =>
      cases given
      refine ⟨p, ?_, sound, before⟩
      have past : last ≤ x := covers
      cases rounds with
      | zero => rw [readLensLoop, if_neg (by omega)]; rfl
      | succ rounds => rw [readLensLoop, if_neg (by omega)]; rfl
  | cons instr instrs ih =>
      have below : x < last := covers.1
      have validHere := valid instr List.mem_cons_self
      have counts := code_count_le validHere
      rcases Option.bind_eq_some_iff.mp given with ⟨front, coded, given⟩
      rcases Option.bind_eq_some_iff.mp given with ⟨back, later, same⟩
      cases same
      rw [prepend_append] at before
      have more : 16 ≤ (text.prepend back).bits.length := by
        rw [prepend_bits, List.length_append]
        omega
      rcases Nat.exists_eq_succ_of_ne_zero (by omega : rounds ≠ 0) with ⟨rounds, rfl⟩
      have size := @set_run_length lens x instr.count (instr.value (lens.getD x 0)) (by omega)
      rcases read_len_code_before codes validHere coded sound before more with
        ⟨p₁, read, sound₁, before₁⟩
      rcases @ih (setRun lens x instr.count (instr.value (lens.getD x 0))) (x + instr.count) rounds
        p₁ back (fun other member => valid other (List.mem_cons_of_mem _ member)) covers.2 later
        sound₁ before₁ (by rw [size]; exact room) (by omega) with ⟨p', rest, sound', before'⟩
      refine ⟨p', ?_, sound', before'⟩
      rw [read_lens_round below (by omega), read, ok_bind, applyRound]
      dsimp only
      rw [store_run_ok (by omega), ok_bind, rest]
      rfl

theorem patch_front_get_d (front len : List Nat) {index : Nat} (inside : index < front.length) :
    (patch len 0 front).getD index 0 = front.getD index 0 := by
  rw [List.getD_eq_getElem?_getD, List.getD_eq_getElem?_getD, patch, List.take_zero, List.nil_append,
    List.getElem?_append_left inside]

theorem lzxd_read_lens_before {written : LensText} (sized : pretree.Sized PRETREE)
    (valid : written.Valid first last) (given : written.bits = some bits) (sound : p.Sound)
    (before : p.Before (text.prepend bits)) (roomy : 16 ≤ text.bits.length)
    (room : last + 50 ≤ lens.length) :
    ∃ pretree' p', lzxdReadLens pretree lens first last p =
        .ok (pretree', written.apply first lens, p') ∧ pretree'.Sized PRETREE ∧ p'.Sound ∧
      p'.Before text := by
  rcases Option.map_eq_some_iff.mp given with ⟨coded, instructions, rfl⟩
  rw [prepend_append] at before
  have space : 0 + written.pre.length ≤ pretree.len.length := by
    rw [sized.len, valid.size]
    exact (by decide : 20 ≤ PRETREE.maxSymbols + LZX_LENTABLE_SAFETY)
  rcases read_plain_lens_before sound (by decide : 4 ≤ 17) valid.small space before with
    ⟨p₁, plain, sound₁, before₁⟩
  have sized₁ : (TreeMemory.mk (patch pretree.len 0 written.pre) pretree.table).Sized PRETREE :=
    ⟨(patch_length space).trans sized.len, sized.table⟩
  have same : ∀ symbol < PRETREE.maxSymbols,
      (patch pretree.len 0 written.pre).getD symbol 0 = written.pre.getD symbol 0 := by
    intro symbol small
    exact patch_front_get_d _ _ (by rw [valid.size]; exact small)
  have complete : Complete PRETREE (patch pretree.len 0 written.pre) := by
    rw [Complete, code_leaves_congr same]
    exact valid.complete
  have few : longCodes PRETREE (patch pretree.len 0 written.pre) ≤ 2 ^ (PRETREE.tableBits - 1) :=
    Nat.le_trans long_leaves_length_le (by decide)
  rcases build_table_complete pretree_fits sized₁ few complete with
    ⟨made, build, len, sized', built⟩
  have codes : made.Codes PRETREE written.pre := by
    refine ⟨?_, built, valid.complete⟩
    rw [len]
    exact same
  rcases @read_lens_loop_before made lens written.pre first last (last - first) p₁ text coded
    written.codes codes valid.codes valid.covers instructions sound₁ before₁ roomy room (by omega)
    with ⟨p', loop, sound', before'⟩
  refine ⟨made, p', ?_, sized', sound', before'⟩
  have plain' : readPlainLens 4 20 0 pretree.len p = .ok (patch pretree.len 0 written.pre, p₁) := by
    rw [← valid.size]
    exact plain
  rw [lzxdReadLens, plain', ok_bind]
  dsimp only
  rw [build, ok_bind, loop]
  rfl

end Written

end XeBuild.Mspack
