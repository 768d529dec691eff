import Mathlib.Data.List.GetD
import XeBuild.CStrings
import XeBuild.Lib.Numerals

/-!
# Hexadecimal text

`myatox`, `myatox32` and `validateString` of the four tools. `ini_creator`,
`iso2svod` and `su_check` have one text; the text of `opt_idx` has its own
ranges of characters. A string is the memory at a pointer, up to a zero; the end
of the list stands for one, too. Masks that keep a byte as it is are left out.
-/

namespace XeBuild.HexText

open Numerals

set_option autoImplicit false

/-- The bounds of a range of characters are compared with a signed `char`. -/
def charValue (c : Byte) : Int := c.toInt8.toInt

/-- An `int` that takes the value of a `size_t`. -/
def intOf (size : Nat) : Int :=
  if size % 0x100000000 < 0x80000000 then (size % 0x100000000 : Nat)
  else (size % 0x100000000 : Nat) - 0x100000000

def strlenInt (s : Bytes) : Int := intOf (cString s).length

/-! ## The texts -/

/-- The ranges of `ini_creator`, `iso2svod` and `su_check`. -/
def myatox (c : Byte) : Byte :=
  if 0x60 < charValue c ∧ charValue c < 0x67 then UInt8.ofInt (charValue c - 0x57)
  else if 0x29 < charValue c ∧ charValue c < 0x40 then UInt8.ofInt (charValue c - 0x30)
  else if 0x40 < charValue c ∧ charValue c < 0x47 then UInt8.ofInt (charValue c - 0x37)
  else 0xFF

/-- The loop of `myatox32` from its head on. A zero and a bad character set `i`
to its end, which the loop then leaves by one more step. -/
def readDigits (myatox : Byte → Byte) (dat : Bytes) (defValue : UInt32) (i : Nat)
    (retval : UInt32) : UInt32 :=
  if i < 16 then
    if dat.getD i 0 = 0x0 then readDigits myatox dat defValue (16 + 1) retval
    else
      let res := myatox (dat.getD i 0)
      if res = 0xFF then readDigits myatox dat defValue (16 + 1) defValue
      else readDigits myatox dat defValue (i + 1) ((retval <<< 4) + (res &&& 0xF).toUInt32)
  else retval
termination_by 17 - i

def readHex (myatox : Byte → Byte) (dat : Bytes) (defValue : UInt32) : UInt32 :=
  readDigits myatox dat defValue 0 0

/-- What the check of a string prints ahead of `FALSE`. -/
inductive CheckMessage
  | pointerInvalid
  | firstCharacterNull
  | lengthZero
  | char (i : Nat) (c : Byte)
  deriving DecidableEq, Repr

/-- `validateString` of the three tools; `none` is `NULL`. -/
def checkString (nString : Option Bytes) : Except CheckMessage Unit :=
  match nString with
  | none => .error .pointerInvalid
  | some nString =>
      let len := strlenInt nString
      if nString.getD 0 0 = 0x0 then .error .firstCharacterNull
      else if len = 0 then .error .lengthZero
      else
        match (List.range len.toNat).find? fun i => myatox (nString.getD i 0) == 0xFF with
        | some i => .error (.char i (nString.getD i 0))
        | none => .ok ()

def validateString (nString : Option Bytes) : Bool := (checkString nString).isOk

def myatox32 : Bytes → UInt32 → UInt32 := readHex myatox

namespace OptIdx

def myatox (c : Byte) : Byte :=
  if 0x61 ≤ charValue c ∧ charValue c ≤ 0x66 then UInt8.ofInt (charValue c - 0x57)
  else if 0x30 ≤ charValue c ∧ charValue c ≤ 0x39 then UInt8.ofInt (charValue c - 0x30)
  else if 0x41 ≤ charValue c ∧ charValue c ≤ 0x46 then UInt8.ofInt (charValue c - 0x37)
  else 0xFF

def myatox32 : Bytes → UInt32 → UInt32 := readHex myatox

/-- The messages are commented out here. -/
def validateString (nString : Option Bytes) : Bool :=
  match nString with
  | none => false
  | some nString =>
      let len := strlenInt nString
      if nString.getD 0 0 ≠ 0x0 ∧ len ≠ 0 then
        (List.range len.toNat).all fun i => myatox (nString.getD i 0) != 0xFF
      else false

end OptIdx

/-! ## The tools -/

inductive Tool
  | iniCreator
  | iso2svod
  | optIdx
  | suCheck
  deriving DecidableEq, Repr

structure HexReader where
  validateString : Option Bytes → Bool
  myatox32 : Bytes → UInt32 → UInt32

def Tool.reader : Tool → HexReader
  | .iniCreator => ⟨validateString, myatox32⟩
  | .iso2svod => ⟨validateString, myatox32⟩
  | .optIdx => ⟨OptIdx.validateString, OptIdx.myatox32⟩
  | .suCheck => ⟨validateString, myatox32⟩

def Tool.myatox : Tool → Byte → Byte
  | .optIdx => OptIdx.myatox
  | _ => HexText.myatox

/-! ## Characters -/

def IsHexDigit (c : Byte) : Prop :=
  (0x30 ≤ c ∧ c ≤ 0x39) ∨ (0x61 ≤ c ∧ c ≤ 0x66) ∨ (0x41 ≤ c ∧ c ≤ 0x46)

instance : DecidablePred IsHexDigit := fun c =>
  inferInstanceAs (Decidable ((0x30 ≤ c ∧ c ≤ 0x39) ∨ (0x61 ≤ c ∧ c ≤ 0x66) ∨
    (0x41 ≤ c ∧ c ≤ 0x46)))

/-- The place among `0` to `9` and `a` to `f`, for both cases. -/
def digitValue (c : Byte) : Nat := ((List.range 16).map hexDigit).idxOf (toLower c)

/-- `*` to `.` and `:` to `?`, which the wide range lets through. -/
def IsStray (c : Byte) : Prop := (0x2A ≤ c ∧ c ≤ 0x2E) ∨ (0x3A ≤ c ∧ c ≤ 0x3F)

instance : DecidablePred IsStray := fun c =>
  inferInstanceAs (Decidable ((0x2A ≤ c ∧ c ≤ 0x2E) ∨ (0x3A ≤ c ∧ c ≤ 0x3F)))

/-- Neither a digit nor, outside of `opt_idx`, a stray character. -/
def Rejected (tool : Tool) (c : Byte) : Prop :=
  ¬ IsHexDigit c ∧ (tool = .optIdx ∨ ¬ IsStray c)

theorem of_all_bytes {P : Byte → Prop} (all : ∀ value < 256, P (UInt8.ofNat value)) :
    ∀ c, P c := by
  intro c
  have holds := all c.toNat c.toNat_lt
  rwa [UInt8.ofNat_toNat] at holds

theorem myatox_bad_iff : ∀ c, myatox c = 0xFF ↔ ¬ IsHexDigit c ∧ ¬ IsStray c :=
  of_all_bytes (by decide +kernel)

theorem opt_idx_myatox_bad_iff : ∀ c, OptIdx.myatox c = 0xFF ↔ ¬ IsHexDigit c :=
  of_all_bytes (by decide +kernel)

theorem myatox_digit : ∀ c, IsHexDigit c →
    (myatox c &&& 0xF).toUInt32.toNat = digitValue c ∧ digitValue c < 16 :=
  of_all_bytes (by decide +kernel)

theorem opt_idx_myatox_digit : ∀ c, IsHexDigit c → OptIdx.myatox c = myatox c :=
  of_all_bytes (by decide +kernel)

theorem myatox_rejects_iff (tool : Tool) (c : Byte) :
    tool.myatox c = 0xFF ↔ Rejected tool c := by
  cases tool with
  | optIdx =>
      change OptIdx.myatox c = 0xFF ↔ _
      rw [opt_idx_myatox_bad_iff, Rejected, and_iff_left (Or.inl rfl)]
  | iniCreator | iso2svod | suCheck =>
      change HexText.myatox c = 0xFF ↔ _
      rw [myatox_bad_iff, Rejected, or_iff_right (by decide)]

theorem tool_myatox_digit (tool : Tool) {c : Byte} (digit : IsHexDigit c) :
    (tool.myatox c &&& 0xF).toUInt32.toNat = digitValue c ∧ digitValue c < 16 := by
  cases tool with
  | optIdx =>
      change (OptIdx.myatox c &&& 0xF).toUInt32.toNat = _ ∧ _
      rw [opt_idx_myatox_digit c digit]
      exact myatox_digit c digit
  | iniCreator | iso2svod | suCheck => exact myatox_digit c digit

/-! ## Strings -/

section Strings

variable {s : Bytes} {i count : Nat}

theorem char_at (bound : i ≤ (cString s).length) : s.getD i 0 = (cString s).getD i 0 := by
  induction s generalizing i with
  | nil => rfl
  | cons c rest ih =>
      by_cases zero : c = 0
      · have empty : cString (c :: rest) = [] := by
          rw [cString, List.takeWhile_cons, zero]
          rfl
        rw [empty, List.length_nil] at bound
        rw [empty, Nat.le_zero.mp bound, zero]
        rfl
      · have more : cString (c :: rest) = c :: cString rest := by
          rw [cString, List.takeWhile_cons, if_pos (bne_iff_ne.mpr zero)]
          rfl
        rw [more] at bound ⊢
        cases i with
        | zero => rfl
        | succ i => exact ih (Nat.le_of_succ_le_succ bound)

theorem char_zero_iff (bound : i ≤ (cString s).length) :
    s.getD i 0 = 0 ↔ i = (cString s).length := by
  rw [char_at bound]
  constructor
  · intro zero
    by_contra other
    have inside : i < (cString s).length := by omega
    rw [List.getD_eq_getElem _ _ inside] at zero
    apply c_string_no_zero s
    rw [← zero]
    exact List.getElem_mem inside
  · rintro rfl
    rw [List.getD_eq_default _ _ (Nat.le_refl _)]

theorem first_characters (bound : count ≤ (cString s).length) :
    (List.range count).map (fun i => s.getD i 0) = (cString s).take count := by
  apply List.ext_getElem
  · rw [List.length_map, List.length_range, List.length_take, Nat.min_eq_left bound]
  · intro i left right
    rw [List.length_map, List.length_range] at left
    rw [List.getElem_map, List.getElem_range, List.getElem_take, char_at (by omega),
      List.getD_eq_getElem _ _ (by omega)]

theorem all_first_iff (bound : count ≤ (cString s).length) {P : Byte → Prop} :
    (∀ i < count, P (s.getD i 0)) ↔ ∀ c ∈ (cString s).take count, P c := by
  rw [← first_characters bound]
  simp only [List.mem_map, List.mem_range, forall_exists_index, and_imp,
    forall_apply_eq_imp_iff₂]

theorem strlen_int_le : (strlenInt s).toNat ≤ (cString s).length := by
  rw [strlenInt, intOf]
  split_ifs <;> omega

theorem strlen_int_short (short : (cString s).length < 0x80000000) :
    strlenInt s = (cString s).length := by
  rw [strlenInt, intOf]
  split_ifs <;> omega

end Strings

/-! ## The number -/

def digitsFrom (myatox : Byte → Byte) (defValue : UInt32) : Bytes → UInt32 → UInt32
  | [], retval => retval
  | c :: rest, retval =>
      if myatox c = 0xFF then defValue
      else digitsFrom myatox defValue rest ((retval <<< 4) + (myatox c &&& 0xF).toUInt32)

section Number

variable {myatox : Byte → Byte} {s : Bytes} {defValue : UInt32}

theorem read_digits_ended {i : Nat} (ended : 16 ≤ i) (retval : UInt32) :
    readDigits myatox s defValue i retval = retval := by
  rw [readDigits, if_neg (by omega)]

/-- The counter never comes to a character behind the zero or behind the 16th. -/
theorem read_digits_eq {i left : Nat} (count : i + left = 16) (bound : i ≤ (cString s).length)
    (retval : UInt32) :
    readDigits myatox s defValue i retval =
      digitsFrom myatox defValue (((cString s).take 16).drop i) retval := by
  induction left generalizing i retval with
  | zero =>
      have none : ((cString s).take 16).drop i = [] := by
        rw [List.drop_eq_nil_iff, List.length_take]
        omega
      rw [read_digits_ended (by omega), none, digitsFrom]
  | succ left ih =>
      rw [readDigits, if_pos (by omega)]
      by_cases zero : s.getD i 0 = 0
      · have last := (char_zero_iff bound).mp zero
        have none : ((cString s).take 16).drop i = [] := by
          rw [List.drop_eq_nil_iff, List.length_take]
          omega
        rw [if_pos zero, read_digits_ended (by decide), none, digitsFrom]
      · have inside : i < (cString s).length := by
          apply Nat.lt_of_le_of_ne bound
          intro last
          exact zero ((char_zero_iff bound).mpr last)
        have taken : i < ((cString s).take 16).length := by
          rw [List.length_take]
          omega
        have char : s.getD i 0 = ((cString s).take 16)[i] := by
          rw [char_at bound, List.getD_eq_getElem _ _ inside, List.getElem_take]
        rw [if_neg zero, List.drop_eq_getElem_cons taken, digitsFrom, ← char]
        by_cases bad : myatox (s.getD i 0) = 0xFF
        · rw [if_pos bad, if_pos bad, read_digits_ended (by decide)]
        · rw [if_neg bad, if_neg bad]
          exact ih (by omega) inside _

theorem read_hex_eq :
    readHex myatox s defValue = digitsFrom myatox defValue ((cString s).take 16) 0 :=
  read_digits_eq (Nat.zero_add 16) (Nat.zero_le _) 0

theorem digits_bad {digits : Bytes} (bad : ∃ c ∈ digits, myatox c = 0xFF) (retval : UInt32) :
    digitsFrom myatox defValue digits retval = defValue := by
  induction digits generalizing retval with
  | nil =>
      rcases bad with ⟨c, member, _⟩
      cases member
  | cons first rest ih =>
      rw [digitsFrom]
      by_cases here : myatox first = 0xFF
      · rw [if_pos here]
      · rw [if_neg here]
        apply ih
        rcases bad with ⟨c, member, isBad⟩
        rcases List.mem_cons.mp member with rfl | later
        · exact absurd isBad here
        · exact ⟨c, later, isBad⟩

theorem digits_good {digits : Bytes} (good : ¬ ∃ c ∈ digits, myatox c = 0xFF)
    (other retval : UInt32) :
    digitsFrom myatox defValue digits retval = digitsFrom myatox other digits retval := by
  induction digits generalizing retval with
  | nil => rfl
  | cons first rest ih =>
      have here : myatox first ≠ 0xFF := fun bad => good ⟨first, List.mem_cons_self, bad⟩
      rw [digitsFrom, digitsFrom, if_neg here, if_neg here]
      apply ih
      rintro ⟨c, member, bad⟩
      exact good ⟨c, List.mem_cons_of_mem _ member, bad⟩

theorem read_hex_default_iff :
    (∀ defValue, readHex myatox s defValue = defValue) ↔
      ∃ c ∈ (cString s).take 16, myatox c = 0xFF := by
  constructor
  · intro returned
    by_contra good
    have zero := returned 0
    have one := returned 1
    rw [read_hex_eq] at zero one
    rw [digits_good good 0, zero] at one
    exact absurd one (by decide)
  · intro bad defValue
    rw [read_hex_eq]
    exact digits_bad bad 0

end Number

theorem digit_shifted {retval digit : UInt32} (small : digit.toNat < 16)
    (fits : retval.toNat * 16 + digit.toNat < 0x100000000) :
    ((retval <<< 4) + digit).toNat = retval.toNat * 16 + digit.toNat := by
  rw [UInt32.toNat_add, UInt32.toNat_shiftLeft]
  simp only [UInt32.reduceToNat, Nat.reduceMod, Nat.shiftLeft_eq, Nat.reducePow]
  omega

/-- The digits behind what is read so far; the value stays a 32-bit word. -/
theorem digits_value (tool : Tool) (defValue : UInt32) {digits : Bytes}
    (hex : ∀ c ∈ digits, IsHexDigit c) (retval : UInt32)
    (fits : (retval.toNat + 1) * 16 ^ digits.length ≤ 0x100000000) :
    (digitsFrom tool.myatox defValue digits retval).toNat =
      retval.toNat * 16 ^ digits.length + numeral 16 (digits.map digitValue) := by
  induction digits generalizing retval with
  | nil =>
      rw [digitsFrom, List.length_nil, Nat.pow_zero, Nat.mul_one, List.map_nil, numeral_nil,
        Nat.add_zero]
  | cons c rest ih =>
      have digit := hex c List.mem_cons_self
      have good : tool.myatox c ≠ 0xFF := by
        intro bad
        exact ((myatox_rejects_iff tool c).mp bad).1 digit
      rcases tool_myatox_digit tool digit with ⟨value, small⟩
      have scale : (retval.toNat * 16 + digitValue c + 1) * 16 ^ rest.length ≤ 0x100000000 := by
        calc (retval.toNat * 16 + digitValue c + 1) * 16 ^ rest.length
            ≤ ((retval.toNat + 1) * 16) * 16 ^ rest.length :=
              Nat.mul_le_mul_right _ (by omega)
          _ = (retval.toNat + 1) * 16 ^ (c :: rest).length := by
              rw [List.length_cons, Nat.pow_succ', Nat.mul_assoc]
          _ ≤ 0x100000000 := fits
      have word : retval.toNat * 16 + digitValue c < 0x100000000 := by
        apply Nat.lt_of_lt_of_le (Nat.lt_succ_self _)
        exact Nat.le_trans (Nat.le_mul_of_pos_right _ (Nat.pow_pos (by decide))) scale
      have next : ((retval <<< 4) + (tool.myatox c &&& 0xF).toUInt32).toNat =
          retval.toNat * 16 + digitValue c := by
        rw [digit_shifted (by omega) (by omega), value]
      rw [digitsFrom, if_neg good, ih (fun other member => hex other (List.mem_cons_of_mem _ member))
        _ (by rw [next]; exact scale), next, List.map_cons, numeral_cons, List.length_map,
        List.length_cons, Nat.pow_succ', Nat.add_mul, Nat.mul_assoc, Nat.add_assoc]

theorem myatox32_eq (tool : Tool) : tool.reader.myatox32 = readHex tool.myatox := by
  cases tool <;> rfl

theorem read_hex_value (tool : Tool) {s : Bytes} (hex : ∀ c ∈ cString s, IsHexDigit c)
    (short : (cString s).length ≤ 8) (defValue : UInt32) :
    (tool.reader.myatox32 s defValue).toNat = numeral 16 ((cString s).map digitValue) := by
  have whole : (cString s).take 16 = cString s := List.take_of_length_le (by omega)
  have fits : 16 ^ (cString s).length ≤ 16 ^ 8 := Nat.pow_le_pow_right (by decide) short
  rw [myatox32_eq, read_hex_eq, whole, digits_value tool defValue hex 0]
  · rw [UInt32.toNat_zero, Nat.zero_mul, Nat.zero_add]
  · rw [UInt32.toNat_zero, Nat.zero_add, Nat.one_mul]
    exact fits

/-! ## The check -/

section Check

variable {s : Bytes}

theorem first_char_zero_iff : s.getD 0 0 = 0 ↔ cString s = [] := by
  rw [char_zero_iff (Nat.zero_le _), eq_comm, List.length_eq_zero_iff]

theorem no_bad_char_iff (tool : Tool) :
    (∀ i < (strlenInt s).toNat, tool.myatox (s.getD i 0) ≠ 0xFF) ↔
      ∀ c ∈ (cString s).take (strlenInt s).toNat, ¬ Rejected tool c := by
  rw [@all_first_iff s (strlenInt s).toNat strlen_int_le (fun c => tool.myatox c ≠ 0xFF)]
  simp only [ne_eq, myatox_rejects_iff]

theorem check_string_iff :
    validateString (some s) = true ↔ cString s ≠ [] ∧ strlenInt s ≠ 0 ∧
      ∀ i < (strlenInt s).toNat, myatox (s.getD i 0) ≠ 0xFF := by
  rw [validateString, checkString]
  by_cases empty : s.getD 0 0 = 0
  · rw [if_pos empty]
    constructor
    · intro accepted
      cases accepted
    · intro accepted
      exact absurd (first_char_zero_iff.mp empty) accepted.1
  · rw [if_neg empty]
    by_cases none : strlenInt s = 0
    · rw [if_pos none]
      constructor
      · intro accepted
        cases accepted
      · intro accepted
        exact absurd none accepted.2.1
    · rw [if_neg none]
      have present : cString s ≠ [] := fun nil => empty (first_char_zero_iff.mpr nil)
      cases found : (List.range (strlenInt s).toNat).find?
          fun i => myatox (s.getD i 0) == 0xFF with
      | some i =>
          constructor
          · intro accepted
            cases accepted
          · intro accepted
            have inside := List.mem_range.mp (List.mem_of_find?_eq_some found)
            have bad := List.find?_some found
            exact absurd (beq_iff_eq.mp bad) (accepted.2.2 i inside)
      | none =>
          constructor
          · intro _
            refine ⟨present, none, ?_⟩
            intro i inside bad
            exact List.find?_eq_none.mp found i (List.mem_range.mpr inside) (beq_iff_eq.mpr bad)
          · intro _
            rfl

theorem opt_idx_check_iff :
    OptIdx.validateString (some s) = true ↔ cString s ≠ [] ∧ strlenInt s ≠ 0 ∧
      ∀ i < (strlenInt s).toNat, OptIdx.myatox (s.getD i 0) ≠ 0xFF := by
  rw [OptIdx.validateString]
  have chars : ((List.range (strlenInt s).toNat).all
      fun i => OptIdx.myatox (s.getD i 0) != 0xFF) = true ↔
        ∀ i < (strlenInt s).toNat, OptIdx.myatox (s.getD i 0) ≠ 0xFF := by
    simp only [List.all_eq_true, List.mem_range, bne_iff_ne]
  by_cases present : s.getD 0 0 ≠ 0 ∧ strlenInt s ≠ 0
  · have text : cString s ≠ [] := fun nil => present.1 (first_char_zero_iff.mpr nil)
    rw [if_pos present, chars, and_iff_right text, and_iff_right present.2]
  · rw [if_neg present]
    constructor
    · intro accepted
      cases accepted
    · intro accepted
      have text : s.getD 0 0 ≠ 0 := fun zero => accepted.1 (first_char_zero_iff.mp zero)
      exact absurd ⟨text, accepted.2.1⟩ present

theorem validate_string_iff (tool : Tool) :
    tool.reader.validateString (some s) = true ↔ cString s ≠ [] ∧ strlenInt s ≠ 0 ∧
      ∀ c ∈ (cString s).take (strlenInt s).toNat, ¬ Rejected tool c := by
  rw [← no_bad_char_iff]
  cases tool with
  | optIdx => exact opt_idx_check_iff
  | iniCreator | iso2svod | suCheck => exact check_string_iff

end Check

/-! ## The laws -/

structure HexLaws (reader : HexReader) (s : Bytes) : Prop where
  accepted : reader.validateString (some s) = true ↔
    cString s ≠ [] ∧ ∀ c ∈ cString s, IsHexDigit c
  value : cString s ≠ [] → (∀ c ∈ cString s, IsHexDigit c) → (cString s).length ≤ 8 →
    ∀ defValue, (reader.myatox32 s defValue).toNat = numeral 16 ((cString s).map digitValue)
  rejected : (∃ c ∈ (cString s).take 16, ¬ IsHexDigit c) →
    ∀ defValue, reader.myatox32 s defValue = defValue

/-- A string that is not all digits has a character that is rejected, too, among
those that are looked at; and its length is counted as it is. -/
structure ToldApart (tool : Tool) (s : Bytes) : Prop where
  counted : cString s ≠ [] → (∀ c ∈ cString s, IsHexDigit c) → strlenInt s ≠ 0
  anywhere : (∃ c ∈ cString s, ¬ IsHexDigit c) →
    strlenInt s = 0 ∨ ∃ c ∈ (cString s).take (strlenInt s).toNat, Rejected tool c
  early : (∃ c ∈ (cString s).take 16, ¬ IsHexDigit c) →
    ∃ c ∈ (cString s).take 16, Rejected tool c

section Laws

variable {tool : Tool} {s : Bytes}

theorem default_law_iff :
    ((∃ c ∈ (cString s).take 16, ¬ IsHexDigit c) →
        ∀ defValue, tool.reader.myatox32 s defValue = defValue) ↔
      ((∃ c ∈ (cString s).take 16, ¬ IsHexDigit c) →
        ∃ c ∈ (cString s).take 16, Rejected tool c) := by
  rw [myatox32_eq, read_hex_default_iff]
  simp only [myatox_rejects_iff]

theorem accepted_law_iff :
    (tool.reader.validateString (some s) = true ↔
        cString s ≠ [] ∧ ∀ c ∈ cString s, IsHexDigit c) ↔
      (cString s ≠ [] → (∀ c ∈ cString s, IsHexDigit c) → strlenInt s ≠ 0) ∧
        ((∃ c ∈ cString s, ¬ IsHexDigit c) →
          strlenInt s = 0 ∨ ∃ c ∈ (cString s).take (strlenInt s).toNat, Rejected tool c) := by
  rw [validate_string_iff]
  constructor
  · intro law
    constructor
    · intro present hex
      exact (law.mpr ⟨present, hex⟩).2.1
    · intro other
      rcases other with ⟨c, member, notHex⟩
      by_contra passed
      push Not at passed
      exact notHex ((law.mp ⟨List.ne_nil_of_mem member, passed.1, passed.2⟩).2 c member)
  · intro condition
    rcases condition with ⟨counted, anywhere⟩
    constructor
    · intro passed
      rcases passed with ⟨present, length, kept⟩
      refine ⟨present, ?_⟩
      intro c member
      by_contra notHex
      rcases anywhere ⟨c, member, notHex⟩ with zero | found
      · exact length zero
      · rcases found with ⟨other, taken, isRejected⟩
        exact kept other taken isRejected
    · intro all
      refine ⟨all.1, counted all.1 all.2, ?_⟩
      intro c taken isRejected
      exact isRejected.1 (all.2 c (List.mem_of_mem_take taken))

/-- Strings of a length that an `int` holds, with the ranges of `opt_idx`. -/
theorem opt_idx_told_apart (short : (cString s).length < 0x80000000) : ToldApart .optIdx s := by
  have length := strlen_int_short short
  have whole : (cString s).take (strlenInt s).toNat = cString s := by
    rw [length, Int.toNat_natCast, List.take_length]
  constructor
  · intro present _ zero
    have positive := List.length_pos_of_ne_nil present
    omega
  · intro other
    rcases other with ⟨c, member, notHex⟩
    rw [whole]
    exact Or.inr ⟨c, member, notHex, Or.inl rfl⟩
  · intro other
    rcases other with ⟨c, member, notHex⟩
    exact ⟨c, member, notHex, Or.inl rfl⟩

/-- The laws of each tool, string by string. -/
theorem hex_laws_iff (tool : Tool) (s : Bytes) : HexLaws tool.reader s ↔ ToldApart tool s := by
  constructor
  · intro laws
    rcases accepted_law_iff.mp laws.accepted with ⟨counted, anywhere⟩
    exact ⟨counted, anywhere, default_law_iff.mp laws.rejected⟩
  · intro condition
    constructor
    · exact accepted_law_iff.mpr ⟨condition.counted, condition.anywhere⟩
    · intro _ hex short
      exact read_hex_value tool hex short
    · exact default_law_iff.mpr condition.early

/-- A star is a digit for three of the tools. -/
theorem star_accepted :
    ¬ HexLaws Tool.iniCreator.reader [0x2A] ∧ ¬ HexLaws Tool.iso2svod.reader [0x2A] ∧
      ¬ HexLaws Tool.suCheck.reader [0x2A] := by
  have star : validateString (some [0x2A]) = true := by decide
  have notHex : ¬ ∀ c ∈ cString [0x2A], IsHexDigit c := by decide
  refine ⟨?_, ?_, ?_⟩
  · intro laws
    exact notHex (laws.accepted.mp star).2
  · intro laws
    exact notHex (laws.accepted.mp star).2
  · intro laws
    exact notHex (laws.accepted.mp star).2

end Laws

end XeBuild.HexText
