import XeBuild.Lib.Numerals
import XeBuild.OptIdx.AddonIndex

/-!
# Big-endian accessors

The 32-bit and 64-bit getters and setters of `util.c` in `iso2svod` and
`su_check` and of `util.cpp` in `opt_idx`. A pointer is the memory from there on,
and a setter gives that memory back with the value stored.
-/

namespace XeBuild.WordAccessors

open ListRange Numerals

set_option autoImplicit false

/-! ## The text of `iso2svod` and `su_check` -/

def byteOf (data : Bytes) (index : Nat) : UInt32 := (data.getD index 0).toUInt32 &&& 0xFF

def getBe32 (data : Bytes) : UInt32 :=
  let ret := byteOf data 0 <<< 24
  let ret := ret ||| byteOf data 1 <<< 16
  let ret := ret ||| byteOf data 2 <<< 8
  ret ||| byteOf data 3

def getBe64 (data : Bytes) : UInt64 :=
  let res := (getBe32 data).toUInt64
  let res := res <<< 32
  res ||| (getBe32 (data.drop 4) &&& 0xFFFFFFFF).toUInt64

def setBe32 (data : Bytes) (val : UInt32) : Bytes :=
  let data := data.set 0 ((val >>> 24) &&& 0xFF).toUInt8
  let data := data.set 1 ((val >>> 16) &&& 0xFF).toUInt8
  let data := data.set 2 ((val >>> 8) &&& 0xFF).toUInt8
  data.set 3 (val &&& 0xFF).toUInt8

/-- A store at `data+4`. -/
def behindWord (store : Bytes → Bytes) (data : Bytes) : Bytes := data.take 4 ++ store (data.drop 4)

def setBe64 (data : Bytes) (val : UInt64) : Bytes :=
  let data := setBe32 data ((val >>> 32) &&& 0xFFFFFFFF).toUInt32
  behindWord (fun data => setBe32 data (val &&& 0xFFFFFFFF).toUInt32) data

/-! ## The text of `opt_idx` -/

namespace OptIdx

/-- The same stores. -/
def setBeU32 (val : UInt32) (ptr : Bytes) : Bytes := setBe32 ptr val

/-- The bytes are taken from the last to the first, and joined with `&`. -/
def getBeU64 (ptr : Bytes) : UInt64 :=
  (List.range 8).foldl
    (fun num i => (num <<< 8) &&& ((ptr.getD (7 - i) 0).toUInt64 &&& 0xFF)) 0

/-- One round of the loop: what is left of the number, and the memory. -/
def storeRound (s : UInt64 × Bytes) (i : Nat) : UInt64 × Bytes :=
  (s.1 >>> 8, s.2.set (7 - i) (s.1 &&& 0xFF).toUInt8)

def setBeU64 (num : UInt64) (ptr : Bytes) : Bytes :=
  ((List.range 8).foldl storeRound (num, ptr)).2

end OptIdx

/-! ## Words -/

section Words

variable {data : Bytes}

theorem or_eq_add {high low places : Nat} (small : low < 2 ^ places) :
    high * 2 ^ places ||| low = high * 2 ^ places + low := by
  rw [Nat.mul_comm, Nat.two_pow_add_eq_or_of_lt small]

theorem masked_byte (value : Nat) : value &&& 0xFF = value % 0x100 :=
  Nat.and_two_pow_sub_one_eq_mod value 8

theorem masked_word (value : Nat) : value &&& 0xFFFFFFFF = value % 0x100000000 :=
  Nat.and_two_pow_sub_one_eq_mod value 32

theorem byte_of_to_nat (index : Nat) : (byteOf data index).toNat = (data.getD index 0).toNat := by
  have byte := (data.getD index 0).toNat_lt
  rw [byteOf, UInt32.toNat_and, UInt8.toNat_toUInt32]
  change _ &&& 0xFF = _
  rw [masked_byte]
  omega

theorem get_be32_to_nat : (getBe32 data).toNat = XeBuild.getBe32 data := by
  have first := (data.getD 0 0).toNat_lt
  have second := (data.getD 1 0).toNat_lt
  have third := (data.getD 2 0).toNat_lt
  have fourth := (data.getD 3 0).toNat_lt
  simp only [getBe32, XeBuild.getBe32, UInt32.toNat_or, UInt32.toNat_shiftLeft, byte_of_to_nat,
    UInt32.reduceToNat, Nat.reduceMod, Nat.shiftLeft_eq]
  generalize (data.getD 0 0).toNat = a at first
  generalize (data.getD 1 0).toNat = b at second
  generalize (data.getD 2 0).toNat = c at third
  generalize (data.getD 3 0).toNat = d at fourth
  have two : a * 2 ^ 24 ||| b * 2 ^ 16 = (a * 0x100 + b) * 2 ^ 16 := by
    rw [or_eq_add (by omega)]
    omega
  have three : (a * 0x100 + b) * 2 ^ 16 ||| c * 2 ^ 8 = ((a * 0x100 + b) * 0x100 + c) * 2 ^ 8 := by
    rw [or_eq_add (by omega)]
    omega
  rw [Nat.mod_eq_of_lt (by omega), Nat.mod_eq_of_lt (by omega), Nat.mod_eq_of_lt (by omega),
    two, three, or_eq_add (by omega)]
  omega

theorem get_be64_to_nat : (getBe64 data).toNat = XeBuild.getBe64 data := by
  have high := (getBe32 data).toNat_lt
  have low := (getBe32 (data.drop 4)).toNat_lt
  rw [XeBuild.getBe64, ← get_be32_to_nat, ← get_be32_to_nat]
  simp only [getBe64, UInt64.toNat_or, UInt64.toNat_shiftLeft, UInt32.toNat_toUInt64,
    UInt32.toNat_and, UInt64.reduceToNat, UInt32.reduceToNat, Nat.reduceMod, Nat.shiftLeft_eq,
    masked_word]
  rw [Nat.mod_eq_of_lt (by omega), Nat.mod_eq_of_lt (by omega), or_eq_add (by omega)]
  rfl

theorem be32_value {first second third fourth : Byte} {rest : Bytes} :
    XeBuild.getBe32 (first :: second :: third :: fourth :: rest) =
      bytesValue [first, second, third, fourth] := by
  simp only [XeBuild.getBe32, List.getD_cons_zero, List.getD_cons_succ, bytes_value_cons,
    bytes_value_nil, List.length_cons, List.length_nil, Nat.reduceAdd, Nat.reducePow]
  omega

theorem four_bytes (room : 4 ≤ data.length) :
    ∃ a b c d rest, data = a :: b :: c :: d :: rest := by
  match data, room with
  | a :: b :: c :: d :: rest, _ => exact ⟨a, b, c, d, rest, rfl⟩

theorem get_be32_value (room : 4 ≤ data.length) :
    (getBe32 data).toNat = bytesValue (data.take 4) := by
  rcases four_bytes room with ⟨a, b, c, d, rest, rfl⟩
  rw [get_be32_to_nat, be32_value]
  rfl

theorem get_be64_value (room : 8 ≤ data.length) :
    (getBe64 data).toNat = bytesValue (data.take 8) := by
  have split : data.take 8 = data.take 4 ++ (data.drop 4).take 4 := by
    rw [← List.take_add]
  have size : ((data.drop 4).take 4).length = 4 := by
    rw [List.length_take, List.length_drop]
    omega
  rw [get_be64_to_nat, XeBuild.getBe64, ← get_be32_to_nat, ← get_be32_to_nat,
    get_be32_value (by omega), get_be32_value (by rw [List.length_drop]; omega), split,
    bytes_value_append, size]
  rfl

end Words

/-! ## Stores -/

/-- The bytes of a value: as many as the field has, in big-endian order. -/
structure FieldOf (size value : Nat) (field : Bytes) : Prop where
  size : field.length = size
  value : bytesValue field = value

theorem field_unique {size value : Nat} {left right : Bytes} (first : FieldOf size value left)
    (second : FieldOf size value right) : left = right :=
  bytes_value_injective (first.size.trans second.size.symm) (first.value.trans second.value.symm)

theorem field_append {high low highSize lowSize : Nat} {left right : Bytes}
    (first : FieldOf highSize high left) (second : FieldOf lowSize low right) :
    FieldOf (highSize + lowSize) (high * 0x100 ^ lowSize + low) (left ++ right) := by
  constructor
  · rw [List.length_append, first.size, second.size]
  · rw [bytes_value_append, first.value, second.value, second.size]

section Stores

variable {data : Bytes}

theorem set_be32_stores (room : 4 ≤ data.length) (val : UInt32) :
    ∃ field, FieldOf 4 val.toNat field ∧ setBe32 data val = field ++ data.drop 4 := by
  rcases four_bytes room with ⟨a, b, c, d, rest, rfl⟩
  refine ⟨[((val >>> 24) &&& 0xFF).toUInt8, ((val >>> 16) &&& 0xFF).toUInt8,
    ((val >>> 8) &&& 0xFF).toUInt8, (val &&& 0xFF).toUInt8], ⟨rfl, ?_⟩, rfl⟩
  have bound := val.toNat_lt
  simp only [bytes_value_cons, bytes_value_nil, List.length_cons, List.length_nil,
    UInt32.toNat_toUInt8, UInt32.toNat_and, UInt32.toNat_shiftRight, UInt32.reduceToNat,
    masked_byte, Nat.shiftRight_eq_div_pow, Nat.reduceMod, Nat.reducePow, Nat.reduceAdd]
  omega

theorem set_be_u32_stores (room : 4 ≤ data.length) (val : UInt32) :
    OptIdx.setBeU32 val data = XeBuild.OptIdx.setBeU32 val.toNat ++ data.drop 4 := by
  rcases set_be32_stores room val with ⟨field, isField, stored⟩
  have bound := val.toNat_lt
  have word : FieldOf 4 val.toNat (XeBuild.OptIdx.setBeU32 val.toNat) := by
    refine ⟨rfl, ?_⟩
    simp only [XeBuild.OptIdx.setBeU32, bytes_value_cons, bytes_value_nil, List.length_cons,
      List.length_nil, UInt8.toNat_ofNat', Nat.reducePow, Nat.reduceAdd]
    omega
  rw [OptIdx.setBeU32, stored, field_unique isField word]

theorem high_word (val : UInt64) :
    ((val >>> 32) &&& 0xFFFFFFFF).toUInt32.toNat = val.toNat / 0x100000000 := by
  have bound := val.toNat_lt
  simp only [UInt64.toNat_toUInt32, UInt64.toNat_and, UInt64.toNat_shiftRight,
    UInt64.reduceToNat, masked_word, Nat.shiftRight_eq_div_pow, Nat.reduceMod, Nat.reducePow]
  omega

theorem low_word (val : UInt64) :
    (val &&& 0xFFFFFFFF).toUInt32.toNat = val.toNat % 0x100000000 := by
  simp only [UInt64.toNat_toUInt32, UInt64.toNat_and, UInt64.reduceToNat, masked_word,
    Nat.reducePow]
  omega

theorem halves_field {val : UInt64} {high low : Bytes}
    (first : FieldOf 4 ((val >>> 32) &&& 0xFFFFFFFF).toUInt32.toNat high)
    (second : FieldOf 4 (val &&& 0xFFFFFFFF).toUInt32.toNat low) :
    FieldOf 8 val.toNat (high ++ low) := by
  have both := field_append first second
  have joined : val.toNat / 0x100000000 * 0x100 ^ 4 + val.toNat % 0x100000000 = val.toNat := by
    omega
  rw [high_word, low_word, joined] at both
  exact both

theorem set_halves_stores (room : 8 ≤ data.length) (val : UInt64) :
    ∃ field, FieldOf 8 val.toNat field ∧
      behindWord (fun data => setBe32 data (val &&& 0xFFFFFFFF).toUInt32)
        (setBe32 data ((val >>> 32) &&& 0xFFFFFFFF).toUInt32) = field ++ data.drop 8 := by
  rcases set_be32_stores (by omega : 4 ≤ data.length) ((val >>> 32) &&& 0xFFFFFFFF).toUInt32 with
    ⟨high, highField, highStored⟩
  rcases set_be32_stores (by rw [List.length_drop]; omega : 4 ≤ (data.drop 4).length)
    (val &&& 0xFFFFFFFF).toUInt32 with ⟨low, lowField, lowStored⟩
  refine ⟨high ++ low, halves_field highField lowField, ?_⟩
  rw [behindWord, highStored, List.take_left' highField.size, List.drop_left' highField.size,
    lowStored, List.drop_drop, List.append_assoc]

theorem set_be64_stores (room : 8 ≤ data.length) (val : UInt64) :
    ∃ field, FieldOf 8 val.toNat field ∧ setBe64 data val = field ++ data.drop 8 :=
  set_halves_stores room val

theorem set_behind {front rest : Bytes} {old new : Byte} {index : Nat}
    (size : front.length = index) :
    (front ++ old :: rest).set index new = front ++ new :: rest := by
  rw [← size, List.set_append_right _ _ (Nat.le_refl _), Nat.sub_self]
  rfl

/-- After some rounds the low bytes lie behind what was there, and the number is
shifted down by them. -/
theorem store_rounds (room : 8 ≤ data.length) (num : UInt64) {count : Nat} (bound : count ≤ 8) :
    ∃ rest low, rest.toNat = num.toNat / 0x100 ^ count ∧
      FieldOf count (num.toNat % 0x100 ^ count) low ∧
      (List.range count).foldl OptIdx.storeRound (num, data) =
        (rest, data.take (8 - count) ++ (low ++ data.drop 8)) := by
  induction count with
  | zero =>
      refine ⟨num, [], ?_, ⟨rfl, ?_⟩, ?_⟩
      · rw [Nat.pow_zero, Nat.div_one]
      · rw [Nat.pow_zero, Nat.mod_one, bytes_value_nil]
      · rw [List.range_zero, List.foldl_nil, List.nil_append, Nat.sub_zero, List.take_append_drop]
  | succ count ih =>
      rcases ih (by omega) with ⟨rest, low, shifted, field, stored⟩
      have last : 7 - count < data.length := by omega
      have front : data.take (8 - count) = data.take (7 - count) ++ [data[7 - count]] := by
        have next : 8 - count = 7 - count + 1 := by omega
        rw [next, List.take_succ_eq_append_getElem last]
      have size : (data.take (7 - count)).length = 7 - count := by
        rw [List.length_take]
        omega
      have byte : ((rest &&& 0xFF).toUInt8).toNat = num.toNat / 0x100 ^ count % 0x100 := by
        simp only [UInt64.toNat_toUInt8, UInt64.toNat_and, UInt64.reduceToNat, masked_byte,
          Nat.reducePow]
        rw [shifted]
        omega
      refine ⟨rest >>> 8, (rest &&& 0xFF).toUInt8 :: low, ?_, ⟨?_, ?_⟩, ?_⟩
      · rw [UInt64.toNat_shiftRight, shifted, Nat.pow_succ, ← Nat.div_div_eq_div_mul,
          Nat.shiftRight_eq_div_pow]
        rfl
      · rw [List.length_cons, field.size]
      · rw [bytes_value_cons, byte, field.value, field.size, Nat.mod_pow_succ, Nat.add_comm,
          Nat.mul_comm]
      · have next : 8 - (count + 1) = 7 - count := by omega
        rw [List.range_succ, List.foldl_append, stored, List.foldl_cons, List.foldl_nil,
          OptIdx.storeRound, front, next]
        dsimp only
        rw [List.append_assoc, List.singleton_append, set_behind size]
        rfl

theorem set_be_u64_stores (room : 8 ≤ data.length) (num : UInt64) :
    ∃ field, FieldOf 8 num.toNat field ∧ OptIdx.setBeU64 num data = field ++ data.drop 8 := by
  rcases store_rounds room num (Nat.le_refl 8) with ⟨rest, field, _, low, stored⟩
  have whole : num.toNat % 0x100 ^ 8 = num.toNat := Nat.mod_eq_of_lt num.toNat_lt
  rw [whole] at low
  refine ⟨field, low, ?_⟩
  rw [OptIdx.setBeU64, stored]
  rfl

theorem get_be_u64_zero (ptr : Bytes) : OptIdx.getBeU64 ptr = 0 := by
  rw [OptIdx.getBeU64]
  induction List.range 8 with
  | nil => rfl
  | cons i rest ih =>
      rw [List.foldl_cons, UInt64.zero_shiftLeft, UInt64.zero_and]
      exact ih

end Stores

/-! ## The tools -/

inductive Tool
  | iso2svod
  | optIdx
  | suCheck
  deriving DecidableEq, Repr

structure Accessors where
  get64 : Bytes → UInt64
  set32 : Bytes → UInt32 → Bytes
  set64 : Bytes → UInt64 → Bytes

def Tool.accessors : Tool → Accessors
  | .iso2svod => ⟨getBe64, setBe32, setBe64⟩
  | .optIdx => ⟨OptIdx.getBeU64, fun ptr val => OptIdx.setBeU32 val ptr,
      fun ptr num => OptIdx.setBeU64 num ptr⟩
  | .suCheck => ⟨getBe64, setBe32, setBe64⟩

structure Field64 where
  memory : Bytes
  room : 8 ≤ memory.length

def Field64.bytes (field : Field64) : Bytes := field.memory.take 8

def Accessors.setHalves (tool : Accessors) (memory : Bytes) (val : UInt64) : Bytes :=
  behindWord (fun memory => tool.set32 memory (val &&& 0xFFFFFFFF).toUInt32)
    (tool.set32 memory ((val >>> 32) &&& 0xFFFFFFFF).toUInt32)

section Tools

variable (tool : Tool)

theorem set64_stores (target : Field64) (val : UInt64) :
    ∃ field, FieldOf 8 val.toNat field ∧
      tool.accessors.set64 target.memory val = field ++ target.memory.drop 8 := by
  cases tool with
  | iso2svod => exact set_be64_stores target.room val
  | optIdx => exact set_be_u64_stores target.room val
  | suCheck => exact set_be64_stores target.room val

theorem set_halves_agree (target : Field64) (val : UInt64) :
    tool.accessors.set64 target.memory val = tool.accessors.setHalves target.memory val := by
  rcases set64_stores tool target val with ⟨field, isField, stored⟩
  rcases set_halves_stores target.room val with ⟨halves, isHalves, halvesStored⟩
  have same : tool.accessors.setHalves target.memory val = halves ++ target.memory.drop 8 := by
    cases tool <;> exact halvesStored
  rw [stored, same, field_unique isField isHalves]

variable {tool}

theorem get64_value (right : tool ≠ .optIdx) {memory : Bytes} (room : 8 ≤ memory.length) :
    (tool.accessors.get64 memory).toNat = bytesValue (memory.take 8) := by
  cases tool with
  | iso2svod => exact get_be64_value room
  | optIdx => exact absurd rfl right
  | suCheck => exact get_be64_value room

theorem get_set_iff (target : Field64) (val : UInt64) :
    tool.accessors.get64 (tool.accessors.set64 target.memory val) = val ↔
      (tool = .optIdx → val = 0) := by
  by_cases opt : tool = .optIdx
  · subst opt
    have zero : Tool.optIdx.accessors.get64 (Tool.optIdx.accessors.set64 target.memory val) = 0 :=
      get_be_u64_zero _
    rw [zero]
    constructor
    · intro same _
      exact same.symm
    · intro same
      exact (same rfl).symm
  · rcases set64_stores tool target val with ⟨field, isField, stored⟩
    have room : 8 ≤ (field ++ target.memory.drop 8).length := by
      rw [List.length_append, isField.size]
      omega
    constructor
    · intro _ same
      exact absurd same opt
    · intro _
      rw [← UInt64.toNat_inj, stored, get64_value opt room, List.take_left' isField.size,
        isField.value]

theorem set_get_iff (source target : Field64) :
    (tool.accessors.set64 target.memory (tool.accessors.get64 source.memory)).take 8 =
        source.bytes ↔ (tool = .optIdx → source.bytes = zeros 8) := by
  rcases set64_stores tool target (tool.accessors.get64 source.memory) with
    ⟨field, isField, stored⟩
  have size : source.bytes.length = 8 := by
    rw [Field64.bytes, List.length_take, Nat.min_eq_left source.room]
  rw [stored, List.take_left' isField.size]
  by_cases opt : tool = .optIdx
  · subst opt
    have zero : Tool.optIdx.accessors.get64 source.memory = 0 := get_be_u64_zero _
    rw [zero] at isField
    have cleared : field = zeros 8 := field_unique isField ⟨rfl, rfl⟩
    rw [cleared]
    constructor
    · intro same _
      exact same.symm
    · intro same
      exact (same rfl).symm
  · constructor
    · intro _ same
      exact absurd same opt
    · intro _
      apply field_unique isField
      exact ⟨size, (get64_value opt source.room).symm⟩

end Tools

/-- In `iso2svod` and `su_check` both ways round, for every value and every eight
bytes. In `opt_idx` for 0 alone, since its getter gives nothing else. -/
theorem accessors_inverse_iff (tool : Tool) :
    (∀ target val, tool.accessors.get64 (tool.accessors.set64 (Field64.memory target) val) = val ↔
      (tool = .optIdx → val = 0)) ∧
    (∀ source target, (tool.accessors.set64 (Field64.memory target)
        (tool.accessors.get64 (Field64.memory source))).take 8 = source.bytes ↔
      (tool = .optIdx → source.bytes = zeros 8)) ∧
    ∀ target val, tool.accessors.set64 (Field64.memory target) val =
      tool.accessors.setHalves target.memory val :=
  ⟨get_set_iff, set_get_iff, set_halves_agree tool⟩

/-- The number 1, stored and read. -/
theorem opt_idx_reads_zero :
    OptIdx.getBeU64 (OptIdx.setBeU64 1 (zeros 8)) ≠ 1 ∧
      (OptIdx.setBeU64 (OptIdx.getBeU64 [0, 0, 0, 0, 0, 0, 0, 1]) (zeros 8)).take 8 ≠
        [0, 0, 0, 0, 0, 0, 0, 1] := by
  decide

end XeBuild.WordAccessors
