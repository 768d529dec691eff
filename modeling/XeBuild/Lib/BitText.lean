import Mathlib.Data.Nat.Basic
import Mathlib.Tactic.Ring

/-!
# Bit strings

Bit strings with the most significant bit first: the value of a string, the
string of so many bits of a value, and how both follow the pieces of a string.
-/

namespace BitText

set_option autoImplicit false

def bitsValue : List Bool → Nat
  | [] => 0
  | bit :: rest => bit.toNat * 2 ^ rest.length + bitsValue rest

def toBits : Nat → Nat → List Bool
  | 0, _ => []
  | width + 1, value => decide (value / 2 ^ width % 2 = 1) :: toBits width value

variable {width front back value other : Nat} {bits left right : List Bool}

@[simp] theorem to_bits_length (width value : Nat) : (toBits width value).length = width := by
  induction width with
  | zero => rfl
  | succ width ih => rw [toBits, List.length_cons, ih]

@[simp] theorem bits_value_nil : bitsValue [] = 0 := rfl

theorem bits_value_append :
    bitsValue (left ++ right) = bitsValue left * 2 ^ right.length + bitsValue right := by
  induction left with
  | nil => simp
  | cons bit left ih =>
      rw [List.cons_append, bitsValue, bitsValue, ih, List.length_append, Nat.pow_add]
      ring

theorem bits_value_lt (bits : List Bool) : bitsValue bits < 2 ^ bits.length := by
  induction bits with
  | nil => exact Nat.one_pos
  | cons bit bits ih =>
      have digit : bit.toNat ≤ 1 := Bool.toNat_le bit
      have scaled : bit.toNat * 2 ^ bits.length ≤ 1 * 2 ^ bits.length :=
        Nat.mul_le_mul_right _ digit
      rw [bitsValue, List.length_cons, Nat.pow_succ]
      omega

theorem bits_value_to_bits (width value : Nat) : bitsValue (toBits width value) = value % 2 ^ width := by
  induction width with
  | zero => rw [Nat.pow_zero, Nat.mod_one, toBits, bits_value_nil]
  | succ width ih =>
      have split : value % 2 ^ (width + 1) =
          value % 2 ^ width + 2 ^ width * (value / 2 ^ width % 2) := by
        rw [Nat.pow_succ, Nat.mod_mul]
      have digit : (decide (value / 2 ^ width % 2 = 1)).toNat = value / 2 ^ width % 2 := by
        rcases Nat.mod_two_eq_zero_or_one (value / 2 ^ width) with even | odd
        · rw [even]
          rfl
        · rw [odd]
          rfl
      rw [toBits, bitsValue, ih, to_bits_length, digit, split]
      ring

theorem bits_value_to_bits_of_lt (small : value < 2 ^ width) :
    bitsValue (toBits width value) = value := by
  rw [bits_value_to_bits, Nat.mod_eq_of_lt small]

theorem bits_value_injective (size : left.length = right.length)
    (same : bitsValue left = bitsValue right) : left = right := by
  induction left generalizing right with
  | nil => exact (List.length_eq_zero_iff.mp size.symm).symm
  | cons bit left ih =>
      cases right with
      | nil => cases size
      | cons bit' right =>
          have tails : left.length = right.length := Nat.succ.inj size
          have leftSmall := bits_value_lt left
          have rightSmall := bits_value_lt right
          rw [bitsValue, bitsValue, tails] at same
          rw [tails] at leftSmall
          have heads : bit = bit' := by
            cases bit <;> cases bit' <;> simp_all
            all_goals omega
          rw [heads] at same ⊢
          rw [ih tails (Nat.add_left_cancel same)]

theorem to_bits_bits_value (bits : List Bool) : toBits bits.length (bitsValue bits) = bits :=
  bits_value_injective (to_bits_length _ _) (bits_value_to_bits_of_lt (bits_value_lt bits))

theorem to_bits_mod (width value : Nat) : toBits width (value % 2 ^ width) = toBits width value := by
  apply bits_value_injective
  · rw [to_bits_length, to_bits_length]
  · rw [bits_value_to_bits, bits_value_to_bits, Nat.mod_mod]

theorem to_bits_add (front back value : Nat) :
    toBits (front + back) value = toBits front (value / 2 ^ back) ++ toBits back value := by
  apply bits_value_injective
  · simp
  · rw [bits_value_append, bits_value_to_bits, bits_value_to_bits, bits_value_to_bits,
      to_bits_length, Nat.add_comm front, Nat.pow_add, Nat.mod_mul]
    ring

/-- A string that starts with other bits has them as its high bits. -/
theorem to_bits_eq_append_iff (small : value < 2 ^ (left.length + back)) :
    (∃ rest, toBits (left.length + back) value = left ++ rest) ↔
      value / 2 ^ back = bitsValue left := by
  have high : value / 2 ^ back < 2 ^ left.length := by
    rw [Nat.div_lt_iff_lt_mul (Nat.two_pow_pos _), ← Nat.pow_add]
    exact small
  rw [to_bits_add]
  constructor
  · intro starts
    rcases starts with ⟨rest, same⟩
    have sizes : (toBits left.length (value / 2 ^ back)).length = left.length :=
      to_bits_length _ _
    have fronts := (List.append_inj same sizes).1
    rw [← fronts, bits_value_to_bits_of_lt high]
  · intro same
    refine ⟨toBits back value, ?_⟩
    rw [same, to_bits_bits_value]

end BitText
