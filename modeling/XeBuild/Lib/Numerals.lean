import Mathlib.Data.Nat.Digits.Defs

/-!
# Numerals

Positional numerals with the most significant digit first, as text and
big-endian fields have them, and the value of a string of bytes.
-/

namespace Numerals

set_option autoImplicit false

def numeral (base : Nat) (digits : List Nat) : Nat := Nat.ofDigits base digits.reverse

variable {base digit : Nat} {digits front back : List Nat}

@[simp] theorem numeral_nil : numeral base [] = 0 := rfl

theorem numeral_append :
    numeral base (front ++ back) = numeral base front * base ^ back.length + numeral base back := by
  rw [numeral, List.reverse_append, Nat.ofDigits_append, List.length_reverse, ← numeral,
    ← numeral, Nat.mul_comm, Nat.add_comm]

theorem numeral_cons :
    numeral base (digit :: digits) = digit * base ^ digits.length + numeral base digits := by
  rw [← List.singleton_append, numeral_append, numeral, List.reverse_singleton,
    Nat.ofDigits_singleton]

theorem numeral_injective (large : 1 < base) (same : front.length = back.length)
    (frontSmall : ∀ digit ∈ front, digit < base) (backSmall : ∀ digit ∈ back, digit < base)
    (equal : numeral base front = numeral base back) : front = back := by
  apply List.reverse_inj.mp
  apply Nat.ofDigits_inj_of_len_eq large
  · rw [List.length_reverse, List.length_reverse, same]
  · intro digit member
    exact frontSmall digit (List.mem_reverse.mp member)
  · intro digit member
    exact backSmall digit (List.mem_reverse.mp member)
  · exact equal

/-! ## Bytes -/

def bytesValue (bytes : List UInt8) : Nat := numeral 0x100 (bytes.map UInt8.toNat)

section Bytes

variable {byte : UInt8} {bytes left right : List UInt8}

theorem bytes_small : ∀ digit ∈ bytes.map UInt8.toNat, digit < 0x100 := by
  intro digit member
  rcases List.mem_map.mp member with ⟨byte, _, rfl⟩
  exact byte.toNat_lt

@[simp] theorem bytes_value_nil : bytesValue [] = 0 := rfl

theorem bytes_value_append :
    bytesValue (left ++ right) = bytesValue left * 0x100 ^ right.length + bytesValue right := by
  rw [bytesValue, List.map_append, numeral_append, List.length_map, ← bytesValue, ← bytesValue]

theorem bytes_value_cons :
    bytesValue (byte :: bytes) = byte.toNat * 0x100 ^ bytes.length + bytesValue bytes := by
  rw [bytesValue, List.map_cons, numeral_cons, List.length_map, ← bytesValue]

/-- Fields of one size that have the same value are the same bytes. -/
theorem bytes_value_injective (size : left.length = right.length)
    (same : bytesValue left = bytesValue right) : left = right := by
  have maps : left.map UInt8.toNat = right.map UInt8.toNat := by
    apply numeral_injective (by decide : 1 < 0x100) _ bytes_small bytes_small same
    rw [List.length_map, List.length_map, size]
  exact List.map_inj_right (fun _ _ => UInt8.toNat_inj.mp) |>.mp maps

end Bytes

end Numerals
