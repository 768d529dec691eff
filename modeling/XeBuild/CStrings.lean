import Mathlib.Data.List.TakeWhile
import XeBuild.Bytes

/-!
# C strings

The text that the tools build with `strcpy`, `strcat` and `sprintf`, as the
bytes before the terminating zero, and a byte memory that is read at offsets.
-/

namespace XeBuild

open ListRange

set_option autoImplicit false

def asciiText (chars : List Char) : Bytes := chars.map fun char => UInt8.ofNat char.toNat

def cString (buffer : Bytes) : Bytes := buffer.takeWhile (· != 0)

def toLower (char : Byte) : Byte := if 0x41 ≤ char ∧ char ≤ 0x5A then char + 0x20 else char

/-- `stricmp(left, right) == 0`. -/
def sameIgnoringCase (left right : Bytes) : Bool := left.map toLower == right.map toLower

def hexDigit (digit : Nat) : Byte := UInt8.ofNat (if digit < 10 then 0x30 + digit else 0x57 + digit)

/-- `%08x` of a 32-bit word. -/
def hex8 (value : Nat) : Bytes :=
  [hexDigit (value / 0x10000000 % 0x10), hexDigit (value / 0x1000000 % 0x10),
    hexDigit (value / 0x100000 % 0x10), hexDigit (value / 0x10000 % 0x10),
    hexDigit (value / 0x1000 % 0x10), hexDigit (value / 0x100 % 0x10),
    hexDigit (value / 0x10 % 0x10), hexDigit (value % 0x10)]

@[simp] theorem hex8_length (value : Nat) : (hex8 value).length = 8 := rfl

theorem c_string_no_zero (buffer : Bytes) : (0 : Byte) ∉ cString buffer := by
  intro member
  have nonzero := List.mem_takeWhile_imp member
  simp at nonzero

theorem c_string_append {text : Bytes} (noZero : (0 : Byte) ∉ text) (tail : Bytes) :
    cString (text ++ 0 :: tail) = text := by
  rw [cString, List.takeWhile_append_of_pos]
  · simp
  · intro char member
    simp only [bne_iff_ne, ne_eq]
    intro zero
    exact noZero (zero ▸ member)

/-! ## Memory -/

def bytesAt (mem : Nat → Byte) (offset size : Nat) : Bytes :=
  (List.range size).map fun index => mem (offset + index)

def be16At (mem : Nat → Byte) (offset : Nat) : Nat :=
  (mem offset).toNat * 0x100 + (mem (offset + 1)).toNat

def be32At (mem : Nat → Byte) (offset : Nat) : Nat := getBe32 (bytesAt mem offset 4)

def storeBytes (mem : Nat → Byte) (offset : Nat) (bytes : Bytes) : Nat → Byte := fun address =>
  if offset ≤ address ∧ address < offset + bytes.length then bytes.getD (address - offset) 0
  else mem address

@[simp] theorem bytes_at_length (mem : Nat → Byte) (offset size : Nat) :
    (bytesAt mem offset size).length = size := by
  simp [bytesAt]

theorem bytes_at_congr {left right : Nat → Byte} {offset size : Nat}
    (same : ∀ index < size, left (offset + index) = right (offset + index)) :
    bytesAt left offset size = bytesAt right offset size := by
  apply List.map_congr_left
  intro index member
  exact same index (List.mem_range.mp member)

theorem bytes_at_store (mem : Nat → Byte) (offset : Nat) (bytes : Bytes) :
    bytesAt (storeBytes mem offset bytes) offset bytes.length = bytes := by
  apply List.ext_getElem
  · simp
  · intro index _ bound
    simp [bytesAt, storeBytes, bound]

end XeBuild
