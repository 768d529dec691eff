import Mathlib.Data.List.Basic
import XeBuild.Lib.ListChunks

/-!
# Bytes, digests and 32-bit words

The machine layer the tools share: byte strings, the 20-byte result of
`XeCryptSha`, unsigned 32-bit arithmetic on naturals, and the byte order of the
fields of a header. The tools run on a little-endian host, so storing
`bswap32(v)` in a header field leaves the bytes of `v` in big-endian order.
-/

namespace XeBuild

open ListRange ListChunks

set_option autoImplicit false

abbrev Byte := UInt8
abbrev Bytes := List Byte

def zeros (count : Nat) : Bytes := List.replicate count 0

@[simp] theorem zeros_length (count : Nat) : (zeros count).length = count := by
  simp [zeros]

theorem zeros_append (first second : Nat) :
    zeros first ++ zeros second = zeros (first + second) := by
  simp [zeros, List.replicate_append_replicate]

def XECRYPT_SHA_DIGEST_SIZE : Nat := 0x14

/-- What `XeCryptSha` writes; the size is part of the value. -/
structure Digest where
  bytes : Bytes
  size : bytes.length = XECRYPT_SHA_DIGEST_SIZE
  deriving DecidableEq

/-- The content of an entry that `memset` cleared. -/
def Digest.zero : Digest := ⟨zeros XECRYPT_SHA_DIGEST_SIZE, zeros_length _⟩

theorem Digest.zero_bytes : Digest.zero.bytes = zeros 0x14 := rfl

/-- `XeCryptSha` over one byte range. -/
abbrev Sha := Bytes → Digest

theorem Digest.bytes_injective : Function.Injective Digest.bytes := by
  intro left right same
  cases left
  cases right
  simpa using same

def entryBytes (digests : List Digest) : Bytes := (digests.map Digest.bytes).flatten

theorem entry_width (digests : List Digest) :
    ∀ entry ∈ digests.map Digest.bytes, entry.length = 0x14 := by
  intro entry member
  obtain ⟨digest, _, rfl⟩ := List.mem_map.mp member
  exact digest.size

theorem entry_bytes_length (digests : List Digest) :
    (entryBytes digests).length = digests.length * 0x14 := by
  rw [entryBytes, flatten_length_uniform (entry_width digests), List.length_map]

theorem entry_bytes_append (front back : List Digest) :
    entryBytes (front ++ back) = entryBytes front ++ entryBytes back := by
  simp [entryBytes]

theorem entry_bytes_zero (count : Nat) :
    entryBytes (List.replicate count Digest.zero) = zeros (count * 0x14) := by
  induction count with
  | zero => rfl
  | succ count ih =>
      have shape : List.replicate (count + 1) Digest.zero =
          [Digest.zero] ++ List.replicate count Digest.zero := by simp [List.replicate_succ]
      have one : entryBytes [Digest.zero] = zeros 0x14 := by
        simp [entryBytes, Digest.zero, XECRYPT_SHA_DIGEST_SIZE]
      rw [shape, entry_bytes_append, ih, one, zeros_append]
      congr 1
      omega

theorem slice_entry_bytes (digests : List Digest) (tail : Bytes) (index : Nat)
    (present : index < digests.length) :
    slice (entryBytes digests ++ tail) (index * 0x14) 0x14 = digests[index].bytes := by
  have inside : index * 0x14 + 0x14 ≤ (entryBytes digests).length := by
    rw [entry_bytes_length]
    omega
  have whole : digests[index].bytes.length = 0x14 := digests[index].size
  have inMap : index < (digests.map Digest.bytes).length := by simpa using present
  have address : slice (digests.map Digest.bytes).flatten (index * 0x14 + 0) 0x14 =
      slice (digests.map Digest.bytes)[index] 0 0x14 :=
    slice_flatten index
      (fun entry member => entry_width digests entry (List.mem_of_mem_take member)) inMap
      (by simp [whole])
  rw [slice_append_left _ _ _ _ inside, entryBytes, ← Nat.add_zero (index * 0x14), address]
  simp [slice, ← whole]

/-- Storing one digest in a table changes that entry and nothing else. -/
theorem patch_entry_bytes (digests : List Digest) (tail : Bytes) (index : Nat)
    (present : index < digests.length) (digest : Digest) :
    patch (entryBytes digests ++ tail) (index * 0x14) digest.bytes =
      entryBytes (digests.set index digest) ++ tail := by
  have split : digests = digests.take index ++ [digests[index]] ++ digests.drop (index + 1) := by
    rw [List.append_assoc, List.singleton_append, ← List.drop_eq_getElem_cons present,
      List.take_append_drop]
  have stored : digests.set index digest =
      digests.take index ++ [digest] ++ digests.drop (index + 1) := by
    rw [List.set_eq_take_append_cons_drop, if_pos present, List.append_assoc,
      List.singleton_append]
  have front : (entryBytes (digests.take index)).length = index * 0x14 := by
    rw [entry_bytes_length, List.length_take, Nat.min_eq_left present.le]
  have single (value : Digest) : entryBytes [value] = value.bytes := by simp [entryBytes]
  have sizes : digest.bytes.length = digests[index].bytes.length :=
    digest.size.trans digests[index].size.symm
  rw [stored]
  nth_rewrite 1 [split]
  rw [entry_bytes_append, entry_bytes_append, entry_bytes_append, entry_bytes_append,
    single, single, ← front]
  simp only [List.append_assoc]
  exact patch_middle _ _ _ _ sizes

theorem entry_bytes_injective {left right : List Digest}
    (same : entryBytes left = entryBytes right) : left = right := by
  have lengths : left.length = right.length := by
    have sizes := congrArg List.length same
    rw [entry_bytes_length, entry_bytes_length] at sizes
    omega
  apply List.ext_getElem lengths
  intro index leftBound rightBound
  apply Digest.bytes_injective
  rw [← slice_entry_bytes left [] index leftBound, same,
    slice_entry_bytes right [] index rightBound]

/-! ## Unsigned 32-bit arithmetic -/

def u32 (value : Nat) : Nat := value % 0x100000000

def sub32 (left right : Nat) : Nat := (left + 0x100000000 - right) % 0x100000000

theorem u32_lt (value : Nat) : u32 value < 0x100000000 := by
  rw [u32]
  omega

theorem u32_of_lt {value : Nat} (bound : value < 0x100000000) : u32 value = value :=
  Nat.mod_eq_of_lt bound

theorem sub32_of_le {left right : Nat} (ordered : right ≤ left) (bound : left < 0x100000000) :
    sub32 left right = left - right := by
  rw [sub32]
  omega

/-! ## Byte order -/

/-- A 32-bit store of the little-endian host. -/
def hostU32 (value : Nat) : Bytes :=
  [UInt8.ofNat value, UInt8.ofNat (value / 0x100), UInt8.ofNat (value / 0x10000),
    UInt8.ofNat (value / 0x1000000)]

def hostU64 (value : Nat) : Bytes :=
  hostU32 (value % 0x100000000) ++ hostU32 (value / 0x100000000)

def bswap32 (value : Nat) : Nat :=
  value % 0x100 * 0x1000000 +
    value / 0x100 % 0x100 * 0x10000 +
    value / 0x10000 % 0x100 * 0x100 +
    value / 0x1000000 % 0x100

def bswap64 (value : Nat) : Nat :=
  bswap32 (value % 0x100000000) * 0x100000000 + bswap32 (value / 0x100000000)

def getBe32 (data : Bytes) : Nat :=
  (data.getD 0 0).toNat * 0x1000000 + (data.getD 1 0).toNat * 0x10000 +
    (data.getD 2 0).toNat * 0x100 + (data.getD 3 0).toNat

def getBe64 (data : Bytes) : Nat :=
  getBe32 data * 0x100000000 + getBe32 (data.drop 4)

theorem bswap32_lt (value : Nat) : bswap32 value < 0x100000000 := by
  rw [bswap32]
  omega

theorem word_bytes {first second third fourth : Nat} (firstByte : first < 0x100)
    (secondByte : second < 0x100) (thirdByte : third < 0x100) (fourthByte : fourth < 0x100) :
    let word := first * 0x1000000 + second * 0x10000 + third * 0x100 + fourth
    word % 0x100 = fourth ∧ word / 0x100 % 0x100 = third ∧
      word / 0x10000 % 0x100 = second ∧ word / 0x1000000 % 0x100 = first := by
  intro word
  omega

theorem bswap32_bytes (value : Nat) :
    bswap32 value % 0x100 = value / 0x1000000 % 0x100 ∧
      bswap32 value / 0x100 % 0x100 = value / 0x10000 % 0x100 ∧
      bswap32 value / 0x10000 % 0x100 = value / 0x100 % 0x100 ∧
      bswap32 value / 0x1000000 % 0x100 = value % 0x100 :=
  word_bytes (Nat.mod_lt _ (by decide)) (Nat.mod_lt _ (by decide)) (Nat.mod_lt _ (by decide))
    (Nat.mod_lt _ (by decide))

/-- A field stored through `bswap32` reads back in big-endian order. -/
theorem get_be32_host_bswap32 (value : Nat) (bound : value < 0x100000000) (tail : Bytes) :
    getBe32 (hostU32 (bswap32 value) ++ tail) = value := by
  obtain ⟨first, second, third, fourth⟩ := bswap32_bytes value
  simp only [hostU32, getBe32, List.cons_append, List.nil_append, List.getD_cons_zero,
    List.getD_cons_succ, UInt8.toNat_ofNat']
  simp only [Nat.reducePow, first, second, third, fourth]
  omega

theorem get_be64_host_bswap64 (value : Nat) (bound : value < 0x10000000000000000) :
    getBe64 (hostU64 (bswap64 value)) = value := by
  have low : bswap64 value % 0x100000000 = bswap32 (value / 0x100000000) := by
    have small := bswap32_lt (value / 0x100000000)
    rw [bswap64]
    omega
  have high : bswap64 value / 0x100000000 = bswap32 (value % 0x100000000) := by
    have small := bswap32_lt (value / 0x100000000)
    rw [bswap64]
    omega
  have upper := get_be32_host_bswap32 (value / 0x100000000) (by omega)
    (hostU32 (bswap32 (value % 0x100000000)))
  have lower := get_be32_host_bswap32 (value % 0x100000000) (by omega) []
  rw [List.append_nil] at lower
  have four (word : Nat) (rest : Bytes) : (hostU32 word ++ rest).drop 4 = rest := rfl
  rw [getBe64, hostU64, low, high, four, upper, lower]
  omega

example : getBe32 (hostU32 (bswap32 0xAD0E)) = 0xAD0E := by decide

end XeBuild
