import Mathlib.Algebra.BigOperators.Group.List.Basic
import Mathlib.Algebra.Order.BigOperators.Group.List
import XeBuild.Lib.BitText

/-!
# Canonical prefix codes

Codes that are handed out in order: every symbol takes the next part of the code
space, of the size that its width leaves. A number of so many bits is decoded by
the part that it falls into. When the widths never decrease, the part of a
symbol is exactly the numbers that start with its code, so the code is free of
prefixes, and a code that fills the space decodes every number.
-/

namespace PrefixCodes

open BitText

set_option autoImplicit false

/-- A symbol and the number of bits of its code. -/
structure Leaf where
  symbol : Nat
  width : Nat
  deriving DecidableEq, Repr

/-- The numbers of `depth` bits that start with one code of this width. -/
def Leaf.size (depth : Nat) (leaf : Leaf) : Nat := 2 ^ (depth - leaf.width)

def total (depth : Nat) (leaves : List Leaf) : Nat := (leaves.map (Leaf.size depth)).sum

/-- The part of the code space that a number falls into. -/
def locate (depth : Nat) : List Leaf → Nat → Option Leaf
  | [], _ => none
  | leaf :: rest, number =>
      if number < leaf.size depth then some leaf else locate depth rest (number - leaf.size depth)

/-- The code of a symbol, where the part of the first leaf starts at `start`. -/
def codeFrom (depth : Nat) : Nat → List Leaf → Nat → Option (List Bool)
  | _, [], _ => none
  | start, leaf :: rest, symbol =>
      if leaf.symbol = symbol then some (toBits leaf.width (start / leaf.size depth))
      else codeFrom depth (start + leaf.size depth) rest symbol

def code (depth : Nat) (leaves : List Leaf) (symbol : Nat) : Option (List Bool) :=
  codeFrom depth 0 leaves symbol

/-- The widths never decrease, and none is longer than the numbers. -/
structure Ordered (depth : Nat) (leaves : List Leaf) : Prop where
  sorted : leaves.Pairwise fun left right => left.width ≤ right.width
  bounded : ∀ leaf ∈ leaves, leaf.width ≤ depth

section Totals

variable {depth extra : Nat} {leaf : Leaf} {leaves front back : List Leaf}

theorem size_pos (depth : Nat) (leaf : Leaf) : 0 < leaf.size depth := Nat.two_pow_pos _

@[simp] theorem total_nil : total depth [] = 0 := rfl

@[simp] theorem total_cons : total depth (leaf :: leaves) = leaf.size depth + total depth leaves := by
  rw [total, List.map_cons, List.sum_cons, total]

@[simp] theorem total_append : total depth (front ++ back) = total depth front + total depth back := by
  simp [total]

theorem size_scaled (bounded : leaf.width ≤ depth) :
    leaf.size (depth + extra) = 2 ^ extra * leaf.size depth := by
  rw [Leaf.size, Leaf.size, ← Nat.pow_add]
  congr 1
  omega

theorem total_scaled (bounded : ∀ leaf ∈ leaves, leaf.width ≤ depth) :
    total (depth + extra) leaves = 2 ^ extra * total depth leaves := by
  induction leaves with
  | nil => rfl
  | cons leaf leaves ih =>
      rw [total_cons, total_cons, size_scaled (bounded leaf List.mem_cons_self),
        ih fun other member => bounded other (List.mem_cons_of_mem _ member), Nat.mul_add]

end Totals

section Locate

variable {depth extra number start : Nat} {leaf : Leaf} {leaves front back : List Leaf}

/-- A number is decoded exactly when it lies in the part of the space that is handed out. -/
theorem locate_is_some_iff : (locate depth leaves number).isSome ↔ number < total depth leaves := by
  induction leaves generalizing number with
  | nil => simp [locate]
  | cons leaf leaves ih =>
      rw [locate, total_cons]
      split_ifs with here
      · simp
        omega
      · rw [ih]
        omega

theorem locate_append_right (behind : total depth front ≤ number) :
    locate depth (front ++ back) number = locate depth back (number - total depth front) := by
  induction front generalizing number with
  | nil => rfl
  | cons leaf front ih =>
      rw [total_cons] at behind
      rw [List.cons_append, locate, if_neg (by omega), ih (by omega), total_cons, Nat.sub_sub]

theorem locate_append_left (inside : number < total depth front) :
    locate depth (front ++ back) number = locate depth front number := by
  induction front generalizing number with
  | nil => cases inside
  | cons leaf front ih =>
      rw [total_cons] at inside
      rw [List.cons_append, locate, locate]
      split_ifs with here
      · rfl
      · exact ih (by omega)

theorem locate_between (start : total depth front ≤ number)
    (inside : number < total depth front + leaf.size depth) :
    locate depth (front ++ leaf :: back) number = some leaf := by
  rw [locate_append_right start, locate, if_pos (by omega)]

theorem locate_some_split (found : locate depth leaves number = some leaf) :
    ∃ front back, leaves = front ++ leaf :: back ∧ total depth front ≤ number ∧
      number < total depth front + leaf.size depth := by
  induction leaves generalizing number with
  | nil => cases found
  | cons first leaves ih =>
      rw [locate] at found
      split_ifs at found with here
      · cases found
        exact ⟨[], leaves, rfl, Nat.zero_le _, by rw [total_nil]; omega⟩
      · rcases ih found with ⟨front, back, shape, start, inside⟩
        refine ⟨first :: front, back, by rw [shape, List.cons_append], ?_, ?_⟩
        · rw [total_cons]
          omega
        · rw [total_cons]
          omega

/-- More bits behind a number do not change the part that it falls into. -/
theorem locate_scaled (bounded : ∀ leaf ∈ leaves, leaf.width ≤ depth) :
    locate (depth + extra) leaves number = locate depth leaves (number / 2 ^ extra) := by
  induction leaves generalizing number with
  | nil => rfl
  | cons leaf leaves ih =>
      have scaled := @size_scaled depth extra leaf (bounded leaf List.mem_cons_self)
      have here : number < leaf.size (depth + extra) ↔ number / 2 ^ extra < leaf.size depth := by
        rw [scaled, Nat.div_lt_iff_lt_mul (Nat.two_pow_pos _), Nat.mul_comm]
      have moved : (number - leaf.size (depth + extra)) / 2 ^ extra =
          number / 2 ^ extra - leaf.size depth := by
        rw [scaled, Nat.sub_mul_div]
      rw [locate, locate, ih fun other member => bounded other (List.mem_cons_of_mem _ member), moved]
      exact if_congr here rfl rfl

end Locate

/-! ## Codes and the numbers that start with them -/

section Codes

variable {depth start symbol number : Nat} {leaf : Leaf} {leaves front back : List Leaf}
  {bits rest : List Bool}

theorem ordered_tail (ordered : Ordered depth (leaf :: leaves)) : Ordered depth leaves :=
  ⟨(List.pairwise_cons.mp ordered.sorted).2,
    fun other member => ordered.bounded other (List.mem_cons_of_mem _ member)⟩

/-- In front of a leaf, the space is handed out in multiples of its size. -/
theorem size_dvd_total (ordered : Ordered depth (front ++ leaf :: back)) :
    leaf.size depth ∣ total depth front := by
  have before := (List.pairwise_append.mp ordered.sorted).2.2
  induction front with
  | nil => exact Nat.dvd_zero _
  | cons first front ih =>
      rw [total_cons]
      apply Nat.dvd_add
      · have earlier : first.width ≤ leaf.width :=
          before first List.mem_cons_self leaf List.mem_cons_self
        apply Nat.pow_dvd_pow
        omega
      · apply ih (ordered_tail ordered)
        intro other member
        exact before other (List.mem_cons_of_mem _ member)

theorem code_from_some_split (found : codeFrom depth start leaves symbol = some bits) :
    ∃ front leaf back, leaves = front ++ leaf :: back ∧ leaf.symbol = symbol ∧
      bits = toBits leaf.width ((start + total depth front) / leaf.size depth) := by
  induction leaves generalizing start with
  | nil => cases found
  | cons first leaves ih =>
      rw [codeFrom] at found
      split_ifs at found with here
      · cases found
        exact ⟨[], first, leaves, rfl, here, by rw [total_nil, Nat.add_zero]⟩
      · rcases ih found with ⟨front, leaf, back, shape, same, made⟩
        refine ⟨first :: front, leaf, back, by rw [shape, List.cons_append], same, ?_⟩
        rw [made, total_cons, Nat.add_assoc]

theorem starts_with_code_iff (ordered : Ordered depth (front ++ leaf :: back))
    (fits : total depth front + leaf.size depth ≤ 2 ^ depth) (small : number < 2 ^ depth) :
    (∃ rest, toBits depth number =
        toBits leaf.width (total depth front / leaf.size depth) ++ rest) ↔
      total depth front ≤ number ∧ number < total depth front + leaf.size depth := by
  have inside : leaf.width ≤ depth := ordered.bounded leaf (by simp)
  have positive := size_pos depth leaf
  rcases size_dvd_total ordered with ⟨place, aligned⟩
  have placed : total depth front / leaf.size depth = place := by
    rw [aligned, Nat.mul_div_cancel_left _ positive]
  have room : place < 2 ^ leaf.width := by
    have whole : leaf.size depth * 2 ^ leaf.width = 2 ^ depth := by
      rw [Leaf.size, ← Nat.pow_add, Nat.sub_add_cancel inside]
    have scaled : leaf.size depth * (place + 1) ≤ leaf.size depth * 2 ^ leaf.width := by
      rw [whole, Nat.mul_add, Nat.mul_one, ← aligned]
      exact fits
    exact Nat.le_of_mul_le_mul_left scaled positive
  have depths : (toBits leaf.width place).length + (depth - leaf.width) = depth := by
    rw [to_bits_length]
    omega
  have high := @to_bits_eq_append_iff (depth - leaf.width) number (toBits leaf.width place)
    (by rw [depths]; exact small)
  rw [depths, bits_value_to_bits_of_lt room, ← Leaf.size] at high
  rw [placed, high, Nat.div_eq_iff positive, aligned]
  constructor
  · intro range
    rcases range with ⟨low, top⟩
    rw [Nat.mul_comm] at low top
    omega
  · intro range
    rw [Nat.mul_comm place]
    omega

/-- A number that starts with the code of a symbol is decoded to that symbol. -/
theorem locate_of_code (ordered : Ordered depth leaves) (fits : total depth leaves ≤ 2 ^ depth)
    (given : code depth leaves symbol = some bits) (small : number < 2 ^ depth)
    (starts : toBits depth number = bits ++ rest) :
    ∃ leaf, locate depth leaves number = some leaf ∧ leaf.symbol = symbol ∧
      leaf.width = bits.length := by
  rcases code_from_some_split given with ⟨front, leaf, back, shape, same, made⟩
  rw [Nat.zero_add] at made
  rw [shape] at ordered fits ⊢
  rw [total_append, total_cons] at fits
  rw [made] at starts
  have part := (starts_with_code_iff ordered (by omega) small).mp ⟨rest, starts⟩
  exact ⟨leaf, locate_between part.1 part.2, same, by rw [made, to_bits_length]⟩

end Codes

end PrefixCodes
