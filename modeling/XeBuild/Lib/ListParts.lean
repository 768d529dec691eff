import XeBuild.Lib.ListRange

/-!
# Parts laid end to end

Parts of any size in a flattened list: where each part starts, that it reads
back from there, and that each place of the flattened list lies in one part.
-/

namespace ListParts

open ListRange

set_option autoImplicit false

variable {Item : Type*}

def start (parts : List (List Item)) (index : Nat) : Nat := (parts.take index).flatten.length

theorem start_zero (parts : List (List Item)) : start parts 0 = 0 := rfl

theorem start_cons (part : List Item) (rest : List (List Item)) (index : Nat) :
    start (part :: rest) (index + 1) = part.length + start rest index := by
  rw [start, List.take_succ_cons, List.flatten_cons, List.length_append, start]

theorem start_succ {parts : List (List Item)} {index : Nat} (present : index < parts.length) :
    start parts (index + 1) = start parts index + parts[index].length := by
  rw [start, List.take_succ_eq_append_getElem present, List.flatten_append, List.length_append,
    List.flatten_singleton, start]

theorem start_mono (parts : List (List Item)) {first last : Nat} (ordered : first ≤ last) :
    start parts first ≤ start parts last := by
  have split := List.take_append_drop first (parts.take last)
  rw [List.take_take, Nat.min_eq_left ordered] at split
  rw [start, start, ← split, List.flatten_append, List.length_append]
  exact Nat.le_add_right _ _

theorem start_end (parts : List (List Item)) : start parts parts.length = parts.flatten.length := by
  rw [start, List.take_length]

theorem slice_part {parts : List (List Item)} {index : Nat} (present : index < parts.length) :
    slice parts.flatten (start parts index) parts[index].length = parts[index] := by
  induction parts generalizing index with
  | nil => simp at present
  | cons part rest ih =>
      rw [List.flatten_cons]
      cases index with
      | zero => simp [start_zero, slice]
      | succ index =>
          rw [start_cons, slice_append_right]
          exact ih (Nat.lt_of_succ_lt_succ present)

def InPart (parts : List (List Item)) (position index : Nat) : Prop :=
  index < parts.length ∧ start parts index ≤ position ∧ position < start parts (index + 1)

theorem in_part_exists {parts : List (List Item)} {position : Nat}
    (inside : position < parts.flatten.length) : ∃ index, InPart parts position index := by
  induction parts generalizing position with
  | nil => simp at inside
  | cons part rest ih =>
      rw [List.flatten_cons, List.length_append] at inside
      by_cases first : position < part.length
      · refine ⟨0, Nat.succ_pos _, Nat.zero_le _, ?_⟩
        rw [start_cons]
        omega
      · have behind : position - part.length < rest.flatten.length := by omega
        rcases ih behind with ⟨index, present, low, high⟩
        refine ⟨index + 1, Nat.succ_lt_succ present, ?_, ?_⟩
        · rw [start_cons]
          omega
        · rw [start_cons]
          omega

theorem in_part_unique {parts : List (List Item)} {position first second : Nat}
    (left : InPart parts position first) (right : InPart parts position second) :
    first = second := by
  rcases Nat.lt_trichotomy first second with before | same | after
  · have ordered : start parts (first + 1) ≤ start parts second := start_mono parts before
    have low := right.2.1
    have high := left.2.2
    omega
  · exact same
  · have ordered : start parts (second + 1) ≤ start parts first := start_mono parts after
    have low := left.2.1
    have high := right.2.2
    omega

end ListParts
