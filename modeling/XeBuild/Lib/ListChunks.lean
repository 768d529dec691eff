import Mathlib.Algebra.Order.Group.Nat
import Mathlib.Algebra.GroupWithZero.Divisibility
import Mathlib.Data.List.Basic
import Mathlib.Data.List.TakeDrop
import XeBuild.Lib.ListRange

/-!
# Lists cut into chunks

Cutting a list into consecutive chunks of one size, the last one shorter, and
the addressing of an item of the flattened list through its chunk.
-/

namespace ListChunks

open ListRange

set_option autoImplicit false

variable {Item : Type*}

/-- Consecutive chunks of `size` items; only the last one may be shorter. -/
def chunks (size : Nat) (items : List Item) : List (List Item) :=
  if _more : 0 < size ∧ 0 < items.length then
    items.take size :: chunks size (items.drop size)
  else []
termination_by items.length
decreasing_by
  rw [List.length_drop]
  omega

@[simp] theorem chunks_nil (size : Nat) : chunks size ([] : List Item) = [] := by
  rw [chunks]
  simp

theorem chunks_step {size : Nat} (positive : 0 < size) {items : List Item}
    (more : 0 < items.length) :
    chunks size items = items.take size :: chunks size (items.drop size) := by
  rw [chunks]
  simp [positive, more]

theorem chunks_full {size : Nat} (positive : 0 < size) {front : List Item}
    (full : front.length = size) (back : List Item) :
    chunks size (front ++ back) = front :: chunks size back := by
  rw [chunks_step positive (by rw [List.length_append]; omega)]
  rw [← full, List.take_left, List.drop_left]

theorem chunks_single {size : Nat} {items : List Item} (more : 0 < items.length)
    (short : items.length ≤ size) : chunks size items = [items] := by
  rw [chunks_step (by omega) more, List.take_of_length_le short,
    List.drop_eq_nil_of_le short, chunks_nil]

theorem chunks_flatten {size : Nat} (positive : 0 < size) (items : List Item) :
    (chunks size items).flatten = items := by
  induction items using chunks.induct size with
  | case1 items more ih =>
      rw [chunks_step positive more.2, List.flatten_cons, ih, List.take_append_drop]
  | case2 items done =>
      have empty : items = [] := List.eq_nil_of_length_eq_zero (by omega)
      simp [empty]

theorem chunks_length {size : Nat} (positive : 0 < size) (items : List Item) :
    (chunks size items).length = (items.length + size - 1) / size := by
  induction items using chunks.induct size with
  | case1 items more ih =>
      rw [chunks_step positive more.2, List.length_cons, ih, List.length_drop]
      rcases Nat.lt_or_ge items.length size with short | full
      · rw [Nat.sub_eq_zero_of_le short.le, Nat.zero_add,
          Nat.div_eq_of_lt (by omega : size - 1 < size)]
        exact (Nat.div_eq_of_lt_le (by omega) (by omega)).symm
      · rw [← Nat.add_div_right _ positive]
        congr 1
        omega
  | case2 items done =>
      have empty : items = [] := List.eq_nil_of_length_eq_zero (by omega)
      rw [empty, chunks_nil]
      simp only [List.length_nil, Nat.zero_add]
      exact (Nat.div_eq_of_lt (by omega)).symm

theorem lt_chunks_length {size : Nat} (positive : 0 < size) (items : List Item) (index : Nat) :
    index < (chunks size items).length ↔ index * size < items.length := by
  rw [chunks_length positive, Nat.lt_div_iff_mul_lt positive]
  omega

theorem chunks_getElem {size : Nat} (positive : 0 < size) (items : List Item) (index : Nat)
    (present : index < (chunks size items).length) :
    (chunks size items)[index] = slice items (index * size) size := by
  induction index generalizing items with
  | zero =>
      have more := (lt_chunks_length positive items 0).mp present
      simp [chunks_step positive (by omega : 0 < items.length), slice]
  | succ index ih =>
      have more := (lt_chunks_length positive items (index + 1)).mp present
      have nonempty : 0 < items.length := by omega
      simp only [chunks_step positive nonempty, List.getElem_cons_succ]
      rw [ih, slice_of_drop, Nat.succ_mul, Nat.add_comm size]

theorem chunks_mem_length {size : Nat} (positive : 0 < size) {items chunk : List Item}
    (member : chunk ∈ chunks size items) : 0 < chunk.length ∧ chunk.length ≤ size := by
  obtain ⟨index, present, rfl⟩ := List.mem_iff_getElem.mp member
  have start := (lt_chunks_length positive items index).mp present
  rw [chunks_getElem positive items index present, slice_length]
  omega

theorem chunks_full_before {size : Nat} (positive : 0 < size) (items : List Item) (index : Nat)
    (present : index < (chunks size items).length) :
    ∀ chunk ∈ (chunks size items).take index, chunk.length = size := by
  intro chunk member
  obtain ⟨earlier, before, rfl⟩ := List.mem_iff_getElem.mp member
  rw [List.length_take] at before
  have start := (lt_chunks_length positive items index).mp present
  have step : (earlier + 1) * size ≤ index * size := Nat.mul_le_mul_right size (by omega)
  rw [Nat.add_mul, Nat.one_mul] at step
  rw [List.getElem_take, chunks_getElem positive items earlier (by omega),
    slice_length_of_le (by omega)]

theorem chunks_mem_dvd {size unit : Nat} (positive : 0 < size) {items chunk : List Item}
    (unitSize : unit ∣ size) (unitItems : unit ∣ items.length)
    (member : chunk ∈ chunks size items) : unit ∣ chunk.length := by
  obtain ⟨index, present, rfl⟩ := List.mem_iff_getElem.mp member
  rw [chunks_getElem positive items index present, slice_length]
  have rest : unit ∣ items.length - index * size :=
    Nat.dvd_sub unitItems (Dvd.dvd.mul_left unitSize index)
  rcases Nat.le_total size (items.length - index * size) with le | ge
  · rwa [Nat.min_eq_left le]
  · rwa [Nat.min_eq_right ge]

section Uniform

variable {parts : List (List Item)} {width : Nat}

theorem flatten_drop_uniform (index : Nat)
    (uniform : ∀ part ∈ parts.take index, part.length = width) (present : index ≤ parts.length) :
    parts.flatten.drop (index * width) = (parts.drop index).flatten := by
  induction index generalizing parts with
  | zero => simp
  | succ index ih =>
      cases parts with
      | nil => simp at present
      | cons part rest =>
          have first : part.length = width := uniform part (by simp)
          have shape : (index + 1) * width = part.length + index * width := by
            rw [first, Nat.succ_mul, Nat.add_comm]
          rw [List.flatten_cons, shape, List.drop_length_add_append, List.drop_succ_cons]
          apply ih ?_ (by simpa using present)
          intro other member
          exact uniform other (by simp [member])

/-- An address in the flattened list, as the part it falls in and an offset
inside that part, when all earlier parts have the same width. -/
theorem slice_flatten (index : Nat) {offset size : Nat}
    (uniform : ∀ part ∈ parts.take index, part.length = width) (present : index < parts.length)
    (inside : offset + size ≤ parts[index].length) :
    slice parts.flatten (index * width + offset) size = slice parts[index] offset size := by
  rw [← slice_of_drop, flatten_drop_uniform index uniform present.le,
    List.drop_eq_getElem_cons present, List.flatten_cons, slice_append_left _ _ _ _ inside]

theorem flatten_length_uniform (uniform : ∀ part ∈ parts, part.length = width) :
    parts.flatten.length = parts.length * width := by
  induction parts with
  | nil => simp
  | cons part rest ih =>
      have first := uniform part (by simp)
      have others := ih (by intro other member; exact uniform other (by simp [member]))
      rw [List.flatten_cons, List.length_append, first, others, List.length_cons, Nat.succ_mul,
        Nat.add_comm]

end Uniform

section Numbered

variable {part : Nat → List Item} {count width : Nat}

theorem numbered_width (uniform : ∀ index < count, (part index).length = width) :
    ∀ piece ∈ (List.range count).map part, piece.length = width := by
  intro piece member
  obtain ⟨index, inRange, rfl⟩ := List.mem_map.mp member
  exact uniform index (List.mem_range.mp inRange)

theorem numbered_length (uniform : ∀ index < count, (part index).length = width) :
    ((List.range count).map part).flatten.length = count * width := by
  rw [flatten_length_uniform (numbered_width uniform), List.length_map, List.length_range]

/-- An address in a list that is put together from numbered parts of one width. -/
theorem slice_numbered (uniform : ∀ index < count, (part index).length = width)
    {index offset size : Nat} (present : index < count) (inside : offset + size ≤ width) :
    slice ((List.range count).map part).flatten (index * width + offset) size =
      slice (part index) offset size := by
  have inList : index < ((List.range count).map part).length := by
    rwa [List.length_map, List.length_range]
  have here : ((List.range count).map part)[index] = part index := by
    rw [List.getElem_map, List.getElem_range]
  rw [slice_flatten index (fun piece member => numbered_width uniform piece
    (List.mem_of_mem_take member))
    inList, here]
  rw [here, uniform index present]
  exact inside

end Numbered

end ListChunks
