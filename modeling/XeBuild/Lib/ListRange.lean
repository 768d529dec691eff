import Mathlib.Data.List.Basic
import Mathlib.Data.List.TakeDrop

/-!
# Ranges of a list

Reading and overwriting the items of a list from an offset on, with the frame
rules of the overwrite. A list stands for a flat buffer or for the contents of
a file: an overwrite that starts inside and runs past the end extends it.
-/

namespace ListRange

set_option autoImplicit false

variable {Item : Type*}

/-- At most `size` items of `buffer` from `offset` on. -/
def slice (buffer : List Item) (offset size : Nat) : List Item :=
  (buffer.drop offset).take size

def patch (buffer : List Item) (offset : Nat) (items : List Item) : List Item :=
  buffer.take offset ++ items ++ buffer.drop (offset + items.length)

theorem slice_length (buffer : List Item) (offset size : Nat) :
    (slice buffer offset size).length = min size (buffer.length - offset) := by
  simp [slice]

theorem slice_length_of_le {buffer : List Item} {offset size : Nat}
    (inside : offset + size ≤ buffer.length) :
    (slice buffer offset size).length = size := by
  rw [slice_length]
  omega

theorem slice_whole (buffer : List Item) : slice buffer 0 buffer.length = buffer := by
  simp [slice]

theorem slice_slice (buffer : List Item) (offset size inner count : Nat)
    (inside : inner + count ≤ size) :
    slice (slice buffer offset size) inner count = slice buffer (offset + inner) count := by
  simp only [slice, List.drop_take, List.drop_drop, List.take_take]
  congr 1
  omega

theorem slice_of_drop (buffer : List Item) (skip offset size : Nat) :
    slice (buffer.drop skip) offset size = slice buffer (skip + offset) size := by
  simp [slice, List.drop_drop]

theorem slice_of_take (buffer : List Item) (limit offset size : Nat)
    (inside : offset + size ≤ limit) :
    slice (buffer.take limit) offset size = slice buffer offset size := by
  simp only [slice, List.drop_take, List.take_take]
  congr 1
  omega

theorem slice_append_left (front back : List Item) (offset size : Nat)
    (inside : offset + size ≤ front.length) :
    slice (front ++ back) offset size = slice front offset size := by
  rw [slice, slice, List.drop_append_of_le_length (by omega),
    List.take_append_of_le_length (by rw [List.length_drop]; omega)]

theorem slice_append_right (front back : List Item) (offset size : Nat) :
    slice (front ++ back) (front.length + offset) size = slice back offset size := by
  rw [slice, slice, List.drop_length_add_append]

theorem slice_append_of_le (front back : List Item) {offset size : Nat}
    (past : front.length ≤ offset) :
    slice (front ++ back) offset size = slice back (offset - front.length) size := by
  have moved := slice_append_right front back (offset - front.length) size
  rwa [Nat.add_sub_cancel' past] at moved

theorem slice_replicate (value : Item) (count offset size : Nat)
    (inside : offset + size ≤ count) :
    slice (List.replicate count value) offset size = List.replicate size value := by
  simp only [slice, List.drop_replicate, List.take_replicate]
  congr 1
  omega

theorem slice_append_slice (buffer : List Item) (offset first second : Nat) :
    slice buffer offset first ++ slice buffer (offset + first) second =
      slice buffer offset (first + second) := by
  simp only [slice, List.take_add, List.drop_drop]

theorem patch_length {buffer : List Item} {offset : Nat} {items : List Item}
    (inside : offset + items.length ≤ buffer.length) :
    (patch buffer offset items).length = buffer.length := by
  simp only [patch, List.length_append, List.length_take, List.length_drop]
  omega

theorem patch_at_end (buffer items : List Item) :
    patch buffer buffer.length items = buffer ++ items := by
  simp [patch]

theorem patch_middle (front middle back items : List Item)
    (same : items.length = middle.length) :
    patch (front ++ (middle ++ back)) front.length items = front ++ (items ++ back) := by
  have past : (front ++ (middle ++ back)).drop (front.length + items.length) = back := by
    rw [same, List.drop_length_add_append, List.drop_left]
  rw [patch, past, List.take_left, List.append_assoc]

theorem patch_front (middle back items : List Item) (same : items.length = middle.length) :
    patch (middle ++ back) 0 items = items ++ back := by
  simpa using patch_middle [] middle back items same

theorem slice_patch_same (buffer : List Item) (offset : Nat) (items : List Item)
    (start : offset ≤ buffer.length) :
    slice (patch buffer offset items) offset items.length = items := by
  have front : (buffer.take offset).length = offset := by simp [start]
  have moved := slice_append_right (buffer.take offset)
    (items ++ buffer.drop (offset + items.length)) 0 items.length
  rw [front] at moved
  rw [patch, List.append_assoc, ← Nat.add_zero offset, Nat.add_zero (offset + 0)]
  simpa [slice] using moved

theorem slice_patch_before (buffer : List Item) (offset : Nat) (items : List Item)
    {other size : Nat} (before : other + size ≤ offset) (start : offset ≤ buffer.length) :
    slice (patch buffer offset items) other size = slice buffer other size := by
  rw [patch, List.append_assoc, slice_append_left _ _ _ _ (by simp; omega),
    slice_of_take _ _ _ _ before]

theorem slice_patch_after (buffer : List Item) (offset : Nat) (items : List Item)
    {other size : Nat} (after : offset + items.length ≤ other) (start : offset ≤ buffer.length) :
    slice (patch buffer offset items) other size = slice buffer other size := by
  have front : (buffer.take offset ++ items).length = offset + items.length := by simp [start]
  rw [patch, slice_append_of_le _ _ (by omega), front, slice_of_drop]
  congr 1
  omega

theorem patch_set {buffer items : List Item} {offset : Nat} {item : Item}
    (inside : offset < buffer.length) :
    patch (buffer.set offset item) (offset + 1) items = patch buffer offset (item :: items) := by
  have cut : (buffer.set offset item).take (offset + 1) = buffer.take offset ++ [item] := by
    rw [List.take_add_one, List.getElem?_set_self inside, List.take_set_of_le (Nat.le_refl _)]
    rfl
  rw [patch, patch, cut, List.drop_set_of_lt (by omega), List.append_assoc (buffer.take offset),
    List.singleton_append, List.length_cons]
  congr 2
  omega

theorem patch_patch (buffer : List Item) (offset : Nat) (first second : List Item)
    (start : offset ≤ buffer.length) :
    patch (patch buffer offset first) (offset + first.length) second =
      patch buffer offset (first ++ second) := by
  have front : (buffer.take offset ++ first).length = offset + first.length := by simp [start]
  have back : (buffer.take offset ++ first ++ buffer.drop (offset + first.length)).drop
      (offset + first.length + second.length) =
        buffer.drop (offset + (first ++ second).length) := by
    rw [List.drop_append, front, List.drop_of_length_le (by rw [front]; omega), List.nil_append,
      List.drop_drop, List.length_append]
    congr 1
    omega
  rw [patch, patch, List.take_left' front, back, patch, List.append_assoc (buffer.take offset)]

end ListRange
