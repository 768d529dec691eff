import XeBuild.Bytes
import XeBuild.Lib.ListRange

/-!
# Files in memory

The `mem_file` that `xexInflate.c` hands to the library as input and as output:
a buffer and a position in it. A file that could not be opened is no file, and
reads and writes of it fail.
-/

namespace XeBuild.Mspack

open ListRange

set_option autoImplicit false

/-- The sizes are passed on as `int`. -/
structure MemFile where
  data : Bytes
  posn : Nat
  inside : posn ≤ data.length
  small : data.length < 0x80000000

def MemFile.rest (fh : MemFile) : Bytes := fh.data.drop fh.posn

def MemFile.done (fh : MemFile) : Bytes := fh.data.take fh.posn

/-- `mem_open` for reading or writing; the library counts bytes in an `int`. -/
def memOpen (data : Bytes) : Option MemFile :=
  if given : data ≠ [] ∧ data.length < 0x80000000 then some ⟨data, 0, Nat.zero_le _, given.2⟩
  else none

/-- The bytes that a read or a write of so many bytes moves. -/
def MemFile.todo (fh : MemFile) (bytes : Nat) : Nat := min (fh.data.length - fh.posn) bytes

theorem MemFile.todo_inside (fh : MemFile) (bytes : Nat) :
    fh.posn + fh.todo bytes ≤ fh.data.length := by
  have inside := fh.inside
  rw [MemFile.todo]
  omega

def MemFile.skip (fh : MemFile) (bytes : Nat) : MemFile :=
  { fh with posn := fh.posn + fh.todo bytes, inside := fh.todo_inside bytes }

/-- The bytes that are read, or the value -1 for no file. -/
def memRead (fh : Option MemFile) (bytes : Nat) : Option (Bytes × Option MemFile) :=
  match fh with
  | none => none
  | some fh => some (slice fh.data fh.posn (fh.todo bytes), some (fh.skip bytes))

theorem MemFile.patch_inside (fh : MemFile) (buffer : Bytes) :
    fh.posn + (buffer.take (fh.todo buffer.length)).length ≤ fh.data.length := by
  have inside := fh.inside
  rw [List.length_take, MemFile.todo]
  omega

def MemFile.put (fh : MemFile) (buffer : Bytes) : MemFile where
  data := patch fh.data fh.posn (buffer.take (fh.todo buffer.length))
  posn := fh.posn + fh.todo buffer.length
  inside := by
    rw [patch_length (fh.patch_inside buffer)]
    exact fh.todo_inside _
  small := by
    rw [patch_length (fh.patch_inside buffer)]
    exact fh.small

/-- The number of bytes that are written, or the value -1 for no file. -/
def memWrite (fh : Option MemFile) (buffer : Bytes) : Option (Nat × Option MemFile) :=
  match fh with
  | none => none
  | some fh => some (fh.todo buffer.length, some (fh.put buffer))

section Files

variable (fh : MemFile) (bytes : Nat) (buffer : Bytes)

theorem MemFile.rest_length : fh.rest.length = fh.data.length - fh.posn := List.length_drop

/-- A read takes the bytes behind the position, as far as they go. -/
theorem mem_read_rest :
    memRead (some fh) bytes = some (fh.rest.take bytes, some (fh.skip bytes)) := by
  have front : slice fh.data fh.posn (fh.todo bytes) = fh.rest.take bytes := by
    rw [slice, ← MemFile.rest, MemFile.todo, ← fh.rest_length, Nat.min_comm, ← List.take_eq_take_min]
  rw [memRead, front]

theorem skip_rest : (fh.skip bytes).rest = fh.rest.drop bytes := by
  have moved : (fh.skip bytes).rest = fh.rest.drop (fh.todo bytes) := List.drop_drop.symm
  rw [moved, MemFile.todo, ← fh.rest_length]
  rcases Nat.le_total fh.rest.length bytes with past | within
  · rw [Nat.min_eq_left past, List.drop_length, List.drop_of_length_le past]
  · rw [Nat.min_eq_right within]

/-- A write puts its bytes behind those that are there, as far as there is room. -/
theorem put_done_take :
    (fh.put buffer).done = fh.done ++ buffer.take (fh.todo buffer.length) := by
  have inside := fh.inside
  have room := fh.patch_inside buffer
  have count : (buffer.take (fh.todo buffer.length)).length = fh.todo buffer.length := by
    rw [List.length_take, MemFile.todo]
    omega
  have front : (fh.data.take fh.posn ++ buffer.take (fh.todo buffer.length)).length =
      fh.posn + fh.todo buffer.length := by
    rw [List.length_append, List.length_take, count]
    omega
  have posn : (fh.put buffer).posn = fh.posn + fh.todo buffer.length := rfl
  have data : (fh.put buffer).data =
      patch fh.data fh.posn (buffer.take (fh.todo buffer.length)) := rfl
  rw [MemFile.done, posn, data, patch, List.take_left' front]
  rfl

theorem todo_all (room : fh.posn + buffer.length ≤ fh.data.length) :
    fh.todo buffer.length = buffer.length := by
  rw [MemFile.todo]
  omega

theorem put_length : (fh.put buffer).data.length = fh.data.length :=
  patch_length (fh.patch_inside buffer)

end Files

end XeBuild.Mspack
