import XeBuild.Lib.ListRange
import XeBuild.Lib.Runs

/-!
# Buffers with checked ends

Loads and stores of a buffer that are faults when they leave it. A computation
over them returns only when all of its accesses are inside.
-/

namespace CheckedBuffer

open ListRange Runs

set_option autoImplicit false

variable {Item : Type}

inductive Fault
  | roundsSpent
  | load (offset size : Nat)
  | store (offset size : Nat)
  deriving DecidableEq, Repr

def load (buffer : List Item) (offset size : Nat) : Except Fault (List Item) :=
  if offset + size ≤ buffer.length then .ok (slice buffer offset size)
  else .error (.load offset size)

def store (buffer : List Item) (offset : Nat) (items : List Item) : Except Fault (List Item) :=
  if offset + items.length ≤ buffer.length then .ok (patch buffer offset items)
  else .error (.store offset items.length)

theorem load_inside {buffer : List Item} {offset size : Nat}
    (inside : offset + size ≤ buffer.length) :
    load buffer offset size = .ok (slice buffer offset size) := if_pos inside

theorem store_inside {buffer items : List Item} {offset : Nat}
    (inside : offset + items.length ≤ buffer.length) :
    store buffer offset items = .ok (patch buffer offset items) := if_pos inside

theorem load_ok_iff {buffer result : List Item} {offset size : Nat} :
    load buffer offset size = .ok result ↔
      offset + size ≤ buffer.length ∧ result = slice buffer offset size := by
  rw [load]
  split_ifs with inside <;> simp [inside, eq_comm]

theorem store_ok_iff {buffer items result : List Item} {offset : Nat} :
    store buffer offset items = .ok result ↔
      offset + items.length ≤ buffer.length ∧ result = patch buffer offset items := by
  rw [store]
  split_ifs with inside <;> simp [inside, eq_comm]

/-- A computation that starts with a load goes on only when it is inside. -/
theorem returns_load_bind_iff {Result : Type} {buffer : List Item} {offset size : Nat}
    {next : List Item → Except Fault Result} :
    Returns (load buffer offset size >>= next) ↔
      offset + size ≤ buffer.length ∧ Returns (next (slice buffer offset size)) := by
  by_cases inside : offset + size ≤ buffer.length
  · rw [load_inside inside, ok_bind, and_iff_right inside]
  · rw [load, if_neg inside]
    constructor
    · intro returns
      exact absurd returns (not_returns_error _)
    · intro both
      exact absurd both.1 inside

theorem returns_map_load_bind_iff {Field Result : Type} {buffer : List Item} {offset size : Nat}
    {field : List Item → Field} {next : Field → Except Fault Result} :
    Returns ((field <$> load buffer offset size) >>= next) ↔
      offset + size ≤ buffer.length ∧ Returns (next (field (slice buffer offset size))) := by
  rw [map_eq_pure_bind, bind_assoc]
  exact returns_load_bind_iff

theorem patch_patch {buffer first second : List Item} {offset : Nat}
    (inside : offset + first.length ≤ buffer.length) :
    patch (patch buffer offset first) (offset + first.length) second =
      patch buffer offset (first ++ second) := by
  have front : (buffer.take offset ++ first).length = offset + first.length := by
    rw [List.length_append, List.length_take]
    omega
  rw [patch, patch, List.take_left' front, List.drop_append, List.drop_of_length_le (by omega),
    List.nil_append, List.drop_drop, patch]
  simp only [List.append_assoc, List.length_append, List.length_take]
  congr 4
  omega

end CheckedBuffer
