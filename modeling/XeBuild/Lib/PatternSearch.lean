import Mathlib.Data.List.Infix
import Mathlib.Data.Nat.Find
import XeBuild.Lib.SearchLoop

/-!
# Occurrences of a pattern

The positions of a list at which a pattern lies whole, and what a search loop
over the first positions tells of them.
-/

namespace PatternSearch

open SearchLoop

set_option autoImplicit false

variable {Item : Type}

def OccursAt (pattern data : List Item) (pos : Nat) : Prop := pattern <+: data.drop pos

instance [DecidableEq Item] (pattern data : List Item) (pos : Nat) :
    Decidable (OccursAt pattern data pos) :=
  inferInstanceAs (Decidable (pattern <+: data.drop pos))

structure FirstAt (pattern data : List Item) (pos : Nat) : Prop where
  occurs : OccursAt pattern data pos
  none_before : ∀ earlier < pos, ¬ OccursAt pattern data earlier

/-- The answer of a search: the first position, or none where there is none. -/
structure FindsFirst (pattern data : List Item) (found : Option Nat) : Prop where
  first : ∀ pos, found = some pos ↔ FirstAt pattern data pos
  absent : found = none ↔ ∀ pos, ¬ OccursAt pattern data pos

variable {pattern data : List Item} {pos : Nat}

theorem occurs_inside (nonempty : 1 ≤ pattern.length) (occurs : OccursAt pattern data pos) :
    pos + pattern.length ≤ data.length := by
  have length := occurs.length_le
  rw [List.length_drop] at length
  omega

theorem occurs_iff_items :
    OccursAt pattern data pos ↔ ∀ index < pattern.length, data[pos + index]? = pattern[index]? := by
  rw [OccursAt, List.prefix_iff_getElem?]
  constructor
  · intro same index inside
    rw [← List.getElem?_drop, same index inside, List.getElem?_eq_getElem inside]
  · intro same index inside
    rw [List.getElem?_drop, same index inside, List.getElem?_eq_getElem inside]

theorem occurs_last_iff :
    OccursAt pattern data (data.length - pattern.length) ↔ pattern <:+ data := by
  constructor
  · intro occurs
    rw [List.suffix_iff_eq_drop]
    apply occurs.eq_of_length_le
    rw [List.length_drop]
    omega
  · intro suffix
    rw [OccursAt, ← List.suffix_iff_eq_drop.mp suffix]

/-- An occurrence ahead of the last position that leaves room, or there. -/
theorem occurs_iff_early_or_last (nonempty : 1 ≤ pattern.length) :
    (∃ pos, OccursAt pattern data pos) ↔
      (∃ pos < data.length - pattern.length, OccursAt pattern data pos) ∨ pattern <:+ data := by
  constructor
  · intro some
    rcases some with ⟨pos, occurs⟩
    have inside := occurs_inside nonempty occurs
    by_cases early : pos < data.length - pattern.length
    · exact Or.inl ⟨pos, early, occurs⟩
    · have last : pos = data.length - pattern.length := by omega
      rw [last, occurs_last_iff] at occurs
      exact Or.inr occurs
  · intro either
    rcases either with early | last
    · rcases early with ⟨pos, _, occurs⟩
      exact ⟨pos, occurs⟩
    · exact ⟨_, occurs_last_iff.mpr last⟩

/-! ## Searches over the first positions -/

section Bounded

variable {Error : Type} {probe : Nat → Except Error (Option Nat)} {rounds : Nat}

def Probes (pattern data : List Item) (probe : Nat → Except Error (Option Nat)) (rounds : Nat) :
    Prop :=
  ∀ pos < rounds, (OccursAt pattern data pos → probe pos = .ok (some pos)) ∧
    (¬ OccursAt pattern data pos → probe pos = .ok none)

theorem misses_iff_absent (probes : Probes pattern data probe rounds) (bound : pos ≤ rounds) :
    MissesBefore probe 0 pos ↔ ∀ earlier < pos, ¬ OccursAt pattern data earlier := by
  constructor
  · intro misses earlier before occurs
    have hit := (probes earlier (by omega)).1 occurs
    rw [misses earlier (Nat.zero_le _) before] at hit
    cases hit
  · intro absent earlier _ before
    exact (probes earlier (by omega)).2 (absent earlier before)

theorem bounded_search_some (probes : Probes pattern data probe rounds)
    (first : FirstAt pattern data pos) (bound : pos < rounds) :
    search probe rounds 0 = .ok (some pos) := by
  rw [search_some_iff]
  exact ⟨pos, Nat.zero_le _, by omega, (misses_iff_absent probes bound.le).mpr first.none_before,
    (probes pos bound).1 first.occurs⟩

theorem bounded_search_none (probes : Probes pattern data probe rounds)
    (absent : ∀ pos < rounds, ¬ OccursAt pattern data pos) :
    search probe rounds 0 = .ok none := by
  rw [search_none_iff, Nat.zero_add]
  exact (misses_iff_absent probes (Nat.le_refl _)).mpr absent

end Bounded

theorem first_of_occurs (occurs : OccursAt pattern data pos) :
    ∃ first ≤ pos, FirstAt pattern data first := by
  classical
  have some : ∃ pos, OccursAt pattern data pos := ⟨pos, occurs⟩
  refine ⟨Nat.find some, Nat.find_min' some occurs, Nat.find_spec some, ?_⟩
  intro earlier before
  exact Nat.find_min some before

theorem first_unique {other : Nat} (left : FirstAt pattern data pos)
    (right : FirstAt pattern data other) : pos = other := by
  rcases Nat.lt_trichotomy pos other with before | same | before
  · exact absurd left.occurs (right.none_before pos before)
  · exact same
  · exact absurd right.occurs (left.none_before other before)

theorem finds_some (first : FirstAt pattern data pos) : FindsFirst pattern data (some pos) := by
  constructor
  · intro other
    constructor
    · intro same
      cases same
      exact first
    · intro otherFirst
      rw [first_unique first otherFirst]
  · constructor
    · intro none
      cases none
    · intro absent
      exact absurd first.occurs (absent pos)

theorem finds_none (absent : ∀ pos, ¬ OccursAt pattern data pos) :
    FindsFirst pattern data none := by
  constructor
  · intro pos
    constructor
    · intro none
      cases none
    · intro first
      exact absurd first.occurs (absent pos)
  · exact ⟨fun _ => absent, fun _ => rfl⟩

end PatternSearch
