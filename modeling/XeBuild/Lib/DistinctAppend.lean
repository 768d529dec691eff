import Mathlib.Data.List.Nodup
import Mathlib.Data.List.Infix

/-!
# Appending what is not there yet

A list grows by items whose key no item of the list has. Its front stays, the
appended keys are apart from each other and from the front, and the keys that
are reached do not depend on the order.
-/

namespace DistinctAppend

set_option autoImplicit false

variable {Item Key : Type*} [DecidableEq Key] (key : Item → Key)

def insertNew (items : List Item) (item : Item) : List Item :=
  if key item ∈ items.map key then items else items ++ [item]

def insertAll (items fresh : List Item) : List Item := fresh.foldl (insertNew key) items

/-- The items behind `base` have keys that no other item has. -/
def Extends (base items : List Item) : Prop :=
  ∃ added, items = base ++ added ∧ (added.map key).Nodup ∧
    List.Disjoint (base.map key) (added.map key)

variable {key} {base items fresh : List Item} {item : Item}

theorem insert_new_of_mem (present : key item ∈ items.map key) :
    insertNew key items item = items := if_pos present

theorem insert_new_of_not_mem (absent : key item ∉ items.map key) :
    insertNew key items item = items ++ [item] := if_neg absent

theorem insert_all_cons (items : List Item) (item : Item) (fresh : List Item) :
    insertAll key items (item :: fresh) = insertAll key (insertNew key items item) fresh := rfl

theorem insert_new_front (items : List Item) (item : Item) :
    items <+: insertNew key items item := by
  by_cases present : key item ∈ items.map key
  · rw [insert_new_of_mem present]
  · rw [insert_new_of_not_mem present]
    exact List.prefix_append _ _

theorem insert_all_front (items fresh : List Item) : items <+: insertAll key items fresh := by
  induction fresh generalizing items with
  | nil => exact List.prefix_rfl
  | cons item fresh ih => exact (insert_new_front items item).trans (ih _)

theorem insert_all_mem {found : Item} (member : found ∈ insertAll key items fresh) :
    found ∈ items ∨ found ∈ fresh := by
  induction fresh generalizing items with
  | nil => exact Or.inl member
  | cons item fresh ih =>
      rcases ih member with old | later
      · by_cases present : key item ∈ items.map key
        · rw [insert_new_of_mem present] at old
          exact Or.inl old
        · rw [insert_new_of_not_mem present, List.mem_append, List.mem_singleton] at old
          rcases old with old | rfl
          · exact Or.inl old
          · exact Or.inr List.mem_cons_self
      · exact Or.inr (List.mem_cons_of_mem _ later)

theorem insert_new_keys (items : List Item) (item : Item) (found : Key) :
    found ∈ (insertNew key items item).map key ↔ found ∈ items.map key ∨ found = key item := by
  by_cases present : key item ∈ items.map key
  · rw [insert_new_of_mem present]
    constructor
    · exact Or.inl
    · intro either
      rcases either with old | rfl
      · exact old
      · exact present
  · rw [insert_new_of_not_mem present, List.map_append, List.mem_append, List.map_singleton,
      List.mem_singleton]

theorem insert_all_keys (items fresh : List Item) (found : Key) :
    found ∈ (insertAll key items fresh).map key ↔
      found ∈ items.map key ∨ found ∈ fresh.map key := by
  induction fresh generalizing items with
  | nil => simp [insertAll]
  | cons item fresh ih =>
      rw [insert_all_cons, ih, insert_new_keys, List.map_cons, List.mem_cons, or_assoc]

theorem insert_all_of_present (present : ∀ item ∈ fresh, key item ∈ items.map key) :
    insertAll key items fresh = items := by
  induction fresh with
  | nil => rfl
  | cons item fresh ih =>
      rw [insert_all_cons, insert_new_of_mem (present item List.mem_cons_self)]
      exact ih (fun other member => present other (List.mem_cons_of_mem _ member))

/-- The order of the fresh items has no part in which keys are there. -/
theorem insert_all_perm_keys {reordered : List Item} (perm : reordered.Perm fresh) (found : Key) :
    found ∈ (insertAll key items reordered).map key ↔
      found ∈ (insertAll key items fresh).map key := by
  rw [insert_all_keys, insert_all_keys, (perm.map key).mem_iff]

omit [DecidableEq Key] in
theorem extends_refl (base : List Item) : Extends key base base :=
  ⟨[], (List.append_nil base).symm, List.nodup_nil, List.disjoint_nil_right _⟩

theorem extends_insert_new (kept : Extends key base items) (item : Item) :
    Extends key base (insertNew key items item) := by
  by_cases present : key item ∈ items.map key
  · rwa [insert_new_of_mem present]
  · rw [insert_new_of_not_mem present]
    rcases kept with ⟨added, rfl, nodup, apart⟩
    rw [List.map_append, List.mem_append, not_or] at present
    refine ⟨added ++ [item], List.append_assoc _ _ _, ?_, ?_⟩
    · rw [List.map_append, List.map_singleton, List.nodup_append]
      refine ⟨nodup, List.nodup_singleton _, ?_⟩
      intro old member last isLast same
      rw [List.mem_singleton] at isLast
      exact present.2 (isLast ▸ same ▸ member)
    · rw [List.map_append, List.map_singleton, List.disjoint_append_right]
      refine ⟨apart, ?_⟩
      rw [List.disjoint_singleton]
      exact present.1

theorem extends_insert_all (kept : Extends key base items) (fresh : List Item) :
    Extends key base (insertAll key items fresh) := by
  induction fresh generalizing items with
  | nil => exact kept
  | cons item fresh ih => exact ih (extends_insert_new kept item)

omit [DecidableEq Key] in
/-- An item behind the base shares its key with no item at another place. -/
theorem extends_key_ne (kept : Extends key base items) {new other : Nat}
    (behind : base.length ≤ new) (newBound : new < items.length) (otherBound : other < items.length)
    (distinct : other ≠ new) : key items[other] ≠ key items[new] := by
  rcases kept with ⟨added, rfl, nodup, apart⟩
  rw [List.length_append] at newBound otherBound
  rw [List.getElem_append_right behind]
  by_cases old : other < base.length
  · rw [List.getElem_append_left old]
    intro same
    apply apart (List.mem_map_of_mem (List.getElem_mem old))
    rw [same]
    exact List.mem_map_of_mem (List.getElem_mem _)
  · rw [List.getElem_append_right (Nat.le_of_not_lt old)]
    intro same
    have positions := List.pairwise_iff_getElem.mp nodup
    simp only [List.length_map, List.getElem_map] at positions
    rcases Nat.lt_or_gt_of_ne distinct with before | after
    · exact positions _ _ (by omega) (by omega) (by omega) same
    · exact positions _ _ (by omega) (by omega) (by omega) same.symm

end DistinctAppend
