import Mathlib.Data.Set.Function

/-!
# Digest tables and digest chains

A table lists the digests of its inputs and fills the unused places with a
mark. A chain hashes a header that holds the digest of the next header; the
last header holds the mark. Both bind what they were built from on any set of
inputs on which the hash has no collision and never gives the mark.
-/

namespace DigestTree

set_option autoImplicit false

variable {Input Digest Node : Type*} (hash : Input → Digest) (absent : Digest)

/-- No collision inside `inputs`, and no input that hashes to the mark. -/
structure Binding (inputs : Set Input) : Prop where
  injective : Set.InjOn hash inputs
  present : ∀ input ∈ inputs, hash input ≠ absent

/-- Where the hash does not bind, an explicit defect is found in the set. -/
theorem binding_or_broken (inputs : Set Input) :
    Binding hash absent inputs ∨
      (∃ left ∈ inputs, ∃ right ∈ inputs, left ≠ right ∧ hash left = hash right) ∨
      ∃ input ∈ inputs, hash input = absent := by
  by_cases collision : ∃ left ∈ inputs, ∃ right ∈ inputs, left ≠ right ∧ hash left = hash right
  · exact Or.inr (Or.inl collision)
  by_cases marked : ∃ input ∈ inputs, hash input = absent
  · exact Or.inr (Or.inr marked)
  refine Or.inl ⟨?_, ?_⟩
  · intro left leftMember right rightMember same
    by_contra different
    exact collision ⟨left, leftMember, right, rightMember, different, same⟩
  · intro input member equal
    exact marked ⟨input, member, equal⟩

def table (capacity : Nat) (inputs : List Input) : List Digest :=
  inputs.map hash ++ List.replicate (capacity - inputs.length) absent

theorem table_length {capacity : Nat} {inputs : List Input} (fits : inputs.length ≤ capacity) :
    (table hash absent capacity inputs).length = capacity := by
  simp only [table, List.length_append, List.length_map, List.length_replicate]
  omega

theorem table_present {capacity : Nat} {inputs : List Input} {index : Nat}
    (present : index < inputs.length)
    (bound : index < (table hash absent capacity inputs).length) :
    (table hash absent capacity inputs)[index] = hash inputs[index] := by
  simp only [table]
  rw [List.getElem_append_left (by simpa using present), List.getElem_map]

theorem table_absent {capacity : Nat} {inputs : List Input} {index : Nat}
    (past : inputs.length ≤ index)
    (bound : index < (table hash absent capacity inputs).length) :
    (table hash absent capacity inputs)[index] = absent := by
  simp only [table]
  rw [List.getElem_append_right (by simpa using past), List.getElem_replicate]

theorem table_snoc {capacity : Nat} {inputs : List Input} (room : inputs.length < capacity)
    (input : Input) :
    (table hash absent capacity inputs).set inputs.length (hash input) =
      table hash absent capacity (inputs ++ [input]) := by
  obtain ⟨rest, count⟩ : ∃ rest, capacity - inputs.length = rest + 1 :=
    ⟨capacity - inputs.length - 1, by omega⟩
  have left : capacity - (inputs ++ [input]).length = rest := by
    rw [List.length_append, List.length_singleton]
    omega
  rw [table, table, left, count, List.replicate_succ,
    List.set_append_right _ _ (by simp)]
  simp

variable {hash absent} {inputs : Set Input}

theorem map_binding (binding : Binding hash absent inputs) {left right : List Input}
    (leftIn : ∀ input ∈ left, input ∈ inputs) (rightIn : ∀ input ∈ right, input ∈ inputs)
    (same : left.map hash = right.map hash) : left = right := by
  induction left generalizing right with
  | nil => simpa using same.symm
  | cons head tail ih =>
      cases right with
      | nil => simp at same
      | cons other rest =>
          simp only [List.map_cons, List.cons.injEq] at same
          have heads := binding.injective (leftIn head (by simp)) (rightIn other (by simp)) same.1
          have tails := ih (fun input member => leftIn input (by simp [member]))
            (fun input member => rightIn input (by simp [member])) same.2
          rw [heads, tails]

/-- Equal tables have equally many used places: a longer list would put a
digest where the other table has the mark. -/
theorem table_same_length (binding : Binding hash absent inputs) {capacity : Nat}
    {left right : List Input} (leftFits : left.length ≤ capacity)
    (leftIn : ∀ input ∈ left, input ∈ inputs)
    (same : table hash absent capacity left = table hash absent capacity right) :
    left.length ≤ right.length := by
  by_contra longer
  have shorter : right.length < left.length := by omega
  have leftBound : right.length < (table hash absent capacity left).length := by
    rw [table_length hash absent leftFits]
    omega
  have used := table_present hash absent shorter leftBound
  have unused := table_absent hash absent (Nat.le_refl _) (same ▸ leftBound)
  have equal : hash left[right.length] = absent :=
    used.symm.trans ((List.getElem_of_eq same leftBound).trans unused)
  exact binding.present _ (leftIn _ (List.getElem_mem shorter)) equal

theorem table_binding (binding : Binding hash absent inputs) {capacity : Nat}
    {left right : List Input} (leftFits : left.length ≤ capacity)
    (rightFits : right.length ≤ capacity)
    (leftIn : ∀ input ∈ left, input ∈ inputs) (rightIn : ∀ input ∈ right, input ∈ inputs)
    (same : table hash absent capacity left = table hash absent capacity right) :
    left = right := by
  have lengths : left.length = right.length :=
    Nat.le_antisymm (table_same_length binding leftFits leftIn same)
      (table_same_length binding rightFits rightIn same.symm)
  apply map_binding binding leftIn rightIn
  exact (List.append_inj same (by simpa using lengths)).1

section Chain

variable (hash absent) (header : Node → Digest → Input)

def chainDigest : List Node → Digest
  | [] => absent
  | node :: rest => hash (header node (chainDigest rest))

def chainHeaders : List Node → List Input
  | [] => []
  | node :: rest => header node (chainDigest hash absent header rest) :: chainHeaders rest

variable {hash absent header}

/-- Equal heads have equal chains. The step opens one pair of equal headers;
a chain that ends earlier would need a header that hashes to the mark. -/
theorem chain_binding (binding : Binding hash absent inputs) {left right : List Node}
    (leftIn : ∀ input ∈ chainHeaders hash absent header left, input ∈ inputs)
    (rightIn : ∀ input ∈ chainHeaders hash absent header right, input ∈ inputs)
    (opens : ∀ node ∈ left, ∀ other ∈ right, ∀ next after,
      header node next = header other after → node = other ∧ next = after)
    (same : chainDigest hash absent header left = chainDigest hash absent header right) :
    left = right := by
  induction left generalizing right with
  | nil =>
      cases right with
      | nil => rfl
      | cons other rest =>
          exact absurd same.symm (binding.present _ (rightIn _ (by simp [chainHeaders])))
  | cons node rest ih =>
      cases right with
      | nil => exact absurd same (binding.present _ (leftIn _ (by simp [chainHeaders])))
      | cons other others =>
          have headers := binding.injective (leftIn _ (by simp [chainHeaders]))
            (rightIn _ (by simp [chainHeaders])) same
          obtain ⟨nodes, nexts⟩ := opens node (by simp) other (by simp) _ _ headers
          have tails := ih
            (fun input member => leftIn input (by simp [chainHeaders, member]))
            (fun input member => rightIn input (by simp [chainHeaders, member]))
            (fun node member other otherMember =>
              opens node (by simp [member]) other (by simp [otherMember])) nexts
          rw [nodes, tails]

end Chain

end DigestTree
