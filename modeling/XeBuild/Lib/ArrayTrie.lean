import Mathlib.Algebra.Group.Nat.Defs
import Mathlib.Data.List.GetD
import Mathlib.Data.List.Basic

/-!
# Binary tries in a table

A forest of binary tries that lies in a table of numbers. The first entries are
the roots. An entry holds a mark where nothing is stored yet, a symbol at a leaf,
and otherwise the number of a node, whose two children have the next entries
behind twice that number. Nodes are taken one after the other. A place of the
forest is its depth and its number among the places of that depth, so the
children of place `number` are `2 * number` and `2 * number + 1`.
-/

namespace ArrayTrie

set_option autoImplicit false

inductive Shape
  | absent
  | unused
  | node
  | symbol (value : Nat)
  deriving DecidableEq

/-- What the forest has at each place. -/
abbrev Trie := Nat → Nat → Shape

/-- The table holds the forest: `place` gives the entry of each place that is not absent. -/
structure Holds (roots mark base next : Nat) (table : List Nat) (trie : Trie)
    (place : Nat → Nat → Nat) : Prop where
  root : ∀ number < roots, trie 0 number ≠ .absent ∧ place 0 number = number
  rooted : ∀ number, trie 0 number ≠ .absent → number < roots
  parent : ∀ depth number, trie (depth + 1) number ≠ .absent → trie depth (number / 2) = .node
  child : ∀ depth number bit, trie depth number = .node → bit < 2 →
    trie (depth + 1) (2 * number + bit) ≠ .absent ∧
      place (depth + 1) (2 * number + bit) = 2 * table.getD (place depth number) 0 + bit
  unusedEntry : ∀ depth number, trie depth number = .unused →
    table.getD (place depth number) 0 = mark
  symbolEntry : ∀ depth number value, trie depth number = .symbol value →
    table.getD (place depth number) 0 = value
  nodeEntry : ∀ depth number, trie depth number = .node →
    base ≤ table.getD (place depth number) 0 ∧ table.getD (place depth number) 0 < next
  inside : ∀ depth number, trie depth number ≠ .absent → place depth number < 2 * next
  apart : ∀ depth number depth' number', trie depth number ≠ .absent →
    trie depth' number' ≠ .absent → place depth number = place depth' number' →
    depth = depth' ∧ number = number'
  room : 2 * next ≤ table.length

section Entries

variable {table : List Nat} {index other value fallback : Nat}

theorem get_d_set_self (inside : index < table.length) :
    (table.set index value).getD index fallback = value := by
  rw [List.getD_eq_getElem?_getD, List.getElem?_set_self inside, Option.getD_some]

theorem get_d_set_ne (apart : index ≠ other) :
    (table.set index value).getD other fallback = table.getD other fallback := by
  rw [List.getD_eq_getElem?_getD, List.getElem?_set_ne apart, ← List.getD_eq_getElem?_getD]

end Entries

/-! ## A new node -/

def splitTrie (trie : Trie) (depth number : Nat) : Trie := fun depth' number' =>
  if depth' = depth ∧ number' = number then .node
  else if depth' = depth + 1 ∧ number' / 2 = number then .unused
  else trie depth' number'

def splitPlace (place : Nat → Nat → Nat) (next depth number : Nat) : Nat → Nat → Nat :=
  fun depth' number' =>
    if depth' = depth + 1 ∧ number' / 2 = number then 2 * next + number' % 2
    else place depth' number'

def splitTable (table : List Nat) (mark next cell : Nat) : List Nat :=
  ((table.set (2 * next) mark).set (2 * next + 1) mark).set cell next

section Split

variable {roots mark base next depth number : Nat} {table : List Nat} {trie : Trie}
  {place : Nat → Nat → Nat}

theorem split_trie_here : splitTrie trie depth number depth number = .node :=
  if_pos ⟨rfl, rfl⟩

theorem split_trie_child {bit : Nat} (small : bit < 2) :
    splitTrie trie depth number (depth + 1) (2 * number + bit) = .unused := by
  rw [splitTrie, if_neg (by omega), if_pos (by omega)]

theorem split_trie_other {depth' number' : Nat} (here : ¬ (depth' = depth ∧ number' = number))
    (child : ¬ (depth' = depth + 1 ∧ number' / 2 = number)) :
    splitTrie trie depth number depth' number' = trie depth' number' := by
  rw [splitTrie, if_neg here, if_neg child]

theorem split_table_length (cell : Nat) :
    (splitTable table mark next cell).length = table.length := by
  simp [splitTable]

theorem split_table_cell {cell : Nat} (inside : cell < table.length) :
    (splitTable table mark next cell).getD cell 0 = next :=
  get_d_set_self (by simpa using inside)

theorem split_table_child {cell bit : Nat} (old : cell < 2 * next)
    (space : 2 * (next + 1) ≤ table.length) (small : bit < 2) :
    (splitTable table mark next cell).getD (2 * next + bit) 0 = mark := by
  have digit : bit = 0 ∨ bit = 1 := by omega
  rw [splitTable, get_d_set_ne (by omega)]
  rcases digit with rfl | rfl
  · rw [get_d_set_ne (by omega), Nat.add_zero, get_d_set_self (by omega)]
  · rw [get_d_set_self (by rw [List.length_set]; omega)]

theorem split_table_other {cell other : Nat} (apart : other ≠ cell) (old : other < 2 * next) :
    (splitTable table mark next cell).getD other 0 = table.getD other 0 := by
  rw [splitTable, get_d_set_ne (Ne.symm apart), get_d_set_ne (by omega), get_d_set_ne (by omega)]

theorem child_absent (holds : Holds roots mark base next table trie place)
    (leaf : trie depth number ≠ .node) {number' : Nat} (below : number' / 2 = number) :
    trie (depth + 1) number' = .absent := by
  by_contra present
  have above := holds.parent depth number' present
  rw [below] at above
  exact leaf above

/-- A place of the new forest is the new node, one of its children, or one it had. -/
inductive SplitAt (trie : Trie) (depth number : Nat) : Nat → Nat → Prop
  | here : SplitAt trie depth number depth number
  | child {bit : Nat} (small : bit < 2) : SplitAt trie depth number (depth + 1) (2 * number + bit)
  | kept {depth' number' : Nat} (there : trie depth' number' ≠ .absent)
      (other : ¬ (depth' = depth ∧ number' = number)) : SplitAt trie depth number depth' number'

theorem split_at_of_present {depth' number' : Nat}
    (there : splitTrie trie depth number depth' number' ≠ .absent) :
    SplitAt trie depth number depth' number' := by
  by_cases here : depth' = depth ∧ number' = number
  · rcases here with ⟨rfl, rfl⟩
    exact .here
  · by_cases child : depth' = depth + 1 ∧ number' / 2 = number
    · rcases child with ⟨rfl, rfl⟩
      have digits : number' = 2 * (number' / 2) + number' % 2 := by omega
      have placed : SplitAt trie depth (number' / 2) (depth + 1) (2 * (number' / 2) + number' % 2) :=
        .child (by omega)
      rwa [← digits] at placed
    · rw [split_trie_other here child] at there
      exact .kept there here

theorem split_place_child {bit : Nat} (small : bit < 2) :
    splitPlace place next depth number (depth + 1) (2 * number + bit) = 2 * next + bit := by
  rw [splitPlace, if_pos (by omega)]
  omega

theorem present_of_eq {shape : Shape} (same : trie depth number = shape)
    (present : shape ≠ .absent) : trie depth number ≠ .absent := by
  rw [same]
  exact present

section Kept

variable {depth' number' bit : Nat}

theorem split_trie_kept (holds : Holds roots mark base next table trie place)
    (free : trie depth number = .unused) (there : trie depth' number' ≠ .absent)
    (other : ¬ (depth' = depth ∧ number' = number)) :
    splitTrie trie depth number depth' number' = trie depth' number' := by
  apply split_trie_other other
  rintro ⟨rfl, below⟩
  exact there (child_absent holds (by rw [free]; simp) below)

theorem split_place_kept (holds : Holds roots mark base next table trie place)
    (free : trie depth number = .unused) (there : trie depth' number' ≠ .absent) :
    splitPlace place next depth number depth' number' = place depth' number' := by
  rw [splitPlace, if_neg]
  rintro ⟨rfl, below⟩
  exact there (child_absent holds (by rw [free]; simp) below)

theorem split_place_here (holds : Holds roots mark base next table trie place)
    (free : trie depth number = .unused) :
    splitPlace place next depth number depth number = place depth number :=
  split_place_kept holds free (present_of_eq free (by simp))

theorem split_entry_kept (holds : Holds roots mark base next table trie place)
    (free : trie depth number = .unused) (there : trie depth' number' ≠ .absent)
    (other : ¬ (depth' = depth ∧ number' = number)) :
    (splitTable table mark next (place depth number)).getD
        (splitPlace place next depth number depth' number') 0 =
      table.getD (place depth' number') 0 := by
  rw [split_place_kept holds free there]
  apply split_table_other
  · intro same
    exact other (holds.apart _ _ _ _ there (present_of_eq free (by simp)) same)
  · exact holds.inside _ _ there

theorem split_entry_here (holds : Holds roots mark base next table trie place)
    (free : trie depth number = .unused) :
    (splitTable table mark next (place depth number)).getD
      (splitPlace place next depth number depth number) 0 = next := by
  have old := holds.inside _ _ (present_of_eq free (by simp))
  have room := holds.room
  rw [split_place_here holds free, split_table_cell (by omega)]

theorem split_entry_child (holds : Holds roots mark base next table trie place)
    (free : trie depth number = .unused) (space : 2 * (next + 1) ≤ table.length)
    (small : bit < 2) :
    (splitTable table mark next (place depth number)).getD
      (splitPlace place next depth number (depth + 1) (2 * number + bit)) 0 = mark := by
  rw [split_place_child small]
  exact split_table_child (holds.inside _ _ (present_of_eq free (by simp))) space small

theorem split_present (holds : Holds roots mark base next table trie place)
    (free : trie depth number = .unused) (there : trie depth' number' ≠ .absent) :
    splitTrie trie depth number depth' number' ≠ .absent := by
  by_cases here : depth' = depth ∧ number' = number
  · rw [splitTrie, if_pos here]
    simp
  · rw [split_trie_kept holds free there here]
    exact there

theorem split_node (holds : Holds roots mark base next table trie place)
    (free : trie depth number = .unused) (isNode : trie depth' number' = .node) :
    splitTrie trie depth number depth' number' = .node := by
  have other : ¬ (depth' = depth ∧ number' = number) := by
    rintro ⟨rfl, rfl⟩
    rw [free] at isNode
    cases isNode
  rw [split_trie_kept holds free (present_of_eq isNode (by simp)) other, isNode]

theorem split_parent (holds : Holds roots mark base next table trie place)
    (free : trie depth number = .unused)
    (there : splitTrie trie depth number (depth' + 1) number' ≠ .absent) :
    splitTrie trie depth number depth' (number' / 2) = .node := by
  cases split_at_of_present there with
  | here => exact split_node holds free (holds.parent _ _ (present_of_eq free (by simp)))
  | @child bit small =>
      have half : (2 * number + bit) / 2 = number := by omega
      rw [half]
      exact split_trie_here
  | kept was _ => exact split_node holds free (holds.parent _ _ was)

theorem split_child (holds : Holds roots mark base next table trie place)
    (free : trie depth number = .unused)
    (isNode : splitTrie trie depth number depth' number' = .node) (small : bit < 2) :
    splitTrie trie depth number (depth' + 1) (2 * number' + bit) ≠ .absent ∧
      splitPlace place next depth number (depth' + 1) (2 * number' + bit) =
        2 * (splitTable table mark next (place depth number)).getD
          (splitPlace place next depth number depth' number') 0 + bit := by
  cases split_at_of_present (present_of_eq isNode (by simp)) with
  | here =>
      rw [split_trie_child small, split_place_child small, split_entry_here holds free]
      exact ⟨by simp, rfl⟩
  | child small' =>
      rw [split_trie_child small'] at isNode
      cases isNode
  | kept was other =>
      rw [split_trie_kept holds free was other] at isNode
      have down := holds.child _ _ bit isNode small
      rw [split_entry_kept holds free was other, split_place_kept holds free down.1]
      exact ⟨split_present holds free down.1, down.2⟩

theorem split_inside (holds : Holds roots mark base next table trie place)
    (free : trie depth number = .unused)
    (there : splitTrie trie depth number depth' number' ≠ .absent) :
    splitPlace place next depth number depth' number' < 2 * (next + 1) := by
  cases split_at_of_present there with
  | here =>
      have old := holds.inside _ _ (present_of_eq free (by simp))
      rw [split_place_here holds free]
      omega
  | child small =>
      rw [split_place_child small]
      omega
  | kept was _ =>
      have old := holds.inside _ _ was
      rw [split_place_kept holds free was]
      omega

/-- The children have the entries behind all others. -/
theorem split_apart (holds : Holds roots mark base next table trie place)
    (free : trie depth number = .unused) {depth₁ number₁ : Nat}
    (there : splitTrie trie depth number depth' number' ≠ .absent)
    (there₁ : splitTrie trie depth number depth₁ number₁ ≠ .absent)
    (same : splitPlace place next depth number depth' number' =
      splitPlace place next depth number depth₁ number₁) :
    depth' = depth₁ ∧ number' = number₁ := by
  have kept_apart {depth₂ number₂ depth₃ number₃ : Nat} (was : trie depth₂ number₂ ≠ .absent)
      (was' : trie depth₃ number₃ ≠ .absent)
      (same : splitPlace place next depth number depth₂ number₂ =
        splitPlace place next depth number depth₃ number₃) :
      depth₂ = depth₃ ∧ number₂ = number₃ := by
    rw [split_place_kept holds free was, split_place_kept holds free was'] at same
    exact holds.apart _ _ _ _ was was' same
  have present : trie depth number ≠ .absent := present_of_eq free (by simp)
  have child_apart {depth₂ number₂ bit : Nat} (small : bit < 2)
      (was : trie depth₂ number₂ ≠ .absent) :
      splitPlace place next depth number depth₂ number₂ ≠
        splitPlace place next depth number (depth + 1) (2 * number + bit) := by
    have old := holds.inside _ _ was
    rw [split_place_kept holds free was, split_place_child small]
    omega
  cases split_at_of_present there with
  | here =>
      cases split_at_of_present there₁ with
      | here => exact ⟨rfl, rfl⟩
      | child small => exact absurd same (child_apart small present)
      | kept was _ => exact kept_apart present was same
  | child small =>
      cases split_at_of_present there₁ with
      | here => exact absurd same.symm (child_apart small present)
      | child small₁ =>
          rw [split_place_child small, split_place_child small₁] at same
          omega
      | kept was _ => exact absurd same.symm (child_apart small was)
  | kept was _ =>
      cases split_at_of_present there₁ with
      | here => exact kept_apart was present same
      | child small => exact absurd same (child_apart small was)
      | kept was₁ _ => exact kept_apart was was₁ same

end Kept

theorem holds_split (holds : Holds roots mark base next table trie place)
    (free : trie depth number = .unused) (space : 2 * (next + 1) ≤ table.length)
    (above : base ≤ next) :
    Holds roots mark base (next + 1) (splitTable table mark next (place depth number))
      (splitTrie trie depth number) (splitPlace place next depth number) where
  root number' small := by
    have was := holds.root number' small
    exact ⟨split_present holds free was.1, (split_place_kept holds free was.1).trans was.2⟩
  rooted number' there := by
    cases split_at_of_present there with
    | here => exact holds.rooted _ (present_of_eq free (by simp))
    | kept was _ => exact holds.rooted _ was
  parent _ _ there := split_parent holds free there
  child _ _ _ isNode small := split_child holds free isNode small
  unusedEntry depth' number' unused := by
    cases split_at_of_present (present_of_eq unused (by simp)) with
    | here =>
        rw [split_trie_here] at unused
        cases unused
    | child small => exact split_entry_child holds free space small
    | kept was other =>
        rw [split_trie_kept holds free was other] at unused
        rw [split_entry_kept holds free was other]
        exact holds.unusedEntry _ _ unused
  symbolEntry depth' number' value leaf := by
    cases split_at_of_present (present_of_eq leaf (by simp)) with
    | here =>
        rw [split_trie_here] at leaf
        cases leaf
    | child small =>
        rw [split_trie_child small] at leaf
        cases leaf
    | kept was other =>
        rw [split_trie_kept holds free was other] at leaf
        rw [split_entry_kept holds free was other]
        exact holds.symbolEntry _ _ _ leaf
  nodeEntry depth' number' isNode := by
    cases split_at_of_present (present_of_eq isNode (by simp)) with
    | here =>
        rw [split_entry_here holds free]
        omega
    | child small =>
        rw [split_trie_child small] at isNode
        cases isNode
    | kept was other =>
        rw [split_trie_kept holds free was other] at isNode
        have entry := holds.nodeEntry _ _ isNode
        rw [split_entry_kept holds free was other]
        omega
  inside _ _ there := split_inside holds free there
  apart _ _ _ _ there there' same := split_apart holds free there there' same
  room := by
    rw [split_table_length]
    exact space

end Split

/-! ## A symbol -/

def settleTrie (trie : Trie) (depth number value : Nat) : Trie := fun depth' number' =>
  if depth' = depth ∧ number' = number then .symbol value else trie depth' number'

section Settle

variable {roots mark base next depth number value : Nat} {table : List Nat} {trie : Trie}
  {place : Nat → Nat → Nat}

theorem settle_trie_here : settleTrie trie depth number value depth number = .symbol value :=
  if_pos ⟨rfl, rfl⟩

theorem settle_trie_other {depth' number' : Nat} (other : ¬ (depth' = depth ∧ number' = number)) :
    settleTrie trie depth number value depth' number' = trie depth' number' := if_neg other

section Place

variable {depth' number' : Nat}

theorem settle_present_iff (free : trie depth number = .unused) :
    settleTrie trie depth number value depth' number' ≠ .absent ↔ trie depth' number' ≠ .absent := by
  by_cases here : depth' = depth ∧ number' = number
  · rcases here with ⟨rfl, rfl⟩
    rw [settle_trie_here]
    simp [free]
  · rw [settle_trie_other here]

theorem settle_node_iff (free : trie depth number = .unused) :
    settleTrie trie depth number value depth' number' = .node ↔ trie depth' number' = .node := by
  by_cases here : depth' = depth ∧ number' = number
  · rcases here with ⟨rfl, rfl⟩
    rw [settle_trie_here]
    simp [free]
  · rw [settle_trie_other here]

theorem settle_entry_other (holds : Holds roots mark base next table trie place)
    (free : trie depth number = .unused) (there : trie depth' number' ≠ .absent)
    (other : ¬ (depth' = depth ∧ number' = number)) :
    (table.set (place depth number) value).getD (place depth' number') 0 =
      table.getD (place depth' number') 0 := by
  apply get_d_set_ne
  intro same
  exact other (holds.apart _ _ _ _ there (present_of_eq free (by simp)) same.symm)

theorem settle_entry_node (holds : Holds roots mark base next table trie place)
    (free : trie depth number = .unused) (isNode : trie depth' number' = .node) :
    (table.set (place depth number) value).getD (place depth' number') 0 =
      table.getD (place depth' number') 0 := by
  apply settle_entry_other holds free (present_of_eq isNode (by simp))
  rintro ⟨rfl, rfl⟩
  rw [free] at isNode
  cases isNode

end Place

theorem holds_settle (holds : Holds roots mark base next table trie place)
    (free : trie depth number = .unused) :
    Holds roots mark base next (table.set (place depth number) value)
      (settleTrie trie depth number value) place where
  root number' small :=
    ⟨(settle_present_iff free).mpr (holds.root number' small).1, (holds.root number' small).2⟩
  rooted _ there := holds.rooted _ ((settle_present_iff free).mp there)
  parent _ _ there := (settle_node_iff free).mpr (holds.parent _ _ ((settle_present_iff free).mp there))
  child depth' number' bit isNode small := by
    have was := (settle_node_iff free).mp isNode
    have down := holds.child _ _ bit was small
    rw [settle_entry_node holds free was]
    exact ⟨(settle_present_iff free).mpr down.1, down.2⟩
  unusedEntry depth' number' unused := by
    by_cases here : depth' = depth ∧ number' = number
    · rw [settleTrie, if_pos here] at unused
      cases unused
    · rw [settle_trie_other here] at unused
      rw [settle_entry_other holds free (present_of_eq unused (by simp)) here]
      exact holds.unusedEntry _ _ unused
  symbolEntry depth' number' value' leaf := by
    by_cases here : depth' = depth ∧ number' = number
    · rw [settleTrie, if_pos here] at leaf
      cases leaf
      have bound := holds.inside _ _ (present_of_eq free (by simp))
      have room := holds.room
      rw [here.1, here.2]
      exact get_d_set_self (by omega)
    · rw [settle_trie_other here] at leaf
      rw [settle_entry_other holds free (present_of_eq leaf (by simp)) here]
      exact holds.symbolEntry _ _ _ leaf
  nodeEntry depth' number' isNode := by
    have was := (settle_node_iff free).mp isNode
    rw [settle_entry_node holds free was]
    exact holds.nodeEntry _ _ was
  inside _ _ there := holds.inside _ _ ((settle_present_iff free).mp there)
  apart _ _ _ _ there there' same :=
    holds.apart _ _ _ _ ((settle_present_iff free).mp there) ((settle_present_iff free).mp there') same
  room := by
    rw [List.length_set]
    exact holds.room

end Settle

/-! ## The way of a number -/

/-- The place on the way of a number of `tail` bits below its root. -/
def onWay (tail number depth : Nat) : Nat := number / 2 ^ (tail - depth)

theorem on_way_zero (tail number : Nat) : onWay tail number 0 = number / 2 ^ tail := rfl

theorem on_way_succ {tail number depth : Nat} (above : depth < tail) :
    onWay tail number (depth + 1) =
      2 * onWay tail number depth + number / 2 ^ (tail - (depth + 1)) % 2 := by
  have split : tail - depth = tail - (depth + 1) + 1 := by omega
  rw [onWay, onWay, split, Nat.pow_succ, ← Nat.div_div_eq_div_mul]
  omega

end ArrayTrie
