import XeBuild.Mspack.DirectCodes
import Mathlib.Tactic.Ring

/-!
# The long part of a decode table

One long code after the other is put into the trie behind the direct entries.
The invariant: below the position, every number leads through nodes to the
symbol of its leaf; a place that lies wholly at or behind the position is not in use.
-/

namespace XeBuild.Mspack

open PrefixCodes ArrayTrie Runs

set_option autoImplicit false

/-- The numbers that the table decodes: an index and 16 more bits. -/
def lookAhead (nbits : Nat) : Nat := nbits + 16

/-- Every number below `pos` leads to the symbol of its leaf. -/
structure Filled (nbits : Nat) (leaves : List Leaf) (pos : Nat) (trie : Trie) : Prop where
  way : ∀ number < pos, ∃ leaf, locate (lookAhead nbits) leaves number = some leaf ∧
    (∀ depth < leaf.width - nbits, trie depth (onWay 16 number depth) = .node) ∧
    trie (leaf.width - nbits) (onWay 16 number (leaf.width - nbits)) = .symbol leaf.symbol
  behind : ∀ depth number value, depth ≤ 16 → trie depth number = .symbol value →
    (number + 1) * 2 ^ (16 - depth) ≤ pos
  shallow : ∀ leaf ∈ leaves, leaf.width ≤ nbits + 16

/-- Nothing is in use at or behind `pos`, but for the first `fill` nodes on its way. -/
def Ahead (pos fill : Nat) (trie : Trie) : Prop :=
  ∀ depth number, depth ≤ 16 → pos ≤ number * 2 ^ (16 - depth) →
    ¬ (depth < fill ∧ number = onWay 16 pos depth) →
    trie depth number = .absent ∨ trie depth number = .unused

theorem shift_one (value : Nat) : value <<< 1 = 2 * value := by
  rw [Nat.shiftLeft_eq, Nat.pow_one, Nat.mul_comm]

section Ways

variable {pos number depth other tail : Nat}

theorem on_way_le (number depth : Nat) : onWay 16 number depth * 2 ^ (16 - depth) ≤ number :=
  Nat.div_mul_le_self _ _

theorem on_way_lt (number depth : Nat) : number < (onWay 16 number depth + 1) * 2 ^ (16 - depth) := by
  rw [onWay, Nat.mul_comm]
  exact Nat.lt_mul_div_succ number (Nat.two_pow_pos _)

/-- A number lies in the block of another on its way, and on the way below they may part. -/
theorem on_way_eq (low : onWay 16 pos depth * 2 ^ (16 - depth) ≤ number)
    (high : number < (onWay 16 pos depth + 1) * 2 ^ (16 - depth)) :
    onWay 16 number depth = onWay 16 pos depth := by
  rw [onWay, Nat.div_eq_iff (Nat.two_pow_pos _)]
  rw [Nat.add_mul, Nat.one_mul] at high
  omega

theorem on_way_above (above : other ≤ depth) :
    onWay 16 number other = onWay 16 number depth / 2 ^ (depth - other) ∨ 16 < depth := by
  by_cases deep : 16 < depth
  · exact Or.inr deep
  · left
    have split : 16 - other = (16 - depth) + (depth - other) := by omega
    rw [onWay, onWay, split, Nat.pow_add, Nat.div_div_eq_div_mul]

theorem on_way_same_above (above : other ≤ depth) (inside : depth ≤ 16)
    (same : onWay 16 number depth = onWay 16 pos depth) :
    onWay 16 number other = onWay 16 pos other := by
  have first := (@on_way_above number depth other above).resolve_right (Nat.not_lt.mpr inside)
  have second := (@on_way_above pos depth other above).resolve_right (Nat.not_lt.mpr inside)
  rw [first, second, same]

/-- A place on the way starts at the number itself exactly when its block divides it. -/
theorem on_way_starts_iff : pos ≤ onWay 16 pos depth * 2 ^ (16 - depth) ↔ 2 ^ (16 - depth) ∣ pos := by
  have below := on_way_le pos depth
  constructor
  · intro starts
    exact ⟨onWay 16 pos depth, by rw [Nat.mul_comm]; omega⟩
  · intro divides
    rw [onWay, Nat.div_mul_cancel divides]

end Ways

section Descend

variable {nbits base next pos fill : Nat} {table : List Nat} {trie : Trie} {place : Nat → Nat → Nat}
  {leaves : List Leaf}

structure OnTheWay (nbits base pos : Nat) (leaves : List Leaf) (fill : Nat) (way : Way) (trie : Trie)
    (place : Nat → Nat → Nat) : Prop where
  holds : Holds (2 ^ nbits) unusedEntry base way.next_symbol way.table trie place
  filled : Filled nbits leaves pos trie
  ahead : Ahead pos fill trie
  nodes : ∀ depth < fill, trie depth (onWay 16 pos depth) = .node
  here : trie fill (onWay 16 pos fill) ≠ .absent
  leaf : way.leaf = place fill (onWay 16 pos fill)
  above : base ≤ way.next_symbol
  size : way.table.length ≤ unusedEntry

/-- On the way of the position there is a node exactly where an earlier number came along. -/
theorem node_or_unused {way : Way} (state : OnTheWay nbits base pos leaves fill way trie place)
    (inside : fill < 16) :
    (trie fill (onWay 16 pos fill) = .unused ∧ 2 ^ (16 - fill) ∣ pos) ∨
      (trie fill (onWay 16 pos fill) = .node ∧ ¬ 2 ^ (16 - fill) ∣ pos) := by
  have past := on_way_lt pos fill
  by_cases aligned : 2 ^ (16 - fill) ∣ pos
  · left
    refine ⟨?_, aligned⟩
    exact (state.ahead fill _ (by omega) (on_way_starts_iff.mpr aligned) (by omega)).resolve_left
      state.here
  · right
    refine ⟨?_, aligned⟩
    -- The number in front of the position lies in the same block.
    have earlier : onWay 16 pos fill * 2 ^ (16 - fill) < pos := by
      rw [← on_way_starts_iff] at aligned
      exact Nat.lt_of_not_le aligned
    have same : onWay 16 (pos - 1) fill = onWay 16 pos fill := on_way_eq (by omega) (by omega)
    rcases state.filled.way (pos - 1) (by omega) with ⟨leaf, located, nodes, symbol⟩
    have shallow : leaf.width - nbits ≤ 16 := by
      rcases locate_some_split located with ⟨front, back, shape, _⟩
      have bound := state.filled.shallow leaf (by rw [shape]; simp)
      omega
    by_cases deeper : fill < leaf.width - nbits
    · rw [← same]
      exact nodes fill deeper
    · exfalso
      have sameAbove := on_way_same_above (Nat.le_of_not_lt deeper) (Nat.le_of_lt inside) same
      rw [sameAbove] at symbol
      have before := state.filled.behind _ _ _ shallow symbol
      have reached := on_way_lt pos (leaf.width - nbits)
      omega

theorem filled_split (filled : Filled nbits leaves pos trie) {depth number : Nat}
    (free : trie depth number = .unused)
    (childless : ∀ number', number' / 2 = number → trie (depth + 1) number' = .absent) :
    Filled nbits leaves pos (splitTrie trie depth number) := by
  have kept {depth' number' : Nat} (notUnused : trie depth' number' ≠ .unused)
      (notAbsent : trie depth' number' ≠ .absent) :
      splitTrie trie depth number depth' number' = trie depth' number' := by
    apply split_trie_other
    · rintro ⟨rfl, rfl⟩
      exact notUnused free
    · rintro ⟨rfl, below⟩
      exact notAbsent (childless _ below)
  constructor
  · intro number' small
    rcases filled.way number' small with ⟨leaf, located, nodes, symbol⟩
    refine ⟨leaf, located, ?_, ?_⟩
    · intro depth' above
      have node := nodes depth' above
      rw [kept (by rw [node]; simp) (by rw [node]; simp), node]
    · rw [kept (by rw [symbol]; simp) (by rw [symbol]; simp), symbol]
  · intro depth' number' value inside symbol
    rw [splitTrie] at symbol
    split_ifs at symbol
    exact filled.behind _ _ _ inside symbol
  · exact filled.shallow

def needsNode (pos fill : Nat) : Nat := if 2 ^ (16 - fill) ∣ pos then 1 else 0

/-! ### What a step does to the table -/

section Table

variable {way : Way} {value : Nat}

/-- The leaf below an entry, by the next bit of the position. -/
def leafBelow (pos fill value : Nat) : Nat :=
  if (pos >>> (15 - fill)) &&& 1 ≠ 0 then value <<< 1 + 1 else value <<< 1

def Way.withNode (way : Way) : Way :=
  { way with
    table := splitTable way.table unusedEntry way.next_symbol way.leaf
    next_symbol := way.next_symbol + 1 }

theorem descend_old_way (load : loadEntry way.table way.leaf = .ok value)
    (known : value ≠ unusedEntry) :
    descend pos way fill = .ok { way with leaf := leafBelow pos fill value } := by
  rw [descend, load, ok_bind, if_neg known, pure_bind]
  dsimp only
  rw [load, ok_bind]
  rfl

theorem descend_new_way (load : loadEntry way.table way.leaf = .ok unusedEntry)
    (cell : way.leaf < way.table.length) (space : 2 * (way.next_symbol + 1) ≤ way.table.length) :
    descend pos way fill =
      .ok { way.withNode with leaf := leafBelow pos fill way.next_symbol } := by
  have first : storeEntry way.table (way.next_symbol <<< 1) unusedEntry =
      .ok (way.table.set (2 * way.next_symbol) unusedEntry) := by
    rw [shift_one, store_entry_inside (by omega)]
  have second : storeEntry (way.table.set (2 * way.next_symbol) unusedEntry)
      (way.next_symbol <<< 1 + 1) unusedEntry = .ok ((way.table.set (2 * way.next_symbol)
        unusedEntry).set (2 * way.next_symbol + 1) unusedEntry) := by
    rw [shift_one, store_entry_inside]
    rw [List.length_set]
    omega
  have third : storeEntry ((way.table.set (2 * way.next_symbol) unusedEntry).set
      (2 * way.next_symbol + 1) unusedEntry) way.leaf way.next_symbol = .ok way.withNode.table := by
    rw [store_entry_inside]
    · rfl
    · rw [List.length_set, List.length_set]
      exact cell
  have again : loadEntry way.withNode.table way.leaf = .ok way.next_symbol := by
    have size : way.withNode.table.length = way.table.length := split_table_length _
    rw [load_entry_inside (by omega)]
    exact congrArg Except.ok (split_table_cell cell)
  rw [descend, load, ok_bind, if_pos rfl, first, ok_bind, second, ok_bind, third, ok_bind, pure_bind]
  dsimp only
  rw [again, ok_bind]
  rfl

end Table

/-! ### What it does to the trie -/

section Step

variable {way : Way}

theorem load_on_way (state : OnTheWay nbits base pos leaves fill way trie place) :
    loadEntry way.table way.leaf = .ok (way.table.getD (place fill (onWay 16 pos fill)) 0) := by
  have bound := state.holds.inside _ _ state.here
  have room := state.holds.room
  rw [state.leaf]
  exact load_entry_inside (by omega)

theorem child_of_node (holds : Holds (2 ^ nbits) unusedEntry base way.next_symbol
      way.table trie place) (inside : fill < 16) (node : trie fill (onWay 16 pos fill) = .node) :
    trie (fill + 1) (onWay 16 pos (fill + 1)) ≠ .absent ∧
      leafBelow pos fill (way.table.getD (place fill (onWay 16 pos fill)) 0) =
        place (fill + 1) (onWay 16 pos (fill + 1)) := by
  have bits : 16 - (fill + 1) = 15 - fill := by omega
  have down := holds.child _ _ (pos / 2 ^ (15 - fill) % 2) node (Nat.mod_lt _ (by decide))
  rw [on_way_succ inside, bits, down.2, leafBelow, Nat.shiftRight_eq_div_pow, Nat.and_one_is_mod,
    shift_one]
  refine ⟨down.1, ?_⟩
  rcases Nat.mod_two_eq_zero_or_one (pos / 2 ^ (15 - fill)) with even | odd
  · rw [even, if_neg (by decide), Nat.add_zero]
  · rw [odd, if_pos (by decide)]

theorem ahead_split (ahead : Ahead pos fill trie) :
    Ahead pos (fill + 1) (splitTrie trie fill (onWay 16 pos fill)) := by
  intro depth number deep start apart
  by_cases this : depth = fill ∧ number = onWay 16 pos fill
  · exact absurd ⟨by omega, by rw [this.1, this.2]⟩ apart
  · rw [splitTrie, if_neg this]
    split_ifs
    · exact Or.inr rfl
    · exact ahead depth number deep start (fun both => apart ⟨by omega, both.2⟩)

theorem ahead_mono (ahead : Ahead pos fill trie) : Ahead pos (fill + 1) trie :=
  fun depth number deep start apart =>
    ahead depth number deep start (fun both => apart ⟨by omega, both.2⟩)

/-- The step on a way that nothing took before. -/
theorem descend_new (state : OnTheWay nbits base pos leaves fill way trie place)
    (inside : fill < 16) (unused : trie fill (onWay 16 pos fill) = .unused)
    (space : 2 * (way.next_symbol + 1) ≤ way.table.length) :
    descend pos way fill =
        .ok { way.withNode with leaf := leafBelow pos fill way.next_symbol } ∧
      OnTheWay nbits base pos leaves (fill + 1)
        { way.withNode with leaf := leafBelow pos fill way.next_symbol }
        (splitTrie trie fill (onWay 16 pos fill))
        (splitPlace place way.next_symbol fill (onWay 16 pos fill)) := by
  have old := state.holds.inside _ _ state.here
  have room := state.holds.room
  have size := state.size
  have cell : way.leaf < way.table.length := by
    rw [state.leaf]
    omega
  have load := load_on_way state
  rw [state.holds.unusedEntry _ _ unused] at load
  have split := holds_split state.holds unused space state.above
  rw [← state.leaf] at split
  have child := @child_of_node _ _ pos fill _ _ way.withNode split inside split_trie_here
  have entry : way.withNode.table.getD
      (splitPlace place way.next_symbol fill (onWay 16 pos fill) fill (onWay 16 pos fill)) 0 =
      way.next_symbol := by
    rw [split_place_here state.holds unused, ← state.leaf]
    exact split_table_cell cell
  have tableSize : way.withNode.table.length = way.table.length := split_table_length _
  rw [entry] at child
  refine ⟨descend_new_way load cell space, split, ?_, ahead_split state.ahead, ?_, child.1,
    child.2, Nat.le_succ_of_le state.above, ?_⟩
  · apply filled_split state.filled unused
    intro number' below
    exact child_absent state.holds (by rw [unused]; simp) below
  · intro depth above
    by_cases last : depth = fill
    · rw [last]
      exact split_trie_here
    · exact split_node state.holds unused (state.nodes depth (by omega))
  · show way.withNode.table.length ≤ unusedEntry
    omega

/-- The step on a way that an earlier number took. -/
theorem descend_old (state : OnTheWay nbits base pos leaves fill way trie place)
    (inside : fill < 16) (node : trie fill (onWay 16 pos fill) = .node) :
    ∃ leaf, descend pos way fill = .ok { way with leaf := leaf } ∧
      OnTheWay nbits base pos leaves (fill + 1) { way with leaf := leaf } trie place := by
  have room := state.holds.room
  have size := state.size
  have entry := state.holds.nodeEntry _ _ node
  have known : way.table.getD (place fill (onWay 16 pos fill)) 0 ≠ unusedEntry := by
    have positive : 0 < unusedEntry := by decide
    omega
  have child := child_of_node state.holds inside node
  refine ⟨_, descend_old_way (load_on_way state) known, state.holds, state.filled,
    ahead_mono state.ahead, ?_, child.1, child.2, state.above, size⟩
  intro depth above
  by_cases last : depth = fill
  · rw [last, node]
  · exact state.nodes depth (by omega)

theorem descend_step (state : OnTheWay nbits base pos leaves fill way trie place)
    (inside : fill < 16) (space : 2 * (way.next_symbol + needsNode pos fill) ≤ way.table.length) :
    ∃ way' trie' place', descend pos way fill = .ok way' ∧
      OnTheWay nbits base pos leaves (fill + 1) way' trie' place' ∧
      way'.next_symbol = way.next_symbol + needsNode pos fill ∧
      way'.table.length = way.table.length := by
  rcases node_or_unused state inside with ⟨unused, aligned⟩ | ⟨node, notAligned⟩
  · have needs : needsNode pos fill = 1 := if_pos aligned
    rw [needs] at space ⊢
    have new := descend_new state inside unused space
    exact ⟨_, _, _, new.1, new.2, rfl, split_table_length _⟩
  · have needs : needsNode pos fill = 0 := if_neg notAligned
    rw [needs, Nat.add_zero]
    rcases descend_old state inside node with ⟨leaf, run, state'⟩
    exact ⟨_, trie, place, run, state', rfl, rfl⟩

theorem descend_outside (state : OnTheWay nbits base pos leaves fill way trie place)
    (inside : fill < 16) (full : way.table.length < 2 * (way.next_symbol + needsNode pos fill)) :
    ∃ index, descend pos way fill = .error (.outside index) := by
  have room := state.holds.room
  rcases node_or_unused state inside with ⟨unused, aligned⟩ | ⟨_, notAligned⟩
  · have needs : needsNode pos fill = 1 := if_pos aligned
    rw [needs] at full
    rw [descend, load_on_way state, ok_bind, state.holds.unusedEntry _ _ unused, if_pos rfl, shift_one]
    by_cases first : 2 * way.next_symbol < way.table.length
    · rw [store_entry_inside first, ok_bind, storeEntry, if_neg (by rw [List.length_set]; omega)]
      exact ⟨_, rfl⟩
    · rw [storeEntry, if_neg first]
      exact ⟨_, rfl⟩
  · rw [needsNode, if_neg notAligned] at full
    omega

end Step

end Descend

/-! ## One long code -/

section Code

variable {nbits base pos : Nat} {trie : Trie} {place : Nat → Nat → Nat} {leaves : List Leaf}

/-- The nodes that are new on the first `depth` bits of the way of a position. -/
def nodesOnWay (pos depth : Nat) : Nat := ((List.range depth).map (needsNode pos)).sum

theorem nodes_on_way_succ (pos depth : Nat) :
    nodesOnWay pos (depth + 1) = nodesOnWay pos depth + needsNode pos depth := by
  simp [nodesOnWay, List.range_succ]

theorem code_way {way : Way} (state : OnTheWay nbits base pos leaves 0 way trie place) {depth : Nat}
    (inside : depth ≤ 16) :
    (2 * (way.next_symbol + nodesOnWay pos depth) ≤ way.table.length ∧ ∃ way' trie' place',
        (List.range depth).foldlM (descend pos) way = .ok way' ∧
        OnTheWay nbits base pos leaves depth way' trie' place' ∧
        way'.next_symbol = way.next_symbol + nodesOnWay pos depth ∧
        way'.table.length = way.table.length) ∨
      (way.table.length < 2 * (way.next_symbol + nodesOnWay pos depth) ∧ ∃ index,
        (List.range depth).foldlM (descend pos) way = .error (.outside index)) := by
  induction depth with
  | zero => exact Or.inl ⟨state.holds.room, way, trie, place, rfl, state, rfl, rfl⟩
  | succ depth ih =>
      rw [List.range_succ, List.foldlM_append, nodes_on_way_succ]
      rcases ih (by omega) with ⟨room, way₁, trie₁, place₁, run, state₁, taken, size⟩ |
        ⟨full, index, run⟩
      · rw [run, ok_bind, List.foldlM_cons]
        by_cases space : 2 * (way₁.next_symbol + needsNode pos depth) ≤ way₁.table.length
        · rcases descend_step state₁ (by omega) space with
            ⟨way₂, trie₂, place₂, step, state₂, taken₂, size₂⟩
          refine Or.inl ⟨by omega, way₂, trie₂, place₂, ?_, state₂, by omega, by omega⟩
          rw [step, ok_bind]
          rfl
        · rcases descend_outside state₁ (by omega) (by omega) with ⟨index, step⟩
          refine Or.inr ⟨by omega, index, ?_⟩
          rw [step]
          rfl
      · refine Or.inr ⟨by omega, index, ?_⟩
        rw [run]
        rfl

def longLeaf (nbits : Nat) (state : Long) (leaf : Leaf) : Except TableStop Long :=
  if state.pos ≥ 2 ^ lookAhead nbits then .error .unusable
  else do
    let way ← (List.range (leaf.width - nbits)).foldlM (descend state.pos)
      ⟨state.table, state.next_symbol, state.pos >>> 16⟩
    let table ← storeEntry way.table way.leaf leaf.symbol
    return ⟨table, way.next_symbol, state.pos + leaf.size (lookAhead nbits)⟩

structure Reached (nbits base : Nat) (leaves : List Leaf) (state : Long) (trie : Trie)
    (place : Nat → Nat → Nat) : Prop where
  holds : Holds (2 ^ nbits) unusedEntry base state.next_symbol state.table trie place
  filled : Filled nbits leaves state.pos trie
  ahead : Ahead state.pos 0 trie
  pos : state.pos = total (lookAhead nbits) leaves
  above : base ≤ state.next_symbol
  size : state.table.length ≤ unusedEntry

section Leaf

variable {state : Long} {leaf : Leaf}

theorem reached_on_the_way (reached : Reached nbits base leaves state trie place)
    (inside : state.pos < 2 ^ lookAhead nbits) :
    OnTheWay nbits base state.pos leaves 0
      ⟨state.table, state.next_symbol, state.pos >>> 16⟩ trie place := by
  have root : onWay 16 state.pos 0 < 2 ^ nbits := by
    rw [on_way_zero, Nat.div_lt_iff_lt_mul (Nat.two_pow_pos _), ← Nat.pow_add]
    exact inside
  have there := reached.holds.root _ root
  refine ⟨reached.holds, reached.filled, reached.ahead, fun depth above => absurd above (by omega),
    there.1, ?_, reached.above, reached.size⟩
  rw [there.2, on_way_zero, Nat.shiftRight_eq_div_pow]

theorem filled_settle {depth : Nat} {way : Way} (deep : depth ≤ 16)
    (state : OnTheWay nbits base pos leaves depth way trie place)
    (aligned : 2 ^ (16 - depth) ∣ pos) (start : pos = total (lookAhead nbits) leaves)
    (width : leaf.width = nbits + depth) (free : trie depth (onWay 16 pos depth) = .unused) :
    Filled nbits (leaves ++ [leaf]) (pos + leaf.size (lookAhead nbits))
      (settleTrie trie depth (onWay 16 pos depth) leaf.symbol) := by
  have size : leaf.size (lookAhead nbits) = 2 ^ (16 - depth) := by
    rw [Leaf.size, width, lookAhead]
    congr 1
    omega
  have block : onWay 16 pos depth * 2 ^ (16 - depth) = pos := Nat.div_mul_cancel aligned
  have kept {depth' number' : Nat} (used : trie depth' number' ≠ .unused) :
      settleTrie trie depth (onWay 16 pos depth) leaf.symbol depth' number' = trie depth' number' := by
    apply settle_trie_other
    rintro ⟨rfl, rfl⟩
    exact used free
  have below : leaf.width - nbits = depth := by omega
  constructor
  · intro number small
    by_cases old : number < pos
    · rcases state.filled.way number old with ⟨found, located, nodes, symbol⟩
      refine ⟨found, ?_, ?_, ?_⟩
      · rw [locate_append_left (by omega), located]
      · intro depth' above
        rw [kept (by rw [nodes depth' above]; simp), nodes depth' above]
      · rw [kept (by rw [symbol]; simp), symbol]
    · have same : onWay 16 number depth = onWay 16 pos depth := by
        apply on_way_eq
        · omega
        · rw [Nat.add_mul, Nat.one_mul]
          omega
      refine ⟨leaf, locate_between (by omega) (by omega), ?_, ?_⟩
      · intro depth' above
        rw [below] at above
        have node := state.nodes depth' above
        rw [on_way_same_above (Nat.le_of_lt above) deep same, kept (by rw [node]; simp), node]
      · rw [below, same]
        exact settle_trie_here
  · intro depth' number' value inside symbol
    by_cases here : depth' = depth ∧ number' = onWay 16 pos depth
    · rw [here.1, here.2, Nat.add_mul, Nat.one_mul]
      omega
    · rw [settle_trie_other here] at symbol
      have before := state.filled.behind _ _ _ inside symbol
      omega
  · intro other member
    rcases List.mem_append.mp member with old | new
    · exact state.filled.shallow other old
    · rw [List.mem_singleton.mp new]
      omega

theorem ahead_settle {depth : Nat} {way : Way} (deep : depth ≤ 16)
    (state : OnTheWay nbits base pos leaves depth way trie place) (value : Nat) :
    Ahead (pos + 2 ^ (16 - depth)) 0
      (settleTrie trie depth (onWay 16 pos depth) value) := by
  intro depth' number' inside start _
  have positive := Nat.two_pow_pos (16 - depth)
  have notHere : ¬ number' = onWay 16 pos depth' := by
    intro same
    have low := on_way_le pos depth'
    rw [← same] at low
    omega
  rw [settle_trie_other (by rintro ⟨rfl, same⟩; exact notHere same)]
  exact state.ahead depth' number' inside (by omega) (fun both => notHere both.2)

/-- A long code is put into the trie, when there is room for its new nodes. -/
theorem long_leaf_step (reached : Reached nbits base leaves state trie place)
    (inside : state.pos < 2 ^ lookAhead nbits) (long : nbits < leaf.width) (width : leaf.width ≤ 16)
    (aligned : leaf.size (lookAhead nbits) ∣ state.pos) :
    (2 * (state.next_symbol + nodesOnWay state.pos (leaf.width - nbits)) ≤ state.table.length ∧
      ∃ state' trie' place', longLeaf nbits state leaf = .ok state' ∧
        Reached nbits base (leaves ++ [leaf]) state' trie' place' ∧
        state'.pos = state.pos + leaf.size (lookAhead nbits) ∧
        state'.next_symbol = state.next_symbol + nodesOnWay state.pos (leaf.width - nbits) ∧
        state'.table.length = state.table.length) ∨
      (state.table.length < 2 * (state.next_symbol + nodesOnWay state.pos (leaf.width - nbits)) ∧
        ∃ index, longLeaf nbits state leaf = .error (.outside index)) := by
  have deep : leaf.width - nbits ≤ 16 := by omega
  have size : leaf.size (lookAhead nbits) = 2 ^ (16 - (leaf.width - nbits)) := by
    rw [Leaf.size, lookAhead]
    congr 1
    omega
  rw [size] at aligned
  have start := reached_on_the_way reached inside
  have notPast : ¬ state.pos ≥ 2 ^ lookAhead nbits := by omega
  rcases code_way start deep with ⟨room, way, trie', place', run, ended, taken, length⟩ |
    ⟨full, index, run⟩
  · have free := (ended.ahead _ _ deep (on_way_starts_iff.mpr aligned) (by omega)).resolve_left
      ended.here
    have bound := ended.holds.inside _ _ ended.here
    have above := ended.holds.room
    have settled : Holds _ _ _ _ (List.set _ _ leaf.symbol) _ _ := holds_settle ended.holds free
    refine Or.inl ⟨room, ⟨_, way.next_symbol, state.pos + leaf.size (lookAhead nbits)⟩, _, place', ?_,
      ⟨settled, ?_, ?_, ?_, ended.above, ?_⟩, rfl, taken, ?_⟩
    · rw [longLeaf, if_neg notPast, run, ok_bind, ended.leaf, store_entry_inside (by omega), ok_bind]
      rfl
    · exact filled_settle deep ended aligned reached.pos (by omega) free
    · rw [size]
      exact ahead_settle deep ended leaf.symbol
    · rw [total_append, total_cons, total_nil, Nat.add_zero, reached.pos]
    · rw [List.length_set]
      exact ended.size
    · rw [List.length_set]
      exact length
  · refine Or.inr ⟨full, index, ?_⟩
    rw [longLeaf, if_neg notPast, run]
    rfl

end Leaf

end Code

end XeBuild.Mspack
