import XeBuild.Mspack.LongCodes

/-!
# What `make_decode_table` makes

The loops over the short and the long codes together. The table is made exactly
when the short codes fill the code space, or all codes do and the trie has room.
Every lookup in it finds the symbol whose code the bits start with.
-/

namespace XeBuild.Mspack

open PrefixCodes ArrayTrie Runs

set_option autoImplicit false

def longNodes (nbits : Nat) : Nat → List Leaf → Nat
  | _, [] => 0
  | pos, leaf :: rest =>
      if 2 ^ lookAhead nbits ≤ pos then 0
      else nodesOnWay pos (leaf.width - nbits) +
        longNodes nbits (pos + leaf.size (lookAhead nbits)) rest

section Leaves

variable {nsyms nbits : Nat} {length widths : List Nat} {leaf : Leaf}

theorem leaves_of_widths_mem (member : leaf ∈ leavesOfWidths nsyms length widths) :
    leaf.width ∈ widths ∧ leaf.symbol < nsyms ∧ length.getD leaf.symbol 0 = leaf.width := by
  rcases List.mem_flatMap.mp member with ⟨width, listed, made⟩
  rcases leaves_of_width_width made with ⟨same, small, given⟩
  exact ⟨same ▸ listed, small, given⟩

theorem leaves_of_widths_sorted (sorted : widths.Pairwise (· < ·)) :
    (leavesOfWidths nsyms length widths).Pairwise fun left right => left.width ≤ right.width := by
  rw [leavesOfWidths, List.pairwise_flatMap]
  constructor
  · intro width _
    rw [leavesOfWidth, List.pairwise_map]
    exact List.pairwise_of_forall fun _ _ => Nat.le_refl _
  · apply sorted.imp
    intro width width' less left leftMember right rightMember
    have leftWidth := (leaves_of_width_width leftMember).1
    have rightWidth := (leaves_of_width_width rightMember).1
    omega

theorem code_leaves_mem (member : leaf ∈ codeLeaves nsyms length) :
    leaf.symbol < nsyms ∧ length.getD leaf.symbol 0 = leaf.width ∧ 1 ≤ leaf.width ∧
      leaf.width ≤ 16 := by
  rcases leaves_of_widths_mem member with ⟨listed, small, given⟩
  rw [List.mem_range'_1, HUFF_MAXBITS] at listed
  exact ⟨small, given, by omega, by omega⟩

theorem short_leaves_mem (member : leaf ∈ shortLeaves nsyms nbits length) :
    leaf.symbol < nsyms ∧ leaf.width ≤ nbits := by
  rcases leaves_of_widths_mem member with ⟨listed, small, _⟩
  rw [List.mem_range'_1] at listed
  exact ⟨small, by omega⟩

theorem long_leaves_mem (member : leaf ∈ longLeaves nsyms nbits length) :
    nbits < leaf.width ∧ leaf.width ≤ 16 ∧ leaf.symbol < nsyms := by
  rcases leaves_of_widths_mem member with ⟨listed, small, _⟩
  rw [List.mem_range'_1, HUFF_MAXBITS] at listed
  exact ⟨by omega, by omega, small⟩

theorem code_leaves_split (inside : nbits ≤ 16) :
    codeLeaves nsyms length = shortLeaves nsyms nbits length ++ longLeaves nsyms nbits length := by
  have widths : List.range' 1 HUFF_MAXBITS =
      List.range' 1 nbits ++ List.range' (nbits + 1) (HUFF_MAXBITS - nbits) := by
    have joined := @List.range'_append_1 1 nbits (HUFF_MAXBITS - nbits)
    rw [Nat.add_comm 1 nbits, HUFF_MAXBITS, Nat.add_sub_cancel' inside] at joined
    rw [HUFF_MAXBITS, joined]
  rw [codeLeaves, widths, leavesOfWidths, List.flatMap_append]
  rfl

theorem code_leaves_ordered (depth : Nat) (deep : 16 ≤ depth) :
    Ordered depth (codeLeaves nsyms length) := by
  refine ⟨leaves_of_widths_sorted (List.pairwise_lt_range' 1), ?_⟩
  intro leaf member
  have bounds := code_leaves_mem member
  omega

end Leaves

/-! ## The loops over the long codes -/

section Long

variable {nbits base : Nat} {state : Long} {trie : Trie} {place : Nat → Nat → Nat}
  {done leaves : List Leaf}

theorem block_fits {size pos whole : Nat} (aligned : size ∣ pos)
    (even : size ∣ whole) (inside : pos < whole) : pos + size ≤ whole := by
  rcases aligned with ⟨before, rfl⟩
  rcases even with ⟨all, rfl⟩
  have less : before < all := Nat.lt_of_mul_lt_mul_left inside
  rw [← Nat.mul_succ]
  exact Nat.mul_le_mul_left size less

inductive LongResult (nbits base : Nat) (done leaves : List Leaf) (state : Long)
    (result : Except TableStop Long) : Prop
  | made (state' : Long) (trie : Trie) (place : Nat → Nat → Nat)
      (fits : state.pos + total (lookAhead nbits) leaves ≤ 2 ^ lookAhead nbits)
      (run : result = .ok state') (reached : Reached nbits base (done ++ leaves) state' trie place)
      (size : state'.table.length = state.table.length)
      (room : 2 * (state.next_symbol + longNodes nbits state.pos leaves) ≤ state.table.length)
  | beyond (run : result = .error .unusable)
      (past : 2 ^ lookAhead nbits < state.pos + total (lookAhead nbits) leaves)
      (room : 2 * (state.next_symbol + longNodes nbits state.pos leaves) ≤ state.table.length)
  | outside (index : Nat) (run : result = .error (.outside index))
      (full : state.table.length < 2 * (state.next_symbol + longNodes nbits state.pos leaves))

theorem long_leaves (reached : Reached nbits base done state trie place)
    (start : state.pos ≤ 2 ^ lookAhead nbits)
    (long : ∀ leaf ∈ leaves, nbits < leaf.width ∧ leaf.width ≤ 16)
    (ordered : Ordered (lookAhead nbits) (done ++ leaves)) :
    LongResult nbits base done leaves state (leaves.foldlM (longLeaf nbits) state) := by
  induction leaves generalizing done state trie place with
  | nil =>
      refine .made state trie place start rfl ?_ rfl reached.holds.room
      rw [List.append_nil]
      exact reached
  | cons leaf leaves ih =>
      have width := long leaf List.mem_cons_self
      have positive := size_pos (lookAhead nbits) leaf
      rw [List.foldlM_cons]
      by_cases past : 2 ^ lookAhead nbits ≤ state.pos
      · apply LongResult.beyond
        · rw [longLeaf, if_pos past]
          rfl
        · rw [total_cons]
          omega
        · rw [longNodes, if_pos past]
          exact reached.holds.room
      · have aligned : leaf.size (lookAhead nbits) ∣ state.pos := by
          rw [reached.pos]
          exact size_dvd_total ordered
        have fits : state.pos + leaf.size (lookAhead nbits) ≤ 2 ^ lookAhead nbits := by
          apply block_fits aligned
          · exact Nat.pow_dvd_pow 2 (Nat.sub_le _ _)
          · omega
        rcases long_leaf_step reached (by omega) width.1 width.2 aligned with
          ⟨room, state₁, trie₁, place₁, step, reached₁, moved, taken, size⟩ | ⟨full, index, step⟩
        · have rest := @ih state₁ trie₁ place₁ (done ++ [leaf]) reached₁ (by omega)
            (fun other member => long other (List.mem_cons_of_mem _ member))
            (by rw [List.append_assoc]; exact ordered)
          rw [step, ok_bind]
          rcases rest with ⟨state', trie', place', inside, run, reached', size', room'⟩ |
            ⟨run, beyond, room'⟩ | ⟨index, run, full⟩
          · refine .made state' trie' place' ?_ run ?_ (by omega) ?_
            · rw [total_cons]
              omega
            · rwa [List.append_assoc] at reached'
            · rw [longNodes, if_neg past, ← moved]
              omega
          · refine .beyond run ?_ ?_
            · rw [total_cons]
              omega
            · rw [longNodes, if_neg past, ← moved]
              omega
          · refine .outside index run ?_
            rw [longNodes, if_neg past, ← moved]
            omega
        · refine .outside index ?_ ?_
          · rw [step]
            rfl
          · rw [longNodes, if_neg past]
            omega

theorem long_length_eq {nsyms bit_num : Nat} {length : List Nat} (state : Long) :
    longLength nsyms nbits length (1 <<< nbits <<< 16) (state, 2 ^ (lookAhead nbits - bit_num))
        bit_num = (do
      let long ← (leavesOfWidth nsyms length bit_num).foldlM (longLeaf nbits) state
      return (long, 2 ^ (lookAhead nbits - bit_num) >>> 1)) := by
  have mask : 1 <<< nbits <<< 16 = 2 ^ lookAhead nbits := by
    rw [one_shift, Nat.shiftLeft_eq, ← Nat.pow_add, lookAhead]
  have loop := @fold_symbols Long TableStop nsyms bit_num length
    (longSymbol nbits length (1 <<< nbits <<< 16) bit_num (2 ^ (lookAhead nbits - bit_num)))
    (longLeaf nbits)
    (fun state sym other => by rw [longSymbol, if_pos other])
    (fun state sym same => by
      rw [longSymbol, if_neg (not_not_intro same), longLeaf, Leaf.size, mask])
    state
  rw [longLength, loop]

theorem long_widths_eq {nsyms bit_num count : Nat} {length : List Nat}
    (last : bit_num + count ≤ lookAhead nbits + 1) (state : Long) :
    ((List.range' bit_num count).foldlM (longLength nsyms nbits length (1 <<< nbits <<< 16))
        (state, 2 ^ (lookAhead nbits - bit_num)) >>= fun result => .ok result.1) =
      (leavesOfWidths nsyms length (List.range' bit_num count)).foldlM (longLeaf nbits) state := by
  induction count generalizing bit_num state with
  | zero => rfl
  | succ count ih =>
      rw [List.range'_succ, List.foldlM_cons, leavesOfWidths, List.flatMap_cons, List.foldlM_append,
        long_length_eq, ← leavesOfWidths, bind_assoc, bind_assoc]
      apply bind_congr
      intro long
      rw [pure_bind]
      cases count with
      | zero => rfl
      | succ count =>
          have halved : 2 ^ (lookAhead nbits - bit_num) >>> 1 =
              2 ^ (lookAhead nbits - (bit_num + 1)) := by
            have more : lookAhead nbits - bit_num = lookAhead nbits - (bit_num + 1) + 1 := by omega
            rw [more, Nat.shiftRight_eq_div_pow, Nat.pow_one, Nat.pow_succ, Nat.mul_div_cancel _
              (by decide)]
          rw [halved, ih (by omega)]

end Long

/-! ## The trie in front of the long codes -/

section Start

variable {nsyms nbits : Nat} {length table filled : List Nat}

theorem long_base_bounds (positive : 0 < nbits) :
    nsyms ≤ longBase nsyms (1 <<< nbits) ∧ 2 ^ nbits ≤ 2 * longBase nsyms (1 <<< nbits) ∧
      2 * longBase nsyms (1 <<< nbits) ≤ 2 ^ nbits + 2 * nsyms := by
  have half : (1 <<< nbits) >>> 1 = 2 ^ (nbits - 1) := by
    have more : nbits = nbits - 1 + 1 := by omega
    rw [one_shift, Nat.shiftRight_eq_div_pow, Nat.pow_one]
    nth_rewrite 1 [more]
    rw [Nat.pow_succ, Nat.mul_div_cancel _ (by decide)]
  have twice : 2 ^ nbits = 2 * 2 ^ (nbits - 1) := by
    have more : nbits = nbits - 1 + 1 := by omega
    nth_rewrite 1 [more]
    rw [Nat.pow_succ, Nat.mul_comm]
  rw [longBase, half, twice]
  split_ifs <;> omega

/-- The roots: symbols below the end of the short codes, and nothing behind it. -/
def startTrie (nbits : Nat) (leaves : List Leaf) : Trie := fun depth number =>
  if depth = 0 ∧ number < 2 ^ nbits then
    match locate nbits leaves number with
    | some leaf => .symbol leaf.symbol
    | none => .unused
  else .absent

theorem start_trie_symbol {leaves : List Leaf} {leaf : Leaf} {number : Nat} (small : number < 2 ^ nbits)
    (located : locate nbits leaves number = some leaf) :
    startTrie nbits leaves 0 number = .symbol leaf.symbol := by
  rw [startTrie, if_pos ⟨rfl, small⟩, located]

theorem start_trie_unused {leaves : List Leaf} {number : Nat} (small : number < 2 ^ nbits)
    (past : total nbits leaves ≤ number) : startTrie nbits leaves 0 number = .unused := by
  have none : locate nbits leaves number = none := by
    rw [← Option.not_isSome_iff_eq_none, locate_is_some_iff]
    omega
  rw [startTrie, if_pos ⟨rfl, small⟩, none]

theorem start_trie_cases {leaves : List Leaf} {depth number : Nat}
    (present : startTrie nbits leaves depth number ≠ .absent) :
    depth = 0 ∧ number < 2 ^ nbits ∧ (total nbits leaves ≤ number ∧
        startTrie nbits leaves depth number = .unused ∨ ∃ leaf,
        locate nbits leaves number = some leaf ∧
        startTrie nbits leaves depth number = .symbol leaf.symbol) := by
  by_cases root : depth = 0 ∧ number < 2 ^ nbits
  · refine ⟨root.1, root.2, ?_⟩
    rw [root.1]
    by_cases past : total nbits leaves ≤ number
    · exact Or.inl ⟨past, start_trie_unused root.2 past⟩
    · have inside : number < total nbits leaves := by omega
      rcases Option.isSome_iff_exists.mp (locate_is_some_iff.mpr inside) with ⟨leaf, located⟩
      exact Or.inr ⟨leaf, located, start_trie_symbol root.2 located⟩
  · exact absurd (if_neg root) present

section Marked

variable {marked : List Nat}

/-- The table with its short codes, where the other entries are marked. -/
structure Marked (nsyms nbits : Nat) (length filled marked : List Nat) : Prop where
  size : marked.length = filled.length
  entries : ∀ index, marked.getD index 0 =
    if total nbits (shortLeaves nsyms nbits length) ≤ index ∧ index < 2 ^ nbits then unusedEntry
    else filled.getD index 0

theorem start_holds (positive : 0 < nbits) (room : table.length = 2 ^ nbits + 2 * nsyms)
    (decodes : Decodes nbits 0 (shortLeaves nsyms nbits length) table filled)
    (marks : Marked nsyms nbits length filled marked) :
    Holds (2 ^ nbits) unusedEntry (longBase nsyms (1 <<< nbits)) (longBase nsyms (1 <<< nbits)) marked
      (startTrie nbits (shortLeaves nsyms nbits length)) (fun _ number => number) := by
  have bounds := @long_base_bounds nsyms nbits positive
  have sizes := decodes.size
  have markedSize := marks.size
  have noNode (depth number : Nat) :
      startTrie nbits (shortLeaves nsyms nbits length) depth number ≠ .node := by
    intro node
    rcases (start_trie_cases (by rw [node]; simp)).2.2 with ⟨_, unused⟩ | ⟨leaf, _, symbol⟩
    · rw [unused] at node
      cases node
    · rw [symbol] at node
      cases node
  constructor
  · intro number small
    refine ⟨?_, rfl⟩
    intro absent
    rw [startTrie, if_pos ⟨rfl, small⟩] at absent
    split at absent <;> cases absent
  · intro number present
    exact (start_trie_cases present).2.1
  · intro depth number present
    exact absurd (start_trie_cases present).1 (Nat.succ_ne_zero depth)
  · intro depth number bit node _
    exact absurd node (noNode depth number)
  · intro depth number unused
    have all := start_trie_cases (by rw [unused]; simp)
    rcases all.2.2 with ⟨past, _⟩ | ⟨leaf, _, symbol⟩
    · rw [marks.entries, if_pos ⟨past, all.2.1⟩]
    · rw [symbol] at unused
      cases unused
  · intro depth number value symbol
    have all := start_trie_cases (by rw [symbol]; simp)
    rcases all.2.2 with ⟨_, unused⟩ | ⟨leaf, located, same⟩
    · rw [unused] at symbol
      cases symbol
    · have inside := locate_is_some_iff.mp (Option.isSome_iff_exists.mpr ⟨leaf, located⟩)
      rcases decodes.found number inside with ⟨leaf', located', entry⟩
      rw [located] at located'
      cases located'
      rw [same] at symbol
      cases symbol
      rw [marks.entries, if_neg (by omega), ← entry, Nat.zero_add]
  · intro depth number node
    exact absurd node (noNode depth number)
  · intro depth number present
    have small := (start_trie_cases present).2.1
    omega
  · intro depth number depth' number' present present' same
    rw [(start_trie_cases present).1, (start_trie_cases present').1]
    exact ⟨rfl, same⟩
  · omega

theorem short_width : ∀ leaf ∈ shortLeaves nsyms nbits length, leaf.width ≤ nbits :=
  fun _ member => (short_leaves_mem member).2

theorem start_filled (within : total nbits (shortLeaves nsyms nbits length) ≤ 2 ^ nbits) :
    Filled nbits (shortLeaves nsyms nbits length)
      (total nbits (shortLeaves nsyms nbits length) * 2 ^ 16)
      (startTrie nbits (shortLeaves nsyms nbits length)) := by
  constructor
  · intro number small
    have inside : onWay 16 number 0 < total nbits (shortLeaves nsyms nbits length) := by
      rw [on_way_zero, Nat.div_lt_iff_lt_mul (Nat.two_pow_pos _)]
      exact small
    rcases Option.isSome_iff_exists.mp (locate_is_some_iff.mpr inside) with ⟨leaf, located⟩
    have member : leaf ∈ shortLeaves nsyms nbits length := by
      rcases locate_some_split located with ⟨front, back, shape, _⟩
      rw [shape]
      simp
    have shallow : leaf.width - nbits = 0 := by
      have width := short_width leaf member
      omega
    refine ⟨leaf, ?_, ?_, ?_⟩
    · rw [lookAhead, locate_scaled short_width]
      exact located
    · intro depth above
      omega
    · rw [shallow]
      exact start_trie_symbol (by omega) located
  · intro depth number value _ symbol
    have all := start_trie_cases (by rw [symbol]; simp)
    rcases all.2.2 with ⟨_, unused⟩ | ⟨leaf, located, _⟩
    · rw [unused] at symbol
      cases symbol
    · have inside := locate_is_some_iff.mp (Option.isSome_iff_exists.mpr ⟨leaf, located⟩)
      rw [all.1, Nat.sub_zero]
      exact Nat.mul_le_mul_right _ inside
  · intro leaf member
    have width := short_width leaf member
    omega

theorem start_ahead :
    Ahead (total nbits (shortLeaves nsyms nbits length) * 2 ^ 16) 0
      (startTrie nbits (shortLeaves nsyms nbits length)) := by
  intro depth number _ start _
  by_cases absent : startTrie nbits (shortLeaves nsyms nbits length) depth number = .absent
  · exact Or.inl absent
  · have all := start_trie_cases absent
    rcases all.2.2 with ⟨_, unused⟩ | ⟨leaf, located, _⟩
    · exact Or.inr unused
    · have inside := locate_is_some_iff.mp (Option.isSome_iff_exists.mpr ⟨leaf, located⟩)
      rw [all.1, Nat.sub_zero] at start
      have less := Nat.le_of_mul_le_mul_right start (Nat.two_pow_pos 16)
      omega

theorem start_reached (positive : 0 < nbits) (room : table.length = 2 ^ nbits + 2 * nsyms)
    (small : table.length ≤ unusedEntry)
    (decodes : Decodes nbits 0 (shortLeaves nsyms nbits length) table filled)
    (within : total nbits (shortLeaves nsyms nbits length) ≤ 2 ^ nbits)
    (marks : Marked nsyms nbits length filled marked) :
    Reached nbits (longBase nsyms (1 <<< nbits)) (shortLeaves nsyms nbits length)
      ⟨marked, longBase nsyms (1 <<< nbits),
        total nbits (shortLeaves nsyms nbits length) * 2 ^ 16⟩
      (startTrie nbits (shortLeaves nsyms nbits length)) (fun _ number => number) := by
  have scaled := @total_scaled nbits 16 _ (@short_width nsyms nbits length)
  refine ⟨start_holds positive room decodes marks, start_filled within, start_ahead, ?_,
    Nat.le_refl _, ?_⟩
  · rw [lookAhead, scaled, Nat.mul_comm]
  · rw [marks.size, decodes.size]
    exact small

end Marked

end Start

/-! ## Lookups -/

/-- Every lookup in the table finds the symbol whose code the bits start with. -/
def LooksUp (nsyms nbits : Nat) (length table : List Nat) : Prop :=
  ∀ bit_buffer < 2 ^ BITBUF_WIDTH, ∃ leaf,
    locate 16 (codeLeaves nsyms length) (bit_buffer / 2 ^ 16) = some leaf ∧
      lookupSymbol nsyms nbits table bit_buffer = .ok leaf.symbol

section Lookup

variable {nsyms nbits base : Nat} {length table : List Nat} {trie : Trie} {place : Nat → Nat → Nat}
  {state : Long}

theorem next_entry (sym bit_buffer bit : Nat) :
    (sym <<< 1) ||| (bit_buffer >>> bit &&& 1) = 2 * sym + bit_buffer / 2 ^ bit % 2 := by
  have digit : bit_buffer >>> bit &&& 1 < 2 ^ 1 := by
    rw [Nat.and_one_is_mod]
    exact Nat.mod_lt _ (by decide)
  rw [← Nat.shiftLeft_add_eq_or_of_lt digit, shift_one, Nat.and_one_is_mod,
    Nat.shiftRight_eq_div_pow]

/-- From a node on the way of a number, the loop comes to the symbol at its end. -/
theorem traverse_way (holds : Holds (2 ^ nbits) unusedEntry base state.next_symbol state.table trie
      place) (above : nsyms ≤ base) {number symbol bit_buffer low depth last : Nat}
    (end_ : trie last (onWay 16 number last) = .symbol symbol) (small : symbol < nsyms)
    (nodes : ∀ depth < last, trie depth (onWay 16 number depth) = .node) (deep : last ≤ 16)
    (below : depth < last) (bits : number = bit_buffer / 2 ^ low) :
    huffTraverse nsyms state.table bit_buffer (low + (16 - depth))
      (state.table.getD (place depth (onWay 16 number depth)) 0) = .ok symbol := by
  have room := holds.room
  induction distance : last - depth generalizing depth with
  | zero => omega
  | succ distance ih =>
      have bits' : low + (16 - depth) = low + (16 - (depth + 1)) + 1 := by omega
      have digit : bit_buffer / 2 ^ (low + (16 - (depth + 1))) % 2 =
          number / 2 ^ (16 - (depth + 1)) % 2 := by
        rw [bits, Nat.div_div_eq_div_mul, ← Nat.pow_add]
      have down := holds.child _ _ (number / 2 ^ (16 - (depth + 1)) % 2) (nodes depth below)
        (Nat.mod_lt _ (by decide))
      rw [← on_way_succ (by omega)] at down
      have bound := holds.inside _ _ down.1
      rw [bits', huffTraverse, next_entry, digit, ← down.2, load_entry_inside (by omega), ok_bind]
      by_cases more : depth + 1 < last
      · have entry := holds.nodeEntry _ _ (nodes (depth + 1) more)
        rw [if_pos (by omega)]
        exact ih more (by omega)
      · have reached : depth + 1 = last := by omega
        rw [reached, holds.symbolEntry _ _ _ end_, if_neg (by omega)]
        rfl

/-- A table whose codes fill the code space looks every number up. -/
theorem looks_up_of_reached (bits : nbits ≤ 16)
    (reached : Reached nbits base (codeLeaves nsyms length) state trie place)
    (above : nsyms ≤ base) (full : state.pos = 2 ^ lookAhead nbits) :
    LooksUp nsyms nbits length state.table := by
  intro bit_buffer word
  let low := BITBUF_WIDTH - lookAhead nbits
  let number := bit_buffer / 2 ^ low
  have parts : low + lookAhead nbits = BITBUF_WIDTH := by
    show BITBUF_WIDTH - (nbits + 16) + (nbits + 16) = BITBUF_WIDTH
    rw [BITBUF_WIDTH]
    omega
  have inside : number < state.pos := by
    rw [full, Nat.div_lt_iff_lt_mul (Nat.two_pow_pos _), ← Nat.pow_add, Nat.add_comm, parts]
    exact word
  have top : BITBUF_WIDTH - nbits = low + 16 := by
    show BITBUF_WIDTH - nbits = BITBUF_WIDTH - (nbits + 16) + 16
    rw [BITBUF_WIDTH]
    omega
  have index : bit_buffer >>> (BITBUF_WIDTH - nbits) = onWay 16 number 0 := by
    rw [Nat.shiftRight_eq_div_pow, on_way_zero, top, Nat.pow_add, Nat.div_div_eq_div_mul]
  rcases reached.filled.way number inside with ⟨leaf, located, nodes, symbol⟩
  have member : leaf ∈ codeLeaves nsyms length := by
    rcases locate_some_split located with ⟨front, back, shape, _⟩
    rw [shape]
    simp
  have widths := code_leaves_mem member
  have high : number / 2 ^ nbits = bit_buffer / 2 ^ 16 := by
    have whole : low + nbits = 16 := by
      have both : low + (nbits + 16) = 32 := parts
      omega
    rw [Nat.div_div_eq_div_mul, ← Nat.pow_add, whole]
  refine ⟨leaf, ?_, ?_⟩
  · have scaled := @locate_scaled 16 nbits number (codeLeaves nsyms length)
      (fun leaf member => (code_leaves_mem member).2.2.2)
    rw [Nat.add_comm, ← lookAhead, located, high] at scaled
    exact scaled.symm
  · have room := reached.holds.room
    have root : onWay 16 number 0 < 2 ^ nbits := by
      rw [on_way_zero, Nat.div_lt_iff_lt_mul (Nat.two_pow_pos _), ← Nat.pow_add]
      exact full ▸ inside
    have there := reached.holds.root _ root
    have bound := reached.holds.inside _ _ there.1
    rw [there.2] at bound
    rw [lookupSymbol, index, load_entry_inside (by omega), ok_bind]
    by_cases direct : leaf.width - nbits = 0
    · rw [direct] at symbol
      have entry := reached.holds.symbolEntry _ _ _ symbol
      rw [there.2] at entry
      rw [entry, if_neg (by omega)]
      rfl
    · have entry := reached.holds.nodeEntry _ _ (nodes 0 (by omega))
      have deeper : 0 < leaf.width - nbits := by omega
      have traversed := traverse_way reached.holds above symbol widths.1 nodes (by omega) deeper rfl
      rw [there.2] at entry traversed
      rw [if_pos (by omega), top]
      exact traversed

/-- A table that the short codes fill looks every number up in one step. -/
theorem looks_up_of_direct {filled : List Nat} (bits : nbits ≤ 16) (room : 2 ^ nbits ≤ table.length)
    (decodes : Decodes nbits 0 (shortLeaves nsyms nbits length) table filled)
    (full : total nbits (shortLeaves nsyms nbits length) = 2 ^ nbits) :
    LooksUp nsyms nbits length filled := by
  intro bit_buffer word
  have short : ∀ leaf ∈ shortLeaves nsyms nbits length, leaf.width ≤ nbits :=
    fun leaf member => (short_leaves_mem member).2
  have index : bit_buffer >>> (BITBUF_WIDTH - nbits) = bit_buffer / 2 ^ 16 / 2 ^ (16 - nbits) := by
    have parts : BITBUF_WIDTH - nbits = 16 + (16 - nbits) := by
      rw [BITBUF_WIDTH]
      omega
    rw [Nat.shiftRight_eq_div_pow, Nat.div_div_eq_div_mul, ← Nat.pow_add, parts]
  have inside : bit_buffer / 2 ^ 16 / 2 ^ (16 - nbits) < 2 ^ nbits := by
    have parts : nbits + (16 + (16 - nbits)) = BITBUF_WIDTH := by
      rw [BITBUF_WIDTH]
      omega
    rw [Nat.div_div_eq_div_mul, ← Nat.pow_add, Nat.div_lt_iff_lt_mul (Nat.two_pow_pos _),
      ← Nat.pow_add, parts]
    exact word
  rcases decodes.found _ (full ▸ inside) with ⟨leaf, located, entry⟩
  have member : leaf ∈ shortLeaves nsyms nbits length := by
    rcases locate_some_split located with ⟨front, back, shape, _⟩
    rw [shape]
    simp
  refine ⟨leaf, ?_, ?_⟩
  · have scaled := @locate_scaled nbits (16 - nbits) (bit_buffer / 2 ^ 16)
      (shortLeaves nsyms nbits length) short
    rw [Nat.add_sub_cancel' bits, located] at scaled
    have placed := locate_is_some_iff.mp (Option.isSome_iff_exists.mpr ⟨leaf, scaled⟩)
    rw [code_leaves_split bits, locate_append_left placed, scaled]
  · have symbol := (short_leaves_mem member).1
    rw [Nat.zero_add] at entry
    have sizes := decodes.size
    rw [lookupSymbol, index, load_entry_inside (by omega), ok_bind, entry, if_neg (by omega)]
    rfl

end Lookup

/-! ## The result -/

section Result

variable {nsyms nbits : Nat} {length table : List Nat}

def tableNodes (nsyms nbits : Nat) (length : List Nat) : Nat :=
  longNodes nbits (total nbits (shortLeaves nsyms nbits length) * 2 ^ 16)
    (longLeaves nsyms nbits length)

inductive TableResult (nsyms nbits : Nat) (length table : List Nat)
    (result : Except TableStop (List Nat)) : Prop
  | short (made : List Nat) (run : result = .ok made) (size : made.length = table.length)
      (looksUp : LooksUp nsyms nbits length made)
      (full : total nbits (shortLeaves nsyms nbits length) = 2 ^ nbits)
  | long (made : List Nat) (run : result = .ok made) (size : made.length = table.length)
      (looksUp : LooksUp nsyms nbits length made)
      (open_ : total nbits (shortLeaves nsyms nbits length) < 2 ^ nbits)
      (full : total 16 (codeLeaves nsyms length) = 2 ^ 16)
      (fits : 2 * (longBase nsyms (1 <<< nbits) + tableNodes nsyms nbits length) ≤ table.length)
  | unusable (run : result = .error .unusable)
      (notShort : total nbits (shortLeaves nsyms nbits length) ≠ 2 ^ nbits)
      (notFull : total 16 (codeLeaves nsyms length) ≠ 2 ^ 16)
      (fits : total nbits (shortLeaves nsyms nbits length) < 2 ^ nbits →
        2 * (longBase nsyms (1 <<< nbits) + tableNodes nsyms nbits length) ≤ table.length)
  | outside (index : Nat) (run : result = .error (.outside index))
      (open_ : total nbits (shortLeaves nsyms nbits length) < 2 ^ nbits)
      (full : table.length < 2 * (longBase nsyms (1 <<< nbits) + tableNodes nsyms nbits length))

/-- The codes fill their space when they fill the space of the trie. -/
theorem code_full_iff (bits : nbits ≤ 16) :
    total 16 (codeLeaves nsyms length) = 2 ^ 16 ↔
      total nbits (shortLeaves nsyms nbits length) * 2 ^ 16 +
        total (lookAhead nbits) (longLeaves nsyms nbits length) = 2 ^ lookAhead nbits := by
  have codes := @total_scaled 16 nbits (codeLeaves nsyms length)
    (fun leaf member => (code_leaves_mem member).2.2.2)
  have short := @total_scaled nbits 16 _ (@short_width nsyms nbits length)
  have whole : total (lookAhead nbits) (codeLeaves nsyms length) =
      total nbits (shortLeaves nsyms nbits length) * 2 ^ 16 +
        total (lookAhead nbits) (longLeaves nsyms nbits length) := by
    rw [code_leaves_split bits, total_append, lookAhead, short, Nat.mul_comm]
  rw [← whole, lookAhead, Nat.add_comm nbits 16, codes, Nat.add_comm 16 nbits, Nat.pow_add]
  exact (Nat.mul_right_inj (Nat.two_pow_pos nbits).ne').symm

theorem long_codes_result (bits : nbits ≤ 16) {marked : List Nat} {trie : Trie}
    {place : Nat → Nat → Nat} {base : Nat}
    (within : total nbits (shortLeaves nsyms nbits length) ≤ 2 ^ nbits)
    (reached : Reached nbits base (shortLeaves nsyms nbits length)
      ⟨marked, base, total nbits (shortLeaves nsyms nbits length) * 2 ^ 16⟩ trie place) :
    LongResult nbits base (shortLeaves nsyms nbits length) (longLeaves nsyms nbits length)
      ⟨marked, base, total nbits (shortLeaves nsyms nbits length) * 2 ^ 16⟩
      ((List.range' (nbits + 1) (HUFF_MAXBITS - nbits)).foldlM
        (longLength nsyms nbits length (1 <<< nbits <<< 16))
        (⟨marked, base, total nbits (shortLeaves nsyms nbits length) * 2 ^ 16⟩, 1 <<< 15) >>=
          fun result => .ok result.1) := by
  have mask : 1 <<< 15 = 2 ^ (lookAhead nbits - (nbits + 1)) := by
    rw [one_shift, lookAhead]
    congr 1
    omega
  have start : total nbits (shortLeaves nsyms nbits length) * 2 ^ 16 ≤ 2 ^ lookAhead nbits := by
    rw [lookAhead, Nat.pow_add]
    exact Nat.mul_le_mul_right _ within
  rw [mask, long_widths_eq (by rw [HUFF_MAXBITS, lookAhead]; omega)]
  apply long_leaves reached start
  · intro leaf member
    exact ⟨(long_leaves_mem member).1, (long_leaves_mem member).2.1⟩
  · have whole := @code_leaves_ordered nsyms length (lookAhead nbits) (Nat.le_add_left _ _)
    rwa [code_leaves_split bits] at whole

theorem table_of_long_result (positive : 0 < nbits) (bits : nbits ≤ 16) {marked : List Nat}
    (size : marked.length = table.length)
    (under : total nbits (shortLeaves nsyms nbits length) < 2 ^ nbits)
    {loops : Except TableStop (Long × Nat)}
    (result : LongResult nbits (longBase nsyms (1 <<< nbits)) (shortLeaves nsyms nbits length)
      (longLeaves nsyms nbits length)
      ⟨marked, longBase nsyms (1 <<< nbits), total nbits (shortLeaves nsyms nbits length) * 2 ^ 16⟩
      (loops >>= fun state => .ok state.1)) :
    TableResult nsyms nbits length table (loops >>= fun state =>
      if state.1.pos = 2 ^ lookAhead nbits then .ok state.1.table else .error .unusable) := by
  have fullIff := @code_full_iff nsyms nbits length bits
  have bounds := @long_base_bounds nsyms nbits positive
  rcases result with ⟨state', trie, place, fits, run, reached, size', room⟩ | ⟨run, past, room⟩ |
    ⟨index, run, full⟩
  · rcases bind_ok_iff.mp run with ⟨⟨long, mask⟩, made, same⟩
    cases same
    have pos := reached.pos
    rw [← code_leaves_split bits] at reached
    rw [made, ok_bind]
    dsimp only at pos fits size' room ⊢
    have short := @total_scaled nbits 16 _ (@short_width nsyms nbits length)
    rw [total_append, lookAhead, short, ← lookAhead, Nat.mul_comm] at pos
    by_cases full : long.pos = 2 ^ lookAhead nbits
    · rw [if_pos full]
      refine .long long.table rfl (by omega) (looks_up_of_reached bits reached bounds.1 full) under
        (fullIff.mpr (by omega)) ?_
      rw [← size]
      exact room
    · rw [if_neg full]
      exact .unusable rfl (by omega) (fun filled => full (by have sum := fullIff.mp filled; omega))
        (fun _ => by rw [← size]; exact room)
  · refine .unusable ?_ (by omega) ?_ (fun _ => by rw [← size]; exact room)
    · cases loops with
      | error stop =>
          cases run
          rfl
      | ok state => cases run
    · intro filled
      have sum := fullIff.mp filled
      dsimp only at past
      omega
  · refine .outside index ?_ under ?_
    · cases loops with
      | error stop =>
          cases run
          rfl
      | ok state => cases run
    · rw [← size]
      exact full

theorem make_decode_table_result (positive : 0 < nbits) (bits : nbits ≤ 16)
    (room : table.length = 2 ^ nbits + 2 * nsyms) (small : table.length ≤ unusedEntry) :
    TableResult nsyms nbits length table (makeDecodeTable nsyms nbits length table) := by
  have fullIff := @code_full_iff nsyms nbits length bits
  have bounds := @long_base_bounds nsyms nbits positive
  have end_ : 2 ^ nbits * 2 ^ 16 = 2 ^ lookAhead nbits := by
    rw [← Nat.pow_add, lookAhead]
  rw [makeDecodeTable]
  rcases @direct_codes_result nsyms nbits length table (by omega) with
    ⟨within, filled, mask, run, decodes⟩ | ⟨past, run⟩
  · rw [run, ok_bind]
    dsimp only
    rw [one_shift]
    by_cases full : total nbits (shortLeaves nsyms nbits length) = 2 ^ nbits
    · rw [if_pos full]
      exact .short filled rfl decodes.size (looks_up_of_direct bits (by omega) decodes full) full
    · have under : total nbits (shortLeaves nsyms nbits length) < 2 ^ nbits := by omega
      have sizes := decodes.size
      rw [if_neg full]
      rcases @fill_entries_ok filled (2 ^ nbits - total nbits (shortLeaves nsyms nbits length))
        (total nbits (shortLeaves nsyms nbits length)) unusedEntry (by omega) with
        ⟨marked, mark, markedSize, entries⟩
      have marks : Marked nsyms nbits length filled marked := by
        refine ⟨markedSize, ?_⟩
        intro index
        rw [entries index]
        exact if_congr (by omega) rfl rfl
      have reached := start_reached positive room small decodes within marks
      have result := long_codes_result bits within reached
      rw [mark, ok_bind]
      have last := @table_of_long_result nsyms nbits length table positive bits marked (by omega) under
        _ result
      rw [one_shift, Nat.shiftLeft_eq, end_] at last
      rw [Nat.shiftLeft_eq, Nat.shiftLeft_eq, end_]
      exact last
  · refine .unusable ?_ (by omega) ?_ (fun under => by omega)
    · rw [run]
      rfl
    · intro full
      have scaled : 2 ^ nbits * 2 ^ 16 <
          total nbits (shortLeaves nsyms nbits length) * 2 ^ 16 :=
        Nat.mul_lt_mul_of_pos_right past (Nat.two_pow_pos 16)
      have sum := fullIff.mp full
      omega

end Result

end XeBuild.Mspack
