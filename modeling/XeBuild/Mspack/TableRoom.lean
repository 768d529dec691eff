import XeBuild.Mspack.TableDecodes
import Mathlib.Data.List.Perm.Subperm

/-!
# The room that long codes need

The codes of one width are counted up, so the new nodes of a code are the zeros
at its end, and the zeros and ones at the end of the codes pay for each other. A
code that fills its space needs fewer nodes than it has long codes; any other
needs at most as many and one for each width.
-/

namespace XeBuild.Mspack

open PrefixCodes ArrayTrie

set_option autoImplicit false

/-- The zeros at the end of the last `width` digits of a code. -/
def lowZeros : Nat → Nat → Nat
  | 0, _ => 0
  | width + 1, code => if code % 2 = 0 then 1 + lowZeros width (code / 2) else 0

/-- The ones among the last `width` digits of a code. -/
def lowOnes : Nat → Nat → Nat
  | 0, _ => 0
  | width + 1, code => code % 2 + lowOnes width (code / 2)

section Counting

variable {width code pos : Nat}

/-- Counting up turns the ones at the end into zeros, and a zero into a one or a carry. -/
theorem count_up (width code : Nat) :
    lowZeros width (code + 1) + lowOnes width (code + 1) + (code + 1) / 2 ^ width =
      lowOnes width code + 1 + code / 2 ^ width := by
  induction width generalizing code with
  | zero =>
      rw [lowZeros, lowOnes, lowOnes, Nat.pow_zero, Nat.div_one, Nat.div_one]
      omega
  | succ width ih =>
      have carry (value : Nat) : value / 2 ^ (width + 1) = value / 2 / 2 ^ width := by
        rw [Nat.pow_succ, Nat.mul_comm, Nat.div_div_eq_div_mul]
      rw [lowZeros, lowOnes, lowOnes, carry, carry]
      rcases Nat.mod_two_eq_zero_or_one code with even | odd
      · have half : (code + 1) / 2 = code / 2 := by omega
        rw [if_neg (by omega), half]
        omega
      · have half : (code + 1) / 2 = code / 2 + 1 := by omega
        have step := ih (code / 2)
        rw [if_pos (by omega), half]
        omega

theorem low_digits_raise (extra width code : Nat) :
    lowZeros (width + extra) (code * 2 ^ extra) + lowOnes (width + extra) (code * 2 ^ extra) =
      extra + (lowZeros width code + lowOnes width code) := by
  induction extra with
  | zero => rw [Nat.pow_zero, Nat.mul_one, Nat.add_zero, Nat.zero_add]
  | succ extra ih =>
      have even : code * 2 ^ (extra + 1) % 2 = 0 := by
        rw [Nat.pow_succ, ← Nat.mul_assoc, Nat.mul_mod_left]
      have half : code * 2 ^ (extra + 1) / 2 = code * 2 ^ extra := by
        rw [Nat.pow_succ, ← Nat.mul_assoc, Nat.mul_div_cancel _ (by decide)]
      rw [← Nat.add_assoc, lowZeros, lowOnes, if_pos even, even, half]
      omega

theorem nodes_on_way_eq (inside : width ≤ 16) (aligned : 2 ^ (16 - width) ∣ pos) :
    nodesOnWay pos width = lowZeros width (pos / 2 ^ (16 - width)) := by
  induction width with
  | zero => rfl
  | succ width ih =>
      have units : 16 - width = 16 - (width + 1) + 1 := by omega
      have half : pos / 2 ^ (16 - (width + 1)) / 2 = pos / 2 ^ (16 - width) := by
        rw [units, Nat.pow_succ, Nat.div_div_eq_div_mul]
      have divides : 2 ^ (16 - width) ∣ pos ↔ pos / 2 ^ (16 - (width + 1)) % 2 = 0 := by
        rcases aligned with ⟨code, rfl⟩
        rw [Nat.mul_div_cancel_left _ (Nat.two_pow_pos _), units, Nat.pow_succ,
          Nat.mul_dvd_mul_iff_left (Nat.two_pow_pos _)]
        exact Nat.dvd_iff_mod_eq_zero
      rw [nodes_on_way_succ, needsNode, lowZeros, half]
      by_cases even : 2 ^ (16 - width) ∣ pos
      · rw [if_pos even, if_pos (divides.mp even), ih (by omega) even, Nat.add_comm]
      · rw [if_neg even, if_neg (fun zero => even (divides.mpr zero)), Nat.add_zero]
        -- Nothing larger divides the position either.
        have none : ∀ count ≤ width, nodesOnWay pos count = 0 := by
          intro count
          induction count with
          | zero => exact fun _ => rfl
          | succ count ih' =>
              intro below
              have larger : ¬ 2 ^ (16 - count) ∣ pos := by
                intro more
                exact even (Nat.dvd_trans (Nat.pow_dvd_pow 2 (by omega)) more)
              rw [nodes_on_way_succ, ih' (by omega), needsNode, if_neg larger]
        exact none width (Nat.le_refl _)

end Counting

section Nodes

variable {nbits level last pos : Nat} {leaves : List Leaf}

def endDigits (level pos : Nat) : Nat :=
  lowZeros level (pos / 2 ^ (16 - level)) + lowOnes level (pos / 2 ^ (16 - level))

theorem end_digits_raise {level last : Nat} (raised : level ≤ last) (inside : last ≤ 16)
    (aligned : 2 ^ (16 - level) ∣ pos) :
    endDigits last pos = (last - level) + endDigits level pos := by
  rcases aligned with ⟨code, rfl⟩
  have units : 16 - level = (16 - last) + (last - level) := by omega
  have raise := low_digits_raise (last - level) level code
  rw [Nat.add_sub_cancel' raised] at raise
  have shape : 2 ^ (16 - level) * code = 2 ^ (16 - last) * (code * 2 ^ (last - level)) := by
    rw [units, Nat.pow_add]
    ring
  rw [endDigits, endDigits, Nat.mul_div_cancel_left _ (Nat.two_pow_pos _), shape,
    Nat.mul_div_cancel_left _ (Nat.two_pow_pos _), raise]

/-- The nodes of long codes, with the roots that they fill and the digits at their ends. -/
theorem long_nodes_eq (start : level ≤ last) (inside : last + nbits ≤ 16)
    (aligned : 2 ^ (16 - level) ∣ pos)
    (sorted : leaves.Pairwise fun left right => left.width ≤ right.width)
    (widths : ∀ leaf ∈ leaves, nbits + level ≤ leaf.width ∧ leaf.width ≤ nbits + last)
    (fits : pos + total (lookAhead nbits) leaves ≤ 2 ^ lookAhead nbits) :
    longNodes nbits pos leaves + (pos + total (lookAhead nbits) leaves) / 2 ^ 16 +
        endDigits last (pos + total (lookAhead nbits) leaves) =
      leaves.length + (last - level) + endDigits level pos + pos / 2 ^ 16 := by
  induction leaves generalizing level pos with
  | nil =>
      rw [total_nil, Nat.add_zero, end_digits_raise start (by omega) aligned, longNodes,
        List.length_nil]
      omega
  | cons leaf leaves ih =>
      have width := widths leaf List.mem_cons_self
      have positive := size_pos (lookAhead nbits) leaf
      have later := List.pairwise_cons.mp sorted
      rcases Nat.exists_eq_add_of_le width.1 with ⟨raise, shape⟩
      have deeper : nbits + (level + raise) = leaf.width := by omega
      have size : leaf.size (lookAhead nbits) = 2 ^ (16 - (level + raise)) := by
        rw [Leaf.size, lookAhead, ← deeper]
        congr 1
        omega
      have aligned' : 2 ^ (16 - (level + raise)) ∣ pos :=
        Nat.dvd_trans (Nat.pow_dvd_pow 2 (by omega)) aligned
      have alignedNext : 2 ^ (16 - (level + raise)) ∣ pos + leaf.size (lookAhead nbits) := by
        rw [size]
        exact Nat.dvd_add aligned' (Nat.dvd_refl _)
      rw [total_cons] at fits
      have rest := @ih (level + raise) (pos + leaf.size (lookAhead nbits)) (by omega) alignedNext
        later.2
        (fun other member => by
          have after := later.1 other member
          have bound := widths other (List.mem_cons_of_mem _ member)
          omega)
        (by omega)
      -- One code on: its zeros are its new nodes, and the next code pays for them.
      have code : (pos + leaf.size (lookAhead nbits)) / 2 ^ (16 - (level + raise)) =
          pos / 2 ^ (16 - (level + raise)) + 1 := by
        rw [size, Nat.add_div_right _ (Nat.two_pow_pos _)]
      have root (value : Nat) :
          value / 2 ^ (16 - (level + raise)) / 2 ^ (level + raise) = value / 2 ^ 16 := by
        rw [Nat.div_div_eq_div_mul, ← Nat.pow_add]
        congr 2
        omega
      have counted := count_up (level + raise) (pos / 2 ^ (16 - (level + raise)))
      rw [← code, root, root, ← endDigits] at counted
      have nodes := nodes_on_way_eq (by omega) aligned'
      have raised := @end_digits_raise pos level (level + raise) (by omega) (by omega) aligned
      rw [endDigits] at raised
      have below : leaf.width - nbits = level + raise := by omega
      rw [total_cons, ← Nat.add_assoc, longNodes, if_neg (by omega), below, nodes,
        List.length_cons]
      omega

/-- The codes that are put into the trie: those up to the end of the code space. -/
theorem long_nodes_front (start : pos ≤ 2 ^ lookAhead nbits)
    (aligned : ∀ front leaf back, leaves = front ++ leaf :: back →
      leaf.size (lookAhead nbits) ∣ pos + total (lookAhead nbits) front)
    (whole : ∀ leaf ∈ leaves, leaf.size (lookAhead nbits) ∣ 2 ^ lookAhead nbits) :
    ∃ front back, leaves = front ++ back ∧ longNodes nbits pos leaves = longNodes nbits pos front ∧
      pos + total (lookAhead nbits) front ≤ 2 ^ lookAhead nbits := by
  induction leaves generalizing pos with
  | nil => exact ⟨[], [], rfl, rfl, start⟩
  | cons leaf leaves ih =>
      by_cases past : 2 ^ lookAhead nbits ≤ pos
      · exact ⟨[], leaf :: leaves, rfl, by rw [longNodes, longNodes, if_pos past], start⟩
      · have here := aligned [] leaf leaves rfl
        rw [total_nil, Nat.add_zero] at here
        have fits := block_fits here (whole leaf List.mem_cons_self) (by omega)
        rcases @ih (pos + leaf.size (lookAhead nbits)) fits
          (fun front other back shape => by
            have there := aligned (leaf :: front) other back (by rw [shape, List.cons_append])
            rwa [total_cons, ← Nat.add_assoc] at there)
          (fun other member => whole other (List.mem_cons_of_mem _ member)) with
          ⟨front, back, shape, same, inside⟩
        refine ⟨leaf :: front, back, by rw [shape, List.cons_append], ?_, ?_⟩
        · rw [longNodes, if_neg past, longNodes, if_neg past, same]
        · rw [total_cons]
          omega

end Nodes

/-! ## The nodes of a table -/

section Table

variable {nsyms nbits limit capacity : Nat} {length : List Nat}

theorem leaves_of_widths_symbols {widths : List Nat} (apart : widths.Nodup) :
    ((leavesOfWidths nsyms length widths).map Leaf.symbol).Nodup := by
  rw [List.Nodup, List.pairwise_map, leavesOfWidths, List.pairwise_flatMap]
  constructor
  · intro width _
    rw [leavesOfWidth, List.pairwise_map]
    exact (List.Pairwise.filter _ List.nodup_range)
  · apply apart.imp
    intro width width' different left leftMember right rightMember same
    have leftWidth := leaves_of_width_width leftMember
    have rightWidth := leaves_of_width_width rightMember
    rw [same] at leftWidth
    omega

/-- There are at most as many long codes as symbols that can have one. -/
theorem long_leaves_length
    (used : ∀ sym < nsyms, limit ≤ sym → length.getD sym 0 ≤ nbits) :
    (longLeaves nsyms nbits length).length ≤ limit := by
  have apart := @leaves_of_widths_symbols nsyms length
    (List.range' (nbits + 1) (HUFF_MAXBITS - nbits)) (List.nodup_range' 1)
  have listed : (longLeaves nsyms nbits length).map Leaf.symbol ⊆ List.range limit := by
    intro sym member
    rcases List.mem_map.mp member with ⟨leaf, made, rfl⟩
    have bounds := long_leaves_mem made
    have given := (leaves_of_widths_mem made).2.2
    rw [List.mem_range]
    by_contra past
    have short := used leaf.symbol bounds.2.2 (by omega)
    omega
  have sizes := (List.subperm_of_subset apart listed).length_le
  rwa [List.length_map, List.length_range] at sizes

theorem long_leaves_length_le : (longLeaves nsyms nbits length).length ≤ nsyms :=
  long_leaves_length fun _ below past => absurd below (Nat.not_lt.mpr past)

theorem long_leaves_sorted :
    (longLeaves nsyms nbits length).Pairwise fun left right => left.width ≤ right.width :=
  leaves_of_widths_sorted (List.pairwise_lt_range' 1)

theorem root_aligned (level roots : Nat) : 2 ^ (16 - level) ∣ roots * 2 ^ 16 :=
  Nat.dvd_mul_left_of_dvd (Nat.pow_dvd_pow 2 (Nat.sub_le _ _)) _

theorem end_digits_root (roots : Nat) : endDigits 1 (roots * 2 ^ 16) = 1 := by
  have even : roots * 2 ^ 16 / 2 ^ (16 - 1) = 2 * roots := by
    have parts : roots * 2 ^ 16 = 2 * roots * 2 ^ 15 := by ring
    rw [parts, Nat.mul_div_cancel _ (Nat.two_pow_pos _)]
  rw [endDigits, even, lowZeros, lowOnes, if_pos (by omega), lowZeros, lowOnes]
  omega

theorem long_widths {front back : List Leaf} (shape : longLeaves nsyms nbits length = front ++ back) :
    ∀ leaf ∈ front, nbits + 1 ≤ leaf.width ∧ leaf.width ≤ nbits + (16 - nbits) := by
  intro leaf member
  have bounds := @long_leaves_mem nsyms nbits length leaf (by rw [shape]; simp [member])
  omega

/-- A code that fills its space, but not with its short codes, has fewer nodes than long codes. -/
theorem full_table_nodes (bits : nbits < 16)
    (under : total nbits (shortLeaves nsyms nbits length) < 2 ^ nbits)
    (full : total 16 (codeLeaves nsyms length) = 2 ^ 16) :
    tableNodes nsyms nbits length < (longLeaves nsyms nbits length).length := by
  have filled := (code_full_iff (Nat.le_of_lt bits)).mp full
  have counted := @long_nodes_eq nbits 1 (16 - nbits)
    (total nbits (shortLeaves nsyms nbits length) * 2 ^ 16) (longLeaves nsyms nbits length)
    (by omega) (by omega) (root_aligned 1 _) long_leaves_sorted
    (long_widths (List.append_nil _).symm) (by omega)
  have last : endDigits (16 - nbits) (2 ^ lookAhead nbits) = 16 - nbits := by
    have raised := @end_digits_raise (2 ^ nbits * 2 ^ 16) 1 (16 - nbits) (by omega) (by omega)
      (root_aligned 1 _)
    rw [end_digits_root, ← Nat.pow_add, ← lookAhead] at raised
    omega
  have roots : 2 ^ lookAhead nbits / 2 ^ 16 = 2 ^ nbits := by
    rw [lookAhead, Nat.pow_add, Nat.mul_div_cancel _ (Nat.two_pow_pos _)]
  rw [filled, last, roots, end_digits_root, Nat.mul_div_cancel _ (Nat.two_pow_pos _)] at counted
  rw [tableNodes]
  omega

theorem table_nodes_front (bits : nbits < 16)
    (within : total nbits (shortLeaves nsyms nbits length) ≤ 2 ^ nbits) :
    ∃ front back, longLeaves nsyms nbits length = front ++ back ∧
      tableNodes nsyms nbits length + front.length / 2 ^ (16 - nbits) ≤
        front.length + (16 - nbits) := by
  have start : total nbits (shortLeaves nsyms nbits length) * 2 ^ 16 ≤ 2 ^ lookAhead nbits := by
    rw [lookAhead, Nat.pow_add]
    exact Nat.mul_le_mul_right _ within
  have ordered := @code_leaves_ordered nsyms length (lookAhead nbits) (Nat.le_add_left _ _)
  have short := @total_scaled nbits 16 _ (@short_width nsyms nbits length)
  rw [code_leaves_split (Nat.le_of_lt bits)] at ordered
  rcases @long_nodes_front nbits _ (longLeaves nsyms nbits length) start
    (fun front leaf back shape => by
      rw [shape, ← List.append_assoc] at ordered
      have divides := size_dvd_total ordered
      rwa [total_append, lookAhead, short, ← lookAhead, Nat.mul_comm] at divides)
    (fun leaf _ => Nat.pow_dvd_pow 2 (Nat.sub_le _ _)) with ⟨front, back, shape, same, inside⟩
  have sorted := @long_leaves_sorted nsyms nbits length
  rw [shape] at sorted
  have counted := @long_nodes_eq nbits 1 (16 - nbits)
    (total nbits (shortLeaves nsyms nbits length) * 2 ^ 16) front
    (by omega) (by omega) (root_aligned 1 _) (List.pairwise_append.mp sorted).1
    (long_widths shape) inside
  -- Every code takes at least the last part of a root.
  have least : front.length * 2 ^ nbits ≤ total (lookAhead nbits) front := by
    have widths := long_widths shape
    clear shape same inside sorted counted
    induction front with
    | nil => exact Nat.le_of_eq (Nat.zero_mul _)
    | cons leaf front ih =>
        have width := widths leaf List.mem_cons_self
        have larger : 2 ^ nbits ≤ leaf.size (lookAhead nbits) := by
          apply Nat.pow_le_pow_right (by decide)
          rw [lookAhead]
          omega
        have rest := ih fun other member => widths other (List.mem_cons_of_mem _ member)
        rw [List.length_cons, total_cons, Nat.succ_mul]
        omega
  have roots : front.length / 2 ^ (16 - nbits) +
      total nbits (shortLeaves nsyms nbits length) ≤
        (total nbits (shortLeaves nsyms nbits length) * 2 ^ 16 +
          total (lookAhead nbits) front) / 2 ^ 16 := by
    have parts : 2 ^ 16 = 2 ^ (16 - nbits) * 2 ^ nbits := by
      rw [← Nat.pow_add, Nat.sub_add_cancel (Nat.le_of_lt bits)]
    rw [Nat.mul_comm _ (2 ^ 16), Nat.mul_add_div (Nat.two_pow_pos _), Nat.add_comm]
    apply Nat.add_le_add_left
    rw [parts, ← Nat.mul_div_mul_right _ _ (Nat.two_pow_pos nbits)]
    exact Nat.div_le_div_right least
  rw [end_digits_root, Nat.mul_div_cancel _ (Nat.two_pow_pos _)] at counted
  refine ⟨front, back, shape, ?_⟩
  rw [tableNodes, same]
  omega

/-- Many codes fill so many roots that the widths no longer count. -/
theorem table_nodes_le_of_many (bits : nbits < 16)
    (within : total nbits (shortLeaves nsyms nbits length) ≤ 2 ^ nbits)
    (codes : (longLeaves nsyms nbits length).length ≤ capacity)
    (large : (16 - nbits) * 2 ^ (16 - nbits) + (16 - nbits) ≤ capacity) :
    tableNodes nsyms nbits length ≤ capacity := by
  rcases table_nodes_front bits within with ⟨front, back, shape, bound⟩
  rw [shape, List.length_append] at codes
  by_cases many : (16 - nbits) * 2 ^ (16 - nbits) ≤ front.length
  · have roots := (Nat.le_div_iff_mul_le (Nat.two_pow_pos _)).mpr many
    omega
  · have nodes := Nat.le_trans (Nat.le_add_right _ _) bound
    omega

/-- The nodes that the table has room for: one for each symbol, or for every second root. -/
theorem long_base_room (positive : 0 < nbits) :
    2 * (longBase nsyms (1 <<< nbits) + min nsyms (2 ^ (nbits - 1))) = 2 ^ nbits + 2 * nsyms := by
  have half : (1 <<< nbits) >>> 1 = 2 ^ (nbits - 1) := by
    have more : nbits = nbits - 1 + 1 := by omega
    rw [one_shift, Nat.shiftRight_eq_div_pow, Nat.pow_one]
    nth_rewrite 1 [more]
    rw [Nat.pow_succ, Nat.mul_div_cancel _ (by decide)]
  have twice : 2 ^ nbits = 2 * 2 ^ (nbits - 1) := by
    have more : nbits = nbits - 1 + 1 := by omega
    nth_rewrite 1 [more]
    rw [Nat.pow_succ, Nat.mul_comm]
  rw [longBase, half, twice]
  split_ifs <;> omega

end Table

/-! ## The table as a whole -/

section Whole

variable {nsyms nbits : Nat} {length table : List Nat}

structure TableSize (nsyms nbits : Nat) (table : List Nat) : Prop where
  positive : 0 < nbits
  bits : nbits < 16
  room : table.length = 2 ^ nbits + 2 * nsyms
  small : table.length ≤ unusedEntry

def Usable (nsyms nbits : Nat) (length : List Nat) : Prop :=
  total nbits (shortLeaves nsyms nbits length) = 2 ^ nbits ∨
    total 16 (codeLeaves nsyms length) = 2 ^ 16

theorem usable_inside (size : TableSize nsyms nbits table)
    (codes : (longLeaves nsyms nbits length).length ≤ 2 ^ (nbits - 1))
    (usable : Usable nsyms nbits length)
    (under : total nbits (shortLeaves nsyms nbits length) < 2 ^ nbits) :
    2 * (longBase nsyms (1 <<< nbits) + tableNodes nsyms nbits length) ≤ table.length := by
  have nodes := full_table_nodes size.bits under (usable.resolve_left (Nat.ne_of_lt under))
  have symbols := @long_leaves_length_le nsyms nbits length
  have room := @long_base_room nsyms nbits size.positive
  rw [size.room]
  omega

/-- A table is made exactly when the codes fill their space, or the short ones do already;
and then every lookup finds the symbol whose code the bits start with. -/
theorem make_decode_table_usable (size : TableSize nsyms nbits table)
    (codes : (longLeaves nsyms nbits length).length ≤ 2 ^ (nbits - 1)) :
    ((∃ made, makeDecodeTable nsyms nbits length table = .ok made) ↔ Usable nsyms nbits length) ∧
      ∀ made, makeDecodeTable nsyms nbits length table = .ok made →
        made.length = table.length ∧ LooksUp nsyms nbits length made := by
  rcases make_decode_table_result size.positive (Nat.le_of_lt size.bits) size.room size.small with
    ⟨made, run, sized, looksUp, full⟩ | ⟨made, run, sized, looksUp, under, full, fits⟩ |
    ⟨run, notShort, notFull, _⟩ | ⟨index, run, under, beyond⟩
  · refine ⟨⟨fun _ => Or.inl full, fun _ => ⟨made, run⟩⟩, ?_⟩
    intro other run'
    rw [run] at run'
    cases run'
    exact ⟨sized, looksUp⟩
  · refine ⟨⟨fun _ => Or.inr full, fun _ => ⟨made, run⟩⟩, ?_⟩
    intro other run'
    rw [run] at run'
    cases run'
    exact ⟨sized, looksUp⟩
  · refine ⟨⟨?_, fun usable => (usable.elim notShort notFull).elim⟩, ?_⟩
    · rintro ⟨made, run'⟩
      rw [run] at run'
      cases run'
    · intro made run'
      rw [run] at run'
      cases run'
  · refine ⟨⟨?_, ?_⟩, ?_⟩
    · rintro ⟨made, run'⟩
      rw [run] at run'
      cases run'
    · intro usable
      have inside := usable_inside size codes usable under
      omega
    · intro made run'
      rw [run] at run'
      cases run'

/-- The eight codes of three bits that an aligned tree has. -/
theorem aligned_table_made :
    ∃ made, makeDecodeTable 8 7 (List.replicate 8 3) (List.replicate 144 0) = .ok made ∧
      made.length = 144 ∧ LooksUp 8 7 (List.replicate 8 3) made := by
  have table := @make_decode_table_usable 8 7 (List.replicate 8 3) (List.replicate 144 0)
    ⟨by decide, by decide, List.length_replicate, by simp [unusedEntry]⟩ (by decide +kernel)
  rcases table.1.mpr (Or.inl (by decide +kernel)) with ⟨made, run⟩
  exact ⟨made, run, table.2 made run⟩

/-- A write leaves the table exactly when the long codes need more nodes than there is room for. -/
theorem make_decode_table_outside_iff (size : TableSize nsyms nbits table) :
    (∃ index, makeDecodeTable nsyms nbits length table = .error (.outside index)) ↔
      total nbits (shortLeaves nsyms nbits length) < 2 ^ nbits ∧
        min nsyms (2 ^ (nbits - 1)) < tableNodes nsyms nbits length := by
  have room := @long_base_room nsyms nbits size.positive
  have sized := size.room
  rcases make_decode_table_result size.positive (Nat.le_of_lt size.bits) size.room size.small with
    ⟨made, run, _, _, full⟩ | ⟨made, run, _, _, under, _, fits⟩ | ⟨run, _, _, fits⟩ |
    ⟨index, run, under, beyond⟩
  · rw [run]
    refine ⟨fun stopped => ?_, fun both => absurd full (Nat.ne_of_lt both.1)⟩
    rcases stopped with ⟨_, same⟩
    cases same
  · rw [run]
    refine ⟨fun stopped => ?_, fun both => ?_⟩
    · rcases stopped with ⟨_, same⟩
      cases same
    · omega
  · rw [run]
    refine ⟨fun stopped => ?_, fun both => ?_⟩
    · rcases stopped with ⟨_, same⟩
      cases same
    · have inside := fits both.1
      omega
  · exact ⟨fun _ => ⟨under, by omega⟩, fun _ => ⟨index, run⟩⟩

/-- With many symbols and few widths behind the direct ones, no lengths leave the table. -/
theorem make_decode_table_inside (size : TableSize nsyms nbits table)
    (codes : (longLeaves nsyms nbits length).length ≤ min nsyms (2 ^ (nbits - 1)))
    (large : (16 - nbits) * 2 ^ (16 - nbits) + (16 - nbits) ≤ min nsyms (2 ^ (nbits - 1)))
    (index : Nat) : makeDecodeTable nsyms nbits length table ≠ .error (.outside index) := by
  intro run
  have beyond := (make_decode_table_outside_iff size).mp ⟨index, run⟩
  have nodes := table_nodes_le_of_many size.bits (Nat.le_of_lt beyond.1) codes large
  omega

end Whole

end XeBuild.Mspack
