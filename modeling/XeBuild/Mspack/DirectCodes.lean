import XeBuild.Mspack.DecodeTable
import Mathlib.Data.List.Range

/-!
# The direct part of a decode table

What the loops over the short codes do, as one round for each leaf of the code:
the entries below the position decode their index, and the loops stop early
exactly when the short codes take more than the table.
-/

namespace XeBuild.Mspack

open PrefixCodes ArrayTrie Runs

set_option autoImplicit false

section Entries

variable {table : List Nat} {index value : Nat}

theorem load_entry_inside (inside : index < table.length) :
    loadEntry table index = .ok (table.getD index 0) := if_pos inside

theorem store_entry_inside (inside : index < table.length) :
    storeEntry table index value = .ok (table.set index value) := if_pos inside

theorem one_shift (bits : Nat) : 1 <<< bits = 2 ^ bits := by
  rw [Nat.shiftLeft_eq, Nat.one_mul]

end Entries

section Fill

variable {table : List Nat} {fill leaf sym : Nat}

/-- A run of entries that lies in the table gets the symbol, and nothing else changes. -/
theorem fill_entries_ok (inside : leaf + fill ≤ table.length) :
    ∃ filled, fillEntries fill leaf sym table = .ok filled ∧ filled.length = table.length ∧
      ∀ index, filled.getD index 0 =
        if leaf ≤ index ∧ index < leaf + fill then sym else table.getD index 0 := by
  induction fill generalizing leaf table with
  | zero =>
      refine ⟨table, rfl, rfl, ?_⟩
      intro index
      rw [if_neg (by omega)]
  | succ fill ih =>
      rcases @ih (table.set leaf sym) (leaf + 1) (by rw [List.length_set]; omega) with
        ⟨filled, run, size, entries⟩
      refine ⟨filled, ?_, by rw [size, List.length_set], ?_⟩
      · rw [fillEntries, store_entry_inside (by omega), ok_bind, run]
      · intro index
        rw [entries index]
        by_cases here : index = leaf
        · rw [if_neg (by omega), if_pos (by omega), here, get_d_set_self (by omega)]
        · rw [get_d_set_ne (Ne.symm here)]
          exact if_congr (by omega) rfl rfl

end Fill

/-! ## Loops over the symbols of one width -/

section Loops

variable {State Error : Type} {nsyms bit_num : Nat} {length : List Nat}

/-- A loop that passes over some of its items is a loop over the others. -/
theorem fold_filter {Item : Type} (taken : Item → Bool) (step : State → Item → Except Error State)
    (items : List Item) (state : State) :
    items.foldlM (fun state item => if taken item then step state item else .ok state) state =
      (items.filter taken).foldlM step state := by
  induction items generalizing state with
  | nil => rfl
  | cons item items ih =>
      rw [List.foldlM_cons, List.filter_cons]
      by_cases here : taken item
      · rw [if_pos here, if_pos here, List.foldlM_cons]
        exact bind_congr ih
      · rw [if_neg here, if_neg here, ok_bind, ih]

/-- The loop over the symbols, with `continue` for the lengths that are not `bit_num`. -/
theorem fold_symbols (step : State → Nat → Except Error State) (byLeaf : State → Leaf → Except Error State)
    (skip : ∀ state sym, length.getD sym 0 ≠ bit_num → step state sym = .ok state)
    (take : ∀ state sym, length.getD sym 0 = bit_num → step state sym = byLeaf state ⟨sym, bit_num⟩)
    (state : State) :
    (List.range nsyms).foldlM step state =
      (leavesOfWidth nsyms length bit_num).foldlM byLeaf state := by
  have shape : step = fun state sym =>
      if decide (length.getD sym 0 = bit_num) then byLeaf state ⟨sym, bit_num⟩ else .ok state := by
    funext state sym
    by_cases here : length.getD sym 0 = bit_num
    · rw [if_pos (decide_eq_true here), take state sym here]
    · rw [if_neg (by simpa using here), skip state sym here]
  rw [shape, fold_filter, leavesOfWidth, List.foldlM_map]

theorem leaves_of_width_width {leaf : Leaf} (member : leaf ∈ leavesOfWidth nsyms length bit_num) :
    leaf.width = bit_num ∧ leaf.symbol < nsyms ∧ length.getD leaf.symbol 0 = leaf.width := by
  rcases List.mem_map.mp member with ⟨sym, kept, rfl⟩
  rcases List.mem_filter.mp kept with ⟨small, width⟩
  have same : length.getD sym 0 = bit_num := of_decide_eq_true width
  exact ⟨rfl, List.mem_range.mp small, same⟩

end Loops

/-! ## The loops over the short codes -/

section Direct

variable {nsyms nbits pos number : Nat} {length table : List Nat} {leaves : List Leaf}

def directLeaf (nbits : Nat) (state : Direct) (leaf : Leaf) : Except TableStop Direct :=
  if state.pos + leaf.size nbits > 2 ^ nbits then .error .unusable
  else do
    let table ← fillEntries (leaf.size nbits) state.pos leaf.symbol state.table
    return ⟨table, state.pos + leaf.size nbits⟩

/-- The entries from `pos` on decode their index by the leaves; those in front are kept. -/
structure Decodes (nbits pos : Nat) (leaves : List Leaf) (table filled : List Nat) : Prop where
  size : filled.length = table.length
  before : ∀ index < pos, filled.getD index 0 = table.getD index 0
  found : ∀ number < total nbits leaves, ∃ leaf, locate nbits leaves number = some leaf ∧
    filled.getD (pos + number) 0 = leaf.symbol

/-- The leaves are taken one after the other until they leave the table. -/
theorem direct_leaves (room : 2 ^ nbits ≤ table.length) (start : pos ≤ 2 ^ nbits) :
    (pos + total nbits leaves ≤ 2 ^ nbits ∧ ∃ filled,
        leaves.foldlM (directLeaf nbits) ⟨table, pos⟩ = .ok ⟨filled, pos + total nbits leaves⟩ ∧
        Decodes nbits pos leaves table filled) ∨
      (2 ^ nbits < pos + total nbits leaves ∧
        leaves.foldlM (directLeaf nbits) ⟨table, pos⟩ = .error .unusable) := by
  induction leaves generalizing table pos with
  | nil =>
      refine Or.inl ⟨start, table, rfl, rfl, fun _ _ => rfl, ?_⟩
      intro number inside
      cases inside
  | cons leaf leaves ih =>
      rw [List.foldlM_cons, total_cons]
      by_cases beyond : pos + leaf.size nbits > 2 ^ nbits
      · refine Or.inr ⟨by omega, ?_⟩
        rw [directLeaf, if_pos beyond]
        rfl
      · rcases @fill_entries_ok table (leaf.size nbits) pos leaf.symbol (by omega) with
          ⟨filled, run, size, entries⟩
        have step : directLeaf nbits ⟨table, pos⟩ leaf = .ok ⟨filled, pos + leaf.size nbits⟩ := by
          rw [directLeaf, if_neg beyond, run]
          rfl
        rw [step, ok_bind, ← Nat.add_assoc]
        rcases @ih (pos + leaf.size nbits) filled (by omega) (by omega) with
          ⟨inside, final, rest, decodes⟩ | ⟨past, stopped⟩
        · refine Or.inl ⟨inside, final, rest, ?_, ?_, ?_⟩
          · rw [decodes.size, size]
          · intro index before
            rw [decodes.before index (by omega), entries, if_neg (by omega)]
          · intro number small
            rw [total_cons] at small
            rw [locate]
            by_cases here : number < leaf.size nbits
            · refine ⟨leaf, if_pos here, ?_⟩
              rw [decodes.before _ (by omega), entries, if_pos (by omega)]
            · rcases decodes.found (number - leaf.size nbits) (by omega) with ⟨found, located, entry⟩
              refine ⟨found, by rw [if_neg here, located], ?_⟩
              rw [← entry]
              congr 1
              omega
        · exact Or.inr ⟨past, stopped⟩

theorem direct_length_eq {bit_num : Nat} (state : Direct) :
    directLength nsyms length (1 <<< nbits) (state, 2 ^ (nbits - bit_num)) bit_num = (do
      let direct ← (leavesOfWidth nsyms length bit_num).foldlM (directLeaf nbits) state
      return (direct, 2 ^ (nbits - bit_num) >>> 1)) := by
  have loop := @fold_symbols Direct TableStop nsyms bit_num length
    (directSymbol length (1 <<< nbits) bit_num (2 ^ (nbits - bit_num))) (directLeaf nbits)
    (fun state sym other => by rw [directSymbol, if_pos other])
    (fun state sym same => by
      rw [directSymbol, if_neg (not_not_intro same), directLeaf, Leaf.size, one_shift])
    state
  rw [directLength, loop]

/-- The loops over the widths from `bit_num` on are one loop over the leaves. -/
theorem direct_widths_eq {bit_num count : Nat} (last : bit_num + count = nbits + 1)
    (state : Direct) :
    ((List.range' bit_num count).foldlM (directLength nsyms length (1 <<< nbits))
        (state, 2 ^ (nbits - bit_num)) >>= fun result => .ok result.1) =
      (leavesOfWidths nsyms length (List.range' bit_num count)).foldlM (directLeaf nbits) state := by
  induction count generalizing bit_num state with
  | zero => rfl
  | succ count ih =>
      rw [List.range'_succ, List.foldlM_cons, leavesOfWidths, List.flatMap_cons, List.foldlM_append,
        direct_length_eq, ← leavesOfWidths, bind_assoc, bind_assoc]
      apply bind_congr
      intro direct
      rw [pure_bind]
      cases count with
      | zero => rfl
      | succ count =>
          have halved : 2 ^ (nbits - bit_num) >>> 1 = 2 ^ (nbits - (bit_num + 1)) := by
            have more : nbits - bit_num = nbits - (bit_num + 1) + 1 := by omega
            rw [more, Nat.shiftRight_eq_div_pow, Nat.pow_one, Nat.pow_succ, Nat.mul_div_cancel _
              (by decide)]
          rw [halved, ih (by omega)]

end Direct

/-- The short codes fill the front of the table, or they do not fit it. -/
theorem direct_codes_result {nsyms nbits : Nat} {length table : List Nat}
    (room : 2 ^ nbits ≤ table.length) :
    (total nbits (shortLeaves nsyms nbits length) ≤ 2 ^ nbits ∧ ∃ filled mask,
        directCodes nsyms nbits length table =
          .ok (⟨filled, total nbits (shortLeaves nsyms nbits length)⟩, mask) ∧
        Decodes nbits 0 (shortLeaves nsyms nbits length) table filled) ∨
      (2 ^ nbits < total nbits (shortLeaves nsyms nbits length) ∧
        directCodes nsyms nbits length table = .error .unusable) := by
  have start : (1 <<< nbits) >>> 1 = 2 ^ (nbits - 1) ∨ nbits = 0 := by
    cases nbits with
    | zero => exact Or.inr rfl
    | succ nbits =>
        left
        rw [one_shift, Nat.shiftRight_eq_div_pow, Nat.pow_one, Nat.pow_succ,
          Nat.mul_div_cancel _ (by decide), Nat.succ_sub_one]
  have loops : (directCodes nsyms nbits length table >>= fun result => .ok result.1) =
      (shortLeaves nsyms nbits length).foldlM (directLeaf nbits) ⟨table, 0⟩ := by
    rcases start with mask | none
    · rw [directCodes, mask, shortLeaves]
      exact direct_widths_eq (Nat.add_comm _ _) _
    · subst none
      rfl
  have leaves := @direct_leaves nbits 0 table (shortLeaves nsyms nbits length) room (Nat.zero_le _)
  rw [Nat.zero_add, ← loops] at leaves
  rcases leaves with ⟨inside, filled, run, decodes⟩ | ⟨past, stopped⟩
  · rcases bind_ok_iff.mp run with ⟨⟨direct, mask⟩, made, same⟩
    cases same
    exact Or.inl ⟨inside, filled, mask, made, decodes⟩
  · refine Or.inr ⟨past, ?_⟩
    cases run : directCodes nsyms nbits length table with
    | error stop =>
        rw [run] at stopped
        cases stopped
        rfl
    | ok result =>
        rw [run] at stopped
        cases stopped

end XeBuild.Mspack
