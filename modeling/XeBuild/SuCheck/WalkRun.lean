import XeBuild.SuCheck.ContainerWalk

/-!
# Whole walks over a laid out container

One pass of the loop is one group. From it, by induction over the groups that
are left, what a walk to the end has compared, and what makes it go through and
fill `blockInfo`.
-/

namespace XeBuild.SuCheck

open ListRange Runs

set_option autoImplicit false

structure GroupChecks (sha : Sha) (c : Container) (count group : Nat) : Prop where
  data : ∀ index < groupSize count group, DataMatches sha c (group * 0xAA + index)
  tables : (group + 1) * 0xAA < verifiedBlocks count → TableChecks sha c group

def passed (c : Container) (count group : Nat) (w : Walk) : Step :=
  if (group + 1) * 0xAA < verifiedBlocks count then
    .next ((Walk.stored^[groupSize count group] w).entered c (group + 1))
  else
    .finished (Walk.stored^[groupSize count group] w)

section Pass

variable {sha : Sha} {c : Container} {count group : Nat} {w w' : Walk} {step : Step}

theorem verified_le (count : Nat) : verifiedBlocks count ≤ count := by
  unfold verifiedBlocks
  split <;> omega

theorem group_size_full (more : (group + 1) * 0xAA < verifiedBlocks count) :
    groupSize count group = 0xAA := by
  have bound := verified_le count
  rw [groupSize]
  omega

theorem group_verified (present : group * 0xAA < verifiedBlocks count) :
    group * 0xAA + groupSize count group ≤ verifiedBlocks count ∧
      (¬ (group + 1) * 0xAA < verifiedBlocks count →
        group * 0xAA + groupSize count group = verifiedBlocks count) := by
  unfold verifiedBlocks groupSize at *
  split <;> split at present <;> omega

theorem next_table_after (layout : Layout c count) (here : AtGroup c group w)
    (more : (group + 1) * 0xAA < verifiedBlocks count) :
    nextTable sha c.conData c.conDataStart (Walk.stored^[groupSize count group] w) = .ok (some w') ↔
      TableChecks sha c group ∧
        (Walk.stored^[groupSize count group] w).entered c (group + 1) = w' := by
  have bound := verified_le count
  obtain ⟨j, _, mhb⟩ := stored_iterate_kept (groupSize count group) w
  have offset := group_offset layout here (by omega) (Nat.le_refl _)
  rw [group_size_full more] at offset j mhb ⊢
  exact next_table_iff layout (by omega) offset (j.trans here.j) (mhb.trans here.mhb)

theorem walk_pass_sound (layout : Layout c count) (here : AtGroup c group w)
    (present : group * 0xAA < verifiedBlocks count)
    (pass : walkPass sha c.conData c.conDataStart c.conData.length w = .ok step)
    (accepted : step ≠ .rejected) :
    GroupChecks sha c count group ∧ passed c count group w = step := by
  have bound := verified_le count
  have inCount : group * 0xAA < count := by omega
  unfold walkPass at pass
  simp only [bind_ok_iff] at pass
  obtain ⟨result, loop, pass⟩ := pass
  cases result with
  | none =>
      cases pass
      exact absurd rfl accepted
  | some result =>
      obtain ⟨contProcess, v⟩ := result
      obtain ⟨stored, data, full⟩ := group_fragment_sound layout here inCount loop
      subst stored
      have offset := group_offset layout here inCount (Nat.le_refl _)
      dsimp only at pass
      rw [offset] at pass
      unfold passed
      split at pass
      · next ended =>
          have last := (end_test layout present).mp ended
          cases pass
          rw [if_neg (by omega)]
          exact ⟨⟨data, fun more => absurd more (by omega)⟩, rfl⟩
      · next goesOn =>
          have more : (group + 1) * 0xAA < verifiedBlocks count := by
            rw [end_test layout present] at goesOn
            omega
          simp only [bind_ok_iff] at pass
          obtain ⟨found, table, pass⟩ := pass
          cases found with
          | none =>
              cases pass
              exact absurd rfl accepted
          | some after =>
              obtain ⟨checks, same⟩ := (next_table_after layout here more).mp table
              dsimp only at pass
              rw [if_pos (full (group_size_full more))] at pass
              cases pass
              rw [if_pos more, same]
              exact ⟨⟨data, fun _ => checks⟩, rfl⟩

theorem walk_pass_complete (layout : Layout c count) (here : AtGroup c group w)
    (present : group * 0xAA < verifiedBlocks count) (checks : GroupChecks sha c count group)
    (room : group * 0xAA + groupSize count group ≤ w.blockInfo.length)
    (unused : groupSize count group < 0xAA → EntryUnused c.conData
      (c.blockOffset (tableBlock group) + groupSize count group * hashEntrySize)) :
    walkPass sha c.conData c.conDataStart c.conData.length w = .ok (passed c count group w) := by
  have bound := verified_le count
  have inCount : group * 0xAA < count := by omega
  obtain ⟨contProcess, loop, full⟩ := group_fragment_complete layout here inCount checks.data room unused
  have offset := group_offset layout here inCount (Nat.le_refl _)
  unfold walkPass
  rw [bind_ok_iff]
  refine ⟨_, loop, ?_⟩
  dsimp only
  rw [offset]
  unfold passed
  by_cases more : (group + 1) * 0xAA < verifiedBlocks count
  · have table := (next_table_after layout here more).mpr ⟨checks.tables more, rfl⟩
    have goesOn : ¬ u32 (c.blockOffset (tableBlock group + 1 + groupSize count group) + 0x2000) ≥
        c.conData.length := by
      rw [end_test layout present]
      omega
    rw [if_neg goesOn, if_pos more, bind_ok_iff]
    refine ⟨_, table, ?_⟩
    dsimp only
    rw [if_pos (full (group_size_full more))]
    rfl
  · rw [if_pos ((end_test layout present).mpr (by omega)), if_neg more]
    rfl

end Pass

/-! ## The block map -/

def blockMap (c : Container) (size known : Nat) : List (Option Nat) :=
  DigestTree.table (fun number => some (c.blockOffset (dataBlock number))) none size
    (List.range known)

section Map

variable {c : Container} {count group size : Nat} {w : Walk}

theorem block_map_zero (c : Container) (size : Nat) :
    blockMap c size 0 = List.replicate size none :=
  rfl

theorem block_map_length {known : Nat} (fits : known ≤ size) :
    (blockMap c size known).length = size := by
  apply DigestTree.table_length
  rwa [List.length_range]

theorem block_map_snoc {known : Nat} (room : known < size) :
    (blockMap c size known).set known (some (c.blockOffset (dataBlock known))) =
      blockMap c size (known + 1) := by
  unfold blockMap
  rw [List.range_succ, ← DigestTree.table_snoc _ _ (by rwa [List.length_range]), List.length_range]

theorem group_blocks_stored (layout : Layout c count) (here : AtGroup c group w)
    (present : group * 0xAA < count) (known : w.blockInfo = blockMap c size (group * 0xAA))
    {index : Nat} (inGroup : index ≤ groupSize count group) (room : group * 0xAA + index ≤ size) :
    (Walk.stored^[index] w).blockInfo = blockMap c size (group * 0xAA + index) := by
  induction index with
  | zero => exact known
  | succ index ih =>
      have before := ih (by omega) (by omega)
      have offset := group_offset layout here present (by omega : index ≤ groupSize count group)
      have inTable : index < 0xAA := by
        rw [groupSize] at inGroup
        omega
      have block := (stored_iterate_block index w).1
      have place := (data_block_of_group group inTable).1
      rw [Function.iterate_succ_apply', Walk.stored, before, block, here.currBlock, offset, ← place]
      exact block_map_snoc room

end Map

/-! ## The loop -/

section Loop

variable {sha : Sha} {c : Container} {count group size : Nat} {w w' : Walk}

theorem passed_at_group (here : AtGroup c group w)
    (more : (group + 1) * 0xAA < verifiedBlocks count) :
    AtGroup c (group + 1) ((Walk.stored^[groupSize count group] w).entered c (group + 1)) := by
  apply entered_at_group
  rw [(stored_iterate_block _ w).1, here.currBlock, group_size_full more]
  omega

/-- A walk that ends with `TRUE` has compared every group up to the end. -/
theorem walk_loop_sound (layout : Layout c count) (here : AtGroup c group w)
    (present : group * 0xAA < verifiedBlocks count)
    (run : walkLoop sha c.conData c.conDataStart c.conData.length w = .ok (some w')) :
    ∀ later, group ≤ later → later * 0xAA < verifiedBlocks count →
      GroupChecks sha c count later := by
  fun_induction walkLoop sha c.conData c.conDataStart c.conData.length w generalizing group with
  | case1 w fault pass => cases run
  | case2 w pass => cases run
  | case3 w after pass =>
      obtain ⟨checks, leads⟩ := walk_pass_sound layout here present pass (by simp)
      unfold passed at leads
      split at leads
      · cases leads
      · intro later above before
        have same : later = group := by omega
        rw [same]
        exact checks
  | case4 w after pass ih =>
      obtain ⟨checks, leads⟩ := walk_pass_sound layout here present pass (by simp)
      unfold passed at leads
      split at leads
      · next more =>
          cases leads
          intro later above before
          rcases Nat.eq_or_lt_of_le above with same | behind
          · rw [← same]
            exact checks
          · exact ih (passed_at_group here more) more run later behind before
      · cases leads

theorem walk_pass_run (layout : Layout c count) (here : AtGroup c group w)
    (present : group * 0xAA < verifiedBlocks count) (checks : GroupChecks sha c count group)
    (unused : groupSize count group < 0xAA → EntryUnused c.conData
      (c.blockOffset (tableBlock group) + groupSize count group * hashEntrySize))
    (room : verifiedBlocks count ≤ size) (known : w.blockInfo = blockMap c size (group * 0xAA)) :
    walkPass sha c.conData c.conDataStart c.conData.length w = .ok (passed c count group w) ∧
      (Walk.stored^[groupSize count group] w).blockInfo =
        blockMap c size (group * 0xAA + groupSize count group) := by
  have bound := verified_le count
  obtain ⟨inside, _⟩ := group_verified present
  have info : w.blockInfo.length = size := by
    rw [known]
    exact block_map_length (by omega)
  constructor
  · exact walk_pass_complete layout here present checks (by omega) unused
  · exact group_blocks_stored layout here (by omega) known (Nat.le_refl _) (by omega)

/-- When every comparison holds and `blockInfo` has room, the walk ends with
`TRUE` and the map lists the compared blocks. -/
theorem walk_loop_complete (layout : Layout c count) (here : AtGroup c group w)
    (present : group * 0xAA < verifiedBlocks count)
    (checks : ∀ later, group ≤ later → later * 0xAA < verifiedBlocks count →
      GroupChecks sha c count later)
    (unused : ∀ later, later * 0xAA < verifiedBlocks count → groupSize count later < 0xAA →
      EntryUnused c.conData
        (c.blockOffset (tableBlock later) + groupSize count later * hashEntrySize))
    (room : verifiedBlocks count ≤ size) (known : w.blockInfo = blockMap c size (group * 0xAA)) :
    ∃ w', walkLoop sha c.conData c.conDataStart c.conData.length w = .ok (some w') ∧
      w'.blockInfo = blockMap c size (verifiedBlocks count) := by
  fun_induction walkLoop sha c.conData c.conDataStart c.conData.length w generalizing group with
  | case1 w fault run =>
      obtain ⟨pass, _⟩ := walk_pass_run layout here present (checks group (Nat.le_refl _) present)
        (unused group present) room known
      rw [run] at pass
      cases pass
  | case2 w run =>
      obtain ⟨pass, _⟩ := walk_pass_run layout here present (checks group (Nat.le_refl _) present)
        (unused group present) room known
      rw [run] at pass
      unfold passed at pass
      split at pass <;> cases pass
  | case3 w after run =>
      obtain ⟨pass, stored⟩ := walk_pass_run layout here present
          (checks group (Nat.le_refl _) present)
        (unused group present) room known
      rw [run] at pass
      unfold passed at pass
      split at pass
      · cases pass
      · next last =>
          cases pass
          rw [(group_verified present).2 last] at stored
          exact ⟨_, rfl, stored⟩
  | case4 w after run ih =>
      obtain ⟨pass, stored⟩ := walk_pass_run layout here present
          (checks group (Nat.le_refl _) present)
        (unused group present) room known
      rw [run] at pass
      unfold passed at pass
      split at pass
      · next more =>
          cases pass
          have next : group * 0xAA + groupSize count group = (group + 1) * 0xAA := by
            rw [group_size_full more, Nat.succ_mul]
          rw [next] at stored
          exact ih (passed_at_group here more) more
            (fun later behind before => checks later (Nat.le_of_succ_le behind) before) stored
      · cases pass

end Loop

/-! ## The whole check -/

section Check

variable {sha : Sha} {c : Container} {count : Nat} {blockInfo info : List (Option Nat)}

structure ContentIdMatches (sha : Sha) (conData : Bytes) (conDataStart : Nat) : Prop where
  inside : contentIdOffset + XECRYPT_SHA_DIGEST_SIZE ≤ conData.length
  headerInside : headerSize + sub32 conDataStart headerSize ≤ conData.length
  digest : slice conData contentIdOffset XECRYPT_SHA_DIGEST_SIZE =
    (sha (slice conData headerSize (sub32 conDataStart headerSize))).bytes

def Walk.first (conDataStart : Nat) (blockInfo : List (Option Nat)) : Walk :=
  { currBlock := 0
    currOffset := u32 (conDataStart + hashBlockSize)
    j := 0
    hb := conDataStart
    mhb := none
    blockInfo := blockInfo }

theorem con_check_hashes_ok_iff {conData : Bytes} {conDataStart conDataLen : Nat} :
    conCheckHashes sha conData conDataStart conDataLen blockInfo = .ok (some info) ↔
      ContentIdMatches sha conData conDataStart ∧
        ∃ w, walkLoop sha conData conDataStart conDataLen (Walk.first conDataStart blockInfo) =
          .ok (some w) ∧ w.blockInfo = info := by
  unfold conCheckHashes
  simp only [bind_ok_iff, hash_at_ok_iff, read_at_ok_iff]
  constructor
  · intro accepted
    rcases accepted with ⟨_, ⟨headerInside, rfl⟩, _, ⟨inside, rfl⟩, run⟩
    split at run
    · next digest =>
        simp only [bind_ok_iff] at run
        obtain ⟨result, walk, run⟩ := run
        cases result with
        | none => cases run
        | some w =>
            cases run
            exact ⟨⟨inside, headerInside, digest⟩, w, walk, rfl⟩
    · cases run
  · intro walked
    rcases walked with ⟨contentId, w, walk, rfl⟩
    refine ⟨_, ⟨contentId.headerInside, rfl⟩, _, ⟨contentId.inside, rfl⟩, ?_⟩
    rw [if_pos contentId.digest, bind_ok_iff]
    exact ⟨some w, walk, rfl⟩

theorem first_at_group (layout : Layout c count) :
    AtGroup c 0 (Walk.first c.conDataStart blockInfo) := by
  have start : c.blockOffset 0 = c.conDataStart := by
    rw [Container.blockOffset, Nat.zero_mul, Nat.add_zero]
  have present : 0 < totalBlocks count := Nat.lt_of_le_of_lt (Nat.zero_le _)
    (data_block_lt layout.nonempty)
  have offset := offset_u32 layout present
  rw [start] at offset
  exact ⟨(Nat.zero_mul _).symm, offset, rfl, start.symm, rfl⟩

theorem verified_pos (layout : Layout c count) : 0 * 0xAA < verifiedBlocks count := by
  have nonempty := layout.nonempty
  unfold verifiedBlocks
  split <;> omega

theorem con_check_hashes_sound (layout : Layout c count)
    (run : conCheckHashes sha c.conData c.conDataStart c.conData.length blockInfo =
      .ok (some info)) :
    ∀ group, group * 0xAA < verifiedBlocks count → GroupChecks sha c count group := by
  obtain ⟨_, w, walk, _⟩ := con_check_hashes_ok_iff.mp run
  have checks := walk_loop_sound layout (first_at_group layout) (verified_pos layout) walk
  intro group before
  exact checks group (Nat.zero_le _) before

theorem con_check_hashes_complete (layout : Layout c count)
    (contentId : ContentIdMatches sha c.conData c.conDataStart)
    (checks : ∀ group, group * 0xAA < verifiedBlocks count → GroupChecks sha c count group)
    (unused : ∀ group, group * 0xAA < verifiedBlocks count → groupSize count group < 0xAA →
      EntryUnused c.conData
        (c.blockOffset (tableBlock group) + groupSize count group * hashEntrySize))
    {size : Nat} (room : verifiedBlocks count ≤ size) :
    conCheckHashes sha c.conData c.conDataStart c.conData.length (List.replicate size none) =
      .ok (some (blockMap c size (verifiedBlocks count))) := by
  rw [con_check_hashes_ok_iff]
  refine ⟨contentId, ?_⟩
  apply walk_loop_complete layout (first_at_group layout) (verified_pos layout) _ unused room
  · rw [Nat.zero_mul, block_map_zero]
    rfl
  · intro group _ before
    exact checks group before

end Check

end XeBuild.SuCheck
