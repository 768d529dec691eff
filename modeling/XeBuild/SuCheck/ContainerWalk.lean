import XeBuild.SuCheck.StfsLayout
import XeBuild.Lib.DigestTree

/-!
# The walk over a laid out container

On a region that is laid out for its data blocks the walk finds every table
where the layout has it, group by group. What it compares on the way is stated
here for each group; the comparison it leaves out at the end is what
`verifiedBlocks` counts.
-/

namespace XeBuild.SuCheck

open ListRange Runs

set_option autoImplicit false

/-- The data blocks the walk compares. A last group of one block is skipped
when it is not the second one: its table and the block fit the slack of the
end test. -/
def verifiedBlocks (count : Nat) : Nat :=
  if count % 0xAA = 1 ∧ 2 * 0xAA < count then count - 1 else count

structure AtGroup (c : Container) (group : Nat) (w : Walk) : Prop where
  currBlock : w.currBlock = group * 0xAA
  currOffset : w.currOffset = c.blockOffset (tableBlock group + 1)
  j : w.j = group
  hb : w.hb = c.blockOffset (tableBlock group)
  mhb : w.mhb = if group = 0 then none else some (c.blockOffset masterBlock)

def groupSize (count group : Nat) : Nat := min 0xAA (count - group * 0xAA)

structure TableChecks (sha : Sha) (c : Container) (group : Nat) : Prop where
  master : group = 0 → RootMatches sha c masterBlock ∧ TableMatches sha c 0
  next : TableMatches sha c (group + 1)

section Fragment

variable {sha : Sha} {c : Container} {count group : Nat} {w w' : Walk} {contProcess : Bool}

theorem stored_offset {block : Nat} (start : w.currOffset = c.blockOffset block) (stored : Nat)
    (inside : c.blockOffset (block + stored) ≤ c.conData.length) :
    (Walk.stored^[stored] w).currOffset = c.blockOffset (block + stored) := by
  have bound := c.size
  induction stored generalizing w block with
  | zero => exact start
  | succ stored ih =>
      have next : block + 1 + stored = block + (stored + 1) := by omega
      rw [Function.iterate_succ_apply, ← next]
      rw [← next] at inside
      apply ih
      · have early : c.blockOffset (block + 1) ≤ c.blockOffset (block + 1 + stored) :=
          block_offset_mono c (Nat.le_add_right _ _)
        change u32 (w.currOffset + 0x1000) = _
        rw [start, block_offset_succ]
        exact u32_of_lt (by omega)
      · exact inside

theorem entry_matches_iff (layout : Layout c count) {index : Nat} (inGroup : index < 0xAA)
    (present : group * 0xAA + index < count) :
    EntryMatches sha c.conData (c.blockOffset (tableBlock group) + index * hashEntrySize)
        (c.blockOffset (tableBlock group + 1 + index)) ↔
      DataMatches sha c (group * 0xAA + index) := by
  obtain ⟨place, quotient, rest⟩ := data_block_of_group group inGroup
  have used := layout.used _ present
  have inside := block_inside layout (data_block_lt present)
  rw [place] at inside
  have entryInside : c.blockOffset (tableBlock group) + index * hashEntrySize + hashEntrySize ≤
      c.conData.length := by
    have table := block_offset_mono c (show tableBlock group ≤
        tableBlock group + 1 + index by omega)
    rw [hashEntrySize]
    omega
  rw [Container.dataEntry, quotient, rest] at used
  rw [DataMatches, place, quotient, rest, ← entry_take]
  constructor
  · intro entry
    exact entry.digest
  · intro digest
    exact ⟨entryInside, used, inside, digest⟩

/-- Where the blocks of a group end: at the end of the region for the last one. -/
theorem group_end (present : group * 0xAA < count) :
    tableBlock group + 1 + groupSize count group ≤ totalBlocks count ∧
      (groupSize count group < 0xAA →
        totalBlocks count = tableBlock group + 1 + groupSize count group) := by
  unfold groupSize
  by_cases more : (group + 1) * 0xAA < count
  · have after := total_blocks_more more
    rw [table_block_succ] at after
    have before : tableBlock group ≤ group * 0xAB + 1 := by
      unfold tableBlock
      split <;> omega
    constructor <;> omega
  · have last : totalBlocks (group * 0xAA + (count - group * 0xAA)) = _ :=
      total_blocks_last (by omega) (by omega)
    rw [Nat.add_sub_cancel' (by omega)] at last
    constructor <;> omega

theorem group_offset (layout : Layout c count) (here : AtGroup c group w)
    (present : group * 0xAA < count) {index : Nat} (inGroup : index ≤ groupSize count group) :
    (Walk.stored^[index] w).currOffset = c.blockOffset (tableBlock group + 1 + index) := by
  apply stored_offset here.currOffset
  rw [← layout.ends]
  exact block_offset_mono c (by have ends := (group_end present).1; omega)

theorem group_index_lt {index : Nat} (before : index < groupSize count group) :
    group * 0xAA + index < count := by
  rw [groupSize] at before
  omega

/-- The entries of a group, as a loop over them has compared them. -/
theorem group_entries {stored : Nat} (here : AtGroup c group w)
    (loop : FragmentRun sha c.conData hashBlockEntries w stored contProcess) :
    ∀ index < stored, EntryMatches sha c.conData
      (c.blockOffset (tableBlock group) + index * hashEntrySize)
      ((Walk.stored^[index] w).currOffset) := by
  intro index before
  have entry := loop.entries index before
  rwa [Nat.sub_self, Nat.zero_add, here.hb] at entry

/-- Past the last block of the region nothing can be read, and up to it every
entry is used: the loop stores the blocks of its group. -/
theorem group_stored_count {stored : Nat} (layout : Layout c count) (here : AtGroup c group w)
    (present : group * 0xAA < count)
    (loop : FragmentRun sha c.conData hashBlockEntries w stored contProcess) :
    stored = groupSize count group := by
  obtain ⟨_, ends⟩ := group_end present
  have bound : stored ≤ 0xAA := loop.bound
  have size : groupSize count group ≤ 0xAA := Nat.min_le_left _ _
  apply Nat.le_antisymm
  · by_contra more
    have entry := group_entries here loop (groupSize count group) (by omega)
    have inside := entry.blockInside
    rw [group_offset layout here present (Nat.le_refl _), ← ends (by omega)] at inside
    have past := block_past_end layout (Nat.le_refl _)
    omega
  · by_contra fewer
    cases contProcess with
    | true =>
        have full : stored = 0xAA := loop.full rfl
        omega
    | false =>
        obtain ⟨_, _, unused⟩ := loop.ended rfl
        obtain ⟨_, quotient, rest⟩ := data_block_of_group group (show stored < 0xAA by omega)
        have used := layout.used _ (group_index_lt (Nat.lt_of_not_le fewer))
        rw [Nat.sub_self, Nat.zero_add, here.hb] at unused
        rw [Container.dataEntry, quotient, rest] at used
        exact absurd (used.symm.trans unused) Bool.false_ne_true

/-- A loop over the entries of a group that is not rejected: it has compared
exactly the data blocks of the group. -/
theorem group_fragment_sound (layout : Layout c count) (here : AtGroup c group w)
    (present : group * 0xAA < count)
    (run : fragment sha c.conData hashBlockEntries w = .ok (some (contProcess, w'))) :
    Walk.stored^[groupSize count group] w = w' ∧
      (∀ index < groupSize count group, DataMatches sha c (group * 0xAA + index)) ∧
      (groupSize count group = 0xAA → contProcess = true) := by
  obtain ⟨stored, loop, result⟩ := (fragment_ok_iff (Nat.le_refl _)).mp run
  have same := group_stored_count layout here present loop
  have size : groupSize count group ≤ 0xAA := Nat.min_le_left _ _
  rw [same] at result loop
  refine ⟨result, ?_, ?_⟩
  · intro index before
    have entry := group_entries here loop index before
    rw [group_offset layout here present before.le] at entry
    exact (entry_matches_iff layout (by omega) (group_index_lt before)).mp entry
  · intro full
    cases contProcess with
    | true => rfl
    | false =>
        have ended : groupSize count group < 0xAA := (loop.ended rfl).1
        omega

/-- The loop goes through when the blocks of the group match their entries. -/
theorem group_fragment_complete (layout : Layout c count) (here : AtGroup c group w)
    (present : group * 0xAA < count)
    (data : ∀ index < groupSize count group, DataMatches sha c (group * 0xAA + index))
    (room : group * 0xAA + groupSize count group ≤ w.blockInfo.length)
    (unused : groupSize count group < 0xAA → EntryUnused c.conData
      (c.blockOffset (tableBlock group) + groupSize count group * hashEntrySize)) :
    ∃ contProcess, fragment sha c.conData hashBlockEntries w =
        .ok (some (contProcess, Walk.stored^[groupSize count group] w)) ∧
      (groupSize count group = 0xAA → contProcess = true) := by
  have size : groupSize count group ≤ 0xAA := Nat.min_le_left _ _
  refine ⟨decide (groupSize count group = 0xAA), ?_, by simp⟩
  rw [fragment_ok_iff (Nat.le_refl _)]
  refine ⟨groupSize count group, ⟨size, ?_, ?_, ?_, ?_⟩, rfl⟩
  · intro index before
    rw [here.currBlock]
    omega
  · intro index before
    rw [Nat.sub_self, Nat.zero_add, here.hb, group_offset layout here present before.le]
    exact (entry_matches_iff layout (by omega) (group_index_lt before)).mpr (data index before)
  · intro full
    exact of_decide_eq_true full
  · intro ended
    have fewer : groupSize count group < 0xAA := by
      have different := of_decide_eq_false ended
      omega
    rw [Nat.sub_self, Nat.zero_add, here.hb]
    exact ⟨fewer, unused fewer⟩

end Fragment

/-! ## Between two groups -/

section Tables

variable {sha : Sha} {c : Container} {count group : Nat} {w w' : Walk}

theorem slack_iff (present : group * 0xAA < verifiedBlocks count) :
    totalBlocks count ≤ tableBlock group + 1 + groupSize count group + 2 ↔
      verifiedBlocks count ≤ (group + 1) * 0xAA := by
  have inCount : group * 0xAA < count := by
    unfold verifiedBlocks at present
    split at present <;> omega
  obtain ⟨_, ends⟩ := group_end inCount
  by_cases more : (group + 1) * 0xAA < count
  · have size : groupSize count group = 0xAA := by
      rw [groupSize]
      omega
    have total : totalBlocks count = count + groupCount count + 1 := by
      rw [totalBlocks, if_neg (by omega)]
    rw [size, total, groupCount]
    unfold tableBlock verifiedBlocks
    split <;> split <;> omega
  · have last : verifiedBlocks count ≤ (group + 1) * 0xAA := by
      unfold verifiedBlocks
      split <;> omega
    have done : totalBlocks count = tableBlock group + 1 + groupSize count group := by
      by_cases full : groupSize count group < 0xAA
      · exact ends full
      · have whole : totalBlocks (group * 0xAA + (count - group * 0xAA)) = _ :=
          total_blocks_last (by omega) (by omega)
        rw [Nat.add_sub_cancel' (by omega)] at whole
        rw [whole, groupSize]
        omega
    constructor
    · exact fun _ => last
    · intro _
      omega

theorem end_test (layout : Layout c count) (present : group * 0xAA < verifiedBlocks count) :
    u32 (c.blockOffset (tableBlock group + 1 + groupSize count group) + 0x2000) ≥ c.conData.length ↔
      verifiedBlocks count ≤ (group + 1) * 0xAA := by
  have inCount : group * 0xAA < count := by
    unfold verifiedBlocks at present
    split at present <;> omega
  have ends := (group_end inCount).1
  have bound := c.size
  have inside := block_offset_mono c ends
  have whole : c.blockOffset (totalBlocks count) = c.conData.length := layout.ends
  rw [whole] at inside
  rw [← slack_iff present, u32_of_lt (by omega), ← whole]
  simp only [Container.blockOffset, ge_iff_le]
  omega

theorem master_table_ok_iff {conData : Bytes} {conDataStart : Nat} :
    masterTable sha conData conDataStart w = .ok (some w') ↔
      (w.currOffset + 0x1000 ≤ conData.length ∧
          rootHashOffset + XECRYPT_SHA_DIGEST_SIZE ≤ conData.length ∧
          (sha (slice conData w.currOffset 0x1000)).bytes =
            slice conData rootHashOffset XECRYPT_SHA_DIGEST_SIZE) ∧
        (conDataStart + 0x1000 ≤ conData.length ∧
          w.hb + XECRYPT_SHA_DIGEST_SIZE ≤ conData.length ∧
          (sha (slice conData conDataStart 0x1000)).bytes =
            slice conData w.hb XECRYPT_SHA_DIGEST_SIZE) ∧
        { w with
          mhb := some w.hb
          currOffset := u32 (w.currOffset + 0x1000)
          hb := u32 (w.currOffset + 0x1000) } = w' := by
  unfold masterTable
  simp only [bind_ok_iff, hash_at_ok_iff, read_at_ok_iff]
  constructor
  · intro accepted
    rcases accepted with ⟨_, ⟨inside, rfl⟩, _, ⟨rootInside, rfl⟩, run⟩
    split at run
    · next root =>
        simp only [bind_ok_iff, hash_at_ok_iff, read_at_ok_iff] at run
        obtain ⟨_, ⟨tableInside, rfl⟩, _, ⟨entryInside, rfl⟩, run⟩ := run
        split at run
        · next first =>
            cases run
            exact ⟨⟨inside, rootInside, root.symm⟩, ⟨tableInside, entryInside, first⟩, rfl⟩
        · cases run
    · cases run
  · intro checks
    rcases checks with ⟨⟨inside, rootInside, root⟩, ⟨tableInside, entryInside, first⟩, rfl⟩
    refine ⟨_, ⟨inside, rfl⟩, _, ⟨rootInside, rfl⟩, ?_⟩
    rw [if_pos root.symm]
    simp only [bind_ok_iff, hash_at_ok_iff, read_at_ok_iff]
    refine ⟨_, ⟨tableInside, rfl⟩, _, ⟨entryInside, rfl⟩, ?_⟩
    rw [if_pos first]
    rfl

theorem backed_table_ok_iff {conData : Bytes} {mhb : Nat} (backed : w.mhb = some mhb) :
    backedTable sha conData w = .ok (some w') ↔
      (w.currOffset + 0x1000 ≤ conData.length ∧
          mhb + w.j * hashEntrySize + XECRYPT_SHA_DIGEST_SIZE ≤ conData.length ∧
          (sha (slice conData w.currOffset 0x1000)).bytes =
            slice conData (mhb + w.j * hashEntrySize) XECRYPT_SHA_DIGEST_SIZE) ∧
        { w with currOffset := u32 (w.currOffset + 0x1000) } = w' := by
  unfold backedTable
  rw [backed]
  simp only [bind_ok_iff, hash_at_ok_iff, read_at_ok_iff]
  constructor
  · intro accepted
    rcases accepted with ⟨_, ⟨inside, rfl⟩, _, ⟨entryInside, rfl⟩, run⟩
    split at run
    · next digest =>
        cases run
        exact ⟨⟨inside, entryInside, digest⟩, rfl⟩
    · cases run
  · intro checks
    rcases checks with ⟨⟨inside, entryInside, digest⟩, rfl⟩
    refine ⟨_, ⟨inside, rfl⟩, _, ⟨entryInside, rfl⟩, ?_⟩
    rw [if_pos digest]
    rfl

def Walk.entered (c : Container) (group : Nat) (w : Walk) : Walk :=
  { w with
    currOffset := c.blockOffset (tableBlock group + 1)
    j := group
    hb := c.blockOffset (tableBlock group)
    mhb := some (c.blockOffset masterBlock) }

theorem entered_at_group (block : w.currBlock = (group + 1) * 0xAA) :
    AtGroup c (group + 1) (w.entered c (group + 1)) :=
  ⟨block, rfl, rfl, rfl, (if_neg (Nat.succ_ne_zero group)).symm⟩

theorem stored_iterate_kept (stored : Nat) (w : Walk) :
    (Walk.stored^[stored] w).j = w.j ∧ (Walk.stored^[stored] w).hb = w.hb ∧
      (Walk.stored^[stored] w).mhb = w.mhb := by
  induction stored generalizing w with
  | zero => exact ⟨rfl, rfl, rfl⟩
  | succ stored ih =>
      rw [Function.iterate_succ_apply]
      exact ih w.stored

theorem offset_u32 (layout : Layout c count) {block : Nat} (present : block < totalBlocks count) :
    u32 (c.blockOffset block + 0x1000) = c.blockOffset (block + 1) := by
  have inside := block_inside layout present
  have bound := c.size
  rw [u32_of_lt (by omega), block_offset_succ]

theorem entry_inside (layout : Layout c count) {block index : Nat}
    (present : block < totalBlocks count) (inTable : index < 0xAA) :
    c.blockOffset block + index * hashEntrySize + hashEntrySize ≤ c.conData.length := by
  have inside := block_inside layout present
  rw [hashEntrySize]
  omega

theorem next_table_present (more : (group + 1) * 0xAA < count) :
    tableBlock (group + 1) < totalBlocks count := by
  have last := total_blocks_more more
  omega

theorem master_present (several : 0xAA < count) : masterBlock < totalBlocks count := by
  have after : tableBlock 1 < totalBlocks count :=
    next_table_present (by omega : (0 + 1) * 0xAA < count)
  rw [table_block_succ] at after
  rw [masterBlock]
  omega

theorem group_number_lt (layout : Layout c count) (more : (group + 1) * 0xAA < count) :
    group + 1 < 0xAA := by
  have bounded := layout.bounded
  omega

theorem backed_table_iff (layout : Layout c count) (more : (group + 1) * 0xAA < count)
    (offset : w.currOffset = c.blockOffset (tableBlock (group + 1))) (j : w.j = group + 1)
    (hb : w.hb = c.blockOffset (tableBlock (group + 1)))
    (mhb : w.mhb = some (c.blockOffset masterBlock)) :
    backedTable sha c.conData w = .ok (some w') ↔
      TableMatches sha c (group + 1) ∧ w.entered c (group + 1) = w' := by
  have tablePresent := next_table_present more
  have tableInside := block_inside layout tablePresent
  have entryInside :=
    entry_inside layout (master_present (by omega)) (group_number_lt layout more)
  have next := offset_u32 layout tablePresent
  have result : { w with currOffset := u32 (w.currOffset + 0x1000) } = w.entered c (group + 1) := by
    rw [offset, next, Walk.entered, ← hb, ← mhb, ← j]
  rw [backed_table_ok_iff mhb, result, offset, j]
  constructor
  · intro accepted
    rcases accepted with ⟨⟨_, _, digest⟩, same⟩
    exact ⟨digest, same⟩
  · intro matched
    rcases matched with ⟨digest, same⟩
    refine ⟨⟨tableInside, ?_, digest⟩, same⟩
    rw [hashEntrySize] at entryInside ⊢
    rw [XECRYPT_SHA_DIGEST_SIZE]
    omega

def Walk.pastMaster (c : Container) (w : Walk) : Walk :=
  { w with
    mhb := some (c.blockOffset masterBlock)
    currOffset := c.blockOffset (tableBlock 1)
    hb := c.blockOffset (tableBlock 1) }

theorem master_table_iff (layout : Layout c count) (more : 0xAA < count)
    (offset : w.currOffset = c.blockOffset masterBlock) (hb : w.hb = c.blockOffset masterBlock) :
    masterTable sha c.conData c.conDataStart w = .ok (some w') ↔
      (RootMatches sha c masterBlock ∧ TableMatches sha c 0) ∧ w.pastMaster c = w' := by
  have place : tableBlock 1 = masterBlock + 1 := rfl
  have masterPresent := master_present more
  have masterInside := block_inside layout masterPresent
  have firstInside := block_inside layout (Nat.zero_lt_of_lt masterPresent)
  have next := offset_u32 layout masterPresent
  have header := layout.header
  have start : c.blockOffset 0 = c.conDataStart := by
    rw [Container.blockOffset, Nat.zero_mul, Nat.add_zero]
  have result : { w with
      mhb := some w.hb
      currOffset := u32 (w.currOffset + 0x1000)
      hb := u32 (w.currOffset + 0x1000) } = w.pastMaster c := by
    rw [offset, hb, next, Walk.pastMaster, place]
  rw [master_table_ok_iff, result, offset, hb]
  constructor
  · intro accepted
    rcases accepted with ⟨⟨_, _, root⟩, ⟨_, _, first⟩, same⟩
    rw [← start] at first
    exact ⟨⟨root, first⟩, same⟩
  · intro matched
    rcases matched with ⟨⟨root, first⟩, same⟩
    have entry : (sha (slice c.conData c.conDataStart 0x1000)).bytes =
        slice c.conData (c.blockOffset masterBlock) XECRYPT_SHA_DIGEST_SIZE := by
      rw [← start]
      exact first
    refine ⟨⟨masterInside, ?_, root⟩, ⟨?_, ?_, entry⟩, same⟩
    · rw [rootHashOffset, headerSize, XECRYPT_SHA_DIGEST_SIZE]
      omega
    · rw [← start]
      exact firstInside
    · rw [XECRYPT_SHA_DIGEST_SIZE]
      omega

/-- `hb = &conData[currOffset]; j++`. -/
def Walk.behind (w : Walk) : Walk := { w with hb := w.currOffset, j := w.j + 1 }

theorem next_table_ok_iff {conData : Bytes} {conDataStart : Nat} :
    nextTable sha conData conDataStart w = .ok (some w') ↔
      w.currOffset + levelOffset + 4 ≤ conData.length ∧
        ∃ v, (if checkZeros (slice conData (w.currOffset + levelOffset) 4) = true then
            masterTable sha conData conDataStart w.behind else .ok (some w.behind)) = .ok (some v) ∧
          backedTable sha conData v = .ok (some w') := by
  unfold nextTable
  simp only [bind_ok_iff, read_at_ok_iff]
  constructor
  · intro accepted
    rcases accepted with ⟨_, ⟨inside, rfl⟩, found, search, rest⟩
    cases found with
    | none => cases rest
    | some v => exact ⟨inside, v, search, rest⟩
  · intro checks
    rcases checks with ⟨inside, v, search, rest⟩
    exact ⟨_, ⟨inside, rfl⟩, some v, search, rest⟩

/-- The step behind the first group: the master table, then the second table. -/
theorem second_table_iff (layout : Layout c count) (several : 0xAA < count)
    (offset : w.currOffset = c.blockOffset masterBlock) (j : w.j = 0) :
    nextTable sha c.conData c.conDataStart w = .ok (some w') ↔
      TableChecks sha c 0 ∧ w.entered c 1 = w' := by
  have more : (0 + 1) * 0xAA < count := by omega
  have inside := block_inside layout (master_present several)
  have zeros := layout.master several
  rw [Container.level, ← offset] at zeros
  have sameJ : (w.behind.pastMaster c).j = 0 + 1 := congrArg Nat.succ j
  have master (v : Walk) : masterTable sha c.conData c.conDataStart w.behind = .ok (some v) ↔
      (RootMatches sha c masterBlock ∧ TableMatches sha c 0) ∧ w.behind.pastMaster c = v :=
    master_table_iff layout several offset offset
  have backed : backedTable sha c.conData (w.behind.pastMaster c) = .ok (some w') ↔
      TableMatches sha c 1 ∧ (w.behind.pastMaster c).entered c 1 = w' :=
    backed_table_iff layout more rfl sameJ rfl rfl
  rw [next_table_ok_iff, if_pos zeros, offset, levelOffset]
  constructor
  · intro accepted
    rcases accepted with ⟨_, v, search, rest⟩
    obtain ⟨checks, same⟩ := (master v).mp search
    rw [← same] at rest
    obtain ⟨digest, result⟩ := backed.mp rest
    exact ⟨⟨fun _ => checks, digest⟩, result⟩
  · intro matched
    rcases matched with ⟨checks, result⟩
    exact ⟨by omega, w.behind.pastMaster c, (master _).mpr ⟨checks.master rfl, rfl⟩,
      backed.mpr ⟨checks.next, result⟩⟩

theorem later_table_iff (layout : Layout c count) (more : (group + 2) * 0xAA < count)
    (offset : w.currOffset = c.blockOffset (tableBlock (group + 2))) (j : w.j = group + 1)
    (mhb : w.mhb = some (c.blockOffset masterBlock)) :
    nextTable sha c.conData c.conDataStart w = .ok (some w') ↔
      TableChecks sha c (group + 1) ∧ w.entered c (group + 2) = w' := by
  have marked := layout.unmarked (group + 2) (Nat.succ_pos _) (lt_group_count.mpr more)
  rw [Container.level, ← offset] at marked
  have inside : c.blockOffset (tableBlock (group + 2)) + 0x1000 ≤ c.conData.length :=
    block_inside layout (next_table_present more)
  have sameJ : w.behind.j = group + 2 := congrArg Nat.succ j
  have backed : backedTable sha c.conData w.behind = .ok (some w') ↔
      TableMatches sha c (group + 2) ∧ w.behind.entered c (group + 2) = w' :=
    backed_table_iff layout more offset sameJ offset mhb
  rw [next_table_ok_iff, marked, if_neg Bool.false_ne_true, offset, levelOffset]
  constructor
  · intro accepted
    rcases accepted with ⟨_, v, same, rest⟩
    cases same
    obtain ⟨digest, result⟩ := backed.mp rest
    exact ⟨⟨fun zero => absurd zero (Nat.succ_ne_zero _), digest⟩, result⟩
  · intro matched
    rcases matched with ⟨checks, result⟩
    exact ⟨by omega, w.behind, rfl, backed.mpr ⟨checks.next, result⟩⟩

/-- The step from one group to the next, with every table it reads. -/
theorem next_table_iff (layout : Layout c count) (more : (group + 1) * 0xAA < count)
    (offset : w.currOffset = c.blockOffset (tableBlock group + 1 + 0xAA)) (j : w.j = group)
    (mhb : w.mhb = if group = 0 then none else some (c.blockOffset masterBlock)) :
    nextTable sha c.conData c.conDataStart w = .ok (some w') ↔
      TableChecks sha c group ∧ w.entered c (group + 1) = w' := by
  cases group with
  | zero => exact second_table_iff layout (by omega) offset j
  | succ group =>
      have here : tableBlock (group + 1) + 1 + 0xAA = tableBlock (group + 2) := by
        rw [table_block_succ, table_block_succ]
        omega
      rw [here] at offset
      rw [if_neg (Nat.succ_ne_zero _)] at mhb
      exact later_table_iff layout more offset j mhb

end Tables

end XeBuild.SuCheck
