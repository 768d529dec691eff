import Mathlib.Data.List.Nodup
import XeBuild.SuCheck.ContainerAuthentication

/-!
# The block map of a well-formed container

The check accepts every well-formed container. Its map lists all data blocks
unless the last group has a single block and is not the second one: then the end
test takes the table and the block in front of the end for slack.
-/

namespace XeBuild.SuCheck

open ListRange Runs

set_option autoImplicit false

structure WellFormed (sha : Sha) (c : Container) (count : Nat) : Prop where
  contentId : ContentIdMatches sha c.conData c.conDataStart
  authenticated : AuthenticatedBy sha c count
  firstLevel : checkZeros (c.level 0) = false
  usedMaster : 0xAA < count → ∀ group < groupCount count,
    checkZeros (c.entry masterBlock group) = false
  unusedData : ∀ group < groupCount count, ∀ index < 0xAA, groupSize count group ≤ index →
    checkZeros (c.entry (tableBlock group) index) = true
  unusedMaster : 0xAA < count → ∀ group < 0xAA, groupCount count ≤ group →
    checkZeros (c.entry masterBlock group) = true

def allocated (c : Container) : List (Option Nat) :=
  List.replicate (c.conData.length / 0x1000 + 1) none

def dataOffsets (c : Container) (count : Nat) : List Nat :=
  (List.range count).map fun number => c.blockOffset (dataBlock number)

/-- `TRUE`, with the offsets of the data blocks in front of `blockInfo`, each
once, and nothing stored behind them or outside the allocation. -/
def AcceptsAndLists (sha : Sha) (c : Container) (count : Nat) : Prop :=
  ∃ info, conCheckHashes sha c.conData c.conDataStart c.conData.length (allocated c) =
      .ok (some info) ∧
    info.length = (allocated c).length ∧
    info.take count = (dataOffsets c count).map some ∧
    (∀ index, count ≤ index → index < info.length → info[index]? = some none) ∧
    (dataOffsets c count).Nodup

section Map

variable {sha : Sha} {c : Container} {count : Nat}

theorem data_block_strict {first second : Nat} (ordered : first < second) :
    dataBlock first < dataBlock second := by
  unfold dataBlock tableBlock
  split <;> split <;> omega

theorem data_offsets_nodup (c : Container) (count : Nat) : (dataOffsets c count).Nodup := by
  apply List.Nodup.map_on _ List.nodup_range
  intro first _ second _ same
  have blocks : dataBlock first = dataBlock second := by
    rw [Container.blockOffset, Container.blockOffset] at same
    omega
  rcases Nat.lt_trichotomy first second with before | equal | after
  · have strict := data_block_strict before
    omega
  · exact equal
  · have strict := data_block_strict after
    omega

theorem block_map_take (c : Container) (size known : Nat) :
    (blockMap c size known).take known = (dataOffsets c known).map some := by
  unfold blockMap DigestTree.table dataOffsets
  rw [List.map_map, List.take_left' (by rw [List.length_map, List.length_range])]
  rfl

theorem block_map_past {size known index : Nat} (past : known ≤ index) (inside : index < size) :
    (blockMap c size known)[index]? = some none := by
  have bound : index < (blockMap c size known).length := by
    rw [block_map_length (by omega)]
    exact inside
  rw [List.getElem?_eq_getElem bound]
  exact congrArg some (DigestTree.table_absent _ _ (by rwa [List.length_range]) bound)

theorem allocated_room (layout : Layout c count) : count < (allocated c).length := by
  have ends := layout.ends
  have last := data_block_lt (show count - 1 < count by have := layout.nonempty; omega)
  have least : count - 1 ≤ dataBlock (count - 1) := by
    unfold dataBlock tableBlock
    split <;> omega
  rw [allocated, List.length_replicate]
  omega

/-- What the check returns on a well-formed container of any size. -/
theorem well_formed_accepted (formed : WellFormed sha c count) :
    conCheckHashes sha c.conData c.conDataStart c.conData.length (allocated c) =
      .ok (some (blockMap c (allocated c).length (verifiedBlocks count))) := by
  have layout := formed.authenticated.layout
  have bound := verified_le count
  have room := allocated_room layout
  have auth := formed.authenticated
  rw [allocated, List.length_replicate] at *
  apply con_check_hashes_complete layout formed.contentId
  · intro group present
    constructor
    · intro index before
      exact auth.data _ (group_index_lt before)
    · intro more
      have several : 0xAA < count := by omega
      have first : 0 < groupCount count := by
        rw [lt_group_count, Nat.zero_mul]
        omega
      have next : group + 1 < groupCount count := lt_group_count.mpr (by omega)
      constructor
      · intro _
        exact ⟨auth.root several, auth.tables several 0 first⟩
      · exact auth.tables several (group + 1) next
  · intro group present fewer
    have ends := (group_end (by omega : group * 0xAA < count)).1
    refine ⟨entry_inside layout (by omega) fewer, ?_⟩
    exact formed.unusedData group (lt_group_count.mpr (by omega)) _ fewer (Nat.le_refl _)
  · exact Nat.le_of_lt (Nat.lt_of_le_of_lt bound room)

/-- A last group of one block behind the second group is not in the map. -/
theorem skipped_block_missing (formed : WellFormed sha c count) (tail : count % 0xAA = 1)
    (large : 2 * 0xAA < count) : ¬ AcceptsAndLists sha c count := by
  intro listing
  rcases listing with ⟨info, accepted, _, listed, _, _⟩
  have layout := formed.authenticated.layout
  have room := allocated_room layout
  have last : verifiedBlocks count = count - 1 := if_pos ⟨tail, large⟩
  rw [well_formed_accepted formed] at accepted
  cases accepted
  have stored := congrArg (fun words => words[count - 1]?) listed
  simp only [List.getElem?_take, if_pos (by omega : count - 1 < count)] at stored
  rw [block_map_past (by omega) (by omega)] at stored
  simp [dataOffsets] at stored

theorem whole_map_listed (formed : WellFormed sha c count)
    (whole : count % 0xAA ≠ 1 ∨ count ≤ 2 * 0xAA) : AcceptsAndLists sha c count := by
  have layout := formed.authenticated.layout
  have run := well_formed_accepted formed
  have room := allocated_room layout
  have all : verifiedBlocks count = count := if_neg (by omega)
  refine ⟨_, run, block_map_length (by omega), ?_, ?_, data_offsets_nodup c count⟩
  · rw [all]
    exact block_map_take c _ count
  · intro index past inside
    rw [block_map_length (by omega)] at inside
    exact block_map_past (by omega) inside

theorem block_map_complete_iff (formed : WellFormed sha c count) :
    AcceptsAndLists sha c count ↔ count % 0xAA ≠ 1 ∨ count ≤ 2 * 0xAA := by
  constructor
  · intro listed
    by_contra skipped
    exact skipped_block_missing formed (by omega) (by omega) listed
  · exact whole_map_listed formed

def headerVersion (conData : Bytes) (isSupd : Bool) : Nat :=
  getBe32 (slice conData (if isSupd then newVersionOffset else versionOffset) 4)

theorem con_check_header_ok_iff {conData : Bytes} {conDataLen expVer : Nat} {isSupd : Bool} :
    conCheckHeader sha conData conDataLen expVer isSupd = .ok true ↔
      sizeOfHeadersOffset + 4 ≤ conData.length ∧
        (if isSupd then newVersionOffset else versionOffset) + 4 ≤ conData.length ∧
        (expVer = 0 ∨ headerVersion conData isSupd = expVer) ∧
        ∃ info, conCheckHashes sha conData
          (roundUpToAlignment (getBe32 (slice conData sizeOfHeadersOffset 4))) conDataLen
          (List.replicate (conDataLen / 0x1000 + 1) none) = .ok (some info) := by
  unfold conCheckHeader headerVersion
  simp only [bind_ok_iff, read_at_ok_iff]
  constructor
  · intro accepted
    rcases accepted with ⟨_, ⟨sizeInside, rfl⟩, _, ⟨versionInside, rfl⟩, run⟩
    by_cases version : expVer = 0 ∨ headerVersion conData isSupd = expVer
    · unfold headerVersion at version
      rw [if_neg (by omega), bind_ok_iff] at run
      obtain ⟨result, check, run⟩ := run
      cases result with
      | none => cases run
      | some info => exact ⟨sizeInside, versionInside, version, info, check⟩
    · unfold headerVersion at version
      rw [if_pos (by omega)] at run
      cases run
  · intro checks
    rcases checks with ⟨sizeInside, versionInside, version, info, check⟩
    refine ⟨_, ⟨sizeInside, rfl⟩, _, ⟨versionInside, rfl⟩, ?_⟩
    rw [if_neg (by omega), bind_ok_iff]
    exact ⟨some info, check, rfl⟩

/-- The caller's view: a well-formed container of the expected version is accepted,
also where the map misses its last block. -/
theorem well_formed_header_accepted (formed : WellFormed sha c count) {expVer : Nat} {isSupd : Bool}
    (start : roundUpToAlignment (getBe32 (slice c.conData sizeOfHeadersOffset 4)) = c.conDataStart)
    (versionInside : (if isSupd then newVersionOffset else versionOffset) + 4 ≤ c.conData.length)
    (version : expVer = 0 ∨ headerVersion c.conData isSupd = expVer) :
    conCheckHeader sha c.conData c.conData.length expVer isSupd = .ok true := by
  have inside := formed.contentId.inside
  have header := formed.authenticated.layout.header
  have ends := formed.authenticated.layout.ends
  rw [con_check_header_ok_iff, start]
  refine ⟨?_, versionInside, version, _, well_formed_accepted formed⟩
  rw [sizeOfHeadersOffset]
  omega

end Map

/-! ## Well-formed containers of every size -/

section Assembled

variable {sha : Sha}

theorem checked_zeros {buf : Bytes} (checked : checkZeros buf = true) : buf = zeros buf.length := by
  unfold checkZeros at checked
  rw [List.all_eq_true] at checked
  apply List.eq_replicate_of_mem
  intro value member
  exact eq_of_beq (checked value member)

theorem digest_checked {digest : Digest} (present : digest ≠ Digest.zero) (level : Bytes) :
    checkZeros (entryOf digest level) = false := by
  rw [Bool.eq_false_iff]
  intro checked
  unfold checkZeros entryOf at checked
  rw [List.all_append, Bool.and_eq_true] at checked
  apply present
  apply Digest.bytes_injective
  have zero : digest.bytes = zeros digest.bytes.length := checked_zeros checked.1
  rwa [digest.size] at zero

/-- Any contents make a well-formed container, as long as the digest of the first
table is not zero: its entry in the master table has nothing else to be told by. -/
theorem container_well_formed (p : Contents) (present : sha (p.table sha 0) ≠ Digest.zero) :
    WellFormed sha (p.container sha (p.root sha)) p.count := by
  have layout := Contents.container_layout sha p (p.root sha)
  have bounded := p.bounded
  have inTable : ∀ {group : Nat}, group < groupCount p.count → group < hashBlockEntries := by
    intro group before
    have inCount := lt_group_count.mp before
    rw [hashBlockEntries]
    omega
  constructor
  · exact Contents.container_content_id sha p _
  · refine ⟨⟨?_, ?_, ?_, ?_⟩, layout⟩
    · intro number before
      exact Contents.container_data sha p _ before
    · intro single
      exact Contents.container_root_single sha p _ rfl single
    · intro several group before
      exact Contents.container_tables sha p _ several before
    · intro several
      exact Contents.container_root_master sha p _ rfl several
  · have level : (p.container sha (p.root sha)).level (tableBlock 0) = usedLevel :=
      Contents.table_level (by have nonempty := p.nonempty; omega)
    exact (congrArg checkZeros level).trans (by decide)
  · intro several group before
    rw [Contents.master_entry several (inTable before) before]
    cases group with
    | zero => exact digest_checked present _
    | succ group => exact Contents.used_entry_checked _
  · intro group before index inside past
    rw [Contents.table_unused (lt_group_count.mp before) past inside]
    exact Contents.zeros_checked _
  · intro several group inside past
    rw [Contents.master_unused several inside past]
    exact Contents.zeros_checked _

def blankContainer (count : Nat) (nonempty : 0 < count) (bounded : count ≤ 0xAA * 0xAA) :
    Container :=
  (blankContents count nonempty bounded).container constantSha
    ((blankContents count nonempty bounded).root constantSha)

theorem blank_container_formed (count : Nat) (nonempty : 0 < count)
    (bounded : count ≤ 0xAA * 0xAA) :
    WellFormed constantSha (blankContainer count nonempty bounded) count :=
  container_well_formed (blankContents count nonempty bounded)
    (by change onesDigest ≠ Digest.zero; decide)

/-- The first size whose last block is not in the map. -/
theorem third_group_block_missing :
    WellFormed constantSha (blankContainer 341 (by decide) (by decide)) 341 ∧
      ¬ AcceptsAndLists constantSha (blankContainer 341 (by decide) (by decide)) 341 := by
  have formed := blank_container_formed 341 (by decide) (by decide)
  exact ⟨formed, skipped_block_missing formed (by decide) (by decide)⟩

/-- A second group of one block is not skipped. -/
theorem second_group_block_listed :
    AcceptsAndLists constantSha (blankContainer 171 (by decide) (by decide)) 171 :=
  (block_map_complete_iff (blank_container_formed 171 (by decide) (by decide))).mpr (by decide)

end Assembled

end XeBuild.SuCheck
