import XeBuild.SuCheck.UncheckedContainers

/-!
# What the container check authenticates

The walk leaves two things out: the only table of a container of one group is
never compared with `RootHash`, and a last group of one block behind the second
group is not looked at. So it is the number of data blocks that decides whether
`TRUE` authenticates a container. Where it does, an accepted copy under the same
`RootHash` is the same one exactly when it is laid out, or two blocks collide.
-/

namespace XeBuild.SuCheck

open ListRange

set_option autoImplicit false

/-! ## Authentication binds the region -/

section Binding

variable {sha : Sha} {left right : Container} {count block : Nat}

/-- Every block of the region is a table, the master table or a data block. -/
theorem block_kinds (present : block < totalBlocks count) (nonempty : 0 < count) :
    (∃ group < groupCount count, block = tableBlock group) ∨
      (0xAA < count ∧ block = masterBlock) ∨ ∃ number < count, block = dataBlock number := by
  by_cases first : block ≤ 0xAA
  · cases block with
    | zero => exact Or.inl ⟨0, lt_group_count.mpr (by omega), rfl⟩
    | succ number =>
        have inCount : number < count := by
          unfold totalBlocks at present
          split at present <;> omega
        have place := (data_block_of_group 0 (by omega : number < 0xAA)).1
        rw [Nat.zero_mul, Nat.zero_add] at place
        exact Or.inr (Or.inr ⟨number, inCount, by rw [place, tableBlock, if_pos rfl]; omega⟩)
  · have several : 0xAA < count := by
      unfold totalBlocks at present
      split at present <;> omega
    rw [totalBlocks, if_neg (by omega), groupCount] at present
    by_cases master : block = masterBlock
    · exact Or.inr (Or.inl ⟨several, master⟩)
    · rw [masterBlock] at master
      obtain ⟨group, index, later, inGroup, place⟩ :
          ∃ group index, 0 < group ∧ index < 0xAB ∧ block = group * 0xAB + 1 + index :=
        ⟨(block - 1) / 0xAB, (block - 1) % 0xAB, by omega, by omega, by omega⟩
      have table : tableBlock group = group * 0xAB + 1 := if_neg (by omega)
      cases index with
      | zero =>
          refine Or.inl ⟨group, lt_group_count.mpr (by omega), ?_⟩
          rw [table, place]
      | succ index =>
          have number := (data_block_of_group group (by omega : index < 0xAA)).1
          refine Or.inr (Or.inr ⟨group * 0xAA + index, by omega, ?_⟩)
          rw [number, table, place]
          omega

/-- Two different blocks of the two regions with one digest. -/
def BlockCollision (sha : Sha) (left right : Container) : Prop :=
  ∃ first second, left.blockOffset first + 0x1000 ≤ left.conData.length ∧
    right.blockOffset second + 0x1000 ≤ right.conData.length ∧
    left.block first ≠ right.block second ∧ sha (left.block first) = sha (right.block second)

/-- Two containers whose headers name one root over regions of one place and size. -/
structure SameRoot (left right : Container) : Prop where
  start : left.conDataStart = right.conDataStart
  length : left.conData.length = right.conData.length
  root : left.rootHash = right.rootHash

def Container.region (c : Container) : Bytes := c.conData.drop c.conDataStart

theorem same_block (free : ¬ BlockCollision sha left right) (layout : Layout left count)
    (layout' : Layout right count) (present : block < totalBlocks count)
    (same : (sha (left.block block)).bytes = (sha (right.block block)).bytes) :
    left.block block = right.block block := by
  by_contra different
  exact free ⟨block, block, block_inside layout present, block_inside layout' present, different,
    Digest.bytes_injective same⟩

/-- Equal tables have equal entries, so what they back has equal digests. -/
theorem same_entry {table index : Nat} (same : left.block table = right.block table)
    (inTable : index < 0xAA) : left.entryDigest table index = right.entryDigest table index := by
  rw [entry_digest_of_block left table inTable, entry_digest_of_block right table inTable, same]

theorem same_tables (free : ¬ BlockCollision sha left right) (same : SameRoot left right)
    (auth : AuthenticatedBy sha left count) (auth' : AuthenticatedBy sha right count) :
    (0xAA < count → left.block masterBlock = right.block masterBlock) ∧
      ∀ group < groupCount count, left.block (tableBlock group) =
        right.block (tableBlock group) := by
  have tablePresent : ∀ group < groupCount count, tableBlock group < totalBlocks count := by
    intro group before
    have inCount := lt_group_count.mp before
    have ends := (group_end inCount).1
    omega
  have master : 0xAA < count → left.block masterBlock = right.block masterBlock := by
    intro several
    apply same_block free auth.layout auth'.layout
    · exact master_present several
    · exact (auth.root several).trans (same.root.trans (auth'.root several).symm)
  refine ⟨master, ?_⟩
  intro group before
  apply same_block free auth.layout auth'.layout (tablePresent group before)
  by_cases several : 0xAA < count
  · have inTable : group < 0xAA := by
      have bounded := auth.layout.bounded
      have inCount := lt_group_count.mp before
      omega
    exact (auth.tables several group before).trans
      ((same_entry (master several) inTable).trans (auth'.tables several group before).symm)
  · have single : count ≤ 0xAA := Nat.le_of_not_lt several
    have only : group = 0 := by
      have inCount := lt_group_count.mp before
      omega
    rw [only]
    exact (auth.single single).trans (same.root.trans (auth'.single single).symm)

theorem same_blocks (free : ¬ BlockCollision sha left right) (same : SameRoot left right)
    (auth : AuthenticatedBy sha left count) (auth' : AuthenticatedBy sha right count) :
    ∀ block < totalBlocks count, left.block block = right.block block := by
  obtain ⟨master, tables⟩ := same_tables free same auth auth'
  intro block present
  rcases block_kinds present auth.layout.nonempty with
    ⟨group, before, rfl⟩ | ⟨several, rfl⟩ | ⟨number, before, rfl⟩
  · exact tables group before
  · exact master several
  · apply same_block free auth.layout auth'.layout present
    have group := tables (number / 0xAA) (lt_group_count.mpr (by omega))
    have entry := same_entry group (Nat.mod_lt number (by decide))
    exact (auth.data number before).trans (entry.trans (auth'.data number before).symm)

theorem region_blocks (layout : Layout left count) (index : Nat)
    (present : index < (ListChunks.chunks 0x1000 left.region).length) :
    (ListChunks.chunks 0x1000 left.region)[index] = left.block index ∧
      index < totalBlocks count := by
  have ends := layout.ends
  have before := (ListChunks.lt_chunks_length (by decide) left.region index).mp present
  rw [Container.region, List.length_drop] at before
  rw [ListChunks.chunks_getElem (by decide), Container.region, slice_of_drop]
  exact ⟨rfl, by omega⟩

/-- Nothing in the region can change under one root without a collision. -/
theorem region_binding (same : SameRoot left right) (auth : AuthenticatedBy sha left count)
    (auth' : AuthenticatedBy sha right count) :
    left.region = right.region ∨ BlockCollision sha left right := by
  by_cases collision : BlockCollision sha left right
  · exact Or.inr collision
  · left
    have blocks := same_blocks collision same auth auth'
    have sizes : left.region.length = right.region.length := by
      rw [Container.region, Container.region, List.length_drop, List.length_drop, same.start,
        same.length]
    have chunks : ListChunks.chunks 0x1000 left.region = ListChunks.chunks 0x1000 right.region := by
      apply List.ext_getElem
      · rw [ListChunks.chunks_length (by decide), ListChunks.chunks_length (by decide), sizes]
      · intro index present present'
        obtain ⟨block, bound⟩ := region_blocks auth.layout index present
        obtain ⟨block', _⟩ := region_blocks auth'.layout index present'
        rw [block, block', blocks index bound]
    rw [← ListChunks.chunks_flatten (by decide : 0 < 0x1000) left.region, chunks,
      ListChunks.chunks_flatten (by decide)]

end Binding

/-! ## Layout and region -/

section Region

variable {left right : Container} {count : Nat}

theorem block_of_region (c : Container) (block : Nat) :
    c.block block = slice c.region (block * 0x1000) 0x1000 := by
  rw [Container.block, Container.region, slice_of_drop, Container.blockOffset]

theorem layout_of_region (layout : RegionLayout left count) (same : SameRoot left right)
    (region : right.region = left.region) : RegionLayout right count := by
  have blocks : ∀ block, right.block block = left.block block := by
    intro block
    rw [block_of_region, block_of_region, region]
  refine ⟨same.start ▸ layout.header, layout.bounded, ?_, ?_, ?_, ?_⟩
  · rw [← same.start, ← same.length]
    exact layout.ends
  · intro number before
    have used := layout.used number before
    rw [Container.dataEntry, entry_of_block _ _ (Nat.mod_lt _ (by decide))] at used ⊢
    rw [blocks]
    exact used
  · intro several
    have level := layout.master several
    rw [level_of_block] at level ⊢
    rw [blocks]
    exact level
  · intro group positive before
    have level := layout.unmarked group positive before
    rw [level_of_block] at level ⊢
    rw [blocks]
    exact level

end Region

/-! ## What an accepted container is authenticated by -/

/-- The master table is reached, and the last group is. -/
def Covered (count : Nat) : Prop := 0xAA < count ∧ (count % 0xAA ≠ 1 ∨ count ≤ 2 * 0xAA)

instance (count : Nat) : Decidable (Covered count) := inferInstanceAs (Decidable (_ ∧ _))

/-- Every block is backed by `RootHash`, and without a collision an accepted copy under
the same `RootHash` has another region only when that one is not laid out. -/
structure Protected (sha : Sha) (c : Container) (count : Nat) : Prop where
  backed : Backed sha c count
  copies : ∀ other blockInfo info,
    conCheckHashes sha other.conData other.conDataStart other.conData.length blockInfo =
      .ok (some info) →
    SameRoot c other → (other.region = c.region ↔ RegionLayout other count) ∨
      BlockCollision sha c other

section Accepted

variable {sha : Sha} {c : Container} {count : Nat} {blockInfo info : List (Option Nat)}

theorem accepted_data (layout : Layout c count)
    (run : conCheckHashes sha c.conData c.conDataStart c.conData.length blockInfo = .ok (some info))
    {number : Nat} (before : number < verifiedBlocks count) : DataMatches sha c number := by
  have bound := verified_le count
  have checks := con_check_hashes_sound layout run (number / 0xAA) (by omega)
  have inGroup : number % 0xAA < groupSize count (number / 0xAA) := by
    rw [groupSize]
    omega
  have place : number / 0xAA * 0xAA + number % 0xAA = number := by omega
  have digest := checks.data (number % 0xAA) inGroup
  rwa [place] at digest

theorem accepted_tables (layout : Layout c count)
    (run : conCheckHashes sha c.conData c.conDataStart c.conData.length blockInfo = .ok (some info))
    {group : Nat} (before : (group + 1) * 0xAA < verifiedBlocks count) : TableChecks sha c group :=
  (con_check_hashes_sound layout run group (by omega)).tables before

/-- With a covered number of data blocks every comparison is made. -/
theorem accepted_backed (covered : Covered count) (layout : Layout c count)
    (run : conCheckHashes sha c.conData c.conDataStart c.conData.length blockInfo =
      .ok (some info)) : Backed sha c count := by
  rcases covered with ⟨several, last⟩
  have verified : verifiedBlocks count = count := if_neg (by omega)
  have tables : ∀ group, (group + 1) * 0xAA < count → TableChecks sha c group := by
    intro group before
    exact accepted_tables layout run (by rw [verified]; exact before)
  have first := tables 0 (by omega)
  refine ⟨?_, fun single => absurd several (Nat.not_lt.mpr single), ?_, fun _ => (first.master rfl).1⟩
  · intro number before
    exact accepted_data layout run (by rw [verified]; exact before)
  · intro _ group before
    cases group with
    | zero => exact (first.master rfl).2
    | succ group => exact (tables group (lt_group_count.mp before)).next

theorem accepted_protected (covered : Covered count) (region : RegionLayout c count)
    (run : conCheckHashes sha c.conData c.conDataStart c.conData.length blockInfo =
      .ok (some info)) : Protected sha c count := by
  have some_ : 0 < count := Nat.zero_lt_of_lt covered.1
  have backed := accepted_backed covered ⟨region, some_⟩ run
  refine ⟨backed, ?_⟩
  intro other blockInfo' info' run' same
  by_cases collision : BlockCollision sha c other
  · exact Or.inr collision
  · refine Or.inl ⟨layout_of_region region same, ?_⟩
    intro region'
    have backed' := accepted_backed covered ⟨region', some_⟩ run'
    have auth : AuthenticatedBy sha c count := ⟨backed, ⟨region, some_⟩⟩
    rcases region_binding same auth ⟨backed', ⟨region', some_⟩⟩ with equal | found
    · exact equal.symm
    · exact absurd found collision

end Accepted

/-! ## What it leaves open otherwise -/

section Open

variable {count : Nat}

theorem other_digest (digest : Digest) : ∃ other : Digest, other ≠ digest := by
  by_cases zero : Digest.zero = digest
  · refine ⟨⟨List.replicate XECRYPT_SHA_DIGEST_SIZE 1, List.length_replicate⟩, ?_⟩
    rw [← zero]
    decide
  · exact ⟨Digest.zero, zero⟩

theorem single_table_root_ignored (sha : Sha) (p : Contents) (root : Digest)
    (single : p.count ≤ 0xAA) (wrong : p.root sha ≠ root) {size : Nat}
    (room : verifiedBlocks p.count ≤ size) :
    (∃ info, conCheckHashes sha (p.container sha root).conData (p.container sha root).conDataStart
      (p.container sha root).conData.length (List.replicate size none) = .ok (some info)) ∧
      ¬ Backed sha (p.container sha root) p.count := by
  constructor
  · refine ⟨_, Contents.container_accepted sha p root ?_ room⟩
    intro several
    exact absurd single (by omega)
  · intro backed
    have present := data_block_lt p.nonempty
    have table : p.regionBlock sha (tableBlock 0) = p.table sha 0 := Contents.region_block_table 0
    have sameHash := backed.single single
    rw [RootMatches, Contents.container_root_hash,
      Contents.container_block (by omega : 0 < totalBlocks p.count)] at sameHash
    apply wrong
    rw [Contents.root, if_pos single]
    apply Digest.bytes_injective
    rw [← sameHash]
    exact congrArg (fun block => (sha block).bytes) table.symm

theorem single_table_not_backed {sha : Sha} {root : Digest} (wrong : root ≠ sha (zeros 0x1000)) :
    ¬ Backed sha (singleTable sha root) 0 := by
  intro backed
  have matched := backed.single (by decide)
  rw [RootMatches, (single_table_root).1, (single_table_root).2] at matched
  exact wrong (Digest.bytes_injective matched.symm)

/-- For every other number of data blocks, whatever the digest is, a container is accepted
that is not backed by its `RootHash`. -/
theorem unbacked_accepted (sha : Sha) (bounded : count ≤ 0xAA * 0xAA) (open_ : ¬ Covered count) :
    ∃ c, RegionLayout c count ∧
      (∃ blockInfo info, conCheckHashes sha c.conData c.conDataStart c.conData.length blockInfo =
        .ok (some info)) ∧ ¬ Backed sha c count := by
  rcases Nat.eq_zero_or_pos count with rfl | some_
  · rcases other_digest (sha (zeros 0x1000)) with ⟨root, wrong⟩
    exact ⟨singleTable sha root, single_table_layout, ⟨[], [], single_table_accepted⟩,
      single_table_not_backed wrong⟩
  · let p := blankContents count some_ bounded
    by_cases single : count ≤ 0xAA
    · rcases other_digest (p.root sha) with ⟨root, wrong⟩
      rcases single_table_root_ignored sha p root single wrong.symm (Nat.le_refl _) with
        ⟨⟨info, run⟩, unbacked⟩
      exact ⟨p.container sha root, (Contents.container_layout sha p root).toRegionLayout,
        ⟨_, info, run⟩, unbacked⟩
    · rw [Covered] at open_
      have tail : p.count % 0xAA = 1 := by
        show count % 0xAA = 1
        omega
      rcases other_digest (sha (p.data (p.count - 1))) with ⟨entry, wrong⟩
      have large : 2 * 0xAA < p.count := by
        show 2 * 0xAA < count
        omega
      rcases @forged_accepted sha p entry tail large _ (Nat.le_refl _) with ⟨info, run⟩
      exact ⟨forged sha p entry, (forged_layout tail).toRegionLayout, ⟨_, info, run⟩,
        forged_not_backed tail wrong⟩

end Open

/-- `TRUE` authenticates the containers of `count` data blocks exactly when the number is
covered. No number makes it say anything of a copy that is not laid out: there is always one
that is accepted, with another region. -/
theorem accepted_region_authenticated_iff (sha : Sha) {count : Nat} (bounded : count ≤ 0xAA * 0xAA) :
    ((∀ c blockInfo info, RegionLayout c count →
        conCheckHashes sha c.conData c.conDataStart c.conData.length blockInfo = .ok (some info) →
        Protected sha c count) ↔ Covered count) ∧
      ∀ c blockInfo info, RegionLayout c count → 0 < count →
        conCheckHashes sha c.conData c.conDataStart c.conData.length blockInfo = .ok (some info) →
        ∃ other info', SameRoot c other ∧ other.region ≠ c.region ∧
          conCheckHashes sha other.conData other.conDataStart other.conData.length blockInfo =
            .ok (some info') := by
  constructor
  · constructor
    · intro protects
      by_contra open_
      rcases unbacked_accepted sha bounded open_ with ⟨c, layout, ⟨blockInfo, info, run⟩, unbacked⟩
      exact unbacked (protects c blockInfo info layout run).backed
    · intro covered c blockInfo info layout run
      exact accepted_protected covered layout run
  · intro c blockInfo info layout some_ run
    have contentId := (con_check_hashes_ok_iff.mp run).1
    have same : SameRoot c (c.emptied layout some_) := by
      refine ⟨rfl, (emptied_data_length layout some_).symm, ?_⟩
      have header := layout.header
      have start := take_start_length layout
      have inside : rootHashOffset + XECRYPT_SHA_DIGEST_SIZE ≤ c.conDataStart := by
        rw [rootHashOffset, headerSize, XECRYPT_SHA_DIGEST_SIZE]
        omega
      show slice c.conData _ _ = slice c.emptiedData _ _
      rw [Container.emptiedData, slice_append_left _ _ _ _ (by rw [start]; exact inside),
        slice_of_take _ _ _ _ inside]
    refine ⟨c.emptied layout some_, blockInfo, same, ?_, emptied_accepted layout some_ contentId⟩
    intro region
    exact emptied_changed layout some_ count (layout_of_region layout same region)

/-! ## Containers of blank blocks -/

def onesDigest : Digest := ⟨List.replicate XECRYPT_SHA_DIGEST_SIZE 1, List.length_replicate⟩

def constantSha : Sha := fun _ => onesDigest

def unrootedContainer : Container :=
  (blankContents 1 (by decide) (by decide)).container constantSha Digest.zero

theorem unrooted_container_not_authenticated :
    RegionLayout unrootedContainer 1 ∧
      (∃ info, conCheckHashes constantSha unrootedContainer.conData unrootedContainer.conDataStart
        unrootedContainer.conData.length (List.replicate 1 none) = .ok (some info)) ∧
      ¬ Backed constantSha unrootedContainer 1 := by
  refine ⟨(Contents.container_layout _ _ _).toRegionLayout, ?_⟩
  apply single_table_root_ignored constantSha (blankContents 1 (by decide) (by decide)) Digest.zero
  · decide
  · unfold Contents.root
    rw [if_pos (by decide)]
    decide
  · decide

def leadingSha : Sha := fun bytes =>
  ⟨(bytes ++ zeros XECRYPT_SHA_DIGEST_SIZE).take XECRYPT_SHA_DIGEST_SIZE, by
    rw [List.length_take, List.length_append, zeros_length]
    omega⟩

/-- A container of two groups, with all its copies. -/
theorem two_groups_protected :
    ∃ c info, conCheckHashes leadingSha c.conData c.conDataStart c.conData.length
        (List.replicate 171 none) = .ok (some info) ∧ Protected leadingSha c 171 := by
  have run := Contents.container_accepted leadingSha (blankContents 171 (by decide) (by decide)) _
    (fun _ => rfl) (by decide : verifiedBlocks 171 ≤ 171)
  have layout := Contents.container_layout leadingSha (blankContents 171 (by decide) (by decide))
    ((blankContents 171 (by decide) (by decide)).root leadingSha)
  have protects := (accepted_region_authenticated_iff leadingSha
    (by decide : 171 ≤ 0xAA * 0xAA)).1.mpr (by decide)
  exact ⟨_, _, run, protects _ _ _ layout.toRegionLayout run⟩

end XeBuild.SuCheck
