import XeBuild.SuCheck.ContainerAssembly

/-!
# Containers the walk leaves unread

Three containers that the check accepts for every digest: one whose first table has
no entry in use, so that the walk ends in front of everything behind it; a region of
a single table without data blocks; and one whose last group has one block, with a
wrong digest in its table.
-/

namespace XeBuild.SuCheck

open ListRange ListChunks Runs

set_option autoImplicit false

/-! ## A first table without entries -/

section UnusedFirst

variable {sha : Sha} {conData front region region' : Bytes} {conDataStart conDataLen : Nat}
  {blockInfo : List (Option Nat)}

/-- What is read behind an unused first entry: the level word of the next block, if the end
test lets the walk come to it. -/
structure FirstUnread (conData : Bytes) (conDataStart conDataLen : Nat) : Prop where
  unused : EntryUnused conData conDataStart
  marked : ¬ u32 (u32 (conDataStart + hashBlockSize) + 0x2000) ≥ conDataLen →
    u32 (conDataStart + hashBlockSize) + levelOffset + 4 ≤ conData.length ∧
      checkZeros (slice conData (u32 (conDataStart + hashBlockSize) + levelOffset) 4) = false

theorem first_fragment_ended (unread : FirstUnread conData conDataStart conDataLen) :
    fragment sha conData hashBlockEntries (Walk.first conDataStart blockInfo) =
      .ok (some (false, Walk.first conDataStart blockInfo)) := by
  have run : FragmentRun sha conData hashBlockEntries (Walk.first conDataStart blockInfo) 0 false := by
    apply fragment_run_unused.mpr
    exact ⟨rfl, unread.unused⟩
  exact (fragment_ok_iff (Nat.le_refl _)).mpr ⟨0, run, rfl⟩

theorem first_pass_finished (unread : FirstUnread conData conDataStart conDataLen) :
    ∃ w, walkPass sha conData conDataStart conDataLen (Walk.first conDataStart blockInfo) =
      .ok (.finished w) ∧ w.blockInfo = blockInfo := by
  rw [walkPass, first_fragment_ended unread]
  by_cases ended : u32 ((Walk.first conDataStart blockInfo).currOffset + 0x2000) ≥ conDataLen
  · refine ⟨Walk.first conDataStart blockInfo, ?_, rfl⟩
    rw [ok_bind]
    dsimp only
    rw [if_pos ended]
    rfl
  · obtain ⟨inside, level⟩ := unread.marked ended
    have next : nextTable sha conData conDataStart (Walk.first conDataStart blockInfo) =
        .ok (some { (Walk.first conDataStart blockInfo).behind with
          currOffset := u32 (u32 (conDataStart + hashBlockSize) + 0x1000) }) := by
      apply next_table_ok_iff.mpr
      refine ⟨inside, (Walk.first conDataStart blockInfo).behind, ?_, rfl⟩
      exact if_neg (by rw [Walk.first, level]; exact Bool.false_ne_true)
    refine ⟨{ (Walk.first conDataStart blockInfo).behind with
      currOffset := u32 (u32 (conDataStart + hashBlockSize) + 0x1000) }, ?_, rfl⟩
    rw [ok_bind]
    dsimp only
    rw [if_neg ended, next]
    rfl

/-- Such a container is accepted, whatever is behind its first table. -/
theorem first_unread_accepted (contentId : ContentIdMatches sha conData conDataStart)
    (unread : FirstUnread conData conDataStart conDataLen) :
    conCheckHashes sha conData conDataStart conDataLen blockInfo = .ok (some blockInfo) := by
  rcases @first_pass_finished sha conData conDataStart conDataLen blockInfo unread with
    ⟨w, pass, info⟩
  refine con_check_hashes_ok_iff.mpr ⟨contentId, w, ?_, info⟩
  unfold walkLoop
  split
  · next fault run => rw [run] at pass; cases pass
  · next run => rw [run] at pass; cases pass
  · next w' run =>
      rw [run] at pass
      cases pass
      rfl
  · next w' run => rw [run] at pass; cases pass

theorem content_id_kept (header : 0x1000 ≤ front.length) (word : front.length < 0x100000000)
    (matched : ContentIdMatches sha (front ++ region) front.length) :
    ContentIdMatches sha (front ++ region') front.length := by
  have digest := matched.digest
  have range : sub32 front.length headerSize = front.length - 0x344 :=
    sub32_of_le (by rw [headerSize]; omega) word
  have idInside : contentIdOffset + XECRYPT_SHA_DIGEST_SIZE ≤ front.length := by
    rw [contentIdOffset, XECRYPT_SHA_DIGEST_SIZE]
    omega
  have headerInside : headerSize + sub32 front.length headerSize ≤ front.length := by
    rw [range, headerSize]
    omega
  rw [slice_append_left _ _ _ _ idInside, slice_append_left _ _ _ _ headerInside] at digest
  constructor
  · rw [List.length_append]
    omega
  · rw [List.length_append]
    omega
  · rw [slice_append_left _ _ _ _ idInside, slice_append_left _ _ _ _ headerInside]
    exact digest

end UnusedFirst

/-! ## A copy whose first table is emptied -/

namespace Container

/-- The header of a container in front of a blank block and blocks of ones. -/
def emptiedData (c : Container) : Bytes :=
  c.conData.take c.conDataStart ++
    (zeros 0x1000 ++ List.replicate (c.conData.length - c.conDataStart - 0x1000) 1)

end Container

section Emptied

variable {sha : Sha} {c : Container} {count : Nat} {blockInfo : List (Option Nat)}

theorem two_blocks_least (some_ : 0 < count) : 2 ≤ totalBlocks count := by
  rw [totalBlocks, groupCount]
  split <;> omega

theorem emptied_data_length (layout : RegionLayout c count) (some_ : 0 < count) :
    c.emptiedData.length = c.conData.length := by
  have ends := layout.ends
  have blocks := two_blocks_least some_
  rw [Container.emptiedData, List.length_append, List.length_append, List.length_take, zeros_length,
    List.length_replicate]
  omega

theorem take_start_length (layout : RegionLayout c count) :
    (c.conData.take c.conDataStart).length = c.conDataStart := by
  have ends := layout.ends
  rw [List.length_take]
  omega

theorem slice_emptied (layout : RegionLayout c count) (offset size : Nat) :
    slice c.emptiedData (c.conDataStart + offset) size =
      slice (zeros 0x1000 ++ List.replicate (c.conData.length - c.conDataStart - 0x1000) 1)
        offset size := by
  have part := slice_append_right (c.conData.take c.conDataStart)
    (zeros 0x1000 ++ List.replicate (c.conData.length - c.conDataStart - 0x1000) 1) offset size
  rwa [take_start_length layout] at part

theorem emptied_first_entry (layout : RegionLayout c count) :
    slice c.emptiedData c.conDataStart hashEntrySize = zeros hashEntrySize := by
  have part := slice_emptied layout 0 hashEntrySize
  rw [Nat.add_zero, slice_append_left _ _ _ _ (by rw [zeros_length]; decide)] at part
  exact part

theorem emptied_unread (layout : RegionLayout c count) (some_ : 0 < count) :
    FirstUnread c.emptiedData c.conDataStart c.emptiedData.length := by
  have ends := layout.ends
  have blocks := two_blocks_least some_
  have length := emptied_data_length layout some_
  have bound := c.size
  have second : u32 (c.conDataStart + hashBlockSize) = c.conDataStart + 0x1000 :=
    u32_of_lt (by rw [hashBlockSize]; omega)
  rw [length]
  constructor
  · constructor
    · rw [length, hashEntrySize]
      omega
    · rw [emptied_first_entry layout]
      exact Contents.zeros_checked _
  · intro more
    rw [second, u32_of_lt (by omega)] at more
    rw [second, length, levelOffset, Nat.add_assoc c.conDataStart]
    refine ⟨by omega, ?_⟩
    rw [slice_emptied layout, slice_append_of_le _ _ (by rw [zeros_length]; omega),
      slice_replicate _ _ _ _ (by rw [zeros_length]; omega)]
    decide

def Container.emptied (c : Container) (layout : RegionLayout c count) (some_ : 0 < count) :
    Container where
  conData := c.emptiedData
  conDataStart := c.conDataStart
  size := by rw [emptied_data_length layout some_]; exact c.size

theorem emptied_accepted (layout : RegionLayout c count) (some_ : 0 < count)
    (contentId : ContentIdMatches sha c.conData c.conDataStart) :
    conCheckHashes sha c.emptiedData c.conDataStart c.emptiedData.length blockInfo =
      .ok (some blockInfo) := by
  have header := layout.header
  have ends := layout.ends
  have bound := c.size
  have start := take_start_length layout
  apply first_unread_accepted _ (emptied_unread layout some_)
  have whole : c.conData.take c.conDataStart ++ c.conData.drop c.conDataStart = c.conData :=
    List.take_append_drop _ _
  have kept := @content_id_kept sha (c.conData.take c.conDataStart) (c.conData.drop c.conDataStart)
    (zeros 0x1000 ++ List.replicate (c.conData.length - c.conDataStart - 0x1000) 1)
    (by omega) (by omega)
  rw [whole, start] at kept
  exact kept contentId

/-- The region is another one, and is not laid out for any data blocks. -/
theorem emptied_changed (layout : RegionLayout c count) (some_ : 0 < count) (other : Nat) :
    ¬ RegionLayout (c.emptied layout some_) other := by
  intro layout'
  by_cases none : other = 0
  · have ends := layout.ends
    have ends' : c.conDataStart + totalBlocks other * 0x1000 = c.emptiedData.length := layout'.ends
    have blocks := two_blocks_least some_
    have single : totalBlocks 0 = 1 := rfl
    rw [emptied_data_length layout some_, none, single] at ends'
    omega
  · have used : checkZeros (slice c.emptiedData (c.conDataStart + 0 * 0x1000 + 0 * hashEntrySize)
        hashEntrySize) = false := layout'.used 0 (Nat.pos_of_ne_zero none)
    rw [Nat.zero_mul, Nat.zero_mul, Nat.add_zero, emptied_first_entry layout,
      Contents.zeros_checked] at used
    cases used

end Emptied

/-! ## A region of one table -/

section SingleTable

variable {sha : Sha} {root : Digest} {blockInfo : List (Option Nat)}

def singleTable (sha : Sha) (root : Digest) : Container where
  conData := Contents.header sha root ++ zeros 0x1000
  conDataStart := 0x1000
  size := by rw [List.length_append, Contents.header_length, zeros_length]; decide

theorem single_table_length : (singleTable sha root).conData.length = 0x2000 := by
  change (Contents.header sha root ++ zeros 0x1000).length = _
  rw [List.length_append, Contents.header_length, zeros_length]

theorem slice_single_table {offset size : Nat} (inside : offset + size ≤ 0x1000) :
    slice (singleTable sha root).conData (0x1000 + offset) size = zeros size := by
  have part := slice_append_right (Contents.header sha root) (zeros 0x1000) offset size
  rw [Contents.header_length, zeros, slice_replicate _ _ _ _ inside] at part
  exact part

theorem single_table_layout : RegionLayout (singleTable sha root) 0 := by
  refine ⟨Nat.le_refl _, Nat.zero_le _, ?_, ?_, ?_, ?_⟩
  · rw [single_table_length]
    rfl
  · intro number before
    exact absurd before (Nat.not_lt_zero number)
  · intro several
    exact absurd several (by decide)
  · intro group _ before
    exact absurd before (by rw [lt_group_count]; omega)

theorem header_content_id (region : Bytes) :
    ContentIdMatches sha (Contents.header sha root ++ region) 0x1000 := by
  have length := Contents.header_length sha root
  have matched : ContentIdMatches sha
      ((blankContents 1 (by decide) (by decide)).conData sha root) 0x1000 :=
    Contents.container_content_id sha _ root
  rw [Contents.conData] at matched
  rw [← length] at matched ⊢
  exact content_id_kept (by omega) (by omega) matched

theorem single_table_accepted :
    conCheckHashes sha (singleTable sha root).conData (singleTable sha root).conDataStart
      (singleTable sha root).conData.length blockInfo = .ok (some blockInfo) := by
  apply first_unread_accepted (header_content_id (zeros 0x1000))
  constructor
  · constructor
    · have length := @single_table_length sha root
      exact Nat.le_trans (by decide) (Nat.le_of_eq length.symm)
    · have entry := @slice_single_table sha root 0 hashEntrySize (by decide)
      exact (congrArg checkZeros entry).trans (Contents.zeros_checked _)
  · intro more
    have length := @single_table_length sha root
    rw [length] at more
    exact absurd (by decide) more

theorem single_table_root :
    (singleTable sha root).rootHash = root.bytes ∧
      (singleTable sha root).block 0 = zeros 0x1000 := by
  constructor
  · rw [← Contents.header_root sha root]
    exact slice_append_left _ _ _ _ (by rw [Contents.header_length]; decide)
  · exact slice_single_table (by decide)

end SingleTable

/-! ## A wrong digest in the last table -/

section Forged

variable {sha : Sha} {p : Contents} {entry : Digest}

def forgedTable (entry : Digest) : Bytes := hashBlock 1 fun _ => entryOf entry usedLevel

def forgedBlock (sha : Sha) (p : Contents) (entry : Digest) (block : Nat) : Bytes :=
  if block = tableBlock (p.count / 0xAA) then forgedTable entry else p.regionBlock sha block

theorem forged_entry_length (entry : Digest) :
    ∀ _ : Nat, (entryOf entry usedLevel).length = hashEntrySize :=
  fun _ => entry_of_length entry Contents.used_level_length

theorem forged_block_length (block : Nat) : (forgedBlock sha p entry block).length = 0x1000 := by
  rw [forgedBlock]
  split
  · exact hash_block_length (forged_entry_length entry)
  · exact Contents.region_block_length block

def forgedData (sha : Sha) (p : Contents) (entry : Digest) : Bytes :=
  Contents.header sha (p.root sha) ++
    ((List.range (totalBlocks p.count)).map (forgedBlock sha p entry)).flatten

theorem forged_data_length :
    (forgedData sha p entry).length = 0x1000 + totalBlocks p.count * 0x1000 := by
  rw [forgedData, List.length_append, Contents.header_length,
    numbered_length (fun _ _ => forged_block_length _)]

/-- The container for the contents, with the forged table in front of its last group. -/
def forged (sha : Sha) (p : Contents) (entry : Digest) : Container where
  conData := forgedData sha p entry
  conDataStart := 0x1000
  size := by
    have size := @Contents.con_data_size sha p (p.root sha)
    rw [Contents.con_data_length] at size
    rw [forged_data_length]
    exact size

theorem forged_block {block : Nat} (present : block < totalBlocks p.count) :
    (forged sha p entry).block block = forgedBlock sha p entry block := by
  have place : (forged sha p entry).blockOffset block =
      (Contents.header sha (p.root sha)).length + (block * 0x1000 + 0) := by
    rw [Contents.header_length, Nat.add_zero]
    rfl
  have whole := slice_whole (forgedBlock sha p entry block)
  rw [forged_block_length] at whole
  rw [Container.block, place]
  change slice (Contents.header sha (p.root sha) ++ _) _ _ = _
  rw [slice_append_right, slice_numbered (fun _ _ => forged_block_length _) present (by decide), whole]

/-- All other blocks are those of the container that is put together from the contents. -/
theorem forged_block_same {block : Nat} (present : block < totalBlocks p.count)
    (other : block ≠ tableBlock (p.count / 0xAA)) :
    (forged sha p entry).block block = (p.container sha (p.root sha)).block block := by
  rw [forged_block present, forgedBlock, if_neg other, Contents.container_block present]

theorem data_block_apart (number group : Nat) : dataBlock number ≠ tableBlock group := by
  rw [dataBlock]
  unfold tableBlock
  split <;> split <;> omega

theorem table_block_apart {group other : Nat} (before : group < other) :
    tableBlock group ≠ tableBlock other := by
  unfold tableBlock
  split <;> split <;> omega

theorem master_apart (group : Nat) : masterBlock ≠ tableBlock group := by
  rw [masterBlock]
  unfold tableBlock
  split <;> omega

theorem forged_root_same (several : 0xAA < p.count) :
    RootMatches sha (forged sha p entry) masterBlock := by
  have matched := Contents.container_root_master sha p (p.root sha) rfl several
  have root : (forged sha p entry).rootHash = (p.container sha (p.root sha)).rootHash := by
    rw [Contents.container_root_hash, ← Contents.header_root sha (p.root sha)]
    exact slice_append_left _ _ _ _ (by rw [Contents.header_length]; decide)
  rw [RootMatches, forged_block_same (master_present several) (master_apart _), root]
  exact matched

section Last

variable (tail : p.count % 0xAA = 1)

include tail

theorem last_table_present : tableBlock (p.count / 0xAA) < totalBlocks p.count := by
  have ends := (group_end (by omega : p.count / 0xAA * 0xAA < p.count)).1
  omega

theorem forged_part (offset : Nat) {size : Nat} (inside : offset + size ≤ hashEntrySize) :
    slice ((forged sha p entry).block (tableBlock (p.count / 0xAA))) offset size =
      slice (entryOf entry usedLevel) offset size := by
  have part := @slice_hash_block 1 _ (forged_entry_length entry) 0 offset size (by decide) inside
  rw [forged_block (last_table_present tail), forgedBlock, if_pos rfl]
  rw [Nat.zero_mul, Nat.zero_add] at part
  exact part

theorem forged_entry :
    (forged sha p entry).entry (tableBlock (p.count / 0xAA)) 0 = entryOf entry usedLevel := by
  rw [entry_of_block _ _ (by decide), Nat.zero_mul, forged_part tail 0 (by decide),
    Contents.entry_of_whole _ Contents.used_level_length]

theorem forged_digest :
    (forged sha p entry).entryDigest (tableBlock (p.count / 0xAA)) 0 = entry.bytes := by
  rw [entry_digest_of_block _ _ (by decide), Nat.zero_mul, forged_part tail 0 (by decide),
    entry_of_digest]

theorem forged_level : (forged sha p entry).level (tableBlock (p.count / 0xAA)) = usedLevel := by
  rw [level_of_block, forged_part tail _ (by decide), entry_of_level _ Contents.used_level_length]

/-- The tables in front of the last one are those of the contents. -/
theorem forged_table_same {group : Nat} (before : group < p.count / 0xAA) :
    (forged sha p entry).block (tableBlock group) =
      (p.container sha (p.root sha)).block (tableBlock group) := by
  have ends := (group_end (by omega : group * 0xAA < p.count)).1
  exact forged_block_same (by omega) (table_block_apart before)

theorem forged_layout : Layout (forged sha p entry) p.count := by
  have layout := Contents.container_layout sha p (p.root sha)
  refine ⟨⟨Nat.le_refl _, p.bounded, forged_data_length.symm, ?_, ?_, ?_⟩, p.nonempty⟩
  · intro number before
    have inTable : number % 0xAA < 0xAA := Nat.mod_lt _ (by decide)
    rcases Nat.lt_or_ge (number / 0xAA) (p.count / 0xAA) with earlier | last
    · have used := layout.used number before
      rw [Container.dataEntry, entry_of_block _ _ inTable] at used
      rw [Container.dataEntry, entry_of_block _ _ inTable, forged_table_same tail earlier]
      exact used
    · have group : number / 0xAA = p.count / 0xAA := by omega
      have index : number % 0xAA = 0 := by omega
      rw [Container.dataEntry, group, index, forged_entry tail]
      exact Contents.used_entry_checked _
  · intro several
    have level := layout.master several
    rw [level_of_block] at level
    rw [level_of_block, forged_block_same (master_present several) (master_apart _)]
    exact level
  · intro group positive before
    rcases Nat.lt_or_ge group (p.count / 0xAA) with earlier | last
    · have level := layout.unmarked group positive before
      rw [level_of_block] at level
      rw [level_of_block, forged_table_same tail earlier]
      exact level
    · have same : group = p.count / 0xAA := by
        rw [lt_group_count] at before
        omega
      rw [same, forged_level tail]
      decide

theorem forged_data_same {number : Nat} (before : number / 0xAA < p.count / 0xAA)
    (matched : DataMatches sha (p.container sha (p.root sha)) number) :
    DataMatches sha (forged sha p entry) number := by
  have inTable : number % 0xAA < 0xAA := Nat.mod_lt _ (by decide)
  have present := data_block_lt (by omega : number < p.count)
  rw [DataMatches, entry_digest_of_block _ _ inTable] at matched
  rw [DataMatches, entry_digest_of_block _ _ inTable, forged_table_same tail before,
    forged_block_same present (data_block_apart _ _)]
  exact matched

theorem forged_backed_same {group : Nat} (several : 0xAA < p.count)
    (before : group < p.count / 0xAA) (inTable : group < 0xAA)
    (matched : TableMatches sha (p.container sha (p.root sha)) group) :
    TableMatches sha (forged sha p entry) group := by
  rw [TableMatches, entry_digest_of_block _ _ inTable] at matched
  rw [TableMatches, entry_digest_of_block _ _ inTable, forged_table_same tail before,
    forged_block_same (master_present several) (master_apart _)]
  exact matched

/-- Behind the second group the walk ends in front of the forged table. -/
theorem forged_accepted (large : 2 * 0xAA < p.count) {size : Nat}
    (room : verifiedBlocks p.count ≤ size) :
    ∃ info, conCheckHashes sha (forged sha p entry).conData (forged sha p entry).conDataStart
      (forged sha p entry).conData.length (List.replicate size none) = .ok (some info) := by
  have several : 0xAA < p.count := by omega
  have bounded := p.bounded
  have verified : verifiedBlocks p.count = p.count - 1 := if_pos ⟨tail, large⟩
  refine ⟨_, con_check_hashes_complete (forged_layout tail) (header_content_id _) ?_ ?_ room⟩
  · intro group before
    have earlier : group < p.count / 0xAA := by omega
    have checks := Contents.container_checks sha p (p.root sha) (fun _ => rfl) group
    constructor
    · intro index inGroup
      have inTable : index < 0xAA := Nat.lt_of_lt_of_le inGroup (Nat.min_le_left _ _)
      exact forged_data_same tail (by omega) (checks.data index inGroup)
    · intro more
      have tables := checks.tables more
      constructor
      · intro first
        exact ⟨forged_root_same several,
          forged_backed_same tail several (by omega) (by decide) (tables.master first).2⟩
      · exact forged_backed_same tail several (by omega) (by omega) tables.next
  · intro group before fewer
    rw [groupSize] at fewer
    omega

theorem forged_not_backed (wrong : entry ≠ sha (p.data (p.count - 1))) :
    ¬ Backed sha (forged sha p entry) p.count := by
  intro backed
  have nonempty := p.nonempty
  have group : (p.count - 1) / 0xAA = p.count / 0xAA := by omega
  have index : (p.count - 1) % 0xAA = 0 := by omega
  have present := data_block_lt (by omega : p.count - 1 < p.count)
  have matched := backed.data (p.count - 1) (by omega)
  rw [DataMatches, group, index, forged_digest tail, forged_block present, forgedBlock,
    if_neg (data_block_apart _ _), Contents.region_block_data] at matched
  exact wrong (Digest.bytes_injective matched.symm)

end Last

end Forged

end XeBuild.SuCheck
