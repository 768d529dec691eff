import XeBuild.SuCheck.WalkRun

/-!
# Containers put together from their data blocks

A container for any data blocks: a table in front of every group, the master
table, and a header around a chosen `RootHash`. Every part is read back from
where the layout has it, so such a container matches all its tables whatever
the root is.
-/

namespace XeBuild.SuCheck

open ListRange ListChunks

set_option autoImplicit false

structure Contents where
  count : Nat
  data : Nat → Bytes
  nonempty : 0 < count
  bounded : count ≤ 0xAA * 0xAA
  dataSize : ∀ number, (data number).length = 0x1000

/-! ## Tables -/

def usedLevel : Bytes := [0x80, 0, 0, 0]

def entryOf (digest : Digest) (level : Bytes) : Bytes := digest.bytes ++ level

def hashBlock (used : Nat) (entry : Nat → Bytes) : Bytes :=
  ((List.range hashBlockEntries).map fun index =>
    if index < used then entry index else zeros hashEntrySize).flatten ++ zeros 0x10

section HashBlock

variable {used : Nat} {entry : Nat → Bytes}

theorem hash_block_entries (size : ∀ index, (entry index).length = hashEntrySize) :
    ∀ index < hashBlockEntries,
      (if index < used then entry index else zeros hashEntrySize).length = hashEntrySize := by
  intro index _
  split
  · exact size index
  · exact zeros_length _

theorem hash_block_length (size : ∀ index, (entry index).length = hashEntrySize) :
    (hashBlock used entry).length = 0x1000 := by
  rw [hashBlock, List.length_append, numbered_length (hash_block_entries size), zeros_length]
  rfl

theorem slice_hash_block (size : ∀ index, (entry index).length = hashEntrySize)
    {index offset length : Nat} (inTable : index < hashBlockEntries)
    (inside : offset + length ≤ hashEntrySize) :
    slice (hashBlock used entry) (index * hashEntrySize + offset) length =
      slice (if index < used then entry index else zeros hashEntrySize) offset length := by
  rw [hashBlock, slice_append_left, slice_numbered (hash_block_entries size) inTable inside]
  rw [numbered_length (hash_block_entries size)]
  rw [hashEntrySize] at inside ⊢
  rw [hashBlockEntries] at inTable ⊢
  omega

end HashBlock

theorem entry_of_length (digest : Digest) {level : Bytes} (word : level.length = 4) :
    (entryOf digest level).length = hashEntrySize := by
  rw [entryOf, List.length_append, digest.size, word]
  rfl

theorem entry_of_digest (digest : Digest) (level : Bytes) :
    slice (entryOf digest level) 0 XECRYPT_SHA_DIGEST_SIZE = digest.bytes := by
  rw [entryOf, slice_append_left _ _ _ _ (by rw [digest.size]; decide), ← digest.size, slice_whole]

theorem entry_of_level (digest : Digest) {level : Bytes} (word : level.length = 4) :
    slice (entryOf digest level) levelOffset 4 = level := by
  rw [entryOf, slice_append_of_le _ _ (by rw [digest.size]; decide), digest.size, ← word]
  exact slice_whole level

/-! ## The region -/

namespace Contents

variable (sha : Sha) (p : Contents)

def table (group : Nat) : Bytes :=
  hashBlock (groupSize p.count group) fun index =>
    entryOf (sha (p.data (group * 0xAA + index))) usedLevel

/-- Only entry 0 of the master table has a zero level word. -/
def masterTable : Bytes :=
  hashBlock (groupCount p.count) fun group =>
    entryOf (sha (p.table sha group)) (if group = 0 then zeros 4 else usedLevel)

def regionBlock (block : Nat) : Bytes :=
  if block ≤ 0xAA then
    if block = 0 then p.table sha 0 else p.data (block - 1)
  else if block = masterBlock then
    p.masterTable sha
  else if (block - 1) % 0xAB = 0 then
    p.table sha ((block - 1) / 0xAB)
  else
    p.data ((block - 1) / 0xAB * 0xAA + ((block - 1) % 0xAB - 1))

def root : Digest :=
  if p.count ≤ 0xAA then sha (p.table sha 0) else sha (p.masterTable sha)

variable {sha p}

theorem used_level_length : usedLevel.length = 4 := rfl

theorem table_entry_length (group index : Nat) :
    (entryOf (sha (p.data (group * 0xAA + index))) usedLevel).length = hashEntrySize :=
  entry_of_length _ used_level_length

theorem master_level_length (group : Nat) :
    (if group = 0 then zeros 4 else usedLevel).length = 4 := by
  split <;> rfl

theorem master_entry_length (group : Nat) :
    (entryOf (sha (p.table sha group)) (if group = 0 then zeros 4 else usedLevel)).length =
      hashEntrySize :=
  entry_of_length _ (master_level_length group)

theorem table_length (group : Nat) : (p.table sha group).length = 0x1000 :=
  hash_block_length (table_entry_length group)

theorem master_table_length : (p.masterTable sha).length = 0x1000 :=
  hash_block_length master_entry_length

theorem region_block_length (block : Nat) : (p.regionBlock sha block).length = 0x1000 := by
  unfold regionBlock
  split
  · split
    · exact table_length 0
    · exact p.dataSize _
  · split
    · exact master_table_length
    · split
      · exact table_length _
      · exact p.dataSize _

theorem region_block_table (group : Nat) :
    p.regionBlock sha (tableBlock group) = p.table sha group := by
  cases group with
  | zero => rfl
  | succ group =>
      have place := table_block_succ group
      have quotient : (tableBlock (group + 1) - 1) / 0xAB = group + 1 := by omega
      unfold regionBlock
      rw [if_neg (by omega), if_neg (by rw [masterBlock]; omega), if_pos (by omega), quotient]

theorem region_block_master : p.regionBlock sha masterBlock = p.masterTable sha := by
  unfold regionBlock
  rw [if_neg (by decide), if_pos rfl]

theorem region_block_data (number : Nat) :
    p.regionBlock sha (dataBlock number) = p.data number := by
  have place : number / 0xAA * 0xAA + number % 0xAA = number := by omega
  have inGroup : number % 0xAA < 0xAA := Nat.mod_lt _ (by decide)
  rw [dataBlock]
  cases quotient : number / 0xAA with
  | zero =>
      have first : tableBlock 0 + 1 + number % 0xAA - 1 = number := by
        rw [tableBlock, if_pos rfl]
        omega
      unfold regionBlock
      rw [if_pos (by rw [tableBlock, if_pos rfl]; omega), if_neg (by omega), first]
  | succ group =>
      have table := table_block_succ group
      have index : (tableBlock (group + 1) + 1 + number % 0xAA - 1) / 0xAB * 0xAA +
          ((tableBlock (group + 1) + 1 + number % 0xAA - 1) % 0xAB - 1) = number := by omega
      unfold regionBlock
      rw [if_neg (by omega), if_neg (by rw [masterBlock]; omega), if_neg (by omega), index]

/-! ## The header -/

def headerBody (root : Digest) : Bytes :=
  zeros (rootHashOffset - headerSize) ++ (root.bytes ++ zeros 0xC6B)

def header (sha : Sha) (root : Digest) : Bytes :=
  zeros contentIdOffset ++
    ((sha (headerBody root)).bytes ++ ([0, 0, 0x10, 0] ++ headerBody root))

theorem header_body_length (root : Digest) : (headerBody root).length = 0xCBC := by
  rw [headerBody, List.length_append, List.length_append, zeros_length, zeros_length, root.size]
  rfl

theorem header_length (sha : Sha) (root : Digest) : (header sha root).length = 0x1000 := by
  rw [header, List.length_append, List.length_append, List.length_append, zeros_length,
    header_body_length, (sha (headerBody root)).size]
  rfl

theorem header_content_id (sha : Sha) (root : Digest) :
    slice (header sha root) contentIdOffset XECRYPT_SHA_DIGEST_SIZE =
      (sha (headerBody root)).bytes := by
  have size := (sha (headerBody root)).size
  rw [header, slice_append_of_le _ _ (by rw [zeros_length]), zeros_length, Nat.sub_self,
    slice_append_left _ _ _ _ (by rw [size, Nat.zero_add]), ← size, slice_whole]

theorem header_behind (sha : Sha) (root : Digest) :
    slice (header sha root) headerSize 0xCBC = headerBody root := by
  have size := (sha (headerBody root)).size
  rw [header, slice_append_of_le _ _ (by rw [zeros_length]; decide), zeros_length,
    slice_append_of_le _ _ (by rw [size]; decide), size,
    slice_append_of_le _ _ (by decide)]
  have whole := slice_whole (headerBody root)
  rwa [header_body_length] at whole

theorem header_size_field (sha : Sha) (root : Digest) :
    slice (header sha root) sizeOfHeadersOffset 4 = [0, 0, 0x10, 0] := by
  have size := (sha (headerBody root)).size
  rw [header, slice_append_of_le _ _ (by rw [zeros_length]; decide), zeros_length,
    slice_append_of_le _ _ (by rw [size]; decide), size, slice_append_left _ _ _ _ (by decide)]
  rfl

theorem header_root (sha : Sha) (root : Digest) :
    slice (header sha root) rootHashOffset XECRYPT_SHA_DIGEST_SIZE = root.bytes := by
  have part := slice_slice (header sha root) headerSize 0xCBC (rootHashOffset - headerSize)
    XECRYPT_SHA_DIGEST_SIZE (by decide)
  have place : headerSize + (rootHashOffset - headerSize) = rootHashOffset := by decide
  rw [header_behind, place] at part
  rw [← part, headerBody, slice_append_of_le _ _ (by rw [zeros_length]), zeros_length,
    Nat.sub_self, slice_append_left _ _ _ _ (by rw [root.size, Nat.zero_add]), ← root.size,
    slice_whole]

/-! ## The container -/

variable (sha p)

def conData (root : Digest) : Bytes :=
  header sha root ++ ((List.range (totalBlocks p.count)).map (p.regionBlock sha)).flatten

variable {sha p}

theorem con_data_length (root : Digest) :
    (p.conData sha root).length = 0x1000 + totalBlocks p.count * 0x1000 := by
  rw [conData, List.length_append, header_length,
    numbered_length (fun _ _ => region_block_length _)]

theorem con_data_size (root : Digest) : (p.conData sha root).length < 0x80000000 := by
  have bounded := p.bounded
  rw [con_data_length]
  unfold totalBlocks groupCount
  split <;> omega

variable (sha p)

def container (root : Digest) : Container where
  conData := p.conData sha root
  conDataStart := 0x1000
  size := con_data_size root

variable {sha p} {root : Digest} {block : Nat}

theorem slice_container {offset size : Nat} (present : block < totalBlocks p.count)
    (inside : offset + size ≤ 0x1000) :
    slice (p.container sha root).conData ((p.container sha root).blockOffset block + offset) size =
      slice (p.regionBlock sha block) offset size := by
  have place : (p.container sha root).blockOffset block + offset =
      (header sha root).length + (block * 0x1000 + offset) := by
    rw [header_length, ← Nat.add_assoc]
    rfl
  rw [place]
  change slice (header sha root ++ _) _ _ = _
  rw [slice_append_right, slice_numbered (fun _ _ => region_block_length _) present inside]

theorem container_block (present : block < totalBlocks p.count) :
    (p.container sha root).block block = p.regionBlock sha block := by
  have whole := slice_whole (p.regionBlock sha block)
  rw [region_block_length] at whole
  have part : slice (p.container sha root).conData ((p.container sha root).blockOffset block + 0)
      0x1000 = _ := slice_container present (by decide)
  rwa [Nat.add_zero, whole] at part

theorem slice_container_header {offset size : Nat} (inside : offset + size ≤ 0x1000) :
    slice (p.container sha root).conData offset size = slice (header sha root) offset size := by
  change slice (header sha root ++ _) _ _ = _
  rw [slice_append_left _ _ _ _ (by rwa [header_length])]

variable (sha p root)

theorem slice_container_table {group index : Nat} (offset size : Nat)
    (present : group * 0xAA < p.count) (inTable : index < hashBlockEntries)
    (inside : offset + size ≤ hashEntrySize) :
    slice (p.container sha root).conData ((p.container sha root).blockOffset (tableBlock group) +
        (index * hashEntrySize + offset)) size =
      slice (if index < groupSize p.count group then
          entryOf (sha (p.data (group * 0xAA + index))) usedLevel
        else zeros hashEntrySize) offset size := by
  have ends := (group_end present).1
  rw [slice_container (by omega), region_block_table]
  · exact slice_hash_block (table_entry_length group) inTable inside
  · rw [hashEntrySize] at inside ⊢
    rw [hashBlockEntries] at inTable
    omega

theorem slice_container_master {index : Nat} (offset size : Nat) (several : 0xAA < p.count)
    (inTable : index < hashBlockEntries) (inside : offset + size ≤ hashEntrySize) :
    slice (p.container sha root).conData ((p.container sha root).blockOffset masterBlock +
        (index * hashEntrySize + offset)) size =
      slice (if index < groupCount p.count then
          entryOf (sha (p.table sha index)) (if index = 0 then zeros 4 else usedLevel)
        else zeros hashEntrySize) offset size := by
  have inBlock : index * hashEntrySize + offset + size ≤ 0x1000 := by
    rw [hashEntrySize] at inside ⊢
    rw [hashBlockEntries] at inTable
    omega
  have after : tableBlock 1 + 1 + _ ≤ totalBlocks p.count :=
    total_blocks_more (by omega : (0 + 1) * 0xAA < p.count)
  rw [table_block_succ] at after
  rw [slice_container (by rw [masterBlock]; omega) inBlock, region_block_master]
  exact slice_hash_block master_entry_length inTable inside

/-! ## The container is laid out and matches its tables -/

variable {sha p root}

theorem zeros_checked (count : Nat) : checkZeros (zeros count) = true := by
  unfold checkZeros zeros
  rw [List.all_eq_true]
  intro value member
  rw [List.eq_of_mem_replicate member]
  rfl

theorem used_entry_checked (digest : Digest) : checkZeros (entryOf digest usedLevel) = false := by
  unfold checkZeros entryOf
  rw [List.all_append]
  exact Bool.and_false _

theorem entry_of_whole (digest : Digest) {level : Bytes} (word : level.length = 4) :
    slice (entryOf digest level) 0 hashEntrySize = entryOf digest level := by
  rw [← entry_of_length digest word]
  exact slice_whole _

theorem table_entry {group index : Nat} (present : group * 0xAA < p.count)
    (inGroup : index < groupSize p.count group) :
    (p.container sha root).entry (tableBlock group) index =
      entryOf (sha (p.data (group * 0xAA + index))) usedLevel := by
  have inTable : index < hashBlockEntries := Nat.lt_of_lt_of_le inGroup (Nat.min_le_left _ _)
  have part := slice_container_table sha p root 0 hashEntrySize present inTable
    (by decide)
  rw [if_pos inGroup, Nat.add_zero, entry_of_whole _ used_level_length] at part
  exact part

theorem table_entry_digest {group index : Nat} (present : group * 0xAA < p.count)
    (inGroup : index < groupSize p.count group) :
    (p.container sha root).entryDigest (tableBlock group) index =
      (sha (p.data (group * 0xAA + index))).bytes := by
  have inTable : index < hashBlockEntries := Nat.lt_of_lt_of_le inGroup (Nat.min_le_left _ _)
  have part := slice_container_table sha p root 0 XECRYPT_SHA_DIGEST_SIZE present
    inTable (by decide)
  rw [if_pos inGroup, Nat.add_zero, entry_of_digest] at part
  exact part

theorem table_unused {group index : Nat} (present : group * 0xAA < p.count)
    (past : groupSize p.count group ≤ index) (inTable : index < hashBlockEntries) :
    (p.container sha root).entry (tableBlock group) index = zeros hashEntrySize := by
  have part := slice_container_table sha p root 0 hashEntrySize present inTable
    (by decide)
  rw [if_neg (by omega), Nat.add_zero] at part
  exact part

theorem table_level {group : Nat} (present : group * 0xAA < p.count) :
    (p.container sha root).level (tableBlock group) = usedLevel := by
  have some : 0 < groupSize p.count group := by
    rw [groupSize]
    omega
  have part := slice_container_table sha p root levelOffset 4 present
    (by decide : 0 < hashBlockEntries) (by decide)
  rw [if_pos some, entry_of_level _ used_level_length, Nat.zero_mul, Nat.zero_add] at part
  exact part

theorem master_entry_digest {group : Nat} (several : 0xAA < p.count)
    (inTable : group < hashBlockEntries) (used : group < groupCount p.count) :
    (p.container sha root).entryDigest masterBlock group = (sha (p.table sha group)).bytes := by
  have part := slice_container_master sha p root 0 XECRYPT_SHA_DIGEST_SIZE several
    inTable (by decide)
  rw [if_pos used, Nat.add_zero, entry_of_digest] at part
  exact part

theorem master_entry {group : Nat} (several : 0xAA < p.count)
    (inTable : group < hashBlockEntries) (used : group < groupCount p.count) :
    (p.container sha root).entry masterBlock group =
      entryOf (sha (p.table sha group)) (if group = 0 then zeros 4 else usedLevel) := by
  have part := slice_container_master sha p root 0 hashEntrySize several inTable
    (by decide)
  rw [if_pos used, Nat.add_zero, entry_of_whole _ (master_level_length group)] at part
  exact part

theorem master_unused {group : Nat} (several : 0xAA < p.count)
    (inTable : group < hashBlockEntries) (past : groupCount p.count ≤ group) :
    (p.container sha root).entry masterBlock group = zeros hashEntrySize := by
  have part := slice_container_master sha p root 0 hashEntrySize several inTable
    (by decide)
  rw [if_neg (by omega), Nat.add_zero] at part
  exact part

theorem master_level (several : 0xAA < p.count) :
    (p.container sha root).level masterBlock = zeros 4 := by
  have some : 0 < groupCount p.count := lt_group_count.mpr (by omega)
  have part := slice_container_master sha p root levelOffset 4 several
    (by decide : 0 < hashBlockEntries) (by decide)
  rw [if_pos some, entry_of_level _ (master_level_length 0), if_pos rfl, Nat.zero_mul,
    Nat.zero_add] at part
  exact part

variable (sha p root)

theorem container_layout : Layout (p.container sha root) p.count := by
  refine ⟨⟨Nat.le_refl _, p.bounded, (con_data_length root).symm, ?_, ?_, ?_⟩, p.nonempty⟩
  · intro number before
    rw [Container.dataEntry, table_entry (by omega) (by rw [groupSize]; omega)]
    exact used_entry_checked _
  · intro several
    rw [master_level several]
    exact zeros_checked 4
  · intro group _ before
    rw [table_level (lt_group_count.mp before)]
    decide

theorem container_data {number : Nat} (before : number < p.count) :
    DataMatches sha (p.container sha root) number := by
  have place : number / 0xAA * 0xAA + number % 0xAA = number := by omega
  rw [DataMatches, container_block (data_block_lt before), region_block_data,
    table_entry_digest (by omega) (by rw [groupSize]; omega), place]

theorem container_tables (several : 0xAA < p.count) {group : Nat}
    (before : group < groupCount p.count) :
    TableMatches sha (p.container sha root) group := by
  have present := lt_group_count.mp before
  have bounded := p.bounded
  have ends := (group_end present).1
  rw [TableMatches, container_block (by omega), region_block_table,
    master_entry_digest several (by rw [hashBlockEntries]; omega) before]

theorem container_root_hash : (p.container sha root).rootHash = root.bytes := by
  rw [Container.rootHash, slice_container_header (by decide), header_root]

theorem container_root_single (same : p.root sha = root) (single : p.count ≤ 0xAA) :
    RootMatches sha (p.container sha root) 0 := by
  have table : p.regionBlock sha (tableBlock 0) = p.table sha 0 := region_block_table 0
  have nonempty := p.nonempty
  have present := data_block_lt nonempty
  rw [Contents.root, if_pos single] at same
  rw [RootMatches, container_root_hash, container_block (by omega), ← same]
  exact congrArg (fun block => (sha block).bytes) table

theorem container_root_master (same : p.root sha = root) (several : 0xAA < p.count) :
    RootMatches sha (p.container sha root) masterBlock := by
  have after : tableBlock 1 + 1 + _ ≤ totalBlocks p.count :=
    total_blocks_more (by omega : (0 + 1) * 0xAA < p.count)
  rw [table_block_succ] at after
  rw [Contents.root, if_neg (by omega)] at same
  rw [RootMatches, container_root_hash, container_block (by rw [masterBlock]; omega),
    region_block_master, same]

theorem container_content_id :
    ContentIdMatches sha (p.container sha root).conData (p.container sha root).conDataStart := by
  have length : (p.conData sha root).length = _ := con_data_length root
  have range : sub32 (p.container sha root).conDataStart headerSize = 0xCBC := by
    change sub32 0x1000 headerSize = 0xCBC
    decide
  constructor
  · change _ ≤ (p.conData sha root).length
    rw [length, contentIdOffset, XECRYPT_SHA_DIGEST_SIZE]
    omega
  · rw [range]
    change _ ≤ (p.conData sha root).length
    rw [length, headerSize]
    omega
  · rw [range, slice_container_header (by decide), slice_container_header (by decide),
      header_content_id, header_behind]

theorem container_unused {group : Nat} (present : group * 0xAA < p.count)
    (fewer : groupSize p.count group < 0xAA) :
    EntryUnused (p.container sha root).conData
      ((p.container sha root).blockOffset (tableBlock group) +
        groupSize p.count group * hashEntrySize) := by
  have ends := (group_end present).1
  constructor
  · exact entry_inside (container_layout sha p root) (by omega) fewer
  · have unused : (p.container sha root).entry (tableBlock group) (groupSize p.count group) = _ :=
      table_unused present (Nat.le_refl _) fewer
    rw [Container.entry] at unused
    rw [unused]
    exact zeros_checked _

theorem container_checks (rooted : 0xAA < p.count → p.root sha = root) (group : Nat) :
    GroupChecks sha (p.container sha root) p.count group := by
  have bound := verified_le p.count
  constructor
  · intro index before
    exact container_data sha p root (group_index_lt before)
  · intro more
    constructor
    · intro _
      have several : 0xAA < p.count := by omega
      exact ⟨container_root_master sha p root (rooted several) several,
        container_tables sha p root several (lt_group_count.mpr (by omega))⟩
    · exact container_tables sha p root (by omega) (lt_group_count.mpr (by omega))

/-- The check accepts the container. For a single group it does so whatever
`RootHash` is. -/
theorem container_accepted (rooted : 0xAA < p.count → p.root sha = root) {size : Nat}
    (room : verifiedBlocks p.count ≤ size) :
    conCheckHashes sha (p.container sha root).conData (p.container sha root).conDataStart
        (p.container sha root).conData.length (List.replicate size none) =
      .ok (some (blockMap (p.container sha root) size (verifiedBlocks p.count))) := by
  have bound := verified_le p.count
  apply con_check_hashes_complete (container_layout sha p root) (container_content_id sha p root)
  · intro group _
    exact container_checks sha p root rooted group
  · intro group present fewer
    exact container_unused sha p root (by omega) fewer
  · exact room

end Contents

def blankContents (count : Nat) (nonempty : 0 < count) (bounded : count ≤ 0xAA * 0xAA) :
    Contents where
  count := count
  data := fun _ => zeros 0x1000
  nonempty := nonempty
  bounded := bounded
  dataSize := fun _ => zeros_length _

end XeBuild.SuCheck
