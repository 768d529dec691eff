import XeBuild.SuCheck.ConCheck

/-!
# The container format behind the walk

Where the parts of a container lie, by their numbers and without any walk: a
table in front of every `0xAA` data blocks, and the master table behind the
first group once there is a second one. Authentication is stated on this layout.
-/

namespace XeBuild.SuCheck

open ListRange

set_option autoImplicit false

/-- The buffer of a container. Its length came from `getFileSize`, an `int`. -/
structure Container where
  conData : Bytes
  conDataStart : Nat
  size : conData.length < 0x80000000

/-! ## Block numbers in the data region -/

def tableBlock (group : Nat) : Nat := if group = 0 then 0 else group * 0xAB + 1

def masterBlock : Nat := 0xAB

/-- Data block `number`, behind the table of its group. -/
def dataBlock (number : Nat) : Nat := tableBlock (number / 0xAA) + 1 + number % 0xAA

def groupCount (count : Nat) : Nat := (count + 0xA9) / 0xAA

def totalBlocks (count : Nat) : Nat :=
  if count ≤ 0xAA then count + 1 else count + groupCount count + 1

namespace Container

variable (c : Container)

def blockOffset (block : Nat) : Nat := c.conDataStart + block * 0x1000

def block (number : Nat) : Bytes := slice c.conData (c.blockOffset number) 0x1000

/-- Entry `index` of the table in block `table`, level word included. -/
def entry (table index : Nat) : Bytes :=
  slice c.conData (c.blockOffset table + index * hashEntrySize) hashEntrySize

def entryDigest (table index : Nat) : Bytes :=
  slice c.conData (c.blockOffset table + index * hashEntrySize) XECRYPT_SHA_DIGEST_SIZE

def level (table : Nat) : Bytes := slice c.conData (c.blockOffset table + levelOffset) 4

def rootHash : Bytes := slice c.conData rootHashOffset XECRYPT_SHA_DIGEST_SIZE

def dataEntry (number : Nat) : Bytes := c.entry (tableBlock (number / 0xAA)) (number % 0xAA)

end Container

/-- The region ends with the last of `count` data blocks, every data block has a used
entry, and only the master table is marked. -/
structure RegionLayout (c : Container) (count : Nat) : Prop where
  header : 0x1000 ≤ c.conDataStart
  bounded : count ≤ 0xAA * 0xAA
  ends : c.conDataStart + totalBlocks count * 0x1000 = c.conData.length
  used : ∀ number < count, checkZeros (c.dataEntry number) = false
  master : 0xAA < count → checkZeros (c.level masterBlock) = true
  unmarked : ∀ group, 0 < group → group < groupCount count →
    checkZeros (c.level (tableBlock group)) = false

structure Layout (c : Container) (count : Nat) : Prop extends RegionLayout c count where
  nonempty : 0 < count

def DataMatches (sha : Sha) (c : Container) (number : Nat) : Prop :=
  (sha (c.block (dataBlock number))).bytes =
    c.entryDigest (tableBlock (number / 0xAA)) (number % 0xAA)

def TableMatches (sha : Sha) (c : Container) (group : Nat) : Prop :=
  (sha (c.block (tableBlock group))).bytes = c.entryDigest masterBlock group

def RootMatches (sha : Sha) (c : Container) (table : Nat) : Prop :=
  (sha (c.block table)).bytes = c.rootHash

/-- Every block of the region is reached from `RootHash`. -/
structure Backed (sha : Sha) (c : Container) (count : Nat) : Prop where
  data : ∀ number < count, DataMatches sha c number
  single : count ≤ 0xAA → RootMatches sha c 0
  tables : 0xAA < count → ∀ group < groupCount count, TableMatches sha c group
  root : 0xAA < count → RootMatches sha c masterBlock

structure AuthenticatedBy (sha : Sha) (c : Container) (count : Nat) : Prop
    extends Backed sha c count where
  layout : Layout c count

/-! ## Arithmetic of the layout -/

section Arithmetic

variable {count group number : Nat}

theorem table_block_succ (group : Nat) :
    tableBlock (group + 1) = group * 0xAB + 0xAC := by
  rw [tableBlock, if_neg (Nat.succ_ne_zero _)]
  omega

theorem lt_group_count : group < groupCount count ↔ group * 0xAA < count := by
  rw [groupCount]
  omega

theorem data_block_of_group (group : Nat) {index : Nat} (inGroup : index < 0xAA) :
    dataBlock (group * 0xAA + index) = tableBlock group + 1 + index ∧
      (group * 0xAA + index) / 0xAA = group ∧ (group * 0xAA + index) % 0xAA = index := by
  have quotient : (group * 0xAA + index) / 0xAA = group := by omega
  have rest : (group * 0xAA + index) % 0xAA = index := by omega
  rw [dataBlock, quotient, rest]
  exact ⟨rfl, rfl, rfl⟩

theorem total_blocks_last {index : Nat} (some : 0 < index) (inGroup : index ≤ 0xAA) :
    totalBlocks (group * 0xAA + index) = tableBlock group + 1 + index := by
  have groups : groupCount (group * 0xAA + index) = group + 1 := by
    rw [groupCount]
    omega
  rw [totalBlocks, groups, tableBlock]
  split
  · split
    · omega
    · omega
  · split
    · omega
    · omega

/-- Behind a group that is not the last there are at least a table and a block. -/
theorem total_blocks_more (more : (group + 1) * 0xAA < count) :
    tableBlock (group + 1) + 1 + min 0xAA (count - (group + 1) * 0xAA) ≤ totalBlocks count := by
  have groups : group + 1 < groupCount count := lt_group_count.mpr more
  have least : count + groupCount count + 1 = totalBlocks count := by
    rw [totalBlocks, if_neg (by omega)]
  rw [table_block_succ, ← least, groupCount]
  omega

theorem data_block_lt (present : number < count) : dataBlock number < totalBlocks count := by
  have place : number / 0xAA * 0xAA + number % 0xAA = number := by omega
  have inGroup : number % 0xAA < 0xAA := Nat.mod_lt _ (by decide)
  by_cases more : (number / 0xAA + 1) * 0xAA < count
  · have after := total_blocks_more more
    rw [table_block_succ] at after
    rw [dataBlock, tableBlock]
    split <;> omega
  · have last : totalBlocks (number / 0xAA * 0xAA + (count - number / 0xAA * 0xAA)) = _ :=
      total_blocks_last (by omega) (by omega)
    rw [Nat.add_sub_cancel' (by omega)] at last
    rw [last, dataBlock]
    omega

end Arithmetic

/-! ## Reading the parts -/

section Reading

variable {c : Container} {count : Nat}

theorem block_offset_succ (c : Container) (block : Nat) :
    c.blockOffset block + 0x1000 = c.blockOffset (block + 1) := by
  rw [Container.blockOffset, Container.blockOffset, Nat.succ_mul, Nat.add_assoc]

theorem block_offset_mono (c : Container) {first second : Nat} (ordered : first ≤ second) :
    c.blockOffset first ≤ c.blockOffset second :=
  Nat.add_le_add_left (Nat.mul_le_mul_right _ ordered) _

theorem block_inside (layout : Layout c count) {block : Nat} (present : block < totalBlocks count) :
    c.blockOffset block + 0x1000 ≤ c.conData.length := by
  rw [block_offset_succ, ← layout.ends]
  exact block_offset_mono c present

theorem block_past_end (layout : Layout c count) {block : Nat} (past : totalBlocks count ≤ block) :
    c.conData.length ≤ c.blockOffset block := by
  rw [← layout.ends]
  exact block_offset_mono c past

theorem entry_take (c : Container) (table index : Nat) :
    (slice c.conData (c.blockOffset table + index * hashEntrySize) hashEntrySize).take
      XECRYPT_SHA_DIGEST_SIZE = c.entryDigest table index := by
  change slice (slice _ _ _) 0 XECRYPT_SHA_DIGEST_SIZE = _
  rw [slice_slice _ _ _ _ _ (by decide), Nat.add_zero]
  rfl

/-- Entries and level words are parts of the block of their table. -/
theorem entry_of_block (c : Container) (table : Nat) {index : Nat} (inTable : index < 0xAA) :
    c.entry table index = slice (c.block table) (index * hashEntrySize) hashEntrySize := by
  rw [Container.block, slice_slice, Container.entry]
  rw [hashEntrySize]
  omega

theorem entry_digest_of_block (c : Container) (table : Nat) {index : Nat} (inTable : index < 0xAA) :
    c.entryDigest table index =
      slice (c.block table) (index * hashEntrySize) XECRYPT_SHA_DIGEST_SIZE := by
  rw [Container.block, slice_slice, Container.entryDigest]
  rw [hashEntrySize, XECRYPT_SHA_DIGEST_SIZE]
  omega

theorem level_of_block (c : Container) (table : Nat) :
    c.level table = slice (c.block table) levelOffset 4 := by
  rw [Container.block, slice_slice _ _ _ _ _ (by decide), Container.level]

end Reading

end XeBuild.SuCheck
