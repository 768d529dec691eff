import XeBuild.SuCheck.ContainerWalk

/-!
# Reads of the container walk

Where the walk reads in a file of any contents. A table stands behind the blocks
of the one before it, and behind a master table when its level word says so. A
pass reads outside of the file only where a used entry has no block, or where
the master table has no entry for the next table.
-/

namespace XeBuild.SuCheck

open ListRange Runs

set_option autoImplicit false

/-! ## Reads and stores -/

section Accesses

variable {conData : Bytes} {offset size : Nat} {Result : Type}

theorem returns_read_bind_iff {next : Bytes → Except Fault Result} :
    Returns (readAt conData offset size >>= next) ↔
      offset + size ≤ conData.length ∧ Returns (next (slice conData offset size)) := by
  rw [returns_bind_iff]
  constructor
  · intro steps
    rcases steps with ⟨⟨bytes, read⟩, rest⟩
    rcases read_at_ok_iff.mp read with ⟨inside, rfl⟩
    exact ⟨inside, rest _ read⟩
  · intro both
    refine ⟨⟨_, read_at_ok_iff.mpr ⟨both.1, rfl⟩⟩, ?_⟩
    intro bytes read
    rcases read_at_ok_iff.mp read with ⟨_, rfl⟩
    exact both.2

theorem returns_hash_bind_iff {sha : Sha} {next : Bytes → Except Fault Result} :
    Returns (hashAt sha conData offset size >>= next) ↔
      offset + size ≤ conData.length ∧ Returns (next (sha (slice conData offset size)).bytes) := by
  rw [hashAt, bind_assoc, returns_read_bind_iff]
  rfl

theorem returns_store_bind_iff {blockInfo : List (Option Nat)} {index value : Nat}
    {next : List (Option Nat) → Except Fault Result} (room : index < blockInfo.length) :
    Returns (storeAt blockInfo index value >>= next) ↔
      Returns (next (blockInfo.set index (some value))) := by
  rw [storeAt, if_pos room, ok_bind]

end Accesses

/-! ## Places -/

/-- Where the walk is in front of a group: its table, and the last master table. -/
structure Place where
  hb : Nat
  mhb : Option Nat

def Place.entryAt (p : Place) (index : Nat) : Nat := p.hb + index * hashEntrySize

/-- Where block `index` of the group is, or what is behind so many blocks. -/
def Place.blockAt (p : Place) (index : Nat) : Nat := p.hb + 0x1000 * (index + 1)

/-- The place behind so many blocks. A table whose first level word is zero is a
master table, with the next table behind it. -/
def Place.next (conData : Bytes) (p : Place) (stored : Nat) : Place :=
  if checkZeros (slice conData (p.blockAt stored + levelOffset) 4) = true then
    ⟨p.blockAt stored + 0x1000, some (p.blockAt stored)⟩
  else ⟨p.blockAt stored, p.mhb⟩

def EntryUsed (conData : Bytes) (p : Place) (index : Nat) : Prop :=
  checkZeros (slice conData (p.entryAt index) hashEntrySize) = false

def MatchesBefore (sha : Sha) (conData : Bytes) (p : Place) (index : Nat) : Prop :=
  ∀ earlier < index, EntryMatches sha conData (p.entryAt earlier) (p.blockAt earlier)

structure FragmentInside (sha : Sha) (conData : Bytes) (p : Place) : Prop where
  entry : ∀ index < hashBlockEntries, MatchesBefore sha conData p index →
    p.entryAt index + hashEntrySize ≤ conData.length
  block : ∀ index < hashBlockEntries, MatchesBefore sha conData p index →
    EntryUsed conData p index → p.blockAt index + 0x1000 ≤ conData.length

structure AtPlace (conData : Bytes) (p : Place) (group stored : Nat) (w : Walk) : Prop where
  hb : w.hb = p.hb
  mhb : w.mhb = p.mhb
  j : w.j = group
  currOffset : w.currOffset = p.blockAt stored
  inFile : p.hb ≤ conData.length
  size : w.blockInfo.length = conData.length / 0x1000 + 1
  room : (w.currBlock + 1) * 0x1000 ≤ w.currOffset

section Fragment

variable {sha : Sha} {conData : Bytes} {p : Place} {group index remaining : Nat} {w : Walk}

/-- A block in the file has room in `blockInfo`, and its end does not wrap. -/
theorem at_place_stored (int : conData.length < 0x80000000)
    (here : AtPlace conData p group index w) (inside : p.blockAt index + 0x1000 ≤ conData.length) :
    w.currBlock < w.blockInfo.length ∧ AtPlace conData p group (index + 1) w.stored := by
  have room := here.room
  have offset := here.currOffset
  have next : w.stored.currOffset = p.blockAt (index + 1) := by
    change u32 (w.currOffset + 0x1000) = _
    rw [offset, u32_of_lt (by omega), Place.blockAt, Place.blockAt]
    omega
  constructor
  · rw [here.size]
    omega
  · constructor
    · exact here.hb
    · exact here.mhb
    · exact here.j
    · exact next
    · exact here.inFile
    · exact List.length_set.trans here.size
    · have moved : p.blockAt (index + 1) = w.currOffset + 0x1000 := by
        rw [offset, Place.blockAt, Place.blockAt]
        omega
      calc
        (w.currBlock + 1 + 1) * 0x1000 = (w.currBlock + 1) * 0x1000 + 0x1000 := Nat.succ_mul _ _
        _ ≤ w.currOffset + 0x1000 := Nat.add_le_add_right room _
        _ = w.stored.currOffset := by rw [next, moved]

/-- One round of the loop: the entry, the block that it is for, and the rest when
they match. -/
theorem round_returns_iff (int : conData.length < 0x80000000)
    (here : AtPlace conData p group index w) (rounds : index + (remaining + 1) = hashBlockEntries) :
    Returns (fragment sha conData (remaining + 1) w) ↔
      p.entryAt index + hashEntrySize ≤ conData.length ∧
        (EntryUsed conData p index → p.blockAt index + 0x1000 ≤ conData.length) ∧
        (EntryMatches sha conData (p.entryAt index) (p.blockAt index) →
          Returns (fragment sha conData remaining w.stored)) := by
  have place : w.hb + (hashBlockEntries - (remaining + 1)) * hashEntrySize = p.entryAt index := by
    rw [here.hb, Place.entryAt, ← rounds, Nat.add_sub_cancel]
  rw [fragment, place, here.currOffset, returns_read_bind_iff]
  apply and_congr_right
  intro entryInside
  by_cases unused : checkZeros (slice conData (p.entryAt index) hashEntrySize) = true
  · rw [if_pos unused]
    refine iff_of_true (returns_ok _) ⟨?_, ?_⟩
    · intro used
      rw [EntryUsed, unused] at used
      cases used
    · intro found
      rw [found.used] at unused
      cases unused
  · have used : EntryUsed conData p index := Bool.eq_false_iff.mpr unused
    rw [if_neg unused, returns_hash_bind_iff, forall_prop_of_true used]
    apply and_congr_right
    intro blockInside
    by_cases same : (sha (slice conData (p.blockAt index) 0x1000)).bytes =
        (slice conData (p.entryAt index) hashEntrySize).take XECRYPT_SHA_DIGEST_SIZE
    · have room := (at_place_stored int here blockInside).1
      have found : EntryMatches sha conData (p.entryAt index) (p.blockAt index) :=
        ⟨entryInside, used, blockInside, same⟩
      rw [if_pos same, returns_store_bind_iff room, forall_prop_of_true found, Walk.stored,
        here.currOffset]
    · rw [if_neg same]
      exact iff_of_true (returns_ok none) fun found => absurd found.digest same

theorem fragment_returns_iff (int : conData.length < 0x80000000)
    (here : AtPlace conData p group index w) (rounds : index + remaining = hashBlockEntries) :
    Returns (fragment sha conData remaining w) ↔
      ∀ later, index ≤ later → later < hashBlockEntries →
        (∀ earlier, index ≤ earlier → earlier < later →
          EntryMatches sha conData (p.entryAt earlier) (p.blockAt earlier)) →
        p.entryAt later + hashEntrySize ≤ conData.length ∧
          (EntryUsed conData p later → p.blockAt later + 0x1000 ≤ conData.length) := by
  induction remaining generalizing index w with
  | zero =>
      rw [fragment]
      exact iff_of_true (returns_ok _) fun later after before => by omega
  | succ remaining ih =>
      rw [round_returns_iff int here rounds]
      constructor
      · intro round later after before found
        rcases round with ⟨entryInside, blockInside, rest⟩
        rcases Nat.eq_or_lt_of_le after with rfl | behind
        · exact ⟨entryInside, blockInside⟩
        · have first := found index (Nat.le_refl index) behind
          have stored := (at_place_stored int here first.blockInside).2
          apply (ih stored (by omega)).mp (rest first) later behind before
          intro earlier from_next sooner
          exact found earlier (by omega) sooner
      · intro inside
        have first := inside index (Nat.le_refl index) (by omega) fun earlier from_here before => by
          omega
        refine ⟨first.1, first.2, ?_⟩
        intro found
        have stored := (at_place_stored int here found.blockInside).2
        apply (ih stored (by omega)).mpr
        intro later after before matched
        apply inside later (by omega) before
        intro earlier from_here sooner
        rcases Nat.eq_or_lt_of_le from_here with rfl | behind
        · exact found
        · exact matched earlier behind sooner

theorem table_returns_iff (int : conData.length < 0x80000000)
    (here : AtPlace conData p group 0 w) :
    Returns (fragment sha conData hashBlockEntries w) ↔ FragmentInside sha conData p := by
  rw [fragment_returns_iff int here (Nat.zero_add _)]
  constructor
  · intro inside
    constructor
    · intro index before found
      exact (inside index (Nat.zero_le _) before fun earlier _ sooner => found earlier sooner).1
    · intro index before found
      exact (inside index (Nat.zero_le _) before fun earlier _ sooner => found earlier sooner).2
  · intro inside index _ before found
    have matched : MatchesBefore sha conData p index := fun earlier sooner =>
      found earlier (Nat.zero_le _) sooner
    exact ⟨inside.entry index before matched, inside.block index before matched⟩

end Fragment

/-! ## Where a table ends -/

/-- The loop over the table goes on behind all of its blocks, or stops at an unused
entry. -/
structure StopsBehind (sha : Sha) (conData : Bytes) (p : Place) (stored : Nat)
    (contProcess : Bool) : Prop where
  bound : stored ≤ hashBlockEntries
  blocks : MatchesBefore sha conData p stored
  full : contProcess = true → stored = hashBlockEntries
  ended : contProcess = false → stored < hashBlockEntries ∧
    EntryUnused conData (p.entryAt stored)

section Stops

variable {sha : Sha} {conData : Bytes} {p : Place} {group count : Nat} {w w' : Walk}
variable {contProcess : Bool}

theorem run_entry_at (here : AtPlace conData p group 0 w) (index : Nat) :
    w.hb + (hashBlockEntries - hashBlockEntries + index) * hashEntrySize = p.entryAt index := by
  rw [here.hb, Place.entryAt, Nat.sub_self, Nat.zero_add]

theorem iterate_at_place (int : conData.length < 0x80000000) (here : AtPlace conData p group 0 w)
    (blocks : MatchesBefore sha conData p count) :
    AtPlace conData p group count (Walk.stored^[count] w) := by
  induction count with
  | zero => exact here
  | succ count ih =>
      have before := ih fun earlier sooner => blocks earlier (Nat.lt_succ_of_lt sooner)
      rw [Function.iterate_succ_apply']
      exact (at_place_stored int before (blocks count (Nat.lt_succ_self count)).blockInside).2

theorem run_blocks (int : conData.length < 0x80000000) (here : AtPlace conData p group 0 w)
    (run : FragmentRun sha conData hashBlockEntries w count contProcess) :
    ∀ index ≤ count, MatchesBefore sha conData p index := by
  intro index
  induction index with
  | zero =>
      intro _ earlier before
      exact absurd before (Nat.not_lt_zero earlier)
  | succ index ih =>
      intro inRun earlier before
      have blocks := ih (by omega)
      rcases Nat.eq_or_lt_of_le (Nat.le_of_lt_succ before) with rfl | sooner
      · have entry := run.entries earlier (by omega)
        rwa [run_entry_at here, (iterate_at_place int here blocks).currOffset] at entry
      · exact blocks earlier sooner

theorem table_ok_iff (int : conData.length < 0x80000000) (here : AtPlace conData p group 0 w) :
    fragment sha conData hashBlockEntries w = .ok (some (contProcess, w')) ↔
      ∃ stored, StopsBehind sha conData p stored contProcess ∧ Walk.stored^[stored] w = w' := by
  rw [fragment_ok_iff (Nat.le_refl _)]
  constructor
  · intro loop
    rcases loop with ⟨count, run, result⟩
    refine ⟨count, ⟨run.bound, run_blocks int here run count (Nat.le_refl _), run.full, ?_⟩, result⟩
    intro ended
    have unused := run.ended ended
    rwa [run_entry_at here] at unused
  · intro stops
    rcases stops with ⟨stored, stops, result⟩
    refine ⟨stored, ?_, result⟩
    constructor
    · exact stops.bound
    · intro i before
      have before_block : MatchesBefore sha conData p i := fun earlier sooner =>
        stops.blocks earlier (Nat.lt_trans sooner before)
      have inside := (stops.blocks i before).blockInside
      have room := (at_place_stored int (iterate_at_place int here before_block) inside).1
      rw [(stored_iterate_block i w).1, (stored_iterate_block i w).2] at room
      exact room
    · intro i before
      have before_block : MatchesBefore sha conData p i := fun earlier sooner =>
        stops.blocks earlier (Nat.lt_trans sooner before)
      rw [run_entry_at here, (iterate_at_place int here before_block).currOffset]
      exact stops.blocks i before
    · exact stops.full
    · intro ended
      rw [run_entry_at here]
      exact stops.ended ended

end Stops

/-! ## The next table -/

/-- A master table has the digest in the header, and that of the first table. -/
def MasterMatches (sha : Sha) (conData : Bytes) (start : Nat) (p : Place) (stored : Nat) : Prop :=
  checkZeros (slice conData (p.blockAt stored + levelOffset) 4) = true →
    (sha (slice conData (p.blockAt stored) 0x1000)).bytes =
        slice conData rootHashOffset XECRYPT_SHA_DIGEST_SIZE ∧
      (sha (slice conData start 0x1000)).bytes =
        slice conData (p.blockAt stored) XECRYPT_SHA_DIGEST_SIZE

def NextEntryInside (conData : Bytes) (p : Place) (stored j : Nat) : Prop :=
  ∀ mhb, (p.next conData stored).mhb = some mhb →
    mhb + j * hashEntrySize + XECRYPT_SHA_DIGEST_SIZE ≤ conData.length

def NextMatches (sha : Sha) (conData : Bytes) (p : Place) (stored j : Nat) : Prop :=
  ∀ mhb, (p.next conData stored).mhb = some mhb →
    (sha (slice conData (p.next conData stored).hb 0x1000)).bytes =
      slice conData (mhb + j * hashEntrySize) XECRYPT_SHA_DIGEST_SIZE

structure AtTable (conData : Bytes) (p : Place) (group : Nat) (w : Walk) : Prop where
  hb : w.hb = p.hb
  mhb : w.mhb = p.mhb
  j : w.j = group
  currOffset : w.currOffset = p.hb
  inside : p.hb + 0x1000 ≤ conData.length
  size : w.blockInfo.length = conData.length / 0x1000 + 1
  room : (w.currBlock + 1) * 0x1000 ≤ w.currOffset

def masterSearch (sha : Sha) (conData : Bytes) (start : Nat) (w : Walk) :
    Except Fault (Option Walk) :=
  if checkZeros (slice conData (w.currOffset + levelOffset) 4) = true then
    masterTable sha conData start w.behind
  else .ok (some w.behind)

section NextTable

variable {sha : Sha} {conData : Bytes} {p : Place} {group stored start : Nat} {w w' v : Walk}

theorem backed_returns_iff (there : AtTable conData p group w) :
    Returns (backedTable sha conData w) ↔ ∀ mhb, p.mhb = some mhb →
      mhb + group * hashEntrySize + XECRYPT_SHA_DIGEST_SIZE ≤ conData.length := by
  rw [backedTable, there.mhb]
  cases p.mhb with
  | none => exact iff_of_true (returns_ok _) nofun
  | some mhb =>
      dsimp only
      rw [returns_hash_bind_iff, returns_read_bind_iff, there.currOffset, there.j,
        and_iff_right there.inside]
      constructor
      · intro both other same
        cases same
        exact both.1
      · intro inside
        refine ⟨inside mhb rfl, ?_⟩
        split_ifs
        · exact returns_ok _
        · exact returns_ok _

theorem backed_at_place (int : conData.length < 0x80000000) (there : AtTable conData p group w)
    (run : backedTable sha conData w = .ok (some w')) : AtPlace conData p group 0 w' := by
  have inside := there.inside
  have room := there.room
  have same : { w with currOffset := u32 (w.currOffset + 0x1000) } = w' := by
    rcases Option.eq_none_or_eq_some w.mhb with absent | ⟨mhb, backed⟩
    · rw [backedTable, absent] at run
      cases run
      rw [absent]
    · exact ((backed_table_ok_iff backed).mp run).2
  have offset : w'.currOffset = p.blockAt 0 := by
    rw [← same]
    change u32 (w.currOffset + 0x1000) = _
    rw [there.currOffset, u32_of_lt (by omega), Place.blockAt]
  rw [← same] at offset ⊢
  refine ⟨there.hb, there.mhb, there.j, offset, by omega, there.size, ?_⟩
  rw [offset, Place.blockAt, ← there.currOffset]
  exact Nat.le_add_right_of_le room

theorem backed_found_iff (there : AtTable conData p group w) :
    (∃ w', backedTable sha conData w = .ok (some w')) ↔ ∀ mhb, p.mhb = some mhb →
      mhb + group * hashEntrySize + XECRYPT_SHA_DIGEST_SIZE ≤ conData.length ∧
        (sha (slice conData p.hb 0x1000)).bytes =
          slice conData (mhb + group * hashEntrySize) XECRYPT_SHA_DIGEST_SIZE := by
  cases backed : p.mhb with
  | none =>
      have absent := there.mhb.trans backed
      rw [backedTable, absent]
      exact iff_of_true ⟨_, rfl⟩ nofun
  | some mhb =>
      have present := there.mhb.trans backed
      constructor
      · intro found other same
        cases same
        rcases found with ⟨w', run⟩
        have checks := ((backed_table_ok_iff present).mp run).1
        rw [there.currOffset, there.j] at checks
        exact checks.2
      · intro checks
        have inside := there.inside
        refine ⟨_, (backed_table_ok_iff present).mpr ⟨?_, rfl⟩⟩
        rw [there.currOffset, there.j]
        exact ⟨inside, checks mhb rfl⟩

section Search

variable (int : conData.length < 0x80000000) (here : AtPlace conData p group stored w)
variable (goesOn : p.blockAt stored + 0x2000 < conData.length)

include int here goesOn

theorem search_returns (first : start ≤ p.hb) : Returns (masterSearch sha conData start w) := by
  have inside : p.hb + 0x1000 ≤ p.blockAt stored := by
    rw [Place.blockAt]
    omega
  rw [masterSearch]
  split_ifs
  · have offset : w.behind.currOffset = p.blockAt stored := here.currOffset
    have table : w.behind.hb = p.blockAt stored := here.currOffset
    rw [masterTable, returns_hash_bind_iff, returns_read_bind_iff, offset]
    refine ⟨by omega, ?_, ?_⟩
    · rw [rootHashOffset, headerSize, XECRYPT_SHA_DIGEST_SIZE]
      omega
    · split_ifs
      · rw [returns_hash_bind_iff, returns_read_bind_iff, table, XECRYPT_SHA_DIGEST_SIZE]
        refine ⟨by omega, by omega, ?_⟩
        split_ifs
        · exact returns_ok _
        · exact returns_ok _
      · exact returns_ok _
  · exact returns_ok _

theorem search_found_iff (first : start ≤ p.hb) :
    (∃ v, masterSearch sha conData start w = .ok (some v)) ↔
      MasterMatches sha conData start p stored := by
  have inside : p.hb + 0x1000 ≤ p.blockAt stored := by
    rw [Place.blockAt]
    omega
  rw [masterSearch, here.currOffset, MasterMatches]
  by_cases marked : checkZeros (slice conData (p.blockAt stored + levelOffset) 4) = true
  · have offset : w.behind.currOffset = p.blockAt stored := here.currOffset
    have table : w.behind.hb = p.blockAt stored := here.currOffset
    rw [if_pos marked, forall_prop_of_true marked]
    simp only [master_table_ok_iff, offset, table]
    constructor
    · intro found
      rcases found with ⟨_, ⟨_, _, root⟩, ⟨_, _, firstTable⟩, _⟩
      exact ⟨root, firstTable⟩
    · intro both
      refine ⟨_, ⟨by omega, ?_, both.1⟩, ⟨by omega, ?_, both.2⟩, rfl⟩
      · rw [rootHashOffset, headerSize, XECRYPT_SHA_DIGEST_SIZE]
        omega
      · rw [XECRYPT_SHA_DIGEST_SIZE]
        omega
  · rw [if_neg marked]
    exact iff_of_true ⟨_, rfl⟩ fun holds => absurd holds marked

theorem search_at_table (found : masterSearch sha conData start w = .ok (some v)) :
    AtTable conData (p.next conData stored) (group + 1) v := by
  have room := here.room
  have next : u32 (w.currOffset + 0x1000) = p.blockAt stored + 0x1000 := by
    rw [here.currOffset, u32_of_lt (by omega)]
  rw [masterSearch, here.currOffset] at found
  rw [Place.next]
  split_ifs at found ⊢ with marked
  · have same := (master_table_ok_iff.mp found).2.2
    rw [← same]
    refine ⟨next, ?_, ?_, next, ?_, here.size, ?_⟩
    · exact congrArg some here.currOffset
    · exact congrArg (· + 1) here.j
    · dsimp only
      omega
    · change (w.currBlock + 1) * 0x1000 ≤ u32 (w.currOffset + 0x1000)
      rw [next, ← here.currOffset]
      exact Nat.le_add_right_of_le room
  · cases found
    refine ⟨here.currOffset, here.mhb, congrArg (· + 1) here.j, here.currOffset, ?_, here.size,
      room⟩
    dsimp only
    omega

end Search

theorem next_table_returns_iff (int : conData.length < 0x80000000)
    (here : AtPlace conData p group stored w)
    (goesOn : p.blockAt stored + 0x2000 < conData.length) (first : start ≤ p.hb) :
    Returns (nextTable sha conData start w) ↔
      (MasterMatches sha conData start p stored →
        NextEntryInside conData p stored (group + 1)) := by
  have offset := here.currOffset
  have level : w.currOffset + levelOffset + 4 ≤ conData.length := by
    rw [levelOffset]
    omega
  rw [← search_found_iff int here goesOn first, nextTable, returns_read_bind_iff,
    and_iff_right level]
  change Returns (masterSearch sha conData start w >>= _) ↔ _
  rw [returns_bind_iff, and_iff_right (search_returns int here goesOn first)]
  constructor
  · intro each found
    rcases found with ⟨v, search⟩
    exact (backed_returns_iff (search_at_table int here goesOn search)).mp (each (some v) search)
  · intro entry found search
    cases found with
    | none => exact returns_ok _
    | some v =>
        have inside := entry ⟨v, search⟩
        exact (backed_returns_iff (search_at_table int here goesOn search)).mpr inside

theorem next_table_found_iff (int : conData.length < 0x80000000)
    (here : AtPlace conData p group stored w)
    (goesOn : p.blockAt stored + 0x2000 < conData.length) (first : start ≤ p.hb) :
    (∃ w', nextTable sha conData start w = .ok (some w')) ↔
      MasterMatches sha conData start p stored ∧ NextEntryInside conData p stored (group + 1) ∧
        NextMatches sha conData p stored (group + 1) := by
  have offset := here.currOffset
  have level : w.currOffset + levelOffset + 4 ≤ conData.length := by
    rw [levelOffset]
    omega
  simp only [next_table_ok_iff, and_iff_right level]
  change (∃ w' v, masterSearch sha conData start w = .ok (some v) ∧ _) ↔ _
  rw [← search_found_iff int here goesOn first]
  constructor
  · intro found
    rcases found with ⟨w', v, search, backed⟩
    have checks := (backed_found_iff (search_at_table int here goesOn search)).mp ⟨w', backed⟩
    exact ⟨⟨v, search⟩, fun mhb same => (checks mhb same).1, fun mhb same => (checks mhb same).2⟩
  · intro checks
    rcases checks with ⟨⟨v, search⟩, inside, digest⟩
    rcases (backed_found_iff (search_at_table int here goesOn search)).mpr
      fun mhb same => ⟨inside mhb same, digest mhb same⟩ with ⟨w', backed⟩
    exact ⟨w', v, search, backed⟩

theorem next_table_at_place (int : conData.length < 0x80000000)
    (here : AtPlace conData p group stored w)
    (goesOn : p.blockAt stored + 0x2000 < conData.length)
    (run : nextTable sha conData start w = .ok (some w')) :
    AtPlace conData (p.next conData stored) (group + 1) 0 w' := by
  rcases (next_table_ok_iff.mp run).2 with ⟨v, search, backed⟩
  exact backed_at_place int (search_at_table int here goesOn search) backed

end NextTable

/-! ## A pass -/

structure GroupInside (sha : Sha) (conData : Bytes) (start : Nat) (p : Place) (group : Nat) :
    Prop where
  fragment : FragmentInside sha conData p
  master : ∀ stored contProcess, StopsBehind sha conData p stored contProcess →
    p.blockAt stored + 0x2000 < conData.length → MasterMatches sha conData start p stored →
      NextEntryInside conData p stored (group + 1)

/-- Everything of the group matches, and another table is behind it. -/
structure GroupPasses (sha : Sha) (conData : Bytes) (start : Nat) (p : Place) (group : Nat) :
    Prop where
  blocks : MatchesBefore sha conData p hashBlockEntries
  goesOn : p.blockAt hashBlockEntries + 0x2000 < conData.length
  master : MasterMatches sha conData start p hashBlockEntries
  entry : NextEntryInside conData p hashBlockEntries (group + 1)
  next : NextMatches sha conData p hashBlockEntries (group + 1)

section Pass

variable {sha : Sha} {conData : Bytes} {p : Place} {group start : Nat} {w w' : Walk}

theorem end_test_iff (int : conData.length < 0x80000000) {stored : Nat}
    (here : AtPlace conData p group stored w) (bound : stored ≤ hashBlockEntries) :
    u32 (w.currOffset + 0x2000) ≥ conData.length ↔
      ¬ p.blockAt stored + 0x2000 < conData.length := by
  have inFile := here.inFile
  have offset : p.blockAt stored ≤ p.hb + 0xAB000 := by
    rw [hashBlockEntries] at bound
    rw [Place.blockAt]
    omega
  rw [here.currOffset, u32_of_lt (by omega)]
  exact Nat.not_lt.symm

theorem pass_returns_iff (int : conData.length < 0x80000000)
    (here : AtPlace conData p group 0 w) (first : start ≤ p.hb) :
    Returns (walkPass sha conData start conData.length w) ↔
      GroupInside sha conData start p group := by
  rw [walkPass, returns_bind_iff, table_returns_iff int here]
  constructor
  · intro steps
    refine ⟨steps.1, ?_⟩
    intro stored contProcess stops goesOn master
    have there := iterate_at_place int here stops.blocks
    have rest := steps.2 _ ((table_ok_iff int here).mpr ⟨stored, stops, rfl⟩)
    dsimp only at rest
    have before : ¬ u32 ((Walk.stored^[stored] w).currOffset + 0x2000) ≥ conData.length := by
      rw [end_test_iff int there stops.bound, not_not]
      exact goesOn
    rw [if_neg before, returns_bind_iff, next_table_returns_iff int there goesOn first] at rest
    exact rest.1 master
  · intro inside
    refine ⟨inside.fragment, ?_⟩
    intro result loop
    cases result with
    | none => exact returns_ok _
    | some result =>
        rcases result with ⟨contProcess, v⟩
        rcases (table_ok_iff int here).mp loop with ⟨stored, stops, rfl⟩
        have there := iterate_at_place int here stops.blocks
        dsimp only
        by_cases ended : u32 ((Walk.stored^[stored] w).currOffset + 0x2000) ≥ conData.length
        · rw [if_pos ended]
          exact returns_ok _
        · rw [if_neg ended]
          rw [end_test_iff int there stops.bound, not_not] at ended
          rw [returns_bind_iff, next_table_returns_iff int there ended first]
          refine ⟨inside.master stored contProcess stops ended, ?_⟩
          intro found _
          cases found with
          | none => exact returns_ok _
          | some after =>
              dsimp only
              split_ifs
              · exact returns_ok _
              · exact returns_ok _

/-- What a pass has compared when the loop goes on, and where it is then. -/
theorem pass_next (int : conData.length < 0x80000000) (here : AtPlace conData p group 0 w)
    (first : start ≤ p.hb)
    (pass : walkPass sha conData start conData.length w = .ok (.next w')) :
    GroupPasses sha conData start p group ∧
      AtPlace conData (p.next conData hashBlockEntries) (group + 1) 0 w' := by
  rcases bind_ok_iff.mp pass with ⟨result, loop, rest⟩
  cases result with
  | none => cases rest
  | some result =>
      rcases result with ⟨contProcess, v⟩
      rcases (table_ok_iff int here).mp loop with ⟨stored, stops, rfl⟩
      have there := iterate_at_place int here stops.blocks
      dsimp only at rest
      by_cases ended : u32 ((Walk.stored^[stored] w).currOffset + 0x2000) ≥ conData.length
      · rw [if_pos ended] at rest
        cases rest
      · rw [if_neg ended] at rest
        rw [end_test_iff int there stops.bound, not_not] at ended
        rcases bind_ok_iff.mp rest with ⟨found, table, last⟩
        cases found with
        | none => cases last
        | some after =>
            dsimp only at last
            cases contProcess with
            | false => cases last
            | true =>
                cases last
                have whole := stops.full rfl
                subst whole
                have checks := (next_table_found_iff int there ended first).mp ⟨w', table⟩
                exact ⟨⟨stops.blocks, ended, checks.1, checks.2.1, checks.2.2⟩,
                  next_table_at_place int there ended table⟩

theorem passes_next (int : conData.length < 0x80000000) (here : AtPlace conData p group 0 w)
    (first : start ≤ p.hb) (passes : GroupPasses sha conData start p group) :
    ∃ w', walkPass sha conData start conData.length w = .ok (.next w') := by
  have stops : StopsBehind sha conData p hashBlockEntries true :=
    ⟨Nat.le_refl _, passes.blocks, fun _ => rfl, nofun⟩
  have there := iterate_at_place int here passes.blocks
  have ended : ¬ u32 ((Walk.stored^[hashBlockEntries] w).currOffset + 0x2000) ≥
      conData.length := by
    rw [end_test_iff int there (Nat.le_refl _), not_not]
    exact passes.goesOn
  rcases (next_table_found_iff int there passes.goesOn first).mpr
    ⟨passes.master, passes.entry, passes.next⟩ with ⟨w', table⟩
  refine ⟨w', ?_⟩
  rw [walkPass, (table_ok_iff int here).mpr ⟨_, stops, rfl⟩, ok_bind]
  dsimp only
  rw [if_neg ended, table]
  rfl

end Pass

end XeBuild.SuCheck
