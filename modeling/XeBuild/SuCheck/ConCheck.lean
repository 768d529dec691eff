import XeBuild.Bytes
import XeBuild.Lib.Runs

/-!
# The container check of `su_check`

A transcription of `conCheckHashes` and `conCheckHeader`. The container is the
buffer that `readFileToBuf` filled; a pointer into it is an offset. A read that
leaves the buffer and a store that leaves `blockInfo` have no defined outcome in
the source and are faults here. Offsets are 32-bit words and wrap as the source
lets them.
-/

namespace XeBuild.SuCheck

open ListRange Runs

set_option autoImplicit false

/-! ## Memory -/

inductive Fault
  | read (offset size : Nat)
  | store (index : Nat)
  deriving DecidableEq, Repr

def readAt (conData : Bytes) (offset size : Nat) : Except Fault Bytes :=
  if offset + size ≤ conData.length then .ok (slice conData offset size)
  else .error (.read offset size)

/-- `blockInfo[index] = value`; a word that was never stored is `none`. -/
def storeAt (blockInfo : List (Option Nat)) (index value : Nat) :
    Except Fault (List (Option Nat)) :=
  if index < blockInfo.length then .ok (blockInfo.set index (some value))
  else .error (.store index)

def hashAt (sha : Sha) (conData : Bytes) (offset size : Nat) : Except Fault Bytes := do
  let bytes ← readAt conData offset size
  return (sha bytes).bytes

def checkZeros (buf : Bytes) : Bool := buf.all (· == 0)

/-! ## Layout of the structures -/

def headerSize : Nat := 0x344
def contentIdOffset : Nat := 0x32C
def sizeOfHeadersOffset : Nat := 0x340
def versionOffset : Nat := headerSize + 0x10 + 0x4
def rootHashOffset : Nat := headerSize + 0x35 + 0x8
def newVersionOffset : Nat := 0x971A + 0x4 + 0x4
def hashBlockSize : Nat := 0x1000
def hashBlockEntries : Nat := 0xAA
def hashEntrySize : Nat := 0x18
/-- `Entries[0].LevelAsULONG`. -/
def levelOffset : Nat := 0x14

/-! ## `conCheckHashes` -/

/-- The locals of the walk. `hb` and `mhb` are the offsets they point to. -/
structure Walk where
  currBlock : Nat
  currOffset : Nat
  j : Nat
  hb : Nat
  mhb : Option Nat
  blockInfo : List (Option Nat)

/-- The `for` loop over the entries of one table, with `remaining` rounds left.
`none` is `return FALSE`; the flag is `contProcess`. -/
def fragment (sha : Sha) (conData : Bytes) :
    Nat → Walk → Except Fault (Option (Bool × Walk))
  | 0, w => .ok (some (true, w))
  | remaining + 1, w => do
      let i := hashBlockEntries - (remaining + 1)
      let entry ← readAt conData (w.hb + i * hashEntrySize) hashEntrySize
      if checkZeros entry then
        return some (false, w)
      else
        let hashout ← hashAt sha conData w.currOffset 0x1000
        if hashout = entry.take XECRYPT_SHA_DIGEST_SIZE then
          let blockInfo ← storeAt w.blockInfo w.currBlock w.currOffset
          fragment sha conData remaining { w with
            blockInfo := blockInfo
            currBlock := w.currBlock + 1
            currOffset := u32 (w.currOffset + 0x1000) }
        else
          return none

/-- `mhb = hb` for a table whose first level word is zero: `RootHash` backs it,
and it backs the first table. -/
def masterTable (sha : Sha) (conData : Bytes) (conDataStart : Nat) (w : Walk) :
    Except Fault (Option Walk) := do
  let hashout ← hashAt sha conData w.currOffset 0x1000
  let rootHash ← readAt conData rootHashOffset XECRYPT_SHA_DIGEST_SIZE
  if rootHash = hashout then
    let hashout ← hashAt sha conData conDataStart 0x1000
    let first ← readAt conData w.hb XECRYPT_SHA_DIGEST_SIZE
    if hashout = first then
      return some { w with
        mhb := some w.hb
        currOffset := u32 (w.currOffset + 0x1000)
        hb := u32 (w.currOffset + 0x1000) }
    else
      return none
  else
    return none

/-- `if(mhb != NULL)`: the table at `currOffset` against its master entry. -/
def backedTable (sha : Sha) (conData : Bytes) (w : Walk) : Except Fault (Option Walk) :=
  match w.mhb with
  | none => .ok (some { w with currOffset := u32 (w.currOffset + 0x1000) })
  | some mhb => do
      let hashout ← hashAt sha conData w.currOffset 0x1000
      let entry ← readAt conData (mhb + w.j * hashEntrySize) XECRYPT_SHA_DIGEST_SIZE
      if hashout = entry then
        return some { w with currOffset := u32 (w.currOffset + 0x1000) }
      else
        return none

/-- The `else` branch behind the end test: the table in front of the next
fragment, and in front of it the master table when it is there. -/
def nextTable (sha : Sha) (conData : Bytes) (conDataStart : Nat) (w : Walk) :
    Except Fault (Option Walk) := do
  let w := { w with hb := w.currOffset, j := w.j + 1 }
  let level ← readAt conData (w.hb + levelOffset) 4
  let found ← (if checkZeros level then masterTable sha conData conDataStart w else .ok (some w))
  match found with
  | none => return none
  | some w => backedTable sha conData w

inductive Step
  | rejected
  | finished (w : Walk)
  | next (w : Walk)

def walkPass (sha : Sha) (conData : Bytes) (conDataStart conDataLen : Nat) (w : Walk) :
    Except Fault Step := do
  match ← fragment sha conData hashBlockEntries w with
  | none => return .rejected
  | some (contProcess, w) =>
      if u32 (w.currOffset + 0x2000) ≥ conDataLen then
        return .finished w
      else
        match ← nextTable sha conData conDataStart w with
        | none => return .rejected
        | some w => return if contProcess then .next w else .finished w

/-! ## What a fragment has stored

The loop ends because every pass that goes on has stored a whole fragment of
offsets in `blockInfo`. -/

theorem read_at_ok_iff {conData bytes : Bytes} {offset size : Nat} :
    readAt conData offset size = .ok bytes ↔
      offset + size ≤ conData.length ∧ slice conData offset size = bytes := by
  unfold readAt
  split <;> simp_all

theorem hash_at_ok_iff {sha : Sha} {conData hashout : Bytes} {offset size : Nat} :
    hashAt sha conData offset size = .ok hashout ↔
      offset + size ≤ conData.length ∧ (sha (slice conData offset size)).bytes = hashout := by
  unfold hashAt
  simp only [bind_ok_iff, read_at_ok_iff, pure, Except.pure, Except.ok.injEq]
  constructor
  · intro hashed
    rcases hashed with ⟨bytes, ⟨bound, rfl⟩, same⟩
    exact ⟨bound, same⟩
  · intro hashed
    rcases hashed with ⟨bound, same⟩
    exact ⟨_, ⟨bound, rfl⟩, same⟩

theorem store_at_ok_iff {blockInfo stored : List (Option Nat)} {index value : Nat} :
    storeAt blockInfo index value = .ok stored ↔
      index < blockInfo.length ∧ blockInfo.set index (some value) = stored := by
  unfold storeAt
  split <;> simp_all

def Walk.stored (w : Walk) : Walk :=
  { w with
    blockInfo := w.blockInfo.set w.currBlock (some w.currOffset)
    currBlock := w.currBlock + 1
    currOffset := u32 (w.currOffset + 0x1000) }

/-- The entry at `entryOffset` is used and holds the digest of the block at `offset`. -/
structure EntryMatches (sha : Sha) (conData : Bytes) (entryOffset offset : Nat) : Prop where
  entryInside : entryOffset + hashEntrySize ≤ conData.length
  used : checkZeros (slice conData entryOffset hashEntrySize) = false
  blockInside : offset + 0x1000 ≤ conData.length
  digest : (sha (slice conData offset 0x1000)).bytes =
    (slice conData entryOffset hashEntrySize).take XECRYPT_SHA_DIGEST_SIZE

def EntryUnused (conData : Bytes) (entryOffset : Nat) : Prop :=
  entryOffset + hashEntrySize ≤ conData.length ∧
    checkZeros (slice conData entryOffset hashEntrySize) = true

/-- A fragment loop with `remaining` rounds left that stores `count` blocks. -/
structure FragmentRun (sha : Sha) (conData : Bytes) (remaining : Nat) (w : Walk) (count : Nat)
    (contProcess : Bool) : Prop where
  bound : count ≤ remaining
  room : ∀ i < count, w.currBlock + i < w.blockInfo.length
  entries : ∀ i < count, EntryMatches sha conData
    (w.hb + (hashBlockEntries - remaining + i) * hashEntrySize) ((Walk.stored^[i] w).currOffset)
  full : contProcess = true → count = remaining
  ended : contProcess = false → count < remaining ∧
    EntryUnused conData (w.hb + (hashBlockEntries - remaining + count) * hashEntrySize)

section Fragment

variable {sha : Sha} {conData : Bytes} {remaining count : Nat} {w w' : Walk} {contProcess : Bool}

theorem fragment_run_zero : FragmentRun sha conData 0 w count contProcess ↔
    count = 0 ∧ contProcess = true := by
  constructor
  · intro run
    have none : count = 0 := Nat.le_zero.mp run.bound
    cases contProcess with
    | false => exact absurd (run.ended rfl).1 (Nat.not_lt_zero _)
    | true => exact ⟨none, rfl⟩
  · intro ended
    rcases ended with ⟨rfl, rfl⟩
    exact ⟨Nat.le_refl _, fun i before => absurd before (Nat.not_lt_zero i),
      fun i before => absurd before (Nat.not_lt_zero i), fun _ => rfl, nofun⟩

theorem fragment_run_unused :
    FragmentRun sha conData (remaining + 1) w 0 contProcess ↔
      contProcess = false ∧ EntryUnused conData
        (w.hb + (hashBlockEntries - (remaining + 1)) * hashEntrySize) := by
  constructor
  · intro run
    cases contProcess with
    | true => exact absurd (run.full rfl) (Nat.succ_ne_zero _).symm
    | false => exact ⟨rfl, (run.ended rfl).2⟩
  · intro ended
    rcases ended with ⟨rfl, unused⟩
    refine ⟨Nat.zero_le _, fun i before => absurd before (Nat.not_lt_zero i),
      fun i before => absurd before (Nat.not_lt_zero i), ?_, fun _ => ⟨Nat.succ_pos _, unused⟩⟩
    intro full
    cases full

theorem fragment_run_succ (small : remaining + 1 ≤ hashBlockEntries) :
    FragmentRun sha conData (remaining + 1) w (count + 1) contProcess ↔
      EntryMatches sha conData
          (w.hb + (hashBlockEntries - (remaining + 1)) * hashEntrySize) w.currOffset ∧
        w.currBlock < w.blockInfo.length ∧
        FragmentRun sha conData remaining w.stored count contProcess := by
  have shift : ∀ i, hashBlockEntries - (remaining + 1) + (i + 1) =
      hashBlockEntries - remaining + i := by
    intro i
    omega
  have size : w.stored.blockInfo.length = w.blockInfo.length := List.length_set
  constructor
  · intro run
    refine ⟨run.entries 0 (Nat.succ_pos _), run.room 0 (Nat.succ_pos _), ?_⟩
    constructor
    · exact Nat.le_of_succ_le_succ run.bound
    · intro i before
      have room := run.room (i + 1) (Nat.succ_lt_succ before)
      change w.currBlock + 1 + i < _
      omega
    · intro i before
      have entry := run.entries (i + 1) (Nat.succ_lt_succ before)
      rwa [shift] at entry
    · intro full
      exact Nat.succ.inj (run.full full)
    · intro ended
      obtain ⟨more, unused⟩ := run.ended ended
      rw [shift] at unused
      exact ⟨Nat.lt_of_succ_lt_succ more, unused⟩
  · intro round
    rcases round with ⟨entry, room, run⟩
    constructor
    · exact Nat.succ_le_succ run.bound
    · intro i before
      cases i with
      | zero => exact room
      | succ i =>
          have later := run.room i (Nat.lt_of_succ_lt_succ before)
          change w.currBlock + 1 + i < _ at later
          omega
    · intro i before
      cases i with
      | zero => exact entry
      | succ i =>
          rw [shift]
          exact run.entries i (Nat.lt_of_succ_lt_succ before)
    · intro full
      rw [run.full full]
    · intro ended
      obtain ⟨more, unused⟩ := run.ended ended
      rw [shift]
      exact ⟨Nat.succ_lt_succ more, unused⟩

/-- One round of the loop that is not rejected: it meets an unused entry, or it
stores a block that matches its entry and goes on. -/
theorem fragment_round_ok_iff :
    fragment sha conData (remaining + 1) w = .ok (some (contProcess, w')) ↔
      (contProcess = false ∧ EntryUnused conData
          (w.hb + (hashBlockEntries - (remaining + 1)) * hashEntrySize) ∧ w = w') ∨
        EntryMatches sha conData
            (w.hb + (hashBlockEntries - (remaining + 1)) * hashEntrySize) w.currOffset ∧
          w.currBlock < w.blockInfo.length ∧
          fragment sha conData remaining w.stored = .ok (some (contProcess, w')) := by
  simp only [fragment, bind_ok_iff, read_at_ok_iff]
  constructor
  · intro round
    rcases round with ⟨entry, ⟨inside, rfl⟩, run⟩
    split at run
    · next zeros =>
        simp only [pure, Except.pure, Except.ok.injEq, Option.some.injEq, Prod.mk.injEq] at run
        exact Or.inl ⟨run.1.symm, ⟨inside, zeros⟩, run.2⟩
    · next used =>
        simp only [bind_ok_iff, hash_at_ok_iff] at run
        obtain ⟨hashout, ⟨blockInside, rfl⟩, run⟩ := run
        split at run
        · next digest =>
            simp only [bind_ok_iff, store_at_ok_iff] at run
            obtain ⟨blockInfo, ⟨room, rfl⟩, rest⟩ := run
            exact Or.inr ⟨⟨inside, by simpa using used, blockInside, digest⟩, room, rest⟩
        · cases run
  · intro round
    rcases round with ⟨rfl, ⟨inside, zeros⟩, rfl⟩ | ⟨entry, room, rest⟩
    · refine ⟨_, ⟨inside, rfl⟩, ?_⟩
      rw [if_pos zeros]
      rfl
    · have used : ¬ checkZeros (slice conData (w.hb +
          (hashBlockEntries - (remaining + 1)) * hashEntrySize) hashEntrySize) = true := by
        rw [entry.used]
        exact Bool.false_ne_true
      refine ⟨_, ⟨entry.entryInside, rfl⟩, ?_⟩
      rw [if_neg used, bind_ok_iff]
      refine ⟨_, hash_at_ok_iff.mpr ⟨entry.blockInside, rfl⟩, ?_⟩
      rw [if_pos entry.digest, bind_ok_iff]
      exact ⟨_, store_at_ok_iff.mpr ⟨room, rfl⟩, rest⟩

/-- The loop over one table, in both directions: a run that is not rejected, and
the blocks and entries that make it so. -/
theorem fragment_ok_iff (small : remaining ≤ hashBlockEntries) :
    fragment sha conData remaining w = .ok (some (contProcess, w')) ↔
      ∃ count, FragmentRun sha conData remaining w count contProcess ∧
        Walk.stored^[count] w = w' := by
  induction remaining generalizing w with
  | zero =>
      simp only [fragment, fragment_run_zero, Except.ok.injEq, Option.some.injEq, Prod.mk.injEq]
      constructor
      · intro ended
        rcases ended with ⟨rfl, rfl⟩
        exact ⟨0, ⟨rfl, rfl⟩, rfl⟩
      · intro whole
        rcases whole with ⟨count, ⟨rfl, rfl⟩, rfl⟩
        exact ⟨rfl, rfl⟩
  | succ remaining ih =>
      rw [fragment_round_ok_iff]
      constructor
      · intro round
        rcases round with ⟨ended, unused, same⟩ | ⟨entry, room, rest⟩
        · exact ⟨0, fragment_run_unused.mpr ⟨ended, unused⟩, same⟩
        · obtain ⟨count, tail, result⟩ := (ih (Nat.le_of_succ_le small)).mp rest
          exact ⟨count + 1, (fragment_run_succ small).mpr ⟨entry, room, tail⟩, result⟩
      · intro whole
        rcases whole with ⟨count, run, result⟩
        cases count with
        | zero =>
            obtain ⟨ended, unused⟩ := fragment_run_unused.mp run
            exact Or.inl ⟨ended, unused, result⟩
        | succ count =>
            obtain ⟨entry, room, tail⟩ := (fragment_run_succ small).mp run
            have rest := (ih (Nat.le_of_succ_le small)).mpr ⟨count, tail, result⟩
            exact Or.inr ⟨entry, room, rest⟩

theorem stored_iterate_block (count : Nat) (w : Walk) :
    (Walk.stored^[count] w).currBlock = w.currBlock + count ∧
      (Walk.stored^[count] w).blockInfo.length = w.blockInfo.length := by
  induction count generalizing w with
  | zero => exact ⟨rfl, rfl⟩
  | succ count ih =>
      rw [Function.iterate_succ_apply]
      obtain ⟨block, size⟩ := ih w.stored
      constructor
      · rw [block]
        change w.currBlock + 1 + count = _
        omega
      · rw [size]
        exact List.length_set

end Fragment

/-! ## The walk -/

section Decreases

variable {sha : Sha} {conData : Bytes} {conDataStart conDataLen : Nat} {w w' : Walk}

theorem master_table_blocks (run : masterTable sha conData conDataStart w = .ok (some w')) :
    w'.currBlock = w.currBlock ∧ w'.blockInfo = w.blockInfo := by
  unfold masterTable at run
  simp only [bind_ok_iff] at run
  obtain ⟨_, _, _, _, run⟩ := run
  split at run
  · simp only [bind_ok_iff] at run
    obtain ⟨_, _, _, _, run⟩ := run
    split at run
    · cases run
      exact ⟨rfl, rfl⟩
    · cases run
  · cases run

theorem backed_table_blocks (run : backedTable sha conData w = .ok (some w')) :
    w'.currBlock = w.currBlock ∧ w'.blockInfo = w.blockInfo := by
  unfold backedTable at run
  split at run
  · cases run
    exact ⟨rfl, rfl⟩
  · simp only [bind_ok_iff] at run
    obtain ⟨_, _, _, _, run⟩ := run
    split at run
    · cases run
      exact ⟨rfl, rfl⟩
    · cases run

theorem next_table_blocks (run : nextTable sha conData conDataStart w = .ok (some w')) :
    w'.currBlock = w.currBlock ∧ w'.blockInfo = w.blockInfo := by
  unfold nextTable at run
  simp only [bind_ok_iff] at run
  obtain ⟨level, _, found, search, run⟩ := run
  cases found with
  | none => cases run
  | some v =>
      have kept : v.currBlock = w.currBlock ∧ v.blockInfo = w.blockInfo := by
        split at search
        · obtain ⟨block, info⟩ := master_table_blocks search
          exact ⟨block, info⟩
        · cases search
          exact ⟨rfl, rfl⟩
      obtain ⟨block, info⟩ := backed_table_blocks run
      exact ⟨block.trans kept.1, info.trans kept.2⟩

theorem walk_pass_blocks (pass : walkPass sha conData conDataStart conDataLen w = .ok (.next w')) :
    w'.currBlock = w.currBlock + hashBlockEntries ∧ w'.blockInfo.length = w.blockInfo.length ∧
      w'.currBlock ≤ w'.blockInfo.length := by
  unfold walkPass at pass
  simp only [bind_ok_iff] at pass
  obtain ⟨result, loop, pass⟩ := pass
  cases result with
  | none => cases pass
  | some result =>
      obtain ⟨contProcess, v⟩ := result
      dsimp only at pass
      split at pass
      · cases pass
      · simp only [bind_ok_iff] at pass
        obtain ⟨found, table, pass⟩ := pass
        cases found with
        | none => cases pass
        | some after =>
            dsimp only at pass
            cases contProcess with
            | false => cases pass
            | true =>
                cases pass
                obtain ⟨count, run, rfl⟩ := (fragment_ok_iff (Nat.le_refl _)).mp loop
                obtain ⟨block, info⟩ := next_table_blocks table
                obtain ⟨stored, size⟩ := stored_iterate_block count w
                have whole := run.full rfl
                rw [whole] at stored size block info
                have last := run.room (hashBlockEntries - 1) (by rw [whole]; decide)
                rw [block, info, stored, size]
                refine ⟨rfl, rfl, ?_⟩
                rw [hashBlockEntries] at last ⊢
                omega

end Decreases

/-- `while(contProcess)`: `none` is `return FALSE`. -/
def walkLoop (sha : Sha) (conData : Bytes) (conDataStart conDataLen : Nat) (w : Walk) :
    Except Fault (Option Walk) :=
  match _pass : walkPass sha conData conDataStart conDataLen w with
  | .error fault => .error fault
  | .ok .rejected => .ok none
  | .ok (.finished w') => .ok (some w')
  | .ok (.next w') => walkLoop sha conData conDataStart conDataLen w'
termination_by w.blockInfo.length - w.currBlock
decreasing_by
  have blocks := walk_pass_blocks _pass
  rw [hashBlockEntries] at blocks
  omega

/-- `conCheckHashes`: `none` is `FALSE`; `TRUE` comes with what `blockInfo` holds. -/
def conCheckHashes (sha : Sha) (conData : Bytes) (conDataStart conDataLen : Nat)
    (blockInfo : List (Option Nat)) : Except Fault (Option (List (Option Nat))) := do
  let hashout ← hashAt sha conData headerSize (sub32 conDataStart headerSize)
  let contentId ← readAt conData contentIdOffset XECRYPT_SHA_DIGEST_SIZE
  if contentId = hashout then
    let w : Walk :=
      { currBlock := 0
        currOffset := u32 (conDataStart + hashBlockSize)
        j := 0
        hb := conDataStart
        mhb := none
        blockInfo := blockInfo }
    let result ← walkLoop sha conData conDataStart conDataLen w
    return result.map Walk.blockInfo
  else
    return none

def roundUpToAlignment (size : Nat) : Nat := u32 (size + 0xFFF) / 0x1000 * 0x1000

/-- `conCheckHeader`, on a `malloc` that succeeds. The version is compared only
when one is expected. -/
def conCheckHeader (sha : Sha) (conData : Bytes) (conDataLen expVer : Nat) (isSupd : Bool) :
    Except Fault Bool := do
  let sizeOfHeaders ← readAt conData sizeOfHeadersOffset 4
  let conDataStart := roundUpToAlignment (getBe32 sizeOfHeaders)
  let version ← readAt conData (if isSupd then newVersionOffset else versionOffset) 4
  if expVer ≠ 0 ∧ getBe32 version ≠ expVer then
    return false
  else
    let blockInfo := List.replicate (conDataLen / 0x1000 + 1) none
    let result ← conCheckHashes sha conData conDataStart conDataLen blockInfo
    return result.isSome

end XeBuild.SuCheck
