import XeBuild.SuCheck.BlockMap
import XeBuild.SuCheck.TableReads

/-!
# Reads of the container check

The groups that the walk enters, and from them the whole check: it comes to an
end without a read outside of the file or a store outside of `blockInfo` exactly
when every group that is entered lies in the file as far as it is compared.
-/

namespace XeBuild.SuCheck

open ListRange Runs

set_option autoImplicit false

/-! ## The groups -/

def placeAt (conData : Bytes) (start : Nat) : Nat → Place
  | 0 => ⟨start, none⟩
  | group + 1 => (placeAt conData start group).next conData hashBlockEntries

def Entered (sha : Sha) (conData : Bytes) (start group : Nat) : Prop :=
  ∀ earlier < group, GroupPasses sha conData start (placeAt conData start earlier) earlier

section Groups

variable {sha : Sha} {conData : Bytes} {start group : Nat} {w : Walk}

theorem place_behind_start (conData : Bytes) (start group : Nat) :
    start ≤ (placeAt conData start group).hb := by
  induction group with
  | zero => exact Nat.le_refl start
  | succ group ih =>
      have behind : start ≤ (placeAt conData start group).blockAt hashBlockEntries :=
        Nat.le_add_right_of_le ih
      rw [placeAt, Place.next]
      split_ifs
      · exact Nat.le_add_right_of_le behind
      · exact behind

theorem last_pass_inside (int : conData.length < 0x80000000)
    (here : AtPlace conData (placeAt conData start group) group 0 w) {step : Step}
    (pass : walkPass sha conData start conData.length w = .ok step)
    (ends : ∀ after, step ≠ .next after) :
    ∀ later, group ≤ later →
      (∀ earlier, group ≤ earlier → earlier < later →
        GroupPasses sha conData start (placeAt conData start earlier) earlier) →
      GroupInside sha conData start (placeAt conData start later) later := by
  have first := place_behind_start conData start group
  intro later after passes
  rcases Nat.eq_or_lt_of_le after with rfl | behind
  · exact (pass_returns_iff int here first).mp ⟨step, pass⟩
  · rcases passes_next int here first (passes group (Nat.le_refl group) behind) with ⟨w', next⟩
    rw [pass] at next
    exact absurd (Except.ok.inj next) (ends w')

theorem walk_returns_iff (int : conData.length < 0x80000000)
    (here : AtPlace conData (placeAt conData start group) group 0 w) :
    Returns (walkLoop sha conData start conData.length w) ↔
      ∀ later, group ≤ later →
        (∀ earlier, group ≤ earlier → earlier < later →
          GroupPasses sha conData start (placeAt conData start earlier) earlier) →
        GroupInside sha conData start (placeAt conData start later) later := by
  have first := place_behind_start conData start group
  fun_induction walkLoop sha conData start conData.length w generalizing group with
  | case1 w fault pass =>
      constructor
      · intro returned
        exact absurd returned (not_returns_error fault)
      · intro inside
        have here_inside := inside group (Nat.le_refl group) fun earlier after before => by omega
        rcases (pass_returns_iff int here first).mpr here_inside with ⟨step, returned⟩
        rw [pass] at returned
        cases returned
  | case2 w pass =>
      apply iff_of_true (returns_ok _)
      apply last_pass_inside int here pass
      intro next same
      cases same
  | case3 w after pass =>
      apply iff_of_true (returns_ok _)
      apply last_pass_inside int here pass
      intro next same
      cases same
  | case4 w after pass ih =>
      have passes := (pass_next int here first pass).1
      have there : AtPlace conData (placeAt conData start (group + 1)) (group + 1) 0 after :=
        (pass_next int here first pass).2
      apply Iff.trans (ih there (place_behind_start conData start (group + 1)))
      constructor
      · intro inside later behind entered
        rcases Nat.eq_or_lt_of_le behind with rfl | more
        · exact (pass_returns_iff int here first).mp ⟨_, pass⟩
        · apply inside later more
          intro earlier from_next sooner
          exact entered earlier (Nat.le_of_succ_le from_next) sooner
      · intro inside later behind entered
        apply inside later (Nat.le_of_succ_le behind)
        intro earlier from_here sooner
        rcases Nat.eq_or_lt_of_le from_here with rfl | more
        · exact passes
        · exact entered earlier more sooner

end Groups

/-! ## `conCheckHashes` -/

structure HashesInside (sha : Sha) (conData : Bytes) (start : Nat) : Prop where
  header : headerSize ≤ start
  region : start ≤ conData.length
  groups : ContentIdMatches sha conData start → ∀ group, Entered sha conData start group →
    GroupInside sha conData start (placeAt conData start group) group

section Hashes

variable {sha : Sha} {conData : Bytes} {start : Nat}

theorem header_inside_iff (int : conData.length < 0x80000000) (word : start < 0x100000000) :
    headerSize + sub32 start headerSize ≤ conData.length ↔
      headerSize ≤ start ∧ start ≤ conData.length := by
  constructor
  · intro inside
    by_cases header : headerSize ≤ start
    · rw [sub32_of_le header word] at inside
      exact ⟨header, by omega⟩
    · rw [headerSize] at header inside
      rw [sub32] at inside
      omega
  · intro inside
    rw [sub32_of_le inside.1 word]
    omega

/-- The locals in front of the loop, with `blockInfo` as it is allocated. -/
theorem first_at_place (int : conData.length < 0x80000000) (region : start ≤ conData.length) :
    AtPlace conData (placeAt conData start 0) 0 0
      (Walk.first start (List.replicate (conData.length / 0x1000 + 1) none)) := by
  have offset : u32 (start + hashBlockSize) = start + 0x1000 := by
    rw [hashBlockSize, u32_of_lt (by omega)]
  refine ⟨rfl, rfl, rfl, offset, region, List.length_replicate, ?_⟩
  change (0 + 1) * 0x1000 ≤ u32 (start + hashBlockSize)
  rw [offset]
  omega

theorem hashes_returns_iff (int : conData.length < 0x80000000) (word : start < 0x100000000) :
    Returns (conCheckHashes sha conData start conData.length
        (List.replicate (conData.length / 0x1000 + 1) none)) ↔
      HashesInside sha conData start := by
  rw [conCheckHashes, returns_hash_bind_iff, returns_read_bind_iff, header_inside_iff int word]
  by_cases same : slice conData contentIdOffset XECRYPT_SHA_DIGEST_SIZE =
      (sha (slice conData headerSize (sub32 start headerSize))).bytes
  · rw [if_pos same, returns_bind_iff]
    have mapped : ∀ result : Option Walk, Returns (pure (result.map Walk.blockInfo) :
        Except Fault (Option (List (Option Nat)))) := fun result => returns_ok _
    constructor
    · intro steps
      rcases steps with ⟨⟨header, region⟩, _, walk, _⟩
      refine ⟨header, region, ?_⟩
      intro _ group entered
      apply (walk_returns_iff int (first_at_place int region)).mp walk group (Nat.zero_le group)
      intro earlier _ sooner
      exact entered earlier sooner
    · intro inside
      have header := inside.header
      have region := inside.region
      have contentId : ContentIdMatches sha conData start := by
        refine ⟨?_, (header_inside_iff int word).mpr ⟨header, region⟩, same⟩
        rw [headerSize] at header
        rw [contentIdOffset, XECRYPT_SHA_DIGEST_SIZE]
        omega
      refine ⟨⟨header, region⟩, contentId.inside, ?_, fun result _ => mapped result⟩
      apply (walk_returns_iff int (first_at_place int region)).mpr
      intro group _ entered
      apply inside.groups contentId group
      intro earlier sooner
      exact entered earlier (Nat.zero_le earlier) sooner
  · rw [if_neg same]
    constructor
    · intro steps
      exact ⟨steps.1.1, steps.1.2, fun contentId => absurd contentId.digest same⟩
    · intro inside
      have header := inside.header
      have region := inside.region
      refine ⟨⟨header, region⟩, ?_, returns_ok _⟩
      rw [headerSize] at header
      rw [contentIdOffset, XECRYPT_SHA_DIGEST_SIZE]
      omega

/-- A well-formed container of any size is read inside, also where its last block is
not compared. -/
theorem well_formed_inside {c : Container} {count : Nat} (formed : WellFormed sha c count) :
    HashesInside sha c.conData c.conDataStart := by
  have size := c.size
  have ends := formed.authenticated.layout.ends
  apply (hashes_returns_iff size (by omega)).mp
  exact ⟨_, well_formed_accepted formed⟩

end Hashes

/-! ## `conCheckHeader` -/

/-- Where the data starts by the field `SizeOfHeaders`. -/
def dataStart (conData : Bytes) : Nat :=
  roundUpToAlignment (getBe32 (slice conData sizeOfHeadersOffset 4))

def VersionAccepted (conData : Bytes) (expVer : Nat) (isSupd : Bool) : Prop :=
  expVer = 0 ∨ headerVersion conData isSupd = expVer

structure ContainerInside (sha : Sha) (conData : Bytes) (expVer : Nat) (isSupd : Bool) :
    Prop where
  size : sizeOfHeadersOffset + 4 ≤ conData.length
  version : (if isSupd then newVersionOffset else versionOffset) + 4 ≤ conData.length
  hashes : VersionAccepted conData expVer isSupd → HashesInside sha conData (dataStart conData)

theorem data_start_lt (conData : Bytes) : dataStart conData < 0x100000000 := by
  have word := u32_lt (getBe32 (slice conData sizeOfHeadersOffset 4) + 0xFFF)
  rw [dataStart, roundUpToAlignment]
  omega

/-- The check comes to an end with every read in the file and every store in
`blockInfo` exactly when the header and the groups that are entered lie in the file. -/
theorem container_reads_inside_iff (sha : Sha) (conData : Bytes) (expVer : Nat) (isSupd : Bool)
    (int : conData.length < 0x80000000) :
    (∃ result, conCheckHeader sha conData conData.length expVer isSupd = .ok result) ↔
      ContainerInside sha conData expVer isSupd := by
  change Returns (conCheckHeader sha conData conData.length expVer isSupd) ↔ _
  rw [conCheckHeader, returns_read_bind_iff, returns_read_bind_iff]
  by_cases accepted : VersionAccepted conData expVer isSupd
  · have compared : ¬ (expVer ≠ 0 ∧ getBe32 (slice conData
        (if isSupd then newVersionOffset else versionOffset) 4) ≠ expVer) := by
      rw [VersionAccepted, headerVersion] at accepted
      omega
    rw [if_neg compared, returns_bind_iff]
    change _ ∧ _ ∧ Returns (conCheckHashes sha conData (dataStart conData) _ _) ∧ _ ↔ _
    rw [hashes_returns_iff int (data_start_lt conData)]
    constructor
    · intro steps
      exact ⟨steps.1, steps.2.1, fun _ => steps.2.2.1⟩
    · intro inside
      exact ⟨inside.size, inside.version, inside.hashes accepted, fun result _ => returns_ok _⟩
  · have differs : expVer ≠ 0 ∧ getBe32 (slice conData
        (if isSupd then newVersionOffset else versionOffset) 4) ≠ expVer := by
      rw [VersionAccepted, headerVersion] at accepted
      omega
    rw [if_pos differs]
    constructor
    · intro steps
      exact ⟨steps.1, steps.2.1, fun holds => absurd holds accepted⟩
    · intro inside
      exact ⟨inside.size, inside.version, returns_ok _⟩

theorem blank_container_start (count : Nat) (nonempty : 0 < count)
    (bounded : count ≤ 0xAA * 0xAA) :
    dataStart (blankContainer count nonempty bounded).conData = 0x1000 := by
  have field : slice (blankContainer count nonempty bounded).conData sizeOfHeadersOffset 4 =
      [0, 0, 0x10, 0] := by
    have part := @Contents.slice_container_header constantSha (blankContents count nonempty bounded)
      ((blankContents count nonempty bounded).root constantSha) sizeOfHeadersOffset 4 (by decide)
    exact part.trans (Contents.header_size_field _ _)
  rw [dataStart, field]
  decide

/-- Two groups of blocks, all of them read inside. -/
theorem two_groups_inside :
    ∃ result, conCheckHeader constantSha (blankContainer 171 (by decide) (by decide)).conData
      (blankContainer 171 (by decide) (by decide)).conData.length 0 false = .ok result := by
  have formed := blank_container_formed 171 (by decide) (by decide)
  have size := (blankContainer 171 (by decide) (by decide)).size
  have ends : 0x1000 + totalBlocks 171 * 0x1000 =
      (blankContainer 171 (by decide) (by decide)).conData.length := formed.authenticated.layout.ends
  have total : totalBlocks 171 = 174 := rfl
  rw [total] at ends
  apply (container_reads_inside_iff _ _ 0 false size).mpr
  refine ⟨?_, ?_, ?_⟩
  · rw [← ends]
    decide
  · rw [← ends]
    decide
  · intro _
    rw [blank_container_start]
    exact well_formed_inside formed

/-- A file that ends in front of `SizeOfHeaders`. -/
theorem short_container_read_outside :
    ¬ ∃ result, conCheckHeader (fun _ => Digest.zero) [0] 1 0 false = .ok result := by
  intro returned
  rcases returned with ⟨result, run⟩
  have beyond : conCheckHeader (fun _ => Digest.zero) [0] 1 0 false =
      .error (.read sizeOfHeadersOffset 4) := rfl
  rw [beyond] at run
  cases run

end XeBuild.SuCheck
