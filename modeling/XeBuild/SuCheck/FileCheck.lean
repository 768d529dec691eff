import XeBuild.SuCheck.ManifestRun

/-!
# The check of a single file

`verifyFile` hashes as many bytes as the manifest says and copies as many as the
file has. What it counts and copies is a file whose first bytes have the digest
of the manifest; that is the whole file only where the two lengths agree.
-/

namespace XeBuild.SuCheck

open ListRange

set_option autoImplicit false

def WholeFileMatches (sha : Sha) (fdata : Bytes) (len : Nat) (hdat : Bytes) : Prop :=
  fdata.length = len ∧ (sha fdata).bytes = hdat

structure FrontMatches (sha : Sha) (fdata : Bytes) (len : Nat) (hdat : Bytes) : Prop where
  listed : len ≠ 0
  inside : len ≤ fdata.length
  digest : (sha (fdata.take len)).bytes = hdat

/-- The file is counted as OK, and copied where files are copied, exactly when all of
it matches, and nothing behind its end is hashed. -/
structure WholeFileVerified (env : CheckEnv) (item : Nat) (cfilename : Bytes) (len : Nat)
    (hdat fdata : Bytes) (w : ManifestWalk) : Prop where
  counted : (verifyFile env item cfilename len hdat w).ttlFilesOk = w.ttlFilesOk + 1 ↔
    WholeFileMatches env.sha fdata len hdat
  copied : (verifyFile env item cfilename len hdat w).dumped =
      w.dumped ++ [(w.outfilepath, fdata)] ↔
    env.copyToFolder = true ∧ WholeFileMatches env.sha fdata len hdat
  hashed : env.outcome item (.file cfilename len hdat) ≠ .undefined

/-- The length of the manifest does not hide a difference. -/
structure LengthsAgree (sha : Sha) (fdata : Bytes) (len : Nat) (hdat : Bytes) : Prop where
  empty : len = 0 → fdata = [] → (sha []).bytes ≠ hdat
  shorter : fdata ≠ [] → len ≤ fdata.length
  longer : len ≠ 0 → len < fdata.length → (sha (fdata.take len)).bytes ≠ hdat

section File

variable {env : CheckEnv} {item len : Nat} {cfilename hdat fdata : Bytes} {w : ManifestWalk}

/-- A file whose front matches is counted, and copied where files are copied; any
other one leaves both as they are. -/
theorem verify_file_result (read : env.readFileToBuf item cfilename = some fdata) :
    (FrontMatches env.sha fdata len hdat ∧
        (verifyFile env item cfilename len hdat w).ttlFilesOk = w.ttlFilesOk + 1 ∧
        (verifyFile env item cfilename len hdat w).dumped =
          if env.copyToFolder then w.dumped ++ [(w.outfilepath, fdata)] else w.dumped) ∨
      (¬ FrontMatches env.sha fdata len hdat ∧
        (verifyFile env item cfilename len hdat w).ttlFilesOk = w.ttlFilesOk ∧
        (verifyFile env item cfilename len hdat w).dumped = w.dumped) := by
  rw [verifyFile]
  by_cases unlisted : len = 0
  · rw [if_pos unlisted]
    exact Or.inr ⟨fun front => front.listed unlisted, rfl, rfl⟩
  · rw [if_neg unlisted, read]
    dsimp only
    by_cases empty : fdata.length = 0
    · rw [if_pos empty]
      refine Or.inr ⟨?_, rfl, rfl⟩
      intro front
      have inside := front.inside
      omega
    · rw [if_neg empty]
      by_cases short : fdata.length < len
      · rw [if_pos short]
        exact Or.inr ⟨fun front => absurd front.inside (Nat.not_le_of_lt short), rfl, rfl⟩
      · rw [if_neg short]
        by_cases same : (env.sha (fdata.take len)).bytes = hdat
        · rw [if_pos same]
          refine Or.inl ⟨⟨unlisted, Nat.not_lt.mp short, same⟩, ?_, ?_⟩
          · cases env.copyToFolder with
            | true => rfl
            | false => rfl
          · cases env.copyToFolder with
            | true => rfl
            | false => rfl
        · rw [if_neg same]
          exact Or.inr ⟨fun front => same front.digest, rfl, rfl⟩

theorem file_counted_iff (read : env.readFileToBuf item cfilename = some fdata) :
    (verifyFile env item cfilename len hdat w).ttlFilesOk = w.ttlFilesOk + 1 ↔
      FrontMatches env.sha fdata len hdat := by
  rcases verify_file_result read with ⟨front, counted, _⟩ | ⟨differs, kept, _⟩
  · exact iff_of_true counted front
  · rw [kept]
    exact iff_of_false (Nat.succ_ne_self _).symm differs

theorem file_copied_iff (read : env.readFileToBuf item cfilename = some fdata) :
    (verifyFile env item cfilename len hdat w).dumped = w.dumped ++ [(w.outfilepath, fdata)] ↔
      env.copyToFolder = true ∧ FrontMatches env.sha fdata len hdat := by
  have kept_differs : ¬ w.dumped = w.dumped ++ [(w.outfilepath, fdata)] := by
    intro same
    have longer := congrArg List.length same
    rw [List.length_append, List.length_singleton] at longer
    omega
  rcases verify_file_result read with ⟨front, _, copied⟩ | ⟨differs, _, kept⟩
  · rw [copied, and_iff_left front]
    split_ifs with folder
    · exact iff_of_true rfl folder
    · exact iff_of_false kept_differs folder
  · rw [kept]
    exact iff_of_false kept_differs fun both => differs both.2

theorem file_hash_inside_iff (read : env.readFileToBuf item cfilename = some fdata) :
    env.outcome item (.file cfilename len hdat) ≠ .undefined ↔
      (fdata ≠ [] → len ≤ fdata.length) := by
  rw [outcome_file, read]
  dsimp only
  split_ifs with unlisted empty short same
  · exact iff_of_true nofun fun _ => by omega
  · exact iff_of_true nofun fun present => absurd (List.length_eq_zero_iff.mp empty) present
  · refine iff_of_false (not_not.mpr rfl) ?_
    intro inside
    have present : fdata ≠ [] := fun absent => empty (List.length_eq_zero_iff.mpr absent)
    exact absurd (inside present) (Nat.not_le_of_lt short)
  · exact iff_of_true nofun fun _ => Nat.not_lt.mp short
  · exact iff_of_true nofun fun _ => Nat.not_lt.mp short

theorem front_matches_iff (agree : LengthsAgree env.sha fdata len hdat) :
    FrontMatches env.sha fdata len hdat ↔ WholeFileMatches env.sha fdata len hdat := by
  constructor
  · intro front
    rcases Nat.lt_or_eq_of_le front.inside with more | whole
    · exact absurd front.digest (agree.longer front.listed more)
    · have digest := front.digest
      rw [whole, List.take_length] at digest
      exact ⟨whole.symm, digest⟩
  · intro matched
    rcases matched with ⟨whole, digest⟩
    refine ⟨?_, Nat.le_of_eq whole.symm, ?_⟩
    · intro unlisted
      have absent : fdata = [] := List.length_eq_zero_iff.mp (whole.trans unlisted)
      rw [absent] at digest
      exact agree.empty unlisted absent digest
    · rw [← whole, List.take_length]
      exact digest

theorem whole_file_verified_iff (read : env.readFileToBuf item cfilename = some fdata) :
    WholeFileVerified env item cfilename len hdat fdata w ↔
      LengthsAgree env.sha fdata len hdat := by
  constructor
  · intro verified
    have counted := (file_counted_iff read).symm.trans verified.counted
    constructor
    · intro unlisted absent digest
      have front : FrontMatches env.sha fdata len hdat := by
        apply counted.mpr
        rw [absent, unlisted]
        exact ⟨rfl, digest⟩
      exact front.listed unlisted
    · exact (file_hash_inside_iff read).mp verified.hashed
    · intro listed more digest
      have whole := (counted.mp ⟨listed, Nat.le_of_lt more, digest⟩).1
      omega
  · intro agree
    constructor
    · rw [file_counted_iff read, front_matches_iff agree]
    · rw [file_copied_iff read, front_matches_iff agree]
    · exact (file_hash_inside_iff read).mpr agree.shorter

end File

def byteDigest : Digest := ⟨List.replicate XECRYPT_SHA_DIGEST_SIZE 2, List.length_replicate⟩

def oneByteSha : Sha := fun data => if data = [1] then byteDigest else Digest.zero

def singleFileEnv (fdata : Bytes) : CheckEnv := ⟨oneByteSha, true, [], fun _ _ => some fdata⟩

theorem one_byte_file_verified :
    WholeFileVerified (singleFileEnv [1]) 0 [] 1 byteDigest.bytes [1] (.start []) := by
  apply (whole_file_verified_iff rfl).mpr
  constructor
  · intro unlisted
    cases unlisted
  · intro _
    exact Nat.le_refl 1
  · intro _ more
    exact absurd more (Nat.lt_irrefl 1)

/-- The second byte is not hashed, and is copied. -/
theorem longer_file_not_verified :
    ¬ WholeFileVerified (singleFileEnv [1, 2]) 0 [] 1 byteDigest.bytes [1, 2] (.start []) := by
  intro verified
  have whole := verified.counted.mp rfl
  cases whole.1

end XeBuild.SuCheck
