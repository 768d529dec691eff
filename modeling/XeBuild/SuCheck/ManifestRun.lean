import XeBuild.SuCheck.Manifest

/-!
# A whole run over the items

What one round of the item loop leaves in each part of the state, and from it
what all rounds leave. The name that `sbuf` holds when a round begins depends on
the manifest alone, so the calls, the reads and the stores of a run do too; the
counters count outcomes.
-/

namespace XeBuild.SuCheck

open ListRange

set_option autoImplicit false

section Run

variable (env : CheckEnv) (schema : Schema) (body : Nat → Byte) (sbuf : Bytes)

/-- What `sbuf` holds when round `item` begins. -/
def heldName : Nat → Bytes
  | 0 => sbuf
  | item + 1 => (itemNames (itemView schema body item) (heldName item)).destination

def useAt (item : Nat) : Option ItemUse :=
  itemUse env schema (itemView schema body item) (heldName schema body sbuf item)

def outcomeAt (item : Nat) : Outcome := env.useOutcome item (useAt env schema body sbuf item)

def roundDefined (item : Nat) : Bool :=
  storesFit env schema (itemView schema body item) (heldName schema body sbuf item) &&
    outcomeAt env schema body sbuf item != .undefined

end Run

def ManifestWalk.ttlChecked (w : ManifestWalk) : Nat := w.ttlFilesChecked + w.ttlConChecked

def ManifestWalk.ttlOk (w : ManifestWalk) : Nat := w.ttlConOk + w.ttlFilesOk

def Outcome.counted : Outcome → Bool
  | .failed => true
  | .passed => true
  | _ => false

/-! ## One call -/

section Call

variable {env : CheckEnv} {item : Nat} {call : VerifyCall} {w : ManifestWalk}

structure Counted (outcome : Outcome) (w last : ManifestWalk) : Prop where
  sbuf : last.sbuf = w.sbuf
  results : last.results = w.results
  reads : last.reads = w.reads
  ttlChecked : last.ttlChecked = w.ttlChecked + if outcome.counted then 1 else 0
  ttlOk : last.ttlOk = w.ttlOk + if outcome = .passed then 1 else 0
  defined : last.defined = (w.defined && outcome != .undefined)

theorem counted_unread (w : ManifestWalk) : Counted .unread w w := by
  constructor <;> simp [Outcome.counted]

theorem counted_undefined (w : ManifestWalk) : Counted .undefined w { w with defined := false } := by
  constructor <;> simp [Outcome.counted, ManifestWalk.ttlChecked, ManifestWalk.ttlOk]

theorem counted_failed {last : ManifestWalk} (sbuf : last.sbuf = w.sbuf)
    (results : last.results = w.results) (reads : last.reads = w.reads)
    (defined : last.defined = w.defined) (checked : last.ttlChecked = w.ttlChecked + 1)
    (ok : last.ttlOk = w.ttlOk) : Counted .failed w last := by
  constructor
  · exact sbuf
  · exact results
  · exact reads
  · rw [checked, Outcome.counted, if_pos rfl]
  · rw [ok, if_neg (by simp), Nat.add_zero]
  · rw [defined]
    simp

theorem counted_passed {last : ManifestWalk} (sbuf : last.sbuf = w.sbuf)
    (results : last.results = w.results) (reads : last.reads = w.reads)
    (defined : last.defined = w.defined) (checked : last.ttlChecked = w.ttlChecked + 1)
    (ok : last.ttlOk = w.ttlOk + 1) : Counted .passed w last := by
  constructor
  · exact sbuf
  · exact results
  · exact reads
  · rw [checked, Outcome.counted, if_pos rfl]
  · rw [ok, if_pos rfl]
  · rw [defined]
    simp

theorem counted_dump {outcome : Outcome} {last : ManifestWalk} (counted : Counted outcome w last)
    (copies : Bool) (fdata : Bytes) :
    Counted outcome w (if copies then dumpFile fdata last else last) := by
  cases copies with
  | false => exact counted
  | true =>
      exact ⟨counted.sbuf, counted.results, counted.reads, counted.ttlChecked, counted.ttlOk,
        counted.defined⟩

theorem outcome_file (cfilename : Bytes) (len : Nat) (hdat : Bytes) :
    env.outcome item (.file cfilename len hdat) =
      if len = 0 then .unread
      else
        match env.readFileToBuf item cfilename with
        | none => .unread
        | some fdata =>
            if fdata.length = 0 then .unread
            else if fdata.length < len then .undefined
            else if (env.sha (fdata.take len)).bytes = hdat then .passed
            else .failed := rfl

theorem outcome_container (cfilename : Bytes) (len expVer : Nat) (doCopy isSupd : Bool) :
    env.outcome item (.container cfilename len expVer doCopy isSupd) =
      if len = 0 then .unread
      else
        match env.readFileToBuf item cfilename with
        | none => .unread
        | some fdata =>
            if fdata.length = 0 then .unread
            else
              match conCheckHeader env.sha fdata fdata.length expVer isSupd with
              | .ok true => .passed
              | .ok false => .failed
              | .error _ => .undefined := rfl

theorem verify_file_spec (cfilename : Bytes) (len : Nat) (hdat : Bytes) :
    Counted (env.outcome item (.file cfilename len hdat)) w
      (verifyFile env item cfilename len hdat w) := by
  rw [outcome_file, verifyFile]
  by_cases empty : len = 0
  · simp only [if_pos empty]
    exact counted_unread w
  simp only [if_neg empty]
  cases env.readFileToBuf item cfilename with
  | none => exact counted_unread w
  | some fdata =>
      simp only []
      by_cases emptyFile : fdata.length = 0
      · simp only [if_pos emptyFile]
        exact counted_unread w
      by_cases short : fdata.length < len
      · simp only [if_neg emptyFile, if_pos short]
        exact counted_undefined w
      by_cases same : (env.sha (fdata.take len)).bytes = hdat
      · simp only [if_neg emptyFile, if_neg short, if_pos same]
        apply counted_dump
        apply counted_passed
        all_goals try rfl
        rw [ManifestWalk.ttlChecked, ManifestWalk.ttlChecked, Nat.add_right_comm]
      · simp only [if_neg emptyFile, if_neg short, if_neg same]
        apply counted_failed
        all_goals try rfl
        rw [ManifestWalk.ttlChecked, ManifestWalk.ttlChecked, Nat.add_right_comm]

theorem verify_container_spec (cfilename : Bytes) (len expVer : Nat) (doCopy isSupd : Bool) :
    Counted (env.outcome item (.container cfilename len expVer doCopy isSupd)) w
      (verifyContainer env item cfilename len expVer doCopy isSupd w) := by
  rw [outcome_container, verifyContainer]
  by_cases empty : len = 0
  · simp only [if_pos empty]
    exact counted_unread w
  simp only [if_neg empty]
  cases env.readFileToBuf item cfilename with
  | none => exact counted_unread w
  | some fdata =>
      simp only []
      by_cases emptyFile : fdata.length = 0
      · simp only [if_pos emptyFile]
        exact counted_unread w
      simp only [if_neg emptyFile]
      cases conCheckHeader env.sha fdata fdata.length expVer isSupd with
      | error => exact counted_undefined w
      | ok good =>
          cases good with
          | true =>
              simp only [if_true]
              apply counted_dump
              apply counted_passed
              all_goals try rfl
              rw [ManifestWalk.ttlOk, ManifestWalk.ttlOk, Nat.add_right_comm]
          | false =>
              apply counted_failed
              all_goals rfl

theorem verify_call_spec (env : CheckEnv) (item : Nat) (call : VerifyCall) (w : ManifestWalk) :
    Counted (env.outcome item call) w (verifyCall env item call w) := by
  cases call with
  | container cfilename len expVer doCopy isSupd =>
      exact verify_container_spec cfilename len expVer doCopy isSupd
  | file cfilename len hdat => exact verify_file_spec cfilename len hdat

theorem verify_use_spec (env : CheckEnv) (item : Nat) (use : Option ItemUse)
    (w : ManifestWalk) : Counted (env.useOutcome item use) w (verifyUse env item use w) := by
  cases use with
  | none => exact counted_unread w
  | some use => exact verify_call_spec env item use.call w

end Call

/-! ## All rounds -/

section Walk

variable (env : CheckEnv) (schema : Schema) (body : Nat → Byte) (sbuf : Bytes)

/-- The state behind `count` rounds in terms of the manifest and the outcomes. -/
structure WalkLeaves (count : Nat) (w : ManifestWalk) : Prop where
  sbuf_eq : w.sbuf = heldName schema body sbuf count
  results : w.results = (List.range count).map fun item =>
    (useAt env schema body sbuf item).map fun use => (use, env.outcome item use.call)
  reads : w.reads = (numEntriesOffset, 4) :: (List.range count).flatMap fun item =>
    itemReads schema body item (heldName schema body sbuf item)
  ttlChecked : w.ttlChecked =
    (List.range count).countP fun item => (outcomeAt env schema body sbuf item).counted
  ttlOk : w.ttlOk =
    (List.range count).countP fun item => outcomeAt env schema body sbuf item = .passed
  defined : w.defined = (List.range count).all fun item => roundDefined env schema body sbuf item

variable {env schema body sbuf} {w : ManifestWalk}

theorem build_paths_checked (item : Nat) :
    (buildPaths env schema body w item).ttlChecked = w.ttlChecked := by
  rw [ManifestWalk.ttlChecked, buildPaths, ManifestWalk.ttlChecked]

theorem build_paths_ok (item : Nat) :
    (buildPaths env schema body w item).ttlOk = w.ttlOk := by
  rw [ManifestWalk.ttlOk, buildPaths, ManifestWalk.ttlOk]

theorem verify_item_counted (item : Nat) (held : w.sbuf = heldName schema body sbuf item) :
    Counted (outcomeAt env schema body sbuf item) (buildPaths env schema body w item)
      (verifyItem env schema body w item) := by
  rw [verifyItem, outcomeAt, useAt, held]
  exact verify_use_spec env item _ _

theorem walk_leaves_succ {count : Nat} (leaves : WalkLeaves env schema body sbuf count w) :
    WalkLeaves env schema body sbuf (count + 1) (verifyItem env schema body w count) := by
  have held := leaves.sbuf_eq
  have counted := @verify_item_counted env schema body sbuf w count held
  constructor
  · rw [counted.sbuf, buildPaths, held, heldName]
  · rw [counted.results, buildPaths, held, leaves.results, List.range_succ, List.map_append]
    rfl
  · rw [counted.reads, buildPaths, held, leaves.reads, List.range_succ, List.flatMap_append]
    simp
  · rw [counted.ttlChecked, build_paths_checked, List.range_succ, List.countP_append,
      ← leaves.ttlChecked, List.countP_singleton]
  · rw [counted.ttlOk, build_paths_ok, List.range_succ, List.countP_append, ← leaves.ttlOk,
      List.countP_singleton]
    simp only [decide_eq_true_eq]
  · rw [counted.defined, buildPaths, held, leaves.defined, List.range_succ, List.all_append]
    simp [roundDefined, Bool.and_assoc]

theorem walk_items_leaves (count : Nat) :
    WalkLeaves env schema body sbuf count (walkItems env schema body (.start sbuf) count) := by
  induction count with
  | zero => constructor <;> rfl
  | succ count ih =>
      have last : walkItems env schema body (.start sbuf) (count + 1) =
          verifyItem env schema body (walkItems env schema body (.start sbuf) count) count := by
        rw [walkItems, walkItems, List.range_succ, List.foldl_append, List.foldl_cons,
          List.foldl_nil]
      rw [last]
      exact walk_leaves_succ ih

end Walk

/-! ## A manifest with its header -/

/-- The manifest with this body whose header carries its digest. -/
def sealManifest (sha : Sha) (body : Nat → Byte) (len : Nat) : ManifestBuffer where
  len := len
  mem := fun address =>
    if address < manifestHeaderSize then
      storeBytes (storeBytes (fun _ => 0) 0 [0x58, 0x4D, 0x4E, 0x50]) baDataShaOffset
        (sha (bytesAt body 0 (be32At body 4))).bytes address
    else body (address - manifestHeaderSize)

theorem seal_body (sha : Sha) (body : Nat → Byte) (len : Nat) :
    (sealManifest sha body len).body = body := by
  funext offset
  rw [ManifestBuffer.body, sealManifest]
  simp only []
  rw [if_neg (by omega), Nat.add_sub_cancel_left]

theorem seal_accepted (sha : Sha) {body : Nat → Byte} {len : Nat} (atLeast : 0x164 ≤ len)
    (atMost : len ≤ 0x10000) (schema : be32At body 0x10 = 3) (magic : be32At body 0 = MAGIC_XSYM) :
    Accepted sha (sealManifest sha body len) 3 := by
  have bodyEq := seal_body sha body len
  have version : (sealManifest sha body len).schemaVer = 3 := by
    rw [ManifestBuffer.schemaVer, bodyEq, schema]
  refine ⟨atLeast, atMost, ?_, version⟩
  have digest : bytesAt (sealManifest sha body len).mem baDataShaOffset XECRYPT_SHA_DIGEST_SIZE =
      (sha (bytesAt body 0 (be32At body 4))).bytes := by
    have stored := bytes_at_store (storeBytes (fun _ => 0) 0 [0x58, 0x4D, 0x4E, 0x50])
      baDataShaOffset (sha (bytesAt body 0 (be32At body 4))).bytes
    rw [(sha (bytesAt body 0 (be32At body 4))).size] at stored
    rw [← stored]
    apply bytes_at_congr
    intro index bound
    rw [sealManifest]
    simp only []
    rw [if_pos]
    rw [XECRYPT_SHA_DIGEST_SIZE] at bound
    rw [baDataShaOffset, manifestHeaderSize]
    omega
  have header : be32At (sealManifest sha body len).mem 0 = MAGIC_XMNP := by
    have first : bytesAt (sealManifest sha body len).mem 0 4 = [0x58, 0x4D, 0x4E, 0x50] := by
      rw [← bytes_at_store (fun _ => 0) 0 [0x58, 0x4D, 0x4E, 0x50]]
      apply bytes_at_congr
      intro index bound
      rw [sealManifest]
      simp only []
      rw [if_pos (by rw [manifestHeaderSize]; omega), storeBytes, if_neg]
      rw [baDataShaOffset]
      omega
    rw [be32At, first]
    decide
  rw [verifyManifestHeader, if_neg (by rw [version]; decide), if_pos version]
  simp only [ManifestBuffer.contentSize, bodyEq, magic, digest, header]
  simp

end XeBuild.SuCheck
