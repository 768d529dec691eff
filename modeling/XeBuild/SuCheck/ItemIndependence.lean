import XeBuild.SuCheck.ManifestTotals

/-!
# Independence of the items

What an item is verified with depends on the items before it through `sbuf`
alone, and only when the item's own source name is empty.
-/

namespace XeBuild.SuCheck

open ListRange

set_option autoImplicit false

def ownName (view : ItemView) : Option Bytes :=
  if view.entry.destNameOff ≠ 0 ∧ view.destName.isSome then view.destName
  else if view.entry.intNameOff ≠ 0 then view.intName
  else none

/-- The item has no source name, or one that is not empty, or its own other
names decide that no source path is built. -/
def StandsAlone (view : ItemView) : Prop :=
  view.entry.srcNameOff = 0 ∨ view.srcName.isSome ∨
    ∃ name, ownName view = some name ∧
      (cString name = flashName ∨ view.entry.entryType ≠ 2 ∧ view.entry.entryType ≠ 3)

def ManifestWalk.uses (w : ManifestWalk) : List (Option ItemUse) :=
  w.results.map fun result => result.map Prod.fst

section Uses

variable {env : CheckEnv} {view : ItemView}

/-- With an empty source name the compared name is the item's own, if it has
one, else what is left in the buffer. -/
theorem compared_of_empty_source (named : view.entry.srcNameOff ≠ 0)
    (empty : view.srcName = none) (left : Bytes) :
    (itemNames view left).source = left ∧
      (itemNames view left).compared = getManifestString (ownName view) left := by
  simp only [itemNames, if_pos named, empty, getManifestString, ownName]
  refine ⟨trivial, ?_⟩
  by_cases dest : view.entry.destNameOff = 0
  · by_cases internal : view.entry.intNameOff = 0
    · simp [dest, internal]
    · simp [dest, internal]
  · cases destName : view.destName with
    | some name => simp [dest]
    | none =>
        by_cases internal : view.entry.intNameOff = 0
        · simp [internal]
        · simp [internal]

theorem names_of_source {name : Bytes} (named : view.entry.srcNameOff ≠ 0)
    (found : view.srcName = some name) (left left' : Bytes) :
    itemNames view left = itemNames view left' := by
  simp only [itemNames, if_pos named, found, getManifestString]

theorem item_use_stands_alone (alone : StandsAlone view) (left left' : Bytes) :
    itemUse env schema3 view left = itemUse env schema3 view left' := by
  by_cases named : view.entry.srcNameOff = 0
  · rw [itemUse, itemUse, if_pos named, if_pos named]
  cases found : view.srcName with
  | some name => rw [itemUse, itemUse, names_of_source named found left left']
  | none =>
      obtain ⟨name, own, decided⟩ : ∃ name, ownName view = some name ∧
          (cString name = flashName ∨ view.entry.entryType ≠ 2 ∧ view.entry.entryType ≠ 3) := by
        rcases alone with noName | source | own
        · exact absurd noName named
        · rw [found] at source
          cases source
        · exact own
      have compared : ∀ sbuf, (itemNames view sbuf).compared = cString name := by
        intro sbuf
        rw [(compared_of_empty_source named found sbuf).2, own, getManifestString]
      rcases decided with flash | other
      · rw [itemUse, itemUse]
        simp only [if_neg named, compared, flash, if_true]
      · rw [itemUse, itemUse]
        simp only [if_neg named, compared, if_neg other.1, if_neg other.2]

/-- The path that is read for a container or a file starts with the source name. -/
theorem item_use_source_path (named : view.entry.srcNameOff ≠ 0) (left : Bytes)
    (notFlash : (itemNames view left).compared ≠ flashName)
    (kind : view.entry.entryType = 2 ∨ view.entry.entryType = 3) :
    (itemUse env schema3 view left).map (fun use => use.call.cfilename) =
      some (MANIFEST_BASE ++ (itemNames view left).source) := by
  rw [itemUse]
  simp only [if_neg named, if_neg notFlash]
  rcases kind with container | file
  · simp only [if_pos container, Option.map_some, VerifyCall.cfilename]
  · have notContainer : view.entry.entryType ≠ 2 := by
      rw [file]
      decide
    simp only [if_neg notContainer, if_pos file, Option.map_some, VerifyCall.cfilename]

/-- An item that does not stand alone is verified in different ways behind
different names. -/
theorem stands_alone_of_item_use
    (same : ∀ left left', itemUse env schema3 view left = itemUse env schema3 view left') :
    StandsAlone view := by
  by_contra dependent
  have named : view.entry.srcNameOff ≠ 0 := fun noName => dependent (Or.inl noName)
  have empty : view.srcName = none := by
    cases found : view.srcName with
    | none => rfl
    | some name => exact absurd (Or.inr (Or.inl (by rw [found]; rfl))) dependent
  have paths : (view.entry.entryType = 2 ∨ view.entry.entryType = 3) →
      (itemNames view [0x61]).compared ≠ flashName →
        (itemNames view [0x62]).compared ≠ flashName → False := by
    intro kind first second
    have firstPath := @item_use_source_path env view named [0x61] first kind
    have secondPath := @item_use_source_path env view named [0x62] second kind
    rw [(compared_of_empty_source named empty [0x61]).1] at firstPath
    rw [(compared_of_empty_source named empty [0x62]).1, ← same [0x61], firstPath] at secondPath
    simp at secondPath
  cases own : ownName view with
  | some name =>
      have compared : ∀ left, (itemNames view left).compared = cString name := by
        intro left
        rw [(compared_of_empty_source named empty left).2, own, getManifestString]
      have notFlash : cString name ≠ flashName := fun flash =>
        dependent (Or.inr (Or.inr ⟨name, own, Or.inl flash⟩))
      have kind : view.entry.entryType = 2 ∨ view.entry.entryType = 3 := by
        by_contra other
        push Not at other
        exact dependent (Or.inr (Or.inr ⟨name, own, Or.inr other⟩))
      exact paths kind (by rw [compared]; exact notFlash) (by rw [compared]; exact notFlash)
  | none =>
      have compared : ∀ left, (itemNames view left).compared = left := by
        intro left
        rw [(compared_of_empty_source named empty left).2, own, getManifestString]
      by_cases kind : view.entry.entryType = 2 ∨ view.entry.entryType = 3
      · exact paths kind (by rw [compared]; decide) (by rw [compared]; decide)
      · push Not at kind
        have flash : (itemUse env schema3 view flashName).isSome := by
          rw [itemUse]
          simp only [if_neg named, compared, if_true, Option.isSome_some]
        have other : itemUse env schema3 view [0x61] = none := by
          rw [itemUse]
          have notFlash : ([0x61] : Bytes) ≠ flashName := by decide
          simp only [if_neg named, compared, if_neg kind.1, if_neg kind.2, if_neg notFlash]
        rw [same flashName [0x61], other] at flash
        cases flash

theorem map_fst_pair (use : Option ItemUse) (outcome : ItemUse → Outcome) :
    (use.map fun use => (use, outcome use)).map Prod.fst = use := by
  cases use <;> rfl

theorem uses_of_leaves {body : Nat → Byte} {sbuf : Bytes} {count item : Nat} {w : ManifestWalk}
    (leaves : WalkLeaves env schema3 body sbuf count w) (present : item < count) :
    w.uses[item]? = some (useAt env schema3 body sbuf item) := by
  rw [ManifestWalk.uses, leaves.results, List.map_map, List.getElem?_map,
    List.getElem?_range present, Option.map_some, Function.comp_apply, map_fst_pair]

theorem run_use {man : ManifestBuffer} (accepted : Accepted env.sha man 3) (sbuf : Bytes)
    {item : Nat} (present : item < numEntries man.body) :
    (parseManifest env man (.start sbuf)).uses[item]? =
      some (useAt env schema3 man.body sbuf item) := by
  rw [accepted_parse accepted, verifyManifestItems]
  exact uses_of_leaves (walk_items_leaves _) present

/-- For an item that two accepted manifests share: what it is verified with does
not depend on the name left in the buffer exactly when it stands alone, and then
both runs verify it with the same. -/
theorem item_uses_independent_iff {first second : ManifestBuffer} {item : Nat}
    (firstAccepted : Accepted env.sha first 3) (secondAccepted : Accepted env.sha second 3)
    (inFirst : item < numEntries first.body) (inSecond : item < numEntries second.body)
    (same : itemView schema3 first.body item = itemView schema3 second.body item) :
    ((∀ left left', itemUse env schema3 (itemView schema3 first.body item) left =
        itemUse env schema3 (itemView schema3 second.body item) left') ↔
      StandsAlone (itemView schema3 first.body item)) ∧
    (StandsAlone (itemView schema3 first.body item) → ∀ sbuf sbuf',
      (parseManifest env first (.start sbuf)).uses[item]? =
        (parseManifest env second (.start sbuf')).uses[item]?) := by
  rw [← same]
  refine ⟨⟨stands_alone_of_item_use, item_use_stands_alone⟩, ?_⟩
  intro alone sbuf sbuf'
  rw [run_use firstAccepted sbuf inFirst, run_use secondAccepted sbuf' inSecond, useAt, useAt,
    ← same, item_use_stands_alone alone]

end Uses

/-! ## An empty source name -/

/-- A body of schema 3: an item that only has a name, then a file of one byte
whose source name is empty. -/
def emptyNameFields (name : Byte) : Bytes :=
  [0x78, 0x73, 0x79, 0x6D, 0, 0, 0, 0xFC] ++ zeros 8 ++ [0, 0, 0, 3] ++ zeros 0x18 ++
    [0, 0, 0, 2] ++ ([0, 0, 0, 0xF0] ++ zeros 0x1C ++ [0, 0, 0, 0xF0] ++ zeros 0x3C) ++
    ([0, 0, 0, 0xF4] ++ zeros 4 ++ [0, 0, 0, 1] ++ zeros 0xC ++ [0, 0, 0, 3] ++ zeros 4 ++
      [0, 0, 0, 0xF8] ++ zeros 0x3C) ++ [0, 1, name, 0, 0, 0, 0, 0, 0, 1, 0x63, 0]

def emptyNameBody (name : Byte) : Nat → Byte := fun offset => (emptyNameFields name).getD offset 0

theorem empty_name_accepted (sha : Sha) :
    Accepted sha (sealManifest sha (emptyNameBody 0x61) 0x234) 3 ∧
      Accepted sha (sealManifest sha (emptyNameBody 0x62) 0x234) 3 :=
  ⟨seal_accepted sha (by decide) (by decide) (by decide) (by decide),
    seal_accepted sha (by decide) (by decide) (by decide) (by decide)⟩

theorem empty_name_counts :
    numEntries (emptyNameBody 0x61) = 2 ∧ numEntries (emptyNameBody 0x62) = 2 := by
  decide

theorem empty_name_entries :
    itemEntry schema3 (emptyNameBody 0x61) 1 = ⟨0xF4, 1, 0, 0, 3, 0, 0xF8, zeros 0x14, 0, 0⟩ ∧
      itemEntry schema3 (emptyNameBody 0x62) 1 = ⟨0xF4, 1, 0, 0, 3, 0, 0xF8, zeros 0x14, 0, 0⟩ := by
  constructor <;> decide +kernel

theorem empty_name_views :
    itemView schema3 (emptyNameBody 0x61) 1 = itemView schema3 (emptyNameBody 0x62) 1 := by
  have sources : manifestString (emptyNameBody 0x61) 0xF4 =
      manifestString (emptyNameBody 0x62) 0xF4 := by decide
  have destinations : manifestString (emptyNameBody 0x61) 0xF8 =
      manifestString (emptyNameBody 0x62) 0xF8 := by decide
  rw [itemView, itemView, empty_name_entries.1, empty_name_entries.2]
  simp [sources, destinations]

theorem empty_name_paths (env : CheckEnv) :
    (useAt env schema3 (emptyNameBody 0x61) [] 1).map (fun use => use.call.cfilename) =
        some (MANIFEST_BASE ++ [0x61]) ∧
      (useAt env schema3 (emptyNameBody 0x62) [] 1).map (fun use => use.call.cfilename) =
        some (MANIFEST_BASE ++ [0x62]) := by
  constructor
  · rw [useAt, item_use_source_path (by decide +kernel) _ (by decide +kernel)
      (Or.inr (by decide +kernel))]
    decide +kernel
  · rw [useAt, item_use_source_path (by decide +kernel) _ (by decide +kernel)
      (Or.inr (by decide +kernel))]
    decide +kernel

/-- The second item is the same in both manifests; its source path ends in the
name of the first. -/
theorem empty_name_takes_previous :
    ¬ ∃ sha : Sha, ∀ (env : CheckEnv) (first second : ManifestBuffer) (item : Nat),
      env.sha = sha → Accepted sha first 3 → Accepted sha second 3 →
        item < numEntries first.body → item < numEntries second.body →
          itemView schema3 first.body item = itemView schema3 second.body item → ∀ sbuf,
            (parseManifest env first (.start sbuf)).uses[item]? =
              (parseManifest env second (.start sbuf)).uses[item]? := by
  intro claimed
  obtain ⟨sha, claimed⟩ := claimed
  obtain ⟨firstAccepted, secondAccepted⟩ := empty_name_accepted sha
  obtain ⟨firstCount, secondCount⟩ := empty_name_counts
  have inFirst : 1 < numEntries (sealManifest sha (emptyNameBody 0x61) 0x234).body := by
    rw [seal_body, firstCount]
    decide
  have inSecond : 1 < numEntries (sealManifest sha (emptyNameBody 0x62) 0x234).body := by
    rw [seal_body, secondCount]
    decide
  have same := claimed ⟨sha, false, [], fun _ _ => none⟩ _ _ 1 rfl firstAccepted secondAccepted
    inFirst inSecond (by rw [seal_body, seal_body, empty_name_views]) []
  rw [run_use firstAccepted [] inFirst, run_use secondAccepted [] inSecond, seal_body, seal_body]
    at same
  have paths := empty_name_paths ⟨sha, false, [], fun _ _ => none⟩
  rw [← Option.some.inj same, paths.1] at paths
  simp at paths

/-- The source name of the second item is `c`, as its destination is. -/
def sharedNameBody (name : Byte) : Nat → Byte := storeBytes (emptyNameBody name) 0x93 [0xF8]

def sharedNameManifest (name : Byte) : ManifestBuffer :=
  sealManifest (fun _ => Digest.zero) (sharedNameBody name) 0x234

def noFilesEnv : CheckEnv := ⟨fun _ => Digest.zero, false, [], fun _ _ => none⟩

theorem shared_name_accepted :
    Accepted noFilesEnv.sha (sharedNameManifest 0x61) 3 ∧
      Accepted noFilesEnv.sha (sharedNameManifest 0x62) 3 :=
  ⟨seal_accepted _ (by decide) (by decide) (by decide +kernel) (by decide +kernel),
    seal_accepted _ (by decide) (by decide) (by decide +kernel) (by decide +kernel)⟩

theorem shared_name_views :
    itemView schema3 (sharedNameManifest 0x61).body 1 =
        ⟨twoFileEntry 0xF8 (zeros 0x14), some [0x63], none, some [0x63], 0, 0⟩ ∧
      itemView schema3 (sharedNameManifest 0x62).body 1 =
        ⟨twoFileEntry 0xF8 (zeros 0x14), some [0x63], none, some [0x63], 0, 0⟩ := by
  constructor <;> decide +kernel

theorem shared_name_first_items :
    (itemView schema3 (sharedNameManifest 0x61).body 0).srcName ≠
      (itemView schema3 (sharedNameManifest 0x62).body 0).srcName := by
  decide +kernel

/-- The second items are the same and are verified as `c`, whatever the first ones leave. -/
theorem shared_name_item :
    (itemView schema3 (sharedNameManifest 0x61).body 0).srcName ≠
        (itemView schema3 (sharedNameManifest 0x62).body 0).srcName ∧
      ∀ sbuf sbuf',
        (parseManifest noFilesEnv (sharedNameManifest 0x61) (.start sbuf)).uses[1]? =
            (parseManifest noFilesEnv (sharedNameManifest 0x62) (.start sbuf')).uses[1]? ∧
          (parseManifest noFilesEnv (sharedNameManifest 0x61) (.start sbuf)).uses[1]? =
            some (some (twoFileUse 0x63 (zeros 0x14))) := by
  have inFirst : 1 < numEntries (sharedNameManifest 0x61).body := by decide +kernel
  have inSecond : 1 < numEntries (sharedNameManifest 0x62).body := by decide +kernel
  have same := shared_name_views.1.trans shared_name_views.2.symm
  have alone : StandsAlone (itemView schema3 (sharedNameManifest 0x61).body 1) := by
    rw [shared_name_views.1]
    exact Or.inr (Or.inl rfl)
  have independent := (item_uses_independent_iff shared_name_accepted.1 shared_name_accepted.2
    inFirst inSecond same).2 alone
  refine ⟨shared_name_first_items, ?_⟩
  intro sbuf sbuf'
  refine ⟨independent sbuf sbuf', ?_⟩
  rw [run_use shared_name_accepted.1 sbuf inFirst, useAt, shared_name_views.1]
  rfl

end XeBuild.SuCheck
