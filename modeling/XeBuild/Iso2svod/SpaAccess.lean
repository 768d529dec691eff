import XeBuild.Iso2svod.Spa
import XeBuild.Iso2svod.XexAccess

/-!
# Accesses of the SPA section

The offsets of the entries, of the icon and inside the XSRC stream are words of
the section. The section is read inside exactly when the structures that the
loop comes to are: its tests let wrapped sums pass, and have no part for the
table and for the stream.
-/

namespace XeBuild.Iso2svod

open CheckedBuffer ListRange Runs

set_option autoImplicit false

/-! ## The XSRC stream -/

def xsrcBody (spa : Bytes) (xrsc : Nat) : Nat := xrsc + u32 (0x10 + be32 spa (xrsc + 0xC))

structure XsrcDataInside (spa : Bytes) (bod : Nat) : Prop where
  sizes : bod + 8 ≤ spa.length
  stream : bod + 8 + be32 spa (bod + 4) ≤ spa.length

/-- What is looked at behind the magic; the stream only when there is memory for
what it holds. -/
structure XsrcBodyInside (mallocs : Nat → Bool) (spa : Bytes) (xrsc : Nat) : Prop where
  header : xrsc + 0x10 ≤ spa.length
  size : xsrcBody spa xrsc + 4 ≤ spa.length
  data : mallocs (be32 spa (xsrcBody spa xrsc)) = true → XsrcDataInside spa (xsrcBody spa xrsc)

structure XsrcInside (mallocs : Nat → Bool) (spa : Bytes) (xrsc : Nat) : Prop where
  magic : xrsc + 4 ≤ spa.length
  body : be32 spa xrsc = XSRC_MAGIC → XsrcBodyInside mallocs spa xrsc

section Xsrc

variable {Strings : Type} {env : SpaEnv Strings} {spa : Bytes} {xrsc : Nat} {strings : Strings}

theorem xsrc_returns_iff :
    Returns (parseStringsXrsc env spa xrsc strings) ↔ XsrcInside env.mallocs spa xrsc := by
  rw [parseStringsXrsc, returns_be32_bind_iff]
  by_cases magic : be32 spa xrsc = XSRC_MAGIC
  · rw [if_neg (not_not.mpr magic), returns_be32_bind_iff]
    have body : xrsc + u32 (0x10 + be32 spa (xrsc + 0xC)) = xsrcBody spa xrsc := rfl
    simp only [body]
    rw [returns_be32_bind_iff]
    by_cases given : env.mallocs (be32 spa (xsrcBody spa xrsc)) = true
    · rw [if_pos given, returns_be32_bind_iff, returns_load_bind_iff]
      constructor
      · intro steps
        rcases steps with ⟨first, header, size, sizes, stream, _⟩
        exact ⟨first, fun _ => ⟨by omega, size, fun _ => ⟨by omega, stream⟩⟩⟩
      · intro inside
        have behind := inside.body magic
        have data := behind.data given
        have sizes := data.sizes
        refine ⟨inside.magic, behind.header, behind.size, by omega, data.stream, ?_⟩
        cases env.unpackGzipStreamData _ _ with
        | none => exact returns_ok _
        | some decompBuf => exact returns_ok _
    · rw [if_neg given]
      constructor
      · intro steps
        rcases steps with ⟨first, header, size, _⟩
        exact ⟨first, fun _ => ⟨by omega, size, fun holds => absurd holds given⟩⟩
      · intro inside
        have behind := inside.body magic
        exact ⟨inside.magic, behind.header, behind.size, returns_ok _⟩
  · rw [if_pos magic]
    constructor
    · intro steps
      exact ⟨steps.1, fun holds => absurd holds magic⟩
    · intro inside
      exact ⟨inside.magic, returns_ok _⟩

end Xsrc

/-! ## Entries -/

def dataStart (baseOff : Nat) (ent : XbdfEntry) : Nat := u32 (ent.offset + baseOff)

def SpaRejects (spa : Bytes) (baseOff : Nat) (ent : XbdfEntry) : Prop :=
  spa.length < u32 (ent.offset + baseOff + ent.len) ∨ (ent.isIcon = true ∧ 0x3D00 < ent.len)

structure SpaDataInside (mallocs : Nat → Bool) (spa : Bytes) (baseOff : Nat) (ent : XbdfEntry) :
    Prop where
  icon : ent.isIcon = true → dataStart baseOff ent + ent.len ≤ spa.length
  xsrc : ent.isXsrc = true → XsrcInside mallocs spa (dataStart baseOff ent)

def spaEntryAt (spa : Bytes) (currOff : Nat) : XbdfEntry := getEntryInfo (slice spa currOff 0x12)

structure SpaEntryInside (mallocs : Nat → Bool) (spa : Bytes) (baseOff currOff : Nat) : Prop where
  entry : currOff + 0x12 ≤ spa.length
  data : ¬ SpaRejects spa baseOff (spaEntryAt spa currOff) →
    SpaDataInside mallocs spa baseOff (spaEntryAt spa currOff)

def spaEntryOffset (currOff : Nat) : Nat → Nat
  | 0 => currOff
  | index + 1 => spaEntryOffset (u32 (currOff + 0x12)) index

section Entries

variable {Strings : Type} {env : SpaEnv Strings} {spa : Bytes} {baseOff currOff start : Nat}
variable {s : SpaRun Strings} {ent : XbdfEntry}

theorem not_icon_of_xsrc (xsrc : ent.isXsrc = true) : ent.isIcon = false := by
  rw [XbdfEntry.isXsrc, Bool.and_eq_true, beq_iff_eq, beq_iff_eq] at xsrc
  rw [XbdfEntry.isIcon, xsrc.1]
  rfl

theorem copy_icon_returns_iff {len : Nat} (fits : len ≤ 0x3D00) :
    Returns (copyIcon spa start len s) ↔ start + len ≤ spa.length := by
  rw [copyIcon, returns_load_bind_iff]
  constructor
  · intro steps
    exact steps.1
  · intro inside
    have size : (slice spa start len).length ≤ 0x3D00 := by
      rw [slice_length_of_le inside]
      exact fits
    refine ⟨inside, ?_⟩
    rw [Thumbnail.copy, dif_pos size, ok_bind, Thumbnail.copy, dif_pos size, ok_bind]
    exact returns_ok _

theorem add_strings_returns_iff :
    Returns (addStrings env spa start s) ↔ XsrcInside env.mallocs spa start := by
  rw [addStrings, returns_bind_iff, xsrc_returns_iff]
  constructor
  · intro steps
    exact steps.1
  · intro inside
    exact ⟨inside, fun parsed _ => returns_ok _⟩

def useEntry (env : SpaEnv Strings) (spa : Bytes) (baseOff : Nat) (ent : XbdfEntry)
    (s : SpaRun Strings) : Except Fault (SpaRun Strings) :=
  if ent.isIcon then copyIcon spa (dataStart baseOff ent) ent.len s
  else if ent.isXsrc then addStrings env spa (dataStart baseOff ent) s
  else .ok s

theorem take_entry_rejected (rejected : SpaRejects spa baseOff ent) :
    takeEntry env spa baseOff ent s = .ok (false, s) := by
  rw [takeEntry]
  by_cases behind : spa.length < u32 (ent.offset + baseOff + ent.len)
  · rw [if_pos behind]
  · rcases rejected with past | large
    · exact absurd past behind
    · rw [if_neg behind, if_pos large.1, if_neg (Nat.not_le.mpr large.2)]

theorem kept_icon_fits (kept : ¬ SpaRejects spa baseOff ent) (icon : ent.isIcon = true) :
    ent.len ≤ 0x3D00 := by
  apply Nat.le_of_not_lt
  intro large
  exact kept (Or.inr ⟨icon, large⟩)

theorem take_entry_kept (kept : ¬ SpaRejects spa baseOff ent) :
    takeEntry env spa baseOff ent s =
      (useEntry env spa baseOff ent s >>= fun s => .ok (true, s)) := by
  have behind : ¬ spa.length < u32 (ent.offset + baseOff + ent.len) := by
    intro past
    exact kept (Or.inl past)
  rw [takeEntry, if_neg behind, useEntry]
  by_cases icon : ent.isIcon = true
  · rw [if_pos icon, if_pos icon, if_pos (kept_icon_fits kept icon)]
    rfl
  · rw [if_neg icon, if_neg icon]
    by_cases xsrc : ent.isXsrc = true
    · rw [if_pos xsrc, if_pos xsrc]
      rfl
    · rw [if_neg xsrc, if_neg xsrc]
      rfl

theorem use_entry_returns_iff (kept : ¬ SpaRejects spa baseOff ent) :
    Returns (useEntry env spa baseOff ent s) ↔ SpaDataInside env.mallocs spa baseOff ent := by
  rw [useEntry]
  by_cases icon : ent.isIcon = true
  · rw [if_pos icon, copy_icon_returns_iff (kept_icon_fits kept icon)]
    constructor
    · intro copied
      refine ⟨fun _ => copied, ?_⟩
      intro xsrc
      rw [not_icon_of_xsrc xsrc] at icon
      cases icon
    · intro inside
      exact inside.icon icon
  · rw [if_neg icon]
    by_cases xsrc : ent.isXsrc = true
    · rw [if_pos xsrc, add_strings_returns_iff]
      constructor
      · intro parsed
        exact ⟨fun holds => absurd holds icon, fun _ => parsed⟩
      · intro inside
        exact inside.xsrc xsrc
    · rw [if_neg xsrc]
      constructor
      · intro _
        exact ⟨fun holds => absurd holds icon, fun holds => absurd holds xsrc⟩
      · intro _
        exact returns_ok _

theorem take_entry_returns_iff :
    Returns (takeEntry env spa baseOff ent s) ↔
      (¬ SpaRejects spa baseOff ent → SpaDataInside env.mallocs spa baseOff ent) := by
  by_cases rejected : SpaRejects spa baseOff ent
  · rw [take_entry_rejected rejected]
    constructor
    · intro _ kept
      exact absurd rejected kept
    · intro _
      exact returns_ok _
  · rw [take_entry_kept rejected, returns_bind_iff, use_entry_returns_iff rejected]
    constructor
    · intro steps _
      exact steps.1
    · intro inside
      exact ⟨inside rejected, fun _ _ => returns_ok _⟩

/-- An entry that the function goes on behind is one that is not rejected. -/
theorem take_entry_going {s' : SpaRun Strings} {going : Bool}
    (run : takeEntry env spa baseOff ent s = .ok (going, s')) :
    going = true ↔ ¬ SpaRejects spa baseOff ent := by
  by_cases rejected : SpaRejects spa baseOff ent
  · rw [take_entry_rejected rejected] at run
    cases run
    simp [rejected]
  · rw [take_entry_kept rejected] at run
    rcases bind_ok_iff.mp run with ⟨_, _, result⟩
    cases result
    simp [rejected]

/-- The loop reads inside exactly when every entry that it comes to is inside. -/
theorem spa_entries_returns_iff {rounds : Nat} :
    Returns (spaEntries env spa baseOff rounds currOff s) ↔
      ∀ index < rounds,
        (∀ earlier < index,
          ¬ SpaRejects spa baseOff (spaEntryAt spa (spaEntryOffset currOff earlier))) →
        SpaEntryInside env.mallocs spa baseOff (spaEntryOffset currOff index) := by
  induction rounds generalizing currOff s with
  | zero =>
      constructor
      · intro _ index counted
        omega
      · intro _
        exact returns_ok _
  | succ rounds ih =>
      rw [spaEntries, returns_map_load_bind_iff]
      change currOff + 0x12 ≤ spa.length ∧ Returns (takeEntry env spa baseOff
        (spaEntryAt spa currOff) s >>= _) ↔ _
      rw [returns_bind_iff, take_entry_returns_iff]
      constructor
      · intro steps index counted reached
        rcases steps with ⟨entry, data, rest⟩
        cases index with
        | zero => exact ⟨entry, data⟩
        | succ index =>
            have kept : ¬ SpaRejects spa baseOff (spaEntryAt spa currOff) :=
              reached 0 (Nat.succ_pos index)
            rcases take_entry_returns_iff.mpr data with ⟨⟨going, next⟩, taken⟩
            have more := rest (going, next) taken
            have goes : going = true := (take_entry_going taken).mpr kept
            rw [goes] at more
            apply ih.mp more index (by omega)
            intro earlier sooner
            exact reached (earlier + 1) (by omega)
      · intro inside
        have first := inside 0 (Nat.succ_pos rounds) (by intro earlier sooner; omega)
        refine ⟨first.entry, first.data, ?_⟩
        intro value taken
        rcases value with ⟨going, next⟩
        cases going with
        | false => exact returns_ok _
        | true =>
            have kept := (take_entry_going taken).mp rfl
            apply ih.mpr
            intro index counted reached
            apply inside (index + 1) (by omega)
            intro earlier sooner
            cases earlier with
            | zero => exact kept
            | succ earlier => exact reached earlier (by omega)

end Entries

/-! ## The section -/

def spaBase (spa : Bytes) : Nat := u32 (be32 spa 8 * 18 + be32 spa 0x10 * 8 + 0x18)

structure SpaSectionInside (mallocs : Nat → Bool) (spa : Bytes) : Prop where
  magic : 4 ≤ spa.length
  header : be32 spa 0 = XDBF_MAGIC → 0x14 ≤ spa.length
  entries : be32 spa 0 = XDBF_MAGIC → spaBase spa ≤ spa.length →
    ∀ index < be32 spa 0xC,
      (∀ earlier < index,
        ¬ SpaRejects spa (spaBase spa) (spaEntryAt spa (spaEntryOffset 0x18 earlier))) →
      SpaEntryInside mallocs spa (spaBase spa) (spaEntryOffset 0x18 index)

/-- No access leaves the section, whatever the fields are, exactly when the
structures that the function comes to are inside. -/
theorem spa_reads_inside_iff {Strings : Type} (env : SpaEnv Strings) (spa : Bytes)
    (info : TitleInfo Strings) :
    (∃ result, getSpaInfo env spa info = .ok result) ↔ SpaSectionInside env.mallocs spa := by
  change Returns (getSpaInfo env spa info) ↔ SpaSectionInside env.mallocs spa
  rw [getSpaInfo, returns_be32_bind_iff]
  by_cases magic : be32 spa 0 = XDBF_MAGIC
  · rw [if_neg (not_not.mpr magic), returns_be32_bind_iff, returns_be32_bind_iff]
    have base : u32 (be32 spa 8 * 18 + be32 spa 0x10 * 8 + 0x18) = spaBase spa := rfl
    simp only [base]
    by_cases past : spa.length < spaBase spa
    · rw [if_pos past]
      constructor
      · intro steps
        refine ⟨by omega, fun _ => by omega, ?_⟩
        intro _ inside
        omega
      · intro inside
        have header := inside.header magic
        exact ⟨by omega, by omega, by omega, returns_ok _⟩
    · rw [if_neg past, returns_be32_bind_iff, returns_bind_iff, spa_entries_returns_iff]
      constructor
      · intro steps
        rcases steps with ⟨first, _, header, _, entries, _⟩
        exact ⟨by omega, fun _ => by omega, fun _ _ => entries⟩
      · intro inside
        have header := inside.header magic
        refine ⟨by omega, by omega, by omega, by omega, ?_, fun _ _ => returns_ok _⟩
        exact inside.entries magic (Nat.le_of_not_lt past)
  · rw [if_pos magic]
    constructor
    · intro steps
      exact ⟨by omega, fun holds => absurd holds magic, fun holds => absurd holds magic⟩
    · intro inside
      have first := inside.magic
      exact ⟨by omega, returns_ok _⟩

/-! ## Sections that are left -/

def plainSpaEnv : SpaEnv Unit where
  mallocs _ := true
  unpackGzipStreamData _ _ := none
  parseStringsXrXml _ strings := (false, strings)

theorem blank_thumbnail_full : (zeros 0x3D00).length = 0x3D00 := zeros_length _

def blankThumbnail : Thumbnail := ⟨zeros 0x3D00, blank_thumbnail_full⟩

def blankInfo : TitleInfo Unit := ⟨blankThumbnail, blankThumbnail, 0, 0, ()⟩

def headerOnlySpa : Bytes := [0x58, 0x44, 0x42, 0x46] ++ zeros 11 ++ [1] ++ zeros 8

def oneEntrySpa (entry : Bytes) : Bytes :=
  [0x58, 0x44, 0x42, 0x46] ++ zeros 7 ++ [1] ++ zeros 3 ++ [1] ++ zeros 8 ++ entry

/-- An icon of 0x100 bytes at 0xFFFFFF00, so that its end wraps to zero. -/
def wrappedIconSpa : Bytes :=
  oneEntrySpa ([0, 2] ++ zeros 6 ++ [0x80, 0, 0xFF, 0xFF, 0xFE, 0xD6, 0, 0, 1, 0])

def emptyXsrcSpa : Bytes :=
  oneEntrySpa ([0, 1] ++ zeros 4 ++ [0x58, 0x53, 0x52, 0x43] ++ zeros 8)

theorem spa_faults :
    getSpaInfo plainSpaEnv headerOnlySpa blankInfo = .error (.load 0x18 0x12) ∧
      getSpaInfo plainSpaEnv wrappedIconSpa blankInfo = .error (.load 0xFFFFFF00 0x100) ∧
      getSpaInfo plainSpaEnv emptyXsrcSpa blankInfo = .error (.load 0x2A 4) := by
  refine ⟨?_, ?_, ?_⟩ <;> decide +kernel

theorem not_returned_of_fault {spa : Bytes} {offset size : Nat}
    (fault : getSpaInfo plainSpaEnv spa blankInfo = .error (.load offset size)) :
    ¬ ∃ result, getSpaInfo plainSpaEnv spa blankInfo = .ok result := by
  intro returned
  rcases returned with ⟨result, run⟩
  rw [fault] at run
  cases run

theorem spa_read_outside :
    (¬ ∃ result, getSpaInfo plainSpaEnv headerOnlySpa blankInfo = .ok result) ∧
      (¬ ∃ result, getSpaInfo plainSpaEnv wrappedIconSpa blankInfo = .ok result) ∧
      (¬ ∃ result, getSpaInfo plainSpaEnv emptyXsrcSpa blankInfo = .ok result) := by
  rcases spa_faults with ⟨headerOnly, wrappedIcon, emptyXsrc⟩
  exact ⟨not_returned_of_fault headerOnly, not_returned_of_fault wrappedIcon,
    not_returned_of_fault emptyXsrc⟩

end XeBuild.Iso2svod
