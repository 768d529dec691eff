import XeBuild.Iso2svod.XexInfo

/-!
# Accesses of the header parser

Which headers let `getXexInfo` stay in the file and in the output image. Each
function has its own condition on the bytes that it is called with, and returns
exactly under it; the conditions of the callers are put together from them.
-/

namespace XeBuild.Iso2svod

open CheckedBuffer ListRange Runs SearchLoop

set_option autoImplicit false

def le32 (data : Bytes) (pos : Nat) : Nat := getLe32 (slice data pos 4)

section Fields

variable {buf : Bytes} {offset : Nat} {Result : Type} {next : Nat → Except Fault Result}

theorem returns_be32_bind_iff :
    Returns (loadBe32 buf offset >>= next) ↔
      offset + 4 ≤ buf.length ∧ Returns (next (be32 buf offset)) := returns_map_load_bind_iff

theorem returns_le32_bind_iff :
    Returns (loadLe32 buf offset >>= next) ↔
      offset + 4 ≤ buf.length ∧ Returns (next (le32 buf offset)) := returns_map_load_bind_iff

theorem returns_be16_bind_iff :
    Returns (loadBe16 buf offset >>= next) ↔
      offset + 2 ≤ buf.length ∧ Returns (next (be16 buf offset)) := returns_map_load_bind_iff

end Fields

/-! ## The header directory -/

def keyAt (buf : Bytes) (i : Nat) : Nat := be32 buf (0x18 + 8 * i)

def valueAt (buf : Bytes) (i : Nat) : Nat := be32 buf (0x18 + 8 * i + 4)

/-- The entries that the search comes to lie in the file. -/
def SearchInside (buf : Bytes) (field numEntries : Nat) : Prop :=
  ∀ i < intRounds numEntries, (∀ j < i, keyAt buf j ≠ field) → 0x18 + 8 * i + 4 ≤ buf.length

/-- The search comes to the entry, and stops there. -/
structure FirstKey (buf : Bytes) (field numEntries i : Nat) : Prop where
  counted : i < intRounds numEntries
  inside : 0x18 + 8 * i + 4 ≤ buf.length
  key : keyAt buf i = field
  before : ∀ j < i, keyAt buf j ≠ field

section Directory

variable {buf : Bytes} {field numEntries i : Nat}

theorem probe_returns_iff :
    Returns (headerProbe buf field i) ↔ 0x18 + 8 * i + 4 ≤ buf.length := by
  rw [headerProbe, returns_be32_bind_iff]
  exact and_iff_left (returns_ok _)

theorem probe_inside (inside : 0x18 + 8 * i + 4 ≤ buf.length) :
    headerProbe buf field i = .ok (if keyAt buf i = field then some (0x18 + 8 * i) else none) := by
  rw [headerProbe, load_be32_inside inside]
  rfl

theorem header_probed (buf : Bytes) (field : Nat) :
    Probed (headerProbe buf field) (fun i => 0x18 + 8 * i + 4 ≤ buf.length)
      (fun i => keyAt buf i = field) := by
  constructor
  · intro i
    exact probe_returns_iff
  · intro i
    constructor
    · intro run
      have inside := probe_returns_iff.mp ⟨_, run⟩
      refine ⟨inside, ?_⟩
      intro same
      rw [probe_inside inside, if_pos same] at run
      cases run
    · intro both
      rw [probe_inside both.1, if_neg both.2]

theorem header_field_returns_iff :
    Returns (getXexHeaderField buf field numEntries) ↔ SearchInside buf field numEntries :=
  probed_returns_iff (header_probed buf field)

theorem header_field_some_iff {curBuf : Nat} :
    getXexHeaderField buf field numEntries = .ok (some curBuf) ↔
      ∃ i, FirstKey buf field numEntries i ∧ curBuf = 0x18 + 8 * i := by
  rw [getXexHeaderField, probed_some_iff (header_probed buf field)]
  constructor
  · intro hit
    rcases hit with ⟨i, counted, before, got⟩
    have inside := probe_returns_iff.mp ⟨_, got⟩
    rw [probe_inside inside] at got
    have result := Except.ok.inj got
    split_ifs at result with key
    exact ⟨i, ⟨counted, inside, key, fun j sooner => (before j sooner).2⟩,
      (Option.some.inj result).symm⟩
  · intro hit
    rcases hit with ⟨i, ⟨counted, inside, key, before⟩, rfl⟩
    refine ⟨i, counted, ?_, ?_⟩
    · intro j sooner
      exact ⟨by omega, before j sooner⟩
    · rw [probe_inside inside, if_pos key]

/-- What a caller does with the entry decides, once the search is inside. -/
theorem returns_field_bind_iff {Result : Type} {next : Option Nat → Except Fault Result}
    (absent : Returns (next none)) :
    Returns (getXexHeaderField buf field numEntries >>= next) ↔
      SearchInside buf field numEntries ∧
        ∀ i, FirstKey buf field numEntries i → Returns (next (some (0x18 + 8 * i))) := by
  rw [returns_bind_iff, header_field_returns_iff]
  constructor
  · intro both
    refine ⟨both.1, ?_⟩
    intro i first
    exact both.2 _ (header_field_some_iff.mpr ⟨i, first, rfl⟩)
  · intro both
    refine ⟨both.1, ?_⟩
    intro result run
    cases result with
    | none => exact absent
    | some curBuf =>
        rcases header_field_some_iff.mp run with ⟨i, first, rfl⟩
        exact both.2 i first

end Directory

/-! ## `getXexExecInfo` -/

def IdAccepted (buf : Bytes) (i : Nat) : Prop :=
  valueAt buf i ≤ sub32 buf.length XEX_EXECUTION_ID_SIZE

structure ExecInside (buf : Bytes) : Prop where
  count : 0x18 ≤ buf.length
  search : SearchInside buf XEX_HEADER_EXECUTION_ID (bswap32 (le32 buf 0x14))
  value : ∀ i, FirstKey buf XEX_HEADER_EXECUTION_ID (bswap32 (le32 buf 0x14)) i →
    0x18 + 8 * i + 8 ≤ buf.length
  id : ∀ i, FirstKey buf XEX_HEADER_EXECUTION_ID (bswap32 (le32 buf 0x14)) i →
    IdAccepted buf i → valueAt buf i + XEX_EXECUTION_ID_SIZE ≤ buf.length

section ExecInfo

variable {buf : Bytes}

def execIdAt (buf : Bytes) (i : Nat) : Except Fault (Option Bytes) := do
  let tmp32 ← loadBe32 buf (0x18 + 8 * i + 4)
  if sub32 buf.length XEX_EXECUTION_ID_SIZE < tmp32 then return none
  else
    let pxid ← load buf tmp32 XEX_EXECUTION_ID_SIZE
    return some pxid

theorem exec_id_returns_iff {Result : Type} {next : Option Bytes → Except Fault Result}
    (absent : Returns (next none)) (i : Nat) :
    Returns (execIdAt buf i >>= next) ↔
      0x18 + 8 * i + 8 ≤ buf.length ∧ (IdAccepted buf i →
        valueAt buf i + XEX_EXECUTION_ID_SIZE ≤ buf.length ∧
          Returns (next (some (slice buf (valueAt buf i) XEX_EXECUTION_ID_SIZE)))) := by
  rw [execIdAt, bind_assoc, returns_be32_bind_iff]
  apply and_congr_right
  intro _
  by_cases accepted : IdAccepted buf i
  · have within : ¬ sub32 buf.length XEX_EXECUTION_ID_SIZE < be32 buf (0x18 + 8 * i + 4) :=
      Nat.not_lt.mpr accepted
    rw [if_neg within, bind_assoc, returns_load_bind_iff, forall_prop_of_true accepted]
    rfl
  · have beyond : sub32 buf.length XEX_EXECUTION_ID_SIZE < be32 buf (0x18 + 8 * i + 4) :=
      Nat.lt_of_not_le accepted
    rw [if_pos beyond]
    exact iff_of_true absent fun holds => absurd holds accepted

theorem returns_exec_bind_iff {Result : Type} {next : Option Bytes → Except Fault Result}
    (absent : Returns (next none)) :
    Returns (getXexExecInfo buf >>= next) ↔
      ExecInside buf ∧ ∀ i, FirstKey buf XEX_HEADER_EXECUTION_ID (bswap32 (le32 buf 0x14)) i →
        IdAccepted buf i →
          Returns (next (some (slice buf (valueAt buf i) XEX_EXECUTION_ID_SIZE))) := by
  have entry := @exec_id_returns_iff buf _ _ absent
  rw [getXexExecInfo, execInfoField, bind_assoc, bind_assoc, returns_le32_bind_iff,
    returns_field_bind_iff]
  · constructor
    · intro steps
      rcases steps with ⟨count, search, entries⟩
      have each := fun i first => (entry i).mp (entries i first)
      refine ⟨⟨count, search, fun i first => (each i first).1, ?_⟩, ?_⟩
      · intro i first accepted
        exact ((each i first).2 accepted).1
      · intro i first accepted
        exact ((each i first).2 accepted).2
    · intro both
      rcases both with ⟨inside, rest⟩
      refine ⟨inside.count, inside.search, ?_⟩
      intro i first
      apply (entry i).mpr
      refine ⟨inside.value i first, ?_⟩
      intro accepted
      exact ⟨inside.id i first accepted, rest i first accepted⟩
  · exact absent

end ExecInfo

/-! ## `xexGetSpaOffset` -/

/-- The strings go on behind character `k` without a difference. -/
def SameChar (name buf : Bytes) (offset k : Nat) : Prop :=
  toLower (name.getD k 0) = toLower (buf.getD (offset + k) 0) ∧ toLower (name.getD k 0) ≠ 0

/-- The bytes that `strnicmp` compares, up to the first difference or the end of
the strings, lie in the file. -/
def NameInside (name buf : Bytes) (offset : Nat) : Prop :=
  ∀ k < 8, (∀ j < k, SameChar name buf offset j) → offset + k + 1 ≤ buf.length

/-- There is no difference up to the end of the strings, or in eight bytes. -/
def SameName (name buf : Bytes) (offset : Nat) : Prop :=
  ∀ k < 8, (∀ j < k, SameChar name buf offset j) →
    toLower (name.getD k 0) = toLower (buf.getD (offset + k) 0)

def sectionCount (buf : Bytes) (xsect : Nat) : Nat := sub32 (be32 buf xsect) 4 / 0x10

structure TableInside (name buf : Bytes) (xsect : Nat) : Prop where
  size : xsect + 4 ≤ buf.length
  names : ∀ i < sectionCount buf xsect, (∀ j < i, ¬ SameName name buf (sectionAt xsect j)) →
    NameInside name buf (sectionAt xsect i)
  found : ∀ i < sectionCount buf xsect, (∀ j < i, ¬ SameName name buf (sectionAt xsect j)) →
    SameName name buf (sectionAt xsect i) → sectionAt xsect i + 0x10 ≤ buf.length

structure SectionsInside (name buf : Bytes) : Prop where
  search : SearchInside buf XEX_HEADER_SECTION_TABLE (le32 buf 0x14)
  value : ∀ i, FirstKey buf XEX_HEADER_SECTION_TABLE (le32 buf 0x14) i →
    0x18 + 8 * i + 8 ≤ buf.length
  table : ∀ i, FirstKey buf XEX_HEADER_SECTION_TABLE (le32 buf 0x14) i →
    TableInside name buf (valueAt buf i)

section SpaOffset

variable {name buf : Bytes} {offset xsect : Nat}

theorem char_returns_iff {index : Nat} :
    Returns (charProbe name buf offset index) ↔ offset + index + 1 ≤ buf.length := by
  rw [charProbe, returns_load_bind_iff]
  exact and_iff_left (returns_ok _)

theorem char_inside {index : Nat} (inside : offset + index + 1 ≤ buf.length) :
    charProbe name buf offset index = .ok
      (if toLower (name.getD index 0) ≠ toLower (buf.getD (offset + index) 0) then some false
        else if toLower (name.getD index 0) = 0 then some true else none) := by
  have char : (slice buf (offset + index) 1).getD 0 0 = buf.getD (offset + index) 0 := by
    rw [slice, List.getD_eq_getElem?_getD, List.getElem?_take_of_lt Nat.zero_lt_one,
      List.getElem?_drop, List.getD_eq_getElem?_getD]
    rfl
  rw [charProbe, load_inside inside, ok_bind, char]
  rfl

theorem char_probed (name buf : Bytes) (offset : Nat) :
    Probed (charProbe name buf offset) (fun k => offset + k + 1 ≤ buf.length)
      (fun k => ¬ SameChar name buf offset k) := by
  constructor
  · intro k
    exact char_returns_iff
  · intro k
    rw [not_not, SameChar]
    constructor
    · intro run
      have inside := char_returns_iff.mp ⟨_, run⟩
      rw [char_inside inside] at run
      have result := Except.ok.inj run
      split_ifs at result with differs ends
      exact ⟨inside, not_not.mp differs, ends⟩
    · intro both
      rcases both with ⟨inside, same, going⟩
      rw [char_inside inside, if_neg (not_not.mpr same), if_neg going]

theorem strnicmp_returns_iff :
    Returns (strnicmp8 name buf offset) ↔ NameInside name buf offset := by
  rw [strnicmp8, returns_bind_iff, probed_returns_iff (char_probed name buf offset)]
  simp only [not_not]
  exact and_iff_left fun stop _ => returns_ok _

theorem strnicmp_false_iff :
    strnicmp8 name buf offset = .ok false ↔
      NameInside name buf offset ∧ ¬ SameName name buf offset := by
  have stops : strnicmp8 name buf offset = .ok false ↔
      search (charProbe name buf offset) 8 0 = .ok (some false) := by
    rw [strnicmp8]
    cases search (charProbe name buf offset) 8 0 with
    | error fault => simp [bind, Except.bind]
    | ok stop => cases stop <;> simp [bind, Except.bind, pure, Except.pure]
  constructor
  · intro differs
    refine ⟨strnicmp_returns_iff.mp ⟨false, differs⟩, ?_⟩
    rcases (probed_some_iff (char_probed name buf offset)).mp (stops.mp differs) with
      ⟨k, counted, before, got⟩
    rw [char_inside (char_returns_iff.mp ⟨_, got⟩)] at got
    have result := Except.ok.inj got
    split_ifs at result with unequal
    · intro same
      exact unequal (same k counted fun j sooner => not_not.mp (before j sooner).2)
    · cases result
  · intro both
    rcases both with ⟨inside, differs⟩
    rw [SameName] at differs
    push Not at differs
    rcases differs with ⟨k, counted, before, unequal⟩
    have here : ∀ j ≤ k, offset + j + 1 ≤ buf.length := by
      intro j upTo
      exact inside j (by omega) fun i sooner => before i (by omega)
    apply stops.mpr
    rw [probed_some_iff (char_probed name buf offset)]
    refine ⟨k, counted, ?_, ?_⟩
    · intro j sooner
      exact ⟨here j (by omega), not_not.mpr (before j sooner)⟩
    · rw [char_inside (here k (Nat.le_refl k)), if_pos unequal]

theorem strnicmp_true_iff :
    strnicmp8 name buf offset = .ok true ↔
      NameInside name buf offset ∧ SameName name buf offset := by
  constructor
  · intro same
    have inside := strnicmp_returns_iff.mp ⟨true, same⟩
    refine ⟨inside, ?_⟩
    by_contra differs
    have result := strnicmp_false_iff.mpr ⟨inside, differs⟩
    rw [same] at result
    cases result
  · intro both
    rcases strnicmp_returns_iff.mpr both.1 with ⟨result, run⟩
    cases result with
    | true => exact run
    | false => exact absurd both.2 (strnicmp_false_iff.mp run).2

theorem section_returns_iff {i : Nat} :
    Returns (sectionProbe name buf xsect i) ↔ NameInside name buf (sectionAt xsect i) := by
  rw [sectionProbe, returns_bind_iff, strnicmp_returns_iff]
  exact and_iff_left fun same _ => returns_ok _

theorem section_some_iff {i found : Nat} :
    sectionProbe name buf xsect i = .ok (some found) ↔
      (NameInside name buf (sectionAt xsect i) ∧ SameName name buf (sectionAt xsect i)) ∧
        found = sectionAt xsect i := by
  rw [← strnicmp_true_iff, sectionProbe]
  cases strnicmp8 name buf (sectionAt xsect i) with
  | error fault => simp [bind, Except.bind]
  | ok same => cases same <;> simp [bind, Except.bind, pure, Except.pure, eq_comm]

theorem section_probed (name buf : Bytes) (xsect : Nat) :
    Probed (sectionProbe name buf xsect) (fun i => NameInside name buf (sectionAt xsect i))
      (fun i => SameName name buf (sectionAt xsect i)) := by
  constructor
  · intro i
    exact section_returns_iff
  · intro i
    rw [← strnicmp_false_iff, sectionProbe]
    cases strnicmp8 name buf (sectionAt xsect i) with
    | error fault => simp [bind, Except.bind]
    | ok same => cases same <;> simp [bind, Except.bind, pure, Except.pure]

theorem returns_section_bind_iff {Result : Type} {next : Option Nat → Except Fault Result}
    (absent : Returns (next none))
    (present : ∀ found, Returns (next (some found)) ↔ found + 0x10 ≤ buf.length) :
    Returns (sectionSearch buf name xsect >>= next) ↔ TableInside name buf xsect := by
  rw [sectionSearch, bind_assoc, returns_be32_bind_iff, returns_bind_iff,
    probed_returns_iff (section_probed name buf xsect)]
  constructor
  · intro steps
    rcases steps with ⟨size, names, rest⟩
    refine ⟨size, names, ?_⟩
    intro i counted before same
    apply (present _).mp
    apply rest
    rw [probed_some_iff (section_probed name buf xsect)]
    refine ⟨i, counted, ?_, section_some_iff.mpr ⟨⟨names i counted before, same⟩, rfl⟩⟩
    intro j sooner
    refine ⟨names j (Nat.lt_trans sooner counted) ?_, before j sooner⟩
    intro earlier less
    exact before earlier (Nat.lt_trans less sooner)
  · intro inside
    refine ⟨inside.size, inside.names, ?_⟩
    intro result run
    cases result with
    | none => exact absent
    | some found =>
        rcases (probed_some_iff (section_probed name buf xsect)).mp run with
          ⟨i, counted, before, got⟩
        rcases section_some_iff.mp got with ⟨⟨_, same⟩, rfl⟩
        apply (present _).mpr
        exact inside.found i counted (fun j sooner => (before j sooner).2) same

theorem spa_offset_returns_iff (count : 0x18 ≤ buf.length) :
    Returns (xexGetSpaOffset buf name) ↔ SectionsInside name buf := by
  have present : ∀ found, Returns (do
        let spaLen ← loadBe32 buf (found + 0xC)
        let address ← loadBe32 buf (found + 8)
        return (address, spaLen)) ↔ found + 0x10 ≤ buf.length := by
    intro found
    have last : Returns (pure (be32 buf (found + 8), be32 buf (found + 0xC)) :
        Except Fault (Nat × Nat)) := returns_ok _
    rw [returns_be32_bind_iff, returns_be32_bind_iff, and_iff_left last]
    omega
  rw [xexGetSpaOffset, sectionTableField, bind_assoc, returns_le32_bind_iff,
    returns_field_bind_iff, and_iff_right count]
  · constructor
    · intro steps
      constructor
      · exact steps.1
      · intro i first
        exact (returns_be32_bind_iff.mp (steps.2 i first)).1
      · intro i first
        apply (returns_section_bind_iff _ present).mp (returns_be32_bind_iff.mp (steps.2 i first)).2
        exact returns_ok _
    · intro inside
      refine ⟨inside.search, ?_⟩
      intro i first
      apply returns_be32_bind_iff.mpr
      refine ⟨inside.value i first, ?_⟩
      apply (returns_section_bind_iff _ present).mpr (inside.table i first)
      exact returns_ok _
  · exact returns_ok _

end SpaOffset

end XeBuild.Iso2svod
