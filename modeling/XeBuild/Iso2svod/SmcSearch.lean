import XeBuild.Bytes
import XeBuild.Lib.PatternSearch

/-!
# The search for bytes in an SMC image

`findInst`, `findInstExists` and `checkSmcHacked` of `util.c`. The counters and
the lengths are of type `int`; an addition that leaves it has no defined
outcome, and neither has a read outside of a buffer. No caller passes a negative
length.
-/

namespace XeBuild.Iso2svod

open Runs SearchLoop PatternSearch

set_option autoImplicit false

def INT_MAX : Nat := 0x7FFFFFFF

inductive SearchFault
  | outside (index : Nat)
  | overflow
  | roundsSpent
  deriving DecidableEq, Repr

def byteAt (buffer : Bytes) (index : Nat) : Except SearchFault Byte :=
  match buffer[index]? with
  | some byte => .ok byte
  | none => .error (.outside index)

def addInt (left right : Nat) : Except SearchFault Nat :=
  if left + right ≤ INT_MAX then .ok (left + right) else .error .overflow

/-- The loop over `j`, from its head on, and where `j` ends. A byte that differs
sets `j` behind the pattern. -/
def compareBytes (data fbytes : Bytes) (i fblen : Nat) : Nat → Nat → Except SearchFault Nat
  | 0, _ => .error .roundsSpent
  | rounds + 1, j =>
      if j < fblen then do
        let left ← byteAt data (i + j)
        let right ← byteAt fbytes j
        let j ← if left ≠ right then addInt fblen 1 else .ok j
        let j ← addInt j 1
        compareBytes data fbytes i fblen rounds j
      else .ok j

def instAt (data fbytes : Bytes) (fblen i : Nat) : Except SearchFault (Option Nat) := do
  let left ← byteAt data i
  let right ← byteAt fbytes 0
  if left = right then do
    let j ← compareBytes data fbytes i fblen (fblen + 1) 0
    if j = fblen then return some i else return none
  else return none

/-- The offset of what is returned; `none` for `NULL`. -/
def findInst (data : Bytes) (dataLen : Nat) (fbytes : Bytes) (fblen : Nat) :
    Except SearchFault (Option Nat) :=
  search (instAt data fbytes fblen) (dataLen - fblen) 0

def findInstExists (data : Bytes) (dataLen : Nat) (fbytes : Bytes) (fblen : Nat) :
    Except SearchFault Bool := do
  let found ← findInst data dataLen fbytes fblen
  return found.isSome

def cygBytes : Bytes := [0x78, 0xBA]

def jtagBytes : Bytes := [0xD0, 0x00, 0x00, 0x1B]

def checkSmcHacked (smcData : Bytes) (len : Nat) : Except SearchFault Bool := do
  let cyg ← findInstExists smcData len cygBytes 2
  let jtag ← findInstExists smcData len jtagBytes 4
  return cyg || jtag

/-! ## One position -/

section Position

variable {data pattern : Bytes} {i j rounds : Nat}

theorem byte_at_inside {buffer : Bytes} {index : Nat} (inside : index < buffer.length) :
    byteAt buffer index = .ok buffer[index] := by
  rw [byteAt, List.getElem?_eq_getElem inside]

theorem add_int_fits {left right : Nat} (fits : left + right ≤ INT_MAX) :
    addInt left right = .ok (left + right) := if_pos fits

theorem add_int_overflows {left right : Nat} (large : ¬ left + right ≤ INT_MAX) :
    addInt left right = .error .overflow := if_neg large

theorem compare_equal (room : i + pattern.length ≤ data.length) (int : pattern.length ≤ INT_MAX)
    (inside : j < pattern.length) (equal : data[i + j]? = pattern[j]?) :
    compareBytes data pattern i pattern.length (rounds + 1) j =
      compareBytes data pattern i pattern.length rounds (j + 1) := by
  rw [List.getElem?_eq_getElem (by omega), List.getElem?_eq_getElem inside] at equal
  have bytes : ¬ data[i + j] ≠ pattern[j] := not_not.mpr (Option.some.inj equal)
  have next : addInt j 1 = .ok (j + 1) := add_int_fits (by omega)
  rw [compareBytes, if_pos inside, byte_at_inside (by omega), ok_bind, byte_at_inside inside,
    ok_bind, if_neg bytes, ok_bind]
  dsimp only
  rw [next, ok_bind]

/-- What a byte that differs leaves: `j` behind the pattern, if it is an `int`. -/
def overshot (fblen : Nat) : Except SearchFault Nat :=
  if fblen + 2 ≤ INT_MAX then .ok (fblen + 2) else .error .overflow

theorem compare_differs (room : i + pattern.length ≤ data.length) (inside : j < pattern.length)
    (differs : data[i + j]? ≠ pattern[j]?) :
    compareBytes data pattern i pattern.length (rounds + 2) j = overshot pattern.length := by
  rw [List.getElem?_eq_getElem (by omega), List.getElem?_eq_getElem inside] at differs
  have bytes : data[i + j] ≠ pattern[j] := fun same => differs (congrArg some same)
  rw [compareBytes, if_pos inside, byte_at_inside (by omega), ok_bind, byte_at_inside inside,
    ok_bind, if_pos bytes, overshot]
  by_cases fits : pattern.length + 2 ≤ INT_MAX
  · have second : addInt (pattern.length + 1) 1 = .ok (pattern.length + 2) := add_int_fits fits
    rw [if_pos fits, add_int_fits (by omega), ok_bind]
    dsimp only
    rw [second, ok_bind, compareBytes, if_neg (by omega)]
  · rw [if_neg fits]
    by_cases first : pattern.length + 1 ≤ INT_MAX
    · have second : addInt (pattern.length + 1) 1 = .error .overflow := add_int_overflows fits
      rw [add_int_fits first, ok_bind]
      dsimp only
      rw [second]
      rfl
    · rw [add_int_overflows first]
      rfl

theorem compare_whole (room : i + pattern.length ≤ data.length) (int : pattern.length ≤ INT_MAX)
    (equal : ∀ index < pattern.length, data[i + index]? = pattern[index]?)
    (bound : j ≤ pattern.length) (enough : pattern.length < j + rounds) :
    compareBytes data pattern i pattern.length rounds j = .ok pattern.length := by
  induction rounds generalizing j with
  | zero => omega
  | succ rounds ih =>
      rcases Nat.eq_or_lt_of_le bound with rfl | inside
      · rw [compareBytes, if_neg (Nat.lt_irrefl _)]
      · rw [compare_equal room int inside (equal j inside)]
        exact ih inside (by omega)

theorem compare_part (room : i + pattern.length ≤ data.length) (int : pattern.length ≤ INT_MAX)
    {index : Nat} (inside : index < pattern.length) (differs : data[i + index]? ≠ pattern[index]?)
    (bound : j ≤ index) (enough : pattern.length < j + rounds) :
    compareBytes data pattern i pattern.length rounds j = overshot pattern.length := by
  induction rounds generalizing j with
  | zero => omega
  | succ rounds ih =>
      by_cases equal : data[i + j]? = pattern[j]?
      · have later : j ≠ index := by
          rintro rfl
          exact differs equal
        rw [compare_equal room int (by omega) equal]
        exact ih (by omega) (by omega)
      · rcases Nat.exists_eq_add_of_le' (by omega : 1 ≤ rounds) with ⟨rounds, rfl⟩
        exact compare_differs room (by omega) equal

theorem inst_at_eq (nonempty : 1 ≤ pattern.length) (room : i + pattern.length ≤ data.length) :
    instAt data pattern pattern.length i =
      if data[i]? = pattern[0]? then
        compareBytes data pattern i pattern.length (pattern.length + 1) 0 >>= fun j =>
          .ok (if j = pattern.length then some i else none)
      else .ok none := by
  have outer : i < data.length := by omega
  rw [instAt, byte_at_inside outer, ok_bind, byte_at_inside nonempty, ok_bind,
    List.getElem?_eq_getElem outer, List.getElem?_eq_getElem nonempty]
  by_cases first : data[i] = pattern[0]
  · rw [if_pos first, if_pos (congrArg some first)]
    congr 1
    funext j
    by_cases ended : j = pattern.length
    · rw [if_pos ended, if_pos ended]
      rfl
    · rw [if_neg ended, if_neg ended]
      rfl
  · rw [if_neg first, if_neg (fun same => first (Option.some.inj same))]
    rfl

theorem inst_at_occurs (nonempty : 1 ≤ pattern.length) (room : i + pattern.length ≤ data.length)
    (int : pattern.length ≤ INT_MAX) (occurs : OccursAt pattern data i) :
    instAt data pattern pattern.length i = .ok (some i) := by
  have equal := occurs_iff_items.mp occurs
  have first : data[i]? = pattern[0]? := equal 0 nonempty
  rw [inst_at_eq nonempty room, if_pos first,
    compare_whole room int equal (Nat.zero_le _) (by omega), ok_bind, if_pos rfl]

theorem inst_at_misses (nonempty : 1 ≤ pattern.length) (room : i + pattern.length ≤ data.length)
    (int : pattern.length ≤ INT_MAX) (misses : ¬ OccursAt pattern data i) :
    instAt data pattern pattern.length i =
      if data[i]? = pattern[0]? ∧ INT_MAX < pattern.length + 2 then .error .overflow
      else .ok none := by
  rw [occurs_iff_items] at misses
  push Not at misses
  rcases misses with ⟨index, inside, differs⟩
  rw [inst_at_eq nonempty room,
    compare_part room int inside differs (Nat.zero_le _) (by omega), overshot]
  by_cases first : data[i]? = pattern[0]?
  · rw [if_pos first]
    by_cases fits : pattern.length + 2 ≤ INT_MAX
    · rw [if_pos fits, ok_bind, if_neg (by omega), if_neg (by omega)]
    · rw [if_neg fits, if_pos ⟨first, by omega⟩]
      rfl
  · rw [if_neg first, if_neg (fun both => first both.1)]

end Position

/-! ## The whole search -/

/-- A pattern as long as an `int` allows, in a buffer that is one byte longer:
the counter of the inner loop leaves `int` when a byte differs. -/
structure Overruns (pattern data : Bytes) : Prop where
  pattern_length : pattern.length = 0x7FFFFFFE
  data_length : data.length = 0x7FFFFFFF
  first : data[0]? = pattern[0]?
  misses : ¬ OccursAt pattern data 0

/-- `findInst` gives the first position of the whole pattern, and `NULL` exactly
when there is none. -/
def FindsInst (data pattern : Bytes) : Prop :=
  ∃ found, findInst data data.length pattern pattern.length = .ok found ∧
    FindsFirst pattern data found

def ReportsSignatures (image : Bytes) : Prop :=
  ∃ hacked, checkSmcHacked image image.length = .ok hacked ∧
    (hacked = true ↔
      (∃ pos, OccursAt cygBytes image pos) ∨ ∃ pos, OccursAt jtagBytes image pos)

section Search

variable {data pattern : Bytes}

theorem inst_probes (nonempty : 1 ≤ pattern.length) (int : pattern.length ≤ INT_MAX)
    (noOverrun : ∀ pos < data.length - pattern.length, ¬ OccursAt pattern data pos →
      ¬ (data[pos]? = pattern[0]? ∧ INT_MAX < pattern.length + 2)) :
    Probes pattern data (instAt data pattern pattern.length) (data.length - pattern.length) := by
  intro pos bound
  constructor
  · intro occurs
    exact inst_at_occurs nonempty (by omega) int occurs
  · intro misses
    rw [inst_at_misses nonempty (by omega) int misses, if_neg (noOverrun pos bound misses)]

theorem find_inst_early
    (probes : Probes pattern data (instAt data pattern pattern.length)
      (data.length - pattern.length))
    (early : ∃ pos < data.length - pattern.length, OccursAt pattern data pos) :
    ∃ first, FirstAt pattern data first ∧
      findInst data data.length pattern pattern.length = .ok (some first) := by
  rcases early with ⟨pos, bound, occurs⟩
  rcases first_of_occurs occurs with ⟨first, before, isFirst⟩
  exact ⟨first, isFirst, bounded_search_some probes isFirst (by omega)⟩

theorem find_inst_late
    (probes : Probes pattern data (instAt data pattern pattern.length)
      (data.length - pattern.length))
    (late : ¬ ∃ pos < data.length - pattern.length, OccursAt pattern data pos) :
    findInst data data.length pattern pattern.length = .ok none := by
  apply bounded_search_none probes
  intro pos bound occurs
  exact late ⟨pos, bound, occurs⟩

theorem find_inst_overruns (overruns : Overruns pattern data) :
    findInst data data.length pattern pattern.length = .error .overflow := by
  have patternLength := overruns.pattern_length
  have dataLength := overruns.data_length
  have one : data.length - pattern.length = 0 + 1 := by omega
  have int : pattern.length ≤ INT_MAX := by
    rw [patternLength]
    decide
  have large : INT_MAX < pattern.length + 2 := by
    rw [patternLength]
    decide
  rw [findInst, one, search, inst_at_misses (by omega) (by omega) int overruns.misses,
    if_pos ⟨overruns.first, large⟩]
  rfl

theorem probes_of_not_overruns (int : data.length ≤ INT_MAX) (nonempty : 1 ≤ pattern.length)
    (noOverrun : ¬ Overruns pattern data) :
    Probes pattern data (instAt data pattern pattern.length) (data.length - pattern.length) := by
  rw [INT_MAX] at int
  by_cases fits : pattern.length ≤ INT_MAX
  · apply inst_probes nonempty fits
    intro pos bound misses overrun
    rw [INT_MAX] at overrun
    have zero : pos = 0 := by omega
    rw [zero] at misses overrun
    exact noOverrun ⟨by omega, by omega, overrun.1, misses⟩
  · intro pos bound
    rw [INT_MAX] at fits
    omega

theorem finds_inst_iff (int : data.length ≤ INT_MAX) (nonempty : 1 ≤ pattern.length) :
    FindsInst data pattern ↔ ¬ Overruns pattern data ∧
      (pattern <:+ data →
        ∃ pos < data.length - pattern.length, OccursAt pattern data pos) := by
  constructor
  · intro finds
    rcases finds with ⟨found, run, first⟩
    have noOverrun : ¬ Overruns pattern data := by
      intro overruns
      rw [find_inst_overruns overruns] at run
      cases run
    refine ⟨noOverrun, ?_⟩
    intro last
    by_contra late
    rw [find_inst_late (probes_of_not_overruns int nonempty noOverrun) late] at run
    cases run
    exact first.absent.mp rfl _ (occurs_last_iff.mpr last)
  · intro condition
    rcases condition with ⟨noOverrun, ends⟩
    have probes := probes_of_not_overruns int nonempty noOverrun
    by_cases early : ∃ pos < data.length - pattern.length, OccursAt pattern data pos
    · rcases find_inst_early probes early with ⟨first, isFirst, run⟩
      exact ⟨some first, run, finds_some isFirst⟩
    · refine ⟨none, find_inst_late probes early, finds_none ?_⟩
      intro pos occurs
      rcases (occurs_iff_early_or_last nonempty).mp ⟨pos, occurs⟩ with sooner | last
      · exact early sooner
      · exact early (ends last)

/-- A pattern far from the end of `int`, in a buffer of any length. -/
theorem inst_exists_eq (nonempty : 1 ≤ pattern.length) (short : pattern.length + 2 ≤ INT_MAX) :
    ∃ seen, findInstExists data data.length pattern pattern.length = .ok seen ∧
      (seen = true ↔ ∃ pos < data.length - pattern.length, OccursAt pattern data pos) := by
  have probes : Probes pattern data (instAt data pattern pattern.length)
      (data.length - pattern.length) := by
    apply inst_probes nonempty (by omega)
    intro pos _ _ overrun
    omega
  by_cases early : ∃ pos < data.length - pattern.length, OccursAt pattern data pos
  · rcases find_inst_early probes early with ⟨first, _, run⟩
    refine ⟨true, ?_, fun _ => early, fun _ => rfl⟩
    rw [findInstExists, run]
    rfl
  · refine ⟨false, ?_, ?_, fun holds => absurd holds early⟩
    · rw [findInstExists, find_inst_late probes early]
      rfl
    · intro seen
      cases seen

end Search

/-- Both signatures are looked for at every position but their last. -/
theorem check_smc_hacked_eq (image : Bytes) :
    ∃ hacked, checkSmcHacked image image.length = .ok hacked ∧
      (hacked = true ↔ (∃ pos < image.length - 2, OccursAt cygBytes image pos) ∨
        ∃ pos < image.length - 4, OccursAt jtagBytes image pos) := by
  rcases @inst_exists_eq image cygBytes (by decide) (by decide) with ⟨cyg, cygRun, cygSeen⟩
  rcases @inst_exists_eq image jtagBytes (by decide) (by decide) with ⟨jtag, jtagRun, jtagSeen⟩
  refine ⟨cyg || jtag, ?_, ?_⟩
  · have cygSize : cygBytes.length = 2 := rfl
    have jtagSize : jtagBytes.length = 4 := rfl
    rw [cygSize] at cygRun
    rw [jtagSize] at jtagRun
    rw [checkSmcHacked, cygRun, ok_bind, jtagRun]
    rfl
  · rw [Bool.or_eq_true, cygSeen, jtagSeen]
    rfl

theorem reports_signatures_iff (image : Bytes) :
    ReportsSignatures image ↔
      (cygBytes <:+ image ∨ jtagBytes <:+ image →
        (∃ pos < image.length - 2, OccursAt cygBytes image pos) ∨
          ∃ pos < image.length - 4, OccursAt jtagBytes image pos) := by
  rcases check_smc_hacked_eq image with ⟨hacked, check, reported⟩
  have cygAnywhere : (∃ pos, OccursAt cygBytes image pos) ↔
      (∃ pos < image.length - 2, OccursAt cygBytes image pos) ∨ cygBytes <:+ image :=
    occurs_iff_early_or_last (by decide)
  have jtagAnywhere : (∃ pos, OccursAt jtagBytes image pos) ↔
      (∃ pos < image.length - 4, OccursAt jtagBytes image pos) ∨ jtagBytes <:+ image :=
    occurs_iff_early_or_last (by decide)
  rw [ReportsSignatures, cygAnywhere, jtagAnywhere]
  constructor
  · intro reports last
    rcases reports with ⟨answer, run, exactly⟩
    rw [check] at run
    cases run
    apply reported.mp
    apply exactly.mpr
    rcases last with cygLast | jtagLast
    · exact Or.inl (Or.inr cygLast)
    · exact Or.inr (Or.inr jtagLast)
  · intro condition
    refine ⟨hacked, check, ?_⟩
    rw [reported]
    constructor
    · intro early
      rcases early with cygEarly | jtagEarly
      · exact Or.inl (Or.inl cygEarly)
      · exact Or.inr (Or.inl jtagEarly)
    · intro anywhere
      rcases anywhere with (cygEarly | cygLast) | (jtagEarly | jtagLast)
      · exact Or.inl cygEarly
      · exact condition (Or.inl cygLast)
      · exact Or.inr jtagEarly
      · exact condition (Or.inr jtagLast)

/-- The position where only the end of the pattern is left is never looked at:
the search is right exactly when the pattern is not there, or lies further ahead,
too. For the signatures, one of them further ahead is enough. -/
theorem find_inst_first_iff (data pattern image : Bytes) (int : data.length ≤ INT_MAX)
    (nonempty : 1 ≤ pattern.length) :
    (FindsInst data pattern ↔ ¬ Overruns pattern data ∧
      (pattern <:+ data →
        ∃ pos < data.length - pattern.length, OccursAt pattern data pos)) ∧
    (ReportsSignatures image ↔
      (cygBytes <:+ image ∨ jtagBytes <:+ image →
        (∃ pos < image.length - 2, OccursAt cygBytes image pos) ∨
          ∃ pos < image.length - 4, OccursAt jtagBytes image pos)) :=
  ⟨finds_inst_iff int nonempty, reports_signatures_iff image⟩

/-- Two near-matches that overlap ahead of the match, and a signature in the
middle of an image. -/
theorem inner_instances_found :
    FindsInst [1, 1, 1, 2, 3] [1, 1, 2] ∧ ReportsSignatures [0xD0, 0x78, 0xBA, 0x00] := by
  have both := find_inst_first_iff [1, 1, 1, 2, 3] [1, 1, 2] [0xD0, 0x78, 0xBA, 0x00] (by decide)
    (by decide)
  constructor
  · apply both.1.mpr
    refine ⟨?_, fun _ => ⟨1, by decide, by decide⟩⟩
    intro overruns
    exact absurd overruns.pattern_length (by decide)
  · apply both.2.mpr
    intro _
    exact Or.inl ⟨1, by decide, by decide⟩

/-- A signature as the whole buffer, and at the end of an image. -/
theorem last_instance_missed :
    ¬ FindsInst cygBytes cygBytes ∧ ¬ ReportsSignatures [0x00, 0x78, 0xBA] := by
  constructor
  · intro finds
    rcases finds with ⟨found, run, first⟩
    cases run
    exact first.absent.mp rfl 0 (by decide)
  · intro reports
    rcases reports with ⟨hacked, run, reported⟩
    cases run
    cases reported.mpr (Or.inl ⟨1, by decide⟩)

end XeBuild.Iso2svod
