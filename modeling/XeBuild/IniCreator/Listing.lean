import Mathlib.Data.List.Forall2
import Mathlib.Data.List.Perm.Basic
import XeBuild.IniCreator.IniFile
import XeBuild.Lib.Runs

/-!
# What the sections list

The passes over the boot loaders print each marked entry once and clear its
mark; the common section prints the rest. A completed output lists every marked
boot loader, every flash file and every other file on one line. It completes
when no name has a percent sign.
-/

namespace XeBuild.IniCreator

open ListRange Runs

set_option autoImplicit false

/-! ## The text as a format -/

theorem expand_plain {text : Bytes} (plain : percent ∉ text) : expand text = .ok text := by
  induction text using expand.induct with
  | case1 => rfl
  | case2 => exact absurd (List.mem_singleton_self percent) plain
  | case3 char other => rw [expand, if_neg other]
  | case4 rest ih => exact absurd List.mem_cons_self plain
  | case5 next rest single => exact absurd List.mem_cons_self plain
  | case6 char next rest other ih =>
      rw [expand, if_neg other, ih (fun member => plain (List.mem_cons_of_mem _ member)), ok_bind]
      rfl

theorem expand_length {text out : Bytes} (expanded : expand text = .ok out) :
    out.length ≤ text.length ∧ (out.length = text.length → percent ∉ text) := by
  induction text using expand.induct generalizing out with
  | case1 =>
      cases expanded
      exact ⟨Nat.le_refl _, fun _ => List.not_mem_nil⟩
  | case2 =>
      rw [expand, if_pos rfl] at expanded
      cases expanded
  | case3 char other =>
      rw [expand, if_neg other] at expanded
      cases expanded
      refine ⟨Nat.le_refl _, fun _ member => ?_⟩
      exact other (List.mem_singleton.mp member).symm
  | case4 rest ih =>
      rw [expand, if_pos rfl, if_pos rfl, bind_ok_iff] at expanded
      rcases expanded with ⟨text, inner, made⟩
      cases made
      have shorter := (ih inner).1
      simp only [List.length_cons]
      exact ⟨by omega, by omega⟩
  | case5 next rest single =>
      rw [expand, if_pos rfl, if_neg single] at expanded
      cases expanded
  | case6 char next rest other ih =>
      rw [expand, if_neg other, bind_ok_iff] at expanded
      rcases expanded with ⟨text, inner, made⟩
      cases made
      rcases ih inner with ⟨shorter, plain⟩
      simp only [List.length_cons] at shorter plain ⊢
      refine ⟨by omega, fun same member => ?_⟩
      rcases List.mem_cons.mp member with here | later
      · exact other here.symm
      · exact plain (by omega) later

theorem hex8_plain (value : Nat) : percent ∉ hex8 value := by
  have digits : ∀ digit < 0x10, percent ≠ hexDigit digit := by decide
  have one (part : Nat) : percent ≠ hexDigit (part % 0x10) :=
    digits _ (Nat.mod_lt _ (Nat.succ_pos _))
  simp only [hex8, List.mem_cons, List.not_mem_nil, or_false, not_or]
  exact ⟨one _, one _, one _, one _, one _, one _, one _, one _⟩

theorem text_plain_iff (name : Bytes) (crc : UInt32) :
    percent ∉ lineText name crc ↔ percent ∉ name := by
  have comma : percent ∉ asciiText ",".toList := by decide
  have newline : percent ∉ asciiText "\n".toList := by decide
  rw [lineText]
  simp only [List.mem_append, not_or, comma, newline, hex8_plain, not_false_eq_true, and_true]

/-! ## Lines -/

def Prints (slots : List FLList) (lines : List Bytes) : Prop :=
  List.Forall₂ (fun slot line => dprintf slot.text = .ok line) slots lines

def linesOf (sections : List Section) : List Bytes := sections.flatMap Section.lines

theorem prints_plain {slots : List FLList} (plain : ∀ slot ∈ slots, percent ∉ slot.name) :
    Prints slots (slots.map FLList.text) := by
  induction slots with
  | nil => exact List.Forall₂.nil
  | cons slot rest ih =>
      apply List.Forall₂.cons
      · exact expand_plain ((text_plain_iff _ _).mpr (plain slot List.mem_cons_self))
      · exact ih (fun other member => plain other (List.mem_cons_of_mem _ member))

theorem prints_eq {slots : List FLList} {lines : List Bytes} (printed : Prints slots lines)
    (plain : ∀ slot ∈ slots, percent ∉ slot.name) : lines = slots.map FLList.text := by
  induction printed with
  | nil => rfl
  | @cons slot line rest lines first others ih =>
      have text := expand_plain ((text_plain_iff slot.name slot.crc).mpr
        (plain slot List.mem_cons_self))
      rw [dprintf, FLList.text, text] at first
      cases first
      rw [ih (fun other member => plain other (List.mem_cons_of_mem _ member))]
      rfl

/-- The lines are no longer than the texts, and of the same length only when
the texts are plain and printed as they are. -/
theorem prints_length {slots : List FLList} {lines : List Bytes} (printed : Prints slots lines) :
    lines.flatten.length ≤ (slots.map FLList.text).flatten.length ∧
      (lines.flatten.length = (slots.map FLList.text).flatten.length →
        ∀ slot ∈ slots, percent ∉ slot.name) := by
  induction printed with
  | nil => exact ⟨Nat.le_refl _, fun _ slot member => absurd member List.not_mem_nil⟩
  | @cons slot line rest lines first others ih =>
      rcases expand_length first with ⟨shorter, plain⟩
      rcases ih with ⟨restShorter, restPlain⟩
      simp only [List.map_cons, List.flatten_cons, List.length_append]
      refine ⟨by omega, fun same => ?_⟩
      rw [List.forall_mem_cons]
      exact ⟨(text_plain_iff _ _).mp (plain (by omega)), restPlain (by omega)⟩

theorem prints_append {first second : List FLList} {firstLines secondLines : List Bytes}
    (left : Prints first firstLines) (right : Prints second secondLines) :
    Prints (first ++ second) (firstLines ++ secondLines) := by
  induction left with
  | nil => exact right
  | cons head tail ih => exact List.Forall₂.cons head ih

theorem show_lines_ok_iff (slots : List FLList) (lines : List Bytes) :
    showLines slots = .ok lines ↔ Prints slots lines := by
  induction slots generalizing lines with
  | nil =>
      constructor
      · intro shown
        cases shown
        exact List.Forall₂.nil
      · intro printed
        cases printed
        rfl
  | cons slot rest ih =>
      rw [showLines, bind_ok_iff]
      constructor
      · intro shown
        rcases shown with ⟨line, first, shown⟩
        rcases bind_ok_iff.mp shown with ⟨others, later, made⟩
        cases made
        exact List.Forall₂.cons first ((ih others).mp later)
      · intro printed
        cases printed with
        | cons first others =>
            refine ⟨_, first, ?_⟩
            rw [(ih _).mpr others]
            rfl

/-! ## Boot loaders -/

/-- Not printed yet. -/
def FLList.live (slot : FLList) : Bool := slot.magic != 0

def VersionRange.clear (range : VersionRange) (slot : FLList) : FLList :=
  if range.shows slot then ⟨slot.name, slot.crc, 0⟩ else slot

theorem shows_live {range : VersionRange} {slot : FLList} (shown : range.shows slot = true) :
    slot.live = true := by
  rw [VersionRange.shows, Bool.and_eq_true, Bool.and_eq_true] at shown
  exact shown.1.1

theorem clear_live (range : VersionRange) (slot : FLList) :
    (range.clear slot).live = (slot.live && !range.shows slot) := by
  rw [VersionRange.clear]
  by_cases shown : range.shows slot = true
  · rw [if_pos shown, shown, Bool.not_true, Bool.and_false]
    rfl
  · rw [if_neg shown, Bool.eq_false_iff.mpr shown, Bool.not_false, Bool.and_true]

/-- What a pass prints and what it leaves are together what was there. -/
theorem pass_perm (range : VersionRange) (bls : List FLList) :
    (bls.filter range.shows ++ (bls.map range.clear).filter FLList.live).Perm
      (bls.filter FLList.live) := by
  induction bls with
  | nil => exact List.Perm.nil
  | cons slot rest ih =>
      rw [List.map_cons]
      by_cases shown : range.shows slot = true
      · have printed : (range.clear slot).live = false := by
          rw [clear_live, shown, Bool.not_true, Bool.and_false]
        rw [List.filter_cons_of_pos shown, List.filter_cons_of_neg (by rw [printed]; simp),
          List.filter_cons_of_pos (shows_live shown)]
        exact ih.cons slot
      · have kept : range.clear slot = slot := by rw [VersionRange.clear, if_neg shown]
        rw [List.filter_cons_of_neg shown, kept]
        by_cases marked : slot.live = true
        · rw [List.filter_cons_of_pos marked, List.filter_cons_of_pos marked]
          exact List.perm_middle.trans (ih.cons slot)
        · rwa [List.filter_cons_of_neg marked, List.filter_cons_of_neg marked]

theorem show_bls_ok_iff (range : VersionRange) (bls : List FLList)
    (result : List Bytes × List FLList) :
    showBls range bls = .ok result ↔
      Prints (bls.filter range.shows) result.1 ∧ result.2 = bls.map range.clear := by
  induction bls generalizing result with
  | nil =>
      constructor
      · intro shown
        cases shown
        exact ⟨List.Forall₂.nil, rfl⟩
      · intro both
        rcases result with ⟨lines, after⟩
        rcases both with ⟨printed, same⟩
        cases printed
        cases same
        rfl
  | cons slot rest ih =>
      rw [showBls, List.map_cons, VersionRange.clear]
      by_cases shown : range.shows slot = true
      · rw [if_pos shown, if_pos shown, List.filter_cons_of_pos shown, bind_ok_iff]
        constructor
        · intro all
          rcases all with ⟨line, first, all⟩
          rcases bind_ok_iff.mp all with ⟨⟨lines, after⟩, later, made⟩
          cases made
          have others := (ih (lines, after)).mp later
          exact ⟨List.Forall₂.cons first others.1, congrArg (List.cons _) others.2⟩
        · intro both
          rcases result with ⟨lines, after⟩
          rcases both with ⟨printed, same⟩
          cases printed with
          | @cons _ line _ lines first others =>
              refine ⟨line, first, ?_⟩
              rw [(ih (lines, rest.map range.clear)).mpr ⟨others, rfl⟩, ok_bind]
              cases same
              rfl
      · rw [if_neg shown, if_neg shown, List.filter_cons_of_neg shown, bind_ok_iff]
        constructor
        · intro all
          rcases all with ⟨⟨lines, after⟩, later, made⟩
          cases made
          have others := (ih (lines, after)).mp later
          exact ⟨others.1, congrArg (List.cons slot) others.2⟩
        · intro both
          rcases result with ⟨lines, after⟩
          rcases both with ⟨printed, same⟩
          refine ⟨(lines, rest.map range.clear), (ih _).mpr ⟨printed, rfl⟩, ?_⟩
          cases same
          rfl

/-! ## Sections of boot loaders -/

theorem lines_of_append (first second : List Section) :
    linesOf (first ++ second) = linesOf first ++ linesOf second :=
  List.flatMap_append

theorem lines_of_single (header : Bytes) (lines : List Bytes) :
    linesOf [⟨header, lines⟩] = lines :=
  List.append_nil lines

theorem none_shown {range : VersionRange} {bls : List FLList} (none : hasBls range bls = false) :
    bls.filter range.shows = [] ∧ bls.map range.clear = bls := by
  have hidden : ∀ slot ∈ bls, ¬ range.shows slot = true := by
    rw [hasBls, List.any_eq_false] at none
    exact none
  constructor
  · exact List.filter_eq_nil_iff.mpr hidden
  · rw [@List.map_congr_left _ _ _ _ id]
    · exact List.map_id bls
    · intro slot member
      rw [VersionRange.clear, if_neg (hidden slot member), id]

theorem display_bls_ok {name : Bytes} {range : VersionRange} {bls after : List FLList}
    {sections : List Section} (displayed : displayBls name range bls = .ok (sections, after)) :
    Prints (bls.filter range.shows) (linesOf sections) ∧ after = bls.map range.clear := by
  rw [displayBls] at displayed
  by_cases some : hasBls range bls = true
  · rw [if_pos some, bind_ok_iff] at displayed
    rcases displayed with ⟨header, _, displayed⟩
    rcases bind_ok_iff.mp displayed with ⟨⟨lines, rest⟩, shown, made⟩
    cases made
    rw [lines_of_single]
    exact (show_bls_ok_iff range bls (lines, after)).mp shown
  · rw [if_neg some] at displayed
    cases displayed
    have hidden := none_shown (Bool.eq_false_iff.mpr some)
    rw [hidden.1, hidden.2]
    exact ⟨List.Forall₂.nil, rfl⟩

theorem display_bls_plain {name : Bytes} (range : VersionRange) {bls : List FLList}
    (header : percent ∉ name) (plain : ∀ slot ∈ bls.filter FLList.live, percent ∉ slot.name) :
    ∃ sections, displayBls name range bls = .ok (sections, bls.map range.clear) := by
  have printed : Prints (bls.filter range.shows) ((bls.filter range.shows).map FLList.text) := by
    apply prints_plain
    intro slot member
    apply plain
    rw [List.mem_filter] at member ⊢
    exact ⟨member.1, shows_live member.2⟩
  rw [displayBls]
  by_cases some : hasBls range bls = true
  · have shown := (show_bls_ok_iff range bls (_, bls.map range.clear)).mpr ⟨printed, rfl⟩
    rw [if_pos some, dprintf, expand_plain header, ok_bind, shown]
    exact ⟨_, rfl⟩
  · rw [if_neg some, (none_shown (Bool.eq_false_iff.mpr some)).2]
    exact ⟨_, rfl⟩

/-- All passes: what they print and what they leave is what was there. -/
theorem display_all_ok {passes : List (Bytes × VersionRange)} {bls after : List FLList}
    {sections : List Section} (displayed : displayAll passes bls = .ok (sections, after)) :
    ∃ shown, Prints shown (linesOf sections) ∧
      (shown ++ after.filter FLList.live).Perm (bls.filter FLList.live) := by
  induction passes generalizing bls sections with
  | nil =>
      cases displayed
      exact ⟨[], List.Forall₂.nil, List.Perm.refl _⟩
  | cons pass passes ih =>
      rw [displayAll, bind_ok_iff] at displayed
      rcases displayed with ⟨⟨first, between⟩, here, displayed⟩
      rcases bind_ok_iff.mp displayed with ⟨⟨others, last⟩, later, made⟩
      cases made
      rcases display_bls_ok here with ⟨printed, rfl⟩
      rcases ih later with ⟨shown, restPrinted, perm⟩
      refine ⟨bls.filter pass.2.shows ++ shown, ?_, ?_⟩
      · rw [lines_of_append]
        exact prints_append printed restPrinted
      · rw [List.append_assoc]
        exact (perm.append_left _).trans (pass_perm pass.2 bls)

theorem clear_filter_mem {range : VersionRange} {bls : List FLList} {slot : FLList}
    (member : slot ∈ (bls.map range.clear).filter FLList.live) :
    slot ∈ bls.filter FLList.live :=
  (pass_perm range bls).mem_iff.mp (List.mem_append_right _ member)

theorem display_all_plain {passes : List (Bytes × VersionRange)} {bls : List FLList}
    (headers : ∀ pass ∈ passes, percent ∉ pass.1)
    (plain : ∀ slot ∈ bls.filter FLList.live, percent ∉ slot.name) :
    ∃ result, displayAll passes bls = .ok result := by
  induction passes generalizing bls with
  | nil => exact ⟨_, rfl⟩
  | cons pass passes ih =>
      rcases display_bls_plain pass.2 (headers pass List.mem_cons_self) plain with ⟨first, here⟩
      have others := @ih (bls.map pass.2.clear)
        (fun other member => headers other (List.mem_cons_of_mem _ member))
        (fun slot member => plain slot (clear_filter_mem member))
      rcases others with ⟨⟨rest, after⟩, later⟩
      rw [displayAll, here, ok_bind]
      simp only [later, ok_bind]
      exact ⟨_, rfl⟩

theorem show_files_ok {name : Bytes} {files : List FLList} {sections : List Section}
    (shown : showFiles name files = .ok sections) : Prints files (linesOf sections) := by
  rw [showFiles] at shown
  by_cases some : files.length ≠ 0
  · rw [if_pos some, bind_ok_iff] at shown
    rcases shown with ⟨header, _, shown⟩
    rcases bind_ok_iff.mp shown with ⟨lines, listed, made⟩
    cases made
    rw [lines_of_single]
    exact (show_lines_ok_iff files lines).mp listed
  · rw [if_neg some] at shown
    cases shown
    rw [List.eq_nil_of_length_eq_zero (not_not.mp some)]
    exact List.Forall₂.nil

theorem show_files_plain {name : Bytes} {files : List FLList} (header : percent ∉ name)
    (plain : ∀ slot ∈ files, percent ∉ slot.name) : ∃ sections, showFiles name files = .ok sections := by
  rw [showFiles]
  by_cases some : files.length ≠ 0
  · rw [if_pos some, dprintf, expand_plain header, ok_bind,
      (show_lines_ok_iff files _).mpr (prints_plain plain)]
    exact ⟨_, rfl⟩
  · rw [if_neg some]
    exact ⟨_, rfl⟩

def commonHeader : Bytes :=
  asciiText "\n[commonbl]; you will need to copy these to wherever they are needed\n".toList

theorem show_common_eq (bls : List FLList) :
    showCommon bls = showFiles commonHeader (bls.filter FLList.live) := by
  have marked : hasCommon bls = true ↔ (bls.filter FLList.live).length ≠ 0 := by
    rw [hasCommon, List.any_eq_true, Ne, List.length_eq_zero_iff, List.filter_eq_nil_iff]
    simp only [not_forall, not_not, exists_prop]
    rfl
  rw [showCommon, showFiles]
  by_cases some : hasCommon bls = true
  · rw [if_pos some, if_pos (marked.mp some)]
    rfl
  · rw [if_neg some, if_neg (fun more => some (marked.mpr more))]

theorem show_all_bls_ok {bls : List FLList} {sections : List Section}
    (shown : showAllBls bls = .ok sections) :
    ∃ slots, Prints slots (linesOf sections) ∧ slots.Perm (bls.filter FLList.live) := by
  rw [showAllBls] at shown
  by_cases some : bls.length ≠ 0
  · rw [if_pos some, bind_ok_iff] at shown
    rcases shown with ⟨⟨passes, after⟩, displayed, shown⟩
    rcases bind_ok_iff.mp shown with ⟨common, rest, made⟩
    cases made
    rw [show_common_eq] at rest
    rcases display_all_ok displayed with ⟨printed, lines, perm⟩
    refine ⟨printed ++ after.filter FLList.live, ?_, perm⟩
    rw [lines_of_append]
    exact prints_append lines (show_files_ok rest)
  · rw [if_neg some] at shown
    cases shown
    rw [List.eq_nil_of_length_eq_zero (not_not.mp some)]
    exact ⟨[], List.Forall₂.nil, List.Perm.refl _⟩

theorem bl_headers_plain : ∀ pass ∈ blSections, percent ∉ pass.1 := by decide

theorem show_all_bls_plain {bls : List FLList}
    (plain : ∀ slot ∈ bls.filter FLList.live, percent ∉ slot.name) :
    ∃ sections, showAllBls bls = .ok sections := by
  rw [showAllBls]
  by_cases some : bls.length ≠ 0
  · rcases display_all_plain bl_headers_plain plain with ⟨⟨passes, after⟩, displayed⟩
    have left : ∀ slot ∈ after.filter FLList.live, percent ∉ slot.name := by
      rcases display_all_ok displayed with ⟨printed, _, perm⟩
      intro slot member
      exact plain slot (perm.mem_iff.mp (List.mem_append_right _ member))
    have header : percent ∉ commonHeader := by decide
    rcases show_files_plain header left with ⟨common, shown⟩
    rw [if_pos some, displayed, ok_bind]
    simp only [show_common_eq, shown, ok_bind]
    exact ⟨_, rfl⟩
  · rw [if_neg some]
    exact ⟨_, rfl⟩

/-! ## The whole output -/

theorem show_version_ok {flashVer : Nat} {sections : List Section}
    (shown : showVersion flashVer = .ok sections) : linesOf sections = [] := by
  rw [showVersion] at shown
  by_cases some : flashVer ≠ 0
  · rw [if_pos some, bind_ok_iff] at shown
    rcases shown with ⟨header, _, made⟩
    cases made
    rfl
  · rw [if_neg some] at shown
    cases shown
    rfl

theorem digits_plain (flashVer : Nat) : percent ∉ asciiText (Nat.toDigits 10 flashVer) := by
  intro member
  rcases List.mem_map.mp member with ⟨char, digit, code⟩
  have isDigit : char.isDigit = true :=
    Nat.isDigit_of_mem_toDigits (by omega) (Nat.le_refl 10) digit
  rw [Char.isDigit, Bool.and_eq_true, decide_eq_true_eq, decide_eq_true_eq] at isDigit
  have number : (UInt8.ofNat char.toNat).toNat = 0x25 := by rw [code]; rfl
  have low : 0x30 ≤ char.toNat := isDigit.1
  have high : char.toNat ≤ 0x39 := isDigit.2
  rw [UInt8.toNat_ofNat', Nat.mod_eq_of_lt (by simp only [Nat.reducePow]; omega)] at number
  omega

theorem show_version_plain (flashVer : Nat) : ∃ sections, showVersion flashVer = .ok sections := by
  rw [showVersion]
  by_cases some : flashVer ≠ 0
  · have front : percent ∉
        asciiText "[version]; simply the highest version of CF found\n".toList := by decide
    have back : percent ∉ asciiText "\n".toList := by decide
    rw [if_pos some, dprintf, expand_plain, ok_bind]
    · exact ⟨_, rfl⟩
    · simp only [List.mem_append, not_or]
      exact ⟨⟨front, digits_plain flashVer⟩, back⟩
  · rw [if_neg some]
    exact ⟨_, rfl⟩

/-- What is to be listed: the marked boot loaders and the files. -/
def Globals.listed (globals : Globals) : List FLList :=
  globals.flashBls.filter FLList.live ++ globals.flashFiles ++ globals.otherFiles

theorem write_ini_ok {globals : Globals} {sections : List Section}
    (written : writeIni globals = .ok sections) :
    ∃ slots, Prints slots (linesOf sections) ∧ slots.Perm globals.listed := by
  rw [writeIni, bind_ok_iff] at written
  rcases written with ⟨version, first, written⟩
  rcases bind_ok_iff.mp written with ⟨bls, second, written⟩
  rcases bind_ok_iff.mp written with ⟨flash, third, written⟩
  rcases bind_ok_iff.mp written with ⟨other, fourth, made⟩
  cases made
  rcases show_all_bls_ok second with ⟨slots, printed, perm⟩
  refine ⟨slots ++ globals.flashFiles ++ globals.otherFiles, ?_, ?_⟩
  · simp only [lines_of_append, show_version_ok first, List.nil_append]
    exact prints_append (prints_append printed (show_files_ok third)) (show_files_ok fourth)
  · exact (perm.append_right _).append_right _

theorem write_ini_plain {globals : Globals}
    (plain : ∀ slot ∈ globals.listed, percent ∉ slot.name) :
    ∃ sections, writeIni globals = .ok sections := by
  have bls : ∀ slot ∈ globals.flashBls.filter FLList.live, percent ∉ slot.name := fun slot member =>
    plain slot (List.mem_append_left _ (List.mem_append_left _ member))
  have flash : ∀ slot ∈ globals.flashFiles, percent ∉ slot.name := fun slot member =>
    plain slot (List.mem_append_left _ (List.mem_append_right _ member))
  have other : ∀ slot ∈ globals.otherFiles, percent ∉ slot.name := fun slot member =>
    plain slot (List.mem_append_right _ member)
  have flashHeader : percent ∉ asciiText "\n[flash]\n".toList := by decide
  have otherHeader : percent ∉ asciiText
    "\n[unknown]; these are leftovers that couldn't be classified\n".toList := by decide
  rcases show_version_plain globals.flashVer with ⟨_, first⟩
  rcases show_all_bls_plain bls with ⟨_, second⟩
  rcases show_files_plain flashHeader flash with ⟨_, third⟩
  rcases show_files_plain otherHeader other with ⟨_, fourth⟩
  rw [writeIni, first, ok_bind, second, ok_bind, third, ok_bind, fourth]
  exact ⟨_, rfl⟩

end XeBuild.IniCreator
