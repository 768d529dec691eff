import XeBuild.IniCreator.Listing

/-!
# Which inputs are listed

A file that opens is listed on one line when its path has a folder, its name has
no percent sign, the file is not empty, and a boot loader is one that the check
accepts and whose cleared range lies in its buffer. A rejected boot loader
disappears; the other files stop the program or change their name.
-/

namespace XeBuild.IniCreator

open ListRange Runs

set_option autoImplicit false

/-! ## What is to be listed -/

def readable (argv : List Argument) : List (Argument × Bytes) :=
  argv.filterMap fun arg => arg.file.map fun content => (arg, content)

def magicOf (input : Argument × Bytes) : Nat := getBe32 (slice (buffer input.1 input.2) 0 4)

def typeOf (input : Argument × Bytes) : FileType := fileType (magicOf input)

def crclenOf (input : Argument × Bytes) : Nat := getBe32 (slice (buffer input.1 input.2) 0xC 4)

def fillOf (input : Argument × Bytes) : Option (Nat × Nat) := blFill (blType (magicOf input))

/-- Of a boot loader, the checksum of the length that it names, with its range
cleared; else of the whole file. -/
def checksumOf (data : Bytes) (len crclen : Nat) : FileType → Option (Nat × Nat) → UInt32
  | .bl, some fill => crc32buf (patch data fill.1 (zeros fill.2)) crclen
  | .bl, none => crc32buf data len
  | .flash, _ => crc32buf data len
  | .other, _ => crc32buf data len

def checksum (input : Argument × Bytes) : UInt32 :=
  checksumOf (buffer input.1 input.2) (getFileSize input.1 input.2) (crclenOf input) (typeOf input)
    (fillOf input)

def expectedLine (input : Argument × Bytes) : Bytes :=
  lineText (baseName input.1.name) (checksum input)

/-- Every file that opens is on exactly one line. -/
def EveryInputListed (argv : List Argument) : Prop :=
  ∃ sections, main argv = .ok sections ∧
    (linesOf sections).Perm ((readable argv).map expectedLine)

structure Listable (input : Argument × Bytes) : Prop where
  folder : backslash ∈ input.1.name
  plain : percent ∉ baseName input.1.name
  nonempty : 0 < getFileSize input.1 input.2
  room : getFileSize input.1 input.2 ≤ 0xFFFFFFF0
  accepted : typeOf input = .bl → crclenOf input ≤ getFileSize input.1 input.2 ∧
    ∃ fill, fillOf input = some fill ∧ fill.1 + fill.2 ≤ bufsize (getFileSize input.1 input.2)

/-! ## The buffer -/

theorem bufsize_room (filesize : Nat) (word : filesize < 0x100000000) :
    filesize ≤ bufsize filesize ↔ filesize ≤ 0xFFFFFFF0 := by
  rw [bufsize, u32]
  omega

theorem buffer_length {input : Argument × Bytes}
    (room : getFileSize input.1 input.2 ≤ bufsize (getFileSize input.1 input.2)) :
    (buffer input.1 input.2).length = bufsize (getFileSize input.1 input.2) := by
  have taken := List.length_take_le (getFileSize input.1 input.2) input.2
  rw [buffer, List.length_append, List.length_map, List.length_range]
  omega

theorem get_be_u32_ok_iff (data : Bytes) (offset value : Nat) :
    getBeU32 data offset = .ok value ↔
      offset + 4 ≤ data.length ∧ value = getBe32 (slice data offset 4) := by
  rw [getBeU32]
  by_cases inside : offset + 4 ≤ data.length
  · rw [if_pos inside, Except.ok.injEq, eq_comm]
    simp [inside]
  · rw [if_neg inside]
    simp [inside]

/-! ## One file -/

def processInput (input : Argument × Bytes) (globals : Globals) : Except Fault Globals := do
  let fdat ← readFile input.1 input.2
  let magic ← getBeU32 fdat.data 0
  processFile (fileType magic) input.1.name fdat magic globals

/-- The steps for a file have a defined outcome, apart from the array sizes. -/
structure Defined (input : Argument × Bytes) : Prop where
  folder : backslash ∈ input.1.name
  room : getFileSize input.1 input.2 ≤ bufsize (getFileSize input.1 input.2)
  nonempty : 0 < getFileSize input.1 input.2
  clears : typeOf input = .bl → crclenOf input ≤ getFileSize input.1 input.2 →
    ∀ fill, fillOf input = some fill → fill.1 + fill.2 ≤ bufsize (getFileSize input.1 input.2)

def accepted (input : Argument × Bytes) : Bool :=
  typeOf input != .bl ||
    (decide (crclenOf input ≤ getFileSize input.1 input.2) && (fillOf input).isSome)

theorem accepted_fill {input : Argument × Bytes} (isBl : typeOf input = .bl) (passes : accepted input = true) :
    crclenOf input ≤ getFileSize input.1 input.2 ∧ ∃ fill, fillOf input = some fill := by
  rw [accepted, isBl, Bool.or_eq_true, Bool.and_eq_true, decide_eq_true_eq] at passes
  rcases passes with other | both
  · cases other
  · exact ⟨both.1, Option.isSome_iff_exists.mp both.2⟩

theorem listable_iff (input : Argument × Bytes) :
    Listable input ↔
      Defined input ∧ accepted input = true ∧ percent ∉ baseName input.1.name := by
  have room := bufsize_room _ ((input.1.ftell input.2.length).toNat_lt)
  constructor
  · intro listable
    refine ⟨⟨listable.folder, room.mpr listable.room, listable.nonempty, ?_⟩, ?_, listable.plain⟩
    · intro isBl _ fill known
      rcases (listable.accepted isBl).2 with ⟨found, same, inside⟩
      rw [known] at same
      cases same
      exact inside
    · rw [accepted, Bool.or_eq_true]
      by_cases isBl : typeOf input = .bl
      · rcases listable.accepted isBl with ⟨fits, fill, known, _⟩
        rw [known]
        exact Or.inr (by simp [fits])
      · exact Or.inl (bne_iff_ne.mpr isBl)
  · intro all
    rcases all with ⟨defined, passes, plain⟩
    refine ⟨defined.folder, plain, defined.nonempty, room.mp defined.room, ?_⟩
    intro isBl
    rcases accepted_fill isBl passes with ⟨fits, fill, known⟩
    exact ⟨fits, fill, known, defined.clears isBl fits fill known⟩

/-- The entry for a file; a rejected boot loader keeps the zeros. -/
def slotOf (input : Argument × Bytes) : FLList :=
  if typeOf input = .bl then
    if accepted input then ⟨baseName input.1.name, checksum input, magicOf input⟩
    else ⟨baseName input.1.name, 0, 0⟩
  else ⟨baseName input.1.name, checksum input, 0⟩

def Globals.files (globals : Globals) : FileType → List FLList
  | .flash => globals.flashFiles
  | .bl => globals.flashBls
  | .other => globals.otherFiles

def Globals.stored (globals : Globals) (files : List FLList) : FileType → Globals
  | .flash => { globals with flashFiles := files }
  | .bl => { globals with flashBls := files }
  | .other => { globals with otherFiles := files }

def Globals.added (globals : Globals) (typ : FileType) (slot : FLList) (flashVer : Nat) : Globals :=
  { globals.stored (globals.files typ ++ [slot]) typ with flashVer }

theorem added_files_length (globals : Globals) (typ : FileType) (slot : FLList) (ver : Nat)
    (held : FileType) :
    ((globals.added typ slot ver).files held).length =
      (globals.files held).length + if typ = held then 1 else 0 := by
  cases typ <;> cases held <;> simp [Globals.added, Globals.stored, Globals.files]

theorem copy_name_ok_iff (slot : FLList) (name : Bytes) (out : FLList) :
    copyName slot name = .ok out ↔
      backslash ∈ name ∧ (baseName name).length < 64 ∧
        out = ⟨baseName name, slot.crc, slot.magic⟩ := by
  rw [copyName]
  by_cases folder : backslash ∈ name
  · by_cases short : (baseName name).length < 64
    · rw [if_pos folder, if_pos short, Except.ok.injEq, eq_comm]
      simp [folder, short]
    · rw [if_pos folder, if_neg short]
      simp [short]
  · rw [if_neg folder]
    simp [folder]

theorem add_slot_ok_iff (files : List FLList) (slot : FLList) (out : List FLList) :
    addSlot files slot = .ok out ↔ files.length < MAX_FLASH ∧ out = files ++ [slot] := by
  rw [addSlot]
  by_cases room : files.length < MAX_FLASH
  · rw [if_pos room, Except.ok.injEq, eq_comm]
    simp [room]
  · rw [if_neg room]
    simp [room]

theorem checksum_of_other {input : Argument × Bytes} (other : typeOf input ≠ .bl) :
    checksum input = crc32buf (buffer input.1 input.2) (getFileSize input.1 input.2) := by
  rw [checksum]
  cases typ : typeOf input with
  | bl => exact absurd typ other
  | flash => rw [checksumOf]
  | other => rw [checksumOf]

section Check

variable {input : Argument × Bytes}

theorem check_bl_magic_rejected (isBl : typeOf input = .bl)
    (header : 0xC + 4 ≤ (buffer input.1 input.2).length) (rejected : accepted input = false)
    (flashVer : Nat) :
    checkBlMagic ⟨buffer input.1 input.2, getFileSize input.1 input.2⟩ (magicOf input) flashVer =
      .ok (flashVer, ⟨[], 0, 0⟩) := by
  have crclen : getBeU32 (buffer input.1 input.2) 0xC = .ok (crclenOf input) :=
    (get_be_u32_ok_iff _ _ _).mpr ⟨header, rfl⟩
  rw [checkBlMagic, crclen, ok_bind]
  by_cases long : getFileSize input.1 input.2 < crclenOf input
  · rw [if_pos long]
    rfl
  · rw [accepted, isBl, decide_eq_true (Nat.not_lt.mp long)] at rejected
    rw [if_neg long, ← fillOf]
    cases known : fillOf input with
    | none => rfl
    | some fill =>
        rw [known] at rejected
        cases rejected

/-- An accepted one is cleared in its range, if that lies in the buffer. -/
theorem check_bl_magic_accepted (isBl : typeOf input = .bl)
    (header : 0xC + 4 ≤ (buffer input.1 input.2).length)
    (fits : crclenOf input ≤ getFileSize input.1 input.2) {fill : Nat × Nat}
    (known : fillOf input = some fill) (flashVer : Nat) :
    checkBlMagic ⟨buffer input.1 input.2, getFileSize input.1 input.2⟩ (magicOf input) flashVer =
      if fill.1 + fill.2 ≤ (buffer input.1 input.2).length then
        .ok (newFlashVer (magicOf input) flashVer, ⟨[], checksum input, magicOf input⟩)
      else .error (.store (buffer input.1 input.2).length) := by
  have crclen : getBeU32 (buffer input.1 input.2) 0xC = .ok (crclenOf input) :=
    (get_be_u32_ok_iff _ _ _).mpr ⟨header, rfl⟩
  have sum : checksum input =
      crc32buf (patch (buffer input.1 input.2) fill.1 (zeros fill.2)) (crclenOf input) := by
    rw [checksum, isBl, known, checksumOf]
  rw [checkBlMagic, crclen, ok_bind, if_neg (Nat.not_lt.mpr fits), ← fillOf, known, sum]
  rfl

theorem check_bl_magic_ok_iff (isBl : typeOf input = .bl)
    (header : 0xC + 4 ≤ (buffer input.1 input.2).length) (flashVer : Nat) (slot : FLList) :
    (∃ ver, checkBlMagic ⟨buffer input.1 input.2, getFileSize input.1 input.2⟩ (magicOf input) flashVer =
        .ok (ver, slot)) ↔
      (crclenOf input ≤ getFileSize input.1 input.2 → ∀ fill, fillOf input = some fill →
        fill.1 + fill.2 ≤ (buffer input.1 input.2).length) ∧
      slot = if accepted input then ⟨[], checksum input, magicOf input⟩ else ⟨[], 0, 0⟩ := by
  cases passes : accepted input with
  | false =>
      rw [check_bl_magic_rejected isBl header passes, if_neg Bool.false_ne_true]
      constructor
      · intro passed
        rcases passed with ⟨ver, made⟩
        cases made
        refine ⟨fun fits fill known => ?_, rfl⟩
        rw [accepted, isBl, known, decide_eq_true fits] at passes
        cases passes
      · intro both
        rw [both.2]
        exact ⟨flashVer, rfl⟩
  | true =>
      rcases accepted_fill isBl passes with ⟨fits, fill, known⟩
      rw [check_bl_magic_accepted isBl header fits known, known, if_pos rfl]
      by_cases inside : fill.1 + fill.2 ≤ (buffer input.1 input.2).length
      · rw [if_pos inside]
        constructor
        · intro passed
          rcases passed with ⟨ver, made⟩
          cases made
          refine ⟨fun _ other same => ?_, rfl⟩
          cases same
          exact inside
        · intro both
          rw [both.2]
          exact ⟨_, rfl⟩
      · rw [if_neg inside]
        constructor
        · intro passed
          rcases passed with ⟨ver, made⟩
          cases made
        · intro both
          exact absurd (both.1 fits fill rfl) inside

end Check

/-- The magic and the header are in the buffer as soon as the file has a byte. -/
theorem buffer_header {input : Argument × Bytes}
    (room : getFileSize input.1 input.2 ≤ bufsize (getFileSize input.1 input.2)) :
    (0 < getFileSize input.1 input.2 → 0xC + 4 ≤ (buffer input.1 input.2).length) ∧
      (0 + 4 ≤ (buffer input.1 input.2).length → 0 < getFileSize input.1 input.2) := by
  have word := (input.1.ftell input.2.length).toNat_lt
  rw [buffer_length room]
  generalize getFileSize input.1 input.2 = filesize at room word ⊢
  rw [bufsize, u32] at room ⊢
  omega

/-- Behind the buffer and the magic, what is left is `processFile`. -/
theorem process_input_ok_iff (input : Argument × Bytes) (globals next : Globals) :
    processInput input globals = .ok next ↔
      getFileSize input.1 input.2 ≤ bufsize (getFileSize input.1 input.2) ∧ 0 < getFileSize input.1 input.2 ∧
        processFile (typeOf input) input.1.name ⟨buffer input.1 input.2, getFileSize input.1 input.2⟩
          (magicOf input) globals = .ok next := by
  rw [processInput, readFile]
  by_cases room : getFileSize input.1 input.2 ≤ bufsize (getFileSize input.1 input.2)
  · have header := buffer_header room
    rw [if_pos room, ok_bind, bind_ok_iff]
    constructor
    · intro done
      rcases done with ⟨magic, read, done⟩
      rcases (get_be_u32_ok_iff _ _ _).mp read with ⟨inside, rfl⟩
      exact ⟨room, header.2 inside, done⟩
    · intro all
      have inside : 0 + 4 ≤ (buffer input.1 input.2).length := by
        have whole := header.1 all.2.1
        omega
      exact ⟨magicOf input, (get_be_u32_ok_iff _ _ _).mpr ⟨inside, rfl⟩, all.2.2⟩
  · rw [if_neg room]
    constructor
    · intro done
      cases done
    · intro all
      exact absurd all.1 room

/-- A file that is no boot loader gets the checksum of the whole file. -/
theorem process_file_other {typ : FileType} (other : typ ≠ .bl) (name : Bytes) (fdat : RFileInf)
    (magic : Nat) (globals : Globals) :
    processFile typ name fdat magic globals = (do
      let slot ← copyName ⟨[], crc32buf fdat.data fdat.len, 0⟩ name
      let files ← addSlot (globals.files typ) slot
      return globals.stored files typ) := by
  cases typ with
  | flash => rfl
  | bl => exact absurd rfl other
  | other => rfl

theorem added_same_version (globals : Globals) {typ : FileType} (slot : FLList) :
    globals.added typ slot globals.flashVer = globals.stored (globals.files typ ++ [slot]) typ := by
  cases typ <;> rfl

section Step

variable {input : Argument × Bytes} {globals next : Globals}

/-- What one file does: it has a defined outcome and its entry is added. -/
theorem process_input_added (done : processInput input globals = .ok next) :
    Defined input ∧ ∃ ver, next = globals.added (typeOf input) (slotOf input) ver := by
  rcases (process_input_ok_iff input globals next).mp done with ⟨room, nonempty, done⟩
  by_cases isBl : typeOf input = .bl
  · have header := (buffer_header room).1 nonempty
    rw [isBl, processFile, bind_ok_iff] at done
    rcases done with ⟨⟨ver, checked⟩, passed, done⟩
    rcases bind_ok_iff.mp done with ⟨slot, copied, done⟩
    rcases (copy_name_ok_iff _ _ _).mp copied with ⟨folder, short, rfl⟩
    rcases bind_ok_iff.mp done with ⟨files, grown, made⟩
    rcases (add_slot_ok_iff _ _ _).mp grown with ⟨_, rfl⟩
    cases made
    rcases (check_bl_magic_ok_iff isBl header globals.flashVer checked).mp ⟨ver, passed⟩ with
      ⟨clears, rfl⟩
    rw [buffer_length room] at clears
    refine ⟨⟨folder, room, nonempty, fun _ => clears⟩, ver, ?_⟩
    rw [slotOf, if_pos isBl, isBl]
    cases accepted input with
    | true => rfl
    | false => rfl
  · rw [process_file_other isBl, bind_ok_iff] at done
    rcases done with ⟨slot, copied, done⟩
    rcases (copy_name_ok_iff _ _ _).mp copied with ⟨folder, short, rfl⟩
    rcases bind_ok_iff.mp done with ⟨files, grown, made⟩
    rcases (add_slot_ok_iff _ _ _).mp grown with ⟨_, rfl⟩
    cases made
    refine ⟨⟨folder, room, nonempty, fun isBl' => absurd isBl' isBl⟩, globals.flashVer, ?_⟩
    rw [added_same_version, slotOf, if_neg isBl, checksum_of_other isBl]

/-- A file with a defined outcome is added while its array has room. -/
theorem process_input_ready (defined : Defined input) (short : (baseName input.1.name).length < 64)
    (free : (globals.files (typeOf input)).length < MAX_FLASH) :
    ∃ next, processInput input globals = .ok next := by
  have copied (slot : FLList) := (copy_name_ok_iff slot input.1.name _).mpr
    ⟨defined.folder, short, rfl⟩
  suffices steps : ∃ next, processFile (typeOf input) input.1.name
      ⟨buffer input.1 input.2, getFileSize input.1 input.2⟩ (magicOf input) globals = .ok next by
    rcases steps with ⟨next, done⟩
    exact ⟨next, (process_input_ok_iff _ _ _).mpr ⟨defined.room, defined.nonempty, done⟩⟩
  by_cases isBl : typeOf input = .bl
  · have header := (buffer_header defined.room).1 defined.nonempty
    have clears := defined.clears isBl
    rw [← buffer_length defined.room] at clears
    rcases (check_bl_magic_ok_iff isBl header globals.flashVer _).mpr ⟨clears, rfl⟩ with
      ⟨ver, passed⟩
    have room : globals.flashBls.length < MAX_FLASH := by
      rw [isBl] at free
      exact free
    rw [isBl, processFile, passed, ok_bind]
    simp only [copied, ok_bind]
    rw [(add_slot_ok_iff globals.flashBls _ _).mpr ⟨room, rfl⟩]
    exact ⟨_, rfl⟩
  · rw [process_file_other isBl, copied, ok_bind, (add_slot_ok_iff _ _ _).mpr ⟨free, rfl⟩]
    exact ⟨_, rfl⟩

end Step

/-! ## The first loop -/

def processInputs : List (Argument × Bytes) → Globals → Except Fault Globals
  | [], globals => .ok globals
  | input :: rest, globals => do
      let globals ← processInput input globals
      processInputs rest globals

theorem process_files_eq (argv : List Argument) (globals : Globals) :
    processFiles argv globals = processInputs (readable argv) globals := by
  induction argv generalizing globals with
  | nil => rfl
  | cons arg argv ih =>
      rw [processFiles, readable, List.filterMap_cons]
      cases arg.file with
      | none => exact ih globals
      | some content =>
          simp only [Option.map_some]
          rw [processInputs, processInput]
          cases readFile arg content with
          | error fault => rfl
          | ok fdat =>
              simp only [ok_bind]
              cases getBeU32 fdat.data 0 with
              | error fault => rfl
              | ok magic =>
                  simp only [ok_bind]
                  cases processFile (fileType magic) arg.name fdat magic globals with
                  | error fault => rfl
                  | ok next => exact ih next

theorem bl_magic_ne_zero {magic : Nat} (isBl : fileType magic = .bl) : magic ≠ 0 := by
  intro zero
  rw [zero] at isBl
  cases isBl

theorem accepted_of_other {input : Argument × Bytes} (other : typeOf input ≠ .bl) :
    accepted input = true := by
  rw [accepted, bne_iff_ne.mpr other, Bool.true_or]

/-- The entry is to be listed unless it is a rejected boot loader. -/
theorem added_listed (globals : Globals) (input : Argument × Bytes) (ver : Nat) :
    (globals.added (typeOf input) (slotOf input) ver).listed.Perm
      (if accepted input then slotOf input :: globals.listed else globals.listed) := by
  by_cases isBl : typeOf input = .bl
  · have shape : (globals.added .bl (slotOf input) ver).listed =
        globals.flashBls.filter FLList.live ++ [slotOf input].filter FLList.live ++
          globals.flashFiles ++ globals.otherFiles := by
      rw [← List.filter_append]
      rfl
    rw [isBl, shape]
    cases passes : accepted input with
    | true =>
        have marked : (slotOf input).live = true := by
          rw [slotOf, if_pos isBl, if_pos passes, FLList.live]
          exact bne_iff_ne.mpr (bl_magic_ne_zero isBl)
        rw [List.filter_cons_of_pos marked, List.filter_nil, if_pos rfl]
        simp only [List.append_assoc, Globals.listed]
        exact List.perm_middle
    | false =>
        have unmarked : ¬ (slotOf input).live = true := by
          rw [slotOf, if_pos isBl, passes]
          exact Bool.false_ne_true
        rw [List.filter_cons_of_neg unmarked, List.filter_nil, List.append_nil,
          if_neg Bool.false_ne_true]
        exact List.Perm.refl _
  · rw [accepted_of_other isBl, if_pos rfl]
    cases typ : typeOf input with
    | bl => exact absurd typ isBl
    | flash =>
        have shape : (globals.added .flash (slotOf input) ver).listed =
            (globals.flashBls.filter FLList.live ++ globals.flashFiles) ++
              slotOf input :: globals.otherFiles := by
          simp [Globals.listed, Globals.added, Globals.stored, Globals.files]
        rw [shape]
        exact List.perm_middle
    | other =>
        have shape : (globals.added .other (slotOf input) ver).listed =
            globals.listed ++ slotOf input :: [] := by
          simp [Globals.listed, Globals.added, Globals.stored, Globals.files]
        rw [shape]
        exact List.perm_middle.trans (by rw [List.append_nil])

theorem slot_text {input : Argument × Bytes} (passes : accepted input = true) :
    (slotOf input).text = expectedLine input := by
  rw [slotOf]
  by_cases isBl : typeOf input = .bl
  · rw [if_pos isBl, if_pos passes]
    rfl
  · rw [if_neg isBl]
    rfl

/-- After the loop every file had a defined outcome, and those that the check
accepts are to be listed. -/
theorem process_inputs_ok {inputs : List (Argument × Bytes)} {globals next : Globals}
    (done : processInputs inputs globals = .ok next) :
    (∀ input ∈ inputs, Defined input) ∧
      next.listed.Perm ((inputs.filter accepted).map slotOf ++ globals.listed) := by
  induction inputs generalizing globals with
  | nil =>
      cases done
      exact ⟨fun input member => absurd member List.not_mem_nil, List.Perm.refl _⟩
  | cons input rest ih =>
      rw [processInputs, bind_ok_iff] at done
      rcases done with ⟨between, first, later⟩
      rcases process_input_added first with ⟨defined, ver, rfl⟩
      rcases ih later with ⟨others, perm⟩
      refine ⟨List.forall_mem_cons.mpr ⟨defined, others⟩, ?_⟩
      have step := perm.trans ((added_listed globals input ver).append_left _)
      by_cases passes : accepted input = true
      · rw [if_pos passes] at step
        rw [List.filter_cons_of_pos passes, List.map_cons]
        exact step.trans List.perm_middle
      · rw [if_neg passes] at step
        rwa [List.filter_cons_of_neg passes]

/-- The loop completes when the arrays have room for the files of each type. -/
theorem process_inputs_ready {inputs : List (Argument × Bytes)} {globals : Globals}
    (defined : ∀ input ∈ inputs, Defined input)
    (short : ∀ input ∈ inputs, (baseName input.1.name).length < 64)
    (free : ∀ typ, (globals.files typ).length +
      inputs.countP (fun input => typeOf input = typ) ≤ MAX_FLASH) :
    ∃ next, processInputs inputs globals = .ok next := by
  induction inputs generalizing globals with
  | nil => exact ⟨_, rfl⟩
  | cons input rest ih =>
      have here := free (typeOf input)
      rw [List.countP_cons_of_pos (by simp)] at here
      have space : (globals.files (typeOf input)).length < MAX_FLASH := by omega
      rcases process_input_ready (defined input List.mem_cons_self)
        (short input List.mem_cons_self) space with ⟨between, first⟩
      rcases process_input_added first with ⟨_, ver, rfl⟩
      have room : ∀ typ, ((globals.added (typeOf input) (slotOf input) ver).files typ).length +
          rest.countP (fun other => typeOf other = typ) ≤ MAX_FLASH := by
        intro typ
        have before := free typ
        have grown := added_files_length globals (typeOf input) (slotOf input) ver typ
        by_cases same : typeOf input = typ
        · rw [List.countP_cons_of_pos (by simp [same])] at before
          rw [if_pos same] at grown
          omega
        · rw [List.countP_cons_of_neg (by simp [same])] at before
          rw [if_neg same] at grown
          omega
      rcases ih (fun other member => defined other (List.mem_cons_of_mem _ member))
        (fun other member => short other (List.mem_cons_of_mem _ member)) room with ⟨next, later⟩
      exact ⟨next, by rw [processInputs, first, ok_bind, later]⟩

/-! ## The whole run -/

theorem slot_name (input : Argument × Bytes) : (slotOf input).name = baseName input.1.name := by
  rw [slotOf]
  by_cases isBl : typeOf input = .bl
  · rw [if_pos isBl]
    cases accepted input with
    | true => rfl
    | false => rfl
  · rw [if_neg isBl]

theorem listed_at_start : Globals.listed ⟨[], [], [], 0⟩ = [] := rfl

/-- A completed run: the printed entries are those of the accepted files. -/
theorem main_ok {argv : List Argument} {sections : List Section}
    (done : main argv = .ok sections) :
    (∀ input ∈ readable argv, Defined input) ∧
      ∃ slots, Prints slots (linesOf sections) ∧
        slots.Perm (((readable argv).filter accepted).map slotOf) := by
  rw [main, process_files_eq, bind_ok_iff] at done
  rcases done with ⟨globals, processed, written⟩
  rcases process_inputs_ok processed with ⟨defined, listed⟩
  rcases write_ini_ok written with ⟨slots, printed, perm⟩
  refine ⟨defined, slots, printed, ?_⟩
  have all := perm.trans listed
  rwa [listed_at_start, List.append_nil] at all

theorem accepted_texts {inputs : List (Argument × Bytes)} {slots : List FLList}
    (perm : slots.Perm ((inputs.filter accepted).map slotOf)) :
    (slots.map FLList.text).Perm ((inputs.filter accepted).map expectedLine) := by
  have texts := perm.map FLList.text
  rw [List.map_map] at texts
  have same : (inputs.filter accepted).map (FLList.text ∘ slotOf) =
      (inputs.filter accepted).map expectedLine := by
    apply List.map_congr_left
    intro input member
    rw [Function.comp_apply, slot_text (List.mem_filter.mp member).2]
  rwa [same] at texts

theorem room_at_start {inputs : List (Argument × Bytes)}
    (few : ∀ typ, inputs.countP (fun input => typeOf input = typ) ≤ 0x100) (typ : FileType) :
    (Globals.files ⟨[], [], [], 0⟩ typ).length +
      inputs.countP (fun input => typeOf input = typ) ≤ MAX_FLASH := by
  have none : (Globals.files ⟨[], [], [], 0⟩ typ).length = 0 := by
    cases typ <;> rfl
  rw [none, Nat.zero_add, MAX_FLASH]
  exact few typ

/-- A run in which every line is there drops no entry and prints no shorter name. -/
theorem listable_of_listed {argv : List Argument} (listed : EveryInputListed argv) :
    ∀ input ∈ readable argv, Listable input := by
  rcases listed with ⟨sections, done, perm⟩
  rcases main_ok done with ⟨defined, slots, printed, shown⟩
  have texts := accepted_texts shown
  -- a rejected boot loader would leave a line missing
  have counted : ((readable argv).filter accepted).length = (readable argv).length := by
    have lines := printed.length_eq
    have slotCount := shown.length_eq
    have expected := perm.length_eq
    simp only [List.length_map] at slotCount expected
    omega
  have passes := List.length_filter_eq_length_iff.mp counted
  rw [List.filter_eq_self.mpr passes] at texts shown
  -- a percent sign would leave a line shorter
  have sizes : (linesOf sections).flatten.length = (slots.map FLList.text).flatten.length := by
    rw [perm.flatten.length_eq, texts.flatten.length_eq]
  have plain := (prints_length printed).2 sizes
  intro input member
  rw [listable_iff]
  refine ⟨defined input member, passes input member, ?_⟩
  rw [← slot_name]
  exact plain _ (shown.mem_iff.mpr (List.mem_map_of_mem member))

/-- Behind the first loop over accepted files the output completes. -/
theorem main_completes {argv : List Argument} {globals : Globals}
    (processed : processFiles argv ⟨[], [], [], 0⟩ = .ok globals)
    (passes : ∀ input ∈ readable argv, accepted input = true)
    (plain : ∀ input ∈ readable argv, percent ∉ baseName input.1.name) :
    ∃ sections, main argv = .ok sections := by
  have listed := (process_inputs_ok ((process_files_eq argv _).symm.trans processed)).2
  rw [listed_at_start, List.append_nil, List.filter_eq_self.mpr passes] at listed
  have names : ∀ slot ∈ globals.listed, percent ∉ slot.name := by
    intro slot member
    rcases List.mem_map.mp (listed.mem_iff.mp member) with ⟨input, inList, rfl⟩
    rw [slot_name]
    exact plain input inList
  rcases write_ini_plain names with ⟨sections, written⟩
  exact ⟨sections, by rw [main, processed, ok_bind, written]⟩

/-- Every file that opens is on exactly one line if and only if each of them
can be listed. The array sizes and the size of a name are given. -/
theorem inputs_listed_iff (argv : List Argument)
    (short : ∀ input ∈ readable argv, (baseName input.1.name).length < 64)
    (few : ∀ typ, (readable argv).countP (fun input => typeOf input = typ) ≤ 0x100) :
    EveryInputListed argv ↔ ∀ input ∈ readable argv, Listable input := by
  constructor
  · exact listable_of_listed
  · intro listable
    have parts : ∀ input ∈ readable argv, _ := fun input member =>
      (listable_iff input).mp (listable input member)
    have passes : ∀ input ∈ readable argv, accepted input = true := fun input member =>
      (parts input member).2.1
    have plain : ∀ input ∈ readable argv, percent ∉ baseName input.1.name := fun input member =>
      (parts input member).2.2
    rcases @process_inputs_ready (readable argv) ⟨[], [], [], 0⟩
      (fun input member => (parts input member).1) short
      (room_at_start few) with ⟨globals, processed⟩
    rw [← process_files_eq] at processed
    rcases main_completes processed passes plain with ⟨sections, done⟩
    refine ⟨sections, done, ?_⟩
    rcases main_ok done with ⟨_, slots, printed, shown⟩
    have texts := accepted_texts shown
    rw [List.filter_eq_self.mpr passes] at texts shown
    have names : ∀ slot ∈ slots, percent ∉ slot.name := by
      intro slot member
      rcases List.mem_map.mp (shown.mem_iff.mp member) with ⟨input, inList, rfl⟩
      rw [slot_name]
      exact plain input inList
    rwa [prints_eq printed names]

/-! ## Two command lines -/

def sampleBlHeader (crclen : Byte) : Bytes :=
  [0x43, 0x42, 0x07, 0x60] ++ zeros 8 ++ [0, 0, 0, crclen]

def sampleCb : Argument :=
  ⟨asciiText ".\\cb_1888.bin".toList, some (sampleBlHeader 0x40 ++ zeros 0x30), UInt32.ofNat, fun _ => 0⟩

def sampleXex : Argument :=
  ⟨asciiText ".\\xam.xex".toList, some [0x58, 0x45, 0x58, 0x32], UInt32.ofNat, fun _ => 0xCD⟩

theorem sample_cb_listable : Listable (sampleCb, sampleBlHeader 0x40 ++ zeros 0x30) := by
  refine ⟨by decide, by decide, by decide, by decide, ?_⟩
  intro isBl
  refine ⟨by decide +kernel, (0x10, 0x30), by decide +kernel, by decide⟩

theorem sample_xex_listable : Listable (sampleXex, [0x58, 0x45, 0x58, 0x32]) := by
  refine ⟨by decide, by decide, by decide, by decide, ?_⟩
  intro isBl
  have flash : typeOf (sampleXex, [0x58, 0x45, 0x58, 0x32]) = .flash := by decide +kernel
  rw [flash] at isBl
  cases isBl

theorem sample_inputs_listed : EveryInputListed [sampleCb, sampleXex] := by
  rw [inputs_listed_iff]
  · intro input member
    have pair : input ∈ [(sampleCb, sampleBlHeader 0x40 ++ zeros 0x30),
      (sampleXex, [0x58, 0x45, 0x58, 0x32])] := member
    rcases List.mem_cons.mp pair with rfl | pair
    · exact sample_cb_listable
    · rw [List.mem_singleton.mp pair]
      exact sample_xex_listable
  · decide
  · intro typ
    exact List.countP_le_length.trans (by decide)

def bareArgument : Argument :=
  ⟨asciiText "xam.xex".toList, some [0x58, 0x45, 0x58, 0x32], UInt32.ofNat, fun _ => 0xCD⟩

def lostArgument : Argument :=
  ⟨asciiText ".\\cb_1888.bin".toList, some (sampleBlHeader 0x20), UInt32.ofNat, fun _ => 0⟩

theorem bare_argument_stops : ¬ EveryInputListed [bareArgument] := by
  intro listed
  rcases listed with ⟨sections, done, _⟩
  have stopped : main [bareArgument] = .error .nullPointer := by rfl
  rw [stopped] at done
  cases done

theorem lost_argument_vanishes : ¬ EveryInputListed [lostArgument] := by
  intro listed
  rcases listed with ⟨sections, done, perm⟩
  have nothing : main [lostArgument] = .ok [] := by rfl
  rw [nothing] at done
  cases done
  have lengths := perm.length_eq
  cases lengths

theorem single_argument_few (arg : Argument) (typ : FileType) :
    (readable [arg]).countP (fun input => typeOf input = typ) ≤ 0x100 := by
  have one : (readable [arg]).length ≤ 1 := List.length_filterMap_le _ _
  exact (List.countP_le_length.trans one).trans (by decide)

/-- Both command lines are within the array and name sizes. -/
theorem unlisted_inputs :
    ((∀ input ∈ readable [bareArgument], (baseName input.1.name).length < 64) ∧
      (∀ typ, (readable [bareArgument]).countP (fun input => typeOf input = typ) ≤ 0x100) ∧
      ¬ EveryInputListed [bareArgument]) ∧
    (∀ input ∈ readable [lostArgument], (baseName input.1.name).length < 64) ∧
      (∀ typ, (readable [lostArgument]).countP (fun input => typeOf input = typ) ≤ 0x100) ∧
      ¬ EveryInputListed [lostArgument] := by
  constructor
  · exact ⟨by decide, single_argument_few _, bare_argument_stops⟩
  · exact ⟨by decide, single_argument_few _, lost_argument_vanishes⟩

end XeBuild.IniCreator
