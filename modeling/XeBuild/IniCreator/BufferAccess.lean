import XeBuild.IniCreator.InputsListed

/-!
# The accesses to the buffer of a file

`main`, `processFile` and `checkBlMagic` again, with every byte that a checksum
reads. The length of a boot loader is only compared with its own length field: the
range that is cleared for its type may lie behind the file and behind the buffer.
-/

namespace XeBuild.IniCreator

open ListRange Runs

set_option autoImplicit false

/-! ## The reads -/

def crcRead (buf : Bytes) (offset : Nat) : Nat → UInt32 → Except Fault UInt32
  | 0, oldcrc32 => .ok (~~~ oldcrc32)
  | len + 1, oldcrc32 =>
      match buf[offset]? with
      | some octet => crcRead buf (offset + 1) len (updc32 octet oldcrc32)
      | none => .error (.load offset)

def crc32Read (buf : Bytes) (len : Nat) : Except Fault UInt32 := crcRead buf 0 len 0xFFFFFFFF

/-- `checkBlMagic`; without an entry when it returns 0. -/
def checkBlRead (fdat : RFileInf) (magic flashVer : Nat) : Except Fault (Nat × Option FLList) := do
  let crclen ← getBeU32 fdat.data 0xC
  if fdat.len < crclen then return (flashVer, none)
  else
    match blFill (blType magic) with
    | none => return (flashVer, none)
    | some fill =>
        if fill.1 + fill.2 ≤ fdat.data.length then do
          let crc ← crc32Read (patch fdat.data fill.1 (zeros fill.2)) crclen
          return (newFlashVer magic flashVer, some ⟨[], crc, magic⟩)
        else .error (.store fdat.data.length)

def processRead (typ : FileType) (fdat : RFileInf) (magic flashVer : Nat) :
    Except Fault (Nat × Option FLList) :=
  match typ with
  | .bl => checkBlRead fdat magic flashVer
  | .flash => do
      let crc ← crc32Read fdat.data fdat.len
      return (flashVer, some ⟨[], crc, 0⟩)
  | .other => do
      let crc ← crc32Read fdat.data fdat.len
      return (flashVer, some ⟨[], crc, 0⟩)

/-- `main` between `readFile` and `free`. -/
def fileRead (fdat : RFileInf) (flashVer : Nat) : Except Fault (Nat × Option FLList) := do
  let magic ← getBeU32 fdat.data 0
  processRead (fileType magic) fdat magic flashVer

/-! ## What is to hold -/

def loadedFile (input : Argument × Bytes) : RFileInf :=
  ⟨buffer input.1 input.2, getFileSize input.1 input.2⟩

/-- Nothing outside the buffer is read or cleared, the checksum of an accepted boot
loader is taken over bytes of the file, and one that ends in front of the end of its
cleared range is rejected. -/
structure BufferKept (input : Argument × Bytes) : Prop where
  inside : ∀ flashVer, Returns (fileRead (loadedFile input) flashVer)
  summed : typeOf input = .bl → ∀ flashVer ver slot,
    checkBlRead (loadedFile input) (magicOf input) flashVer = .ok (ver, some slot) →
      ∃ fill, fillOf input = some fill ∧
        slot.crc = crc32buf (patch (loadedFile input).data fill.1 (zeros fill.2))
          (crclenOf input) ∧
        ∀ index < crclenOf input, index < input.2.length ∧
          (loadedFile input).data[index]? = input.2[index]?
  rejected : typeOf input = .bl → ∀ fill, fillOf input = some fill →
    getFileSize input.1 input.2 < fill.1 + fill.2 →
      ∀ flashVer, checkBlRead (loadedFile input) (magicOf input) flashVer = .ok (flashVer, none)

/-- The file has a byte, and a boot loader of a known type that is as long as its
length field says is as long as the range that is cleared for its type. -/
structure LongEnough (input : Argument × Bytes) : Prop where
  nonempty : 0 < getFileSize input.1 input.2
  cleared : typeOf input = .bl → crclenOf input ≤ getFileSize input.1 input.2 →
    ∀ fill, fillOf input = some fill → fill.1 + fill.2 ≤ getFileSize input.1 input.2

/-! ## The checksum -/

theorem crc_read_eq {buf : Bytes} {offset len : Nat} {crc : UInt32}
    (inside : offset + len ≤ buf.length) :
    crcRead buf offset len crc =
      .ok (~~~ ((buf.drop offset).take len).foldl (fun crc octet => updc32 octet crc) crc) := by
  induction len generalizing offset crc with
  | zero => rfl
  | succ len ih =>
      have here : offset < buf.length := by omega
      have rest := @ih (offset + 1) (updc32 buf[offset] crc) (by omega)
      rw [crcRead, List.getElem?_eq_getElem here, List.drop_eq_getElem_cons here,
        List.take_succ_cons, List.foldl_cons]
      exact rest

theorem crc_32_read {buf : Bytes} {len : Nat} (inside : len ≤ buf.length) :
    crc32Read buf len = .ok (crc32buf buf len) := by
  rw [crc32Read, crc_read_eq (by omega), crc32buf, List.drop_zero]

/-! ## The faithful model -/

section Model

variable {fdat : RFileInf} {magic flashVer : Nat}

theorem check_bl_magic_reads (within : fdat.len ≤ fdat.data.length) :
    checkBlMagic fdat magic flashVer =
      (checkBlRead fdat magic flashVer).map fun checked =>
        (checked.1, checked.2.getD ⟨[], 0, 0⟩) := by
  rw [checkBlMagic, checkBlRead]
  cases getBeU32 fdat.data 0xC with
  | error fault => rfl
  | ok crclen =>
      rw [ok_bind, ok_bind]
      by_cases long : fdat.len < crclen
      · rw [if_pos long, if_pos long]
        rfl
      rw [if_neg long, if_neg long]
      cases blFill (blType magic) with
      | none => rfl
      | some fill =>
          by_cases inside : fill.1 + fill.2 ≤ fdat.data.length
          · have summed : crclen ≤ (patch fdat.data fill.1 (zeros fill.2)).length := by
              rw [patch_length (by rw [zeros_length]; exact inside)]
              omega
            simp only [if_pos inside, crc_32_read summed]
            rfl
          · simp only [if_neg inside]
            rfl

theorem process_file_reads (within : fdat.len ≤ fdat.data.length) (typ : FileType) (name : Bytes)
    (globals : Globals) :
    processFile typ name fdat magic globals = (do
      let checked ← processRead typ fdat magic globals.flashVer
      let slot ← copyName (checked.2.getD ⟨[], 0, 0⟩) name
      let files ← addSlot (globals.files typ) slot
      return { globals.stored files typ with flashVer := checked.1 }) := by
  cases typ with
  | bl =>
      rw [processFile, check_bl_magic_reads within, processRead]
      cases checkBlRead fdat magic globals.flashVer with
      | error fault => rfl
      | ok checked => rfl
  | flash =>
      rw [process_file_other (by decide), processRead, crc_32_read within]
      rfl
  | other =>
      rw [process_file_other (by decide), processRead, crc_32_read within]
      rfl

end Model

/-- The body of the first loop is `fileRead` and what it does with the arrays. -/
theorem process_input_reads {input : Argument × Bytes} {fdat : RFileInf} (globals : Globals)
    (loaded : readFile input.1 input.2 = .ok fdat) (within : fdat.len ≤ fdat.data.length) :
    processInput input globals = (do
      let magic ← getBeU32 fdat.data 0
      let checked ← processRead (fileType magic) fdat magic globals.flashVer
      let slot ← copyName (checked.2.getD ⟨[], 0, 0⟩) input.1.name
      let files ← addSlot (globals.files (fileType magic)) slot
      return { globals.stored files (fileType magic) with flashVer := checked.1 }) := by
  rw [processInput, loaded, ok_bind]
  cases getBeU32 fdat.data 0 with
  | error fault => rfl
  | ok magic =>
      rw [ok_bind, ok_bind]
      exact process_file_reads within (fileType magic) input.1.name globals

/-! ## The files that are read as they should be -/

section Loaded

variable {input : Argument × Bytes} {flashVer : Nat}

theorem read_file_ok {fdat : RFileInf} (loaded : readFile input.1 input.2 = .ok fdat) :
    fdat = loadedFile input ∧ getFileSize input.1 input.2 ≤ bufsize (getFileSize input.1 input.2) := by
  rw [readFile] at loaded
  split at loaded
  · next room =>
      cases loaded
      exact ⟨rfl, room⟩
  · cases loaded

theorem loaded_within (room : getFileSize input.1 input.2 ≤ bufsize (getFileSize input.1 input.2)) :
    (loadedFile input).len ≤ (loadedFile input).data.length := by
  rw [loadedFile, buffer_length room]
  exact room

/-- The bytes of the buffer in front of the length are those of the file. -/
theorem loaded_bytes {index : Nat} (measured : getFileSize input.1 input.2 ≤ input.2.length)
    (before : index < (loadedFile input).len) :
    index < input.2.length ∧ (loadedFile input).data[index]? = input.2[index]? := by
  have within : index < getFileSize input.1 input.2 := before
  have taken : index < (input.2.take (getFileSize input.1 input.2)).length := by
    rw [List.length_take]
    omega
  refine ⟨by omega, ?_⟩
  rw [loadedFile, buffer, List.getElem?_append_left taken, List.getElem?_take_of_lt within]

theorem check_bl_read_long (header : 0xC + 4 ≤ (loadedFile input).data.length)
    (long : (loadedFile input).len < crclenOf input) :
    checkBlRead (loadedFile input) (magicOf input) flashVer = .ok (flashVer, none) := by
  have crclen : getBeU32 (loadedFile input).data 0xC = .ok (crclenOf input) :=
    (get_be_u32_ok_iff _ _ _).mpr ⟨header, rfl⟩
  rw [checkBlRead, crclen, ok_bind, if_pos long]
  rfl

theorem check_bl_read_unknown (header : 0xC + 4 ≤ (loadedFile input).data.length)
    (unknown : fillOf input = none) :
    checkBlRead (loadedFile input) (magicOf input) flashVer = .ok (flashVer, none) := by
  by_cases long : (loadedFile input).len < crclenOf input
  · exact check_bl_read_long header long
  have crclen : getBeU32 (loadedFile input).data 0xC = .ok (crclenOf input) :=
    (get_be_u32_ok_iff _ _ _).mpr ⟨header, rfl⟩
  rw [checkBlRead, crclen, ok_bind, if_neg long, ← fillOf, unknown]
  rfl

section Known

variable {fill : Nat × Nat} (header : 0xC + 4 ≤ (loadedFile input).data.length)
variable (fits : crclenOf input ≤ (loadedFile input).len) (known : fillOf input = some fill)
include header fits known

theorem check_bl_read_outside (outside : ¬ fill.1 + fill.2 ≤ (loadedFile input).data.length) :
    checkBlRead (loadedFile input) (magicOf input) flashVer =
      .error (.store (loadedFile input).data.length) := by
  have crclen : getBeU32 (loadedFile input).data 0xC = .ok (crclenOf input) :=
    (get_be_u32_ok_iff _ _ _).mpr ⟨header, rfl⟩
  rw [checkBlRead, crclen, ok_bind, if_neg (Nat.not_lt.mpr fits), ← fillOf, known]
  exact if_neg outside

theorem check_bl_read_summed (within : (loadedFile input).len ≤ (loadedFile input).data.length)
    (inside : fill.1 + fill.2 ≤ (loadedFile input).data.length) :
    checkBlRead (loadedFile input) (magicOf input) flashVer =
      .ok (newFlashVer (magicOf input) flashVer, some ⟨[], crc32buf
        (patch (loadedFile input).data fill.1 (zeros fill.2)) (crclenOf input),
        magicOf input⟩) := by
  have crclen : getBeU32 (loadedFile input).data 0xC = .ok (crclenOf input) :=
    (get_be_u32_ok_iff _ _ _).mpr ⟨header, rfl⟩
  have summed : crclenOf input ≤ (patch (loadedFile input).data fill.1 (zeros fill.2)).length := by
    rw [patch_length (by rw [zeros_length]; exact inside)]
    exact Nat.le_trans fits within
  rw [checkBlRead, crclen, ok_bind, if_neg (Nat.not_lt.mpr fits), ← fillOf, known]
  simp only [if_pos inside, crc_32_read summed]
  rfl

end Known

theorem check_bl_read_accepted (header : 0xC + 4 ≤ (loadedFile input).data.length)
    (within : (loadedFile input).len ≤ (loadedFile input).data.length) {ver : Nat} {slot : FLList}
    (passed : checkBlRead (loadedFile input) (magicOf input) flashVer = .ok (ver, some slot)) :
    crclenOf input ≤ (loadedFile input).len ∧ ∃ fill, fillOf input = some fill ∧
      slot.crc = crc32buf (patch (loadedFile input).data fill.1 (zeros fill.2))
        (crclenOf input) := by
  by_cases long : (loadedFile input).len < crclenOf input
  · rw [check_bl_read_long header long] at passed
    cases passed
  have fits := Nat.not_lt.mp long
  cases known : fillOf input with
  | none =>
      rw [check_bl_read_unknown header known] at passed
      cases passed
  | some fill =>
      by_cases inside : fill.1 + fill.2 ≤ (loadedFile input).data.length
      · rw [check_bl_read_summed header fits known within inside] at passed
        cases passed
        exact ⟨fits, fill, rfl, rfl⟩
      · rw [check_bl_read_outside header fits known inside] at passed
        cases passed

theorem file_read_eq (front : 0 + 4 ≤ (loadedFile input).data.length) :
    fileRead (loadedFile input) flashVer =
      processRead (typeOf input) (loadedFile input) (magicOf input) flashVer := by
  have magic : getBeU32 (loadedFile input).data 0 = .ok (magicOf input) :=
    (get_be_u32_ok_iff _ _ _).mpr ⟨front, rfl⟩
  rw [fileRead, magic, ok_bind, typeOf]

theorem long_enough_reads (enough : LongEnough input)
    (header : 0xC + 4 ≤ (loadedFile input).data.length)
    (within : (loadedFile input).len ≤ (loadedFile input).data.length) :
    Returns (fileRead (loadedFile input) flashVer) := by
  rw [file_read_eq (by omega)]
  cases typ : typeOf input with
  | flash =>
      rw [processRead, crc_32_read within]
      exact returns_ok _
  | other =>
      rw [processRead, crc_32_read within]
      exact returns_ok _
  | bl =>
      rw [processRead]
      by_cases long : (loadedFile input).len < crclenOf input
      · rw [check_bl_read_long header long]
        exact returns_ok _
      cases known : fillOf input with
      | none =>
          rw [check_bl_read_unknown header known]
          exact returns_ok _
      | some fill =>
          have fits := Nat.not_lt.mp long
          have cleared := enough.cleared typ fits fill known
          rw [check_bl_read_summed header fits known within (Nat.le_trans cleared within)]
          exact returns_ok _

theorem kept_iff_long_enough
    (room : getFileSize input.1 input.2 ≤ bufsize (getFileSize input.1 input.2))
    (measured : getFileSize input.1 input.2 ≤ input.2.length) :
    BufferKept input ↔ LongEnough input := by
  have within := loaded_within room
  have header := buffer_header room
  constructor
  · intro kept
    have nonempty : 0 < getFileSize input.1 input.2 := by
      rcases kept.inside 0 with ⟨result, done⟩
      rcases bind_ok_iff.mp done with ⟨magic, read, _⟩
      exact header.2 ((get_be_u32_ok_iff _ _ _).mp read).1
    refine ⟨nonempty, ?_⟩
    intro isBl fits fill known
    by_contra short
    have rejected := kept.rejected isBl fill known (Nat.not_le.mp short) 0
    by_cases inside : fill.1 + fill.2 ≤ (loadedFile input).data.length
    · rw [check_bl_read_summed (header.1 nonempty) fits known within inside, Except.ok.injEq,
        Prod.mk.injEq] at rejected
      cases rejected.2
    · rw [check_bl_read_outside (header.1 nonempty) fits known inside] at rejected
      cases rejected
  · intro enough
    have front := header.1 enough.nonempty
    refine ⟨fun flashVer => long_enough_reads enough front within, ?_, ?_⟩
    · intro isBl flashVer ver slot passed
      rcases check_bl_read_accepted front within passed with ⟨fits, fill, known, sum⟩
      refine ⟨fill, known, sum, ?_⟩
      intro index before
      exact loaded_bytes measured (Nat.lt_of_lt_of_le before fits)
    · intro isBl fill known short flashVer
      apply check_bl_read_long front
      by_contra fits
      exact absurd (enough.cleared isBl (Nat.not_lt.mp fits) fill known) (Nat.not_le.mpr short)

/-- A loaded file is treated as it should exactly when it has a byte and, as a boot
loader that is accepted, all of the range that is cleared. `ftell` may lose high bits of
the size, and does not give more than there is. -/
theorem buffer_kept_iff {fdat : RFileInf}
    (measured : (input.1.ftell input.2.length).toNat ≤ input.2.length)
    (loaded : readFile input.1 input.2 = .ok fdat) :
    fdat = loadedFile input ∧ (BufferKept input ↔ LongEnough input) :=
  ⟨(read_file_ok loaded).1, kept_iff_long_enough (read_file_ok loaded).2 measured⟩

end Loaded

/-! ## Three boot loaders -/

theorem whole_boot_loader_kept : BufferKept (sampleCb, sampleBlHeader 0x40 ++ zeros 0x30) := by
  have loaded : readFile sampleCb (sampleBlHeader 0x40 ++ zeros 0x30) =
      .ok (loadedFile (sampleCb, sampleBlHeader 0x40 ++ zeros 0x30)) := by rfl
  apply (buffer_kept_iff (by decide) loaded).2.mpr
  refine ⟨by decide, ?_⟩
  intro isBl fits fill known
  have cb : fillOf (sampleCb, sampleBlHeader 0x40 ++ zeros 0x30) = some (0x10, 0x30) := by
    decide +kernel
  rw [cb] at known
  cases known
  decide

def headerOnly : Argument × Bytes := (sampleCb, sampleBlHeader 0x10)

/-- The range of the type ends in the buffer and behind the file. -/
def paddedShort : Argument × Bytes := (sampleCb, sampleBlHeader 0x10 ++ zeros 0x21)

theorem cleared_short {input : Argument × Bytes} (isBl : typeOf input = .bl)
    (fits : crclenOf input ≤ getFileSize input.1 input.2) {fill : Nat × Nat}
    (known : fillOf input = some fill) (short : getFileSize input.1 input.2 < fill.1 + fill.2) :
    ¬ LongEnough input := by
  intro enough
  exact absurd (enough.cleared isBl fits fill known) (Nat.not_le.mpr short)

theorem header_only_overrun : fileRead (loadedFile headerOnly) 0 = .error (.store 0x10) := by
  have cb : typeOf headerOnly = .bl := by decide +kernel
  have known : fillOf headerOnly = some (0x10, 0x30) := by decide +kernel
  have fits : crclenOf headerOnly ≤ (loadedFile headerOnly).len := by decide +kernel
  have size : (loadedFile headerOnly).data.length = 0x10 := by decide
  rw [file_read_eq (by rw [size]; decide), cb, processRead,
    check_bl_read_outside (by rw [size]) fits known (by rw [size]; decide), size]

/-- Of the first file 0x30 bytes behind the buffer are cleared; the second is accepted
though its last 0xF cleared bytes are not in the file; of an empty file the magic is read. -/
theorem short_files_not_kept :
    (readFile headerOnly.1 headerOnly.2 = .ok (loadedFile headerOnly) ∧
      fileRead (loadedFile headerOnly) 0 = .error (.store 0x10) ∧ ¬ BufferKept headerOnly) ∧
    (readFile paddedShort.1 paddedShort.2 = .ok (loadedFile paddedShort) ∧
      ¬ BufferKept paddedShort) ∧
    (readFile sampleCb [] = .ok (loadedFile (sampleCb, [])) ∧
      fileRead (loadedFile (sampleCb, [])) 0 = .error (.load 0) ∧
      ¬ BufferKept (sampleCb, [])) := by
  refine ⟨⟨rfl, header_only_overrun, ?_⟩, ⟨rfl, ?_⟩, ⟨rfl, rfl, ?_⟩⟩
  · rw [kept_iff_long_enough (by decide) (by decide)]
    have cb : fillOf headerOnly = some (0x10, 0x30) := by decide +kernel
    exact cleared_short (by decide +kernel) (by decide +kernel) cb (by decide)
  · rw [kept_iff_long_enough (by decide) (by decide)]
    have cb : fillOf paddedShort = some (0x10, 0x30) := by decide +kernel
    exact cleared_short (by decide +kernel) (by decide +kernel) cb (by decide)
  · rw [kept_iff_long_enough (by decide) (by decide)]
    intro enough
    exact absurd enough.nonempty (by decide)

end XeBuild.IniCreator
