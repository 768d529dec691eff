import XeBuild.Iso2svod.XexAccess

/-!
# Accesses of the image layout

The rest of `getXexInfo`: the decryption in place, the raw records that are
copied to the output image, and the SPA section that is looked for when the
image is laid out. The file that the layout is read from is the decrypted one,
so its conditions are on `readyFile`.
-/

namespace XeBuild.Iso2svod

open CheckedBuffer ListRange Runs SearchLoop

set_option autoImplicit false

/-! ## The signature -/

/-- The bytes that are hashed lie in the file; `InfoSize` is taken as it is. -/
def SignedInside (buf : Bytes) (xsec : Nat) : Prop :=
  xsec + 0x108 + sub32 (be32 buf (xsec + 0x108)) 0x100 ≤ buf.length

theorem returns_signature_bind_iff {env : XexEnv} {buf : Bytes} {xsec : Nat} {Result : Type}
    {next : Except Fault Result} (security : xsec + 0x150 ≤ buf.length) :
    Returns (xexCheckSignature env buf xsec >>= fun _ => next) ↔
      SignedInside buf xsec ∧ Returns next := by
  rw [xexCheckSignature, bind_assoc, returns_be32_bind_iff, bind_assoc, returns_be32_bind_iff,
    bind_assoc, returns_load_bind_iff, bind_assoc, returns_load_bind_iff]
  constructor
  · intro steps
    exact ⟨steps.2.2.1, steps.2.2.2.2⟩
  · intro both
    exact ⟨by omega, by omega, both.1, by omega, both.2⟩

/-! ## Decryption -/

def decryptedFile (env : XexEnv) (buf : Bytes) (xsec headers : Nat) : Bytes :=
  patch buf headers
    (env.xexDoDecrypt (be32 buf (xsec + 0x10C) / 4 % 2 == 1) (slice buf (xsec + 0x150) 0x10)
      (slice buf headers (sub32 buf.length headers)))

def Encrypted (buf : Bytes) (fdesc : Nat) : Prop := be16 buf (fdesc + 4) % 2 = 1

instance (buf : Bytes) (fdesc : Nat) : Decidable (Encrypted buf fdesc) := Nat.decEq _ _

def readyFile (env : XexEnv) (buf : Bytes) (xsec headers fdesc : Nat) : Bytes :=
  if Encrypted buf fdesc then decryptedFile env buf xsec headers else buf

section Decryption

variable {env : XexEnv} {buf : Bytes} {xsec headers fdesc : Nat}

theorem behind_headers (int : buf.length < 0x80000000) :
    headers + sub32 buf.length headers ≤ buf.length ↔ headers ≤ buf.length := by
  constructor
  · intro inside
    omega
  · intro inside
    rw [sub32_of_le inside (by omega)]
    omega

theorem slice_behind_headers (int : buf.length < 0x80000000) (inside : headers ≤ buf.length) :
    (slice buf headers (sub32 buf.length headers)).length = buf.length - headers := by
  rw [slice_length, sub32_of_le inside (by omega)]
  omega

theorem decrypted_file_length (int : buf.length < 0x80000000) (inside : headers ≤ buf.length) :
    (decryptedFile env buf xsec headers).length = buf.length := by
  rw [decryptedFile, patch_length]
  rw [env.decrypt_length, slice_behind_headers int inside]
  omega

/-- The image key and everything behind the headers have to be in the file. -/
theorem returns_decrypt_bind_iff {Result : Type} {next : Bytes → Except Fault Result}
    (int : buf.length < 0x80000000) :
    Returns (decryptImage env buf xsec headers >>= next) ↔
      (xsec + 0x160 ≤ buf.length ∧ headers ≤ buf.length) ∧
        Returns (next (decryptedFile env buf xsec headers)) := by
  rw [decryptImage, bind_assoc, returns_be32_bind_iff, bind_assoc, returns_load_bind_iff,
    bind_assoc, returns_load_bind_iff, behind_headers int]
  by_cases inside : headers ≤ buf.length
  · rw [store_inside, ok_bind]
    · constructor
      · intro steps
        exact ⟨⟨steps.2.1, inside⟩, steps.2.2.2⟩
      · intro both
        exact ⟨by omega, both.1.1, inside, both.2⟩
    · rw [env.decrypt_length, slice_behind_headers int inside]
      omega
  · constructor
    · intro steps
      exact absurd steps.2.2.1 inside
    · intro both
      exact absurd both.1.2 inside

theorem returns_ready_bind_iff {Result : Type} {next : Bytes → Except Fault Result}
    (int : buf.length < 0x80000000) :
    Returns (if be16 buf (fdesc + 4) % 2 = 1 then decryptImage env buf xsec headers >>= next
        else .ok buf >>= next) ↔
      (Encrypted buf fdesc → xsec + 0x160 ≤ buf.length ∧ headers ≤ buf.length) ∧
        Returns (next (readyFile env buf xsec headers fdesc)) := by
  rw [readyFile]
  by_cases encrypted : Encrypted buf fdesc
  · have odd : be16 buf (fdesc + 4) % 2 = 1 := encrypted
    rw [if_pos encrypted, if_pos odd, returns_decrypt_bind_iff int,
      forall_prop_of_true encrypted]
  · have even : ¬ be16 buf (fdesc + 4) % 2 = 1 := encrypted
    rw [if_neg encrypted, if_neg even, ok_bind]
    exact (and_iff_right fun holds => absurd holds encrypted).symm

theorem ready_file_length (int : buf.length < 0x80000000)
    (inside : Encrypted buf fdesc → headers ≤ buf.length) :
    (readyFile env buf xsec headers fdesc).length = buf.length := by
  rw [readyFile]
  split_ifs with encrypted
  · exact decrypted_file_length int (inside encrypted)
  · rfl

end Decryption

/-! ## Raw records -/

def rawData (buf : Bytes) (fdesc i : Nat) : Nat := be32 buf (fdesc + 8 + 8 * i)
def rawZeros (buf : Bytes) (fdesc i : Nat) : Nat := be32 buf (fdesc + 8 + 8 * i + 4)

def rawCount (buf : Bytes) (fdesc : Nat) : Nat := sub32 (be32 buf fdesc) 8 / 8

/-- Where the data of record `i` starts in the file, and where it goes. -/
def rawSource (buf : Bytes) (fdesc headers : Nat) : Nat → Nat
  | 0 => headers
  | i + 1 => rawSource buf fdesc headers i + rawData buf fdesc i

def rawDest (buf : Bytes) (fdesc : Nat) : Nat → Nat
  | 0 => 0
  | i + 1 => u32 (rawDest buf fdesc i + rawData buf fdesc i + rawZeros buf fdesc i)

structure RecordInside (buf : Bytes) (fdesc headers imageSize i : Nat) : Prop where
  record : fdesc + 0x10 + 8 * i ≤ buf.length
  source : rawData buf fdesc i ≠ 0 →
    rawSource buf fdesc headers i + rawData buf fdesc i ≤ buf.length
  dest : rawData buf fdesc i ≠ 0 → rawDest buf fdesc i + rawData buf fdesc i ≤ imageSize

structure AtRecord (buf : Bytes) (fdesc headers imageSize i : Nat) (s : RawCopy) : Prop where
  image : s.outbuf.length = imageSize
  source : s.curBuf = rawSource buf fdesc headers i
  dest : s.tmp32 = rawDest buf fdesc i

section RawRecords

variable {buf : Bytes} {fdesc headers imageSize i rounds : Nat} {s s' : RawCopy}

theorem record_returns_iff (ahead : AtRecord buf fdesc headers imageSize i s) :
    Returns (copyRawRecord buf fdesc i s) ↔ RecordInside buf fdesc headers imageSize i := by
  rw [copyRawRecord, returns_be32_bind_iff, returns_be32_bind_iff]
  by_cases noData : rawData buf fdesc i = 0
  · have skipped : be32 buf (fdesc + 8 + 8 * i) = 0 := noData
    rw [if_pos skipped]
    constructor
    · intro steps
      exact ⟨by omega, fun data => absurd noData data, fun data => absurd noData data⟩
    · intro inside
      have record := inside.record
      exact ⟨by omega, by omega, returns_ok _⟩
  · have copied : be32 buf (fdesc + 8 + 8 * i) ≠ 0 := noData
    rw [if_neg copied, returns_load_bind_iff, returns_bind_iff, ahead.source]
    constructor
    · intro steps
      rcases steps with ⟨_, record, source, ⟨outbuf, stored⟩, _⟩
      have dest := (store_ok_iff.mp stored).1
      rw [slice_length_of_le source, ahead.image, ahead.dest] at dest
      exact ⟨by omega, fun _ => source, fun _ => dest⟩
    · intro inside
      have record := inside.record
      have source := inside.source noData
      refine ⟨by omega, by omega, source, ?_, fun outbuf _ => returns_ok _⟩
      have size : (slice buf (rawSource buf fdesc headers i)
          (be32 buf (fdesc + 8 + 8 * i))).length = rawData buf fdesc i :=
        slice_length_of_le source
      refine ⟨_, store_inside ?_⟩
      rw [size, ahead.image, ahead.dest]
      exact inside.dest noData

theorem record_step (ahead : AtRecord buf fdesc headers imageSize i s)
    (run : copyRawRecord buf fdesc i s = .ok s') :
    AtRecord buf fdesc headers imageSize (i + 1) s' := by
  rcases bind_ok_iff.mp run with ⟨rds, gotRds, run⟩
  rcases bind_ok_iff.mp run with ⟨zds, gotZds, run⟩
  have sameRds : rds = rawData buf fdesc i := (load_be32_iff.mp gotRds).2
  have sameZds : zds = rawZeros buf fdesc i := (load_be32_iff.mp gotZds).2
  by_cases noData : rds = 0
  · rw [if_pos noData] at run
    cases run
    constructor
    · exact ahead.image
    · rw [rawSource, ← sameRds, noData]
      exact ahead.source
    · rw [rawDest, ← sameRds, ← sameZds, ← ahead.dest, noData]
      rfl
  · rw [if_neg noData] at run
    rcases bind_ok_iff.mp run with ⟨data, _, run⟩
    rcases bind_ok_iff.mp run with ⟨outbuf, stored, run⟩
    cases run
    rcases store_ok_iff.mp stored with ⟨dest, rfl⟩
    constructor
    · exact (patch_length dest).trans ahead.image
    · rw [rawSource, ← sameRds, ← ahead.source]
    · rw [rawDest, ← sameRds, ← sameZds, ← ahead.dest]
      simp only [u32]
      omega

theorem copy_raw_returns_iff (ahead : AtRecord buf fdesc headers imageSize i s) :
    Returns (copyRaw buf fdesc rounds i s) ↔
      ∀ j, i ≤ j → j < i + rounds → RecordInside buf fdesc headers imageSize j := by
  induction rounds generalizing i s with
  | zero =>
      rw [copyRaw]
      exact iff_of_true (returns_ok s) fun j after before => by omega
  | succ rounds ih =>
      rw [copyRaw, returns_bind_iff, record_returns_iff ahead]
      constructor
      · intro steps j after before
        rcases (record_returns_iff ahead).mpr steps.1 with ⟨s', run⟩
        rcases Nat.eq_or_lt_of_le after with rfl | later
        · exact steps.1
        · exact (ih (record_step ahead run)).mp (steps.2 s' run) j later (by omega)
      · intro records
        refine ⟨records i (Nat.le_refl i) (by omega), ?_⟩
        intro s' run
        apply (ih (record_step ahead run)).mpr
        intro j after before
        exact records j (by omega) (by omega)

end RawRecords

/-! ## The image and its SPA section -/

/-- What `unpackXexData` is called with, and whether it fails. -/
def unpacked (env : XexEnv) (buf : Bytes) (xsec fdesc imageSize : Nat) : Option Bytes :=
  env.unpackXexData buf (be32 buf 8) (sub32 buf.length (be32 buf 8)) (zeros imageSize)
    (be32 buf (xsec + 4)) (be32 buf (fdesc + 8)) (be32 buf (fdesc + 0xC))

/-- The image is complete: the format is raw, or compressed and it is unpacked. -/
def LaidOut (env : XexEnv) (buf : Bytes) (xsec fdesc imageSize : Nat) : Prop :=
  be16 buf (fdesc + 6) = XEX_DATA_FORMAT_RAW ∨
    (be16 buf (fdesc + 6) = XEX_DATA_FORMAT_COMPRESSED ∧
      unpacked env buf xsec fdesc imageSize ≠ none)

structure LayoutInside (env : XexEnv) (buf : Bytes) (xsec headers fdesc titleId imageSize : Nat) :
    Prop where
  format : fdesc + 8 ≤ buf.length
  raw : be16 buf (fdesc + 6) = XEX_DATA_FORMAT_RAW →
    ∀ i < rawCount buf fdesc, RecordInside buf fdesc headers imageSize i
  compressed : be16 buf (fdesc + 6) = XEX_DATA_FORMAT_COMPRESSED → fdesc + 0x10 ≤ buf.length
  sections : LaidOut env buf xsec fdesc imageSize → SectionsInside (hexX titleId) buf

section Layout

variable {env : XexEnv} {buf : Bytes} {xsec headers fdesc titleId imageSize : Nat}

theorem read_spa_returns_iff {outbuf : Bytes} (security : xsec + 0x150 ≤ buf.length)
    (count : 0x18 ≤ buf.length) :
    Returns (readSpa env buf xsec titleId outbuf) ↔ SectionsInside (hexX titleId) buf := by
  rw [readSpa, returns_bind_iff, spa_offset_returns_iff count]
  apply and_iff_left
  intro place _
  dsimp only
  split_ifs with absent
  · exact returns_ok _
  · rw [returns_be32_bind_iff, returns_be32_bind_iff]
    refine ⟨by omega, by omega, ?_⟩
    split_ifs
    · exact returns_ok _
    · exact returns_ok _

section Continued

variable {Result : Type} {next : Option Bytes → Except Fault Result} {searched : Prop}

theorem lay_out_raw_iff (raw : be16 buf (fdesc + 6) = XEX_DATA_FORMAT_RAW)
    (present : ∀ outbuf, Returns (next (some outbuf)) ↔ searched) :
    Returns (layOutImage env buf xsec headers fdesc (zeros imageSize) >>= next) ↔
      fdesc + 8 ≤ buf.length ∧
        (∀ i < rawCount buf fdesc, RecordInside buf fdesc headers imageSize i) ∧ searched := by
  have start : AtRecord buf fdesc headers imageSize 0 ⟨zeros imageSize, headers, 0⟩ :=
    ⟨zeros_length imageSize, rfl, rfl⟩
  have records : Returns (copyRaw buf fdesc (rawCount buf fdesc) 0 ⟨zeros imageSize, headers, 0⟩) ↔
      ∀ i < rawCount buf fdesc, RecordInside buf fdesc headers imageSize i := by
    rw [copy_raw_returns_iff start]
    constructor
    · intro each i counted
      exact each i (Nat.zero_le i) (by omega)
    · intro each i _ counted
      exact each i (by omega)
  rw [layOutImage, bind_assoc, returns_be16_bind_iff, if_pos raw, bind_assoc,
    returns_be32_bind_iff, bind_assoc, returns_bind_iff, ← records]
  constructor
  · intro steps
    rcases steps with ⟨format, _, copied, rest⟩
    rcases copied with ⟨last, run⟩
    exact ⟨by omega, ⟨last, run⟩, (present last.outbuf).mp (rest last run)⟩
  · intro inside
    rcases inside with ⟨format, copied, search⟩
    refine ⟨by omega, by omega, copied, ?_⟩
    intro last _
    exact (present last.outbuf).mpr search

theorem lay_out_compressed_iff (compressed : be16 buf (fdesc + 6) = XEX_DATA_FORMAT_COMPRESSED)
    (security : xsec + 0x150 ≤ buf.length) (count : 0x18 ≤ buf.length)
    (absent : Returns (next none)) (present : ∀ outbuf, Returns (next (some outbuf)) ↔ searched) :
    Returns (layOutImage env buf xsec headers fdesc (zeros imageSize) >>= next) ↔
      fdesc + 0x10 ≤ buf.length ∧ (unpacked env buf xsec fdesc imageSize ≠ none → searched) := by
  have other : be16 buf (fdesc + 6) ≠ XEX_DATA_FORMAT_RAW := by
    rw [compressed]
    decide
  have result : Returns (next (unpacked env buf xsec fdesc imageSize)) ↔
      (unpacked env buf xsec fdesc imageSize ≠ none → searched) := by
    cases unpacked env buf xsec fdesc imageSize with
    | none => exact iff_of_true absent fun some => absurd rfl some
    | some outbuf =>
        rw [present outbuf]
        exact ⟨fun all _ => all, fun all => all (Option.some_ne_none outbuf)⟩
  rw [layOutImage, bind_assoc, returns_be16_bind_iff, if_neg other, if_pos compressed, bind_assoc,
    returns_be32_bind_iff, bind_assoc, returns_be32_bind_iff, bind_assoc, returns_be32_bind_iff,
    bind_assoc, returns_be32_bind_iff, ← result]
  constructor
  · intro steps
    rcases steps with ⟨_, _, _, _, first, rest⟩
    exact ⟨by omega, rest⟩
  · intro inside
    exact ⟨by omega, by omega, by omega, by omega, by omega, inside.2⟩

theorem lay_out_unknown_iff (notRaw : be16 buf (fdesc + 6) ≠ XEX_DATA_FORMAT_RAW)
    (notCompressed : be16 buf (fdesc + 6) ≠ XEX_DATA_FORMAT_COMPRESSED)
    (absent : Returns (next none)) :
    Returns (layOutImage env buf xsec headers fdesc (zeros imageSize) >>= next) ↔
      fdesc + 8 ≤ buf.length := by
  rw [layOutImage, bind_assoc, returns_be16_bind_iff, if_neg notRaw, if_neg notCompressed]
  constructor
  · intro steps
    omega
  · intro inside
    exact ⟨by omega, absent⟩

theorem lay_out_returns_iff (security : xsec + 0x150 ≤ buf.length) (count : 0x18 ≤ buf.length)
    (absent : Returns (next none))
    (present : ∀ outbuf, Returns (next (some outbuf)) ↔ SectionsInside (hexX titleId) buf) :
    Returns (layOutImage env buf xsec headers fdesc (zeros imageSize) >>= next) ↔
      LayoutInside env buf xsec headers fdesc titleId imageSize := by
  by_cases raw : be16 buf (fdesc + 6) = XEX_DATA_FORMAT_RAW
  · have other : be16 buf (fdesc + 6) ≠ XEX_DATA_FORMAT_COMPRESSED := by
      rw [raw]
      decide
    rw [lay_out_raw_iff raw present]
    constructor
    · intro parts
      exact ⟨parts.1, fun _ => parts.2.1, fun same => absurd same other, fun _ => parts.2.2⟩
    · intro inside
      exact ⟨inside.format, inside.raw raw, inside.sections (Or.inl raw)⟩
  · by_cases compressed : be16 buf (fdesc + 6) = XEX_DATA_FORMAT_COMPRESSED
    · rw [lay_out_compressed_iff compressed security count absent present]
      constructor
      · intro parts
        refine ⟨by omega, fun same => absurd same raw, fun _ => parts.1, ?_⟩
        intro laid
        rcases laid with same | both
        · exact absurd same raw
        · exact parts.2 both.2
      · intro inside
        refine ⟨inside.compressed compressed, ?_⟩
        intro done
        exact inside.sections (Or.inr ⟨compressed, done⟩)
    · rw [lay_out_unknown_iff raw compressed absent]
      constructor
      · intro format
        refine ⟨format, fun same => absurd same raw, fun same => absurd same compressed, ?_⟩
        intro laid
        rcases laid with same | both
        · exact absurd same raw
        · exact absurd both.1 compressed
      · intro inside
        exact inside.format

end Continued

end Layout

/-! ## `getXexInfo` -/

structure DescriptorInside (env : XexEnv) (buf : Bytes) (xsec titleId fdesc : Nat) : Prop where
  signed : SignedInside buf xsec
  flags : fdesc + 6 ≤ buf.length
  encrypted : Encrypted buf fdesc → xsec + 0x160 ≤ buf.length ∧ be32 buf 8 ≤ buf.length
  layout : LayoutInside env (readyFile env buf xsec (be32 buf 8) fdesc) xsec (be32 buf 8) fdesc
    titleId (be32 buf (xsec + 4))

structure SpaInside (env : XexEnv) (buf : Bytes) (xsec titleId : Nat) : Prop where
  search : SearchInside buf XEX_FILE_DATA_DESCRIPTOR_HEADER (le32 buf 0x14)
  descriptor : ∀ i, FirstKey buf XEX_FILE_DATA_DESCRIPTOR_HEADER (le32 buf 0x14) i →
    env.mallocs (be32 buf (xsec + 4)) = true →
      0x18 + 8 * i + 8 ≤ buf.length ∧ DescriptorInside env buf xsec titleId (valueAt buf i)

def titleIdAt (buf : Bytes) (i : Nat) : Nat :=
  be32 (slice buf (valueAt buf i) XEX_EXECUTION_ID_SIZE) 0xC

structure SecurityInside (env : XexEnv) (buf : Bytes) (xsec : Nat) : Prop where
  mediaId : xsec + 0x150 ≤ buf.length
  execution : ExecInside buf
  spa : ∀ i, FirstKey buf XEX_HEADER_EXECUTION_ID (bswap32 (le32 buf 0x14)) i →
    IdAccepted buf i → SpaInside env buf xsec (titleIdAt buf i)

structure HeaderInside (env : XexEnv) (buf : Bytes) : Prop where
  magic : 4 ≤ buf.length
  security : be32 buf 0 = XEX_HEADER_MAGIC → 0x14 ≤ buf.length ∧
    (be32 buf 0x10 ≤ sub32 buf.length XEX_SECURITY_INFO_SIZE →
      SecurityInside env buf (be32 buf 0x10))

section Header

variable {env : XexEnv} {buf : Bytes} {xsec titleId : Nat}

theorem descriptor_returns_iff {fdesc : Nat} (int : buf.length < 0x80000000)
    (security : xsec + 0x150 ≤ buf.length) (count : 0x18 ≤ buf.length) :
    Returns (do
        let _ ← xexCheckSignature env buf xsec
        let flags ← loadBe16 buf (fdesc + 4)
        let headers ← loadBe32 buf 8
        let xhdr ← if flags % 2 = 1 then decryptImage env buf xsec headers else .ok buf
        match ← layOutImage env xhdr xsec headers fdesc (zeros (be32 buf (xsec + 4))) with
        | none => return false
        | some outbuf => readSpa env xhdr xsec titleId outbuf) ↔
      DescriptorInside env buf xsec titleId fdesc := by
  have layout : (Encrypted buf fdesc → be32 buf 8 ≤ buf.length) →
      (Returns (layOutImage env (readyFile env buf xsec (be32 buf 8) fdesc) xsec (be32 buf 8)
          fdesc (zeros (be32 buf (xsec + 4))) >>= fun laid =>
            match laid with
            | none => return false
            | some outbuf =>
                readSpa env (readyFile env buf xsec (be32 buf 8) fdesc) xsec titleId outbuf) ↔
        LayoutInside env (readyFile env buf xsec (be32 buf 8) fdesc) xsec (be32 buf 8) fdesc
          titleId (be32 buf (xsec + 4))) := by
    intro inside
    have same := @ready_file_length env buf xsec (be32 buf 8) fdesc int inside
    apply lay_out_returns_iff
    · rw [same]
      exact security
    · rw [same]
      exact count
    · exact returns_ok _
    · intro outbuf
      apply read_spa_returns_iff
      · rw [same]
        exact security
      · rw [same]
        exact count
  rw [returns_signature_bind_iff security, returns_be16_bind_iff, returns_be32_bind_iff,
    returns_ready_bind_iff int]
  constructor
  · intro steps
    rcases steps with ⟨signed, flags, _, encrypted, rest⟩
    exact ⟨signed, by omega, encrypted, (layout fun holds => (encrypted holds).2).mp rest⟩
  · intro inside
    have flags := inside.flags
    refine ⟨inside.signed, by omega, by omega, inside.encrypted, ?_⟩
    exact (layout fun holds => (inside.encrypted holds).2).mpr inside.layout

theorem spa_returns_iff (int : buf.length < 0x80000000) (security : xsec + 0x150 ≤ buf.length)
    (count : 0x18 ≤ buf.length) :
    Returns (xexGetSpaInfo env buf xsec titleId) ↔ SpaInside env buf xsec titleId := by
  have imageSize : xsec + 4 + 4 ≤ buf.length := by omega
  rw [xexGetSpaInfo, fileDataField, bind_assoc, returns_le32_bind_iff, returns_field_bind_iff,
    and_iff_right count]
  · constructor
    · intro steps
      refine ⟨steps.1, ?_⟩
      intro i first given
      have rest := steps.2 i first
      rw [returns_be32_bind_iff] at rest
      dsimp only at rest
      rw [if_pos given, returns_be32_bind_iff] at rest
      exact ⟨rest.2.1, (descriptor_returns_iff int security count).mp rest.2.2⟩
    · intro inside
      refine ⟨inside.search, ?_⟩
      intro i first
      rw [returns_be32_bind_iff]
      refine ⟨imageSize, ?_⟩
      dsimp only
      split_ifs with given
      · have entry := inside.descriptor i first given
        rw [returns_be32_bind_iff]
        exact ⟨entry.1, (descriptor_returns_iff int security count).mpr entry.2⟩
      · exact returns_ok _
  · rw [returns_be32_bind_iff]
    exact ⟨imageSize, returns_ok _⟩

theorem security_returns_iff (int : buf.length < 0x80000000) :
    Returns (do
        let mediaId ← load buf (xsec + 0x140) 0x10
        match ← getXexExecInfo buf with
        | none => return (⟨true, some mediaId, none, false⟩ : XexResult)
        | some executionId =>
            let spaInfo ← xexGetSpaInfo env buf xsec (be32 executionId 0xC)
            return ⟨true, some mediaId, some executionId, spaInfo⟩) ↔
      SecurityInside env buf xsec := by
  rw [returns_load_bind_iff, returns_exec_bind_iff]
  · constructor
    · intro steps
      rcases steps with ⟨mediaId, execution, rest⟩
      refine ⟨mediaId, execution, ?_⟩
      intro i first accepted
      have spa := (returns_bind_iff.mp (rest i first accepted)).1
      exact (spa_returns_iff int mediaId execution.count).mp spa
    · intro inside
      refine ⟨inside.mediaId, inside.execution, ?_⟩
      intro i first accepted
      apply returns_bind_iff.mpr
      refine ⟨?_, fun spaInfo _ => returns_ok _⟩
      exact (spa_returns_iff int inside.mediaId inside.execution.count).mpr
        (inside.spa i first accepted)
  · exact returns_ok _

/-- Every access is inside the file or the image exactly when these relations hold
between the fields of the header. -/
theorem xex_accesses_inside_iff (env : XexEnv) (buf : Bytes) (int : buf.length < 0x80000000) :
    (∃ result, getXexInfo env buf = .ok result) ↔ HeaderInside env buf := by
  change Returns (getXexInfo env buf) ↔ _
  rw [getXexInfo, returns_be32_bind_iff]
  by_cases magic : be32 buf 0 = XEX_HEADER_MAGIC
  · rw [if_neg (not_not.mpr magic), returns_be32_bind_iff]
    by_cases accepted : be32 buf 0x10 ≤ sub32 buf.length XEX_SECURITY_INFO_SIZE
    · rw [if_neg (Nat.not_lt.mpr accepted)]
      constructor
      · intro steps
        rcases steps with ⟨first, offset, rest⟩
        exact ⟨first, fun _ => ⟨offset, fun _ => (security_returns_iff int).mp rest⟩⟩
      · intro inside
        rcases inside.security magic with ⟨offset, security⟩
        exact ⟨inside.magic, offset, (security_returns_iff int).mpr (security accepted)⟩
    · rw [if_pos (Nat.lt_of_not_le accepted)]
      constructor
      · intro steps
        exact ⟨steps.1, fun _ => ⟨steps.2.1, fun holds => absurd holds accepted⟩⟩
      · intro inside
        exact ⟨inside.magic, (inside.security magic).1, returns_ok _⟩
  · rw [if_pos magic]
    constructor
    · intro steps
      exact ⟨steps.1, fun holds => absurd holds magic⟩
    · intro inside
      exact ⟨inside.magic, returns_ok _⟩

end Header

/-- Memory is always given, and nothing is encrypted, packed or found. -/
def plainEnv : XexEnv where
  mallocs _ := true
  sigVerify _ _ _ _ := false
  xexDoDecrypt _ _ data := data
  decrypt_length _ _ _ := rfl
  unpackXexData _ _ _ outbuf _ _ _ := some outbuf
  getSpaInfo _ _ _ := false

def expectingEnv (bytes : Bytes) : XexEnv :=
  { plainEnv with getSpaInfo := fun outbuf offset size => slice outbuf offset size == bytes }

def xexWords (words : List Nat) : Bytes := words.flatMap beU32

/-- The header, its directory, the security info and what is behind it. -/
def xexFile (headers imageSize loadAddress : Nat) (entries : List (Nat × Nat)) (behind : Bytes) :
    Bytes :=
  xexWords [XEX_HEADER_MAGIC, 0, headers, 0, 0x18 + 8 * entries.length, entries.length] ++
    xexWords (entries.flatMap fun entry => [entry.1, entry.2]) ++
    (xexWords [0x184, imageSize] ++ zeros 0x100 ++ xexWords [0x174, 0, loadAddress] ++ zeros 0x70) ++
    behind

/-- An execution ID for `12345678`, two raw records (three bytes and a zero, two zeros), and a
section of that name. -/
def rawXex (address size : Nat) : Bytes :=
  xexFile 0x1F8 8 0x82000000
    [(XEX_HEADER_EXECUTION_ID, 0x1B4), (XEX_FILE_DATA_DESCRIPTOR_HEADER, 0x1CC),
      (XEX_HEADER_SECTION_TABLE, 0x1E4)]
    (xexWords [0, 0, 0, 0x12345678, 0, 0] ++ (xexWords [24, 1] ++ xexWords [3, 1, 0, 2]) ++
      (xexWords [0x14] ++ hexX 0x12345678 ++ xexWords [address, size]) ++ [1, 2, 3])

theorem raw_xex_inside :
    (∃ result, getXexInfo (expectingEnv [2, 3, 0]) (rawXex 0x82000001 3) = .ok result ∧
        result.spaInfo = true) ∧
      HeaderInside (expectingEnv [2, 3, 0]) (rawXex 0x82000001 3) := by
  have run : getXexInfo (expectingEnv [2, 3, 0]) (rawXex 0x82000001 3) =
      .ok ⟨true, some (zeros 0x10), some (xexWords [0, 0, 0, 0x12345678, 0, 0]), true⟩ := by
    decide +kernel
  have small : (rawXex 0x82000001 3).length < 0x80000000 := by decide +kernel
  exact ⟨⟨_, run, rfl⟩, (xex_accesses_inside_iff _ _ small).mp ⟨_, run⟩⟩

/-- A file that ends with the offset of its security info: `len - 0x184` wraps, and
the offset is accepted. -/
def shortXex : Bytes := [0x58, 0x45, 0x58, 0x32] ++ zeros 0xE ++ [0x10, 0]

theorem short_xex_read_outside : ¬ ∃ result, getXexInfo plainEnv shortXex = .ok result := by
  intro returned
  rcases returned with ⟨result, run⟩
  have beyond : getXexInfo plainEnv shortXex = .error (.load 0x1140 0x10) := by decide
  rw [beyond] at run
  cases run

end XeBuild.Iso2svod
