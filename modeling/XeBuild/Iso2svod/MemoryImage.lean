import XeBuild.Iso2svod.ImageAccess

/-!
# The memory image of a XEX

`xexGetSpaInfo` in three parts: the file is made ready, the image is laid out,
and the SPA section is looked up in the image. For the raw format the image is
the data and the zeros of the records, one behind the other, and zeros up to
`ImageSize`: both positions of the copy are prefix sums of the descriptors.
-/

namespace XeBuild.Iso2svod

open CheckedBuffer ListRange Runs

set_option autoImplicit false

/-! ## The parts of `xexGetSpaInfo` -/

structure XexLayout where
  file : Bytes
  headers : Nat
  fdesc : Nat
  imageSize : Nat
  deriving DecidableEq

/-- Up to the decryption; `none` when the function returns `FALSE` before the layout. -/
def openXex (env : XexEnv) (xhdr : Bytes) (xsec : Nat) : Except Fault (Option XexLayout) := do
  let curBuf ← fileDataField xhdr
  let imageSize ← loadBe32 xhdr (xsec + 4)
  match curBuf with
  | none => return none
  | some curBuf =>
      if env.mallocs imageSize then
        let fdesc ← loadBe32 xhdr (curBuf + 4)
        let _ ← xexCheckSignature env xhdr xsec
        let flags ← loadBe16 xhdr (fdesc + 4)
        let headers ← loadBe32 xhdr 8
        let file ← if flags % 2 = 1 then decryptImage env xhdr xsec headers else .ok xhdr
        return some ⟨file, headers, fdesc, imageSize⟩
      else return none

def XexLayout.layOut (layout : XexLayout) (env : XexEnv) (xsec : Nat) :
    Except Fault (Option Bytes) :=
  layOutImage env layout.file xsec layout.headers layout.fdesc (zeros layout.imageSize)

def lookUpSpa (env : XexEnv) (file : Bytes) (xsec titleId : Nat) :
    Option Bytes → Except Fault Bool
  | none => .ok false
  | some image => readSpa env file xsec titleId image

def layOutAndLookUp (env : XexEnv) (xsec titleId : Nat) : Option XexLayout → Except Fault Bool
  | none => .ok false
  | some layout => layout.layOut env xsec >>= lookUpSpa env layout.file xsec titleId

theorem xex_get_spa_info_eq (env : XexEnv) (xhdr : Bytes) (xsec titleId : Nat) :
    xexGetSpaInfo env xhdr xsec titleId =
      (openXex env xhdr xsec >>= layOutAndLookUp env xsec titleId) := by
  rw [xexGetSpaInfo, openXex, bind_assoc]
  congr 1
  funext curBuf
  rw [bind_assoc]
  congr 1
  funext imageSize
  cases curBuf with
  | none => rfl
  | some curBuf =>
      dsimp only
      split_ifs with given
      · simp only [bind_assoc]
        congr 1
        funext fdesc
        congr 1
        funext signedBy
        congr 1
        funext flags
        congr 1
        funext headers
        split_ifs with encrypted
        · rw [bind_assoc]
          rfl
        · rfl
      · rfl

theorem opened_size_lt {env : XexEnv} {xhdr : Bytes} {xsec : Nat} {layout : XexLayout}
    (opened : openXex env xhdr xsec = .ok (some layout)) : layout.imageSize < 0x100000000 := by
  rw [openXex] at opened
  rcases bind_ok_iff.mp opened with ⟨curBuf, _, opened⟩
  rcases bind_ok_iff.mp opened with ⟨imageSize, size, opened⟩
  have word : imageSize < 0x100000000 := (load_be32_iff.mp size).2 ▸ be32_lt _ _
  cases curBuf with
  | none => cases opened
  | some curBuf =>
      dsimp only at opened
      split_ifs at opened
      · rcases bind_ok_iff.mp opened with ⟨fdesc, _, opened⟩
        rcases bind_ok_iff.mp opened with ⟨signedBy, _, opened⟩
        rcases bind_ok_iff.mp opened with ⟨flags, _, opened⟩
        rcases bind_ok_iff.mp opened with ⟨headers, _, opened⟩
        split_ifs at opened
        · rcases bind_ok_iff.mp opened with ⟨file, _, opened⟩
          cases opened
          exact word
        · cases opened
          exact word
      · cases opened

/-! ## The raw format -/

def rawPieces : Bytes → List (Nat × Nat) → Bytes
  | _, [] => []
  | payload, (data, zeroed) :: rest =>
      payload.take data ++ (zeros zeroed ++ rawPieces (payload.drop data) rest)

def dataTotal : List (Nat × Nat) → Nat
  | [] => 0
  | (data, _) :: rest => data + dataTotal rest

def imageTotal : List (Nat × Nat) → Nat
  | [] => 0
  | (data, zeroed) :: rest => data + zeroed + imageTotal rest

def recordsFrom (file : Bytes) (fdesc : Nat) : Nat → Nat → List (Nat × Nat)
  | 0, _ => []
  | rounds + 1, i => (rawData file fdesc i, rawZeros file fdesc i) ::
      recordsFrom file fdesc rounds (i + 1)

namespace XexLayout

def records (layout : XexLayout) : List (Nat × Nat) :=
  recordsFrom layout.file layout.fdesc (rawCount layout.file layout.fdesc) 0

/-- What is behind the headers, decrypted where the file is encrypted. -/
def payload (layout : XexLayout) : Bytes := layout.file.drop layout.headers

def rawImage (layout : XexLayout) : Bytes :=
  rawPieces layout.payload layout.records ++ zeros (layout.imageSize - imageTotal layout.records)

end XexLayout

section RawFormat

variable {file done : Bytes} {fdesc curBuf room rounds i : Nat}

theorem patch_zeros {data : Bytes} (fits : data.length ≤ room) :
    patch (done ++ zeros room) done.length data = done ++ data ++ zeros (room - data.length) := by
  have split : zeros room = zeros data.length ++ zeros (room - data.length) := by
    rw [zeros_append]
    congr 1
    omega
  rw [split, patch_middle done (zeros data.length) _ data (zeros_length _).symm,
    List.append_assoc]

theorem raw_slice_length (source : rawData file fdesc i ≤ file.length - curBuf) :
    (slice file curBuf (rawData file fdesc i)).length = rawData file fdesc i := by
  rw [slice_length]
  omega

/-- One record: the image is patched with its data, also when it has none. -/
theorem raw_record_runs (record : fdesc + 0x10 + 8 * i ≤ file.length)
    (source : rawData file fdesc i ≤ file.length - curBuf)
    (fits : rawData file fdesc i + rawZeros file fdesc i ≤ room)
    (word : done.length + room < 0x100000000) :
    copyRawRecord file fdesc i ⟨done ++ zeros room, curBuf, done.length⟩ =
      .ok ⟨patch (done ++ zeros room) done.length (slice file curBuf (rawData file fdesc i)),
        curBuf + rawData file fdesc i,
        done.length + (rawData file fdesc i + rawZeros file fdesc i)⟩ := by
  have size := raw_slice_length source
  have data : loadBe32 file (fdesc + 8 + 8 * i) = .ok (rawData file fdesc i) :=
    load_be32_inside (by omega)
  have zeroed : loadBe32 file (fdesc + 8 + 8 * i + 4) = .ok (rawZeros file fdesc i) :=
    load_be32_inside (by omega)
  rw [copyRawRecord, data, ok_bind, zeroed, ok_bind]
  dsimp only
  by_cases none : rawData file fdesc i = 0
  · have empty : slice file curBuf (rawData file fdesc i) = [] := by
      rw [← List.length_eq_zero_iff, size, none]
    have skipped : patch (done ++ zeros room) done.length [] = done ++ zeros room := by
      rw [patch_zeros (Nat.zero_le _), List.append_nil]
      rfl
    rw [if_pos none, empty, skipped, none, Nat.add_zero, Nat.zero_add, u32_of_lt (by omega)]
    rfl
  · have stored : store (done ++ zeros room) done.length
        (slice file curBuf (rawData file fdesc i)) =
          .ok (patch (done ++ zeros room) done.length
            (slice file curBuf (rawData file fdesc i))) := by
      apply store_inside
      rw [List.length_append, zeros_length, size]
      omega
    have first : u32 (done.length + rawData file fdesc i) = done.length + rawData file fdesc i :=
      u32_of_lt (by omega)
    have second : u32 (done.length + rawData file fdesc i + rawZeros file fdesc i) =
        done.length + (rawData file fdesc i + rawZeros file fdesc i) := by
      rw [u32_of_lt (by omega), Nat.add_assoc]
    rw [if_neg none, load_inside (by omega), ok_bind, stored, ok_bind, first, second]
    rfl

theorem raw_record_done (record : fdesc + 0x10 + 8 * i ≤ file.length)
    (source : rawData file fdesc i ≤ file.length - curBuf)
    (fits : rawData file fdesc i + rawZeros file fdesc i ≤ room)
    (word : done.length + room < 0x100000000) :
    copyRawRecord file fdesc i ⟨done ++ zeros room, curBuf, done.length⟩ =
      .ok ⟨(done ++ (slice file curBuf (rawData file fdesc i) ++
            zeros (rawZeros file fdesc i))) ++
          zeros (room - (rawData file fdesc i + rawZeros file fdesc i)),
        curBuf + rawData file fdesc i,
        (done ++ (slice file curBuf (rawData file fdesc i) ++
          zeros (rawZeros file fdesc i))).length⟩ := by
  have size := raw_slice_length source
  have length : (done ++ (slice file curBuf (rawData file fdesc i) ++
      zeros (rawZeros file fdesc i))).length =
        done.length + (rawData file fdesc i + rawZeros file fdesc i) := by
    rw [List.length_append, List.length_append, size, zeros_length]
  have rest : zeros (room - rawData file fdesc i) = zeros (rawZeros file fdesc i) ++
      zeros (room - (rawData file fdesc i + rawZeros file fdesc i)) := by
    rw [zeros_append]
    congr 1
    omega
  rw [raw_record_runs record source fits word, patch_zeros (by omega), size, rest, length]
  simp only [List.append_assoc]

theorem copy_raw_done (described : fdesc + 8 + 8 * (i + rounds) ≤ file.length)
    (source : dataTotal (recordsFrom file fdesc rounds i) ≤ file.length - curBuf)
    (fits : imageTotal (recordsFrom file fdesc rounds i) ≤ room)
    (word : done.length + room < 0x100000000) :
    ∃ s, copyRaw file fdesc rounds i ⟨done ++ zeros room, curBuf, done.length⟩ = .ok s ∧
      s.outbuf = done ++ (rawPieces (file.drop curBuf) (recordsFrom file fdesc rounds i) ++
        zeros (room - imageTotal (recordsFrom file fdesc rounds i))) := by
  induction rounds generalizing i done curBuf room with
  | zero =>
      refine ⟨_, rfl, ?_⟩
      rfl
  | succ rounds ih =>
      rw [recordsFrom] at source fits ⊢
      rw [dataTotal] at source
      rw [imageTotal] at fits
      have size := @raw_slice_length file fdesc curBuf i (by omega)
      have length : (done ++ (slice file curBuf (rawData file fdesc i) ++
          zeros (rawZeros file fdesc i))).length =
            done.length + (rawData file fdesc i + rawZeros file fdesc i) := by
        rw [List.length_append, List.length_append, size, zeros_length]
      have first := @raw_record_done file done fdesc curBuf room i (by omega) (by omega) (by omega)
        word
      rcases @ih (done ++ (slice file curBuf (rawData file fdesc i) ++
          zeros (rawZeros file fdesc i))) (curBuf + rawData file fdesc i)
          (room - (rawData file fdesc i + rawZeros file fdesc i)) (i + 1) (by omega) (by omega)
          (by omega) (by omega) with ⟨s, run, image⟩
      refine ⟨s, ?_, ?_⟩
      · rw [copyRaw, first, ok_bind]
        exact run
      · have left : room - (rawData file fdesc i + rawZeros file fdesc i) -
            imageTotal (recordsFrom file fdesc rounds (i + 1)) =
              room - (rawData file fdesc i + rawZeros file fdesc i +
                imageTotal (recordsFrom file fdesc rounds (i + 1))) := by omega
        rw [image, rawPieces, imageTotal, left, List.drop_drop]
        simp only [slice, List.append_assoc]

theorem raw_layout {env : XexEnv} {xsec : Nat} {layout : XexLayout}
    (word : layout.imageSize < 0x100000000)
    (raw : be16 layout.file (layout.fdesc + 6) = XEX_DATA_FORMAT_RAW)
    (described : layout.fdesc + 8 + 8 * rawCount layout.file layout.fdesc ≤ layout.file.length)
    (imageFits : imageTotal layout.records ≤ layout.imageSize)
    (dataFits : dataTotal layout.records ≤ layout.payload.length) :
    layout.layOut env xsec = .ok (some layout.rawImage) := by
  rw [XexLayout.payload, List.length_drop, XexLayout.records] at dataFits
  rw [XexLayout.records] at imageFits
  have format : loadBe16 layout.file (layout.fdesc + 6) =
      .ok (be16 layout.file (layout.fdesc + 6)) := by
    rw [loadBe16, load_inside (by omega)]
    rfl
  have count : sub32 (be32 layout.file layout.fdesc) 8 / 8 =
      rawCount layout.file layout.fdesc := rfl
  rcases @copy_raw_done layout.file [] layout.fdesc layout.headers layout.imageSize
    (rawCount layout.file layout.fdesc) 0 (by omega) dataFits imageFits
    (by rw [List.length_nil]; omega) with ⟨s, run, image⟩
  rw [List.nil_append, List.length_nil] at run
  rw [List.nil_append] at image
  rw [XexLayout.layOut, layOutImage, format, ok_bind, if_pos raw, load_be32_inside (by omega),
    ok_bind, count, run, ok_bind, image, XexLayout.rawImage, XexLayout.payload,
    XexLayout.records]
  rfl

end RawFormat

/-! ## The bytes of the image -/

def imageByte : Bytes → List (Nat × Nat) → Nat → Byte
  | _, [], _ => 0
  | payload, (data, zeroed) :: rest, offset =>
      if offset < data then payload.getD offset 0
      else if offset < data + zeroed then 0
      else imageByte (payload.drop data) rest (offset - (data + zeroed))

section ImageBytes

variable {payload : Bytes} {records : List (Nat × Nat)} {room offset : Nat}

theorem raw_pieces_length (dataFits : dataTotal records ≤ payload.length) :
    (rawPieces payload records).length = imageTotal records := by
  induction records generalizing payload with
  | nil => rfl
  | cons record rest ih =>
      rw [dataTotal] at dataFits
      rw [rawPieces, imageTotal, List.length_append, List.length_append, List.length_take,
        zeros_length, ih (by rw [List.length_drop]; omega)]
      omega

theorem zeros_byte (inside : offset < room) : (zeros room)[offset]? = some 0 := by
  rw [zeros, List.getElem?_replicate, if_pos inside]

theorem raw_pieces_byte (dataFits : dataTotal records ≤ payload.length)
    (inside : offset < imageTotal records + room) :
    (rawPieces payload records ++ zeros room)[offset]? = some (imageByte payload records offset) := by
  induction records generalizing payload offset with
  | nil =>
      rw [imageTotal, Nat.zero_add] at inside
      exact zeros_byte inside
  | cons record rest ih =>
      rcases record with ⟨data, zeroed⟩
      rw [dataTotal] at dataFits
      rw [imageTotal] at inside
      have taken : (payload.take data).length = data := by
        rw [List.length_take]
        omega
      rw [rawPieces, imageByte, List.append_assoc, List.append_assoc]
      split_ifs with inData inZeros
      · rw [List.getElem?_append_left (by omega), List.getElem?_take_of_lt inData,
          List.getD_eq_getElem?_getD, List.getElem?_eq_getElem (by omega), Option.getD_some]
      · rw [List.getElem?_append_right (by omega), taken,
          List.getElem?_append_left (by rw [zeros_length]; omega)]
        exact zeros_byte (by omega)
      · rw [List.getElem?_append_right (by omega), taken,
          List.getElem?_append_right (by rw [zeros_length]; omega), zeros_length,
          ← ih (by rw [List.length_drop]; omega) (by omega : offset - (data + zeroed) < _)]
        congr 1
        omega

variable {layout : XexLayout}

theorem raw_image_length (imageFits : imageTotal layout.records ≤ layout.imageSize)
    (dataFits : dataTotal layout.records ≤ layout.payload.length) :
    layout.rawImage.length = layout.imageSize := by
  rw [XexLayout.rawImage, List.length_append, raw_pieces_length dataFits, zeros_length]
  omega

theorem raw_image_byte (imageFits : imageTotal layout.records ≤ layout.imageSize)
    (dataFits : dataTotal layout.records ≤ layout.payload.length)
    (inside : offset < layout.imageSize) :
    layout.rawImage[offset]? = some (imageByte layout.payload layout.records offset) :=
  raw_pieces_byte dataFits (by omega)

end ImageBytes

/-! ## The place of the section -/

/-- The offset and the size that `getSpaInfo` is handed, if it is called. -/
def spaRange (xhdr : Bytes) (xsec titleId : Nat) : Except Fault (Option (Nat × Nat)) := do
  let (address, spaLen) ← xexGetSpaOffset xhdr (hexX titleId)
  if address = 0 then return none
  else
    let loadAddress ← loadBe32 xhdr (xsec + 0x110)
    let imageSize ← loadBe32 xhdr (xsec + 4)
    let spaOff := sub32 address loadAddress
    return if u32 (spaOff + spaLen) ≤ imageSize then some (spaOff, spaLen) else none

def handedOn (env : XexEnv) (image : Bytes) : Option (Nat × Nat) → Bool
  | none => false
  | some (spaOff, spaLen) => env.getSpaInfo image spaOff spaLen

theorem read_spa_eq (env : XexEnv) (xhdr : Bytes) (xsec titleId : Nat) (image : Bytes) :
    readSpa env xhdr xsec titleId image = (spaRange xhdr xsec titleId).map (handedOn env image) := by
  rw [readSpa, spaRange]
  cases xexGetSpaOffset xhdr (hexX titleId) with
  | error fault => rfl
  | ok place =>
      rcases place with ⟨address, spaLen⟩
      rw [ok_bind, ok_bind]
      dsimp only
      split_ifs with absent
      · rfl
      · cases loadBe32 xhdr (xsec + 0x110) with
        | error fault => rfl
        | ok loadAddress =>
            rw [ok_bind, ok_bind]
            cases loadBe32 xhdr (xsec + 4) with
            | error fault => rfl
            | ok imageSize =>
                rw [ok_bind, ok_bind]
                split_ifs with inside
                · rfl
                · rfl

/-- The bytes of the image from the address on, less the load address: all of them are in the
image, and each is that of the payload or the zero that belongs there. -/
def Indexes (layout : XexLayout) (spaOff spaLen : Nat) : Prop :=
  spaOff + spaLen ≤ layout.rawImage.length ∧
    ∀ k < spaLen, layout.rawImage[spaOff + k]? =
      some (imageByte layout.payload layout.records (spaOff + k))

def spaOffset (layout : XexLayout) (xsec address : Nat) : Nat :=
  sub32 address (be32 layout.file (xsec + 0x110))

/-- The 32-bit end of the section is above the `ImageSize` of the decrypted file, or it does
not wrap and, where decryption has raised that size, the image has the bytes. -/
def SumKept (layout : XexLayout) (xsec address spaLen : Nat) : Prop :=
  be32 layout.file (xsec + 4) < u32 (spaOffset layout xsec address + spaLen) ∨
    spaOffset layout xsec address + spaLen < 0x100000000 ∧
      (be32 layout.file (xsec + 4) ≤ layout.imageSize ∨
        spaOffset layout xsec address + spaLen ≤ layout.imageSize)

section Place

variable {layout : XexLayout} {xsec titleId address spaLen : Nat}

theorem spa_range_found (found : xexGetSpaOffset layout.file (hexX titleId) = .ok (address, spaLen))
    (present : address ≠ 0) (security : xsec + 0x114 ≤ layout.file.length) :
    spaRange layout.file xsec titleId =
      .ok (if u32 (spaOffset layout xsec address + spaLen) ≤ be32 layout.file (xsec + 4) then
        some (spaOffset layout xsec address, spaLen) else none) := by
  rw [spaRange, found, ok_bind]
  dsimp only
  rw [if_neg present, load_be32_inside (by omega), ok_bind, load_be32_inside (by omega), ok_bind]
  rfl

theorem indexes_iff (imageFits : imageTotal layout.records ≤ layout.imageSize)
    (dataFits : dataTotal layout.records ≤ layout.payload.length) {spaOff : Nat} :
    Indexes layout spaOff spaLen ↔ spaOff + spaLen ≤ layout.imageSize := by
  rw [Indexes, raw_image_length imageFits dataFits]
  constructor
  · intro indexed
    exact indexed.1
  · intro inside
    refine ⟨inside, ?_⟩
    intro k before
    exact raw_image_byte imageFits dataFits (by omega)

theorem range_indexes_iff (word : layout.imageSize < 0x100000000)
    (imageFits : imageTotal layout.records ≤ layout.imageSize)
    (dataFits : dataTotal layout.records ≤ layout.payload.length)
    (found : xexGetSpaOffset layout.file (hexX titleId) = .ok (address, spaLen))
    (present : address ≠ 0) (security : xsec + 0x114 ≤ layout.file.length) :
    (∀ offset size, spaRange layout.file xsec titleId = .ok (some (offset, size)) →
        Indexes layout offset size) ↔ SumKept layout xsec address spaLen := by
  rw [spa_range_found found present security, SumKept]
  generalize spaOffset layout xsec address = spaOff
  generalize be32 layout.file (xsec + 4) = tested
  by_cases handed : u32 (spaOff + spaLen) ≤ tested
  · rw [if_pos handed]
    have same : (∀ offset size, (Except.ok (some (spaOff, spaLen)) : Except Fault _) =
        .ok (some (offset, size)) → Indexes layout offset size) ↔ Indexes layout spaOff spaLen := by
      constructor
      · intro all
        exact all _ _ rfl
      · intro indexed offset size equal
        cases equal
        exact indexed
    rw [same, indexes_iff imageFits dataFits]
    constructor
    · intro inside
      exact Or.inr ⟨by omega, Or.inr inside⟩
    · intro sum
      rcases sum with above | ⟨small, notRaised | inside⟩
      · omega
      · rw [u32_of_lt small] at handed
        omega
      · exact inside
  · rw [if_neg handed]
    refine iff_of_true ?_ (Or.inl (Nat.lt_of_not_le handed))
    intro offset size equal
    cases equal

end Place

/-- The image is the pieces of the payload and the zeros, from offset 0 on, whatever the
records are. The section is read at its bytes exactly when its place does not wrap. -/
theorem raw_image_laid_out (env : XexEnv) (xhdr : Bytes) (xsec titleId : Nat)
    (layout : XexLayout) (opened : openXex env xhdr xsec = .ok (some layout))
    (raw : be16 layout.file (layout.fdesc + 6) = XEX_DATA_FORMAT_RAW)
    (described : layout.fdesc + 8 + 8 * rawCount layout.file layout.fdesc ≤ layout.file.length)
    (imageFits : imageTotal layout.records ≤ layout.imageSize)
    (dataFits : dataTotal layout.records ≤ layout.payload.length) :
    layout.layOut env xsec = .ok (some layout.rawImage) ∧
      xexGetSpaInfo env xhdr xsec titleId =
        (spaRange layout.file xsec titleId).map (handedOn env layout.rawImage) ∧
      ∀ address spaLen, xexGetSpaOffset layout.file (hexX titleId) = .ok (address, spaLen) →
        address ≠ 0 → xsec + 0x114 ≤ layout.file.length →
        ((∀ offset size, spaRange layout.file xsec titleId = .ok (some (offset, size)) →
            Indexes layout offset size) ↔ SumKept layout xsec address spaLen) := by
  have word := opened_size_lt opened
  have laidOut := @raw_layout env xsec layout word raw described imageFits dataFits
  refine ⟨laidOut, ?_, ?_⟩
  · rw [xex_get_spa_info_eq, opened, ok_bind, layOutAndLookUp, laidOut, ok_bind, lookUpSpa,
      read_spa_eq]
  · intro address spaLen found present security
    exact range_indexes_iff word imageFits dataFits found present security

def rawLayout (address size : Nat) : XexLayout := ⟨rawXex address size, 0x1F8, 0x1CC, 8⟩

/-- The image is `1 2 3 0 0 0 0 0`, and the section of three bytes at the second one is read. -/
theorem raw_section_read :
    (rawLayout 0x82000001 3).layOut (expectingEnv [2, 3, 0]) 0x30 = .ok (some [1, 2, 3, 0, 0, 0, 0, 0]) ∧
      xexGetSpaInfo (expectingEnv [2, 3, 0]) (rawXex 0x82000001 3) 0x30 0x12345678 = .ok true ∧
      Indexes (rawLayout 0x82000001 3) 1 3 := by
  have image : (rawLayout 0x82000001 3).rawImage = [1, 2, 3, 0, 0, 0, 0, 0] := by decide +kernel
  have range : spaRange (rawLayout 0x82000001 3).file 0x30 0x12345678 = .ok (some (1, 3)) := by
    decide +kernel
  have laidOut := raw_image_laid_out (expectingEnv [2, 3, 0]) (rawXex 0x82000001 3) 0x30 0x12345678
    (rawLayout 0x82000001 3) (by decide +kernel) (by decide +kernel) (by decide +kernel)
    (by decide +kernel) (by decide +kernel)
  have sum : SumKept (rawLayout 0x82000001 3) 0x30 0x82000001 3 :=
    Or.inr ⟨by decide +kernel, Or.inl (by decide +kernel)⟩
  refine ⟨image ▸ laidOut.1, ?_, ?_⟩
  · rw [laidOut.2.1, range, image]
    rfl
  · exact (laidOut.2.2 0x82000001 3 (by decide +kernel) (by decide)
      (by decide +kernel)).mpr sum 1 3 range

/-- A section in front of the load address: its offset wraps, with its size it wraps to zero,
and `getSpaInfo` is handed a range behind the 8 bytes of the image. -/
theorem wrapped_section_read :
    openXex plainEnv (rawXex 0x81FFFFF0 0x10) 0x30 = .ok (some (rawLayout 0x81FFFFF0 0x10)) ∧
      be16 (rawXex 0x81FFFFF0 0x10) (0x1CC + 6) = XEX_DATA_FORMAT_RAW ∧
      imageTotal (rawLayout 0x81FFFFF0 0x10).records ≤ (rawLayout 0x81FFFFF0 0x10).imageSize ∧
      dataTotal (rawLayout 0x81FFFFF0 0x10).records ≤ (rawLayout 0x81FFFFF0 0x10).payload.length ∧
      spaRange (rawXex 0x81FFFFF0 0x10) 0x30 0x12345678 = .ok (some (0xFFFFFFF0, 0x10)) ∧
      ¬ Indexes (rawLayout 0x81FFFFF0 0x10) 0xFFFFFFF0 0x10 := by
  refine ⟨by decide +kernel, by decide +kernel, by decide +kernel, by decide +kernel,
    by decide +kernel, ?_⟩
  intro indexed
  have length : (rawLayout 0x81FFFFF0 0x10).rawImage.length = 8 := by decide +kernel
  have inside := indexed.1
  rw [length] at inside
  exact absurd inside (by decide)

end XeBuild.Iso2svod
