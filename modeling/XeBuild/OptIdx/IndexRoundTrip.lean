import XeBuild.OptIdx.AddonIndex

/-!
# The index file round-trips

The layout that the comment above `outputIdx` gives is a byte string for each
list of patch files. The writer appends its parts to a front of the cleared
array; the reader takes the same parts from behind a front. Both stay on one
running offset below 2^32.
-/

namespace XeBuild.OptIdx

open ListRange Runs

set_option autoImplicit false

/-! ## Big-endian words -/

theorem set_be_u32_length (val : Nat) : (setBeU32 val).length = 4 := rfl

theorem get_be32_set_be_u32 {val : Nat} (bound : val < 0x100000000) (tail : Bytes) :
    getBe32 (setBeU32 val ++ tail) = val := by
  simp only [setBeU32, getBe32, List.cons_append, List.nil_append, List.getD_cons_zero,
    List.getD_cons_succ, UInt8.toNat_ofNat']
  simp only [Nat.reducePow]
  omega

theorem get_be_u32_behind (front : Bytes) {val : Nat} (bound : val < 0x100000000) (tail : Bytes) :
    getBeU32 (front ++ (setBeU32 val ++ tail)) front.length = .ok (UInt32.ofNat val) := by
  have word : slice (front ++ (setBeU32 val ++ tail)) front.length 4 = setBeU32 val := by
    have moved := slice_append_right front (setBeU32 val ++ tail) 0 4
    rw [Nat.add_zero] at moved
    rw [moved, slice_append_left _ _ _ _ (by rw [set_be_u32_length])]
    rfl
  have value := get_be32_set_be_u32 bound []
  rw [List.append_nil] at value
  rw [getBeU32, if_pos, word, value]
  simp only [List.length_append, set_be_u32_length]
  omega

/-- Two words in a row: an item of the index, and the head of a patch record. -/
theorem get_be_u32_pair_behind (front : Bytes) {first second : Nat}
    (firstBound : first < 0x100000000) (secondBound : second < 0x100000000) (tail : Bytes)
    {buf : Bytes}
    (shape : buf = front ++ (setBeU32 first ++ (setBeU32 second ++ tail))) :
    getBeU32 buf front.length = .ok (UInt32.ofNat first) ∧
      getBeU32 buf (front.length + 4) = .ok (UInt32.ofNat second) := by
  constructor
  · rw [shape, get_be_u32_behind front firstBound]
  · have behind := get_be_u32_behind (front ++ setBeU32 first) secondBound tail
    rw [List.append_assoc, ← shape, List.length_append, set_be_u32_length] at behind
    exact behind

theorem word_of_small {val : Nat} (bound : val < 0x100000000) : (UInt32.ofNat val).toNat = val := by
  rw [UInt32.toNat_ofNat']
  exact Nat.mod_eq_of_lt bound

/-! ## The layout -/

def itemBytes (pitm : PatchItem) : Bytes :=
  setBeU32 pitm.offset.toNat ++ setBeU32 pitm.size.toNat

def itemsBytes (pitm : List PatchItem) : Bytes := (pitm.map itemBytes).flatten

/-- `char nameAsAddon[16]`. -/
def nameField (fname : Bytes) : Bytes := fname ++ zeros (16 - fname.length)

def fileBytes (pfl : PatchFile) : Bytes :=
  setBeU32 pfl.pitm.length ++ (itemsBytes pfl.pitm ++ nameField pfl.fname)

def filesBytes (pfiles : List PatchFile) : Bytes := (pfiles.map fileBytes).flatten

def indexBytes (pfiles : List PatchFile) : Bytes := setBeU32 pfiles.length ++ filesBytes pfiles

/-- A C string that fits its field with the terminator. -/
structure PatchFile.Named (pfl : PatchFile) : Prop where
  fits : pfl.fname.length ≤ 15
  noZero : (0 : Byte) ∉ pfl.fname

instance (pfl : PatchFile) : Decidable pfl.Named :=
  decidable_of_iff (pfl.fname.length ≤ 15 ∧ (0 : Byte) ∉ pfl.fname)
    ⟨fun both => ⟨both.1, both.2⟩, fun named => ⟨named.fits, named.noZero⟩⟩

def fileSize (pfl : PatchFile) : Nat := pfl.pitm.length * 8 + 20

def filesSize : List PatchFile → Nat
  | [] => 0
  | pfl :: rest => fileSize pfl + filesSize rest

/-- The serialised size as a number, not as a word. -/
def indexSize (pfiles : List PatchFile) : Nat := 4 + filesSize pfiles

theorem items_bytes_cons (first : PatchItem) (rest : List PatchItem) :
    itemsBytes (first :: rest) = itemBytes first ++ itemsBytes rest := rfl

theorem files_bytes_cons (pfl : PatchFile) (rest : List PatchFile) :
    filesBytes (pfl :: rest) = fileBytes pfl ++ filesBytes rest := rfl

theorem files_size_cons (pfl : PatchFile) (rest : List PatchFile) :
    filesSize (pfl :: rest) = fileSize pfl + filesSize rest := rfl

theorem items_bytes_length (pitm : List PatchItem) :
    (itemsBytes pitm).length = pitm.length * 8 := by
  induction pitm with
  | nil => rfl
  | cons first rest ih =>
      rw [items_bytes_cons, List.length_append, ih, List.length_cons, itemBytes,
        List.length_append, set_be_u32_length, set_be_u32_length]
      omega

theorem name_field_length {fname : Bytes} (fits : fname.length ≤ 15) :
    (nameField fname).length = 16 := by
  rw [nameField, List.length_append, zeros_length]
  omega

/-- A name that fits is stored with its terminator and reads back. -/
theorem name_field_split {fname : Bytes} (fits : fname.length ≤ 15) :
    nameField fname = (fname ++ [0]) ++ zeros (15 - fname.length) := by
  have room : 16 - fname.length = (15 - fname.length) + 1 := by omega
  rw [nameField, room, zeros, List.replicate_succ, List.append_assoc]
  rfl

theorem file_bytes_length {pfl : PatchFile} (named : pfl.Named) :
    (fileBytes pfl).length = fileSize pfl := by
  rw [fileBytes, List.length_append, List.length_append, set_be_u32_length, items_bytes_length,
    name_field_length named.fits, fileSize]
  omega

theorem files_bytes_length {pfiles : List PatchFile} (named : ∀ pfl ∈ pfiles, pfl.Named) :
    (filesBytes pfiles).length = filesSize pfiles := by
  induction pfiles with
  | nil => rfl
  | cons pfl rest ih =>
      rw [files_bytes_cons, List.length_append, file_bytes_length (named pfl List.mem_cons_self),
        ih (fun other member => named other (List.mem_cons_of_mem _ member)), files_size_cons]

theorem index_bytes_length {pfiles : List PatchFile} (named : ∀ pfl ∈ pfiles, pfl.Named) :
    (indexBytes pfiles).length = indexSize pfiles := by
  rw [indexBytes, List.length_append, set_be_u32_length, files_bytes_length named, indexSize]

theorem files_count_le_size (pfiles : List PatchFile) :
    pfiles.length * 20 ≤ filesSize pfiles := by
  induction pfiles with
  | nil => exact Nat.zero_le _
  | cons pfl rest ih =>
      rw [files_size_cons, List.length_cons, fileSize]
      omega

theorem index_size_mod (pfiles : List PatchFile) : indexSize pfiles % 4 = 0 := by
  induction pfiles with
  | nil => rfl
  | cons pfl rest ih =>
      rw [indexSize, files_size_cons, fileSize]
      rw [indexSize] at ih
      omega

/-! ## The writer -/

/-- `front` is written; the array is still clear behind it. -/
def IdxWriter.wrote (front : Bytes) (room : Nat) : IdxWriter := ⟨front ++ zeros room, front.length⟩

/-- A store and the zeros behind it, up to the next offset, are one field. -/
theorem put_field {front field bytes : Bytes} {pad step room : Nat}
    (padded : field = bytes ++ zeros pad) (width : field.length = step) (inside : step ≤ room)
    (bound : front.length + step < 0x100000000) :
    (IdxWriter.wrote front room).put bytes step =
      .ok (IdxWriter.wrote (front ++ field) (room - step)) := by
  have size : field.length = bytes.length + pad := by
    rw [padded, List.length_append, zeros_length]
  have cleared : zeros room = zeros bytes.length ++ (zeros pad ++ zeros (room - step)) := by
    rw [zeros_append, zeros_append]
    congr 1
    omega
  have stored : patch (front ++ zeros room) front.length bytes =
      front ++ field ++ zeros (room - step) := by
    rw [cleared, patch_middle _ _ _ _ (zeros_length _).symm, padded]
    simp only [List.append_assoc]
  rw [IdxWriter.put, if_pos]
  · simp only [IdxWriter.wrote, stored, u32_of_lt bound, List.length_append, width]
  · simp only [IdxWriter.wrote, List.length_append, zeros_length]
    omega

theorem put_word {front : Bytes} (val : Nat) {room : Nat} (inside : 4 ≤ room)
    (bound : front.length + 4 < 0x100000000) :
    (IdxWriter.wrote front room).put (setBeU32 val) 4 =
      .ok (IdxWriter.wrote (front ++ setBeU32 val) (room - 4)) := by
  have padded : setBeU32 val = setBeU32 val ++ zeros 0 := (List.append_nil _).symm
  exact put_field padded (set_be_u32_length val) inside bound

theorem write_items_wrote (pitm : List PatchItem) (front : Bytes) {room : Nat}
    (inside : pitm.length * 8 ≤ room) (bound : front.length + pitm.length * 8 < 0x100000000) :
    writeItems pitm (.wrote front room) =
      .ok (.wrote (front ++ itemsBytes pitm) (room - pitm.length * 8)) := by
  induction pitm generalizing front room with
  | nil => simp [writeItems, itemsBytes]
  | cons first rest ih =>
      rw [List.length_cons] at inside bound
      have next : (front ++ setBeU32 first.offset.toNat ++ setBeU32 first.size.toNat).length =
          front.length + 8 := by
        simp only [List.length_append, set_be_u32_length]
      have after : (front ++ setBeU32 first.offset.toNat).length = front.length + 4 := by
        rw [List.length_append, set_be_u32_length]
      rw [writeItems, put_word _ (by omega) (by omega), ok_bind,
        put_word _ (by omega) (by omega), ok_bind, ih _ (by omega) (by omega)]
      rw [items_bytes_cons, itemBytes, List.length_cons]
      simp only [List.append_assoc]
      have left : room - 4 - 4 - rest.length * 8 = room - (rest.length + 1) * 8 := by omega
      rw [left]

theorem write_files_wrote {pfiles : List PatchFile} (named : ∀ pfl ∈ pfiles, pfl.Named)
    (front : Bytes) {room : Nat} (inside : filesSize pfiles ≤ room)
    (bound : front.length + filesSize pfiles < 0x100000000) :
    writeFiles pfiles (.wrote front room) =
      .ok (.wrote (front ++ filesBytes pfiles) (room - filesSize pfiles)) := by
  induction pfiles generalizing front room with
  | nil => simp [writeFiles, filesBytes, filesSize]
  | cons pfl rest ih =>
      have first := named pfl List.mem_cons_self
      have others : ∀ other ∈ rest, other.Named := fun other member =>
        named other (List.mem_cons_of_mem _ member)
      have field := name_field_length first.fits
      have count : u32 pfl.pitm.length = pfl.pitm.length := by
        apply u32_of_lt
        rw [files_size_cons, fileSize] at bound
        omega
      have whole := file_bytes_length first
      rw [files_size_cons, fileSize] at inside bound
      have afterCount : (front ++ setBeU32 pfl.pitm.length).length = front.length + 4 := by
        rw [List.length_append, set_be_u32_length]
      have afterItems : (front ++ setBeU32 pfl.pitm.length ++ itemsBytes pfl.pitm).length =
          front.length + 4 + pfl.pitm.length * 8 := by
        rw [List.length_append, afterCount, items_bytes_length]
      have name (before : Bytes) (left : Nat) (enough : 16 ≤ left)
          (small : before.length + 16 < 0x100000000) :
          (IdxWriter.wrote before left).put (pfl.fname ++ [0]) 16 =
            .ok (.wrote (before ++ nameField pfl.fname) (left - 16)) :=
        put_field (name_field_split first.fits) field enough small
      rw [writeFiles, count, put_word _ (by omega) (by omega), ok_bind,
        write_items_wrote _ _ (by omega) (by omega), ok_bind,
        name _ _ (by omega) (by omega), ok_bind]
      have next : (front ++ setBeU32 pfl.pitm.length ++ itemsBytes pfl.pitm ++
          nameField pfl.fname) = front ++ fileBytes pfl := by
        rw [fileBytes]
        simp only [List.append_assoc]
      rw [next, ih others _ (by omega) (by rw [List.length_append, whole, fileSize]; omega),
        files_bytes_cons, files_size_cons, fileSize, List.append_assoc]
      congr 2
      omega

theorem ttlsz_fold (pfiles : List PatchFile) (start : Nat)
    (bound : start + filesSize pfiles < 0x100000000) :
    pfiles.foldl (fun ttlsz pfl => u32 (u32 (ttlsz + pfl.pitm.length * 8) + 20)) start =
      start + filesSize pfiles := by
  induction pfiles generalizing start with
  | nil => rfl
  | cons pfl rest ih =>
      rw [files_size_cons, fileSize] at bound ⊢
      rw [List.foldl_cons, @u32_of_lt (start + pfl.pitm.length * 8) (by omega),
        u32_of_lt (by omega), ih _ (by omega)]
      omega

theorem ttlsz_eq {pfiles : List PatchFile} (fits : indexSize pfiles < 0x100000000) :
    ttlsz pfiles = indexSize pfiles :=
  ttlsz_fold pfiles 4 fits

/-- The writer fills its array exactly, with the layout of the list. -/
theorem output_idx_bytes {lib : Library} {pfiles : List PatchFile}
    (named : ∀ pfl ∈ pfiles, pfl.Named) (fits : indexSize pfiles < 0x100000000)
    (room : lib.mallocs (indexSize pfiles) = true) :
    outputIdx lib pfiles = .ok (some (indexBytes pfiles)) := by
  have size : indexSize pfiles = 4 + filesSize pfiles := rfl
  have counted := files_count_le_size pfiles
  have count : u32 pfiles.length = pfiles.length := u32_of_lt (by omega)
  have start : (⟨zeros (indexSize pfiles), 0⟩ : IdxWriter) = .wrote [] (indexSize pfiles) := rfl
  have empty : ([] : Bytes).length = 0 := rfl
  rw [outputIdx, ttlsz_eq fits, if_pos room, count]
  simp only [start]
  rw [put_word _ (by omega) (by omega), ok_bind, List.nil_append,
    write_files_wrote named _ (by omega) (by rw [set_be_u32_length]; omega), ok_bind]
  have filled : indexSize pfiles - 4 - filesSize pfiles = 0 := by omega
  rw [filled]
  have whole := index_bytes_length named
  simp only [IdxWriter.wrote, zeros, List.replicate_zero, List.append_nil]
  rw [← indexBytes, if_pos whole]
  rfl

/-! ## The reader -/

theorem get_string_behind (front : Bytes) {pfl : PatchFile} (named : pfl.Named) (tail : Bytes) :
    getString (front ++ (nameField pfl.fname ++ tail)) front.length = .ok pfl.fname := by
  have field : nameField pfl.fname ++ tail =
      pfl.fname ++ 0 :: (zeros (15 - pfl.fname.length) ++ tail) := by
    rw [name_field_split named.fits]
    simp
  rw [getString, List.drop_left, field, if_pos (by simp), c_string_append named.noZero]

theorem load_items_behind (pitm : List PatchItem) (front tail : Bytes) {buf : Bytes}
    (shape : buf = front ++ (itemsBytes pitm ++ tail)) (bound : buf.length < 0x100000000) :
    loadItems buf pitm.length front.length = .ok (pitm, (front ++ itemsBytes pitm).length) := by
  induction pitm generalizing front with
  | nil => simp [loadItems, itemsBytes]
  | cons first rest ih =>
      have parts : buf = front ++ (setBeU32 first.offset.toNat ++
          (setBeU32 first.size.toNat ++ (itemsBytes rest ++ tail))) := by
        rw [shape, items_bytes_cons, itemBytes]
        simp only [List.append_assoc]
      have words := get_be_u32_pair_behind front first.offset.toNat_lt first.size.toNat_lt _ parts
      rw [UInt32.ofNat_toNat, UInt32.ofNat_toNat] at words
      have next : front.length + 8 = (front ++ itemBytes first).length := by
        rw [List.length_append]
        rfl
      have later : buf = (front ++ itemBytes first) ++ (itemsBytes rest ++ tail) := by
        rw [shape, items_bytes_cons]
        simp only [List.append_assoc]
      have small : front.length + 8 < 0x100000000 := by
        rw [next]
        rw [later, List.length_append] at bound
        omega
      rw [List.length_cons, loadItems, words.1, ok_bind, words.2, ok_bind, u32_of_lt small, next,
        ih _ later, ok_bind, items_bytes_cons, List.append_assoc]
      rfl

/-- The outer loop: each round pushes the file that lies behind the front. -/
theorem load_files_behind {build : Build} {pfiles : List PatchFile}
    (named : ∀ pfl ∈ pfiles, pfl.Named) (loaded : List PatchFile) (front : Bytes) {buf : Bytes}
    (allocated : ∀ count, build.allocates (loaded ++ pfiles.take (count + 1)) = true)
    (shape : buf = front ++ filesBytes pfiles) (bound : buf.length < 0x100000000) :
    loadFiles build buf pfiles.length front.length loaded = .ok (loaded ++ pfiles) := by
  induction pfiles generalizing loaded front with
  | nil => simp [loadFiles]
  | cons pfl rest ih =>
      have first := named pfl List.mem_cons_self
      have sizes := file_bytes_length first
      have later : buf = (front ++ fileBytes pfl) ++ filesBytes rest := by
        rw [shape, files_bytes_cons, List.append_assoc]
      have total : front.length + fileSize pfl ≤ buf.length := by
        rw [later, List.length_append, List.length_append, sizes]
        omega
      rw [fileSize] at total
      have count : getBeU32 buf front.length = .ok (UInt32.ofNat pfl.pitm.length) := by
        rw [shape, files_bytes_cons, fileBytes, List.append_assoc,
          get_be_u32_behind front (by omega)]
      have counted := word_of_small (by omega : pfl.pitm.length < 0x100000000)
      have items := load_items_behind pfl.pitm (front ++ setBeU32 pfl.pitm.length)
        (nameField pfl.fname ++ filesBytes rest)
        (by rw [shape, files_bytes_cons, fileBytes]; simp only [List.append_assoc]) bound
      have string := get_string_behind
        (front ++ setBeU32 pfl.pitm.length ++ itemsBytes pfl.pitm) first (filesBytes rest)
      have whole : front ++ setBeU32 pfl.pitm.length ++ itemsBytes pfl.pitm ++
          (nameField pfl.fname ++ filesBytes rest) = buf := by
        rw [shape, files_bytes_cons, fileBytes]
        simp only [List.append_assoc]
      have room : build.allocates (loaded ++ [pfl]) = true := allocated 0
      have lengths : (front ++ setBeU32 pfl.pitm.length ++ itemsBytes pfl.pitm).length + 16 =
          (front ++ fileBytes pfl).length := by
        rw [fileBytes]
        simp only [List.length_append, name_field_length first.fits]
        omega
      have small : (front ++ fileBytes pfl).length < 0x100000000 := by
        rw [later, List.length_append] at bound
        omega
      rw [whole] at string
      rw [List.length_append, set_be_u32_length] at items
      rw [List.length_cons, loadFiles, count, ok_bind, counted, u32_of_lt (by omega), items,
        ok_bind]
      simp only [string, ok_bind, pushBack, room, if_true]
      rw [lengths, u32_of_lt small]
      have rounds := ih (fun other member => named other (List.mem_cons_of_mem _ member))
        (loaded ++ [pfl]) (front ++ fileBytes pfl)
        (by
          intro count
          have more := allocated (count + 1)
          rwa [List.take_succ_cons, List.append_cons] at more) later
      rw [rounds, List.append_assoc, List.singleton_append]

theorem load_index_bytes {build : Build} {pfiles : List PatchFile}
    (named : ∀ pfl ∈ pfiles, pfl.Named) (fits : indexSize pfiles < 0x100000000)
    (allocated : ∀ loaded, loaded <+: pfiles → loaded ≠ [] → build.allocates loaded = true)
    (loads : build.lib.Loads (indexSize pfiles)) :
    loadAddonBaseIdx build (some (indexBytes pfiles)) [] = .ok pfiles := by
  have length := index_bytes_length named
  have counted := files_count_le_size pfiles
  have size : indexSize pfiles = 4 + filesSize pfiles := rfl
  have whole : fileToBuffer build.lib (some (indexBytes pfiles)) = some (indexBytes pfiles) :=
    file_to_buffer_whole (length ▸ loads)
  have count : getBeU32 (indexBytes pfiles) 0 = .ok (UInt32.ofNat pfiles.length) :=
    get_be_u32_behind [] (by omega) _
  have rounds := word_of_small (by omega : pfiles.length < 0x100000000)
  have bound : (indexBytes pfiles).length < 0x100000000 := length ▸ fits
  have files : loadFiles build (indexBytes pfiles) pfiles.length 4 [] = .ok pfiles := by
    cases pfiles with
    | nil => rfl
    | cons pfl rest =>
        apply load_files_behind named [] (setBeU32 (pfl :: rest).length) _ rfl bound
        intro count
        exact allocated _ (List.take_prefix (count + 1) (pfl :: rest)) (List.cons_ne_nil _ _)
  rw [loadAddonBaseIdx, whole]
  simp only
  have aligned := index_size_mod pfiles
  rw [if_neg (by omega), if_neg (by omega), count, ok_bind, rounds, files]

/-! ## The round trip -/

/-- The file is always written, and loading it gives the list back. The vectors
that a load passes through are prefixes of the list. -/
theorem index_round_trips (build : Build) (pfiles : List PatchFile)
    (named : ∀ pfl ∈ pfiles, pfl.Named) (fits : indexSize pfiles < 0x100000000)
    (allocated : ∀ loaded, loaded <+: pfiles → loaded ≠ [] → build.allocates loaded = true)
    (loads : build.lib.Loads (indexSize pfiles)) :
    ∃ outdat, outputIdx build.lib pfiles = .ok (some outdat) ∧
      loadAddonBaseIdx build (some outdat) [] = .ok pfiles := by
  refine ⟨indexBytes pfiles, ?_, ?_⟩
  · exact output_idx_bytes named fits loads.room
  · exact load_index_bytes named fits allocated loads

def sampleIndex : List PatchFile :=
  [⟨asciiText ['n', 'o', 'i', 'n', 't', 'm', 'u'], [⟨0x1000, 1⟩, ⟨0x2000, 3⟩]⟩,
    ⟨asciiText ['n', 'o', 'h', 'd', 'd'], []⟩]

theorem sample_index_named : ∀ pfl ∈ sampleIndex, pfl.Named := by decide

theorem sample_index_round_trips :
    indexSize sampleIndex = 60 ∧ ∃ outdat, outputIdx wholeFiles sampleIndex = .ok (some outdat) ∧
      loadAddonBaseIdx ⟨false, fun _ => true, wholeFiles⟩ (some outdat) [] = .ok sampleIndex := by
  have size : indexSize sampleIndex = 60 := rfl
  refine ⟨size, ?_⟩
  apply index_round_trips ⟨false, fun _ => true, wholeFiles⟩
  · exact sample_index_named
  · rw [size]
    omega
  · intro loaded before nonempty
    rfl
  · exact ⟨by rw [size]; decide, rfl⟩

end XeBuild.OptIdx
