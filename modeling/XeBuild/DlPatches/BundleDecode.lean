import XeBuild.DlPatches.Bundle
import XeBuild.Lib.ListParts

/-!
# The bundle decodes to the present files

The three passes agree on the files of the list that can be opened. The bundle
is a header with one entry for each of them and their data laid end to end, so a
reader of the header finds each file at its place.
-/

namespace XeBuild.DlPatches

open ListRange ListParts

set_option autoImplicit false

/-! ## The bundle of a list of files -/

/-- The files that can be opened, in the order of the list: type and content. -/
def presentOf (host : Host) (patchBase : Bytes) (items : List PatchesList) : List (Nat × Bytes) :=
  items.filterMap fun item =>
    (openItem host patchBase item).map fun content => (item.type, content)

def presentFiles (host : Host) (patchBase : Bytes) : List (Nat × Bytes) :=
  presentOf host patchBase fileList

def fileData (present : List (Nat × Bytes)) : List Bytes := present.map Prod.snd

def totalSize (present : List (Nat × Bytes)) : Nat := (fileData present).flatten.length

/-- `memset(.., 0xFF, ..)`. -/
def unset (count : Nat) : Bytes := List.replicate count 0xFF

def infoBytes (type size offset : Nat) : Bytes :=
  hostU32 (bswap32 type) ++ hostU32 (bswap32 size) ++ hostU32 (bswap32 offset) ++ unset 4

/-- The entries of files whose data starts at `currOff`. -/
def infosBytes : Nat → List (Nat × Bytes) → Bytes
  | _, [] => []
  | currOff, file :: rest =>
      infoBytes file.1 file.2.length currOff ++ infosBytes (currOff + file.2.length) rest

def headBytes (count : Nat) : Bytes :=
  hostU32 (bswap32 (0x10 + count * 0x10)) ++ hostU32 (bswap32 count) ++ unset 8

def bundleBytes (present : List (Nat × Bytes)) : Bytes :=
  headBytes present.length ++ infosBytes 0 present ++ (fileData present).flatten

theorem info_bytes_length (type size offset : Nat) : (infoBytes type size offset).length = 0x10 :=
  rfl

theorem head_bytes_length (count : Nat) : (headBytes count).length = 0x10 := rfl

theorem infos_bytes_length (currOff : Nat) (present : List (Nat × Bytes)) :
    (infosBytes currOff present).length = present.length * 0x10 := by
  induction present generalizing currOff with
  | nil => rfl
  | cons file rest ih =>
      rw [infosBytes, List.length_append, info_bytes_length, ih, List.length_cons]
      omega

/-! ## The first pass -/

def loadedFile (item : PatchesList) : Option (Nat × Bytes) :=
  item.data.map fun data => (item.type, data)

def Measured (item : PatchesList) : Prop := ∀ data, item.data = some data → item.len = data.length

section FirstPass

variable {host : Host} (allocated : ∀ size, host.malloc size = true) (patchBase : Bytes)
include allocated

/-- One item: it gets data, of the whole file, exactly when a file is opened. -/
theorem get_item_data_loaded {item : PatchesList} (fresh : item.data = none)
    (small : ∀ content, openItem host patchBase item = some content →
      content.length < 0x100000000) :
    loadedFile (getItemData host patchBase item).1 =
        (openItem host patchBase item).map (fun content => (item.type, content)) ∧
      (getItemData host patchBase item).2 = (openItem host patchBase item).isSome ∧
      Measured (getItemData host patchBase item).1 := by
  rw [getItemData]
  cases opened : openItem host patchBase item with
  | none =>
      refine ⟨?_, rfl, ?_⟩
      · rw [loadedFile, fresh]
      · intro data same
        rw [fresh] at same
        cases same
  | some content =>
      have len : u32 content.length = content.length := u32_of_lt (small content opened)
      simp only [len, allocated, if_true, List.take_length]
      refine ⟨rfl, rfl, ?_⟩
      intro data same
      cases same
      rfl

/-- After the pass the items with data are the present files, and the count is
theirs. -/
theorem first_pass {items : List PatchesList} (fresh : ∀ item ∈ items, item.data = none)
    (small : ∀ item ∈ items, ∀ content, openItem host patchBase item = some content →
      content.length < 0x100000000) :
    ((items.map (getItemData host patchBase)).map Prod.fst).filterMap loadedFile =
        presentOf host patchBase items ∧
      (items.map (getItemData host patchBase)).countP Prod.snd =
        (presentOf host patchBase items).length ∧
      ∀ item ∈ (items.map (getItemData host patchBase)).map Prod.fst, Measured item := by
  have one : ∀ item ∈ items, _ := fun item member =>
    get_item_data_loaded allocated patchBase (fresh item member) (small item member)
  refine ⟨?_, ?_, ?_⟩
  · rw [presentOf, List.map_map, List.filterMap_map]
    apply List.filterMap_congr
    intro item member
    exact (one item member).1
  · rw [presentOf, List.countP_map, List.length_filterMap_eq_countP]
    apply List.countP_congr
    intro item member
    rw [Function.comp_apply, (one item member).2.1, Option.isSome_map]
  · intro item member
    rw [List.map_map] at member
    rcases List.mem_map.mp member with ⟨listed, inList, rfl⟩
    exact (one listed inList).2.2

end FirstPass

/-! ## The second pass -/

theorem store_dword_unset (front : Bytes) {offset room : Nat} (value : Nat)
    (here : offset = front.length) (inside : 4 ≤ room) :
    storeDword (front ++ unset room) offset value =
      some ((front ++ hostU32 value) ++ unset (room - 4)) := by
  have split : unset room = unset 4 ++ unset (room - 4) := by
    rw [unset, unset, unset, List.replicate_append_replicate]
    congr 1
    omega
  have stored : patch (front ++ (unset 4 ++ unset (room - 4))) front.length (hostU32 value) =
      front ++ (hostU32 value ++ unset (room - 4)) := patch_middle front _ _ _ rfl
  rw [storeDword, if_pos, split, here, stored, List.append_assoc]
  rw [List.length_append, unset, List.length_replicate]
  omega

/-- The three stores of one entry leave the rest of the table as it was. -/
theorem store_info (front : Bytes) {cnt : Nat} (rest type len offset : Nat)
    (here : front.length = infOffset cnt) : ∃ first second,
      storeDword (front ++ unset ((rest + 1) * 0x10)) (infOffset cnt) (bswap32 type) = some first ∧
        storeDword first (infOffset cnt + 4) (bswap32 len) = some second ∧
          storeDword second (infOffset cnt + 8) (bswap32 offset) =
            some ((front ++ infoBytes type len offset) ++ unset (rest * 0x10)) := by
  have words (value : Nat) : (hostU32 value).length = 4 := rfl
  have behindType : infOffset cnt + 4 = (front ++ hostU32 (bswap32 type)).length := by
    rw [List.length_append, words, here]
  have behindLen : infOffset cnt + 8 =
      (front ++ hostU32 (bswap32 type) ++ hostU32 (bswap32 len)).length := by
    rw [List.length_append, List.length_append, words, words, here]
  refine ⟨_, _, store_dword_unset front _ here.symm (by omega),
    store_dword_unset _ _ behindType (by omega), ?_⟩
  rw [store_dword_unset _ _ behindLen (by omega)]
  have left : (rest + 1) * 0x10 - 4 - 4 - 4 = 4 + rest * 0x10 := by omega
  rw [left, infoBytes]
  simp only [unset, List.replicate_add, List.append_assoc]

theorem fill_header_infos {items : List PatchesList} (measured : ∀ item ∈ items, Measured item)
    (front : Bytes) {cnt currOff : Nat} (here : front.length = infOffset cnt)
    (small : currOff + totalSize (items.filterMap loadedFile) < 0x100000000) :
    fillHeader items cnt currOff
        (front ++ unset ((items.filterMap loadedFile).length * 0x10)) =
      some (front ++ infosBytes currOff (items.filterMap loadedFile)) := by
  induction items generalizing front cnt currOff with
  | nil => rfl
  | cons item rest ih =>
      have others : ∀ other ∈ rest, Measured other := fun other member =>
        measured other (List.mem_cons_of_mem _ member)
      rw [fillHeader]
      cases held : item.data with
      | none =>
          have skipped : loadedFile item = none := by rw [loadedFile, held, Option.map_none]
          rw [List.filterMap_cons, skipped] at small ⊢
          exact ih others front here small
      | some data =>
          have len : item.len = data.length := measured item List.mem_cons_self data held
          have file : loadedFile item = some (item.type, data) := by
            rw [loadedFile, held, Option.map_some]
          rw [List.filterMap_cons, file] at small ⊢
          simp only at small ⊢
          have total : totalSize ((item.type, data) :: rest.filterMap loadedFile) =
              data.length + totalSize (rest.filterMap loadedFile) := by
            rw [totalSize, fileData, List.map_cons, List.flatten_cons, List.length_append]
            rfl
          rw [total] at small
          have step : u32 (currOff + data.length) = currOff + data.length := u32_of_lt (by omega)
          rcases store_info front (rest.filterMap loadedFile).length item.type data.length currOff
            here with ⟨typed, sized, first, second, third⟩
          have next : (front ++ infoBytes item.type data.length currOff).length =
              infOffset (cnt + 1) := by
            rw [List.length_append, info_bytes_length, here, infOffset, infOffset, sizeofInfo]
            omega
          have later := ih others (front ++ infoBytes item.type data.length currOff) next
            (by omega : currOff + data.length + totalSize (rest.filterMap loadedFile) < _)
          simp only [List.length_cons, Option.isSome_some, if_true, len, step, Option.bind_eq_bind]
          rw [first, Option.bind_some, second, Option.bind_some, third, Option.bind_some, later,
            infosBytes, List.append_assoc]

/-! ## The third pass and the whole run -/

theorem append_data_flatten {items : List PatchesList}
    (measured : ∀ item ∈ items, Measured item) :
    appendData items = (fileData (items.filterMap loadedFile)).flatten := by
  rw [appendData, fileData, List.map_filterMap]
  congr 1
  apply List.filterMap_congr
  intro item member
  rw [loadedFile]
  cases held : item.data with
  | none => rfl
  | some data =>
      rw [Option.map_some, measured item member data held, List.take_length]
      rfl

theorem file_list_fresh : ∀ item ∈ fileList, item.data = none := by decide

theorem present_count_le (host : Host) (patchBase : Bytes) :
    (presentFiles host patchBase).length ≤ 14 := by
  have bound : (presentFiles host patchBase).length ≤ fileList.length :=
    List.length_filterMap_le _ _
  exact bound

theorem content_small {host : Host} {patchBase : Bytes}
    (small : totalSize (presentFiles host patchBase) < 0x100000000) {item : PatchesList}
    (listed : item ∈ fileList) {content : Bytes}
    (opened : openItem host patchBase item = some content) : content.length < 0x100000000 := by
  have member : content ∈ fileData (presentFiles host patchBase) := by
    rw [fileData, List.mem_map]
    refine ⟨(item.type, content), ?_, rfl⟩
    rw [presentFiles, presentOf, List.mem_filterMap]
    exact ⟨item, listed, by rw [opened]; rfl⟩
  have part := List.Sublist.length_le (List.sublist_flatten_of_mem member)
  rw [totalSize] at small
  omega

theorem store_head (count : Nat) : ∃ header,
    storeDword (List.replicate (0x10 + count * 0x10) 0xFF) 0 (bswap32 (0x10 + count * 0x10)) =
        some header ∧
      storeDword header 4 (bswap32 count) = some (headBytes count ++ unset (count * 0x10)) := by
  have room : 4 ≤ 0x10 + count * 0x10 := by omega
  have after : 4 ≤ 0x10 + count * 0x10 - 4 := by omega
  refine ⟨_, store_dword_unset [] (bswap32 (0x10 + count * 0x10)) rfl room, ?_⟩
  have second := store_dword_unset ([] ++ hostU32 (bswap32 (0x10 + count * 0x10))) (bswap32 count)
    (rfl : 4 = _) after
  have left : 0x10 + count * 0x10 - 4 - 4 = 8 + count * 0x10 := by omega
  rw [second, left, headBytes]
  simp only [unset, List.replicate_add, List.nil_append, List.append_assoc]

theorem main_bundle {host : Host} (allocated : ∀ size, host.malloc size = true)
    (patchBase : Bytes) (small : totalSize (presentFiles host patchBase) < 0x100000000) :
    main host patchBase = some (bundleBytes (presentFiles host patchBase)) := by
  rcases first_pass allocated patchBase file_list_fresh
    (fun item listed content opened => content_small small listed opened) with
    ⟨items, count, measured⟩
  have few := present_count_le host patchBase
  rw [← presentFiles] at items count
  have headSize : u32 (sizeofHeader + sizeofInfo * sub32 (presentFiles host patchBase).length 1) =
      0x10 + (presentFiles host patchBase).length * 0x10 := by
    rw [u32, sub32, sizeofHeader, sizeofInfo]
    omega
  have appended := append_data_flatten measured
  have start : (headBytes (presentFiles host patchBase).length).length = infOffset 0 := rfl
  have filled := fill_header_infos measured _ start (by rw [items, Nat.zero_add]; exact small)
  rw [items] at appended filled
  rcases store_head (presentFiles host patchBase).length with ⟨header, first, second⟩
  simp only [main, count, headSize, allocated, if_true, Option.bind_eq_bind]
  rw [first, Option.bind_some, second, Option.bind_some, filled, Option.bind_some, appended]
  rfl

/-! ## A reader of the bundle -/

def wordAt (bundle : Bytes) (offset : Nat) : Nat := getBe32 (slice bundle offset 4)

def bundleHeaderSize (bundle : Bytes) : Nat := wordAt bundle 0

def bundleNumEntries (bundle : Bytes) : Nat := wordAt bundle 4

structure PatchesInfo where
  consoleType : Nat
  size : Nat
  offset : Nat
  deriving DecidableEq, Repr

def patchesInfo (bundle : Bytes) (index : Nat) : PatchesInfo :=
  ⟨wordAt bundle (infOffset index), wordAt bundle (infOffset index + 4),
    wordAt bundle (infOffset index + 8)⟩

def entryStart (bundle : Bytes) (index : Nat) : Nat :=
  bundleHeaderSize bundle + (patchesInfo bundle index).offset

def entryEnd (bundle : Bytes) (index : Nat) : Nat :=
  entryStart bundle index + (patchesInfo bundle index).size

def entryData (bundle : Bytes) (index : Nat) : Bytes :=
  slice bundle (entryStart bundle index) (patchesInfo bundle index).size

theorem word_behind (front : Bytes) {value offset : Nat} (bound : value < 0x100000000)
    (tail : Bytes) (here : offset = front.length) :
    wordAt (front ++ (hostU32 (bswap32 value) ++ tail)) offset = value := by
  have first (word : Nat) : slice (hostU32 word ++ tail) 0 4 = hostU32 word := rfl
  have word : slice (front ++ (hostU32 (bswap32 value) ++ tail)) (front.length + 0) 4 =
      hostU32 (bswap32 value) := by
    rw [slice_append_right, first]
  have read := get_be32_host_bswap32 value bound []
  rw [List.append_nil] at read
  rw [wordAt, here, ← Nat.add_zero front.length, word, read]

section Decode

variable {present : List (Nat × Bytes)} {index : Nat}

theorem head_words (count : Nat) (few : count ≤ 14) (tail : Bytes) :
    bundleHeaderSize (headBytes count ++ tail) = 0x10 + count * 0x10 ∧
      bundleNumEntries (headBytes count ++ tail) = count := by
  have parts : headBytes count ++ tail = hostU32 (bswap32 (0x10 + count * 0x10)) ++
      (hostU32 (bswap32 count) ++ (unset 8 ++ tail)) := by
    rw [headBytes, List.append_assoc, List.append_assoc]
  have size : 0x10 + count * 0x10 < 0x100000000 := by omega
  have counted : count < 0x100000000 := by omega
  have words (word : Nat) : 4 = (hostU32 word).length := rfl
  have first := word_behind [] size (hostU32 (bswap32 count) ++ (unset 8 ++ tail)) rfl
  have second := word_behind (hostU32 (bswap32 (0x10 + count * 0x10))) counted (unset 8 ++ tail)
    (words _)
  rw [List.nil_append, ← parts] at first
  rw [← parts] at second
  exact ⟨first, second⟩

theorem infos_bytes_split (currOff : Nat) (inside : index < present.length) :
    ∃ before tail, before.length = index * 0x10 ∧
      infosBytes currOff present = before ++ (infoBytes present[index].1 present[index].2.length
        (currOff + start (fileData present) index) ++ tail) := by
  induction present generalizing currOff index with
  | nil => simp at inside
  | cons file rest ih =>
      rw [infosBytes]
      cases index with
      | zero => exact ⟨[], infosBytes (currOff + file.2.length) rest, rfl, rfl⟩
      | succ index =>
          rcases ih (currOff + file.2.length) (Nat.lt_of_succ_lt_succ inside) with
            ⟨before, tail, length, split⟩
          refine ⟨infoBytes file.1 file.2.length currOff ++ before, tail, ?_, ?_⟩
          · rw [List.length_append, info_bytes_length, length]
            omega
          · have moved : start (fileData (file :: rest)) (index + 1) =
                file.2.length + start (fileData rest) index := start_cons _ _ _
            rw [split, moved, ← Nat.add_assoc, List.append_assoc]
            rfl

theorem start_le_total (present : List (Nat × Bytes)) {last : Nat}
    (ordered : last ≤ present.length) : start (fileData present) last ≤ totalSize present := by
  have length : (fileData present).length = present.length := by rw [fileData, List.length_map]
  have mono := start_mono (fileData present) (length ▸ ordered)
  rwa [start_end] at mono

theorem start_file_succ (inside : index < present.length) :
    start (fileData present) (index + 1) =
      start (fileData present) index + present[index].2.length := by
  have length : index < (fileData present).length := by rwa [fileData, List.length_map]
  have next := start_succ length
  simpa only [fileData, List.getElem_map] using next

theorem bundle_info (small : totalSize present < 0x100000000)
    (types : ∀ file ∈ present, file.1 < 0x100000000) (inside : index < present.length) :
    patchesInfo (bundleBytes present) index =
      ⟨present[index].1, present[index].2.length, start (fileData present) index⟩ := by
  rcases infos_bytes_split 0 inside with ⟨before, tail, length, split⟩
  rw [Nat.zero_add] at split
  have next : start (fileData present) (index + 1) ≤ totalSize present :=
    start_le_total present inside
  rw [start_file_succ inside] at next
  have type := types present[index] (List.getElem_mem inside)
  let front := headBytes present.length ++ before
  have here : infOffset index = front.length := by
    rw [List.length_append, head_bytes_length, length, infOffset, sizeofInfo]
  have parts : bundleBytes present = front ++ (hostU32 (bswap32 present[index].1) ++
      (hostU32 (bswap32 present[index].2.length) ++
        (hostU32 (bswap32 (start (fileData present) index)) ++
          (unset 4 ++ (tail ++ (fileData present).flatten))))) := by
    rw [bundleBytes, split, infoBytes]
    simp only [front, List.append_assoc]
  have words (value : Nat) : (hostU32 value).length = 4 := rfl
  have consoleType : wordAt (bundleBytes present) (infOffset index) = present[index].1 := by
    rw [parts]
    exact word_behind front type _ here
  have size : wordAt (bundleBytes present) (infOffset index + 4) = present[index].2.length := by
    rw [parts, ← List.append_assoc]
    exact word_behind _ (by omega) _ (by rw [List.length_append, words, here])
  have offset : wordAt (bundleBytes present) (infOffset index + 8) =
      start (fileData present) index := by
    rw [parts, ← List.append_assoc, ← List.append_assoc]
    exact word_behind _ (by omega) _ (by simp only [List.length_append, words, here])
  rw [patchesInfo, consoleType, size, offset]

theorem bundle_length (present : List (Nat × Bytes)) :
    (bundleBytes present).length = 0x10 + present.length * 0x10 + totalSize present := by
  rw [bundleBytes, List.length_append, List.length_append, head_bytes_length, infos_bytes_length,
    totalSize]

theorem bundle_head (few : present.length ≤ 14) :
    bundleHeaderSize (bundleBytes present) = 0x10 + present.length * 0x10 ∧
      bundleNumEntries (bundleBytes present) = present.length := by
  rw [bundleBytes, List.append_assoc]
  exact head_words present.length few _

theorem bundle_data (inside : index < present.length) :
    slice (bundleBytes present) (0x10 + present.length * 0x10 + start (fileData present) index)
      present[index].2.length = present[index].2 := by
  have front : (headBytes present.length ++ infosBytes 0 present).length =
      0x10 + present.length * 0x10 := by
    rw [List.length_append, head_bytes_length, infos_bytes_length]
  have length : index < (fileData present).length := by rwa [fileData, List.length_map]
  have part := slice_part length
  simp only [fileData, List.getElem_map] at part
  rw [bundleBytes, ← front, slice_append_right]
  exact part

theorem bundle_entry_range (small : totalSize present < 0x100000000)
    (types : ∀ file ∈ present, file.1 < 0x100000000) (few : present.length ≤ 14)
    (inside : index < present.length) :
    entryStart (bundleBytes present) index =
        0x10 + present.length * 0x10 + start (fileData present) index ∧
      entryEnd (bundleBytes present) index =
        0x10 + present.length * 0x10 + start (fileData present) (index + 1) := by
  have first : entryStart (bundleBytes present) index =
      0x10 + present.length * 0x10 + start (fileData present) index := by
    rw [entryStart, (bundle_head few).1, bundle_info small types inside]
  refine ⟨first, ?_⟩
  rw [entryEnd, first, bundle_info small types inside, start_file_succ inside, Nat.add_assoc]

/-- Every position behind the header belongs to exactly one entry. -/
theorem bundle_tiled (small : totalSize present < 0x100000000)
    (types : ∀ file ∈ present, file.1 < 0x100000000) (few : present.length ≤ 14) {position : Nat}
    (behind : 0x10 + present.length * 0x10 ≤ position)
    (inside : position < (bundleBytes present).length) :
    ∃! index, index < present.length ∧ entryStart (bundleBytes present) index ≤ position ∧
      position < entryEnd (bundleBytes present) index := by
  have count : (fileData present).length = present.length := by rw [fileData, List.length_map]
  rw [bundle_length, totalSize] at inside
  have within : position - (0x10 + present.length * 0x10) < (fileData present).flatten.length := by
    omega
  rcases in_part_exists within with ⟨index, here⟩
  refine ⟨index, ?_, ?_⟩
  · rcases here with ⟨listed, low, high⟩
    have bound : index < present.length := count ▸ listed
    rcases bundle_entry_range small types few bound with ⟨first, last⟩
    rw [first, last]
    exact ⟨bound, by omega, by omega⟩
  · intro other also
    rcases also with ⟨bound, low, high⟩
    rcases bundle_entry_range small types few bound with ⟨first, last⟩
    rw [first] at low
    rw [last] at high
    exact in_part_unique ⟨count ▸ bound, by omega, by omega⟩ here

end Decode

theorem present_types (host : Host) (patchBase : Bytes) :
    ∀ file ∈ presentFiles host patchBase, file.1 < 0x100000000 := by
  intro file member
  rcases List.mem_filterMap.mp member with ⟨item, listed, yields⟩
  rcases Option.map_eq_some_iff.mp yields with ⟨content, _, rfl⟩
  exact file_list_types item listed

/-- With memory and working files, the bundle decodes to the present files in
the order of the list, and their ranges tile what follows the header. -/
theorem bundle_decodes (host : Host) (patchBase : Bytes)
    (allocated : ∀ size, host.malloc size = true)
    (small : totalSize (presentFiles host patchBase) < 0x100000000) :
    ∃ bundle, main host patchBase = some bundle ∧
      bundleNumEntries bundle = (presentFiles host patchBase).length ∧
      bundleHeaderSize bundle = 0x10 + (presentFiles host patchBase).length * 0x10 ∧
      bundleHeaderSize bundle ≤ bundle.length ∧
      (∀ index, ∀ (inside : index < (presentFiles host patchBase).length),
        (patchesInfo bundle index).consoleType = (presentFiles host patchBase)[index].1 ∧
          (patchesInfo bundle index).size = (presentFiles host patchBase)[index].2.length ∧
          entryEnd bundle index ≤ bundle.length ∧
          entryData bundle index = (presentFiles host patchBase)[index].2) ∧
      ∀ position, bundleHeaderSize bundle ≤ position → position < bundle.length →
        ∃! index, index < (presentFiles host patchBase).length ∧
          entryStart bundle index ≤ position ∧ position < entryEnd bundle index := by
  refine ⟨_, main_bundle allocated patchBase small, ?_⟩
  have types := present_types host patchBase
  have few := present_count_le host patchBase
  generalize presentFiles host patchBase = present at small types few ⊢
  rcases bundle_head few with ⟨headerSize, numEntries⟩
  have length := bundle_length present
  refine ⟨numEntries, headerSize, by omega, ?_, ?_⟩
  · intro index inside
    rcases bundle_entry_range small types few inside with ⟨first, last⟩
    have end_le : start (fileData present) (index + 1) ≤ totalSize present :=
      start_le_total present inside
    have data := bundle_data inside
    refine ⟨?_, ?_, ?_, ?_⟩
    · rw [bundle_info small types inside]
    · rw [bundle_info small types inside]
    · rw [last, length]
      omega
    · rw [entryData, first, bundle_info small types inside]
      exact data
  · intro position behind inside
    rw [headerSize] at behind
    exact bundle_tiled small types few behind inside

def sampleBase : Bytes := asciiText ".\\bin\\".toList

def sampleHost : Host :=
  ⟨fun path =>
    if path = sampleBase ++ asciiText "patches_trinity_dl.bin".toList then some [1, 2, 3]
    else if path = sampleBase ++ asciiText "patches_xenon.bin".toList then some []
    else if path = sampleBase ++ asciiText "patches_fat_dl.bin".toList then some [4, 5]
    else none, fun _ => true⟩

theorem sample_present : presentFiles sampleHost sampleBase =
    [(0x80000000, []), (0x60000004, [1, 2, 3]), (0x40000000, [4, 5])] := by
  decide +kernel

theorem sample_bundle : ∃ bundle, main sampleHost sampleBase = some bundle ∧
    bundleNumEntries bundle = 3 ∧ bundleHeaderSize bundle = 0x40 := by
  have allocated : ∀ size, sampleHost.malloc size = true := fun _ => rfl
  have small : totalSize (presentFiles sampleHost sampleBase) < 0x100000000 := by
    rw [sample_present]
    decide
  rcases bundle_decodes sampleHost sampleBase allocated small with
    ⟨bundle, written, entries, size, _⟩
  rw [sample_present] at entries size
  exact ⟨bundle, written, entries, size⟩

end XeBuild.DlPatches
