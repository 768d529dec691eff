import XeBuild.OptIdx.IndexRoundTrip

/-!
# The records of a patch file

`MAKEPATCH` emits an offset, the number of words and the words; a terminator
may stand behind the last record. The loop of `processPatchFile` takes exactly
these records, since at most eight bytes are left where they end.
-/

namespace XeBuild.OptIdx

open ListRange Runs

set_option autoImplicit false

/-- One patch: at least one word of data. -/
structure PatchRecord where
  offset : UInt32
  words : List UInt32
  patched : words ≠ []

def wordsBytes (words : List UInt32) : Bytes :=
  (words.map fun word => setBeU32 word.toNat).flatten

def PatchRecord.bytes (record : PatchRecord) : Bytes :=
  setBeU32 record.offset.toNat ++ (setBeU32 record.words.length ++ wordsBytes record.words)

def PatchRecord.item (record : PatchRecord) : PatchItem :=
  ⟨record.offset, UInt32.ofNat record.words.length⟩

def recordsBytes (records : List PatchRecord) : Bytes :=
  (records.map PatchRecord.bytes).flatten

def terminator : Bytes := setBeU32 0xFFFFFFFF

def patchFileBytes (records : List PatchRecord) (terminated : Bool) : Bytes :=
  recordsBytes records ++ if terminated then terminator else []

theorem words_bytes_length (words : List UInt32) : (wordsBytes words).length = words.length * 4 := by
  induction words with
  | nil => rfl
  | cons word rest ih =>
      rw [wordsBytes, List.map_cons, List.flatten_cons, List.length_append, set_be_u32_length,
        List.length_cons, Nat.succ_mul, ← ih, Nat.add_comm]
      rfl

theorem record_bytes_length (record : PatchRecord) :
    record.bytes.length = record.words.length * 4 + 8 := by
  rw [PatchRecord.bytes, List.length_append, List.length_append, set_be_u32_length,
    set_be_u32_length, words_bytes_length]
  omega

theorem records_bytes_cons (record : PatchRecord) (rest : List PatchRecord) :
    recordsBytes (record :: rest) = record.bytes ++ recordsBytes rest := by
  rw [recordsBytes, List.map_cons, List.flatten_cons]
  rfl

theorem record_has_word (record : PatchRecord) : 1 ≤ record.words.length :=
  List.length_pos_of_ne_nil record.patched

theorem records_count_le (records : List PatchRecord) :
    records.length * 12 ≤ (recordsBytes records).length := by
  induction records with
  | nil => rfl
  | cons record rest ih =>
      have word := record_has_word record
      rw [records_bytes_cons, List.length_append, record_bytes_length, List.length_cons]
      omega

theorem records_bytes_mod (records : List PatchRecord) :
    (recordsBytes records).length % 4 = 0 := by
  induction records with
  | nil => rfl
  | cons record rest ih =>
      rw [records_bytes_cons, List.length_append, record_bytes_length]
      omega

/-- One pass: the record behind the front is taken, and the next pass starts
where its data ends. -/
theorem patch_record_pass (record : PatchRecord) (front behind : Bytes) {buf : Bytes} (rounds : Nat)
    (shape : buf = front ++ (record.bytes ++ behind)) (bound : buf.length < 0x100000000) :
    patchRecords buf (rounds + 1) front.length =
      (patchRecords buf rounds (front ++ record.bytes).length >>= fun pitm =>
        .ok (record.item :: pitm)) := by
  have word := record_has_word record
  have parts : buf = front ++ (setBeU32 record.offset.toNat ++
      (setBeU32 record.words.length ++ (wordsBytes record.words ++ behind))) := by
    rw [shape, PatchRecord.bytes]
    simp only [List.append_assoc]
  have length : buf.length =
      front.length + (record.words.length * 4 + 8 + behind.length) := by
    rw [shape, List.length_append, List.length_append, record_bytes_length]
  have inside : front.length < sub32 buf.length 8 := by
    rw [sub32_of_le (by omega) bound]
    omega
  have words := get_be_u32_pair_behind front record.offset.toNat_lt
    (by omega : record.words.length < 0x100000000) _ parts
  rw [UInt32.ofNat_toNat] at words
  have counted := word_of_small (by omega : record.words.length < 0x100000000)
  have next : u32 (front.length + record.words.length * 4 + 8) =
      (front ++ record.bytes).length := by
    rw [List.length_append, record_bytes_length, u32_of_lt (by omega)]
    omega
  rw [patchRecords, if_pos inside, words.1, ok_bind, words.2, ok_bind, counted, next]
  rfl

/-- The loop on what lies behind a front. A tail of eight bytes or less ends it. -/
theorem patch_records_behind (records : List PatchRecord) (front tail : Bytes) {buf : Bytes}
    {rounds : Nat} (shape : buf = front ++ (recordsBytes records ++ tail))
    (large : 8 ≤ buf.length) (bound : buf.length < 0x100000000) (short : tail.length ≤ 8)
    (enough : records.length < rounds) :
    patchRecords buf rounds front.length = .ok (records.map PatchRecord.item) := by
  induction records generalizing front rounds with
  | nil =>
      cases rounds with
      | zero => cases enough
      | succ rounds =>
          have length : buf.length = front.length + tail.length := by
            rw [shape, recordsBytes, List.map_nil, List.flatten_nil, List.nil_append,
              List.length_append]
          rw [patchRecords, sub32_of_le large bound, if_neg (by omega)]
          rfl
  | cons record rest ih =>
      cases rounds with
      | zero => cases enough
      | succ rounds =>
          rw [records_bytes_cons, List.append_assoc] at shape
          have fewer : rest.length < rounds := by
            rw [List.length_cons] at enough
            omega
          have later : buf = (front ++ record.bytes) ++ (recordsBytes rest ++ tail) := by
            rw [shape, List.append_assoc]
          rw [patch_record_pass record front _ rounds shape bound,
            ih (front ++ record.bytes) later fewer, ok_bind]
          rfl

theorem patch_file_bytes_length (records : List PatchRecord) (terminated : Bool) :
    (patchFileBytes records terminated).length =
      (recordsBytes records).length + if terminated then 4 else 0 := by
  rw [patchFileBytes, List.length_append]
  cases terminated <;> rfl

theorem file_records_of_bytes {lib : Library} {records : List PatchRecord} (nonempty : records ≠ [])
    (terminated : Bool) (fits : (patchFileBytes records terminated).length < 0x100000000)
    (loads : lib.Loads (patchFileBytes records terminated).length) :
    fileRecords lib (some (patchFileBytes records terminated)) =
      .ok (records.map PatchRecord.item) := by
  have length := patch_file_bytes_length records terminated
  have aligned := records_bytes_mod records
  have counted := records_count_le records
  have present := List.length_pos_of_ne_nil nonempty
  have size : (if terminated then 4 else 0) ≤ 4 ∧ (if terminated then 4 else 0) % 4 = 0 := by
    cases terminated <;> decide
  have large : 8 ≤ (patchFileBytes records terminated).length := by omega
  have loop : patchRecords (patchFileBytes records terminated)
      ((patchFileBytes records terminated).length + 1) 0 =
        .ok (records.map PatchRecord.item) := by
    apply patch_records_behind records [] (if terminated then terminator else []) rfl large fits
    · cases terminated <;> decide
    · omega
  rw [fileRecords, file_to_buffer_whole loads]
  simp only
  rw [if_neg (by omega), if_neg (by omega)]
  exact loop

/-- The items are those of the records, in their order, and the rest of
`processPatchFile` sees nothing else of the file. -/
theorem patch_file_extracts_records (build : Build) (fname : Bytes) (pfiles : List PatchFile)
    (records : List PatchRecord) (terminated : Bool) (nonempty : records ≠ [])
    (fits : (patchFileBytes records terminated).length < 0x80000000)
    (loads : build.lib.Loads (patchFileBytes records terminated).length) :
    fileRecords build.lib (some (patchFileBytes records terminated)) =
        .ok (records.map PatchRecord.item) ∧
      processPatchFile build fname (some (patchFileBytes records terminated)) pfiles =
        (nameBuffer (fixupName build fname) >>= fun name =>
          if shouldAdd pfiles ⟨name, records.map PatchRecord.item⟩ then
            pushBack build pfiles ⟨name, records.map PatchRecord.item⟩
          else .ok pfiles) := by
  have extracted := file_records_of_bytes nonempty terminated (by omega) loads
  have items : records.map PatchRecord.item ≠ [] := by
    intro none
    exact nonempty (List.map_eq_nil_iff.mp none)
  refine ⟨extracted, ?_⟩
  rw [processPatchFile, extracted, ok_bind, if_neg items]
  rfl

/-- Data that looks like a record and like the terminator, and a last record of
one word. -/
def sampleRecords : List PatchRecord :=
  [⟨0x1000, [0x2000, 1, 0xFFFFFFFF], List.cons_ne_nil _ _⟩,
    ⟨0x3000, [0x60000000], List.cons_ne_nil _ _⟩]

theorem sample_records_extracted :
    fileRecords wholeFiles (some (patchFileBytes sampleRecords true)) =
        .ok [⟨0x1000, 3⟩, ⟨0x3000, 1⟩] ∧
      processPatchFile ⟨false, fun _ => true, wholeFiles⟩ (asciiText ['a', '.', 'b', 'i', 'n'])
          (some (patchFileBytes sampleRecords true)) [] =
        .ok [⟨asciiText ['a'], [⟨0x1000, 3⟩, ⟨0x3000, 1⟩]⟩] := by
  have fits : (patchFileBytes sampleRecords true).length < 0x80000000 := by decide
  have extracted := patch_file_extracts_records ⟨false, fun _ => true, wholeFiles⟩
    (asciiText ['a', '.', 'b', 'i', 'n']) [] sampleRecords true (List.cons_ne_nil _ _) fits
    ⟨by decide, rfl⟩
  refine ⟨extracted.1, ?_⟩
  rw [extracted.2]
  rfl

end XeBuild.OptIdx
