import XeBuild.Iso2svod.XexInfo

/-!
# Lookups in the header directory

Three functions search the directory of an XEX header. One of them swaps the
count of entries, the other two hand it on in the order of the host.
-/

namespace XeBuild.Iso2svod

open CheckedBuffer ListRange Runs SearchLoop

set_option autoImplicit false

/-! ## Stored directories -/

structure HeaderEntry where
  key : Nat
  value : Nat
  key_lt : key < 0x100000000
  value_lt : value < 0x100000000

/-- The header of an image whose length is an `int`. -/
structure XexDirectory where
  head : Bytes
  entries : List HeaderEntry
  head_length : head.length = 0x14
  int : 0x18 + entries.length * 8 < 0x80000000

def HeaderEntry.bytes (entry : HeaderEntry) : Bytes := beU32 entry.key ++ beU32 entry.value

def XexDirectory.bytes (directory : XexDirectory) (tail : Bytes) : Bytes :=
  directory.head ++ (beU32 directory.entries.length ++
    (directory.entries.flatMap HeaderEntry.bytes ++ tail))

def XexDirectory.find (directory : XexDirectory) (field : Nat) : Option Nat :=
  (directory.entries.findIdx? fun entry => entry.key == field).map fun index => 0x18 + 8 * index

/-- Whatever follows the directory, the lookups find what is in it. -/
structure LookupsExact (directory : XexDirectory) : Prop where
  execInfo : ∀ tail, execInfoField (directory.bytes tail) =
    .ok (directory.find XEX_HEADER_EXECUTION_ID)
  fileData : ∀ tail, fileDataField (directory.bytes tail) =
    .ok (directory.find XEX_FILE_DATA_DESCRIPTOR_HEADER)
  sectionTable : ∀ tail, sectionTableField (directory.bytes tail) =
    .ok (directory.find XEX_HEADER_SECTION_TABLE)

def SameCounts (directory : XexDirectory) : Prop :=
  ∀ tail count, loadLe32 (directory.bytes tail) 0x14 = .ok count → bswap32 count = count

/-- A search through this many entries comes to the entry with the key, or, when
there is none, not behind the last entry. -/
def SearchReaches (directory : XexDirectory) (field numEntries : Nat) : Prop :=
  match directory.entries.findIdx? fun entry => entry.key == field with
  | some index => index < intRounds numEntries
  | none => intRounds numEntries ≤ directory.entries.length

section Stored

variable {directory : XexDirectory} {tail : Bytes} {field numEntries index : Nat}

theorem bswap32_bswap32 {value : Nat} (word : value < 0x100000000) :
    bswap32 (bswap32 value) = value := by
  rcases bswap32_bytes value with ⟨first, second, third, fourth⟩
  rw [bswap32, first, second, third, fourth]
  omega

theorem entries_length (entries : List HeaderEntry) :
    (entries.flatMap HeaderEntry.bytes).length = entries.length * 8 := by
  induction entries with
  | nil => rfl
  | cons entry entries ih =>
      rw [List.flatMap_cons, List.length_append, ih, List.length_cons]
      simp only [HeaderEntry.bytes, beU32, hostU32, List.length_append, List.length_cons,
        List.length_nil]
      omega

theorem directory_length (directory : XexDirectory) (tail : Bytes) :
    (directory.bytes tail).length = 0x18 + directory.entries.length * 8 + tail.length := by
  rw [XexDirectory.bytes, List.length_append, directory.head_length, List.length_append,
    List.length_append, entries_length]
  simp only [beU32, hostU32, List.length_cons, List.length_nil]
  omega

theorem load_count (directory : XexDirectory) (tail : Bytes) :
    loadLe32 (directory.bytes tail) 0x14 = .ok (bswap32 directory.entries.length) := by
  have length := directory_length directory tail
  have field : slice (directory.bytes tail) 0x14 4 =
      hostU32 (bswap32 directory.entries.length) := by
    have moved := slice_append_right directory.head (beU32 directory.entries.length ++
      (directory.entries.flatMap HeaderEntry.bytes ++ tail)) 0 4
    rw [directory.head_length] at moved
    exact moved
  rw [loadLe32, load_inside (by omega), field]
  exact congrArg Except.ok (get_le32_host_u32 (bswap32_lt _))

theorem load_key (present : index < directory.entries.length) :
    loadBe32 (directory.bytes tail) (0x18 + 8 * index) = .ok directory.entries[index].key := by
  have length := directory_length directory tail
  have front : (directory.head ++ (beU32 directory.entries.length ++
      (directory.entries.take index).flatMap HeaderEntry.bytes)).length = 0x18 + 8 * index := by
    rw [List.length_append, directory.head_length, List.length_append, entries_length,
      List.length_take]
    simp only [beU32, hostU32, List.length_cons, List.length_nil]
    omega
  have shape : directory.bytes tail = directory.head ++ (beU32 directory.entries.length ++
      (directory.entries.take index).flatMap HeaderEntry.bytes) ++
        (beU32 directory.entries[index].key ++ (beU32 directory.entries[index].value ++
          ((directory.entries.drop (index + 1)).flatMap HeaderEntry.bytes ++ tail))) := by
    have split : directory.entries = directory.entries.take index ++
        directory.entries[index] :: directory.entries.drop (index + 1) := by
      rw [← List.drop_eq_getElem_cons present, List.take_append_drop]
    have bytes : directory.entries.flatMap HeaderEntry.bytes =
        (directory.entries.take index).flatMap HeaderEntry.bytes ++
          (directory.entries[index].bytes ++
            (directory.entries.drop (index + 1)).flatMap HeaderEntry.bytes) := by
      nth_rewrite 1 [split]
      rw [List.flatMap_append, List.flatMap_cons]
    rw [XexDirectory.bytes, bytes, HeaderEntry.bytes]
    simp only [List.append_assoc]
  rw [load_be32_inside (by omega), ← front, shape, be32_stored directory.entries[index].key_lt]

theorem probe_entry (present : index < directory.entries.length) :
    headerProbe (directory.bytes tail) field index =
      .ok (if directory.entries[index].key = field then some (0x18 + 8 * index) else none) := by
  rw [headerProbe, load_key present, ok_bind]
  rfl

/-- Without a tail there is nothing to read behind the last entry. -/
theorem probe_past (past : directory.entries.length ≤ index) (result : Option Nat) :
    headerProbe (directory.bytes []) field index ≠ .ok result := by
  intro run
  have length := directory_length directory []
  rw [List.length_nil] at length
  rw [headerProbe, bind_ok_iff] at run
  rcases run with ⟨key, got, _⟩
  have inside := (load_be32_iff.mp got).1
  omega

theorem search_reaches_iff (directory : XexDirectory) (field numEntries : Nat) :
    (∀ tail, getXexHeaderField (directory.bytes tail) field numEntries =
        .ok (directory.find field)) ↔
      SearchReaches directory field numEntries := by
  rw [SearchReaches, XexDirectory.find]
  cases found : directory.entries.findIdx? fun entry => entry.key == field with
  | some index =>
      rcases List.findIdx?_eq_some_iff_getElem.mp found with ⟨present, hit, before⟩
      rw [beq_iff_eq] at hit
      constructor
      · intro finds
        rcases search_some_iff.mp (finds []) with ⟨other, _, reached, _, got⟩
        rcases Nat.lt_or_ge other directory.entries.length with inside | past
        · rw [probe_entry inside] at got
          have result := Except.ok.inj got
          split_ifs at result
          have same : 0x18 + 8 * other = 0x18 + 8 * index := Option.some.inj result
          omega
        · exact absurd got (probe_past past _)
      · intro reached tail
        apply search_some_iff.mpr
        refine ⟨index, Nat.zero_le _, by omega, ?_, ?_⟩
        · intro earlier _ sooner
          rw [probe_entry (by omega), if_neg]
          intro same
          exact before earlier sooner (beq_iff_eq.mpr same)
        · rw [probe_entry present, if_pos hit]
  | none =>
      have misses := List.findIdx?_eq_none_iff.mp found
      have probes : ∀ tail index, index < directory.entries.length →
          headerProbe (directory.bytes tail) field index = .ok none := by
        intro tail index present
        rw [probe_entry present, if_neg]
        intro same
        have other := misses _ (List.getElem_mem present)
        rw [beq_eq_false_iff_ne] at other
        exact other same
      constructor
      · intro finds
        by_contra more
        have miss := search_none_iff.mp (finds []) directory.entries.length (Nat.zero_le _)
          (by omega)
        exact probe_past (Nat.le_refl _) _ miss
      · intro enough tail
        apply search_none_iff.mpr
        intro index _ before
        exact probes tail index (by omega)

end Stored

/-! ## The three lookups -/

section Lookups

variable {directory : XexDirectory}

theorem own_count_reaches (directory : XexDirectory) (field : Nat) :
    SearchReaches directory field directory.entries.length := by
  have small := directory.int
  have rounds : intRounds directory.entries.length = directory.entries.length :=
    if_pos (by omega)
  rw [SearchReaches, rounds]
  cases found : directory.entries.findIdx? fun entry => entry.key == field with
  | some index => exact (List.findIdx?_eq_some_iff_getElem.mp found).1
  | none => exact Nat.le_refl _

theorem exec_info_exact (directory : XexDirectory) (tail : Bytes) :
    execInfoField (directory.bytes tail) = .ok (directory.find XEX_HEADER_EXECUTION_ID) := by
  have small := directory.int
  rw [execInfoField, load_count, ok_bind, bswap32_bswap32 (by omega)]
  exact (search_reaches_iff directory _ _).mpr (own_count_reaches directory _) tail

theorem lookups_exact_iff (directory : XexDirectory) :
    LookupsExact directory ↔
      SearchReaches directory XEX_FILE_DATA_DESCRIPTOR_HEADER
          (bswap32 directory.entries.length) ∧
        SearchReaches directory XEX_HEADER_SECTION_TABLE (bswap32 directory.entries.length) := by
  rw [← search_reaches_iff, ← search_reaches_iff]
  constructor
  · intro lookups
    constructor
    · intro tail
      have found := lookups.fileData tail
      rwa [fileDataField, load_count, ok_bind] at found
    · intro tail
      have found := lookups.sectionTable tail
      rwa [sectionTableField, load_count, ok_bind] at found
  · intro searches
    constructor
    · exact exec_info_exact directory
    · intro tail
      rw [fileDataField, load_count, ok_bind]
      exact searches.1 tail
    · intro tail
      rw [sectionTableField, load_count, ok_bind]
      exact searches.2 tail

theorem same_counts_iff (directory : XexDirectory) :
    SameCounts directory ↔ bswap32 directory.entries.length = directory.entries.length := by
  have small := directory.int
  have twice := bswap32_bswap32 (by omega : directory.entries.length < 0x100000000)
  constructor
  · intro same
    rw [same [] _ (load_count directory [])] at twice
    exact twice
  · intro same tail count loaded
    cases (load_count directory tail).symm.trans loaded
    rw [twice, same]

/-- The lookups find what is in the directory exactly when the searches with the
count of the host come far enough and no further; all three take the count in
the same way exactly when its bytes read the same in both orders. -/
theorem header_lookups_iff (directory : XexDirectory) :
    (LookupsExact directory ↔
      SearchReaches directory XEX_FILE_DATA_DESCRIPTOR_HEADER
          (bswap32 directory.entries.length) ∧
        SearchReaches directory XEX_HEADER_SECTION_TABLE (bswap32 directory.entries.length)) ∧
      (LookupsExact directory ∧ SameCounts directory ↔
        bswap32 directory.entries.length = directory.entries.length) := by
  refine ⟨lookups_exact_iff directory, ?_⟩
  rw [same_counts_iff]
  constructor
  · intro both
    exact both.2
  · intro same
    refine ⟨(lookups_exact_iff directory).mpr ?_, same⟩
    rw [same]
    exact ⟨own_count_reaches directory _, own_count_reaches directory _⟩

end Lookups

/-! ## Directories with a wrong count -/

theorem execution_key_lt : XEX_HEADER_EXECUTION_ID < 0x100000000 := by decide

theorem descriptor_key_lt : XEX_FILE_DATA_DESCRIPTOR_HEADER < 0x100000000 := by decide

theorem zero_value_lt : 0 < 0x100000000 := Nat.succ_pos _

theorem one_entry_int : 0x18 + 1 * 8 < 0x80000000 := by decide

theorem many_entries_int :
    0x18 + (List.replicate 0x80
      (⟨XEX_FILE_DATA_DESCRIPTOR_HEADER, 0, descriptor_key_lt, zero_value_lt⟩ :
        HeaderEntry)).length * 8 < 0x80000000 := by
  rw [List.length_replicate]
  decide

def oneEntryDirectory : XexDirectory where
  head := zeros 0x14
  entries := [⟨XEX_HEADER_EXECUTION_ID, 0, execution_key_lt, zero_value_lt⟩]
  head_length := zeros_length 0x14
  int := one_entry_int

/-- So many entries that the count of the host is negative. -/
def manyEntriesDirectory : XexDirectory where
  head := zeros 0x14
  entries := List.replicate 0x80
    ⟨XEX_FILE_DATA_DESCRIPTOR_HEADER, 0, descriptor_key_lt, zero_value_lt⟩
  head_length := zeros_length 0x14
  int := many_entries_int

/-- A key behind the directory is taken for an entry, and an entry of the
directory is not found. -/
theorem file_data_lookup_wrong :
    (oneEntryDirectory.find XEX_FILE_DATA_DESCRIPTOR_HEADER = none ∧
        fileDataField (oneEntryDirectory.bytes (beU32 XEX_FILE_DATA_DESCRIPTOR_HEADER)) =
          .ok (some 0x20)) ∧
      manyEntriesDirectory.find XEX_FILE_DATA_DESCRIPTOR_HEADER = some 0x18 ∧
        fileDataField (manyEntriesDirectory.bytes []) = .ok none := by
  refine ⟨⟨by decide, ?_⟩, by decide, ?_⟩
  · rw [fileDataField, load_count, ok_bind]
    have behind : be32 (oneEntryDirectory.bytes (beU32 XEX_FILE_DATA_DESCRIPTOR_HEADER)) 0x20 =
        XEX_FILE_DATA_DESCRIPTOR_HEADER := by decide
    apply search_some_iff.mpr
    refine ⟨1, Nat.zero_le _, by decide, ?_, ?_⟩
    · intro earlier _ before
      have other : XEX_HEADER_EXECUTION_ID ≠ XEX_FILE_DATA_DESCRIPTOR_HEADER := by decide
      rw [Nat.lt_one_iff.mp before, probe_entry (Nat.succ_pos _)]
      exact congrArg Except.ok (if_neg other)
    · rw [headerProbe, load_be32_inside (by decide), ok_bind, behind]
      rfl
  · have count : manyEntriesDirectory.entries.length = 0x80 := List.length_replicate
    rw [fileDataField, load_count, ok_bind, count]
    rfl

end XeBuild.Iso2svod
