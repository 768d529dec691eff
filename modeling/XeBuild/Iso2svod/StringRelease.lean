import XeBuild.Iso2svod.TitleStrings

/-!
# Releases of the title strings

How often a run of `parseStringsXrXml` releases each object. The name loop
returns at an unknown locale; a description loop goes on there, writes through
the `NULL` it was given and releases the strings of the node once more.
-/

namespace XeBuild.Iso2svod

set_option autoImplicit false

def KnownLocale (node : Translation) : Prop := localeIndex node.locale ≠ none

/-! ## Frames -/

namespace XmlRun

variable {run : XmlRun} {owned other : XmlOwned} {string : Option Bytes} {wide : Wide}
  {index : Nat}

theorem free_frees : (run.free owned).frees other =
    run.frees other + if other = owned then 1 else 0 := rfl

theorem free_string_frees : (run.freeString owned string).frees other =
    run.frees other + if string.isSome ∧ other = owned then 1 else 0 := by
  rw [freeString]
  cases string with
  | none => rfl
  | some text => simp [free_frees]

theorem free_null : (run.free owned).nullWritten = run.nullWritten := rfl

theorem free_string_null : (run.freeString owned string).nullWritten = run.nullWritten := by
  rw [freeString]
  cases string with
  | none => rfl
  | some text => rfl

theorem write_name_frees (name : Option Nat) : (run.writeName name wide).frees = run.frees := by
  cases name with
  | none => rfl
  | some index => rfl

theorem write_name_null : (run.writeName (some index) wide).nullWritten = run.nullWritten := rfl

theorem write_desc_frees (desc : Option Nat) : (run.writeDesc desc wide).frees = run.frees := by
  cases desc with
  | none => rfl
  | some index => rfl

theorem name_written_frees (name : Option Nat) :
    (if wide = [] then run else run.writeName name wide).frees = run.frees := by
  split_ifs
  · rfl
  · exact write_name_frees name

theorem desc_written_frees (desc : Option Nat) :
    (if wide = [] then run else run.writeDesc desc wide).frees = run.frees := by
  split_ifs
  · rfl
  · exact write_desc_frees desc

theorem write_desc_null : (run.writeDesc (some index) wide).nullWritten = run.nullWritten := rfl

end XmlRun

open XmlRun

/-! ## What a part of the run may release -/

def nodeStrings (query : XPathQuery) (i : Nat) : XmlOwned → Nat
  | .keyword other j | .val other j => if other = query ∧ i ≤ j then 1 else 0
  | _ => 0

/-- What the name loop releases where it returns `FALSE`. -/
def returnStrings : XmlOwned → Nat
  | .doc | .xpathCtx | .xpathObj .gameName | .sellString | .publisherString => 1
  | _ => 0

/-- The strings of node `i` are apart from those of the later nodes. -/
theorem node_strings_step (query : XPathQuery) (i : Nat) (owned : XmlOwned)
    (string : Option Bytes) :
    (if owned = .keyword query i then 1 else 0) +
        (if string.isSome ∧ owned = .val query i then 1 else 0) +
        nodeStrings query (i + 1) owned ≤ nodeStrings query i owned := by
  cases owned with
  | keyword other j =>
      simp only [XmlOwned.keyword.injEq, reduceCtorEq, and_false, if_false, nodeStrings]
      by_cases same : other = query
      · simp only [same, true_and]
        split_ifs <;> omega
      · simp only [same, false_and, if_false]
        omega
  | val other j =>
      simp only [XmlOwned.val.injEq, reduceCtorEq, if_false, nodeStrings]
      by_cases same : other = query
      · simp only [same, true_and]
        split_ifs <;> omega
      · simp only [same, false_and, and_false, if_false]
        omega
  | _ => simp [nodeStrings]

theorem return_strings_ge (sellString publisherString : Option Bytes) (owned : XmlOwned) :
    (if owned = .xpathObj .gameName then 1 else 0) + (if owned = .xpathCtx then 1 else 0) +
        (if owned = .doc then 1 else 0) +
        (if sellString.isSome ∧ owned = .sellString then 1 else 0) +
        (if publisherString.isSome ∧ owned = .publisherString then 1 else 0) ≤
      returnStrings owned := by
  cases owned with
  | xpathObj query =>
      cases query <;> simp [returnStrings]
  | sellString =>
      simp only [returnStrings, reduceCtorEq, and_false, if_false]
      split_ifs <;> omega
  | publisherString =>
      simp only [returnStrings, reduceCtorEq, and_false, if_false]
      split_ifs <;> omega
  | _ => simp [returnStrings]

section Loops

variable {multiByteToWideChar : ToWide} {sellString publisherString : Option Bytes}
  {nodes : List Translation} {i : Nat} {run : XmlRun}

/-- The run behind the strings of a name node with a known locale. -/
theorem name_loop_known {node : Translation} {index : Nat}
    (known : localeIndex node.locale = some index) :
    nameLoop multiByteToWideChar sellString publisherString (node :: nodes) i run =
      nameLoop multiByteToWideChar sellString publisherString nodes (i + 1)
        ((if multiByteToWideChar node.text = [] then run
          else run.writeName (some index) (multiByteToWideChar node.text))
          |>.free (.keyword .gameName i) |>.freeString (.val .gameName i) node.text) := by
  rw [nameLoop, convertLocaleToName, known]
  rfl

theorem name_loop_unknown {node : Translation} (unknown : localeIndex node.locale = none) :
    nameLoop multiByteToWideChar sellString publisherString (node :: nodes) i run =
      (false, run |>.free (.xpathObj .gameName) |>.free .xpathCtx |>.free .doc
        |>.free (.keyword .gameName i) |>.freeString (.val .gameName i) node.text
        |>.freeString .sellString sellString |>.freeString .publisherString publisherString) := by
  rw [nameLoop, convertLocaleToName, unknown]
  rfl

theorem name_loop_result :
    (nameLoop multiByteToWideChar sellString publisherString nodes i run).1 = true ↔
      ∀ node ∈ nodes, KnownLocale node := by
  induction nodes generalizing i run with
  | nil => simp [nameLoop]
  | cons node nodes ih =>
      cases known : localeIndex node.locale with
      | none =>
          rw [name_loop_unknown known]
          simp [KnownLocale, known]
      | some index =>
          rw [name_loop_known known, ih]
          simp [KnownLocale, known]

theorem name_loop_null :
    (nameLoop multiByteToWideChar sellString publisherString nodes i run).2.nullWritten =
      run.nullWritten := by
  induction nodes generalizing i run with
  | nil => rfl
  | cons node nodes ih =>
      cases known : localeIndex node.locale with
      | none =>
          rw [name_loop_unknown known]
          simp only [free_null, free_string_null]
      | some index =>
          rw [name_loop_known known, ih, free_string_null, free_null]
          split_ifs
          · rfl
          · exact write_name_null

theorem name_loop_frees (owned : XmlOwned) :
    (nameLoop multiByteToWideChar sellString publisherString nodes i run).2.frees owned ≤
      run.frees owned + nodeStrings .gameName i owned +
        if (nameLoop multiByteToWideChar sellString publisherString nodes i run).1 then 0
        else returnStrings owned := by
  induction nodes generalizing i run with
  | nil => simp [nameLoop]
  | cons node nodes ih =>
      have step := node_strings_step .gameName i owned node.text
      cases known : localeIndex node.locale with
      | none =>
          rw [name_loop_unknown known]
          simp only [free_string_frees, free_frees, Bool.false_eq_true, if_false]
          have others := return_strings_ge sellString publisherString owned
          omega
      | some index =>
          rw [name_loop_known known]
          have later := @ih (i + 1) ((if multiByteToWideChar node.text = [] then run
              else run.writeName (some index) (multiByteToWideChar node.text))
            |>.free (.keyword .gameName i) |>.freeString (.val .gameName i) node.text)
          simp only [free_string_frees, free_frees, name_written_frees] at later
          omega

/-! ## The description loops -/

theorem desc_node_known {node : Translation} {index : Nat}
    (known : localeIndex node.locale = some index) :
    descNode multiByteToWideChar node i run =
      ((if multiByteToWideChar node.text = [] then run
          else run.writeDesc (some index) (multiByteToWideChar node.text))
        |>.free (.keyword .description i) |>.freeString (.val .description i) node.text) := by
  rw [descNode, convertLocaleToDesc, known]
  rfl

/-- The branch for an unknown locale has the releases that every node has, too. -/
theorem desc_node_unknown {node : Translation} (unknown : localeIndex node.locale = none)
    (owned : XmlOwned) :
    (descNode multiByteToWideChar node i run).frees owned =
      (run |>.free (.xpathObj .description) |>.free .xpathCtx |>.free .doc
        |>.free (.keyword .description i) |>.freeString (.val .description i) node.text
        |>.free (.keyword .description i)
        |>.freeString (.val .description i) node.text).frees owned := by
  rw [descNode, convertLocaleToDesc, unknown]
  simp only [if_true, free_string_frees, free_frees, desc_written_frees]

theorem desc_node_known_frees {node : Translation} (known : KnownLocale node)
    (owned : XmlOwned) :
    (descNode multiByteToWideChar node i run).frees owned =
      (run |>.free (.keyword .description i)
        |>.freeString (.val .description i) node.text).frees owned := by
  rcases Option.ne_none_iff_exists'.mp known with ⟨index, here⟩
  rw [desc_node_known here]
  simp only [free_string_frees, free_frees, desc_written_frees]

theorem desc_loop_frees_ge (owned : XmlOwned) :
    run.frees owned ≤ (descLoop multiByteToWideChar nodes i run).frees owned := by
  induction nodes generalizing i run with
  | nil => exact Nat.le_refl _
  | cons node nodes ih =>
      apply Nat.le_trans _ ih
      by_cases known : KnownLocale node
      · rw [desc_node_known_frees known, free_string_frees, free_frees]
        omega
      · rw [desc_node_unknown (not_not.mp known)]
        simp only [free_string_frees, free_frees]
        omega

/-- The locale string of a node that is not known is released twice. -/
theorem desc_loop_unknown {node : Translation} (member : node ∈ nodes)
    (unknown : localeIndex node.locale = none) :
    ∃ j, 2 ≤ (descLoop multiByteToWideChar nodes i run).frees (.keyword .description j) := by
  induction nodes generalizing i run with
  | nil => cases member
  | cons first nodes ih =>
      rcases List.mem_cons.mp member with rfl | later
      · refine ⟨i, ?_⟩
        have later := @desc_loop_frees_ge multiByteToWideChar nodes (i + 1)
          (descNode multiByteToWideChar node i run) (.keyword .description i)
        rw [desc_node_unknown unknown] at later
        simp only [free_string_frees, free_frees, if_true] at later
        rw [descLoop]
        omega
      · exact ih later

theorem desc_loop_null (known : ∀ node ∈ nodes, KnownLocale node) :
    (descLoop multiByteToWideChar nodes i run).nullWritten = run.nullWritten := by
  induction nodes generalizing i run with
  | nil => rfl
  | cons node nodes ih =>
      rcases Option.ne_none_iff_exists'.mp (known node List.mem_cons_self) with ⟨index, first⟩
      have rest : ∀ other ∈ nodes, KnownLocale other := by
        intro other member
        exact known other (List.mem_cons_of_mem _ member)
      rw [descLoop, ih rest, desc_node_known first, free_string_null, free_null]
      split_ifs
      · rfl
      · exact write_desc_null

theorem desc_loop_frees (known : ∀ node ∈ nodes, KnownLocale node) (owned : XmlOwned) :
    (descLoop multiByteToWideChar nodes i run).frees owned ≤
      run.frees owned + nodeStrings .description i owned := by
  induction nodes generalizing i run with
  | nil => exact Nat.le_add_right _ _
  | cons node nodes ih =>
      have first := known node List.mem_cons_self
      have rest : ∀ other ∈ nodes, KnownLocale other := by
        intro other member
        exact known other (List.mem_cons_of_mem _ member)
      have step := node_strings_step .description i owned node.text
      have later := @ih (i + 1) (descNode multiByteToWideChar node i run) rest
      rw [desc_node_known_frees first, free_string_frees, free_frees] at later
      rw [descLoop]
      omega

end Loops

/-! ## Whole runs -/

def XlastFile.descriptionNodes (xml : XlastFile) : List Translation :=
  match xml.sellString with
  | some sellString => xml.description sellString
  | none =>
      match xml.publisherString with
      | some publisherString => xml.description publisherString
      | none => []

/-- No description loop that is reached meets an unknown locale. -/
def XlastFile.DescriptionsKnown (xml : XlastFile) : Prop :=
  xml.registersNs = true → xml.gameName ≠ [] → (∀ node ∈ xml.gameName, KnownLocale node) →
    ∀ node ∈ xml.descriptionNodes, KnownLocale node

/-- What a run is to be like: the result and the run behind it. -/
structure RunsClean (xml : Option XlastFile) (out : Bool × XmlRun) : Prop where
  noNullWrite : out.2.nullWritten = false
  releasedOnce : ∀ owned, owned.isString = true → out.2.frees owned ≤ 1
  unknownName : ∀ file, xml = some file → (∃ node ∈ file.gameName, ¬ KnownLocale node) →
    out.1 = false

section Runs

variable {multiByteToWideChar : ToWide} {xml : XlastFile} {run : XmlRun}

def descriptionStrings (owned : XmlOwned) : Nat :=
  nodeStrings .description 0 owned + if owned = .xpathObj .description then 1 else 0

theorem describe_frees {nodes : List Translation} (known : ∀ node ∈ nodes, KnownLocale node)
    (owned : XmlOwned) :
    (describe multiByteToWideChar nodes run).frees owned ≤
      run.frees owned + descriptionStrings owned := by
  have loop : (if nodes = [] then { run with strings := writePhonyDesc run.strings }
      else descLoop multiByteToWideChar nodes 0 run).frees owned ≤
        run.frees owned + nodeStrings .description 0 owned := by
    split_ifs
    · exact Nat.le_add_right _ _
    · exact desc_loop_frees known owned
  rw [describe, free_frees, descriptionStrings]
  omega

theorem describe_null {nodes : List Translation} (known : ∀ node ∈ nodes, KnownLocale node) :
    (describe multiByteToWideChar nodes run).nullWritten = run.nullWritten := by
  rw [describe, free_null]
  split_ifs
  · rfl
  · exact desc_loop_null known

theorem describe_unknown {nodes : List Translation} {node : Translation} (member : node ∈ nodes)
    (unknown : ¬ KnownLocale node) :
    ∃ j, 2 ≤ (describe multiByteToWideChar nodes run).frees (.keyword .description j) := by
  have present : nodes ≠ [] := List.ne_nil_of_mem member
  rcases @desc_loop_unknown multiByteToWideChar nodes 0 run node member (not_not.mp unknown) with
    ⟨j, twice⟩
  refine ⟨j, ?_⟩
  rw [describe, if_neg present, free_frees]
  omega

/-- One of the strings leads to a description loop, or there is none. -/
theorem parse_description_cases :
    parseDescription multiByteToWideChar xml run =
        describe multiByteToWideChar xml.descriptionNodes run ∨
      xml.descriptionNodes = [] ∧ parseDescription multiByteToWideChar xml run =
        { run with strings := copyTitlesToDescription run.strings } := by
  rw [parseDescription, XlastFile.descriptionNodes]
  cases xml.sellString with
  | some sellString => exact Or.inl rfl
  | none =>
      cases xml.publisherString with
      | some publisherString => exact Or.inl rfl
      | none => exact Or.inr ⟨rfl, rfl⟩

theorem parse_description_frees (known : ∀ node ∈ xml.descriptionNodes, KnownLocale node)
    (owned : XmlOwned) :
    (parseDescription multiByteToWideChar xml run).frees owned ≤
      run.frees owned + descriptionStrings owned := by
  rcases @parse_description_cases multiByteToWideChar xml run with same | ⟨_, same⟩
  · rw [same]
    exact describe_frees known owned
  · rw [same]
    exact Nat.le_add_right _ _

theorem parse_description_null (known : ∀ node ∈ xml.descriptionNodes, KnownLocale node) :
    (parseDescription multiByteToWideChar xml run).nullWritten = run.nullWritten := by
  rcases @parse_description_cases multiByteToWideChar xml run with same | ⟨_, same⟩
  · rw [same]
    exact describe_null known
  · rw [same]

theorem parse_description_unknown {node : Translation} (member : node ∈ xml.descriptionNodes)
    (unknown : ¬ KnownLocale node) :
    ∃ j, 2 ≤ (parseDescription multiByteToWideChar xml run).frees (.keyword .description j) := by
  rcases @parse_description_cases multiByteToWideChar xml run with same | ⟨none, _⟩
  · rw [same]
    exact describe_unknown member unknown
  · rw [none] at member
    cases member

/-! ## The texts -/

def namesRun (multiByteToWideChar : ToWide) (xml : XlastFile) (run : XmlRun) : Bool × XmlRun :=
  nameLoop multiByteToWideChar xml.sellString xml.publisherString xml.gameName 0 run

theorem parse_texts_no_names (none : xml.gameName = []) :
    parseTexts multiByteToWideChar xml run =
      (false, run |>.free (.xpathObj .gameName) |>.free .xpathCtx |>.free .doc
        |>.freeString .sellString xml.sellString
        |>.freeString .publisherString xml.publisherString) := by
  rw [parseTexts, if_pos none]

theorem parse_texts_unknown (some : xml.gameName ≠ [])
    (failed : (namesRun multiByteToWideChar xml run).1 = false) :
    parseTexts multiByteToWideChar xml run =
      (false, (namesRun multiByteToWideChar xml run).2) := by
  rw [parseTexts, if_neg some]
  rw [namesRun] at failed ⊢
  generalize nameLoop multiByteToWideChar xml.sellString xml.publisherString xml.gameName 0 run =
    out at failed ⊢
  rcases out with ⟨going, names⟩
  cases failed
  rfl

def describedRun (multiByteToWideChar : ToWide) (xml : XlastFile) (run : XmlRun) : XmlRun :=
  parseDescription multiByteToWideChar xml
    ((namesRun multiByteToWideChar xml run).2.free (.xpathObj .gameName))

theorem parse_texts_known (some : xml.gameName ≠ [])
    (done : (namesRun multiByteToWideChar xml run).1 = true) :
    ∃ strings, parseTexts multiByteToWideChar xml run =
      (true, { (describedRun multiByteToWideChar xml run |>.free .xpathCtx |>.free .doc
        |>.freeString .sellString xml.sellString
        |>.freeString .publisherString xml.publisherString) with strings := strings }) := by
  rw [parseTexts, if_neg some, describedRun]
  rw [namesRun] at done ⊢
  generalize nameLoop multiByteToWideChar xml.sellString xml.publisherString xml.gameName 0 run =
    out at done ⊢
  rcases out with ⟨going, names⟩
  cases done
  exact ⟨_, rfl⟩

/-- The first two results, released ahead of the names. -/
def firstResults (owned : XmlOwned) : Nat :=
  if owned = .xpathObj .gameConfigProject ∨ owned = .xpathObj .productInformation then 1 else 0

theorem parts_apart (owned : XmlOwned) :
    firstResults owned + nodeStrings .gameName 0 owned + returnStrings owned +
      descriptionStrings owned ≤ 1 := by
  rw [descriptionStrings]
  cases owned with
  | xpathObj query =>
      cases query <;> simp [firstResults, nodeStrings, returnStrings]
  | keyword query i =>
      cases query <;> simp [firstResults, nodeStrings, returnStrings]
  | val query i =>
      cases query <;> simp [firstResults, nodeStrings, returnStrings]
  | _ => simp [firstResults, nodeStrings, returnStrings]

theorem parse_texts_frees (start : ∀ owned, run.frees owned = firstResults owned)
    (known : xml.gameName ≠ [] → (∀ node ∈ xml.gameName, KnownLocale node) →
      ∀ node ∈ xml.descriptionNodes, KnownLocale node) (owned : XmlOwned) :
    (parseTexts multiByteToWideChar xml run).2.frees owned ≤ 1 := by
  have apart := parts_apart owned
  have returned := return_strings_ge xml.sellString xml.publisherString owned
  have here := start owned
  by_cases none : xml.gameName = []
  · rw [parse_texts_no_names none]
    simp only [free_string_frees, free_frees]
    omega
  · have names := @name_loop_frees multiByteToWideChar xml.sellString xml.publisherString
      xml.gameName 0 run owned
    cases result : (namesRun multiByteToWideChar xml run).1 with
    | false =>
        rw [parse_texts_unknown none result]
        rw [namesRun] at result
        simp only [result, Bool.false_eq_true, if_false] at names
        simp only [namesRun]
        omega
    | true =>
        rcases parse_texts_known none result with ⟨strings, same⟩
        rw [same]
        rw [namesRun] at result
        have described := @parse_description_frees multiByteToWideChar xml
          ((namesRun multiByteToWideChar xml run).2.free (.xpathObj .gameName))
          (known none (name_loop_result.mp result)) owned
        simp only [free_string_frees, free_frees, describedRun]
        rw [free_frees, namesRun] at described
        rw [namesRun]
        simp only [result, if_true] at names
        omega

theorem parse_texts_null (start : run.nullWritten = false)
    (known : xml.gameName ≠ [] → (∀ node ∈ xml.gameName, KnownLocale node) →
      ∀ node ∈ xml.descriptionNodes, KnownLocale node) :
    (parseTexts multiByteToWideChar xml run).2.nullWritten = false := by
  by_cases none : xml.gameName = []
  · rw [parse_texts_no_names none]
    simp only [free_string_null, free_null]
    exact start
  · have names := @name_loop_null multiByteToWideChar xml.sellString xml.publisherString
      xml.gameName 0 run
    cases result : (namesRun multiByteToWideChar xml run).1 with
    | false =>
        rw [parse_texts_unknown none result]
        exact names.trans start
    | true =>
        rcases parse_texts_known none result with ⟨strings, same⟩
        rw [same]
        simp only [free_string_null, free_null, describedRun]
        rw [parse_description_null (known none (name_loop_result.mp result)), free_null]
        exact names.trans start

theorem parse_texts_twice (some : xml.gameName ≠ []) (names : ∀ node ∈ xml.gameName, KnownLocale node)
    {node : Translation} (member : node ∈ xml.descriptionNodes) (unknown : ¬ KnownLocale node) :
    ∃ j, 2 ≤ (parseTexts multiByteToWideChar xml run).2.frees (.keyword .description j) := by
  have done : (namesRun multiByteToWideChar xml run).1 = true := name_loop_result.mpr names
  rcases parse_texts_known some done with ⟨strings, same⟩
  rcases @parse_description_unknown multiByteToWideChar xml
    ((namesRun multiByteToWideChar xml run).2.free (.xpathObj .gameName)) node member unknown with
    ⟨j, twice⟩
  refine ⟨j, ?_⟩
  rw [same]
  simp only [free_string_frees, free_frees, describedRun]
  omega

theorem parse_texts_unknown_name {node : Translation} (member : node ∈ xml.gameName)
    (unknown : ¬ KnownLocale node) : (parseTexts multiByteToWideChar xml run).1 = false := by
  have some : xml.gameName ≠ [] := List.ne_nil_of_mem member
  cases result : (namesRun multiByteToWideChar xml run).1 with
  | false => rw [parse_texts_unknown some result]
  | true => exact absurd (name_loop_result.mp result node member) unknown

end Runs

def textsRun (multiByteToWideChar : ToWide) (xml : XlastFile) (strings : TitleStrings) : XmlRun :=
  let run : XmlRun := ⟨strings, fun _ => 0, false⟩
  let wide := multiByteToWideChar xml.titleName
  (if xml.titleName = none ∨ wide = [] then run else run.writeTitle wide)
    |>.free (.xpathObj .gameConfigProject) |>.free (.xpathObj .productInformation)

section Parse

variable {multiByteToWideChar : ToWide} {xml : XlastFile} {strings : TitleStrings}

theorem parse_registered (registers : xml.registersNs = true) :
    parseStringsXrXml multiByteToWideChar (some xml) strings =
      parseTexts multiByteToWideChar xml (textsRun multiByteToWideChar xml strings) := by
  simp only [parseStringsXrXml, registers, if_true]
  rfl

theorem texts_run_frees (owned : XmlOwned) :
    (textsRun multiByteToWideChar xml strings).frees owned = firstResults owned := by
  simp only [textsRun, free_frees, firstResults]
  split_ifs <;> simp_all [writeTitle]

theorem texts_run_null : (textsRun multiByteToWideChar xml strings).nullWritten = false := by
  simp only [textsRun, free_null]
  split_ifs <;> rfl

theorem parse_unregistered (failed : xml.registersNs = false) :
    parseStringsXrXml multiByteToWideChar (some xml) strings =
      (false, (⟨strings, fun _ => 0, false⟩ : XmlRun) |>.free .xpathCtx |>.free .doc) := by
  simp only [parseStringsXrXml, failed, Bool.false_eq_true, if_false]

/-- Not only the strings: everything the library hands out is released at most
once when the descriptions are known. -/
theorem known_descriptions_release_once (known : xml.DescriptionsKnown) (owned : XmlOwned) :
    (parseStringsXrXml multiByteToWideChar (some xml) strings).2.frees owned ≤ 1 := by
  cases registers : xml.registersNs with
  | true =>
      rw [parse_registered registers]
      exact parse_texts_frees texts_run_frees (known registers) owned
  | false =>
      rw [parse_unregistered registers]
      simp only [free_frees]
      cases owned <;> simp

theorem known_descriptions_not_null (known : xml.DescriptionsKnown) :
    (parseStringsXrXml multiByteToWideChar (some xml) strings).2.nullWritten = false := by
  cases registers : xml.registersNs with
  | true =>
      rw [parse_registered registers]
      exact parse_texts_null texts_run_null (known registers)
  | false =>
      rw [parse_unregistered registers]
      rfl

theorem unknown_name_fails {node : Translation} (member : node ∈ xml.gameName)
    (unknown : ¬ KnownLocale node) :
    (parseStringsXrXml multiByteToWideChar (some xml) strings).1 = false := by
  cases registers : xml.registersNs with
  | true =>
      rw [parse_registered registers]
      exact parse_texts_unknown_name member unknown
  | false => rw [parse_unregistered registers]

end Parse

/-- For every file, every conversion and all texts that are there before. -/
theorem title_strings_released_iff (multiByteToWideChar : ToWide) (xml : Option XlastFile)
    (strings : TitleStrings) :
    RunsClean xml (parseStringsXrXml multiByteToWideChar xml strings) ↔
      ∀ file, xml = some file → file.DescriptionsKnown := by
  constructor
  · intro clean file same registers some names node member
    rw [same, parse_registered registers] at clean
    by_contra unknown
    rcases @parse_texts_twice multiByteToWideChar file
      (textsRun multiByteToWideChar file strings) some names node member unknown with ⟨j, twice⟩
    have once := clean.releasedOnce (.keyword .description j) rfl
    omega
  · intro known
    cases xml with
    | none =>
        constructor
        · rfl
        · intro _ _
          exact Nat.zero_le _
        · intro file same
          cases same
    | some file =>
        have descriptions := known file rfl
        constructor
        · exact known_descriptions_not_null descriptions
        · intro owned _
          exact known_descriptions_release_once descriptions owned
        · intro other same unknown
          cases same
          rcases unknown with ⟨node, member, unknown⟩
          exact unknown_name_fails member unknown

/-! ## A file with an unknown locale -/

def knownTranslation : Translation := ⟨asciiText ['e', 'n', '-', 'u', 's'], some [0x41]⟩
def unknownTranslation : Translation := ⟨asciiText ['n', 'l', '-', 'N', 'L'], some [0x42]⟩

/-- One name, and one description in a locale that is not in the table. -/
def unknownDescription (info : ProductInformation) : XlastFile where
  registersNs := true
  titleName := none
  productInformation := some info
  gameName := [knownTranslation]
  description _ := [unknownTranslation]

def oneChar : ToWide := fun _ => [0x41]

def emptyTitles : TitleStrings := ⟨[], [], []⟩

/-- The run writes through `NULL`, releases the locale string twice and returns `TRUE`. -/
def RunsOn (info : ProductInformation) : Prop :=
  (parseStringsXrXml oneChar (some (unknownDescription info)) emptyTitles).1 = true ∧
    (parseStringsXrXml oneChar (some (unknownDescription info)) emptyTitles).2.nullWritten =
      true ∧
    (parseStringsXrXml oneChar (some (unknownDescription info)) emptyTitles).2.frees
      (.keyword .description 0) = 2 ∧
    ¬ RunsClean (some (unknownDescription info))
      (parseStringsXrXml oneChar (some (unknownDescription info)) emptyTitles)

/-- Both description loops. -/
theorem unknown_description_runs :
    RunsOn ⟨some [0x31], none, none⟩ ∧ RunsOn ⟨none, some [0x31], none⟩ := by
  constructor
  · refine ⟨rfl, rfl, rfl, ?_⟩
    intro clean
    exact Bool.noConfusion clean.noNullWrite
  · refine ⟨rfl, rfl, rfl, ?_⟩
    intro clean
    exact Bool.noConfusion clean.noNullWrite

end XeBuild.Iso2svod
