import XeBuild.CStrings
import XeBuild.Lib.ListRange

/-!
# The title strings of `spa.c`

`parseStringsXrXml` over what libxml2 finds in the file: the ids of the texts
and the lists of `Translation` nodes. Every object that the library hands out
counts how often it is released. Released memory keeps its content here, so that
a run goes on behind a use of it.
-/

namespace XeBuild.Iso2svod

open ListRange

set_option autoImplicit false

abbrev Wide := List UInt16

/-- The texts of `xMeta`: `DisplayName` and `Description` with the three arrays of
`DisplayNameEx` and `DescriptionEx` behind their nine. -/
structure TitleStrings where
  titleName : Wide
  displayName : List Wide
  description : List Wide
  deriving DecidableEq

def locales : List Bytes :=
  [asciiText ['e', 'n', '-', 'U', 'S'], asciiText ['j', 'a', '-', 'J', 'P'],
    asciiText ['d', 'e', '-', 'D', 'E'], asciiText ['f', 'r', '-', 'F', 'R'],
    asciiText ['e', 's', '-', 'E', 'S'], asciiText ['i', 't', '-', 'I', 'T'],
    asciiText ['k', 'o', '-', 'K', 'R'], asciiText ['z', 'h', '-', 'C', 'H', 'T'],
    asciiText ['p', 't', '-', 'P', 'T'], asciiText ['z', 'h', '-', 'C', 'N'],
    asciiText ['p', 'l', '-', 'P', 'L'], asciiText ['r', 'u', '-', 'R', 'U']]

/-- The index of the first locale that `stricmp` finds equal. -/
def localeIndex (loc : Bytes) : Option Nat :=
  locales.findIdx? fun known => sameIgnoringCase known loc

/-- The index of the text in `displayName`; `none` for `NULL`. -/
def convertLocaleToName (loc : Bytes) : Option Nat := localeIndex loc

def convertLocaleToDesc (loc : Bytes) : Option Nat := localeIndex loc

def bswap16 (char : UInt16) : UInt16 := char >>> 8 ||| char <<< 8

/-- What is in `beOut` after the copy of at most `maxOut - 1` characters. -/
def endianCopyWcharBuf (leInput : Wide) (maxOut : Nat) (beOut : Wide) : Wide :=
  let chars := (leInput.take (maxOut - 1)).map bswap16
  patch beOut 0 (chars ++ List.replicate (maxOut - chars.length) 0)

/-! ## What libxml2 finds -/

structure Translation where
  locale : Bytes
  text : Option Bytes
  deriving DecidableEq

structure ProductInformation where
  sellTextStringId : Option Bytes
  publisherStringId : Option Bytes
  developerStringId : Option Bytes
  deriving DecidableEq

/-- A document. `description` gives the nodes of the string with an id. -/
structure XlastFile where
  registersNs : Bool
  titleName : Option Bytes
  productInformation : Option ProductInformation
  gameName : List Translation
  description : Bytes → List Translation

inductive XPathQuery
  | gameConfigProject
  | productInformation
  | gameName
  | description
  deriving DecidableEq

/-- What the library hands out; `keyword` and `val` are those of a node. -/
inductive XmlOwned
  | doc
  | xpathCtx
  | xpathObj (query : XPathQuery)
  | titleName
  | sellString
  | publisherString
  | keyword (query : XPathQuery) (i : Nat)
  | val (query : XPathQuery) (i : Nat)
  deriving DecidableEq

def XmlOwned.isString : XmlOwned → Bool
  | .titleName | .sellString | .publisherString | .keyword _ _ | .val _ _ => true
  | .doc | .xpathCtx | .xpathObj _ => false

/-! ## Runs -/

/-- The texts, how often each object was released, and whether there was a write
through `NULL`. -/
structure XmlRun where
  strings : TitleStrings
  frees : XmlOwned → Nat
  nullWritten : Bool

namespace XmlRun

def free (owned : XmlOwned) (run : XmlRun) : XmlRun :=
  { run with frees := fun other => run.frees other + if other = owned then 1 else 0 }

def freeString (owned : XmlOwned) (string : Option Bytes) (run : XmlRun) : XmlRun :=
  if string.isSome then run.free owned else run

def writeTitle (leInput : Wide) (run : XmlRun) : XmlRun :=
  { run with strings := { run.strings with
      titleName := endianCopyWcharBuf leInput 0x40 run.strings.titleName } }

def writeName (name : Option Nat) (leInput : Wide) (run : XmlRun) : XmlRun :=
  match name with
  | none => { run with nullWritten := true }
  | some index => { run with strings := { run.strings with
      displayName := run.strings.displayName.modify index (endianCopyWcharBuf leInput 0x40) } }

def writeDesc (desc : Option Nat) (leInput : Wide) (run : XmlRun) : XmlRun :=
  match desc with
  | none => { run with nullWritten := true }
  | some index => { run with strings := { run.strings with
      description := run.strings.description.modify index (endianCopyWcharBuf leInput 0x80) } }

end XmlRun

/-- `MultiByteToWideChar` into `wxstrtemp`; the empty text when it fails. -/
abbrev ToWide := Option Bytes → Wide

/-! ## The loops over the nodes -/

/-- The name loop from node `i` on; `false` when the function returns `FALSE`, with
the strings that are released only there. -/
def nameLoop (multiByteToWideChar : ToWide) (sellString publisherString : Option Bytes) :
    List Translation → Nat → XmlRun → Bool × XmlRun
  | [], _, run => (true, run)
  | node :: nodes, i, run =>
      let name := convertLocaleToName node.locale
      if name = none then
        (false, run |>.free (.xpathObj .gameName) |>.free .xpathCtx |>.free .doc
          |>.free (.keyword .gameName i) |>.freeString (.val .gameName i) node.text
          |>.freeString .sellString sellString |>.freeString .publisherString publisherString)
      else
        let wide := multiByteToWideChar node.text
        let run := if wide = [] then run else run.writeName name wide
        nameLoop multiByteToWideChar sellString publisherString nodes (i + 1)
          (run |>.free (.keyword .gameName i) |>.freeString (.val .gameName i) node.text)

/-- One node of a description loop. The branch for an unknown locale does not leave
the loop. -/
def descNode (multiByteToWideChar : ToWide) (node : Translation) (i : Nat) (run : XmlRun) :
    XmlRun :=
  let desc := convertLocaleToDesc node.locale
  let run :=
    if desc = none then
      run |>.free (.xpathObj .description) |>.free .xpathCtx |>.free .doc
        |>.free (.keyword .description i) |>.freeString (.val .description i) node.text
    else run
  let wide := multiByteToWideChar node.text
  let run := if wide = [] then run else run.writeDesc desc wide
  run |>.free (.keyword .description i) |>.freeString (.val .description i) node.text

def descLoop (multiByteToWideChar : ToWide) : List Translation → Nat → XmlRun → XmlRun
  | [], _, run => run
  | node :: nodes, i, run =>
      descLoop multiByteToWideChar nodes (i + 1) (descNode multiByteToWideChar node i run)

/-! ## `parseStringsXrXml` -/

def phonyDesc : Wide :=
  (asciiText ['N', 'o', ' ', 'D', 'e', 's', 'c', 'r', 'i', 'p', 't', 'i', 'o', 'n', ' ', 'P', 'r',
    'o', 'v', 'i', 'd', 'e', 'd']).map UInt8.toUInt16 ++ [0, 0]

def writePhonyDesc (strings : TitleStrings) : TitleStrings :=
  { strings with
    description := strings.description.map fun desc => patch desc 0 (phonyDesc.map bswap16) }

def copyTitlesToDescription (strings : TitleStrings) : TitleStrings :=
  { strings with
    description := List.zipWith
      (fun tname tdesc => if tname.getD 0 0 ≠ 0 then patch tdesc 0 (tname.take 0x80) else tdesc)
      strings.displayName strings.description }

def fixTitleName (strings : TitleStrings) : TitleStrings :=
  if strings.titleName.getD 0 0 = 0 then
    match strings.displayName.find? fun tname => tname.getD 0 0 ≠ 0 with
    | none => strings
    | some tname => { strings with titleName := patch strings.titleName 0 (tname.take 0x40) }
  else strings

/-- The texts of the description, whose nodes are found under an id. -/
def describe (multiByteToWideChar : ToWide) (nodes : List Translation) (run : XmlRun) : XmlRun :=
  let run :=
    if nodes = [] then { run with strings := writePhonyDesc run.strings }
    else descLoop multiByteToWideChar nodes 0 run
  run.free (.xpathObj .description)

namespace XlastFile

def sellString (xml : XlastFile) : Option Bytes :=
  xml.productInformation.bind ProductInformation.sellTextStringId

/-- The id of the developer stands in for the publisher's. -/
def publisherString (xml : XlastFile) : Option Bytes :=
  xml.productInformation.bind fun info => info.publisherStringId.or info.developerStringId

end XlastFile

def parseDescription (multiByteToWideChar : ToWide) (xml : XlastFile) (run : XmlRun) : XmlRun :=
  match xml.sellString with
  | some sellString => describe multiByteToWideChar (xml.description sellString) run
  | none =>
      match xml.publisherString with
      | some publisherString => describe multiByteToWideChar (xml.description publisherString) run
      | none => { run with strings := copyTitlesToDescription run.strings }

def parseTexts (multiByteToWideChar : ToWide) (xml : XlastFile) (run : XmlRun) : Bool × XmlRun :=
  if xml.gameName = [] then
    (false, run |>.free (.xpathObj .gameName) |>.free .xpathCtx |>.free .doc
      |>.freeString .sellString xml.sellString |>.freeString .publisherString xml.publisherString)
  else
    match nameLoop multiByteToWideChar xml.sellString xml.publisherString xml.gameName 0 run with
    | (false, run) => (false, run)
    | (true, run) =>
        let run := run.free (.xpathObj .gameName)
        let run := parseDescription multiByteToWideChar xml run
        let run := run |>.free .xpathCtx |>.free .doc |>.freeString .sellString xml.sellString
          |>.freeString .publisherString xml.publisherString
        (true, { run with strings := fixTitleName run.strings })

/-- `xml` is `none` when the file cannot be parsed. -/
def parseStringsXrXml (multiByteToWideChar : ToWide) (xml : Option XlastFile)
    (strings : TitleStrings) : Bool × XmlRun :=
  let run : XmlRun := ⟨strings, fun _ => 0, false⟩
  match xml with
  | none => (false, run)
  | some xml =>
      if xml.registersNs then
        let wide := multiByteToWideChar xml.titleName
        let run := if xml.titleName = none ∨ wide = [] then run else run.writeTitle wide
        let run := run |>.free (.xpathObj .gameConfigProject)
          |>.free (.xpathObj .productInformation)
        parseTexts multiByteToWideChar xml run
      else (false, run |>.free .xpathCtx |>.free .doc)

end XeBuild.Iso2svod
