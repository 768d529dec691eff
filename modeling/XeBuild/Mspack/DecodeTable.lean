import XeBuild.Lib.ArrayTrie
import XeBuild.Lib.PrefixCodes
import XeBuild.Lib.Runs

/-!
# Tables of Huffman codes

`make_decode_table` and the lookup of `READ_HUFFSYM`, in the bit order that LZX
uses. Codes of at most `nbits` bits are looked up in one step; a longer code is
a way through a trie that starts in the entry of its first `nbits` bits and whose
nodes lie behind those entries. An entry `0xFFFF` is unused.
-/

namespace XeBuild.Mspack

open PrefixCodes ArrayTrie Runs

set_option autoImplicit false

def HUFF_MAXBITS : Nat := 16

def unusedEntry : Nat := 0xFFFF

/-- Why the making of a table or a lookup stops: an access outside of the table, or
the value 1 that is returned for a table that is not usable. -/
inductive TableStop
  | outside (index : Nat)
  | unusable
  deriving DecidableEq, Repr

def loadEntry (table : List Nat) (index : Nat) : Except TableStop Nat :=
  if index < table.length then .ok (table.getD index 0) else .error (.outside index)

def storeEntry (table : List Nat) (index value : Nat) : Except TableStop (List Nat) :=
  if index < table.length then .ok (table.set index value) else .error (.outside index)

def fillEntries : Nat → Nat → Nat → List Nat → Except TableStop (List Nat)
  | 0, _, _, table => .ok table
  | fill + 1, leaf, sym, table => do
      let table ← storeEntry table leaf sym
      fillEntries fill (leaf + 1) sym table

structure Direct where
  table : List Nat
  pos : Nat

def directSymbol (length : List Nat) (table_mask bit_num bit_mask : Nat) (state : Direct)
    (sym : Nat) : Except TableStop Direct :=
  if length.getD sym 0 ≠ bit_num then .ok state
  else do
    let leaf := state.pos
    let pos := state.pos + bit_mask
    if pos > table_mask then .error .unusable
    else
      let table ← fillEntries bit_mask leaf sym state.table
      return ⟨table, pos⟩

/-- The codes of one width, and the mask for the next. -/
def directLength (nsyms : Nat) (length : List Nat) (table_mask : Nat) (state : Direct × Nat)
    (bit_num : Nat) : Except TableStop (Direct × Nat) := do
  let direct ← (List.range nsyms).foldlM (directSymbol length table_mask bit_num state.2) state.1
  return (direct, state.2 >>> 1)

def directCodes (nsyms nbits : Nat) (length table : List Nat) :
    Except TableStop (Direct × Nat) :=
  (List.range' 1 nbits).foldlM (directLength nsyms length (1 <<< nbits))
    (⟨table, 0⟩, (1 <<< nbits) >>> 1)

structure Way where
  table : List Nat
  next_symbol : Nat
  leaf : Nat

/-- One more bit of the code at `pos`. A way that has not been taken yet gets two entries. -/
def descend (pos : Nat) (way : Way) (fill : Nat) : Except TableStop Way := do
  let entry ← loadEntry way.table way.leaf
  let way ←
    if entry = unusedEntry then do
      let table ← storeEntry way.table (way.next_symbol <<< 1) unusedEntry
      let table ← storeEntry table ((way.next_symbol <<< 1) + 1) unusedEntry
      let table ← storeEntry table way.leaf way.next_symbol
      pure { way with table := table, next_symbol := way.next_symbol + 1 }
    else pure way
  let entry ← loadEntry way.table way.leaf
  let leaf := entry <<< 1
  return { way with leaf := if (pos >>> (15 - fill)) &&& 1 ≠ 0 then leaf + 1 else leaf }

structure Long where
  table : List Nat
  next_symbol : Nat
  pos : Nat

def longSymbol (nbits : Nat) (length : List Nat) (table_mask bit_num bit_mask : Nat) (state : Long)
    (sym : Nat) : Except TableStop Long :=
  if length.getD sym 0 ≠ bit_num then .ok state
  else if state.pos ≥ table_mask then .error .unusable
  else do
    let way ← (List.range (bit_num - nbits)).foldlM (descend state.pos)
      ⟨state.table, state.next_symbol, state.pos >>> 16⟩
    let table ← storeEntry way.table way.leaf sym
    return ⟨table, way.next_symbol, state.pos + bit_mask⟩

def longLength (nsyms nbits : Nat) (length : List Nat) (table_mask : Nat) (state : Long × Nat)
    (bit_num : Nat) : Except TableStop (Long × Nat) := do
  let long ← (List.range nsyms).foldlM (longSymbol nbits length table_mask bit_num state.2) state.1
  return (long, state.2 >>> 1)

def longBase (nsyms table_mask : Nat) : Nat :=
  if table_mask >>> 1 < nsyms then nsyms else table_mask >>> 1

def makeDecodeTable (nsyms nbits : Nat) (length table : List Nat) :
    Except TableStop (List Nat) := do
  let table_mask := 1 <<< nbits
  let (direct, _) ← directCodes nsyms nbits length table
  if direct.pos = table_mask then return direct.table
  else
    let table ← fillEntries (table_mask - direct.pos) direct.pos unusedEntry direct.table
    let (long, _) ← (List.range' (nbits + 1) (HUFF_MAXBITS - nbits)).foldlM
      (longLength nsyms nbits length (table_mask <<< 16))
      (⟨table, longBase nsyms table_mask, direct.pos <<< 16⟩, 1 <<< 15)
    if long.pos = table_mask <<< 16 then return long.table else .error .unusable

/-! ## Lookups -/

def BITBUF_WIDTH : Nat := 32

/-- The loop of `HUFF_TRAVERSE`; `bit` bits of the buffer are left. -/
def huffTraverse (nsyms : Nat) (table : List Nat) (bit_buffer : Nat) :
    Nat → Nat → Except TableStop Nat
  | 0, _ => .error .unusable
  | bit + 1, sym => do
      let sym ← loadEntry table ((sym <<< 1) ||| (bit_buffer >>> bit &&& 1))
      if sym ≥ nsyms then huffTraverse nsyms table bit_buffer bit sym else return sym

def lookupSymbol (nsyms nbits : Nat) (table : List Nat) (bit_buffer : Nat) :
    Except TableStop Nat := do
  let sym ← loadEntry table (bit_buffer >>> (BITBUF_WIDTH - nbits))
  if sym ≥ nsyms then huffTraverse nsyms table bit_buffer (BITBUF_WIDTH - nbits) sym
  else return sym

/-! ## The code that the lengths give -/

def leavesOfWidth (nsyms : Nat) (length : List Nat) (bit_num : Nat) : List Leaf :=
  ((List.range nsyms).filter fun sym => length.getD sym 0 = bit_num).map fun sym => ⟨sym, bit_num⟩

def leavesOfWidths (nsyms : Nat) (length widths : List Nat) : List Leaf :=
  widths.flatMap (leavesOfWidth nsyms length)

/-- All symbols with a code, in the order in which the codes are handed out. -/
def codeLeaves (nsyms : Nat) (length : List Nat) : List Leaf :=
  leavesOfWidths nsyms length (List.range' 1 HUFF_MAXBITS)

def shortLeaves (nsyms nbits : Nat) (length : List Nat) : List Leaf :=
  leavesOfWidths nsyms length (List.range' 1 nbits)

def longLeaves (nsyms nbits : Nat) (length : List Nat) : List Leaf :=
  leavesOfWidths nsyms length (List.range' (nbits + 1) (HUFF_MAXBITS - nbits))

end XeBuild.Mspack
