import XeBuild.Mspack.Elements

/-!
# Elements as they are written

Tokens, the bits they have under the code lengths of their block, and what they
append to the history. The loops over the elements read the tokens that were
written, and leave the window in front of what the tokens stand for.
-/

namespace XeBuild.Mspack

open BitText Runs SlidingWindow WordBits

set_option autoImplicit false

structure CodeLens where
  main : List Nat
  length : List Nat
  aligned : List Nat
  deriving DecidableEq

inductive Token
  | literal (byte : Byte)
  | copy (match_length : Nat) (source : MatchSource)
  deriving DecidableEq

def Token.count : Token → Nat
  | .literal _ => 1
  | .copy match_length _ => match_length

def Token.Valid : Token → Prop
  | .literal _ => True
  | .copy match_length source =>
      LZX_MIN_MATCH ≤ match_length ∧ match_length ≤ LZX_MAX_MATCH ∧ source.Valid

/-- The symbol of the main tree: the slot and up to seven of the length. -/
def Token.mainSymbol : Token → Nat
  | .literal byte => byte.toNat
  | .copy match_length source =>
      LZX_NUM_CHARS + (source.slot * 8 + min (match_length - LZX_MIN_MATCH) 7)

/-- The code of what the main symbol does not have of the length. -/
def lengthBits (lens : CodeLens) (match_length : Nat) : Option (List Bool) :=
  if 7 ≤ match_length - LZX_MIN_MATCH then
    symbolCode LENGTH lens.length (match_length - LZX_MIN_MATCH - 7)
  else some []

def offsetBits (block_type : Nat) (lens : CodeLens) (source : MatchSource) : Option (List Bool) :=
  if block_type = LZX_BLOCKTYPE_ALIGNED then source.alignedBits lens.aligned
  else some source.verbatimBits

def Token.bits (block_type : Nat) (lens : CodeLens) (token : Token) : Option (List Bool) := do
  let main ← symbolCode MAINTREE lens.main token.mainSymbol
  match token with
  | .literal _ => return main
  | .copy match_length source =>
      let length ← lengthBits lens match_length
      let offset ← offsetBits block_type lens source
      return main ++ (length ++ offset)

/-- The bytes so far and the last three offsets. -/
structure Past where
  history : Bytes
  queue : OffsetQueue

/-- What a token appends; a match lies in the history and in a window of this size. -/
def Token.expand (window_size : Nat) (past : Past) : Token → Option Past
  | .literal byte => some ⟨past.history ++ [byte], past.queue⟩
  | .copy match_length source =>
      let (match_offset, queue) := source.resolve past.queue
      if match_offset ≤ window_size then
        (copyBack match_offset match_length past.history).map fun history => ⟨history, queue⟩
      else none

def tokensBits (block_type : Nat) (lens : CodeLens) : List Token → Option (List Bool)
  | [] => some []
  | token :: rest => do
      let front ← token.bits block_type lens
      let back ← tokensBits block_type lens rest
      return front ++ back

def tokensCount (tokens : List Token) : Nat := (tokens.map Token.count).sum

def expandTokens (window_size : Nat) : List Token → Past → Option Past
  | [], past => some past
  | token :: rest, past => (token.expand window_size past).bind (expandTokens window_size rest)

structure LzxTrees.Shows (trees : LzxTrees) (block_type : Nat) (lens : CodeLens) : Prop where
  main : trees.MAINTREE.Codes Mspack.MAINTREE lens.main
  length : trees.LENGTH_empty = false → trees.LENGTH.Codes Mspack.LENGTH lens.length
  empty : trees.LENGTH_empty = true → ∀ symbol, symbolCode Mspack.LENGTH lens.length symbol = none
  aligned : block_type = LZX_BLOCKTYPE_ALIGNED → trees.ALIGNED.Codes Mspack.ALIGNED lens.aligned

/-- The window shows the history, and the position is the end of it. -/
structure Cursor.Tracks (c : Cursor) (limits : WindowLimits) (past : Past) : Prop where
  fit : limits.Fit c.window
  recent : Recent c.window past.history
  inside : c.window_posn ≤ c.window.length
  place : ∃ rounds, past.history.length = c.window.length * rounds + c.window_posn ∧
    c.window.length * rounds ≤ limits.offset
  queue : c.queue = past.queue

section Written

variable {trees : LzxTrees} {block_type match_length : Nat} {lens : CodeLens} {q : OffsetQueue}
  {p : BitReader} {text : Text} {bits : List Bool} {token : Token} {source : MatchSource}

theorem read_match_length_before (shows_ : trees.Shows block_type lens)
    (least : LZX_MIN_MATCH ≤ match_length)
    (given : lengthBits lens match_length = some bits) (sound : p.Sound)
    (before : p.Before (text.prepend bits)) (roomy : 16 ≤ text.bits.length) :
    ∃ p', readMatchLength trees (source.slot * 8 + min (match_length - LZX_MIN_MATCH) 7) p =
        .ok (match_length, p') ∧ p'.Sound ∧ p'.Before text := by
  have low : (source.slot * 8 + min (match_length - LZX_MIN_MATCH) 7) &&& LZX_NUM_PRIMARY_LENGTHS =
      min (match_length - LZX_MIN_MATCH) 7 := by
    have mask : LZX_NUM_PRIMARY_LENGTHS = 2 ^ 3 - 1 := rfl
    rw [mask, Nat.and_two_pow_sub_one_eq_mod]
    omega
  have primary : LZX_NUM_PRIMARY_LENGTHS = 7 := rfl
  rw [readMatchLength, low, primary]
  dsimp only
  rw [lengthBits] at given
  split_ifs at given with long
  · rw [if_pos (Nat.min_eq_right long)]
    have filled : trees.LENGTH_empty = false := by
      by_contra empty
      rw [shows_.empty (Bool.eq_true_of_not_eq_false empty)] at given
      cases given
    rw [if_neg (by rw [filled]; exact Bool.false_ne_true)]
    rcases read_huffsym_codes (shows_.length filled) given sound before roomy with
      ⟨p', read, sound', before'⟩
    refine ⟨p', ?_, sound', before'⟩
    rw [read, ok_bind]
    show Except.ok (_, _) = Except.ok (_, _)
    rw [Nat.min_eq_right long]
    congr 2
    omega
  · cases given
    refine ⟨p, ?_, sound, before⟩
    rw [if_neg (by omega), Nat.min_eq_left (by omega), Nat.sub_add_cancel least]

theorem read_offset_before (shows_ : trees.Shows block_type lens) (valid : source.Valid)
    (given : offsetBits block_type lens source = some bits) (sound : p.Sound)
    (before : p.Before (text.prepend bits)) (roomy : 16 ≤ text.bits.length) :
    ∃ p', readOffset trees block_type source.slot q p =
        .ok ((source.resolve q).1, (source.resolve q).2, p') ∧ p'.Sound ∧ p'.Before text := by
  rw [offsetBits] at given
  rw [readOffset]
  split_ifs at given ⊢ with kind
  · exact aligned_offset_before (shows_.aligned kind) valid given sound before roomy
  · cases given
    exact verbatim_offset_before valid sound before

def Token.element (q : OffsetQueue) : Token → Element
  | .literal byte => .literal byte
  | .copy match_length source => .copy match_length (source.resolve q).1

def Token.queue (q : OffsetQueue) : Token → OffsetQueue
  | .literal _ => q
  | .copy _ source => (source.resolve q).2

theorem read_element_before (shows_ : trees.Shows block_type lens) (valid : token.Valid)
    (given : token.bits block_type lens = some bits) (sound : p.Sound)
    (before : p.Before (text.prepend bits)) (roomy : 16 ≤ text.bits.length) :
    ∃ p', readElement trees false block_type q p = .ok (token.element q, token.queue q, p') ∧
      p'.Sound ∧ p'.Before text := by
  rw [Token.bits] at given
  rcases Option.bind_eq_some_iff.mp given with ⟨main, code, given⟩
  rw [readElement]
  cases token with
  | literal byte =>
      cases given
      rcases read_huffsym_codes shows_.main code sound before roomy with
        ⟨p', read, sound', before'⟩
      have char : byte.toNat < LZX_NUM_CHARS := by
        rw [LZX_NUM_CHARS]
        exact byte.toNat_lt
      refine ⟨p', ?_, sound', before'⟩
      rw [read, ok_bind]
      dsimp only
      rw [Token.mainSymbol, if_pos char, UInt8.ofNat_toNat]
      rfl
  | copy match_length source =>
      rcases Option.bind_eq_some_iff.mp given with ⟨length, coded, given⟩
      rcases Option.bind_eq_some_iff.mp given with ⟨offset, placed, same⟩
      cases same
      rw [prepend_append, prepend_append] at before
      have roomy₁ : 16 ≤ (text.prepend offset).bits.length := by
        rw [prepend_bits, List.length_append]
        omega
      have roomy₂ : 16 ≤ ((text.prepend offset).prepend length).bits.length := by
        rw [prepend_bits, List.length_append]
        omega
      rcases read_huffsym_codes shows_.main code sound before roomy₂ with
        ⟨p₁, read, sound₁, before₁⟩
      rcases @read_match_length_before trees block_type match_length lens p₁ _ length source shows_
        valid.1 coded sound₁ before₁ roomy₁ with ⟨p₂, second, sound₂, before₂⟩
      rcases @read_offset_before trees block_type lens q p₂ text offset source shows_ valid.2.2
        placed sound₂ before₂ roomy with ⟨p₃, third, sound₃, before₃⟩
      have slot : (source.slot * 8 + min (match_length - LZX_MIN_MATCH) 7) >>> 3 = source.slot := by
        rw [Nat.shiftRight_eq_div_pow]
        omega
      refine ⟨p₃, ?_, sound₃, before₃⟩
      rw [read, ok_bind]
      dsimp only
      rw [Token.mainSymbol, if_neg (by omega), Nat.add_sub_cancel_left, second, ok_bind]
      dsimp only
      rw [slot, third, ok_bind]
      dsimp only
      rw [if_neg (by simp)]
      rfl

end Written

/-! ## Runs of tokens -/

section Loop

variable {trees : LzxTrees} {block_type rounds : Nat} {lens : CodeLens} {limits : WindowLimits}
  {c : Cursor} {past past' : Past} {text : Text} {bits : List Bool} {token : Token}
  {tokens : List Token}

theorem token_element_count (q : OffsetQueue) : (token.element q).count = token.count := by
  cases token <;> rfl

theorem token_count_positive (valid : token.Valid) : 1 ≤ token.count := by
  cases token with
  | literal byte => exact Nat.le_refl 1
  | copy match_length source => exact Nat.le_trans (by decide) valid.1

theorem tracks_posn (tracks : c.Tracks limits past) (below : c.window_posn < c.window.length) :
    c.window_posn = past.history.length % c.window.length := by
  rcases tracks.place with ⟨rounds, whole, _⟩
  rw [whole, Nat.mul_add_mod, Nat.mod_eq_of_lt below]

theorem place_element_tracks (valid : token.Valid) (tracks : c.Tracks limits past)
    (expand : token.expand limits.window_size past = some past')
    (room : c.window_posn + token.count ≤ c.window.length) (bits : BitReader) :
    ∃ window, placeElement limits c.window c.window_posn (token.element c.queue) = .ok window ∧
      window.length = c.window.length ∧
      Cursor.Tracks ⟨window, c.window_posn + token.count, token.queue c.queue, bits⟩ limits past' := by
  have positive := token_count_positive valid
  have below : c.window_posn < c.window.length := by omega
  have posn := tracks_posn tracks below
  rcases tracks.place with ⟨rounds, whole, known⟩
  cases token with
  | literal byte =>
      cases expand
      have pushed := @recent_push _ past.history c.window byte tracks.recent
      rw [← posn] at pushed
      have length : (c.window.set c.window_posn byte).length = c.window.length := List.length_set
      refine ⟨_, store_window_ok below, length, ?_⟩
      refine ⟨⟨?_, ?_, tracks.fit.offset, ?_⟩, pushed, ?_, ⟨rounds, ?_, ?_⟩, tracks.queue⟩
      · exact tracks.fit.size.trans length.symm
      · rw [length]; exact tracks.fit.small
      · rw [length]; exact tracks.fit.ref_data_size
      · rw [length]; exact room
      · rw [length, List.length_append, whole]
        exact Nat.add_assoc _ _ _
      · rw [length]; exact known
  | copy match_length source =>
      rw [Token.expand, ← tracks.queue] at expand
      dsimp only at expand
      split_ifs at expand with inside
      rcases Option.map_eq_some_iff.mp expand with ⟨history', copied, rfl⟩
      have grown := (copy_back_length copied).1
      have least : 2 ≤ match_length := valid.1
      have size := tracks.fit.size
      have near : 0 < (source.resolve c.queue).1 ∧
          (source.resolve c.queue).1 ≤ past.history.length := by
        rcases Nat.exists_eq_succ_of_ne_zero (by omega : match_length ≠ 0) with ⟨count, counted⟩
        rw [counted, copyBack] at copied
        split_ifs at copied with near
        refine ⟨?_, near⟩
        by_contra none
        rw [Nat.le_zero.mp (Nat.le_of_not_lt none), Nat.sub_zero, List.getElem?_length] at copied
        cases copied
      have room' : c.window_posn + match_length ≤ c.window.length := room
      have reached : (source.resolve c.queue).1 ≤ c.window_posn ∨
          (source.resolve c.queue).1 ≤ limits.offset := by
        rcases Nat.eq_zero_or_pos rounds with none | turned
        · rw [none, Nat.mul_zero] at whole
          left
          omega
        · right
          have once := Nat.le_mul_of_pos_right c.window.length turned
          omega
      rcases copy_match_recent tracks.fit tracks.recent posn room' near.1 near.2 (by omega) reached
        with ⟨window, history, run, copied', recent', length⟩
      rw [copied] at copied'
      cases copied'
      refine ⟨window, run, length, ?_⟩
      refine ⟨⟨?_, ?_, tracks.fit.offset, ?_⟩, recent', ?_, ⟨rounds, ?_, ?_⟩, rfl⟩
      · exact size.trans length.symm
      · rw [length]; exact tracks.fit.small
      · rw [length]; exact tracks.fit.ref_data_size
      · rw [length]; exact room
      · rw [length, grown, whole]
        exact Nat.add_assoc _ _ _
      · rw [length]; exact known

/-- Tokens that fill a run are read, and the window goes on to what they stand for. -/
theorem element_loop_before (shows_ : trees.Shows block_type lens)
    (valid : ∀ token ∈ tokens, token.Valid) (given : tokensBits block_type lens tokens = some bits)
    (tracks : c.Tracks limits past)
    (expand : expandTokens limits.window_size tokens past = some past')
    (room : c.window_posn + tokensCount tokens ≤ c.window.length) (sound : c.bits.Sound)
    (before : c.bits.Before (text.prepend bits)) (roomy : 16 ≤ text.bits.length)
    (enough : tokensCount tokens ≤ rounds) :
    ∃ c', elementLoop trees false block_type limits rounds (tokensCount tokens) c = .ok (0, c') ∧
      c'.window_posn = c.window_posn + tokensCount tokens ∧ c'.window.length = c.window.length ∧
      c'.Tracks limits past' ∧ c'.bits.Sound ∧ c'.bits.Before text := by
  induction tokens generalizing c past bits rounds with
  | nil =>
      cases given
      cases expand
      refine ⟨c, ?_, rfl, rfl, tracks, sound, before⟩
      cases rounds with
      | zero => exact if_neg (by decide)
      | succ rounds => exact if_neg (by decide)
  | cons token tokens ih =>
      rw [tokensBits] at given
      rcases Option.bind_eq_some_iff.mp given with ⟨front, coded, given⟩
      rcases Option.bind_eq_some_iff.mp given with ⟨back, later, same⟩
      cases same
      rcases Option.bind_eq_some_iff.mp expand with ⟨middle, first, rest⟩
      rw [prepend_append] at before
      have counts : tokensCount (token :: tokens) = token.count + tokensCount tokens := rfl
      rw [counts] at room enough ⊢
      have validHere := valid token List.mem_cons_self
      have positive := token_count_positive validHere
      rcases Nat.exists_eq_succ_of_ne_zero (by omega : rounds ≠ 0) with ⟨rounds, rfl⟩
      have more : 16 ≤ (text.prepend back).bits.length := by
        rw [prepend_bits, List.length_append]
        omega
      rcases @read_element_before trees block_type lens c.queue c.bits _ front token shows_ validHere
        coded sound before more with ⟨p₁, read, sound₁, before₁⟩
      rcases place_element_tracks validHere tracks first (by omega) p₁ with
        ⟨window, placed, length, tracks₁⟩
      have left : ((token.count + tokensCount tokens : Nat) : Int) -
          (token.element c.queue).count = (tokensCount tokens : Int) := by
        rw [token_element_count]
        omega
      rcases @ih rounds ⟨window, c.window_posn + token.count, token.queue c.queue, p₁⟩ middle back
        (fun other member => valid other (List.mem_cons_of_mem _ member)) later tracks₁ rest
        (by rw [length]; show c.window_posn + token.count + _ ≤ _; omega) sound₁ before₁ (by omega)
        with ⟨c', run, posn, size, tracks', sound', before'⟩
      refine ⟨c', ?_, ?_, size.trans length, tracks', sound', before'⟩
      · rw [elementLoop, if_pos (by omega), read, ok_bind]
        dsimp only
        rw [placed, ok_bind, left, token_element_count]
        exact run
      · rw [posn]
        exact Nat.add_assoc _ _ _

end Loop

/-! ## What tokens append -/

structure Past.Grows (past past' : Past) (count : Nat) : Prop where
  front : past.history <+: past'.history
  length : past'.history.length = past.history.length + count

section Expand

variable {window_size count more : Nat} {past middle past' : Past} {token : Token}
  {tokens : List Token}

theorem grows_refl (past : Past) : past.Grows past 0 := ⟨List.prefix_refl _, rfl⟩

theorem grows_trans (first : past.Grows middle count) (second : middle.Grows past' more) :
    past.Grows past' (count + more) := by
  refine ⟨first.front.trans second.front, ?_⟩
  rw [second.length, first.length, Nat.add_assoc]

theorem token_expand_grows (expand : token.expand window_size past = some past') :
    past.Grows past' token.count := by
  cases token with
  | literal byte =>
      cases expand
      exact ⟨List.prefix_append _ _, List.length_append⟩
  | copy match_length source =>
      rw [Token.expand] at expand
      dsimp only at expand
      split_ifs at expand with inside
      rcases Option.map_eq_some_iff.mp expand with ⟨history', copied, rfl⟩
      have grown := copy_back_length copied
      exact ⟨List.prefix_iff_eq_take.mpr grown.2.symm, grown.1⟩

theorem expand_tokens_grows (expand : expandTokens window_size tokens past = some past') :
    past.Grows past' (tokensCount tokens) := by
  induction tokens generalizing past with
  | nil =>
      cases expand
      exact grows_refl _
  | cons token tokens ih =>
      rcases Option.bind_eq_some_iff.mp expand with ⟨middle, first, rest⟩
      exact grows_trans (token_expand_grows first) (ih rest)

end Expand

end XeBuild.Mspack
