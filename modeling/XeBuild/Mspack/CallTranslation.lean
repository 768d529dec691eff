import XeBuild.Mspack.WindowCopies

/-!
# Translation of calls

The E8 translation of a frame: behind every call byte, except in the last ten bytes,
the decoder replaces the absolute offset that the encoder stored by the relative one
of the program. The translation permutes the offsets of a call, and the call bytes
stay where they are, so the encoder's translation is its inverse.
-/

namespace XeBuild.Mspack

open ListRange Runs

set_option autoImplicit false

def callByte : Byte := 0xE8

def wordOf (b0 b1 b2 b3 : Byte) : Nat :=
  b0.toNat ||| (b1.toNat <<< 8) ||| (b2.toNat <<< 16) ||| (b3.toNat <<< 24)

def offsetBytes (value : Int) : Bytes :=
  let word := (value % 0x100000000).toNat
  [UInt8.ofNat word, UInt8.ofNat (word >>> 8), UInt8.ofNat (word >>> 16), UInt8.ofNat (word >>> 24)]

def loadOffset (buf : Bytes) (data : Nat) : Except Stop Int :=
  match slice buf data 4 with
  | [b0, b1, b2, b3] => .ok (asInt (wordOf b0 b1 b2 b3))
  | _ => .error (.outside .e8_buf data)

def storeOffset (buf : Bytes) (data : Nat) (rel_off : Int) : Except Stop Bytes :=
  if data + 4 ≤ buf.length then .ok (patch buf data (offsetBytes rel_off))
  else .error (.outside .e8_buf data)

/-- `while (data < dataend)`. -/
def translateLoop (filesize : Int) (dataend : Nat) : Nat → Nat → Int → Bytes → Except Stop Bytes
  | 0, data, _, buf => if data < dataend then .error .roundsSpent else .ok buf
  | rounds + 1, data, curpos, buf =>
      if data < dataend then
        match buf[data]? with
        | none => .error (.outside .e8_buf data)
        | some byte =>
            if byte ≠ callByte then translateLoop filesize dataend rounds (data + 1) (curpos + 1) buf
            else do
              let abs_off ← loadOffset buf (data + 1)
              let buf ←
                if abs_off ≥ -curpos ∧ abs_off < filesize then
                  let rel_off := if abs_off ≥ 0 then abs_off - curpos else abs_off + filesize
                  storeOffset buf (data + 1) rel_off
                else .ok buf
              translateLoop filesize dataend rounds (data + 5) (curpos + 5) buf
      else .ok buf

def translateFrame (filesize curpos : Int) (frame : Bytes) : Except Stop Bytes :=
  translateLoop filesize (frame.length - 10) (frame.length - 10) 0 curpos frame

/-! ## Operands of calls -/

/-- The relative offset that the decoder stores. -/
def relativeOffset (filesize curpos abs_off : Int) : Int :=
  if abs_off ≥ -curpos ∧ abs_off < filesize then
    if abs_off ≥ 0 then abs_off - curpos else abs_off + filesize
  else abs_off

/-- The absolute offset that the encoder stores. -/
def absoluteOffset (filesize curpos rel_off : Int) : Int :=
  if rel_off ≥ -curpos ∧ rel_off < filesize then
    if rel_off < filesize - curpos then rel_off + curpos else rel_off - filesize
  else rel_off

/-- Replacing the operands of the calls of a frame that starts at a position. -/
def mapCalls (operand : Int → Int → Int) : Int → Bytes → Bytes
  | curpos, byte :: b0 :: b1 :: b2 :: b3 :: rest =>
      if 6 ≤ rest.length then
        if byte = callByte then
          byte :: (offsetBytes (operand curpos (asInt (wordOf b0 b1 b2 b3))) ++
            mapCalls operand (curpos + 5) rest)
        else byte :: mapCalls operand (curpos + 1) (b0 :: b1 :: b2 :: b3 :: rest)
      else byte :: b0 :: b1 :: b2 :: b3 :: rest
  | _, bytes => bytes

def IsInt (value : Int) : Prop := -0x80000000 ≤ value ∧ value < 0x80000000

section Numbers

variable {b0 b1 b2 b3 : Byte} {value filesize curpos : Int}

theorem word_of_eq : wordOf b0 b1 b2 b3 =
    b0.toNat + b1.toNat * 0x100 + b2.toNat * 0x10000 + b3.toNat * 0x1000000 := by
  have small0 := b0.toNat_lt
  have small1 := b1.toNat_lt
  have small2 := b2.toNat_lt
  have small3 := b3.toNat_lt
  have two : b0.toNat ||| (b1.toNat <<< 8) = b0.toNat + b1.toNat * 0x100 := by
    rw [Nat.or_comm, ← Nat.shiftLeft_add_eq_or_of_lt small0, Nat.shiftLeft_eq]
    omega
  have three : b0.toNat + b1.toNat * 0x100 ||| (b2.toNat <<< 16) =
      b0.toNat + b1.toNat * 0x100 + b2.toNat * 0x10000 := by
    rw [Nat.or_comm, ← Nat.shiftLeft_add_eq_or_of_lt (by omega), Nat.shiftLeft_eq]
    omega
  rw [wordOf, two, three, Nat.or_comm, ← Nat.shiftLeft_add_eq_or_of_lt (by omega),
    Nat.shiftLeft_eq]
  omega

theorem word_of_lt : wordOf b0 b1 b2 b3 < 0x100000000 := by
  have small0 := b0.toNat_lt
  have small1 := b1.toNat_lt
  have small2 := b2.toNat_lt
  have small3 := b3.toNat_lt
  rw [word_of_eq]
  omega

theorem as_int_is_int {word : Nat} (small : word < 0x100000000) : IsInt (asInt word) := by
  rw [asInt, IsInt]
  split_ifs <;> omega

@[simp] theorem offset_bytes_length : (offsetBytes value).length = 4 := rfl

theorem offset_of_bytes (isInt : IsInt value) :
    ∃ b0 b1 b2 b3, offsetBytes value = [b0, b1, b2, b3] ∧ asInt (wordOf b0 b1 b2 b3) = value := by
  refine ⟨_, _, _, _, rfl, ?_⟩
  rw [word_of_eq]
  simp only [UInt8.toNat_ofNat', Nat.shiftRight_eq_div_pow]
  rw [IsInt] at isInt
  rw [asInt]
  split_ifs <;> omega

theorem offset_bytes_as_int : offsetBytes (asInt (wordOf b0 b1 b2 b3)) = [b0, b1, b2, b3] := by
  have small := @word_of_lt b0 b1 b2 b3
  have word : (asInt (wordOf b0 b1 b2 b3) % 0x100000000).toNat = wordOf b0 b1 b2 b3 := by
    rw [asInt]
    split_ifs <;> omega
  have small0 := b0.toNat_lt
  have small1 := b1.toNat_lt
  have small2 := b2.toNat_lt
  have small3 := b3.toNat_lt
  have digit (byte : Byte) (number : Nat) (same : number % 0x100 = byte.toNat) :
      UInt8.ofNat number = byte := by
    apply UInt8.toNat_inj.mp
    rw [UInt8.toNat_ofNat']
    exact same
  rw [offsetBytes, word, word_of_eq]
  simp only [Nat.shiftRight_eq_div_pow]
  rw [digit b0 _ (by omega), digit b1 _ (by omega), digit b2 _ (by omega), digit b3 _ (by omega)]

structure CallRange (filesize curpos : Int) : Prop where
  filesize : 0 ≤ filesize ∧ filesize < 0x80000000
  curpos : 0 ≤ curpos ∧ curpos ≤ 0x80000000

theorem relative_absolute (range : CallRange filesize curpos) :
    relativeOffset filesize curpos (absoluteOffset filesize curpos value) = value := by
  have sizes := range.filesize
  have places := range.curpos
  rw [relativeOffset, absoluteOffset]
  split_ifs <;> omega

theorem absolute_relative (range : CallRange filesize curpos) :
    absoluteOffset filesize curpos (relativeOffset filesize curpos value) = value := by
  have sizes := range.filesize
  have places := range.curpos
  rw [relativeOffset, absoluteOffset]
  split_ifs <;> omega

theorem relative_is_int (range : CallRange filesize curpos) (isInt : IsInt value) :
    IsInt (relativeOffset filesize curpos value) := by
  have sizes := range.filesize
  have places := range.curpos
  rw [IsInt] at isInt ⊢
  rw [relativeOffset]
  split_ifs <;> omega

theorem absolute_is_int (range : CallRange filesize curpos) (isInt : IsInt value) :
    IsInt (absoluteOffset filesize curpos value) := by
  have sizes := range.filesize
  have places := range.curpos
  rw [IsInt] at isInt ⊢
  rw [absoluteOffset]
  split_ifs <;> omega

end Numbers

section Calls

variable {operand back : Int → Int → Int} {curpos filesize : Int} {bytes : Bytes}

theorem map_calls_length : (mapCalls operand curpos bytes).length = bytes.length := by
  induction curpos, bytes using mapCalls.induct with
  | case1 curpos b0 b1 b2 b3 rest room ih =>
      rw [mapCalls, if_pos room, if_pos rfl, List.length_cons, List.length_append, ih,
        offset_bytes_length]
      simp only [List.length_cons]
      omega
  | case2 curpos byte b0 b1 b2 b3 rest room other ih =>
      rw [mapCalls, if_pos room, if_neg other, List.length_cons, ih]
      rfl
  | case3 curpos byte b0 b1 b2 b3 rest short =>
      rw [mapCalls, if_neg short]
  | case4 curpos bytes short =>
      rw [mapCalls]
      exact short

theorem four_front {bytes : Bytes} (long : 4 ≤ bytes.length) :
    ∃ b0 b1 b2 b3 rest, bytes = b0 :: b1 :: b2 :: b3 :: rest ∧ rest.length + 4 = bytes.length := by
  match bytes, long with
  | b0 :: b1 :: b2 :: b3 :: rest, _ => exact ⟨b0, b1, b2, b3, rest, rfl, rfl⟩

/-- One byte that is no call, or one call, of a frame that goes on. -/
theorem map_calls_plain {byte : Byte} (other : byte ≠ callByte) (long : 10 ≤ bytes.length) :
    mapCalls operand curpos (byte :: bytes) = byte :: mapCalls operand (curpos + 1) bytes := by
  rcases four_front (Nat.le_trans (by decide) long) with ⟨b0, b1, b2, b3, rest, shape, size⟩
  rw [shape, mapCalls, if_pos (by omega), if_neg other]

theorem map_calls_call {b0 b1 b2 b3 : Byte} (long : 6 ≤ bytes.length) :
    mapCalls operand curpos (callByte :: b0 :: b1 :: b2 :: b3 :: bytes) =
      callByte :: (offsetBytes (operand curpos (asInt (wordOf b0 b1 b2 b3))) ++
        mapCalls operand (curpos + 5) bytes) := by
  rw [mapCalls, if_pos long, if_pos rfl]

theorem map_calls_short (short : bytes.length ≤ 10) : mapCalls operand curpos bytes = bytes := by
  match bytes, short with
  | [], _ => rfl
  | [_], _ => rfl
  | [_, _], _ => rfl
  | [_, _, _], _ => rfl
  | [_, _, _, _], _ => rfl
  | byte :: b0 :: b1 :: b2 :: b3 :: rest, short =>
      have few : ¬ 6 ≤ rest.length := by
        simp only [List.length_cons] at short
        omega
      rw [mapCalls, if_neg few]

theorem map_calls_inverse
    (isInt : ∀ place value, curpos ≤ place → place < curpos + bytes.length → IsInt value →
      IsInt (operand place value))
    (inverse : ∀ place value, curpos ≤ place → place < curpos + bytes.length → IsInt value →
      back place (operand place value) = value) :
    mapCalls back curpos (mapCalls operand curpos bytes) = bytes := by
  induction curpos, bytes using mapCalls.induct with
  | case1 curpos b0 b1 b2 b3 rest room ih =>
      simp only [List.length_cons] at isInt inverse
      have number : IsInt (asInt (wordOf b0 b1 b2 b3)) := as_int_is_int word_of_lt
      rcases offset_of_bytes (isInt curpos _ (by omega) (by omega) number) with
        ⟨c0, c1, c2, c3, stored, loaded⟩
      rw [map_calls_call room, stored]
      show mapCalls back curpos
        (callByte :: c0 :: c1 :: c2 :: c3 :: mapCalls operand (curpos + 5) rest) = _
      rw [map_calls_call (by rw [map_calls_length]; exact room), loaded,
        inverse curpos _ (by omega) (by omega) number, offset_bytes_as_int,
        ih (fun place value from_ below => isInt place value (by omega) (by omega))
          (fun place value from_ below => inverse place value (by omega) (by omega))]
      rfl
  | case2 curpos byte b0 b1 b2 b3 rest room other ih =>
      have long : 10 ≤ (b0 :: b1 :: b2 :: b3 :: rest).length := by
        simp only [List.length_cons]
        omega
      rw [List.length_cons] at isInt inverse
      rw [map_calls_plain other long, map_calls_plain other (by rw [map_calls_length]; exact long),
        ih (fun place value from_ below => isInt place value (by omega) (by omega))
          (fun place value from_ below => inverse place value (by omega) (by omega))]
  | case3 curpos byte b0 b1 b2 b3 rest short =>
      have few : (byte :: b0 :: b1 :: b2 :: b3 :: rest).length ≤ 10 := by
        simp only [List.length_cons]
        omega
      rw [map_calls_short few, map_calls_short few]
  | case4 curpos bytes short =>
      cases bytes with
      | nil => rfl
      | cons byte bytes =>
          have few : ¬ 4 ≤ bytes.length := by
            intro long
            rcases four_front long with ⟨b0, b1, b2, b3, rest, shape, _⟩
            exact short byte b0 b1 b2 b3 rest (by rw [shape])
          have small : (byte :: bytes).length ≤ 10 := by
            rw [List.length_cons]
            omega
          rw [map_calls_short small, map_calls_short small]

structure FrameRange (filesize curpos : Int) (frame : Bytes) : Prop where
  filesize : 0 ≤ filesize ∧ filesize < 0x80000000
  curpos : 0 ≤ curpos ∧ curpos + frame.length ≤ 0x80000000

theorem call_range {frame : Bytes} (range : FrameRange filesize curpos frame) {place : Int}
    (from_ : curpos ≤ place) (below : place < curpos + frame.length) : CallRange filesize place := by
  have places := range.curpos
  exact ⟨range.filesize, by omega, by omega⟩

theorem relative_absolute_calls (range : FrameRange filesize curpos bytes) :
    mapCalls (relativeOffset filesize) curpos (mapCalls (absoluteOffset filesize) curpos bytes) =
      bytes :=
  map_calls_inverse
    (fun _ _ from_ below isInt => absolute_is_int (call_range range from_ below) isInt)
    (fun _ _ from_ below _ => relative_absolute (call_range range from_ below))

theorem absolute_relative_calls (range : FrameRange filesize curpos bytes) :
    mapCalls (absoluteOffset filesize) curpos (mapCalls (relativeOffset filesize) curpos bytes) =
      bytes :=
  map_calls_inverse
    (fun _ _ from_ below isInt => relative_is_int (call_range range from_ below) isInt)
    (fun _ _ from_ below _ => absolute_relative (call_range range from_ below))

end Calls

/-! ## The loop -/

section Loop

variable {filesize curpos : Int} {front bytes frame : Bytes} {rounds : Nat}

section Operand

variable {before rest : Bytes} {b0 b1 b2 b3 : Byte}

theorem load_operand : loadOffset (before ++ ([b0, b1, b2, b3] ++ rest)) before.length =
    .ok (asInt (wordOf b0 b1 b2 b3)) := by
  rw [loadOffset, slice_append_of_le _ _ (Nat.le_refl _), Nat.sub_self]
  rfl

theorem store_operand (value : Int) :
    storeOffset (before ++ ([b0, b1, b2, b3] ++ rest)) before.length value =
      .ok (before ++ (offsetBytes value ++ rest)) := by
  have room : before.length + 4 ≤ (before ++ ([b0, b1, b2, b3] ++ rest)).length := by
    simp only [List.length_append, List.length_cons, List.length_nil]
    omega
  rw [storeOffset, if_pos room, patch_middle before [b0, b1, b2, b3] rest (offsetBytes value) rfl]

/-- What a round does with the operand of a call. -/
theorem translate_operand {Value : Type} {next : Bytes → Except Stop Value} :
    (do
        let abs_off ← loadOffset (before ++ ([b0, b1, b2, b3] ++ rest)) before.length
        let buf ←
          if abs_off ≥ -curpos ∧ abs_off < filesize then
            let rel_off := if abs_off ≥ 0 then abs_off - curpos else abs_off + filesize
            storeOffset (before ++ ([b0, b1, b2, b3] ++ rest)) before.length rel_off
          else .ok (before ++ ([b0, b1, b2, b3] ++ rest))
        next buf) =
      next (before ++ (offsetBytes (relativeOffset filesize curpos (asInt (wordOf b0 b1 b2 b3))) ++
        rest)) := by
  rw [load_operand, ok_bind, relativeOffset]
  split_ifs with near forward
  · dsimp only
    rw [store_operand, ok_bind]
  · dsimp only
    rw [store_operand, ok_bind]
  · rw [ok_bind, offset_bytes_as_int]

end Operand

theorem translate_loop_map (enough : bytes.length ≤ rounds + 10) :
    translateLoop filesize ((front ++ bytes).length - 10) rounds front.length curpos (front ++ bytes) =
      .ok (front ++ mapCalls (relativeOffset filesize) curpos bytes) := by
  induction rounds generalizing front bytes curpos with
  | zero =>
      rw [map_calls_short (by omega), translateLoop, if_neg]
      rw [List.length_append]
      omega
  | succ rounds ih =>
      rw [translateLoop]
      split_ifs with more
      · rw [List.length_append] at more
        cases bytes with
        | nil => simp at more; omega
        | cons byte bytes =>
            rw [List.length_cons] at enough more
            have found : (front ++ byte :: bytes)[front.length]? = some byte := by
              rw [List.getElem?_append_right (Nat.le_refl _), Nat.sub_self]
              rfl
            have moved : front ++ byte :: bytes = (front ++ [byte]) ++ bytes := by
              rw [List.append_assoc]
              rfl
            have place : front.length + 1 = (front ++ [byte]).length := by
              rw [List.length_append, List.length_singleton]
            rw [found]
            dsimp only
            split_ifs with other
            · rw [map_calls_plain other (by omega), moved, place, ih (by omega), List.append_assoc]
              rfl
            · have same : byte = callByte := not_not.mp other
              rcases four_front (by omega : 4 ≤ bytes.length) with
                ⟨b0, b1, b2, b3, rest, shape, size⟩
              let operand := offsetBytes (relativeOffset filesize curpos (asInt (wordOf b0 b1 b2 b3)))
              -- behind the operand, which keeps its length, the loop goes on
              have whole : (front ++ [byte]) ++ (operand ++ rest) =
                  (front ++ byte :: operand) ++ rest := by simp
              have start : front.length + 5 = (front ++ byte :: operand).length := by
                rw [List.length_append, List.length_cons, offset_bytes_length]
              have size' : (front ++ byte :: bytes).length =
                  ((front ++ byte :: operand) ++ rest).length := by
                simp only [List.length_append, List.length_cons, operand, offset_bytes_length]
                omega
              have buffer : front ++ byte :: bytes =
                  (front ++ [byte]) ++ ([b0, b1, b2, b3] ++ rest) := by
                rw [moved, shape]
                rfl
              rw [shape, same, map_calls_call (by omega), ← same, ← shape]
              refine Eq.trans (b := translateLoop filesize ((front ++ byte :: bytes).length - 10)
                rounds (front.length + 5) (curpos + 5) ((front ++ [byte]) ++ (operand ++ rest))) ?_ ?_
              · rw [place, buffer]
                exact translate_operand
              · rw [whole, start, size', ih (by omega)]
                simp [operand]
      · rw [List.length_append] at more
        rw [map_calls_short (by omega)]

/-- The loop replaces the operands of the calls, and stays inside of the frame. -/
theorem translate_frame_map :
    translateFrame filesize curpos frame = .ok (mapCalls (relativeOffset filesize) curpos frame) :=
  @translate_loop_map filesize curpos [] frame (frame.length - 10) (by omega)

/-- Every frame is the translation of exactly one frame, the one that an encoder makes of it. -/
theorem translated_from_one (range : FrameRange filesize curpos frame) :
    translateFrame filesize curpos (mapCalls (absoluteOffset filesize) curpos frame) = .ok frame ∧
      ∀ original, original.length = frame.length →
        translateFrame filesize curpos original = .ok frame →
          original = mapCalls (absoluteOffset filesize) curpos frame := by
  constructor
  · rw [translate_frame_map, relative_absolute_calls range]
  · intro original length translated
    rw [translate_frame_map, Except.ok.injEq] at translated
    have originalRange : FrameRange filesize curpos original :=
      ⟨range.filesize, length ▸ range.curpos⟩
    rw [← translated, absolute_relative_calls originalRange]

end Loop

/-- A call from 0x105 to 0x110, behind a byte that is none. -/
def callFrame : Bytes := [0x90, 0xE8, 0x0B, 0, 0, 0, 1, 2, 3, 4, 5, 6]

theorem call_frame_translated :
    translateFrame 0x1000 0x104 [0x90, 0xE8, 0x10, 1, 0, 0, 1, 2, 3, 4, 5, 6] = .ok callFrame ∧
      ∀ original, original.length = 12 → translateFrame 0x1000 0x104 original = .ok callFrame →
        original = [0x90, 0xE8, 0x10, 1, 0, 0, 1, 2, 3, 4, 5, 6] := by
  have range : FrameRange 0x1000 0x104 callFrame := ⟨by decide, by decide⟩
  have encoded : mapCalls (absoluteOffset 0x1000) 0x104 callFrame =
      [0x90, 0xE8, 0x10, 1, 0, 0, 1, 2, 3, 4, 5, 6] := by
    decide
  have one := translated_from_one range
  rw [encoded] at one
  exact one

end XeBuild.Mspack
