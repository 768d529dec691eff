import XeBuild.Lib.SlidingWindow
import XeBuild.Mspack.BitReader

/-!
# The window of the decoder

Copying a match inside of the window. A match that starts behind the position wraps
to the end of the window, and is copied in two runs where it passes that end. With
the checks that are made no copy leaves the window, and it appends to the history
what lies the offset behind its end.
-/

namespace XeBuild.Mspack

open ListRange Runs SlidingWindow

set_option autoImplicit false

def asInt (word : Nat) : Int := if word < 0x80000000 then word else (word : Int) - 0x100000000

def loadWindow (window : Bytes) (index : Nat) : Except Stop Byte :=
  match window[index]? with
  | some byte => .ok byte
  | none => .error (.outside .window index)

def storeWindow (window : Bytes) (index : Nat) (byte : Byte) : Except Stop Bytes :=
  if index < window.length then .ok (window.set index byte) else .error (.outside .window index)

/-- `while (i-- > 0) *rundest++ = *runsrc++;` -/
def copyRun : Nat → Nat → Nat → Bytes → Except Stop Bytes
  | 0, _, _, window => .ok window
  | i + 1, runsrc, rundest, window => do
      let byte ← loadWindow window runsrc
      let window ← storeWindow window rundest byte
      copyRun i (runsrc + 1) (rundest + 1) window

/-- What the checks of a match look at. -/
structure WindowLimits where
  window_size : Nat
  offset : Nat
  ref_data_size : Nat

def copyMatch (limits : WindowLimits) (window_posn match_offset match_length : Nat)
    (window : Bytes) : Except Stop Bytes :=
  if window_posn + match_length > limits.window_size then .error (.error MSPACK_ERR_DECRUNCH)
  else if match_offset > window_posn then
    if match_offset > limits.offset % 0x100000000 ∧
        match_offset - window_posn > limits.ref_data_size then
      .error (.error MSPACK_ERR_DECRUNCH)
    else
      -- the length from the start of the match to the end of the window
      let j := asInt (match_offset - window_posn)
      if j > limits.window_size then .error (.error MSPACK_ERR_DECRUNCH)
      else
        let runsrc := (limits.window_size - j).toNat
        if j < match_length then do
          let window ← copyRun j.toNat runsrc window_posn window
          copyRun (match_length - j).toNat 0 (window_posn + j.toNat) window
        else copyRun match_length runsrc window_posn window
  else copyRun match_length (window_posn - match_offset) window_posn window

section Runs

variable {window : Bytes} {history : Bytes} {count runsrc rundest distance : Nat}

theorem load_window_ok {index : Nat} {byte : Byte} (found : window[index]? = some byte) :
    loadWindow window index = .ok byte := by
  rw [loadWindow, found]

theorem store_window_ok {index : Nat} {byte : Byte} (inside : index < window.length) :
    storeWindow window index byte = .ok (window.set index byte) := if_pos inside

theorem copy_run_inside (source : runsrc + count ≤ window.length)
    (dest : rundest + count ≤ window.length) :
    ∃ window', copyRun count runsrc rundest window = .ok window' ∧
      window'.length = window.length := by
  induction count generalizing runsrc rundest window with
  | zero => exact ⟨window, rfl, rfl⟩
  | succ count ih =>
      have found : window[runsrc]? = some window[runsrc] :=
        List.getElem?_eq_getElem (by omega)
      have length : (window.set rundest window[runsrc]).length = window.length :=
        List.length_set
      rcases @ih (window.set rundest window[runsrc]) (runsrc + 1) (rundest + 1)
        (by rw [length]; omega) (by rw [length]; omega) with ⟨window', run, size⟩
      refine ⟨window', ?_, size.trans length⟩
      rw [copyRun, load_window_ok found, ok_bind, store_window_ok (by omega), ok_bind, run]

/-- A run that is a copy out of the history, as far as neither end of it wraps. -/
theorem copy_run_recent (recent : Recent window history) (positive : 0 < distance)
    (near : distance ≤ history.length) (inside : distance ≤ window.length)
    (source : 0 < count → runsrc = (history.length - distance) % window.length)
    (dest : 0 < count → rundest = history.length % window.length)
    (sourceEnd : runsrc + count ≤ window.length) (destEnd : rundest + count ≤ window.length) :
    ∃ window' history', copyRun count runsrc rundest window = .ok window' ∧
      copyBack distance count history = some history' ∧ Recent window' history' ∧
      window'.length = window.length := by
  induction count generalizing runsrc rundest window history with
  | zero => exact ⟨window, history, rfl, rfl, recent, rfl⟩
  | succ count ih =>
      have item : history[history.length - distance]? =
          some history[history.length - distance] := List.getElem?_eq_getElem (by omega)
      have src := source (Nat.succ_pos _)
      have dst := dest (Nat.succ_pos _)
      have found : window[runsrc]? = some history[history.length - distance] := by
        rw [src, recent_back recent positive near inside, item]
      have length : (window.set rundest history[history.length - distance]).length =
          window.length := List.length_set
      have pushed := @recent_push _ history window history[history.length - distance] recent
      rw [← dst] at pushed
      have next (place from_ : Nat) (same : place = from_ % window.length)
          (room : place + 1 < window.length) : place + 1 = (from_ + 1) % window.length := by
        rw [Nat.add_mod, ← same, Nat.mod_eq_of_lt (by omega : 1 < window.length),
          Nat.mod_eq_of_lt room]
      have later : history.length + 1 - distance = history.length - distance + 1 := by omega
      rcases @ih (window.set rundest history[history.length - distance])
        (history ++ [history[history.length - distance]]) (runsrc + 1) (rundest + 1) pushed
        (by rw [List.length_append]; omega) (by rw [length]; exact inside)
        (by
          intro more
          rw [List.length_append, List.length_singleton, length, later]
          exact next _ _ src (by omega))
        (by
          intro more
          rw [List.length_append, List.length_singleton, length]
          exact next _ _ dst (by omega))
        (by rw [length]; omega) (by rw [length]; omega) with
        ⟨window', history', run, copied, recent', size⟩
      refine ⟨window', history', ?_, ?_, recent', size.trans length⟩
      · rw [copyRun, load_window_ok found, ok_bind, store_window_ok (by omega), ok_bind, run]
      · rw [copyBack, if_pos near, item, Option.bind_eq_bind, Option.bind_some, copied]

end Runs

section Match

variable {limits : WindowLimits} {window history : Bytes} {window_posn match_offset
  match_length : Nat}

/-- The stream is so short that its offsets are no negative `int`. -/
structure WindowLimits.Fit (limits : WindowLimits) (window : Bytes) : Prop where
  size : limits.window_size = window.length
  small : window.length ≤ 2 ^ 25
  offset : limits.offset < 0x80000000
  ref_data_size : limits.ref_data_size ≤ window.length

theorem as_int_of_lt {word : Nat} (small : word < 0x80000000) : asInt word = word := if_pos small

theorem copy_match_result (fit : limits.Fit window) :
    copyMatch limits window_posn match_offset match_length window =
        .error (.error MSPACK_ERR_DECRUNCH) ∨
      ∃ window', copyMatch limits window_posn match_offset match_length window = .ok window' ∧
        window'.length = window.length ∧ window_posn + match_length ≤ window.length := by
  have size := fit.size
  have small := fit.small
  have offset := fit.offset
  have reference := fit.ref_data_size
  rw [copyMatch]
  split_ifs with past behind beyond
  · exact Or.inl rfl
  · exact Or.inl rfl
  · have distance : match_offset - window_posn < 0x80000000 := by omega
    rw [as_int_of_lt distance]
    dsimp only
    split_ifs with beyond wraps
    · exact Or.inl rfl
    · right
      rcases @copy_run_inside window (match_offset - window_posn)
        ((limits.window_size : Int) - ((match_offset - window_posn : Nat) : Int)).toNat window_posn
        (by omega) (by omega) with ⟨window₁, first, length₁⟩
      rcases @copy_run_inside window₁
        ((match_length : Int) - ((match_offset - window_posn : Nat) : Int)).toNat 0
        (window_posn + (match_offset - window_posn)) (by omega) (by omega) with
        ⟨window', second, length'⟩
      refine ⟨window', ?_, by omega, by omega⟩
      rw [Int.toNat_natCast, first, ok_bind, second]
    · right
      rcases @copy_run_inside window match_length
        ((limits.window_size : Int) - ((match_offset - window_posn : Nat) : Int)).toNat window_posn
        (by omega) (by omega) with ⟨window', run, length⟩
      exact ⟨window', run, length, by omega⟩
  · right
    rcases @copy_run_inside window match_length (window_posn - match_offset) window_posn
      (by omega) (by omega) with ⟨window', run, length⟩
    exact ⟨window', run, length, by omega⟩

/-! ### Matches out of the history -/

theorem mod_of_parts {number rounds place : Nat} (parts : number = place + window.length * rounds)
    (inside : place < window.length) : place = number % window.length := by
  rw [parts, Nat.add_mul_mod_self_left, Nat.mod_eq_of_lt inside]

/-- A copy over the end of the window: the rest of it, and then from its start. -/
theorem copy_wrapped {rounds j : Nat} (recent : Recent window history)
    (parts : history.length = window_posn + window.length * (rounds + 1))
    (room : window_posn + match_length ≤ window.length) (positive : 0 < match_offset)
    (inside : match_offset ≤ window.length) (behind : match_offset = window_posn + j)
    (some_ : 0 < j) (wraps : j < match_length) :
    ∃ window' history', (do
        let window ← copyRun j (window.length - j) window_posn window
        copyRun (match_length - j) 0 (window_posn + j) window) = .ok window' ∧
      copyBack match_offset match_length history = some history' ∧ Recent window' history' ∧
      window'.length = window.length := by
  rw [Nat.mul_succ] at parts
  have source : window.length - j = (history.length - match_offset) % window.length :=
    @mod_of_parts _ _ rounds _ (by omega) (by omega)
  have dest : window_posn = history.length % window.length :=
    @mod_of_parts _ _ (rounds + 1) _ (by rw [Nat.mul_succ]; omega) (by omega)
  rcases @copy_run_recent window history j (window.length - j) window_posn match_offset recent
    positive (by omega) inside (fun _ => source) (fun _ => dest) (by omega) (by omega) with
    ⟨window₁, history₁, first, copied₁, recent₁, length₁⟩
  have grown := (copy_back_length copied₁).1
  -- the second run reads where the window was turned over
  have source₁ : 0 = (history₁.length - match_offset) % window₁.length :=
    @mod_of_parts _ _ (rounds + 1) _ (by rw [length₁, Nat.mul_succ]; omega) (by omega)
  have dest₁ : window_posn + j < window.length →
      window_posn + j = history₁.length % window₁.length := fun below =>
    @mod_of_parts _ _ (rounds + 1) _ (by rw [length₁, Nat.mul_succ]; omega) (by omega)
  rcases @copy_run_recent window₁ history₁ (match_length - j) 0 (window_posn + j) match_offset
    recent₁ positive (by omega) (by omega) (fun _ => source₁) (fun _ => dest₁ (by omega))
    (by omega) (by omega) with ⟨window', history', second, copied', recent', length'⟩
  refine ⟨window', history', ?_, ?_, recent', length'.trans length₁⟩
  · rw [first, ok_bind, second]
  · have whole : match_length = j + (match_length - j) := by omega
    rw [whole, copy_back_add, copied₁, Option.bind_some, copied']

/-- A match out of the history that the window shows, with the position at the history's end. -/
theorem copy_match_recent (fit : limits.Fit window) (recent : Recent window history)
    (posn : window_posn = history.length % window.length)
    (room : window_posn + match_length ≤ window.length) (positive : 0 < match_offset)
    (near : match_offset ≤ history.length) (inside : match_offset ≤ window.length)
    (known : match_offset ≤ window_posn ∨ match_offset ≤ limits.offset) :
    ∃ window' history', copyMatch limits window_posn match_offset match_length window = .ok window' ∧
      copyBack match_offset match_length history = some history' ∧ Recent window' history' ∧
      window'.length = window.length := by
  have size := fit.size
  have small := fit.small
  have offset := fit.offset
  have parts := Nat.div_add_mod history.length window.length
  rw [← posn] at parts
  rw [copyMatch, if_neg (by omega)]
  by_cases behind : match_offset > window_posn
  · rw [if_pos behind, if_neg (by omega), as_int_of_lt (by omega)]
    dsimp only
    rw [if_neg (by omega)]
    have start : ((limits.window_size : Int) - ((match_offset - window_posn : Nat) : Int)).toNat =
        window.length - (match_offset - window_posn) := by omega
    -- the match starts in the round of the window before the one of the position
    have turned : 0 < history.length / window.length := by
      by_contra none
      rw [Nat.le_zero.mp (Nat.le_of_not_lt none), Nat.mul_zero] at parts
      omega
    rcases Nat.exists_eq_succ_of_ne_zero (Nat.ne_of_gt turned) with ⟨rounds, rounds_⟩
    rw [rounds_] at parts
    rw [start]
    split_ifs with wraps
    · have more : ((match_length : Int) - ((match_offset - window_posn : Nat) : Int)).toNat =
          match_length - (match_offset - window_posn) := by omega
      rw [Int.toNat_natCast, more]
      exact copy_wrapped recent (by rw [Nat.add_comm]; exact parts.symm) room positive inside
        (by omega) (by omega) (by omega)
    · rw [Nat.mul_succ] at parts
      have source : window.length - (match_offset - window_posn) =
          (history.length - match_offset) % window.length :=
        @mod_of_parts _ _ rounds _ (by omega) (by omega)
      exact copy_run_recent recent positive near inside (fun _ => source) (fun _ => posn)
        (by omega) (by omega)
  · rw [if_neg behind]
    have below := Nat.mod_lt history.length recent.room
    have source : window_posn - match_offset = (history.length - match_offset) % window.length :=
      @mod_of_parts _ _ (history.length / window.length) _ (by omega) (by omega)
    exact copy_run_recent recent positive near inside (fun _ => source) (fun _ => posn)
      (by omega) (by omega)

end Match

end XeBuild.Mspack
