import Mathlib.Data.List.Basic
import XeBuild.Lib.ListRange

/-!
# Copies out of a history

A history grows by items and by copies of what lies some distance behind its end; a
copy may run into the items that it appends. A window of fixed size shows the end
of the history, every item at its index modulo the size.
-/

namespace SlidingWindow

open ListRange

set_option autoImplicit false

variable {Item : Type*}

/-- The history with `count` more items, each a copy of the one `distance` behind the end. -/
def copyBack (distance : Nat) : Nat → List Item → Option (List Item)
  | 0, history => some history
  | count + 1, history =>
      if distance ≤ history.length then do
        let item ← history[history.length - distance]?
        copyBack distance count (history ++ [item])
      else none

structure Recent (window history : List Item) : Prop where
  room : 0 < window.length
  same : ∀ index < history.length, history.length ≤ index + window.length →
    window[index % window.length]? = history[index]?

section Copies

variable {distance count more : Nat} {history history' window : List Item} {item : Item}

/-- A copy of several items is one of some of them and then one of the others. -/
theorem copy_back_add : copyBack distance (count + more) history =
    (copyBack distance count history).bind (copyBack distance more) := by
  induction count generalizing history with
  | zero => rw [Nat.zero_add, copyBack, Option.bind_some]
  | succ count ih =>
      rw [Nat.add_right_comm, copyBack, copyBack]
      split_ifs with near
      · cases item : history[history.length - distance]? with
        | none => rfl
        | some item => exact ih
      · rfl

theorem copy_back_length (copied : copyBack distance count history = some history') :
    history'.length = history.length + count ∧ history'.take history.length = history := by
  induction count generalizing history with
  | zero =>
      cases copied
      exact ⟨rfl, List.take_length⟩
  | succ count ih =>
      rw [copyBack] at copied
      split_ifs at copied with near
      rcases Option.bind_eq_some_iff.mp copied with ⟨item, _, rest⟩
      have later := ih rest
      rw [List.length_append, List.length_singleton] at later
      refine ⟨by omega, ?_⟩
      have front := congrArg (List.take history.length) later.2
      rwa [List.take_take, Nat.min_eq_left (Nat.le_succ _), List.take_left] at front

theorem copy_back_mem (copied : copyBack distance count history = some history')
    (member : item ∈ history') : item ∈ history := by
  induction count generalizing history with
  | zero =>
      cases copied
      exact member
  | succ count ih =>
      rw [copyBack] at copied
      split_ifs at copied with near
      rcases Option.bind_eq_some_iff.mp copied with ⟨other, found, rest⟩
      rcases List.mem_append.mp (ih rest) with before | last
      · exact before
      · rw [List.mem_singleton.mp last]
        exact List.mem_of_getElem? found

theorem recent_nil (room : 0 < window.length) : Recent window [] :=
  ⟨room, fun _ below _ => absurd below (Nat.not_lt_zero _)⟩

/-- The next item goes to the place of the one that leaves the window. -/
theorem recent_push (recent : Recent window history) :
    Recent (window.set (history.length % window.length) item) (history ++ [item]) := by
  have room := recent.room
  refine ⟨by rw [List.length_set]; exact room, ?_⟩
  intro index below within
  rw [List.length_append, List.length_singleton] at below
  rw [List.length_append, List.length_singleton, List.length_set] at within
  rw [List.length_set]
  by_cases last : index = history.length
  · rw [last, List.getElem?_set_self (Nat.mod_lt _ room), List.getElem?_concat_length]
  · have before : index < history.length := by omega
    have other : history.length % window.length ≠ index % window.length := by
      intro same
      have gap : (history.length - index) % window.length = 0 :=
        Nat.sub_mod_eq_zero_of_mod_eq same
      rw [Nat.mod_eq_of_lt (by omega)] at gap
      omega
    rw [List.getElem?_set_ne other, List.getElem?_append_left before]
    exact recent.same index before (by omega)

theorem recent_patch {items : List Item} (recent : Recent window history)
    (inside : history.length % window.length + items.length ≤ window.length) :
    Recent (patch window (history.length % window.length) items) (history ++ items) := by
  induction items generalizing window history with
  | nil =>
      rw [List.append_nil, patch, List.append_nil, List.length_nil, Nat.add_zero,
        List.take_append_drop]
      exact recent
  | cons item items ih =>
      rw [List.length_cons] at inside
      have room := recent.room
      have pushed := @recent_push _ history window item recent
      have length : (window.set (history.length % window.length) item).length = window.length :=
        List.length_set
      have below := Nat.mod_lt history.length room
      rw [← patch_set below, ← List.singleton_append, ← List.append_assoc]
      cases items with
      | nil =>
          rw [patch, List.append_nil, List.length_nil, Nat.add_zero, List.take_append_drop,
            List.append_nil]
          exact pushed
      | cons next items =>
          rw [List.length_cons] at inside
          have place : (history ++ [item]).length %
              (window.set (history.length % window.length) item).length =
                history.length % window.length + 1 := by
            rw [List.length_append, List.length_singleton, length, Nat.add_mod,
              Nat.mod_eq_of_lt (by omega : 1 < window.length), Nat.mod_eq_of_lt (by omega)]
          have later := ih pushed (by rw [place, length, List.length_cons]; omega)
          rwa [place] at later

theorem recent_back (recent : Recent window history) (positive : 0 < distance)
    (near : distance ≤ history.length) (inside : distance ≤ window.length) :
    window[(history.length - distance) % window.length]? =
      history[history.length - distance]? :=
  recent.same _ (by omega) (by omega)

/-- The end of the history, where it does not pass the end of the window. -/
theorem recent_slice {start : Nat} (recent : Recent window history)
    (size : start + count = history.length)
    (inside : start % window.length + count ≤ window.length) :
    slice window (start % window.length) count = history.drop start := by
  apply List.ext_getElem?
  intro index
  rw [slice, List.getElem?_take, List.getElem?_drop, List.getElem?_drop]
  split_ifs with below
  · have place : (start + index) % window.length = start % window.length + index := by
      rw [Nat.add_mod, Nat.mod_eq_of_lt (by omega : index < window.length), Nat.mod_eq_of_lt]
      omega
    rw [← place]
    exact recent.same _ (by omega) (by omega)
  · rw [List.getElem?_eq_none (by omega)]

end Copies

end SlidingWindow
