import Mathlib.Logic.Function.Basic

/-!
# Fallible steps and bounded runs

A computation in `Except` that succeeds has succeeded at every step. A machine
runs on a number of steps; what it reaches does not depend on that number, and a
machine that is stuck behind some steps is stuck.
-/

namespace Runs

set_option autoImplicit false

theorem bind_ok_iff {Error α β : Type} {first : Except Error α} {next : α → Except Error β}
    {result : β} :
    (first >>= next) = .ok result ↔ ∃ value, first = .ok value ∧ next value = .ok result := by
  cases first with
  | error fault => simp [bind, Except.bind]
  | ok value => simp [bind, Except.bind]

theorem ok_bind {Error α β : Type} (value : α) (next : α → Except Error β) :
    (Except.ok value >>= next) = next value := rfl

def Returns {Error α : Type} (run : Except Error α) : Prop := ∃ result, run = .ok result

section Returns

variable {Error α β : Type} {run first : Except Error α} {next : α → Except Error β}

theorem returns_ok (value : α) : Returns (Except.ok value : Except Error α) := ⟨value, rfl⟩

theorem not_returns_error (fault : Error) : ¬ Returns (Except.error fault : Except Error α) := by
  intro returns
  rcases returns with ⟨_, same⟩
  cases same

theorem returns_bind_iff :
    Returns (first >>= next) ↔
      Returns first ∧ ∀ value, first = .ok value → Returns (next value) := by
  cases first with
  | error fault =>
      constructor
      · intro returns
        exact absurd returns (not_returns_error fault)
      · intro both
        exact absurd both.1 (not_returns_error fault)
  | ok value =>
      rw [ok_bind]
      constructor
      · intro returns
        refine ⟨returns_ok value, ?_⟩
        intro other same
        cases same
        exact returns
      · intro both
        exact both.2 value rfl

end Returns

section Machine

variable {State : Type*} (step : State → Option State) (halted : State → Prop)
variable [DecidablePred halted]

def run : Nat → State → Option State
  | 0, _ => none
  | fuel + 1, state => if halted state then some state else (step state).bind (run fuel)

def Reaches (first last : State) : Prop :=
  ∃ steps, ∀ fuel, run step halted (fuel + steps) first = run step halted fuel last

def Stuck (state : State) : Prop := ∀ fuel, run step halted fuel state = none

variable {step halted} {first middle last : State} {fuel : Nat}

theorem reaches_trans (left : Reaches step halted first middle)
    (right : Reaches step halted middle last) : Reaches step halted first last := by
  obtain ⟨before, toMiddle⟩ := left
  obtain ⟨after, toLast⟩ := right
  refine ⟨after + before, ?_⟩
  intro fuel
  rw [← Nat.add_assoc, toMiddle, toLast]

theorem reaches_step (running : ¬ halted first) (moved : step first = some last) :
    Reaches step halted first last := by
  refine ⟨1, ?_⟩
  intro fuel
  rw [run, if_neg running, moved]
  rfl

theorem run_more (done : run step halted fuel first = some last) (extra : Nat) :
    run step halted (fuel + extra) first = some last := by
  induction fuel generalizing first with
  | zero => cases done
  | succ fuel ih =>
      rw [Nat.succ_add]
      unfold run at done ⊢
      by_cases stop : halted first
      · rwa [if_pos stop] at done ⊢
      · rw [if_neg stop] at done ⊢
        obtain ⟨next, moved, rest⟩ := Option.bind_eq_some_iff.mp done
        rw [moved]
        exact ih rest

theorem run_result_unique {first last last' : State} {fuel fuel' : Nat}
    (done : run step halted fuel first = some last)
    (done' : run step halted fuel' first = some last') : last = last' := by
  have more := run_more done fuel'
  have more' := run_more done' fuel
  rw [Nat.add_comm, more'] at more
  exact Option.some.inj more.symm

theorem run_of_reaches (path : Reaches step halted first last) (stop : halted last) :
    ∃ fuel, run step halted fuel first = some last := by
  obtain ⟨steps, same⟩ := path
  refine ⟨1 + steps, ?_⟩
  rw [same, run, if_pos stop]

theorem stuck_of_reaches (path : Reaches step halted first last) (stuck : Stuck step halted last) :
    Stuck step halted first := by
  obtain ⟨steps, same⟩ := path
  intro fuel
  rw [Option.eq_none_iff_forall_not_mem]
  intro final done
  have later := run_more done steps
  rw [same, stuck] at later
  cases later

theorem stuck_of_step (running : ¬ halted first) (failed : step first = none) :
    Stuck step halted first := by
  intro fuel
  cases fuel with
  | zero => rfl
  | succ fuel => rw [run, if_neg running, failed, Option.bind_none]

end Machine

/-! ## Walks of a partial step -/

inductive Walks {State : Type*} (next : State → Option State) : Nat → State → State → Prop
  | start (first : State) : Walks next 0 first first
  | step {count : Nat} {first middle last : State} :
      Walks next count first middle → next middle = some last → Walks next (count + 1) first last

section Walks

variable {State : Type*} {next : State → Option State} {first last : State} {count : Nat}

theorem walks_keep {Kept : State → Prop}
    (keeps : ∀ {before after}, Kept before → next before = some after → Kept after)
    (walk : Walks next count first last) (here : Kept first) : Kept last := by
  induction walk with
  | start _ => exact here
  | step _ moved ih => exact keeps (ih here) moved

theorem walks_cons {middle : State} (moved : next first = some middle)
    (walk : Walks next count middle last) : Walks next (count + 1) first last := by
  induction walk with
  | start _ => exact .step (.start first) moved
  | step _ later ih => exact .step (ih moved) later

/-- A step that lowers a measure comes to an end within the measure. -/
theorem walks_end {size : State → Nat}
    (lowers : ∀ {before after}, next before = some after → size after < size before)
    (first : State) :
    ∃ count ≤ size first, ∃ last, Walks next count first last ∧ next last = none := by
  induction measure : size first using Nat.strongRecOn generalizing first with
  | ind left ih =>
      cases moved : next first with
      | none => exact ⟨0, Nat.zero_le _, first, .start first, moved⟩
      | some middle =>
          have smaller : size middle < left := Nat.lt_of_lt_of_eq (lowers moved) measure
          rcases ih (size middle) smaller middle rfl with ⟨count, within, last, walk, stopped⟩
          exact ⟨count + 1, by omega, last, walks_cons moved walk, stopped⟩

end Walks

end Runs
