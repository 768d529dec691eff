import XeBuild.Lib.Runs

/-!
# Two runs side by side

Two computations in `Except` that fail alike or succeed with related values. The
relation goes through their steps, and so through loops round by round.
-/

namespace SideBySide

open Runs

set_option autoImplicit false

inductive Lockstep {Fault α β : Type} (Related : α → β → Prop) :
    Except Fault α → Except Fault β → Prop
  | ok {left : α} {right : β} (related : Related left right) :
      Lockstep Related (.ok left) (.ok right)
  | error (fault : Fault) : Lockstep Related (.error fault) (.error fault)

section Rules

variable {Fault α β γ δ : Type} {Related : α → β → Prop} {Later : γ → δ → Prop}
  {left : Except Fault α} {right : Except Fault β}

/-- The rest of two computations is looked at behind values that they come to. -/
theorem lockstep_bind {next : α → Except Fault γ} {next' : β → Except Fault δ}
    (first : Lockstep Related left right)
    (rest : ∀ value value', Related value value' → left = .ok value →
      Lockstep Later (next value) (next' value')) :
    Lockstep Later (left >>= next) (right >>= next') := by
  cases first with
  | ok related => exact rest _ _ related rfl
  | error fault => exact .error fault

theorem lockstep_bind_same {next : α → Except Fault γ} {next' : α → Except Fault δ}
    (rest : ∀ value, Lockstep Later (next value) (next' value)) :
    Lockstep Later (left >>= next) (left >>= next') := by
  cases left with
  | ok value => exact rest value
  | error fault => exact .error fault

end Rules

end SideBySide
