import Mathlib.Data.Finset.Card
import Mathlib.Data.Fintype.Card
import Mathlib.Data.Set.Finite.Basic
import Mathlib.Logic.Relation

/-!
# Walks that end

A walk follows the steps of a relation, and may branch. All walks from a state
end when the state is accessible backwards. Where finitely many states can be
reached, this is the same as that none of them comes back to itself, and their
number bounds the steps.
-/

namespace FiniteWalk

open Relation

set_option autoImplicit false

variable {State : Type*}

def Ends (next : State → State → Prop) (state : State) : Prop :=
  Acc (fun later earlier => next earlier later) state

/-- No state that can be reached from this one comes back to itself. -/
def NoReturn (next : State → State → Prop) (root : State) : Prop :=
  ∀ state, ReflTransGen next root state → ¬ TransGen next state state

/-- Every walk from this state has fewer steps than this. -/
def EndsWithin (next : State → State → Prop) : Nat → State → Prop
  | 0, _ => False
  | rounds + 1, state => ∀ later, next state later → EndsWithin next rounds later

variable {next : State → State → Prop} {root state later : State} {rounds more : Nat}

theorem ends_step (ends : Ends next state) (step : next state later) : Ends next later :=
  Acc.inv ends step

theorem ends_reached (ends : Ends next root) (path : ReflTransGen next root state) :
    Ends next state := by
  induction path with
  | refl => exact ends
  | tail _ step ih => exact ends_step ih step

theorem not_cycle_of_ends (ends : Ends next state) : ¬ TransGen next state state := by
  induction ends with
  | intro state _ ih =>
      intro cycle
      rcases TransGen.head'_iff.mp cycle with ⟨later, step, path⟩
      exact ih later step (TransGen.tail' path step)

theorem no_return_of_ends (ends : Ends next root) : NoReturn next root := by
  intro state path
  exact not_cycle_of_ends (ends_reached ends path)

theorem ends_of_no_return (finite : {state | ReflTransGen next root state}.Finite)
    (noReturn : NoReturn next root) : Ends next root := by
  let back : {state // ReflTransGen next root state} →
      {state // ReflTransGen next root state} → Prop := fun later earlier =>
    TransGen next earlier.1 later.1
  have finiteType : Finite {state // ReflTransGen next root state} := finite
  have transitive : IsTrans _ back := ⟨fun _ _ _ left right => right.trans left⟩
  have irreflexive : Std.Irrefl back := ⟨fun state => noReturn state.1 state.2⟩
  have wellFounded := Finite.wellFounded_of_trans_of_irrefl back
  have accessible : ∀ state : {state // ReflTransGen next root state}, Ends next state.1 := by
    intro state
    induction state using wellFounded.induction with
    | _ state ih =>
        constructor
        intro later step
        exact ih ⟨later, state.2.tail step⟩ (TransGen.single step)
  exact accessible ⟨root, ReflTransGen.refl⟩

theorem ends_iff_no_return (finite : {state | ReflTransGen next root state}.Finite) :
    Ends next root ↔ NoReturn next root :=
  ⟨no_return_of_ends, ends_of_no_return finite⟩

theorem ends_of_within (within : EndsWithin next rounds state) : Ends next state := by
  induction rounds generalizing state with
  | zero => cases within
  | succ rounds ih =>
      constructor
      intro later step
      exact ih (within later step)

/-- A walk that does not come back leaves one more of the states that have a
next one behind it with every step. -/
theorem ends_within_of_no_return [DecidableEq State] (going : Finset State)
    (goes : ∀ state later, ReflTransGen next root state → next state later → state ∈ going)
    (noReturn : NoReturn next root) : EndsWithin next (going.card + 1) root := by
  induction going using Finset.strongInduction generalizing root with
  | H going ih =>
      intro later step
      have present : root ∈ going := goes root later ReflTransGen.refl step
      rw [← Finset.card_erase_add_one present]
      apply ih (going.erase root) (Finset.erase_ssubset present)
      · intro state after path move
        apply Finset.mem_erase.mpr
        refine ⟨?_, goes state after (path.head step) move⟩
        rintro rfl
        exact noReturn state ReflTransGen.refl (TransGen.head' step path)
      · intro state path
        exact noReturn state (path.head step)

/-- What holds at the start and is kept by every step holds wherever a walk leads. -/
theorem reached_invariant {Invariant : State → Prop} (start : Invariant root)
    (kept : ∀ earlier later, Invariant earlier → next earlier later → Invariant later)
    (path : ReflTransGen next root state) : Invariant state := by
  induction path with
  | refl => exact start
  | tail _ step ih => exact kept _ _ ih step

end FiniteWalk
