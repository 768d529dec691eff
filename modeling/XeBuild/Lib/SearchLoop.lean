import XeBuild.Lib.Runs

/-!
# Search loops

A loop that probes one index after the other, and stops at the first hit. A
probe can fail, so the loop returns exactly when every probe that it comes to
does.
-/

namespace SearchLoop

open Runs

set_option autoImplicit false

variable {Error Found : Type}

/-- `rounds` probes, from an index on. -/
def search (probe : Nat → Except Error (Option Found)) :
    Nat → Nat → Except Error (Option Found)
  | 0, _ => .ok none
  | rounds + 1, index => do
      match ← probe index with
      | some found => return some found
      | none => search probe rounds (index + 1)

def MissesBefore (probe : Nat → Except Error (Option Found)) (start index : Nat) : Prop :=
  ∀ earlier, start ≤ earlier → earlier < index → probe earlier = .ok none

variable {probe : Nat → Except Error (Option Found)} {rounds start index : Nat} {found : Found}

theorem search_hit (hit : probe start = .ok (some found)) :
    search probe (rounds + 1) start = .ok (some found) := by
  rw [search, hit]
  rfl

theorem search_miss (miss : probe start = .ok none) :
    search probe (rounds + 1) start = search probe rounds (start + 1) := by
  rw [search, miss]
  rfl

theorem misses_before_succ (miss : probe start = .ok none) :
    MissesBefore probe start index ↔ MissesBefore probe (start + 1) index := by
  constructor
  · intro misses earlier after before
    exact misses earlier (by omega) before
  · intro misses earlier after before
    rcases Nat.eq_or_lt_of_le after with rfl | later
    · exact miss
    · exact misses earlier later before

theorem stops_at_start (here : probe start ≠ .ok none) (after : start ≤ index)
    (misses : MissesBefore probe start index) : index = start := by
  rcases Nat.eq_or_lt_of_le after with same | later
  · exact same.symm
  · exact absurd (misses start (Nat.le_refl _) later) here

theorem search_some_iff :
    search probe rounds start = .ok (some found) ↔
      ∃ index, start ≤ index ∧ index < start + rounds ∧ MissesBefore probe start index ∧
        probe index = .ok (some found) := by
  induction rounds generalizing start with
  | zero =>
      constructor
      · intro run
        cases run
      · intro hit
        rcases hit with ⟨index, after, before, _⟩
        omega
  | succ rounds ih =>
      cases here : probe start with
      | error fault =>
          constructor
          · intro run
            rw [search, here] at run
            cases run
          · intro hit
            rcases hit with ⟨index, after, _, misses, got⟩
            rw [stops_at_start (by simp [here]) after misses, here] at got
            cases got
      | ok result =>
          cases result with
          | some value =>
              rw [search_hit here]
              constructor
              · intro same
                cases same
                exact ⟨start, Nat.le_refl _, by omega, fun earlier after before => by omega, here⟩
              · intro hit
                rcases hit with ⟨index, after, _, misses, got⟩
                rw [stops_at_start (by simp [here]) after misses] at got
                exact here.symm.trans got
          | none =>
              rw [search_miss here, ih]
              constructor
              · intro hit
                rcases hit with ⟨index, after, before, misses, got⟩
                exact ⟨index, by omega, by omega, (misses_before_succ here).mpr misses, got⟩
              · intro hit
                rcases hit with ⟨index, after, before, misses, got⟩
                have later : index ≠ start := by
                  rintro rfl
                  rw [here] at got
                  cases got
                exact ⟨index, by omega, by omega, (misses_before_succ here).mp misses, got⟩

theorem search_none_iff :
    search probe rounds start = .ok none ↔ MissesBefore probe start (start + rounds) := by
  induction rounds generalizing start with
  | zero =>
      constructor
      · intro _ earlier after before
        omega
      · intro _
        rfl
  | succ rounds ih =>
      constructor
      · intro run
        cases here : probe start with
        | error fault =>
            rw [search, here] at run
            cases run
        | ok result =>
            cases result with
            | some value =>
                rw [search_hit here] at run
                cases run
            | none =>
                rw [search_miss here, ih] at run
                rw [misses_before_succ here]
                have ends : start + (rounds + 1) = start + 1 + rounds := by omega
                rw [ends]
                exact run
      · intro misses
        have here := misses start (Nat.le_refl _) (by omega)
        rw [search_miss here, ih]
        rw [misses_before_succ here] at misses
        have ends : start + (rounds + 1) = start + 1 + rounds := by omega
        rwa [ends] at misses

/-- The loop returns exactly when every probe that it comes to returns. -/
theorem search_returns_iff :
    Returns (search probe rounds start) ↔
      ∀ index, start ≤ index → index < start + rounds → MissesBefore probe start index →
        Returns (probe index) := by
  constructor
  · intro returns index after before misses
    rcases returns with ⟨result, run⟩
    cases result with
    | none => exact ⟨none, search_none_iff.mp run index after before⟩
    | some found =>
        rcases search_some_iff.mp run with ⟨hit, hitAfter, hitBefore, hitMisses, got⟩
        rcases Nat.lt_trichotomy index hit with sooner | rfl | later
        · exact ⟨none, hitMisses index after sooner⟩
        · exact ⟨some found, got⟩
        · rw [misses hit hitAfter later] at got
          cases got
  · intro probes
    induction rounds generalizing start with
    | zero => exact ⟨none, rfl⟩
    | succ rounds ih =>
        rcases probes start (Nat.le_refl _) (by omega) (fun earlier after before => by omega) with
          ⟨result, here⟩
        cases result with
        | some found => exact ⟨some found, search_hit here⟩
        | none =>
            rw [search_miss here]
            apply ih
            intro index after before misses
            exact probes index (by omega) (by omega) ((misses_before_succ here).mpr misses)

/-! ## Probes that are inside or not -/

/-- A probe returns where it is inside, and misses there unless it hits. -/
structure Probed (probe : Nat → Except Error (Option Found)) (inside hit : Nat → Prop) :
    Prop where
  returns : ∀ index, Returns (probe index) ↔ inside index
  misses : ∀ index, probe index = .ok none ↔ inside index ∧ ¬ hit index

section Probed

variable {inside hit : Nat → Prop}

/-- The loop returns exactly when it is inside up to the first hit. -/
theorem probed_returns_iff (probed : Probed probe inside hit) :
    Returns (search probe rounds 0) ↔
      ∀ index < rounds, (∀ earlier < index, ¬ hit earlier) → inside index := by
  rw [search_returns_iff]
  constructor
  · intro probes index
    induction index using Nat.strongRecOn with
    | _ index ih =>
        intro counted before
        apply (probed.returns index).mp
        apply probes index (Nat.zero_le _) (by omega)
        intro earlier _ sooner
        apply (probed.misses earlier).mpr
        exact ⟨ih earlier sooner (by omega) (fun other less => before other (by omega)),
          before earlier sooner⟩
  · intro enters index _ counted misses
    apply (probed.returns index).mpr
    apply enters index (by omega)
    intro earlier sooner
    exact ((probed.misses earlier).mp (misses earlier (Nat.zero_le _) sooner)).2

theorem probed_some_iff (probed : Probed probe inside hit) :
    search probe rounds 0 = .ok (some found) ↔
      ∃ index < rounds, (∀ earlier < index, inside earlier ∧ ¬ hit earlier) ∧
        probe index = .ok (some found) := by
  rw [search_some_iff]
  constructor
  · intro hits
    rcases hits with ⟨index, _, counted, misses, got⟩
    refine ⟨index, by omega, ?_, got⟩
    intro earlier sooner
    exact (probed.misses earlier).mp (misses earlier (Nat.zero_le _) sooner)
  · intro hits
    rcases hits with ⟨index, counted, before, got⟩
    refine ⟨index, Nat.zero_le _, by omega, ?_, got⟩
    intro earlier _ sooner
    exact (probed.misses earlier).mpr (before earlier sooner)

end Probed

end SearchLoop
