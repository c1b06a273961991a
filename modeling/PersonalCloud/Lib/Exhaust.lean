import Mathlib.Data.Nat.Notation
import Mathlib.Tactic.Cases

/-!
# Loops that rewrite

A loop looks for something to rewrite and ends when there is nothing left. One round is a step that
is `none` at the end.

## Main definitions

* `exhaust` — the loop.

## Main results

* `step_exhaust` — with enough fuel nothing is left to rewrite.
* `exhaust_invariant` — what every round keeps.
-/

namespace PersonalCloud.Lib

variable {α : Type*} {step : α → Option α} {s t : α} {fuel : ℕ}

/-- Rewrite until there is nothing left to rewrite, or the fuel runs out. -/
def exhaust (step : α → Option α) : ℕ → α → α
  | 0, s => s
  | fuel + 1, s =>
    match step s with
    | none => s
    | some t => exhaust step fuel t

theorem exhaust_of_none (h : step s = none) (fuel : ℕ) : exhaust step fuel s = s := by
  cases fuel with
  | zero => rfl
  | succ fuel => rw [exhaust, h]

theorem exhaust_of_some (h : step s = some t) :
    exhaust step (fuel + 1) s = exhaust step fuel t := by
  rw [exhaust, h]

theorem exhaust_invariant {I : α → Prop} (hstep : ∀ s t, step s = some t → I s → I t) (hs : I s) :
    I (exhaust step fuel s) := by
  induction fuel generalizing s with
  | zero => exact hs
  | succ fuel ih =>
    cases h : step s with
    | none => rwa [exhaust_of_none h]
    | some t =>
      rw [exhaust_of_some h]
      exact ih (hstep s t h hs)

/-- A measure that every round lowers is enough fuel. -/
theorem step_exhaust {m : α → ℕ} (hless : ∀ s t, step s = some t → m t < m s)
    (hfuel : m s ≤ fuel) : step (exhaust step fuel s) = none := by
  induction fuel generalizing s with
  | zero =>
    cases h : step s with
    | none => exact h
    | some t => exact absurd (hless s t h) (by omega)
  | succ fuel ih =>
    cases h : step s with
    | none => rwa [exhaust_of_none h]
    | some t =>
      have hlt := hless s t h
      rw [exhaust_of_some h]
      exact ih (by omega)

end PersonalCloud.Lib
