import Mathlib.Data.Bool.Basic
import Mathlib.Data.Nat.Notation
import Mathlib.Tactic.SplitIfs

/-!
# Calls that are retried at once

A call to a server is made again when it meets a transient error, for a fixed number of times
and with checks for a stop in between. The server may have done its work although its answer
was lost on the way, which the caller sees as a transient error.

## Main results

* `retry_invariant` — what every served call keeps.
* `retry_eq_some`, `retry_eq_some_of_keeps` — an answer other than a transient error is the
  server's answer to the last call, which may be the only one that did anything.
* `retry_ne_none` — without a stop there is an answer.
* `answered_of_retry` — such an answer needs an attempt that is answered before any stop.
-/

namespace PersonalCloud.Lib

/-- One attempt at a call: the checks for a stop before and after it, the answer that the
server is asked to give, whether the answer is lost, and the check before the next attempt. -/
structure Attempt (ρ : Type*) where
  stopBefore : Bool
  answer : ρ
  lost : Bool
  stopAfter : Bool
  stopBetween : Bool

section Retry

variable {σ ρ : Type*} [DecidableEq ρ] (transient : ρ) (serve : ρ → σ → ρ × σ)
  (attempts : ℕ → Attempt ρ)

/-- What the caller sees of an attempt. -/
def seen (a : Attempt ρ) (s : σ) : ρ :=
  if a.lost then transient else (serve a.answer s).1

/-- At most `left` attempts from the `k`-th on. The first component is `none` after a stop. -/
def retry : ℕ → ℕ → σ → Option ρ × σ
  | 0, _, s => (some transient, s)
  | left + 1, k, s =>
    if (attempts k).stopBefore then (none, s)
    else if (attempts k).stopAfter then (none, (serve (attempts k).answer s).2)
    else if seen transient serve (attempts k) s ≠ transient then
      (some (seen transient serve (attempts k) s), (serve (attempts k).answer s).2)
    else if left ≠ 0 ∧ (attempts k).stopBetween then (none, (serve (attempts k).answer s).2)
    else retry left (k + 1) (serve (attempts k).answer s).2

/-- Some attempt is answered, and no stop comes before that. -/
def answered : ℕ → ℕ → Bool
  | 0, _ => false
  | left + 1, k =>
    !(attempts k).stopBefore && !(attempts k).stopAfter &&
      (!(attempts k).lost && decide ((attempts k).answer ≠ transient) ||
        !(attempts k).stopBetween && answered left (k + 1))

/-- No check around the attempt asks for a stop. -/
structure Attempt.Quiet (a : Attempt ρ) : Prop where
  before : a.stopBefore = false
  after : a.stopAfter = false
  between : a.stopBetween = false

variable {transient serve attempts} {s t : σ} {left k : ℕ} {rc : ρ}

theorem retry_ne_none (h : ∀ k, (attempts k).Quiet) :
    (retry transient serve attempts left k s).1 ≠ none := by
  induction left generalizing k s with
  | zero => simp [retry]
  | succ left ih =>
    rw [retry, if_neg (by simp [(h k).before]), if_neg (by simp [(h k).after])]
    split_ifs with hseen hstop
    · simp
    · simp [(h k).between] at hstop
    · exact ih

theorem retry_invariant {P : σ → Prop} (hserve : ∀ wish s, P s → P (serve wish s).2) (h : P s) :
    P (retry transient serve attempts left k s).2 := by
  induction left generalizing k s with
  | zero => exact h
  | succ left ih =>
    have hserved := hserve (attempts k).answer s h
    rw [retry]
    split_ifs
    · exact h
    · exact hserved
    · exact hserved
    · exact hserved
    · exact ih hserved

/-- What a call needs to be answered: the rule for one attempt. -/
theorem retry_succ_eq_some (h : retry transient serve attempts (left + 1) k s = (some rc, t)) :
    (attempts k).stopBefore = false ∧ (attempts k).stopAfter = false ∧
      ((attempts k).lost = false ∧ serve (attempts k).answer s = (rc, t) ∨
        seen transient serve (attempts k) s = transient ∧
          (left ≠ 0 → (attempts k).stopBetween = false) ∧
          retry transient serve attempts left (k + 1) (serve (attempts k).answer s).2 =
            (some rc, t)) := by
  rw [retry] at h
  split_ifs at h with hb ha hs hl
  · cases h
  · cases h
  · refine ⟨by simpa using hb, by simpa using ha, .inl ?_⟩
    cases hlost : (attempts k).lost with
    | true => simp [seen, hlost] at hs
    | false =>
      simp only [seen, hlost, Bool.false_eq_true, if_false, Prod.mk.injEq,
        Option.some.injEq] at h
      exact ⟨rfl, Prod.ext h.1 h.2⟩
  · cases h
  · exact ⟨by simpa using hb, by simpa using ha, .inr ⟨not_not.1 hs, by simpa using hl, h⟩⟩

theorem retry_eq_some (h : retry transient serve attempts left k s = (some rc, t))
    (hrc : rc ≠ transient) : ∃ j < k + left, ∃ u, serve (attempts j).answer u = (rc, t) := by
  induction left generalizing k s with
  | zero => exact absurd (Option.some.inj (congrArg Prod.fst h)).symm hrc
  | succ left ih =>
    obtain ⟨-, -, ⟨-, hserve⟩ | ⟨-, -, h⟩⟩ := retry_succ_eq_some h
    · exact ⟨k, by omega, s, hserve⟩
    · obtain ⟨j, hj, u, hserve⟩ := ih h
      exact ⟨j, by omega, u, hserve⟩

/-- Where a server has done nothing when its caller sees a transient error, the call that is
answered finds the server as the first one did. -/
theorem retry_eq_some_of_keeps
    (hkeep : ∀ j < k + left, ∀ s, seen transient serve (attempts j) s = transient →
      (serve (attempts j).answer s).2 = s)
    (h : retry transient serve attempts left k s = (some rc, t)) (hrc : rc ≠ transient) :
    ∃ j < k + left, serve (attempts j).answer s = (rc, t) := by
  induction left generalizing k with
  | zero => exact absurd (Option.some.inj (congrArg Prod.fst h)).symm hrc
  | succ left ih =>
    obtain ⟨-, -, ⟨-, hserve⟩ | ⟨hseen, -, h⟩⟩ := retry_succ_eq_some h
    · exact ⟨k, by omega, hserve⟩
    · rw [hkeep k (by omega) s hseen] at h
      obtain ⟨j, hj, hserve⟩ := ih (fun j hj => hkeep j (by omega)) h
      exact ⟨j, by omega, hserve⟩

theorem answered_of_retry (htr : ∀ s, (serve transient s).1 = transient)
    (h : retry transient serve attempts left k s = (some rc, t)) (hrc : rc ≠ transient) :
    answered transient attempts left k = true := by
  induction left generalizing k s with
  | zero => exact absurd (Option.some.inj (congrArg Prod.fst h)).symm hrc
  | succ left ih =>
    obtain ⟨hb, ha, ⟨hl, hserve⟩ | ⟨-, hs, h⟩⟩ := retry_succ_eq_some h
    · have hanswer : (attempts k).answer ≠ transient := by
        intro heq
        rw [heq] at hserve
        exact hrc ((congrArg Prod.fst hserve).symm.trans (htr s))
      simp [answered, hb, ha, hl, hanswer]
    · have hnext := ih h
      have hleft : left ≠ 0 := by
        rintro rfl
        simp [answered] at hnext
      simp [answered, hb, ha, hs hleft, hnext]

end Retry

end PersonalCloud.Lib
