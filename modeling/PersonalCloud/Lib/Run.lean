import Mathlib.Data.List.Basic

/-!
# Runs of a partial step function

A system is given by a step function `σ → ε → Option σ`: the event carries whatever the
environment chooses, and `none` says that the event is not enabled. A run records each
event with the state it was taken in, so that conditions on steps and properties of the
states passed through can both be stated about the same run.

## Main results

* `Run.invariant` — the induction rule for properties of every reachable state.
* `Run.always_of_meets` — the same rule for runs whose steps all meet a condition.
* `Run.always_iff_meets_of_meets`, `Run.always_iff_meets` — when each step keeps the property
  exactly if it meets the condition, so does a whole run.
* `Run.stays_iff_meets` — the same for properties that must not be lost once they hold.
-/

namespace PersonalCloud.Lib

variable {σ ε : Type*}

/-- A run from `s₀`. The list holds the steps taken, newest first, each as the event
with the state it was taken in. -/
inductive Run (step : σ → ε → Option σ) (s₀ : σ) : List (σ × ε) → σ → Prop where
  | refl : Run step s₀ [] s₀
  | tail {tr : List (σ × ε)} {s t : σ} {e : ε} :
      Run step s₀ tr s → step s e = some t → Run step s₀ ((s, e) :: tr) t

/-- `P` holds in every state of a run: in those the steps were taken in, and in the last. -/
def Always (P : σ → Prop) (tr : List (σ × ε)) (s : σ) : Prop :=
  (∀ x ∈ tr, P x.1) ∧ P s

/-- Every step of a run meets the condition `cond` on its event and the state before it. -/
def Meets (cond : σ → ε → Prop) (tr : List (σ × ε)) : Prop :=
  ∀ x ∈ tr, cond x.1 x.2

instance {cond : σ → ε → Prop} [∀ s e, Decidable (cond s e)] (tr : List (σ × ε)) :
    Decidable (Meets cond tr) :=
  inferInstanceAs (Decidable (∀ x ∈ tr, cond x.1 x.2))

/-- Once `P` holds in a state of a run, it holds in all later ones. -/
def Stays (P : σ → Prop) (tr : List (σ × ε)) (s : σ) : Prop :=
  (s :: tr.map Prod.fst).Pairwise fun later earlier => P earlier → P later

@[simp] theorem always_nil (P : σ → Prop) (s : σ) :
    Always P ([] : List (σ × ε)) s ↔ P s := by
  simp [Always]

theorem always_cons {P : σ → Prop} {s t : σ} {e : ε} {tr : List (σ × ε)} :
    Always P ((s, e) :: tr) t ↔ Always P tr s ∧ P t := by
  simp only [Always, List.forall_mem_cons]
  tauto

@[simp] theorem meets_nil (cond : σ → ε → Prop) : Meets cond [] := by
  simp [Meets]

theorem meets_cons {cond : σ → ε → Prop} {s : σ} {e : ε} {tr : List (σ × ε)} :
    Meets cond ((s, e) :: tr) ↔ cond s e ∧ Meets cond tr := by
  simp [Meets]

theorem stays_cons {P : σ → Prop} {s t : σ} {e : ε} {tr : List (σ × ε)} :
    Stays P ((s, e) :: tr) t ↔ (P s → P t) ∧ Stays P tr s := by
  rw [Stays, List.map_cons, List.pairwise_cons, List.forall_mem_cons]
  constructor
  · rintro ⟨⟨hst, -⟩, hs⟩
    exact ⟨hst, hs⟩
  · rintro ⟨hst, hs⟩
    exact ⟨⟨hst, fun x hx hP => hst ((List.pairwise_cons.1 hs).1 x hx hP)⟩, hs⟩

section Rules

variable {step : σ → ε → Option σ} {s₀ s : σ} {tr : List (σ × ε)}

/-- The condition may use an invariant `I` that every step keeps. -/
theorem Run.always_of_meets {P : σ → Prop} {cond : σ → ε → Prop} (h₀ : P s₀)
    (hstep : ∀ s e t, P s → cond s e → step s e = some t → P t)
    (h : Run step s₀ tr s) (hc : Meets cond tr) : Always P tr s := by
  induction h with
  | refl => simpa using h₀
  | tail _ he ih =>
    rw [meets_cons] at hc
    have hs := ih hc.2
    exact always_cons.2 ⟨hs, hstep _ _ _ hs.2 hc.1 he⟩

theorem Run.always {P : σ → Prop} (h₀ : P s₀)
    (hstep : ∀ s e t, P s → step s e = some t → P t) (h : Run step s₀ tr s) :
    Always P tr s := by
  have htrue : Meets (fun _ _ => True) tr := fun _ _ => trivial
  exact h.always_of_meets h₀ (fun s e t hs _ => hstep s e t hs) htrue

/-- A property of the first state that every step keeps holds of every reachable state. -/
theorem Run.invariant {P : σ → Prop} (h₀ : P s₀)
    (hstep : ∀ s e t, P s → step s e = some t → P t) (h : Run step s₀ tr s) : P s :=
  (h.always h₀ hstep).2

/-- If a step from a state with `P` keeps `P` exactly when it meets the condition, then a
run stays in `P` exactly when all its steps meet the condition. All steps may be assumed to
meet `asm`, and the invariant `I` need only survive the steps that keep `P`. -/
theorem Run.always_iff_meets_of_meets {I P : σ → Prop} {asm cond : σ → ε → Prop}
    (hI₀ : I s₀) (h₀ : P s₀)
    (hstep : ∀ s e t, I s → P s → asm s e → step s e = some t → (P t ↔ cond s e))
    (hI : ∀ s e t, I s → P s → P t → asm s e → step s e = some t → I t)
    (h : Run step s₀ tr s) (ha : Meets asm tr) : Always P tr s ↔ Meets cond tr := by
  suffices hboth : (Always P tr s ↔ Meets cond tr) ∧ (Always P tr s → I s) from hboth.1
  induction h with
  | refl => simpa using ⟨h₀, fun _ => hI₀⟩
  | tail hr he ih =>
    rw [meets_cons] at ha
    obtain ⟨hiff, hinv⟩ := ih ha.2
    rw [always_cons, meets_cons, ← hiff]
    refine ⟨⟨?_, ?_⟩, ?_⟩
    · rintro ⟨hs, ht⟩
      exact ⟨(hstep _ _ _ (hinv hs) hs.2 ha.1 he).1 ht, hs⟩
    · rintro ⟨hc, hs⟩
      exact ⟨hs, (hstep _ _ _ (hinv hs) hs.2 ha.1 he).2 hc⟩
    · rintro ⟨hs, ht⟩
      exact hI _ _ _ (hinv hs) hs.2 ht ha.1 he

theorem Run.always_iff_meets {I P : σ → Prop} {cond : σ → ε → Prop}
    (hI₀ : I s₀) (hI : ∀ s e t, I s → step s e = some t → I t) (h₀ : P s₀)
    (hstep : ∀ s e t, I s → P s → step s e = some t → (P t ↔ cond s e))
    (h : Run step s₀ tr s) : Always P tr s ↔ Meets cond tr := by
  have htrue : Meets (fun _ _ => True) tr := fun _ _ => trivial
  exact h.always_iff_meets_of_meets hI₀ h₀ (fun s e t hs hP _ => hstep s e t hs hP)
    (fun s e t hs _ _ _ => hI s e t hs) htrue

/-- If each step of a run has property `P` exactly when it meets the condition, given an
invariant `I` that the steps with property `P` keep, then all steps have it exactly when all
meet the condition. -/
theorem Run.meets_iff_meets {I : σ → Prop} {P cond : σ → ε → Prop} (h₀ : I s₀)
    (hiff : ∀ s e t, I s → step s e = some t → (P s e ↔ cond s e))
    (hkeep : ∀ s e t, I s → P s e → step s e = some t → I t)
    (h : Run step s₀ tr s) : Meets P tr ↔ Meets cond tr := by
  suffices (Meets P tr ↔ Meets cond tr) ∧ (Meets P tr → I s) from this.1
  induction h with
  | refl => simpa using h₀
  | @tail tr s t e _ he ih =>
    simp only [meets_cons]
    refine ⟨?_, fun hP => hkeep _ _ _ (ih.2 hP.2) hP.1 he⟩
    by_cases hP : Meets P tr
    · rw [hiff _ _ _ (ih.2 hP) he, ih.1]
    · simp [hP, ← ih.1]

/-- `P` is lost in a run exactly by the steps that break the condition. -/
theorem Run.stays_iff_meets {P : σ → Prop} {cond : σ → ε → Prop}
    (hstep : ∀ s e t, step s e = some t → ((P s → P t) ↔ cond s e))
    (h : Run step s₀ tr s) : Stays P tr s ↔ Meets cond tr := by
  induction h with
  | refl => simp [Stays]
  | tail _ he ih => rw [stays_cons, meets_cons, ← ih, hstep _ _ _ he]

end Rules

/-! ## Runs from a list of events -/

/-- Take the events one after the other. -/
def exec (step : σ → ε → Option σ) (s : σ) : List ε → Option σ
  | [] => some s
  | e :: es => (step s e).bind fun t => exec step t es

/-- The steps taken, oldest first. -/
def trace (step : σ → ε → Option σ) (s : σ) : List ε → List (σ × ε)
  | [] => []
  | e :: es => (s, e) :: ((step s e).map fun t => trace step t es).getD []

section Events

variable {step : σ → ε → Option σ} {s₀ s t : σ} {e : ε} {es : List ε}

theorem exec_append (es fs : List ε) :
    exec step s (es ++ fs) = (exec step s es).bind fun t => exec step t fs := by
  induction es generalizing s with
  | nil => rfl
  | cons e es ih => simp [exec, ih, Option.bind_assoc]

theorem trace_cons (he : step s e = some t) :
    trace step s (e :: es) = (s, e) :: trace step t es := by
  simp [trace, he]

theorem Run.append_trace {tr : List (σ × ε)} (h : Run step s₀ tr s)
    (he : exec step s es = some t) : Run step s₀ ((trace step s es).reverse ++ tr) t := by
  induction es generalizing s tr with
  | nil =>
    obtain rfl : s = t := by simpa [exec] using he
    simpa [trace] using h
  | cons e es ih =>
    obtain ⟨u, hu, he⟩ := Option.bind_eq_some_iff.1 he
    simpa [trace_cons hu] using ih (h.tail hu) he

/-- What executing a list of events reaches, a run reaches by the same steps. -/
theorem run_trace (he : exec step s es = some t) : Run step s (trace step s es).reverse t := by
  simpa using Run.append_trace .refl he

theorem map_snd_trace (he : exec step s es = some t) : (trace step s es).map Prod.snd = es := by
  induction es generalizing s with
  | nil => rfl
  | cons e es ih =>
    obtain ⟨u, hu, he⟩ := Option.bind_eq_some_iff.1 he
    simp [trace_cons hu, ih he]

theorem run_of_exec (he : exec step s es = some t) :
    ∃ tr, Run step s tr t ∧ tr.map Prod.snd = es.reverse :=
  ⟨_, run_trace he, by rw [List.map_reverse, map_snd_trace he]⟩

theorem meets_trace {cond : σ → ε → Prop} (he : step s e = some t) (hc : cond s e)
    (h : Meets cond (trace step t es).reverse) :
    Meets cond (trace step s (e :: es)).reverse := by
  intro x hx
  rw [trace_cons he, List.reverse_cons, List.mem_append, List.mem_singleton] at hx
  rcases hx with hx | rfl
  · exact h x hx
  · exact hc

end Events

end PersonalCloud.Lib
