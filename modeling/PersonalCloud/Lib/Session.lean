import PersonalCloud.Lib.Run

/-!
# Sessions with transactions

A call makes another state of the one it finds, or it fails on the way, and then the state stays as
the call has left it. A transaction keeps the state that it was started in, and a rollback brings
that back.

## Main definitions

* `Session.step` — calls, and the commands around them.
* `Session.Careful` — after a call that failed comes the rollback.
* `Session.Reached` — by calls that all succeed.

## Main results

* `Session.exists_run` — a careful session is in a state that its calls in effect reach by
  themselves, all of them with success.
-/

namespace PersonalCloud.Lib

variable {σ ε : Type*}

section Calls

variable {β γ : Type} {x : Except σ β} {f : β → Except σ γ} {b : β} {s : σ} {p : Prop} [Decidable p]

theorem bind_eq_ok_iff {y : γ} : x >>= f = .ok y ↔ ∃ b, x = .ok b ∧ f b = .ok y := by
  cases x with
  | error s => simp [bind, Except.bind]
  | ok b => simp [bind, Except.bind]

theorem ite_error_eq_ok_iff : (if p then x else .error s) = .ok b ↔ p ∧ x = .ok b := by
  split <;> simp_all

theorem error_ite_eq_ok_iff : (if p then .error s else x) = .ok b ↔ ¬p ∧ x = .ok b := by
  split <;> simp_all

end Calls

inductive Command (ε : Type*) where
  | start | commit | rollback
  | call (e : ε)
  deriving DecidableEq, Repr

/-- What is assumed of the calls among the commands. -/
def Command.Meets (cond : σ → ε → Prop) (s : σ) : Command ε → Prop
  | .call e => cond s e
  | _ => True

instance {cond : σ → ε → Prop} [∀ s e, Decidable (cond s e)] (s : σ) :
    DecidablePred (Command.Meets cond s)
  | .call e => inferInstanceAs (Decidable (cond s e))
  | .start | .commit | .rollback => .isTrue trivial

structure Session (σ ε : Type*) where
  state : σ
  /-- The calls that the state has come from, newest first. -/
  calls : List ε
  /-- The state that the open transaction was started in, and its calls. -/
  saved : Option (σ × List ε)
  /-- A call failed, and what it left is still there. -/
  failed : Bool
  deriving DecidableEq, Repr

namespace Session

variable (call : σ → ε → Except σ σ)

def new (s : σ) : Session σ ε := ⟨s, [], none, false⟩

def step (s : Session σ ε) : Command ε → Option (Session σ ε)
  | .start => if s.saved.isNone then some { s with saved := some (s.state, s.calls) } else none
  | .commit => s.saved.map fun _ => { s with saved := none }
  | .rollback => s.saved.map fun x => ⟨x.1, x.2, none, false⟩
  | .call e =>
    match call s.state e with
    | .ok t => some { s with state := t, calls := e :: s.calls }
    | .error t => some { s with state := t, failed := true }

/-- The step of a run of calls that succeed. -/
def succeeds (s : σ) (e : ε) : Option σ :=
  (call s e).toOption

def Careful (s : Session σ ε) (x : Command ε) : Prop :=
  s.failed = true → x = .rollback

instance [DecidableEq ε] (s : Session σ ε) : DecidablePred s.Careful := fun _ =>
  inferInstanceAs (Decidable (_ → _))

variable {call}

/-- All that a step can do. -/
theorem step_cases {s t : Session σ ε} {x : Command ε} (h : step call s x = some t) :
    (x = .start ∧ t = { s with saved := some (s.state, s.calls) }) ∨
    (x = .commit ∧ t = { s with saved := none }) ∨
    (∃ y, x = .rollback ∧ s.saved = some y ∧ t = ⟨y.1, y.2, none, false⟩) ∨
    (∃ e u, x = .call e ∧ call s.state e = .ok u ∧
      t = { s with state := u, calls := e :: s.calls }) ∨
    ∃ e u, x = .call e ∧ call s.state e = .error u ∧ t = { s with state := u, failed := true } := by
  cases x with
  | start => exact .inl ⟨rfl, by simpa [step, eq_comm] using (Option.ite_none_right_eq_some.1 h).2⟩
  | commit =>
    obtain ⟨-, -, rfl⟩ := Option.map_eq_some_iff.1 h
    exact .inr (.inl ⟨rfl, rfl⟩)
  | rollback =>
    obtain ⟨y, hy, rfl⟩ := Option.map_eq_some_iff.1 h
    exact .inr (.inr (.inl ⟨y, rfl, hy, rfl⟩))
  | call e =>
    unfold step at h
    cases he : call s.state e with
    | ok u => exact .inr (.inr (.inr (.inl ⟨e, u, rfl, he, by simpa [he, eq_comm] using h⟩)))
    | error u => exact .inr (.inr (.inr (.inr ⟨e, u, rfl, he, by simpa [he, eq_comm] using h⟩)))

theorem succeeds_eq_some_iff {s t : σ} {e : ε} :
    succeeds call s e = some t ↔ call s e = .ok t := by
  rw [succeeds]
  cases call s e <;> simp [Except.toOption]

/-- The calls succeed one after the other, under the condition. -/
def Reached (call : σ → ε → Except σ σ) (cond : σ → ε → Prop) (s₀ s : σ) (calls : List ε) : Prop :=
  ∃ tr, Run (succeeds call) s₀ tr s ∧ Meets cond tr ∧ tr.map Prod.snd = calls

variable {cond : σ → ε → Prop} {s₀ : σ} {s : Session σ ε} {tr : List (Session σ ε × Command ε)}

section Reached

variable {s t : σ} {calls : List ε} {e : ε}

theorem Reached.eq_of_nil (h : Reached call cond s₀ s []) : s = s₀ := by
  obtain ⟨tr, hrun, -, htr⟩ := h
  cases List.map_eq_nil_iff.1 htr
  cases hrun
  rfl

theorem Reached.of_cons (h : Reached call cond s₀ t (e :: calls)) :
    ∃ s, Reached call cond s₀ s calls ∧ cond s e ∧ call s e = .ok t := by
  obtain ⟨tr, hrun, hmeets, htr⟩ := h
  cases hrun with
  | refl => cases htr
  | @tail tr s t e' hrun hstep =>
    obtain ⟨rfl, rfl⟩ := List.cons_eq_cons.1 htr
    obtain ⟨he, hmeets⟩ := meets_cons.1 hmeets
    exact ⟨s, ⟨tr, hrun, hmeets, rfl⟩, he, succeeds_eq_some_iff.1 hstep⟩

theorem Reached.tail (h : Reached call cond s₀ s calls) (he : call s e = .ok t)
    (hcond : cond s e) : Reached call cond s₀ t (e :: calls) := by
  obtain ⟨tr, hrun, hmeets, rfl⟩ := h
  exact ⟨(s, e) :: tr, hrun.tail (succeeds_eq_some_iff.2 he), meets_cons.2 ⟨hcond, hmeets⟩, rfl⟩

/-- What the calls keep if they succeed. -/
theorem Reached.invariant {P : σ → Prop} (h : Reached call cond s₀ s calls) (h₀ : P s₀)
    (hcall : ∀ s e t, P s → cond s e → call s e = .ok t → P t) : P s := by
  obtain ⟨tr, hrun, hmeets, -⟩ := h
  exact (hrun.always_of_meets h₀ (fun s e t hs he ht =>
    hcall s e t hs he (succeeds_eq_some_iff.1 ht)) hmeets).2

end Reached

/-- What holds all along: the state at the start of the transaction can be brought back, and
without a call that failed the present one needs no bringing back. -/
structure Sound (call : σ → ε → Except σ σ) (cond : σ → ε → Prop) (s₀ : σ) (s : Session σ ε) :
    Prop where
  state : s.failed = false → Reached call cond s₀ s.state s.calls
  saved : ∀ x, s.saved = some x → Reached call cond s₀ x.1 x.2

theorem Sound.step {t : Session σ ε} {x : Command ε} (hs : Sound call cond s₀ s)
    (hcareful : s.Careful x) (hcond : x.Meets cond s.state) (h : step call s x = some t) :
    Sound call cond s₀ t := by
  have hclean : x ≠ .rollback → s.failed = false := fun hx =>
    Bool.eq_false_iff.2 fun hfailed => hx (hcareful hfailed)
  obtain ⟨rfl, rfl⟩ | ⟨rfl, rfl⟩ | ⟨y, rfl, hy, rfl⟩ | ⟨e, u, rfl, he, rfl⟩ | ⟨e, u, rfl, he, rfl⟩ :=
    step_cases h
  · exact ⟨hs.state, fun y hy => Option.some.inj hy ▸ hs.state (hclean nofun)⟩
  · exact ⟨hs.state, nofun⟩
  · exact ⟨fun _ => hs.saved y hy, nofun⟩
  · exact ⟨fun _ => (hs.state (hclean nofun)).tail he hcond, hs.saved⟩
  · exact ⟨nofun, hs.saved⟩

theorem exists_run (h : Run (Session.step call) (new s₀) tr s)
    (hcareful : Meets Careful tr) (hcond : Meets (fun s x => x.Meets cond s.state) tr)
    (hclean : s.failed = false) : Reached call cond s₀ s.state s.calls := by
  have hnew : Sound call cond s₀ (new s₀) := ⟨fun _ => ⟨[], .refl, meets_nil cond, rfl⟩, nofun⟩
  have hboth : Meets (fun s x => s.Careful x ∧ x.Meets cond s.state) tr := fun x hx =>
    ⟨hcareful x hx, hcond x hx⟩
  exact ((h.always_of_meets hnew (fun s x t hs hx => hs.step hx.1 hx.2) hboth).2).state hclean

end Session

end PersonalCloud.Lib
