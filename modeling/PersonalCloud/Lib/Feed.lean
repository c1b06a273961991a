import Mathlib.Data.List.Basic

/-!
# Consuming what arrives

A consumer takes some of the elements that it is given and says how many. If it does what a machine
does that takes them one by one, and that refuses all once it has refused one, then it does not
matter in which pieces they arrive.

## Main definitions

* `feed` — elements taken one by one.
* `arrive` — pieces given to a consumer one after the other.

## Main results

* `arrive_eq_feed` — the pieces are taken as if they were one.
-/

namespace PersonalCloud.Lib

variable {α σ : Type*}

/-- Take elements until one is refused, and count them. -/
def feed (step : σ → α → Option σ) : σ → List α → σ × ℕ
  | s, [] => (s, 0)
  | s, a :: as =>
    match step s a with
    | none => (s, 0)
    | some t => ((feed step t as).1, (feed step t as).2 + 1)

/-- Each piece is given behind what is left of those before it. -/
def arrive (consume : σ → List α → σ × ℕ) : σ → List α → List (List α) → σ × ℕ
  | s, _, [] => (s, 0)
  | s, left, p :: ps =>
    let (t, n) := consume s (left ++ p)
    let (u, m) := arrive consume t ((left ++ p).drop n) ps
    (u, n + m)

/-- What is refused does not depend on the element. -/
def Settled (step : σ → α → Option σ) : Prop :=
  ∀ s a b, step s a = none → step s b = none

variable {step : σ → α → Option σ} {s t : σ} {a : α} {as bs : List α}

theorem feed_cons_of_eq_some (h : step s a = some t) :
    feed step s (a :: as) = ((feed step t as).1, (feed step t as).2 + 1) := by
  rw [feed, h]

theorem feed_of_refused (h : ∀ a, step s a = none) (as : List α) : feed step s as = (s, 0) := by
  cases as with
  | nil => rfl
  | cons a as => rw [feed, h a]

/-- Either all are taken, or the machine has come to refuse what comes next. -/
theorem feed_all_or_refused (hsettled : Settled step) (s : σ) (as : List α) :
    (feed step s as).2 = as.length ∨
      ((feed step s as).2 < as.length ∧ ∀ b, step (feed step s as).1 b = none) := by
  induction as generalizing s with
  | nil => exact .inl rfl
  | cons a as ih =>
    cases hstep : step s a with
    | none =>
      refine .inr ?_
      rw [feed, hstep]
      exact ⟨Nat.succ_pos _, fun b => hsettled s a b hstep⟩
    | some t =>
      rw [feed_cons_of_eq_some hstep]
      obtain h | ⟨hlt, h⟩ := ih t
      · exact .inl (congrArg (· + 1) h)
      · exact .inr ⟨Nat.succ_lt_succ hlt, h⟩

theorem feed_append_of_all (h : (feed step s as).2 = as.length) (bs : List α) :
    feed step s (as ++ bs) = ((feed step (feed step s as).1 bs).1,
      as.length + (feed step (feed step s as).1 bs).2) := by
  induction as generalizing s with
  | nil => simp [feed]
  | cons a as ih =>
    cases hstep : step s a with
    | none =>
      rw [feed, hstep] at h
      cases h
    | some t =>
      rw [feed_cons_of_eq_some hstep] at h
      rw [List.cons_append, feed_cons_of_eq_some hstep, feed_cons_of_eq_some hstep,
        ih (Nat.succ.inj h), List.length_cons]
      exact Prod.ext rfl (by simp only; omega)

theorem feed_append_of_lt (h : (feed step s as).2 < as.length) (bs : List α) :
    feed step s (as ++ bs) = feed step s as := by
  induction as generalizing s with
  | nil => cases h
  | cons a as ih =>
    cases hstep : step s a with
    | none => rw [List.cons_append, feed, hstep, feed, hstep]
    | some t =>
      rw [feed_cons_of_eq_some hstep] at h
      rw [List.cons_append, feed_cons_of_eq_some hstep, feed_cons_of_eq_some hstep,
        ih (Nat.lt_of_succ_lt_succ h)]

theorem feed_all_of_append (hsettled : Settled step)
    (h : (feed step s (as ++ bs)).2 = (as ++ bs).length) : (feed step s as).2 = as.length := by
  obtain hall | ⟨hlt, -⟩ := feed_all_or_refused hsettled s as
  · exact hall
  · rw [feed_append_of_lt hlt, List.length_append] at h
    omega

/-- Elements that are only kept are all taken. -/
theorem feed_of_kept (put : List α → σ)
    (h : ∀ a ∈ as, ∀ l, step (put l) a = some (put (l ++ [a]))) (l : List α) :
    feed step (put l) as = (put (l ++ as), as.length) := by
  induction as generalizing l with
  | nil => rw [List.append_nil, feed, List.length_nil]
  | cons a as ih =>
    rw [feed_cons_of_eq_some (h a List.mem_cons_self l),
      ih (fun b hb => h b (List.mem_cons_of_mem a hb)), List.append_assoc, List.singleton_append,
      List.length_cons]

theorem feed_invariant {I : σ → Prop} (hstep : ∀ s a t, I s → step s a = some t → I t) (hs : I s)
    (as : List α) : I (feed step s as).1 := by
  induction as generalizing s with
  | nil => exact hs
  | cons a as ih =>
    cases h : step s a with
    | none =>
      rw [feed, h]
      exact hs
    | some t =>
      rw [feed_cons_of_eq_some h]
      exact ih (hstep s a t hs h)

section Arrive

variable {I : σ → Prop} {consume : σ → List α → σ × ℕ}

theorem arrive_of_refused (hconsume : ∀ as, consume s as = (s, 0)) (left : List α)
    (pieces : List (List α)) : arrive consume s left pieces = (s, 0) := by
  induction pieces generalizing left with
  | nil => rfl
  | cons p ps ih => simp only [arrive, hconsume, ih]

theorem arrive_eq_feed (hsettled : Settled step)
    (hstep : ∀ s a t, I s → step s a = some t → I t)
    (hconsume : ∀ s as, I s → consume s as = feed step s as) (hs : I s)
    (pieces : List (List α)) : arrive consume s [] pieces = feed step s pieces.flatten := by
  induction pieces generalizing s with
  | nil => rfl
  | cons p ps ih =>
    have ht := feed_invariant hstep hs p
    rw [arrive, List.nil_append, hconsume s p hs, List.flatten_cons]
    obtain hall | ⟨hlt, hrefused⟩ := feed_all_or_refused hsettled s p
    · rw [feed_append_of_all hall]
      simp only [hall, List.drop_length, ih ht]
    · rw [feed_append_of_lt hlt]
      have hnone (as : List α) : consume (feed step s p).1 as = ((feed step s p).1, 0) :=
        (hconsume _ as ht).trans (feed_of_refused hrefused as)
      simp only [arrive_of_refused hnone, Nat.add_zero]

end Arrive

end PersonalCloud.Lib
