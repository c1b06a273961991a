import Mathlib.Algebra.BigOperators.Group.List.Basic
import Mathlib.Algebra.Order.BigOperators.Group.List
import Mathlib.Algebra.Order.Ring.Nat
import Mathlib.Logic.Relation
import Mathlib.Tactic.Ring

/-!
# Work lists

A loop takes an item off the front of a queue, works on it, and pushes further items to the
end. What is pushed depends on the item only, so the items are visited in an order of their
own (`visits`), whatever is done at each of them.

## Main results

* `drain_eq_foldl` — with enough fuel the loop does its work at the items of `visits`.
* `mem_visits` — these are the items that can be reached from those in the queue.
* `Forest.nodup_visits`, `Forest.pairwise_visits` — in a forest each is visited once, and
  nothing pushes an item that was visited before it.
-/

namespace PersonalCloud.Lib.Worklist

variable {σ α : Type*}

/-- Run the loop until the queue is empty. `none` says that the fuel ran out, or that a step
failed. -/
def drain (step : σ → α → Option (σ × List α)) : ℕ → σ → List α → Option σ
  | _, s, [] => some s
  | 0, _, _ :: _ => none
  | fuel + 1, s, x :: queue =>
    (step s x).bind fun t => drain step fuel t.1 (queue ++ t.2)

/-- The items in the order in which they are taken. -/
def visits (next : α → List α) : ℕ → List α → List α
  | _, [] => []
  | 0, _ :: _ => []
  | fuel + 1, x :: queue => x :: visits next fuel (queue ++ next x)

/-- Pushing keeps the queue's weight below what it was. -/
def Decreasing (next : α → List α) (weight : α → ℕ) : Prop :=
  ∀ x, ((next x).map weight).sum < weight x

variable {next : α → List α} {weight : α → ℕ} {queue : List α} {fuel : ℕ}

theorem Decreasing.tail {x : α} (h : Decreasing next weight)
    (hfuel : ((x :: queue).map weight).sum ≤ fuel + 1) :
    ((queue ++ next x).map weight).sum ≤ fuel := by
  have := h x
  simp only [List.map_cons, List.sum_cons, List.map_append, List.sum_append] at hfuel ⊢
  omega

theorem Decreasing.pos (h : Decreasing next weight) {x : α}
    (hfuel : ((x :: queue).map weight).sum ≤ 0) : False := by
  have := h x
  simp only [List.map_cons, List.sum_cons] at hfuel
  omega

/-- If a step does `visit` and pushes `next`, the loop does `visit` at every item. -/
theorem drain_eq_foldl {step : σ → α → Option (σ × List α)} {visit : σ → α → σ}
    (hstep : ∀ s x, step s x = some (visit s x, next x)) (h : Decreasing next weight)
    (hfuel : (queue.map weight).sum ≤ fuel) (s : σ) :
    drain step fuel s queue = some ((visits next fuel queue).foldl visit s) := by
  induction fuel generalizing s queue with
  | zero =>
    cases queue with
    | nil => rfl
    | cons x queue => exact (h.pos hfuel).elim
  | succ fuel ih =>
    cases queue with
    | nil => rfl
    | cons x queue =>
      rw [drain, hstep, Option.bind_some, ih (h.tail hfuel), visits, List.foldl_cons]

theorem mem_visits (h : Decreasing next weight) (hfuel : (queue.map weight).sum ≤ fuel) {x : α} :
    x ∈ visits next fuel queue ↔
      ∃ y ∈ queue, Relation.ReflTransGen (fun a b => b ∈ next a) y x := by
  induction fuel generalizing queue with
  | zero =>
    cases queue with
    | nil => simp [visits]
    | cons y queue => exact (h.pos hfuel).elim
  | succ fuel ih =>
    cases queue with
    | nil => simp [visits]
    | cons y queue =>
      rw [visits, List.mem_cons, ih (h.tail hfuel)]
      constructor
      · rintro (rfl | ⟨z, hz, hzx⟩)
        · exact ⟨x, List.mem_cons_self, .refl⟩
        · rcases List.mem_append.1 hz with hz | hz
          · exact ⟨z, List.mem_cons_of_mem _ hz, hzx⟩
          · exact ⟨y, List.mem_cons_self, .head hz hzx⟩
      · rintro ⟨z, hz, hzx⟩
        rcases List.mem_cons.1 hz with rfl | hz
        · rcases hzx.cases_head with rfl | ⟨w, hw, hwx⟩
          · exact .inl rfl
          · exact .inr ⟨w, List.mem_append_right _ hw, hwx⟩
        · exact .inr ⟨z, List.mem_append_left _ hz, hzx⟩

/-! ## Forests -/

/-- `x` is reached from the queue. -/
def Reaches (next : α → List α) (queue : List α) (x : α) : Prop :=
  ∃ y ∈ queue, Relation.ReflTransGen (fun a b => b ∈ next a) y x

/-- No item is pushed twice, and none that is in the queue. -/
structure Forest (next : α → List α) (queue : List α) : Prop where
  nodup : queue.Nodup
  nodup_next : ∀ a, (next a).Nodup
  top : ∀ x ∈ queue, ∀ y, Reaches next queue y → x ∉ next y
  parent : ∀ a b z, Reaches next queue a → Reaches next queue b → z ∈ next a → z ∈ next b → a = b

theorem Reaches.of_tail {x y : α} (h : Reaches next (queue ++ next x) y) :
    Reaches next (x :: queue) y := by
  obtain ⟨z, hz, hzy⟩ := h
  rcases List.mem_append.1 hz with hz | hz
  · exact ⟨z, List.mem_cons_of_mem _ hz, hzy⟩
  · exact ⟨x, List.mem_cons_self, .head hz hzy⟩

theorem Decreasing.lt (h : Decreasing next weight) {a b : α} (hb : b ∈ next a) :
    weight b < weight a :=
  (List.single_le_sum (by simp) _ (List.mem_map_of_mem hb)).trans_lt (h a)

theorem Decreasing.le (h : Decreasing next weight) {a b : α}
    (hab : Relation.ReflTransGen (fun a b => b ∈ next a) a b) : weight b ≤ weight a := by
  induction hab with
  | refl => exact le_rfl
  | tail _ hstep ih => exact (h.lt hstep).le.trans ih

/-- What was taken off the queue does not come back. -/
theorem Forest.not_reaches (hw : Decreasing next weight) {x : α}
    (h : Forest next (x :: queue)) : ¬ Reaches next (queue ++ next x) x := by
  rintro ⟨y, hy, hyx⟩
  rcases List.mem_append.1 hy with hy | hy
  · rcases hyx.cases_tail with rfl | ⟨w, hyw, hw⟩
    · exact (List.nodup_cons.1 h.nodup).1 hy
    · exact h.top x List.mem_cons_self w ⟨y, List.mem_cons_of_mem _ hy, hyw⟩ hw
  · exact absurd (hw.le hyx) (hw.lt hy).not_ge

theorem Forest.tail (hw : Decreasing next weight) {x : α} (h : Forest next (x :: queue)) :
    Forest next (queue ++ next x) where
  nodup := by
    refine List.nodup_append.2 ⟨(List.nodup_cons.1 h.nodup).2, h.nodup_next x, ?_⟩
    rintro z hz _ hzx rfl
    exact h.top z (List.mem_cons_of_mem _ hz) x ⟨x, List.mem_cons_self, .refl⟩ hzx
  nodup_next := h.nodup_next
  top := by
    intro z hz y hy hzy
    rcases List.mem_append.1 hz with hz | hz
    · exact h.top z (List.mem_cons_of_mem _ hz) y hy.of_tail hzy
    · have hyx : y = x := h.parent y x z hy.of_tail ⟨x, List.mem_cons_self, .refl⟩ hzy hz
      exact h.not_reaches hw (hyx ▸ hy)
  parent := fun a b z ha hb => h.parent a b z ha.of_tail hb.of_tail

theorem reaches_of_mem_visits {x : α} (h : x ∈ visits next fuel queue) : Reaches next queue x := by
  induction fuel generalizing queue with
  | zero => cases queue <;> simp [visits] at h
  | succ fuel ih =>
    cases queue with
    | nil => simp [visits] at h
    | cons y queue =>
      rcases List.mem_cons.1 h with rfl | h
      · exact ⟨x, List.mem_cons_self, .refl⟩
      · exact (ih h).of_tail

theorem Forest.nodup_visits (hw : Decreasing next weight) (h : Forest next queue) :
    (visits next fuel queue).Nodup := by
  induction fuel generalizing queue with
  | zero => cases queue <;> simp [visits]
  | succ fuel ih =>
    cases queue with
    | nil => simp [visits]
    | cons x queue =>
      refine List.nodup_cons.2 ⟨fun hx => ?_, ih (h.tail hw)⟩
      exact h.not_reaches hw (reaches_of_mem_visits hx)

/-- An item is visited after the one that pushed it. -/
theorem Forest.pairwise_visits (h : Forest next queue) (hw : Decreasing next weight) :
    (visits next fuel queue).Pairwise fun a b => a ∉ next b := by
  induction fuel generalizing queue with
  | zero => cases queue <;> simp [visits]
  | succ fuel ih =>
    cases queue with
    | nil => simp [visits]
    | cons x queue =>
      refine List.pairwise_cons.2 ⟨fun b hb => ?_, ih (h.tail hw)⟩
      exact h.top x List.mem_cons_self b (reaches_of_mem_visits hb).of_tail

end PersonalCloud.Lib.Worklist
