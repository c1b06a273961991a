import Mathlib.Data.List.Infix
import Mathlib.Order.Basic

/-!
# Wildcard patterns

A pattern is a list of items. An item takes one letter of some kind, or any sequence of letters.

## Main results

* `accepts_append_iff` — a pattern in two parts accepts the sequences in two accepted parts.
* `accepts_self` — a sequence matches itself if every letter is taken by its item.
* `count_le_of_accepts` — a letter that only stands for itself occurs in what is accepted at
  least as often as in the pattern.
-/

namespace PersonalCloud.Lib.Wildcard

inductive Item (α : Type*) where
  | one (p : α → Bool)
  | many

variable {α : Type*}

/-- An item may stand for a letter. -/
def Item.Takes : Item α → α → Prop
  | .one p, a => p a
  | .many, _ => True

def accepts : List (Item α) → List α → Bool
  | [], s => s.isEmpty
  | .one _ :: _, [] => false
  | .one p :: ps, a :: s => p a && accepts ps s
  | .many :: ps, s => s.tails.any (accepts ps)

variable {ps qs : List (Item α)} {p : α → Bool} {s t : List α} {a : α}

@[simp] theorem accepts_nil : accepts [] s ↔ s = [] := by
  simp [accepts]

theorem accepts_one : accepts (.one p :: ps) s ↔ ∃ a t, s = a :: t ∧ p a ∧ accepts ps t := by
  cases s <;> simp [accepts]

theorem accepts_many : accepts (.many :: ps) s ↔ ∃ t, t <:+ s ∧ accepts ps t := by
  simp [accepts, List.mem_tails]

theorem accepts_append_iff :
    accepts (ps ++ qs) s ↔ ∃ a b, s = a ++ b ∧ accepts ps a ∧ accepts qs b := by
  induction ps generalizing s with
  | nil => simp
  | cons i ps ih =>
    cases i with
    | one p =>
      simp only [List.cons_append, accepts_one, ih]
      constructor
      · rintro ⟨x, t, rfl, hp, a, b, rfl, ha, hb⟩
        exact ⟨x :: a, b, rfl, ⟨x, a, rfl, hp, ha⟩, hb⟩
      · rintro ⟨_, b, rfl, ⟨x, a, rfl, hp, ha⟩, hb⟩
        exact ⟨x, a ++ b, rfl, hp, a, b, rfl, ha, hb⟩
    | many =>
      simp only [List.cons_append, accepts_many, ih]
      constructor
      · rintro ⟨_, ⟨u, rfl⟩, a, b, rfl, ha, hb⟩
        exact ⟨u ++ a, b, (List.append_assoc _ _ _).symm, ⟨a, ⟨u, rfl⟩, ha⟩, hb⟩
      · rintro ⟨_, b, rfl, ⟨a, ⟨u, rfl⟩, ha⟩, hb⟩
        exact ⟨a ++ b, ⟨u, (List.append_assoc _ _ _).symm⟩, a, b, rfl, ha, hb⟩

theorem accepts_many_nil : accepts [.many] s :=
  accepts_many.2 ⟨[], List.nil_suffix, rfl⟩

theorem accepts_self {item : α → Item α} (h : ∀ a ∈ s, (item a).Takes a) :
    accepts (s.map item) s := by
  induction s with
  | nil => rfl
  | cons a s ih =>
    obtain ⟨ha, hs⟩ := List.forall_mem_cons.1 h
    rw [List.map_cons]
    cases hi : item a with
    | one p =>
      rw [hi] at ha
      exact accepts_one.2 ⟨a, s, rfl, ha, ih hs⟩
    | many => exact accepts_many.2 ⟨s, List.suffix_cons a s, ih hs⟩

theorem count_le_of_accepts [DecidableEq α] {item : α → Item α} (ha : item a = .one p)
    (hp : ∀ b, p b → b = a) (h : accepts (s.map item) t) : s.count a ≤ t.count a := by
  induction s generalizing t with
  | nil => exact Nat.zero_le _
  | cons x s ih =>
    rw [List.map_cons] at h
    by_cases hx : x = a
    · rw [hx, ha, accepts_one] at h
      obtain ⟨b, t, rfl, hb, h⟩ := h
      rw [hx, hp b hb, List.count_cons_self, List.count_cons_self]
      exact Nat.succ_le_succ (ih h)
    · rw [List.count_cons_of_ne hx]
      cases hi : item x with
      | one q =>
        rw [hi, accepts_one] at h
        obtain ⟨b, t, rfl, -, h⟩ := h
        exact Nat.le_trans (ih h) List.count_le_count_cons
      | many =>
        rw [hi, accepts_many] at h
        obtain ⟨u, hu, h⟩ := h
        exact Nat.le_trans (ih h) (hu.sublist.count_le a)

end PersonalCloud.Lib.Wildcard
