import Mathlib.Data.List.Basic
import Mathlib.Logic.Function.Basic
import Mathlib.Tactic.SplitIfs

/-!
# Windows on a ring of slots

Indices of a ring with `N` slots count modulo `N`. A reader of the ring is an index, and what
it can read is the list that the slots from there on hold.

## Main definitions

* `Ring.dist` — the number of steps from one index to another.
* `Ring.Holds` — the slots from an index on hold a list that is shorter than the ring.
* `Ring.contents` — what a reader finds in the next slots.
-/

namespace PersonalCloud.Lib.Ring

variable {α : Type*} {N a b i n : Nat} {slots : Nat → Option α} {xs : List α} {x : α}

/-! ## Indices -/

/-- How many steps lead from `a` to `b`. -/
def dist (N a b : Nat) : Nat := (b + N - a) % N

theorem wrap_eq (ha : a < N) (hi : i < N) :
    (a + i) % N = if a + i < N then a + i else a + i - N := by
  split_ifs with h
  · exact Nat.mod_eq_of_lt h
  · rw [Nat.mod_eq_sub_mod (by omega), Nat.mod_eq_of_lt (by omega)]

theorem wrap_lt (a i : Nat) (hN : 0 < N) : (a + i) % N < N := Nat.mod_lt _ hN

theorem dist_eq (ha : a < N) (hb : b < N) :
    dist N a b = if a ≤ b then b - a else b + N - a := by
  rw [dist]
  split_ifs with h
  · rw [Nat.mod_eq_sub_mod (by omega), Nat.mod_eq_of_lt (by omega)]
    omega
  · exact Nat.mod_eq_of_lt (by omega)

theorem dist_lt (a b : Nat) (hN : 0 < N) : dist N a b < N := Nat.mod_lt _ hN

theorem dist_wrap (ha : a < N) (hi : i < N) : dist N a ((a + i) % N) = i := by
  rw [dist_eq ha (wrap_lt a i (by omega)), wrap_eq ha hi]
  split_ifs <;> omega

theorem wrap_dist (ha : a < N) (hb : b < N) : (a + dist N a b) % N = b := by
  rw [wrap_eq ha (dist_lt a b (by omega)), dist_eq ha hb]
  split_ifs <;> omega

theorem dist_self (ha : a < N) : dist N a a = 0 := by
  rw [dist_eq ha ha]
  simp

theorem dist_eq_zero (ha : a < N) (hb : b < N) : dist N a b = 0 ↔ a = b := by
  rw [dist_eq ha hb]
  split_ifs <;> omega

theorem dist_left_inj (ha : a < N) (hb : b < N) {c : Nat} (hc : c < N) :
    dist N a c = dist N b c ↔ a = b := by
  rw [dist_eq ha hc, dist_eq hb hc]
  split_ifs <;> omega

/-- Going on from `a`, one meets `c` before `b` if `b` is the one further behind `c`. -/
theorem dist_le_of_lt (ha : a < N) (hb : b < N) {c : Nat} (hc : c < N)
    (h : dist N a c < dist N b c) : dist N a c ≤ dist N a b := by
  rw [dist_eq ha hc, dist_eq hb hc] at h
  rw [dist_eq ha hc, dist_eq ha hb]
  split_ifs at h ⊢ <;> omega

theorem dist_next (ha : a < N) (hb : b < N) (h : dist N a b + 1 < N) :
    dist N a ((b + 1) % N) = dist N a b + 1 := by
  have hN : 1 < N := by omega
  rw [dist_eq ha (wrap_lt b 1 (by omega)), wrap_eq hb hN]
  rw [dist_eq ha hb] at h ⊢
  split_ifs at h ⊢ <;> omega

theorem next_dist (ha : a < N) (hb : b < N) (h : 0 < dist N a b) :
    dist N ((a + 1) % N) b = dist N a b - 1 := by
  have hN : 1 < N := by
    have := dist_lt a b (N := N) (by omega)
    omega
  rw [dist_eq (wrap_lt a 1 (by omega)) hb, wrap_eq ha hN]
  rw [dist_eq ha hb] at h ⊢
  split_ifs at h ⊢ <;> omega

/-- One index is the successor of another exactly when it is `N - 1` steps before it. -/
theorem dist_eq_pred (ha : a < N) (hb : b < N) : dist N a b = N - 1 ↔ a = (b + 1) % N := by
  rcases Nat.lt_or_ge 1 N with hN | hN
  · rw [dist_eq ha hb, wrap_eq hb hN]
    split_ifs <;> omega
  · obtain rfl : N = 1 := by omega
    obtain rfl : a = 0 := by omega
    obtain rfl : b = 0 := by omega
    simp [dist]

/-! ## Windows -/

/-- The slots from `a` on hold the list `xs`. -/
structure Holds (N : Nat) (slots : Nat → Option α) (a : Nat) (xs : List α) : Prop where
  fits : xs.length < N
  slot : ∀ i (hi : i < xs.length), slots ((a + i) % N) = some xs[i]

theorem Holds.nil (hN : 0 < N) : Holds N slots a [] where
  fits := hN
  slot i hi := absurd hi (by simp)

theorem Holds.head (h : Holds N slots a (x :: xs)) (ha : a < N) : slots a = some x := by
  have := h.slot 0 (by simp)
  rwa [Nat.add_zero, Nat.mod_eq_of_lt ha] at this

theorem Holds.tail (h : Holds N slots a (x :: xs)) : Holds N slots ((a + 1) % N) xs where
  fits := by
    have := h.fits
    simp only [List.length_cons] at this
    omega
  slot i hi := by
    have := h.slot (i + 1) (by simpa using hi)
    rw [Nat.mod_add_mod, Nat.add_assoc, Nat.add_comm 1 i]
    simpa using this

/-- A slot outside the window may change. -/
theorem Holds.update (h : Holds N slots a xs) (ha : a < N) (hb : b < N)
    (hout : xs.length ≤ dist N a b) (v : Option α) :
    Holds N (Function.update slots b v) a xs where
  fits := h.fits
  slot i hi := by
    have hne : (a + i) % N ≠ b := by
      rintro rfl
      have := h.fits
      rw [dist_wrap ha (by omega)] at hout
      omega
    rw [Function.update_of_ne hne]
    exact h.slot i hi

/-- Writing the slot behind the window makes it longer. -/
theorem Holds.append (h : Holds N slots a xs) (ha : a < N) (hb : b < N)
    (hlen : dist N a b = xs.length) (hfits : xs.length + 1 < N) :
    Holds N (Function.update slots b (some x)) a (xs ++ [x]) where
  fits := by simpa using hfits
  slot i hi := by
    rcases Nat.lt_or_ge i xs.length with hlt | hge
    · rw [(h.update ha hb (by omega) (some x)).slot i hlt, List.getElem_append_left hlt]
    · have hi' : i = xs.length := by
        simp only [List.length_append, List.length_singleton] at hi
        omega
      subst hi'
      have hslot : (a + xs.length) % N = b := hlen ▸ wrap_dist ha hb
      rw [hslot, Function.update_self]
      simp

/-- What a reader at `a` finds in the next `n` slots. -/
def contents (N : Nat) (slots : Nat → Option α) (a n : Nat) : List (Option α) :=
  (List.range n).map fun i => slots ((a + i) % N)

@[simp] theorem length_contents (N : Nat) (slots : Nat → Option α) (a n : Nat) :
    (contents N slots a n).length = n := by
  simp [contents]

theorem Holds.contents_eq (h : Holds N slots a xs) :
    contents N slots a xs.length = xs.map some := by
  refine List.ext_getElem (by simp) fun i hi _ => ?_
  have hi' : i < xs.length := by simpa using hi
  simp [contents, h.slot i hi']

end PersonalCloud.Lib.Ring
