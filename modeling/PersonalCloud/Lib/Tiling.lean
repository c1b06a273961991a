import Mathlib.Data.List.Basic
import Mathlib.Algebra.BigOperators.Group.List.Basic
import Mathlib.Tactic.Ring

/-!
# Pieces of a numbered stream

`Tiles start len a xs b` says that the items of `xs`, each with a start and a length, cover
the range from `a` to `b` one after the other. `At w s q bs` says that the stream `w`, whose
first element is numbered `s`, continues with `bs` from number `q` on. Both are kept small:
what a protocol that cuts a stream into pieces and puts it together again needs.
-/

namespace PersonalCloud.Lib

/-! ## Tilings -/

section Tiles

variable {α : Type*}

def Tiles (start len : α → Nat) : Nat → List α → Nat → Prop
  | a, [], b => a = b
  | a, x :: xs, b => start x = a ∧ Tiles start len (a + len x) xs b

variable {start len : α → Nat} {a b c : Nat} {x : α} {xs ys : List α}

theorem tiles_append :
    Tiles start len a (xs ++ ys) b ↔ ∃ c, Tiles start len a xs c ∧ Tiles start len c ys b := by
  induction xs generalizing a with
  | nil => simp [Tiles]
  | cons x xs ih =>
    simp only [List.cons_append, Tiles, ih]
    constructor
    · rintro ⟨h, c, h₁, h₂⟩
      exact ⟨c, ⟨h, h₁⟩, h₂⟩
    · rintro ⟨c, ⟨h, h₁⟩, h₂⟩
      exact ⟨h, c, h₁, h₂⟩

theorem tiles_concat :
    Tiles start len a (xs ++ [x]) b ↔ Tiles start len a xs (start x) ∧ start x + len x = b := by
  rw [tiles_append]
  constructor
  · rintro ⟨c, h, rfl, rfl⟩
    exact ⟨h, rfl⟩
  · rintro ⟨h, rfl⟩
    exact ⟨_, h, rfl, rfl⟩

theorem tiles_map {β : Type*} {f : β → α} {xs : List β} :
    Tiles start len a (xs.map f) b ↔ Tiles (start ∘ f) (len ∘ f) a xs b := by
  induction xs generalizing a with
  | nil => rfl
  | cons x xs ih => exact and_congr_right' ih

/-- The lengths add up to the length of the range. -/
theorem Tiles.add_sum (h : Tiles start len a xs b) : a + (xs.map len).sum = b := by
  induction xs generalizing a with
  | nil => simpa [Tiles] using h
  | cons x xs ih =>
    have := ih h.2
    simp only [List.map_cons, List.sum_cons]
    omega

theorem Tiles.le (h : Tiles start len a xs b) : a ≤ b := by
  have := h.add_sum
  omega

theorem Tiles.mem (h : Tiles start len a xs b) (hx : x ∈ xs) :
    a ≤ start x ∧ start x + len x ≤ b := by
  induction xs generalizing a with
  | nil => cases hx
  | cons y xs ih =>
    rcases List.mem_cons.1 hx with rfl | hx
    · obtain ⟨rfl, h⟩ := h
      exact ⟨Nat.le_refl _, h.le⟩
    · have := ih h.2 hx
      omega

/-- Where an item ends the range ends or the next item begins. -/
theorem Tiles.follow (h : Tiles start len a xs b) (hx : x ∈ xs) :
    start x + len x = b ∨ ∃ y ∈ xs, start y = start x + len x := by
  induction xs generalizing a with
  | nil => cases hx
  | cons y xs ih =>
    obtain ⟨rfl, h⟩ := h
    rcases List.mem_cons.1 hx with rfl | hx
    · cases xs with
      | nil => exact .inl h
      | cons z xs => exact .inr ⟨z, by simp, h.1⟩
    · exact (ih h hx).imp_right fun ⟨z, hz, he⟩ => ⟨z, List.mem_cons_of_mem _ hz, he⟩

/-- Two items are the same, or one begins where the other has ended. -/
theorem Tiles.eq_or_apart {y : α} (h : Tiles start len a xs b) (hx : x ∈ xs) (hy : y ∈ xs) :
    x = y ∨ start x + len x ≤ start y ∨ start y + len y ≤ start x := by
  induction xs generalizing a with
  | nil => cases hx
  | cons z xs ih =>
    obtain ⟨rfl, h⟩ := h
    rcases List.mem_cons.1 hx with rfl | hxs <;> rcases List.mem_cons.1 hy with rfl | hys
    · exact .inl rfl
    · exact .inr (.inl (h.mem hys).1)
    · exact .inr (.inr (h.mem hxs).1)
    · exact ih h hxs hys

/-- A tiling that is not empty ends where one of its items ends. -/
theorem Tiles.exists_end (h : Tiles start len a xs b) (hxs : xs ≠ []) :
    ∃ x ∈ xs, start x + len x = b := by
  obtain ⟨ys, x, rfl⟩ := List.eq_nil_or_concat'  xs |>.resolve_left hxs
  exact ⟨x, by simp, (tiles_concat.1 h).2⟩

theorem Tiles.congr {len' : α → Nat} (h : Tiles start len a xs b)
    (hlen : ∀ x ∈ xs, len x = len' x) : Tiles start len' a xs b := by
  induction xs generalizing a with
  | nil => exact h
  | cons x xs ih =>
    refine ⟨h.1, hlen x (by simp) ▸ ih h.2 fun y hy => ?_⟩
    exact hlen y (List.mem_cons_of_mem _ hy)

/-- Cutting off the leading items that end at `l` or before. What is left begins with an
item that ends beyond `l`, if it is not empty. -/
theorem Tiles.takeWhile {p : α → Bool} {l : Nat} (h : Tiles start len a xs b)
    (hp : ∀ x ∈ xs, p x = decide (l ≥ start x + len x)) :
    ∃ c, Tiles start len a (xs.takeWhile p) c ∧ Tiles start len c (xs.dropWhile p) b ∧
      (c = a ∨ c ≤ l) ∧ (c = b ∨ ∃ x ∈ xs, start x = c ∧ l < start x + len x) := by
  induction xs generalizing a with
  | nil => exact ⟨a, rfl, h, .inl rfl, .inl h⟩
  | cons x xs ih =>
    obtain ⟨rfl, h⟩ := h
    have hx := hp x (by simp)
    by_cases hl : l ≥ start x + len x
    · obtain ⟨c, h₁, h₂, hc, hfront⟩ := ih h fun y hy => hp y (List.mem_cons_of_mem _ hy)
      rw [List.takeWhile_cons_of_pos (by simpa [hx] using hl),
        List.dropWhile_cons_of_pos (by simpa [hx] using hl)]
      refine ⟨c, ⟨rfl, h₁⟩, h₂, by omega, hfront.imp_right ?_⟩
      rintro ⟨y, hy, hfront⟩
      exact ⟨y, List.mem_cons_of_mem _ hy, hfront⟩
    · rw [List.takeWhile_cons_of_neg (by simpa [hx] using hl),
        List.dropWhile_cons_of_neg (by simpa [hx] using hl)]
      exact ⟨_, rfl, ⟨rfl, h⟩, .inl rfl, .inr ⟨x, by simp, rfl, by omega⟩⟩

/-- Items of a range that do not overlap are no longer than the range together. -/
theorem sum_len_le_of_apart (hapart : xs.Pairwise fun x y => start x + len x ≤ start y)
    (hstart : ∀ x ∈ xs, a ≤ start x) (hend : ∀ x ∈ xs, start x + len x ≤ b) (hab : a ≤ b) :
    a + (xs.map len).sum ≤ b := by
  induction xs generalizing a with
  | nil => simpa using hab
  | cons x xs ih =>
    rw [List.pairwise_cons] at hapart
    have hx := hstart x (by simp)
    have := ih hapart.2 hapart.1 (fun y hy => hend y (List.mem_cons_of_mem _ hy))
      (hend x (by simp))
    simp only [List.map_cons, List.sum_cons]
    omega

end Tiles

/-! ## Positions in a stream -/

section At

variable {β : Type*}

def At (w : List β) (s q : Nat) (bs : List β) : Prop :=
  s ≤ q ∧ bs <+: w.drop (q - s)

variable {w v bs cs : List β} {s q : Nat}

theorem At.prefix_stream (h : At w s s bs) : bs <+: w := by
  simpa [At] using h

theorem At.length_le (h : At w s q bs) : bs = [] ∨ q + bs.length ≤ s + w.length := by
  have hl := h.2.length_le
  rw [List.length_drop] at hl
  by_cases hbs : bs = []
  · exact .inl hbs
  · have := List.length_pos_of_ne_nil hbs
    have := h.1
    exact .inr (by omega)

/-- A longer stream has the same pieces. -/
theorem At.extend (h : At w s q bs) (v : List β) : At (w ++ v) s q bs := by
  refine ⟨h.1, h.2.trans ?_⟩
  rw [List.drop_append]
  exact List.prefix_append ..

theorem at_end (w v : List β) (s : Nat) : At (w ++ v) s (s + w.length) v := by
  simp [At]

theorem At.take (h : At w s q bs) (n : Nat) : At w s q (bs.take n) :=
  ⟨h.1, (List.take_prefix n bs).trans h.2⟩

theorem At.drop (h : At w s q bs) (n : Nat) : At w s (q + n) (bs.drop n) := by
  refine ⟨by have := h.1; omega, ?_⟩
  have hd : w.drop (q + n - s) = (w.drop (q - s)).drop n := by
    rw [List.drop_drop]
    congr 1
    have := h.1
    omega
  rw [hd]
  obtain ⟨t, ht⟩ := h.2
  rw [← ht, List.drop_append]
  exact List.prefix_append ..

theorem At.append (h : At w s q bs) (h' : At w s (q + bs.length) cs) : At w s q (bs ++ cs) := by
  refine ⟨h.1, ?_⟩
  obtain ⟨t, ht⟩ := h.2
  have hd : w.drop (q + bs.length - s) = t := by
    have : q + bs.length - s = q - s + bs.length := by
      have := h.1
      omega
    rw [this, ← List.drop_drop, ← ht, List.drop_left]
  rw [← ht]
  exact (List.prefix_append_right_inj bs).2 (hd ▸ h'.2)

end At

end PersonalCloud.Lib
