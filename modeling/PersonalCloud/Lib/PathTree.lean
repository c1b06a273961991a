import Mathlib.Data.List.Infix
import Mathlib.Logic.Function.Basic

/-!
# Trees by their paths

A tree is the map from the paths that are there to their entries.

## Main definitions

* `PathTree.Rooted` — what stands above a path is there, and may have something below it.
* `PathTree.sub`, `PathTree.prune`, `PathTree.graft` — a subtree, what is left without it, and a
  tree put in its place.

## Main results

* `Rooted.prune`, `Rooted.sub`, `Rooted.graft` — the operations make trees of trees.
* `sub_graft`, `prune_graft` — what is put at a path is there, and the rest stays.
-/

namespace PersonalCloud.Lib

/-- The entry at each path. -/
abbrev PathTree (σ ε : Type*) := List σ → Option ε

namespace PathTree

variable {σ ε : Type*}

/-- Above a path that is there stands an entry that `holds` others. -/
def Rooted (holds : ε → Prop) (t : PathTree σ ε) : Prop :=
  ∀ p a, t (p ++ [a]) ≠ none → ∃ e, t p = some e ∧ holds e

/-- What is at and below a path. -/
def sub (p : List σ) (t : PathTree σ ε) : PathTree σ ε :=
  fun r => t (p ++ r)

variable [DecidableEq σ]

def prune (p : List σ) (t : PathTree σ ε) : PathTree σ ε :=
  fun q => if p <+: q then none else t q

def graft (p : List σ) (s t : PathTree σ ε) : PathTree σ ε :=
  fun q => if p <+: q then s (q.drop p.length) else t q

/-- A new entry where there is none. -/
def ensure (p : List σ) (e : ε) (t : PathTree σ ε) : PathTree σ ε :=
  if t p = none then Function.update t p (some e) else t

/-- A change of the entry at a path. -/
def modify (p : List σ) (f : ε → ε) (t : PathTree σ ε) : PathTree σ ε :=
  Function.update t p ((t p).map f)

section Operations

variable {holds : ε → Prop} {s t : PathTree σ ε} {p q r : List σ} {e : ε} {f : ε → ε}

@[simp] theorem graft_append : graft p s t (p ++ r) = s r := by
  simp [graft]

theorem graft_of_not_below (h : ¬p <+: q) : graft p s t q = t q :=
  if_neg h

theorem prune_of_not_below (h : ¬p <+: q) : prune p t q = t q :=
  if_neg h

omit [DecidableEq σ] in
/-- Below a path that is not there is nothing. -/
theorem Rooted.eq_none (h : Rooted holds t) (hp : t p = none) (r : List σ) : t (p ++ r) = none := by
  induction r using List.reverseRecOn with
  | nil => rwa [List.append_nil]
  | append_singleton r a ih =>
    by_contra hne
    rw [← List.append_assoc] at hne
    obtain ⟨e, he, -⟩ := h _ a hne
    rw [ih] at he
    cases he

theorem prune_graft (p : List σ) (s t : PathTree σ ε) : prune p (graft p s t) = prune p t := by
  funext q
  by_cases h : p <+: q
  · simp [prune, h]
  · rw [prune_of_not_below h, graft_of_not_below h, prune_of_not_below h]

theorem sub_graft (p : List σ) (s t : PathTree σ ε) : sub p (graft p s t) = s := by
  funext r
  rw [sub, graft_append]

omit [DecidableEq σ] in
theorem Rooted.sub (h : Rooted holds t) (p : List σ) : Rooted holds (sub p t) := by
  intro q a hne
  rw [PathTree.sub, ← List.append_assoc] at hne
  exact h _ a hne

theorem Rooted.prune (h : Rooted holds t) (p : List σ) : Rooted holds (prune p t) := by
  intro q a hne
  have hnot : ¬p <+: q ++ [a] := fun hp => hne (if_pos hp)
  rw [prune_of_not_below hnot] at hne
  rw [prune_of_not_below fun hp => hnot (hp.trans (List.prefix_append _ _))]
  exact h q a hne

/-- A tree can be put where something above may have it below. -/
theorem Rooted.graft (hs : Rooted holds s) (ht : Rooted holds t)
    (habove : ∀ q a, p = q ++ [a] → ∃ e, t q = some e ∧ holds e) :
    Rooted holds (graft p s t) := by
  intro q a hne
  by_cases hq : p <+: q
  · obtain ⟨r, rfl⟩ := hq
    rw [List.append_assoc, graft_append] at hne
    rw [graft_append]
    exact hs r a hne
  · rw [graft_of_not_below hq]
    by_cases hp : p <+: q ++ [a]
    · obtain rfl | h := List.prefix_concat_iff.1 hp
      · exact habove q a rfl
      · exact absurd h hq
    · rw [graft_of_not_below hp] at hne
      exact ht q a hne

theorem ensure_of_ne (h : q ≠ p) : ensure p e t q = t q := by
  unfold ensure
  split_ifs
  · exact Function.update_of_ne h _ _
  · rfl

theorem ensure_self : ensure p e t p = some ((t p).getD e) := by
  unfold ensure
  cases h : t p <;> simp [h]

theorem le_ensure {e' : ε} (h : t q = some e') : ensure p e t q = some e' := by
  by_cases hq : q = p
  · rw [hq, ensure_self, ← hq, h]
    rfl
  · rw [ensure_of_ne hq, h]

theorem Rooted.ensure (ht : Rooted holds t)
    (habove : ∀ q a, p = q ++ [a] → ∃ e, t q = some e ∧ holds e) :
    Rooted holds (ensure p e t) := by
  intro q a hne
  have hparent : ∃ e', t q = some e' ∧ holds e' := by
    by_cases hp : q ++ [a] = p
    · exact habove q a hp.symm
    · rw [ensure_of_ne hp] at hne
      exact ht q a hne
  obtain ⟨e', he', hholds⟩ := hparent
  exact ⟨e', le_ensure he', hholds⟩

theorem Rooted.modify (ht : Rooted holds t) (hf : ∀ e, holds e → holds (f e)) :
    Rooted holds (modify p f t) := by
  intro q a hne
  have hne' : t (q ++ [a]) ≠ none := by
    unfold PathTree.modify at hne
    by_cases hp : q ++ [a] = p
    · subst hp
      simpa using hne
    · rwa [Function.update_of_ne hp] at hne
  obtain ⟨e, he, hholds⟩ := ht q a hne'
  by_cases hq : q = p
  · subst hq
    exact ⟨f e, by simp [PathTree.modify, he], hf e hholds⟩
  · exact ⟨e, by rw [PathTree.modify, Function.update_of_ne hq, he], hholds⟩

end Operations

end PathTree

end PersonalCloud.Lib
