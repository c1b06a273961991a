import Mathlib.Data.List.Infix
import PersonalCloud.Lib.StdString

/-!
# Paths as texts

A path is written with a separator between its parts. The parts of a text are what stands between
the separators, without the empty ones, and a text is canonical if its parts with one separator
between them are the text.

## Main results

* `parts_join`, `Canonical.join_parts` — parts and canonical texts are the same thing.
* `canonical_append_cons` — both sides of a separator are canonical and not empty.
* `Canonical.below_iff` — a text begins with another one and a separator if its parts begin with
  the other's and go on.
* `parts_map`, `canonical_map` — a change of letters that keeps the separators apart.
-/

namespace PersonalCloud.Lib.PathText

variable {α : Type*}

def join (sep : α) (ps : List (List α)) : List α :=
  [sep].intercalate ps

/-- The text may stand between two separators. -/
def IsPart (sep : α) (x : List α) : Prop :=
  x ≠ [] ∧ sep ∉ x

section Join

variable {sep : α} {x : List α} {ps qs : List (List α)}

@[simp] theorem join_nil : join sep [] = [] := rfl

@[simp] theorem join_singleton : join sep [x] = x := by
  simp [join, List.intercalate]

theorem join_cons (x : List α) (hps : ps ≠ []) : join sep (x :: ps) = x ++ sep :: join sep ps := by
  obtain ⟨y, ps, rfl⟩ := List.exists_cons_of_ne_nil hps
  simp [join, List.intercalate]

theorem join_append (hps : ps ≠ []) (hqs : qs ≠ []) :
    join sep (ps ++ qs) = join sep ps ++ sep :: join sep qs := by
  obtain ⟨y, qs, rfl⟩ := List.exists_cons_of_ne_nil hqs
  rw [join, intercalate_append hps, List.append_assoc, List.singleton_append]
  rfl

end Join

variable [DecidableEq α]

/-- What stands between the separators. -/
def parts (sep : α) (s : List α) : List (List α) :=
  (s.splitOn sep).filter (· ≠ [])

def Canonical (sep : α) (s : List α) : Prop :=
  join sep (parts sep s) = s

instance (sep : α) : DecidablePred (Canonical sep) := fun _ => inferInstanceAs (Decidable (_ = _))

variable {sep : α} {a b d s x : List α} {ps qs : List (List α)}

/-! ## Parts -/

@[simp] theorem parts_nil : parts sep [] = [] := rfl

theorem parts_append_cons (a b : List α) :
    parts sep (a ++ sep :: b) = parts sep a ++ parts sep b := by
  rw [parts, List.splitOn_append_cons_self, List.filter_append, parts, parts]

theorem parts_of_isPart (h : IsPart sep x) : parts sep x = [x] := by
  rw [parts, List.splitOn_eq_singleton h.2]
  simp [h.1]

theorem parts_join (h : ∀ x ∈ ps, IsPart sep x) : parts sep (join sep ps) = ps := by
  induction ps with
  | nil => rfl
  | cons x ps ih =>
    obtain ⟨hx, hps⟩ := List.forall_mem_cons.1 h
    obtain rfl | hne := eq_or_ne ps []
    · rw [join_singleton, parts_of_isPart hx]
    · rw [join_cons x hne, parts_append_cons, parts_of_isPart hx, ih hps]
      rfl

/-- What holds without separators and on both sides of one holds. -/
theorem sep_induction (sep : α) {P : List α → Prop} (hnone : ∀ s, sep ∉ s → P s)
    (hsep : ∀ a b, sep ∉ a → P b → P (a ++ sep :: b)) (s : List α) : P s := by
  induction hlen : s.length using Nat.strong_induction_on generalizing s with
  | _ n ih =>
    by_cases hmem : sep ∈ s
    · obtain ⟨a, b, rfl, ha⟩ := List.eq_append_cons_of_mem hmem
      rw [List.length_append, List.length_cons] at hlen
      exact hsep a b ha (ih b.length (by omega) b rfl)
    · exact hnone s hmem

theorem notMem_of_mem_splitOn (h : x ∈ s.splitOn sep) : sep ∉ x := by
  induction s using sep_induction sep with
  | hnone s hs =>
    rw [List.splitOn_eq_singleton hs, List.mem_singleton] at h
    rwa [h]
  | hsep a b ha ih =>
    rw [List.splitOn_append_cons_self_of_not_mem ha, List.mem_cons] at h
    obtain rfl | h := h
    · exact ha
    · exact ih h

theorem isPart_of_mem (h : x ∈ parts sep s) : IsPart sep x := by
  obtain ⟨hx, hne⟩ := List.mem_filter.1 h
  exact ⟨of_decide_eq_true hne, notMem_of_mem_splitOn hx⟩

/-! ## Canonical texts -/

theorem canonical_join (h : ∀ x ∈ ps, IsPart sep x) : Canonical sep (join sep ps) := by
  rw [Canonical, parts_join h]

@[simp] theorem canonical_nil : Canonical sep ([] : List α) := rfl

theorem Canonical.join_parts (h : Canonical sep s) : join sep (parts sep s) = s := h

theorem Canonical.parts_eq_nil_iff (h : Canonical sep s) : parts sep s = [] ↔ s = [] := by
  constructor
  · intro hs
    rw [← h.join_parts, hs, join_nil]
  · rintro rfl
    rfl

theorem canonical_iff : Canonical sep s ↔ s = [] ∨ [] ∉ s.splitOn sep := by
  constructor
  · intro h
    by_cases hs : s = []
    · exact .inl hs
    · refine .inr fun hmem => ?_
      have hparts : parts sep s ≠ [] := fun hp => hs (h.parts_eq_nil_iff.1 hp)
      have hsplit : s.splitOn sep = parts sep s := by
        have := List.splitOn_intercalate sep (fun x hx => (isPart_of_mem hx).2) hparts
        rwa [show [sep].intercalate (parts sep s) = s from h] at this
      rw [hsplit] at hmem
      exact (isPart_of_mem hmem).1 rfl
  · rintro (rfl | h)
    · rfl
    · have hparts : parts sep s = s.splitOn sep := List.filter_eq_self.2 fun x hx =>
        decide_eq_true fun hnil => h (hnil ▸ hx)
      rw [Canonical, hparts]
      exact List.intercalate_splitOn sep

theorem canonical_append_cons : Canonical sep (a ++ sep :: b) ↔
    (a ≠ [] ∧ Canonical sep a) ∧ b ≠ [] ∧ Canonical sep b := by
  have hside : ∀ s : List α, (s ≠ [] ∧ Canonical sep s) ↔ [] ∉ s.splitOn sep := by
    intro s
    rw [canonical_iff]
    by_cases hs : s = []
    · simp [hs]
    · simp [hs]
  rw [hside, hside, canonical_iff, List.splitOn_append_cons_self, List.mem_append]
  simp

theorem canonical_of_isPart (h : IsPart sep x) : Canonical sep x := by
  rw [Canonical, parts_of_isPart h, join_singleton]

/-- A text with no separator at its ends and no two in a row. -/
theorem canonical_of_not_infix (hfirst : s.head? ≠ some sep) (hlast : s.getLast? ≠ some sep)
    (hdouble : ¬[sep, sep] <:+: s) : Canonical sep s := by
  induction s using sep_induction sep with
  | hnone s hs =>
    obtain rfl | hne := eq_or_ne s []
    · exact canonical_nil
    · exact canonical_of_isPart ⟨hne, hs⟩
  | hsep a b ha ih =>
    have hane : a ≠ [] := by
      rintro rfl
      exact hfirst rfl
    have hbne : b ≠ [] := by
      rintro rfl
      exact hlast List.getLast?_concat
    refine canonical_append_cons.2 ⟨⟨hane, canonical_of_isPart ⟨hane, ha⟩⟩, hbne, ih ?_ ?_ ?_⟩
    · intro h
      obtain ⟨t, rfl⟩ := List.head?_eq_some_iff.1 h
      exact hdouble ⟨a, t, by simp⟩
    · rwa [List.getLast?_append_of_ne_nil _ (List.cons_ne_nil _ _),
        List.getLast?_cons_of_ne_nil hbne] at hlast
    · exact fun h => hdouble (h.trans ⟨a ++ [sep], [], by simp⟩)

theorem Canonical.head?_ne (h : Canonical sep s) : s.head? ≠ some sep := by
  intro hs
  obtain ⟨b, rfl⟩ := List.head?_eq_some_iff.1 hs
  rw [← List.nil_append (sep :: b), canonical_append_cons] at h
  exact h.1.1 rfl

theorem Canonical.parts_inj (ha : Canonical sep a) (hb : Canonical sep b) :
    parts sep a = parts sep b ↔ a = b :=
  ⟨fun h => by rw [← ha.join_parts, h, hb.join_parts], fun h => by rw [h]⟩

/-- A separator stands between two canonical texts unless one of them is empty. -/
theorem Canonical.join_parts_append (ha : Canonical sep a) (hb : Canonical sep b) :
    join sep (parts sep a ++ parts sep b) =
      if a ≠ [] ∧ b ≠ [] then a ++ sep :: b else a ++ b := by
  obtain rfl | hane := eq_or_ne a []
  · simp [hb.join_parts]
  obtain rfl | hbne := eq_or_ne b []
  · simp [ha.join_parts]
  rw [if_pos ⟨hane, hbne⟩, join_append (fun h => hane (ha.parts_eq_nil_iff.1 h))
    (fun h => hbne (hb.parts_eq_nil_iff.1 h)), ha.join_parts, hb.join_parts]

/-- What follows a directory's name and a separator is the way from there. -/
theorem Canonical.below_iff (hd : Canonical sep d) (hs : Canonical sep s) (hne : d ≠ []) :
    d ++ [sep] <+: s ↔ ∃ q, q ≠ [] ∧ parts sep s = parts sep d ++ q := by
  constructor
  · rintro ⟨rest, rfl⟩
    rw [List.append_assoc, List.singleton_append] at hs ⊢
    obtain ⟨-, hrest, hrest'⟩ := canonical_append_cons.1 hs
    exact ⟨parts sep rest, fun hq => hrest (hrest'.parts_eq_nil_iff.1 hq), parts_append_cons _ _⟩
  · rintro ⟨q, hq, hparts⟩
    have hdparts : parts sep d ≠ [] := fun h => hne (hd.parts_eq_nil_iff.1 h)
    refine ⟨join sep q, ?_⟩
    rw [← hs.join_parts, hparts, join_append hdparts hq, hd.join_parts]
    simp

/-- A text is below another one or the same if its parts begin with the other's. -/
theorem Canonical.eq_or_below_iff (hd : Canonical sep d) (hs : Canonical sep s) (hne : d ≠ []) :
    s = d ∨ d ++ [sep] <+: s ↔ parts sep d <+: parts sep s := by
  rw [hd.below_iff hs hne, ← hs.parts_inj hd]
  constructor
  · rintro (h | ⟨q, -, h⟩)
    · rw [h]
    · exact ⟨q, h.symm⟩
  · rintro ⟨q, h⟩
    obtain rfl | hq := eq_or_ne q []
    · exact .inl (by rw [← h, List.append_nil])
    · exact .inr ⟨q, hq, h.symm⟩

/-- A text is shorter than what is below it. -/
theorem Canonical.length_lt (hd : Canonical sep d) (hs : Canonical sep s)
    (hinit : parts sep d <+: parts sep s) (hne : d ≠ s) : d.length < s.length := by
  obtain rfl | hnil := eq_or_ne d []
  · exact List.length_pos_iff.2 hne.symm
  · obtain heq | hbelow := (hd.eq_or_below_iff hs hnil).2 hinit
    · exact absurd heq.symm hne
    · exact Nat.lt_of_succ_le (by simpa using hbelow.length_le)

section Map

variable {β : Type*} [DecidableEq β] {sep' : β} {f : α → β}

theorem splitOn_map (hf : ∀ a, f a = sep' ↔ a = sep) (s : List α) :
    (s.map f).splitOn sep' = (s.splitOn sep).map (List.map f) := by
  have hnotMem : ∀ a : List α, sep ∉ a → sep' ∉ a.map f := by
    intro a ha h
    obtain ⟨b, hb, hfb⟩ := List.mem_map.1 h
    exact ha ((hf b).1 hfb ▸ hb)
  induction s using sep_induction sep with
  | hnone s hs =>
    rw [List.splitOn_eq_singleton hs, List.splitOn_eq_singleton (hnotMem s hs),
      List.map_singleton]
  | hsep a b ha ih =>
    rw [List.map_append, List.map_cons, (hf sep).2 rfl,
      List.splitOn_append_cons_self_of_not_mem (hnotMem a ha),
      List.splitOn_append_cons_self_of_not_mem ha, List.map_cons, ih]

theorem parts_map (hf : ∀ a, f a = sep' ↔ a = sep) (s : List α) :
    parts sep' (s.map f) = (parts sep s).map (List.map f) := by
  rw [parts, splitOn_map hf, parts, List.filter_map]
  refine congrArg _ (List.filter_congr fun x _ => ?_)
  simp

theorem canonical_map (hf : ∀ a, f a = sep' ↔ a = sep) :
    Canonical sep' (s.map f) ↔ Canonical sep s := by
  rw [canonical_iff, canonical_iff, splitOn_map hf]
  simp

end Map

end PersonalCloud.Lib.PathText
