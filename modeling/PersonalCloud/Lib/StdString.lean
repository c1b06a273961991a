import Mathlib.Data.List.Infix
import PersonalCloud.Lib.Ascii

/-!
# Searching in strings

The members of `std::string` that look for characters and take parts out, on texts as bytes.

## Main definitions

* `findFirstOf` — the next of some characters.
* `substr` — a part of a text.
* `find`, `replace` — where a text occurs, and putting another in the place of a part.
-/

namespace PersonalCloud.Lib

/-- `s.find_first_of(chars, pos)`; `none` is `npos`. -/
def findFirstOf (s chars : List UInt8) (pos : ℕ) : Option ℕ :=
  ((s.drop pos).findIdx? (· ∈ chars)).map (pos + ·)

/-- `t.assign(s, pos, n)`. -/
def substr (s : List UInt8) (pos n : ℕ) : List UInt8 :=
  (s.drop pos).take n

/-- `s.find(text)`; `none` is `npos`. -/
def find (s text : List UInt8) : Option ℕ :=
  s.tails.findIdx? text.isPrefixOf

/-- `s.replace(pos, n, text)`. -/
def replace (s : List UInt8) (pos n : ℕ) (text : List UInt8) : List UInt8 :=
  s.take pos ++ text ++ s.drop (pos + n)

variable {s chars a b text : List UInt8} {d : UInt8} {pos : ℕ}

theorem findFirstOf_eq_none (h : ∀ c ∈ s.drop pos, c ∉ chars) : findFirstOf s chars pos = none := by
  rw [findFirstOf, List.findIdx?_eq_none_iff.2 fun c hc => decide_eq_false (h c hc)]
  rfl

theorem findFirstOf_eq_some (hsplit : s.drop pos = a ++ d :: b) (ha : ∀ c ∈ a, c ∉ chars)
    (hd : d ∈ chars) : findFirstOf s chars pos = some (pos + a.length) := by
  have hidx : (a ++ d :: b).findIdx? (· ∈ chars) = some a.length := by
    rw [List.findIdx?_append, List.findIdx?_eq_none_iff.2 fun c hc => decide_eq_false (ha c hc),
      List.findIdx?_cons, if_pos (decide_eq_true hd), Option.none_or, Option.map_some,
      Nat.zero_add]
  rw [findFirstOf, hsplit, hidx]
  rfl

theorem le_of_findFirstOf {p : ℕ} (h : findFirstOf s chars pos = some p) : pos ≤ p := by
  obtain ⟨i, -, rfl⟩ := Option.map_eq_some_iff.1 h
  exact Nat.le_add_right pos i

/-- A text has none of some characters, or a first one. -/
theorem forall_notMem_or_split (chars s : List UInt8) : (∀ c ∈ s, c ∉ chars) ∨
    ∃ a d b, s = a ++ d :: b ∧ (∀ c ∈ a, c ∉ chars) ∧ d ∈ chars := by
  induction s with
  | nil => exact .inl fun c hc => absurd hc List.not_mem_nil
  | cons c s ih =>
    by_cases hc : c ∈ chars
    · exact .inr ⟨[], c, s, rfl, fun c hc => absurd hc List.not_mem_nil, hc⟩
    · obtain h | ⟨a, d, b, rfl, ha, hd⟩ := ih
      · exact .inl (List.forall_mem_cons.2 ⟨hc, h⟩)
      · exact .inr ⟨c :: a, d, b, rfl, List.forall_mem_cons.2 ⟨hc, ha⟩, hd⟩

theorem find_eq_none : find s text = none ↔ ¬text <:+: s := by
  rw [find, List.findIdx?_eq_none_iff, List.infix_iff_prefix_suffix]
  simp only [List.mem_tails, ← Bool.not_eq_true, List.isPrefixOf_iff_prefix]
  exact ⟨fun h ⟨t, hprefix, hsuffix⟩ => h t hsuffix hprefix,
    fun h t hsuffix hprefix => h ⟨t, hprefix, hsuffix⟩⟩

theorem exists_of_find_eq_some (h : find s text = some pos) :
    ∃ a b, s = a ++ text ++ b ∧ a.length = pos := by
  obtain ⟨hpos, hprefix, -⟩ := List.findIdx?_eq_some_iff_getElem.1 h
  rw [List.getElem_tails, List.isPrefixOf_iff_prefix] at hprefix
  obtain ⟨b, hb⟩ := hprefix
  rw [List.length_tails] at hpos
  exact ⟨s.take pos, b, by rw [List.append_assoc, hb, List.take_append_drop],
    List.length_take_of_le (Nat.le_of_lt_succ hpos)⟩

theorem replace_eq (a c b text : List UInt8) :
    replace (a ++ c ++ b) a.length c.length text = a ++ text ++ b := by
  rw [replace, ← List.length_append, List.drop_left, List.append_assoc a, List.take_left]

theorem substr_eq (hsplit : s.drop pos = a ++ b) : substr s pos a.length = a := by
  rw [substr, hsplit, List.take_left]

theorem substr_all (s : List UInt8) (pos : ℕ) : substr s pos (s.length - pos) = s.drop pos := by
  rw [substr, ← List.length_drop, List.take_length]

theorem drop_behind (hsplit : s.drop pos = a ++ d :: b) : s.drop (pos + a.length + 1) = b := by
  rw [Nat.add_assoc, ← List.drop_drop, hsplit, List.drop_append]
  simp

theorem getElem?_delimiter (hsplit : s.drop pos = a ++ d :: b) :
    s[pos + a.length]? = some d := by
  rw [← List.getElem?_drop, hsplit, List.getElem?_append_right (Nat.le_refl _), Nat.sub_self]
  rfl

theorem length_of_split (hsplit : s.drop pos = a ++ d :: b) :
    s.length = pos + a.length + 1 + b.length := by
  have h := congrArg List.length hsplit
  have hpos : pos ≤ s.length := by
    by_contra hlt
    rw [List.drop_of_length_le (by omega)] at hsplit
    exact absurd hsplit.symm (by simp)
  rw [List.length_drop, List.length_append, List.length_cons] at h
  omega

/-- Texts joined by a separator can be joined in two parts. -/
theorem intercalate_append {α : Type*} {sep : List α} {l : List (List α)} (hl : l ≠ [])
    (x : List α) (t : List (List α)) :
    sep.intercalate (l ++ x :: t) = sep.intercalate l ++ sep ++ sep.intercalate (x :: t) := by
  induction l with
  | nil => exact absurd rfl hl
  | cons y l ih =>
    by_cases hne : l = []
    · rw [hne, List.singleton_append, List.intercalate_cons_cons, List.intercalate_singleton]
    · rw [List.cons_append, List.intercalate_cons_of_ne_nil (by simp), ih hne,
        List.intercalate_cons_of_ne_nil hne]
      simp only [List.append_assoc]

end PersonalCloud.Lib
