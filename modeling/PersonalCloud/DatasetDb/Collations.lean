import Mathlib.Data.Fin.Basic
import PersonalCloud.DatasetDb.Tree
import PersonalCloud.DatasetDb.Utf8
import PersonalCloud.Lib.Wildcard

/-!
# The two modes

Names are texts in UTF-8, and letters are their code points. In the case-insensitive mode the code
points are below U+40000: from there on `utf8_upper` is wrong.

## Main definitions

* `glob` — SQLite's GLOB.
* `caseSensitive`, `caseInsensitive` — the modes.
* `Spells` — the bytes of a name.

## Main results

* `caseSensitive_lawful`, `caseInsensitive_lawful`.
* `Spells.utf8Upper`, `Spells.casecmp_eq_zero_iff` — in the case-insensitive mode names are folded
  and compared as the code does it with their bytes.
-/

namespace PersonalCloud.DatasetDb

open PersonalCloud.Lib PersonalCloud.Lib.Wildcard

/-! ## GLOB -/

/-- The set of letters up to the closing bracket, and the pattern behind that. `prior` is the
letter that a range may begin with, or 0. -/
def globLetters (prior : ℕ) : List ℕ → Option ((ℕ → Bool) × List ℕ)
  | [] => none
  | [a] => if a = 0x5d then some (fun _ => false, []) else none
  | a :: b :: p =>
    if a = 0x5d then some (fun _ => false, b :: p)
    else if a = 0x2d ∧ b ≠ 0x5d ∧ 0 < prior then
      (globLetters 0 p).map fun x => (fun d => prior ≤ d && d ≤ b || x.1 d, x.2)
    else (globLetters a (b :: p)).map fun x => (fun d => d = a || x.1 d, x.2)

/-- A closing bracket that comes first is a letter. -/
def globSet : List ℕ → Option ((ℕ → Bool) × List ℕ)
  | 0x5d :: p => (globLetters 0 p).map fun x => (fun d => d = 0x5d || x.1 d, x.2)
  | p => globLetters 0 p

/-- The items of a pattern, unless a set has no end. -/
def globItems : ℕ → List ℕ → Option (List (Item ℕ))
  | _, [] => some []
  | 0, _ :: _ => none
  | fuel + 1, a :: p =>
    if a = 0x2a then (globItems fuel p).map (.many :: ·)
    else if a = 0x3f then (globItems fuel p).map (.one (fun _ => true) :: ·)
    else if a = 0x5b then
      if p.head? = some 0x5e then
        (globSet p.tail).bind fun x => (globItems fuel x.2).map (.one (fun d => !x.1 d) :: ·)
      else (globSet p).bind fun x => (globItems fuel x.2).map (.one x.1 :: ·)
    else (globItems fuel p).map (.one (fun d => d = a) :: ·)

def glob (pattern s : List ℕ) : Bool :=
  (globItems pattern.length pattern).any (accepts · s)

/-- The letter stands for itself in a pattern. -/
def IsLiteral (a : ℕ) : Prop := a ≠ 0x2a ∧ a ≠ 0x3f ∧ a ≠ 0x5b

instance : DecidablePred IsLiteral := fun _ => inferInstanceAs (Decidable (_ ∧ _ ∧ _))

/-- The item of a letter that stands for itself. -/
def literalItem (a : ℕ) : Item ℕ := .one fun d => d = a

theorem globItems_star {p : List ℕ} (hp : ∀ a ∈ p, IsLiteral a) {fuel : ℕ}
    (hfuel : p.length < fuel) :
    globItems fuel (p ++ [0x2a]) = some (p.map literalItem ++ [.many]) := by
  induction p generalizing fuel with
  | nil =>
    obtain ⟨k, rfl⟩ : ∃ k, fuel = k + 1 := ⟨fuel - 1, by simp at hfuel; omega⟩
    simp [globItems]
  | cons a p ih =>
    obtain ⟨⟨hstar, hany, hset⟩, hp⟩ := List.forall_mem_cons.1 hp
    obtain ⟨k, rfl⟩ : ∃ k, fuel = k + 1 := ⟨fuel - 1, by simp at hfuel; omega⟩
    have hrest := ih hp (Nat.lt_of_succ_lt_succ hfuel)
    simp [globItems, hstar, hany, hset, hrest, literalItem]

theorem accepts_literal {p s : List ℕ} : accepts (p.map literalItem) s ↔ s = p := by
  induction p generalizing s with
  | nil => simp
  | cons a p ih =>
    rw [List.map_cons, literalItem, accepts_one]
    constructor
    · rintro ⟨b, u, rfl, hb, hu⟩
      rw [of_decide_eq_true hb, ih.1 hu]
    · rintro rfl
      exact ⟨a, p, rfl, decide_eq_true rfl, ih.2 rfl⟩

theorem glob_star {p s : List ℕ} (hp : ∀ a ∈ p, IsLiteral a) :
    glob (p ++ [0x2a]) s = true ↔ p <+: s := by
  rw [glob, globItems_star hp (by simp), Option.any_some, accepts_append_iff]
  constructor
  · rintro ⟨a, b, rfl, ha, -⟩
    rw [accepts_literal.1 ha]
    exact List.prefix_append _ _
  · rintro ⟨b, rfl⟩
    exact ⟨p, b, rfl, accepts_literal.2 rfl, accepts_many_nil⟩

/-! ## The case-sensitive mode -/

def caseSensitive : Collation ℕ := ⟨id, 0x2f, 0x2a, glob⟩

theorem caseSensitive_lawful : caseSensitive.Lawful IsLiteral where
  upper_upper _ := rfl
  upper_slash _ := Iff.rfl
  upper_star := rfl
  literal_slash := by decide
  literal_upper _ h := h
  glob_star _ _ := glob_star

/-! ## The case-insensitive mode -/

/-- The code points that `utf8_upper` encodes as they should be. -/
abbrev CodePoint := Fin 0x40000

instance neZero_codePoints : NeZero 0x40000 := ⟨by decide⟩

theorem unicodeUpper_lt {x : ℕ} (h : x < 0x40000) : unicodeUpper x < 0x40000 :=
  (unicodeUpper_mem (.inl rfl) (.inr (by decide)) ⟨Nat.zero_le _, h⟩).2

def caseInsensitive : Collation CodePoint where
  upper a := ⟨unicodeUpper a, unicodeUpper_lt a.isLt⟩
  slash := 0x2f
  star := 0x2a
  glob pattern s := glob (pattern.map Fin.val) (s.map Fin.val)

theorem bracket_upcaseRanges :
    ∀ r ∈ upcaseRanges, 0x5b < r.upper ∨ r.upper + (r.last - r.first) < 0x5b := by
  decide +kernel

theorem unicodeUpper_ne_bracket {a : ℕ} (h : a ≠ 0x5b) : unicodeUpper a ≠ 0x5b := by
  unfold unicodeUpper
  split_ifs with h1 h2
  · obtain heq | ⟨r, hr, ⟨hfirst, hlast, -⟩, heq⟩ := unicodeUpcaseTable_cases a
    · rwa [heq]
    · have := bracket_upcaseRanges r hr
      rw [heq]
      omega
  · omega
  · exact h

theorem caseInsensitive_lawful : caseInsensitive.Lawful fun a => IsLiteral a where
  upper_upper a := Fin.ext (unicodeUpper_idem a)
  upper_slash a := Fin.ext_iff.trans ((unicodeUpper_eq_iff (by decide)).trans Fin.ext_iff.symm)
  upper_star := Fin.ext ((unicodeUpper_eq_iff (y := 0x2a) (by decide)).2 rfl)
  literal_slash := by decide
  literal_upper a h := ⟨fun heq => h.1 ((unicodeUpper_eq_iff (by decide)).1 heq),
    fun heq => h.2.1 ((unicodeUpper_eq_iff (by decide)).1 heq), unicodeUpper_ne_bracket h.2.2⟩
  glob_star p s hp := by
    have hmap : (p ++ [caseInsensitive.star]).map Fin.val = p.map Fin.val ++ [0x2a] := by
      rw [List.map_append]
      rfl
    change glob ((p ++ [caseInsensitive.star]).map Fin.val) (s.map Fin.val) = true ↔ _
    rw [hmap, glob_star (List.forall_mem_map.2 hp), List.prefix_map_iff]
    constructor
    · rintro ⟨q, hq, heq⟩
      rwa [List.map_injective_iff.2 Fin.val_injective heq]
    · exact fun h => ⟨p, h, rfl⟩

/-- These bytes are the name in UTF-8. -/
def Spells (s : List UInt8) (name : List CodePoint) : Prop :=
  ∃ cs : List Char, (∀ d ∈ cs, 0 < d.toNat) ∧ encode cs = s ∧
    cs.map Char.toNat = name.map Fin.val

section Spells

variable {s s' : List UInt8} {name name' : List CodePoint}

theorem Spells.inj (h : Spells s name) (h' : Spells s name') : name = name' := by
  obtain ⟨cs, -, rfl, hcodes⟩ := h
  obtain ⟨ds, -, heq, hcodes'⟩ := h'
  obtain rfl := encode_injective heq
  exact List.map_injective_iff.2 Fin.val_injective (hcodes.symm.trans hcodes')

theorem Spells.utf8Upper (h : Spells s name) :
    ∃ s', utf8Upper s = some s' ∧ Spells s' (caseInsensitive.upperName name) := by
  obtain ⟨cs, hpos, rfl, hcodes⟩ := h
  have hlt : ∀ d ∈ cs, d.toNat < 0x40000 := by
    intro d hd
    have hmem : d.toNat ∈ name.map Fin.val := hcodes ▸ List.mem_map_of_mem hd
    obtain ⟨a, -, ha⟩ := List.mem_map.1 hmem
    exact ha ▸ a.isLt
  refine ⟨encode (cs.map upcase), (utf8Upper_eq_iff hpos).2 hlt, cs.map upcase,
    List.forall_mem_map.2 fun d hd => upcase_pos (hpos d hd), rfl, ?_⟩
  have hupper := congrArg (List.map unicodeUpper) hcodes
  simpa [Collation.upperName, caseInsensitive, Function.comp_def, toNat_upcase] using hupper

theorem Spells.casecmp_eq_zero_iff (h : Spells s name) (h' : Spells s' name') :
    casecmp s s' = some 0 ↔ caseInsensitive.upperName name = caseInsensitive.upperName name' := by
  obtain ⟨cs, -, rfl, hcodes⟩ := h
  obtain ⟨ds, -, rfl, hcodes'⟩ := h'
  have hfolds : ∀ {es : List Char} {n : List CodePoint}, es.map Char.toNat = n.map Fin.val →
      folds es = (caseInsensitive.upperName n).map Fin.val := by
    intro es n hes
    have hupper := congrArg (List.map unicodeUpper) hes
    simpa [folds, Collation.upperName, caseInsensitive, Function.comp_def] using hupper
  rw [casecmp_encode, Option.some_inj, orderOf_eq_zero_iff, hfolds hcodes, hfolds hcodes',
    (List.map_injective_iff.2 Fin.val_injective).eq_iff]

end Spells

end PersonalCloud.DatasetDb
