import Mathlib.Algebra.Order.Ring.Nat
import Mathlib.Data.List.Basic

/-!
# The upcase table

`unicode_upcase_table` has an entry for each of the code points below U+2500. Those that are not
their own upper case are given here in ranges, the others map to themselves.

## Main results

* `unicodeUpper_idem` — the upper case of a code point is its own upper case.
* `length_unicodeUpper` — it takes as many bytes in UTF-8 as the code point.
-/

namespace PersonalCloud.DatasetDb

/-- Every `step`-th code point from `first` to `last`, with the upper case of the first. -/
structure UpcaseRange where
  first : ℕ
  last : ℕ
  step : ℕ
  upper : ℕ
deriving DecidableEq, Repr

def UpcaseRange.Holds (r : UpcaseRange) (x : ℕ) : Prop :=
  r.first ≤ x ∧ x ≤ r.last ∧ (x - r.first) % r.step = 0

instance (r : UpcaseRange) : DecidablePred r.Holds := fun _ =>
  inferInstanceAs (Decidable (_ ∧ _ ∧ _))

def upcaseRanges : List UpcaseRange :=
  [⟨0x0061, 0x007a, 1, 0x0041⟩, ⟨0x00e0, 0x00f6, 1, 0x00c0⟩, ⟨0x00f8, 0x00fe, 1, 0x00d8⟩,
    ⟨0x00ff, 0x00ff, 1, 0x0178⟩, ⟨0x0101, 0x012f, 2, 0x0100⟩, ⟨0x0133, 0x0137, 2, 0x0132⟩,
    ⟨0x013a, 0x0148, 2, 0x0139⟩, ⟨0x014b, 0x0177, 2, 0x014a⟩, ⟨0x017a, 0x017e, 2, 0x0179⟩,
    ⟨0x0183, 0x0185, 2, 0x0182⟩, ⟨0x0188, 0x0188, 1, 0x0187⟩, ⟨0x018c, 0x018c, 1, 0x018b⟩,
    ⟨0x0192, 0x0192, 1, 0x0191⟩, ⟨0x0199, 0x0199, 1, 0x0198⟩, ⟨0x01a1, 0x01a5, 2, 0x01a0⟩,
    ⟨0x01a8, 0x01a8, 1, 0x01a7⟩, ⟨0x01ad, 0x01ad, 1, 0x01ac⟩, ⟨0x01b0, 0x01b0, 1, 0x01af⟩,
    ⟨0x01b4, 0x01b6, 2, 0x01b3⟩, ⟨0x01b9, 0x01b9, 1, 0x01b8⟩, ⟨0x01bd, 0x01bd, 1, 0x01bc⟩,
    ⟨0x01c6, 0x01c6, 1, 0x01c4⟩, ⟨0x01c9, 0x01c9, 1, 0x01c7⟩, ⟨0x01cc, 0x01cc, 1, 0x01ca⟩,
    ⟨0x01ce, 0x01dc, 2, 0x01cd⟩, ⟨0x01dd, 0x01dd, 1, 0x018e⟩, ⟨0x01df, 0x01ef, 2, 0x01de⟩,
    ⟨0x01f3, 0x01f3, 1, 0x01f1⟩, ⟨0x01f5, 0x01f5, 1, 0x01f4⟩, ⟨0x01fb, 0x0217, 2, 0x01fa⟩,
    ⟨0x0253, 0x0253, 1, 0x0181⟩, ⟨0x0254, 0x0254, 1, 0x0186⟩, ⟨0x0256, 0x0257, 1, 0x0189⟩,
    ⟨0x0259, 0x0259, 1, 0x018f⟩, ⟨0x025b, 0x025b, 1, 0x0190⟩, ⟨0x0260, 0x0260, 1, 0x0193⟩,
    ⟨0x0263, 0x0263, 1, 0x0194⟩, ⟨0x0268, 0x0268, 1, 0x0197⟩, ⟨0x0269, 0x0269, 1, 0x0196⟩,
    ⟨0x026f, 0x026f, 1, 0x019c⟩, ⟨0x0272, 0x0272, 1, 0x019d⟩, ⟨0x0275, 0x0275, 1, 0x019f⟩,
    ⟨0x0283, 0x0283, 1, 0x01a9⟩, ⟨0x0288, 0x0288, 1, 0x01ae⟩, ⟨0x028a, 0x028b, 1, 0x01b1⟩,
    ⟨0x0292, 0x0292, 1, 0x01b7⟩, ⟨0x03ac, 0x03ac, 1, 0x0386⟩, ⟨0x03ad, 0x03af, 1, 0x0388⟩,
    ⟨0x03b1, 0x03c1, 1, 0x0391⟩, ⟨0x03c2, 0x03c2, 1, 0x03a3⟩, ⟨0x03c3, 0x03cb, 1, 0x03a3⟩,
    ⟨0x03cc, 0x03cc, 1, 0x038c⟩, ⟨0x03cd, 0x03ce, 1, 0x038e⟩, ⟨0x03e3, 0x03ef, 2, 0x03e2⟩,
    ⟨0x0430, 0x044f, 1, 0x0410⟩, ⟨0x0451, 0x045c, 1, 0x0401⟩, ⟨0x045e, 0x045f, 1, 0x040e⟩,
    ⟨0x0461, 0x0481, 2, 0x0460⟩, ⟨0x0491, 0x04bf, 2, 0x0490⟩, ⟨0x04c2, 0x04c4, 2, 0x04c1⟩,
    ⟨0x04c8, 0x04c8, 1, 0x04c7⟩, ⟨0x04cc, 0x04cc, 1, 0x04cb⟩, ⟨0x04d1, 0x04eb, 2, 0x04d0⟩,
    ⟨0x04ef, 0x04f5, 2, 0x04ee⟩, ⟨0x04f9, 0x04f9, 1, 0x04f8⟩, ⟨0x0561, 0x0586, 1, 0x0531⟩,
    ⟨0x1e01, 0x1e95, 2, 0x1e00⟩, ⟨0x1ea1, 0x1ef9, 2, 0x1ea0⟩, ⟨0x1f00, 0x1f07, 1, 0x1f08⟩,
    ⟨0x1f10, 0x1f15, 1, 0x1f18⟩, ⟨0x1f20, 0x1f27, 1, 0x1f28⟩, ⟨0x1f30, 0x1f37, 1, 0x1f38⟩,
    ⟨0x1f40, 0x1f45, 1, 0x1f48⟩, ⟨0x1f51, 0x1f57, 2, 0x1f59⟩, ⟨0x1f60, 0x1f67, 1, 0x1f68⟩,
    ⟨0x1f70, 0x1f71, 1, 0x1fba⟩, ⟨0x1f72, 0x1f75, 1, 0x1fc8⟩, ⟨0x1f76, 0x1f77, 1, 0x1fda⟩,
    ⟨0x1f78, 0x1f79, 1, 0x1ff8⟩, ⟨0x1f7a, 0x1f7b, 1, 0x1fea⟩, ⟨0x1f7c, 0x1f7d, 1, 0x1ffa⟩,
    ⟨0x1fb0, 0x1fb1, 1, 0x1fb8⟩, ⟨0x1fd0, 0x1fd1, 1, 0x1fd8⟩, ⟨0x1fe0, 0x1fe1, 1, 0x1fe8⟩,
    ⟨0x1fe5, 0x1fe5, 1, 0x1fec⟩, ⟨0x2170, 0x217f, 1, 0x2160⟩, ⟨0x24d0, 0x24e9, 1, 0x24b6⟩]

/-- `unicode_upcase_table`. -/
def unicodeUpcaseTable (x : ℕ) : ℕ :=
  match upcaseRanges.find? fun r => r.Holds x with
  | some r => r.upper + (x - r.first)
  | none => x

/-- `UNICODE_UPPER`. -/
def unicodeUpper (x : ℕ) : ℕ :=
  if x < 0x2500 then unicodeUpcaseTable x
  else if 0xff41 ≤ x ∧ x < 0xff5b then x - 0x20
  else x

/-- How many bytes a code point takes in UTF-8. -/
def utf8Length (x : ℕ) : ℕ :=
  if x ≤ 0x7f then 1 else if x ≤ 0x7ff then 2 else if x ≤ 0xffff then 3 else 4

/-- What all ranges have in common: the two ends of a range and their images take equally many
bytes, and the images are in the table. -/
def UpcaseRange.Good (r : UpcaseRange) : Prop :=
  0 < r.step ∧ 0 < r.upper ∧ r.upper + (r.last - r.first) < 0x2500 ∧
    utf8Length r.last = utf8Length r.first ∧ utf8Length r.upper = utf8Length r.first ∧
    utf8Length (r.upper + (r.last - r.first)) = utf8Length r.first

instance : DecidablePred UpcaseRange.Good := fun _ =>
  inferInstanceAs (Decidable (_ ∧ _ ∧ _ ∧ _ ∧ _ ∧ _))

theorem good_upcaseRanges : ∀ r ∈ upcaseRanges, r.Good := by
  decide +kernel

/-- The images of `r` are not in `q`. -/
def UpcaseRange.Apart (r q : UpcaseRange) : Prop :=
  r.upper + (r.last - r.first) < q.first ∨ q.last < r.upper ∨
    r.step % 2 = 0 ∧ q.step % 2 = 0 ∧ (r.upper + q.first) % 2 = 1

instance (r : UpcaseRange) : DecidablePred r.Apart := fun _ =>
  inferInstanceAs (Decidable (_ ∨ _ ∨ _ ∧ _ ∧ _))

theorem apart_upcaseRanges : ∀ r ∈ upcaseRanges, ∀ q ∈ upcaseRanges, r.Apart q := by
  -- the tests on `Bool` are what the kernel computes fastest
  have h : (upcaseRanges.all fun r => upcaseRanges.all fun q =>
      Nat.ble (r.upper + (r.last - r.first) + 1) q.first || Nat.ble (q.last + 1) r.upper ||
        Nat.beq (r.step % 2) 0 && Nat.beq (q.step % 2) 0 &&
          Nat.beq ((r.upper + q.first) % 2) 1) = true := by
    decide +kernel
  intro r hr q hq
  have hrq := List.all_eq_true.1 (List.all_eq_true.1 h r hr) q hq
  simpa only [Bool.or_eq_true, Bool.and_eq_true, Nat.ble_eq, Nat.beq_eq, Nat.succ_le_iff,
    or_assoc, and_assoc, UpcaseRange.Apart] using hrq

/-! ## The upper case of a code point -/

variable {r q : UpcaseRange} {x : ℕ}

theorem utf8Length_mono {y z : ℕ} (h : y ≤ z) : utf8Length y ≤ utf8Length z := by
  unfold utf8Length
  split_ifs <;> omega

theorem utf8Length_of_between {y z : ℕ} (hy : y ≤ x) (hz : x ≤ z)
    (h : utf8Length z = utf8Length y) : utf8Length x = utf8Length y :=
  le_antisymm ((utf8Length_mono hz).trans h.le) (utf8Length_mono hy)

theorem unicodeUpcaseTable_cases (x : ℕ) : unicodeUpcaseTable x = x ∨
    ∃ r ∈ upcaseRanges, r.Holds x ∧ unicodeUpcaseTable x = r.upper + (x - r.first) := by
  rw [unicodeUpcaseTable]
  cases h : upcaseRanges.find? fun r => r.Holds x with
  | none => exact .inl rfl
  | some r => exact .inr ⟨r, List.mem_of_find?_eq_some h, by simpa using List.find?_some h, rfl⟩

theorem UpcaseRange.Good.length_image (h : r.Good) (hx : r.Holds x) :
    utf8Length (r.upper + (x - r.first)) = utf8Length x := by
  obtain ⟨-, -, -, hlast, hupper, himage⟩ := h
  obtain ⟨hfirst, hle, -⟩ := hx
  rw [utf8Length_of_between hfirst hle hlast, ← hupper]
  refine utf8Length_of_between (Nat.le_add_right _ _) ?_ (himage.trans hupper.symm)
  omega

/-- No image is in a range. -/
theorem UpcaseRange.Apart.not_holds (h : r.Apart q) (hx : r.Holds x) :
    ¬ q.Holds (r.upper + (x - r.first)) := by
  obtain ⟨hfirst, hle, hstep⟩ := hx
  rintro ⟨hqfirst, hqle, hqstep⟩
  rcases h with h | h | ⟨hr, hq, hodd⟩
  · omega
  · omega
  · have h1 := (Nat.dvd_of_mod_eq_zero hr).trans (Nat.dvd_of_mod_eq_zero hstep)
    have h2 := (Nat.dvd_of_mod_eq_zero hq).trans (Nat.dvd_of_mod_eq_zero hqstep)
    omega

theorem unicodeUpcaseTable_lt (hx : x < 0x2500) : unicodeUpcaseTable x < 0x2500 := by
  rcases unicodeUpcaseTable_cases x with h | ⟨r, hr, ⟨-, hle, -⟩, h⟩
  · rwa [h]
  · have hlt := (good_upcaseRanges r hr).2.2.1
    omega

theorem unicodeUpcaseTable_idem (x : ℕ) :
    unicodeUpcaseTable (unicodeUpcaseTable x) = unicodeUpcaseTable x := by
  rcases unicodeUpcaseTable_cases x with h | ⟨r, hr, hx, h⟩
  · rw [h, h]
  · rw [h]
    rcases unicodeUpcaseTable_cases (r.upper + (x - r.first)) with h' | ⟨q, hq, hq', -⟩
    · exact h'
    · exact absurd hq' ((apart_upcaseRanges r hr q hq).not_holds hx)

/-- The upper case of a code point takes as many bytes. -/
theorem length_unicodeUpper (x : ℕ) : utf8Length (unicodeUpper x) = utf8Length x := by
  unfold unicodeUpper
  split_ifs with hx hz
  · rcases unicodeUpcaseTable_cases x with h | ⟨r, hr, hr', h⟩
    · rw [h]
    · rw [h, (good_upcaseRanges r hr).length_image hr']
  · unfold utf8Length
    split_ifs <;> omega
  · rfl

theorem unicodeUpper_idem (x : ℕ) : unicodeUpper (unicodeUpper x) = unicodeUpper x := by
  by_cases hx : x < 0x2500
  · have hlt := unicodeUpcaseTable_lt hx
    simp only [unicodeUpper, if_pos hx, if_pos hlt, unicodeUpcaseTable_idem]
  · unfold unicodeUpper
    split_ifs <;> first | rfl | omega

theorem unicodeUpper_pos (hx : 0 < x) : 0 < unicodeUpper x := by
  unfold unicodeUpper
  split_ifs
  · rcases unicodeUpcaseTable_cases x with h | ⟨r, hr, -, h⟩
    · rwa [h]
    · have hpos := (good_upcaseRanges r hr).2.1
      omega
  · omega
  · exact hx

/-- The letters of the table are at and above `A`. -/
theorem letters_upcaseRanges : ∀ r ∈ upcaseRanges, 0x41 ≤ r.upper ∧ 0x41 ≤ r.first := by
  decide +kernel

/-- Digits and punctuation are the upper case of themselves alone. -/
theorem unicodeUpper_eq_iff {y : ℕ} (hy : y < 0x41) : unicodeUpper x = y ↔ x = y := by
  unfold unicodeUpper
  split_ifs with h1 h2
  · rcases unicodeUpcaseTable_cases x with h | ⟨r, hr, ⟨hfirst, -, -⟩, h⟩
    · rw [h]
    · have hletters := letters_upcaseRanges r hr
      rw [h]
      omega
  · omega
  · rfl

/-- Upper case stays on its side of the surrogates and of the planes. -/
theorem unicodeUpper_mem {lo hi : ℕ} (hlo : lo = 0 ∨ 0x2500 ≤ lo ∧ lo ≤ 0xff21 ∨ 0xff5b ≤ lo)
    (hhi : 0x2500 ≤ hi ∧ hi ≤ 0xff41 ∨ 0xff5b ≤ hi) (hx : lo ≤ x ∧ x < hi) :
    lo ≤ unicodeUpper x ∧ unicodeUpper x < hi := by
  unfold unicodeUpper
  split_ifs with h1 h2
  · have hlt := unicodeUpcaseTable_lt h1
    omega
  · omega
  · exact hx

end PersonalCloud.DatasetDb
