import Mathlib.Data.List.Lex
import Mathlib.Data.List.TakeWhile
import PersonalCloud.DatasetDb.Upcase

/-!
# Case folding of UTF-8 strings

`utf8_upper` decodes a string, looks every code point up, and encodes it again. `utf8_casencmp`
walks over two strings with the byte offset of the first.

## Main results

* `foldsConsistently_iff` — folding and comparison are as they should be exactly on strings
  whose code points are below U+40000.
-/

namespace PersonalCloud.DatasetDb

/-! ## The code -/

/-- `s[i]`. Behind the terminator there is nothing to read. -/
def byteAt (s : List UInt8) (i : ℕ) : Option ℕ :=
  ((s ++ [0])[i]?).map UInt8.toNat

/-- `get_next_code` at `&s[i]`: the code, and how many bytes to skip. -/
def getNextCode (s : List UInt8) (i : ℕ) : Option (ℕ × ℕ) := do
  let s0 ← byteAt s i
  if s0 &&& 0x80 = 0x0 then some (s0, 1)
  else if s0 &&& 0xe0 = 0xc0 then do
    let s1 ← byteAt s (i + 1)
    some ((s0 &&& 0x1f) <<< 6 ||| (s1 &&& 0x3f), 2)
  else if s0 &&& 0xf0 = 0xe0 then do
    let s1 ← byteAt s (i + 1)
    let s2 ← byteAt s (i + 2)
    some ((s0 &&& 0x0f) <<< 12 ||| (s1 &&& 0x3f) <<< 6 ||| (s2 &&& 0x3f), 3)
  else do
    let s1 ← byteAt s (i + 1)
    let s2 ← byteAt s (i + 2)
    let s3 ← byteAt s (i + 3)
    some ((s0 &&& 0x07) <<< 18 ||| (s1 &&& 0x3f) <<< 12 ||| (s2 &&& 0x3f) <<< 6 |||
      (s3 &&& 0x3f), 4)

/-- The bytes that `unicode_to_utf8` writes, up to the terminator. -/
def cUtf8 (code : ℕ) : List ℕ :=
  if code ≤ 0x7f then [code]
  else if code ≤ 0x7ff then [0xc0 ||| (code &&& 0x7c0) >>> 6, 0x80 ||| (code &&& 0x3f)]
  else if code ≤ 0xffff then
    [0xe0 ||| (code &&& 0xf000) >>> 12, 0x80 ||| (code &&& 0xfc0) >>> 6, 0x80 ||| (code &&& 0x3f)]
  else
    [0xf0 ||| (code &&& 0x1c0000) >>> 16, 0x80 ||| (code &&& 0x3f000) >>> 12,
      0x80 ||| (code &&& 0xfc0) >>> 6, 0x80 ||| (code &&& 0x3f)]

/-- `unicode_to_utf8`: a C string ends at its first zero. -/
def unicodeToUtf8 (code : ℕ) : List UInt8 :=
  ((cUtf8 code).map UInt8.ofNat).takeWhile (· ≠ 0)

/-- The loop of `utf8_upper`. `none` says that the fuel ran out or that it read behind the
terminator. -/
def upperLoop (s : List UInt8) : ℕ → ℕ → List UInt8 → Option (List UInt8)
  | 0, _, _ => none
  | fuel + 1, i, sUpper => do
    let b ← byteAt s i
    if b = 0 then some sUpper
    else do
      let (code, skip) ← getNextCode s i
      upperLoop s fuel (i + skip) (sUpper ++ unicodeToUtf8 (unicodeUpper code))

def utf8Upper (s : List UInt8) : Option (List UInt8) :=
  upperLoop s (s.length + 1) 0 []

/-- The loop of `utf8_casencmp`, and the comparison of the lengths behind it. -/
def casencmpLoop (s1Len : ℕ) (s1 : List UInt8) (s2Len : ℕ) (s2 : List UInt8) :
    ℕ → ℕ → Option ℤ
  | 0, _ => none
  | fuel + 1, i =>
    if i < min s1Len s2Len then do
      let (code1, skip1) ← getNextCode s1 i
      let (code2, _) ← getNextCode s2 i
      if unicodeUpper code1 < unicodeUpper code2 then some (-1)
      else if unicodeUpper code1 > unicodeUpper code2 then some 1
      else casencmpLoop s1Len s1 s2Len s2 fuel (i + skip1)
    else if s1Len < s2Len then some (-1)
    else if s1Len > s2Len then some 1
    else some 0

def utf8Casencmp (s1Len : ℕ) (s1 : List UInt8) (s2Len : ℕ) (s2 : List UInt8) : Option ℤ :=
  casencmpLoop s1Len s1 s2Len s2 (s1Len + 1) 0

/-! ## Decoding -/

variable {s p : List UInt8} {c : Char} {i x y : ℕ}

theorem byteAt_append (p s : List UInt8) (i : ℕ) : byteAt (p ++ s) (p.length + i) = byteAt s i := by
  rw [byteAt, byteAt, List.append_assoc, List.getElem?_append_right (Nat.le_add_right _ _),
    Nat.add_sub_cancel_left]

theorem getNextCode_append (p s : List UInt8) :
    getNextCode (p ++ s) p.length = getNextCode s 0 := by
  have h := byteAt_append p s
  simp only [getNextCode, ← h 0, ← h 1, ← h 2, ← h 3, Nat.add_zero, Nat.zero_add]

/-- The lead bytes, and the bits they carry. -/
theorem lead_two : ∀ y < 0x20, (y + 0xc0) &&& 0x80 ≠ 0 ∧ (y + 0xc0) &&& 0xe0 = 0xc0 ∧
    (y + 0xc0) &&& 0x1f = y ∧ 0xc0 ||| y = y + 0xc0 := by
  decide

theorem lead_three : ∀ y < 0x10, (y + 0xe0) &&& 0x80 ≠ 0 ∧ (y + 0xe0) &&& 0xe0 ≠ 0xc0 ∧
    (y + 0xe0) &&& 0xf0 = 0xe0 ∧ (y + 0xe0) &&& 0x0f = y ∧ 0xe0 ||| y = y + 0xe0 := by
  decide

theorem lead_four : ∀ y < 0x8, (y + 0xf0) &&& 0x80 ≠ 0 ∧ (y + 0xf0) &&& 0xe0 ≠ 0xc0 ∧
    (y + 0xf0) &&& 0xf0 ≠ 0xe0 ∧ (y + 0xf0) &&& 0x07 = y := by
  decide

theorem lead_one : ∀ y < 0x80, y &&& 0x80 = 0 := by
  decide

theorem tail_byte : ∀ y < 0x40, (y + 0x80) &&& 0x3f = y ∧ 0x80 ||| y = y + 0x80 := by
  decide

/-- Bits put side by side. -/
theorem shiftLeft_or (x : ℕ) {i : ℕ} (h : y < 2 ^ i) : x <<< i ||| y = x * 2 ^ i + y := by
  rw [← Nat.shiftLeft_add_eq_or_of_lt h, Nat.shiftLeft_eq]

/-- The bytes of a character are those of its code point. -/
theorem utf8EncodeChar_eq (c : Char) : String.utf8EncodeChar c =
    (if c.toNat ≤ 0x7f then [c.toNat]
      else if c.toNat ≤ 0x7ff then [c.toNat / 64 % 0x20 + 0xc0, c.toNat % 0x40 + 0x80]
      else if c.toNat ≤ 0xffff then [c.toNat / 4096 % 0x10 + 0xe0,
        c.toNat / 64 % 0x40 + 0x80, c.toNat % 0x40 + 0x80]
      else [c.toNat / 262144 % 0x08 + 0xf0, c.toNat / 4096 % 0x40 + 0x80,
        c.toNat / 64 % 0x40 + 0x80, c.toNat % 0x40 + 0x80]).map UInt8.ofNat := by
  rw [String.utf8EncodeChar]
  simp only [Char.toNat]
  split_ifs <;> rfl

theorem byteAt_map {l : List ℕ} (hl : ∀ b ∈ l, b < 256) (s : List UInt8) (hi : i < l.length) :
    byteAt (l.map UInt8.ofNat ++ s) i = some l[i] := by
  have hlt := hl _ (List.getElem_mem hi)
  rw [byteAt, List.append_assoc, List.getElem?_append_left (by simpa using hi)]
  simp [hi, Nat.mod_eq_of_lt hlt]

theorem toNat_lt (c : Char) : c.toNat < 0x110000 := by
  rcases c.valid with h | ⟨-, h⟩
  · exact h.trans (by decide)
  · exact h

section Sequences

variable {x₁ x₂ x₃ : ℕ}

theorem getNextCode_one (h0 : byteAt s 0 = some y) (hy : y < 0x80) :
    getNextCode s 0 = some (y, 1) := by
  unfold getNextCode
  simp only [h0, Option.bind_eq_bind, Option.bind_some]
  rw [if_pos (lead_one y hy)]

theorem getNextCode_two (h0 : byteAt s 0 = some (y + 0xc0)) (hy : y < 0x20)
    (h1 : byteAt s 1 = some (x₁ + 0x80)) (hx₁ : x₁ < 0x40) :
    getNextCode s 0 = some (y * 2 ^ 6 + x₁, 2) := by
  obtain ⟨hone, htwo, hlead, -⟩ := lead_two y hy
  unfold getNextCode
  simp only [h0, h1, Option.bind_eq_bind, Option.bind_some, Nat.zero_add]
  rw [if_neg hone, if_pos htwo, hlead, (tail_byte x₁ hx₁).1, shiftLeft_or (i := 6) y hx₁]

theorem getNextCode_three (h0 : byteAt s 0 = some (y + 0xe0)) (hy : y < 0x10)
    (h1 : byteAt s 1 = some (x₁ + 0x80)) (hx₁ : x₁ < 0x40)
    (h2 : byteAt s 2 = some (x₂ + 0x80)) (hx₂ : x₂ < 0x40) :
    getNextCode s 0 = some (y * 2 ^ 12 + (x₁ * 2 ^ 6 + x₂), 3) := by
  obtain ⟨hone, htwo, hthree, hlead, -⟩ := lead_three y hy
  have htail : x₁ * 2 ^ 6 + x₂ < 2 ^ 12 := by omega
  unfold getNextCode
  simp only [h0, h1, h2, Option.bind_eq_bind, Option.bind_some, Nat.zero_add]
  rw [if_neg hone, if_neg htwo, if_pos hthree, hlead, (tail_byte x₁ hx₁).1,
    (tail_byte x₂ hx₂).1, Nat.or_assoc, shiftLeft_or (i := 6) x₁ hx₂, shiftLeft_or y htail]

theorem getNextCode_four (h0 : byteAt s 0 = some (y + 0xf0)) (hy : y < 0x08)
    (h1 : byteAt s 1 = some (x₁ + 0x80)) (hx₁ : x₁ < 0x40)
    (h2 : byteAt s 2 = some (x₂ + 0x80)) (hx₂ : x₂ < 0x40)
    (h3 : byteAt s 3 = some (x₃ + 0x80)) (hx₃ : x₃ < 0x40) :
    getNextCode s 0 = some (y * 2 ^ 18 + (x₁ * 2 ^ 12 + (x₂ * 2 ^ 6 + x₃)), 4) := by
  obtain ⟨hone, htwo, hthree, hlead⟩ := lead_four y hy
  have htail : x₂ * 2 ^ 6 + x₃ < 2 ^ 12 := by omega
  have htail' : x₁ * 2 ^ 12 + (x₂ * 2 ^ 6 + x₃) < 2 ^ 18 := by omega
  unfold getNextCode
  simp only [h0, h1, h2, h3, Option.bind_eq_bind, Option.bind_some, Nat.zero_add]
  rw [if_neg hone, if_neg htwo, if_neg hthree, hlead, (tail_byte x₁ hx₁).1,
    (tail_byte x₂ hx₂).1, (tail_byte x₃ hx₃).1, Nat.or_assoc, Nat.or_assoc,
    shiftLeft_or (i := 6) x₂ hx₃, shiftLeft_or x₁ htail, shiftLeft_or y htail']

end Sequences

/-- The decoder reads a character and nothing behind it. -/
theorem getNextCode_utf8EncodeChar (c : Char) (s : List UInt8) :
    getNextCode (String.utf8EncodeChar c ++ s) 0 = some (c.toNat, utf8Length c.toNat) := by
  have hlt := toNat_lt c
  rw [utf8EncodeChar_eq]
  generalize c.toNat = v at hlt
  have hmod : ∀ x, x % 0x40 < 0x40 := fun x => Nat.mod_lt x (by decide)
  unfold utf8Length
  split_ifs with h1 h2 h3
  · have hb : ∀ b ∈ [v], b < 256 := by
      rw [List.forall_mem_singleton]
      omega
    exact getNextCode_one (byteAt_map hb s Nat.zero_lt_one) (Nat.lt_succ_of_le h1)
  · have hb : ∀ b ∈ [v / 64 % 0x20 + 0xc0, v % 0x40 + 0x80], b < 256 := by
      simp only [List.forall_mem_cons, List.not_mem_nil, false_imp_iff, implies_true, and_true]
      omega
    have hrun := getNextCode_two (byteAt_map hb s (by simp)) (Nat.mod_lt _ (by decide))
      (byteAt_map hb s (by simp)) (hmod v)
    exact hrun.trans (congrArg some (Prod.ext (by simp only; omega) rfl))
  · have hb : ∀ b ∈ [v / 4096 % 0x10 + 0xe0, v / 64 % 0x40 + 0x80, v % 0x40 + 0x80], b < 256 := by
      simp only [List.forall_mem_cons, List.not_mem_nil, false_imp_iff, implies_true, and_true]
      omega
    have hrun := getNextCode_three (byteAt_map hb s (by simp)) (Nat.mod_lt _ (by decide))
      (byteAt_map hb s (by simp)) (hmod _) (byteAt_map hb s (by simp)) (hmod v)
    exact hrun.trans (congrArg some (Prod.ext (by simp only; omega) rfl))
  · have hb : ∀ b ∈ [v / 262144 % 0x08 + 0xf0, v / 4096 % 0x40 + 0x80, v / 64 % 0x40 + 0x80,
        v % 0x40 + 0x80], b < 256 := by
      simp only [List.forall_mem_cons, List.not_mem_nil, false_imp_iff, implies_true, and_true]
      omega
    have hrun := getNextCode_four (byteAt_map hb s (by simp)) (Nat.mod_lt _ (by decide))
      (byteAt_map hb s (by simp)) (hmod _) (byteAt_map hb s (by simp)) (hmod _)
      (byteAt_map hb s (by simp)) (hmod v)
    exact hrun.trans (congrArg some (Prod.ext (by simp only; omega) rfl))

/-! ## Encoding -/

theorem field (v i n : ℕ) : (v &&& (2 ^ n - 1) <<< i) >>> i = v / 2 ^ i % 2 ^ n := by
  rw [Nat.shiftRight_and_distrib, Nat.shiftLeft_shiftRight, Nat.and_two_pow_sub_one_eq_mod,
    Nat.shiftRight_eq_div_pow]

/-- What the shift by 16 leaves of the plane. -/
theorem planeBits : ∀ y < 0x11, y &&& 0x1c = y / 4 * 4 := by
  decide

/-- The encoder's bytes as sums. The lead byte of four takes its bits from the wrong place. -/
theorem cUtf8_eq {v : ℕ} (hv : v < 0x110000) : cUtf8 v =
    if v ≤ 0x7f then [v]
    else if v ≤ 0x7ff then [v / 64 % 0x20 + 0xc0, v % 0x40 + 0x80]
    else if v ≤ 0xffff then [v / 4096 % 0x10 + 0xe0, v / 64 % 0x40 + 0x80, v % 0x40 + 0x80]
    else [0xf0 ||| v / 262144 * 4, v / 4096 % 0x40 + 0x80, v / 64 % 0x40 + 0x80,
      v % 0x40 + 0x80] := by
  have htail : ∀ x, 0x80 ||| x % 0x40 = x % 0x40 + 0x80 := fun x =>
    (tail_byte _ (Nat.mod_lt _ (by decide))).2
  have h0 : v &&& 0x3f = v % 0x40 := Nat.and_two_pow_sub_one_eq_mod v 6
  have h1 : (v &&& 0xfc0) >>> 6 = v / 64 % 0x40 := field v 6 6
  have h2 : (v &&& 0x3f000) >>> 12 = v / 4096 % 0x40 := field v 12 6
  have h3 : (v &&& 0x7c0) >>> 6 = v / 64 % 0x20 := field v 6 5
  have h4 : (v &&& 0xf000) >>> 12 = v / 4096 % 0x10 := field v 12 4
  have h5 : (v &&& 0x1c0000) >>> 16 = v / 262144 * 4 := by
    have hplane := planeBits (v / 2 ^ 16) (by omega)
    rw [Nat.shiftRight_and_distrib, Nat.shiftRight_eq_div_pow]
    exact hplane.trans (by omega)
  unfold cUtf8
  rw [h0, h1, h2, h3, h4, h5, htail, htail, htail,
    (lead_two _ (Nat.mod_lt _ (by decide))).2.2.2, (lead_three _ (Nat.mod_lt _ (by decide))).2.2.2.2]

theorem length_cUtf8 (v : ℕ) : (cUtf8 v).length = utf8Length v := by
  unfold cUtf8 utf8Length
  split_ifs <;> rfl

theorem planeLead : ∀ y < 5, (0xf0 ||| y * 4) < 0x100 ∧ 0xf0 ≤ (0xf0 ||| y * 4) ∧
    (0xf0 ||| y * 4 = y + 0xf0 ↔ y = 0) := by
  decide

theorem bounds_cUtf8 {v b : ℕ} (h0 : 0 < v) (hv : v < 0x110000) (hb : b ∈ cUtf8 v) :
    0 < b ∧ b < 0x100 := by
  have hplane := planeLead (v / 262144) (by omega)
  rw [cUtf8_eq hv] at hb
  split_ifs at hb
  · rw [List.mem_singleton] at hb
    omega
  all_goals
    simp only [List.mem_cons, List.not_mem_nil, or_false] at hb
    omega

theorem unicodeToUtf8_eq {v : ℕ} (h0 : 0 < v) (hv : v < 0x110000) :
    unicodeToUtf8 v = (cUtf8 v).map UInt8.ofNat := by
  rw [unicodeToUtf8, List.takeWhile_eq_self_iff]
  simp only [List.mem_map, forall_exists_index, and_imp, forall_apply_eq_imp_iff₂]
  intro b hb
  obtain ⟨hpos, hlt⟩ := bounds_cUtf8 h0 hv hb
  rw [decide_eq_true_eq, ne_eq, ← UInt8.toNat_inj]
  simp only [UInt8.toNat_ofNat', UInt8.toNat_zero]
  omega

/-- Below U+40000 the encoder is right, and above it is wrong. -/
theorem unicodeToUtf8_eq_iff (hc : 0 < c.toNat) :
    unicodeToUtf8 c.toNat = String.utf8EncodeChar c ↔ c.toNat < 0x40000 := by
  have hlt := toNat_lt c
  have hplane := planeLead (c.toNat / 262144) (by omega)
  rw [unicodeToUtf8_eq hc hlt, utf8EncodeChar_eq, cUtf8_eq hlt]
  generalize c.toNat = v at hlt hplane
  split_ifs with h1 h2 h3
  · exact iff_of_true rfl (by omega)
  · exact iff_of_true rfl (by omega)
  · exact iff_of_true rfl (by omega)
  · have hmod : v / 262144 % 0x08 = v / 262144 := Nat.mod_eq_of_lt (by omega)
    rw [hmod]
    simp only [List.map_cons, List.cons.injEq, and_true, ← UInt8.toNat_inj, UInt8.toNat_ofNat']
    omega

/-! ## Strings -/

/-- A string in UTF-8. -/
def encode (cs : List Char) : List UInt8 :=
  cs.flatMap String.utf8EncodeChar

/-- The upper case of a character. -/
def upcase (c : Char) : Char :=
  Char.ofNat (unicodeUpper c.toNat)

theorem toNat_upcase (c : Char) : (upcase c).toNat = unicodeUpper c.toNat := by
  have hvalid : (unicodeUpper c.toNat).isValidChar := by
    rcases c.valid with h | ⟨h1, h2⟩
    · exact .inl (unicodeUpper_mem (.inl rfl) (.inl (by decide)) ⟨Nat.zero_le _, h⟩).2
    · exact .inr (unicodeUpper_mem (.inr (.inl (by decide))) (.inr (by decide)) ⟨h1, h2⟩)
  rw [upcase, Char.ofNat, dif_pos hvalid]
  rfl

theorem upcase_pos (hc : 0 < c.toNat) : 0 < (upcase c).toNat := by
  rw [toNat_upcase]
  exact unicodeUpper_pos hc

theorem upcase_idem (c : Char) : upcase (upcase c) = upcase c := by
  rw [upcase, toNat_upcase, unicodeUpper_idem, ← upcase]

theorem upcase_eq_iff {d : Char} (hd : d.toNat < 0x41) : upcase c = d ↔ c = d := by
  rw [← Char.toNat_inj, toNat_upcase, unicodeUpper_eq_iff hd, Char.toNat_inj]

theorem length_utf8EncodeChar (c : Char) :
    (String.utf8EncodeChar c).length = utf8Length c.toNat := by
  rw [utf8EncodeChar_eq, utf8Length]
  split_ifs <;> rfl

theorem utf8Length_pos (x : ℕ) : 0 < utf8Length x := by
  unfold utf8Length
  split_ifs <;> decide

/-- The loop of `utf8_upper` looks at a character that is not the terminator. -/
theorem exists_byteAt_utf8EncodeChar (hc : 0 < c.toNat) (s : List UInt8) :
    ∃ b, byteAt (String.utf8EncodeChar c ++ s) 0 = some b ∧ b ≠ 0 := by
  have hlt := toNat_lt c
  rw [utf8EncodeChar_eq]
  generalize c.toNat = v at hc hlt
  have hhead : ∀ {b : ℕ} {l : List ℕ}, 0 < b → b < 256 →
      ∃ b', byteAt ((b :: l).map UInt8.ofNat ++ s) 0 = some b' ∧ b' ≠ 0 := by
    intro b l hpos hb
    refine ⟨b, ?_, hpos.ne'⟩
    simp [byteAt, Nat.mod_eq_of_lt hb]
  split_ifs
  · exact hhead hc (by omega)
  · exact hhead (by omega) (by omega)
  · exact hhead (by omega) (by omega)
  · exact hhead (by omega) (by omega)

/-- `utf8_upper` looks up and encodes every character, and ends at the terminator. -/
theorem upperLoop_eq {cs : List Char} (hcs : ∀ c ∈ cs, 0 < c.toNat) (p acc : List UInt8) {fuel : ℕ}
    (hfuel : cs.length < fuel) : upperLoop (p ++ encode cs) fuel p.length acc =
      some (acc ++ cs.flatMap fun c => unicodeToUtf8 (upcase c).toNat) := by
  induction cs generalizing p acc fuel with
  | nil =>
    obtain ⟨fuel, rfl⟩ := Nat.exists_eq_add_of_lt hfuel
    have hbyte : byteAt (p ++ encode []) p.length = some 0 := byteAt_append p [] 0
    simp [upperLoop, hbyte]
  | cons c cs ih =>
    obtain ⟨hc, hcs⟩ := List.forall_mem_cons.1 hcs
    obtain ⟨fuel, rfl⟩ : ∃ k, fuel = k + 1 := ⟨fuel - 1, by omega⟩
    obtain ⟨b, hb, hb0⟩ := exists_byteAt_utf8EncodeChar hc (encode cs)
    have hbyte := byteAt_append p (encode (c :: cs)) 0
    have hcode := getNextCode_append p (encode (c :: cs))
    have hnext := ih hcs (p ++ String.utf8EncodeChar c)
      (acc ++ unicodeToUtf8 (upcase c).toNat) (Nat.lt_of_succ_lt_succ hfuel)
    rw [List.length_append, length_utf8EncodeChar, List.append_assoc, toNat_upcase] at hnext
    rw [Nat.add_zero] at hbyte
    rw [upperLoop, hbyte, hcode]
    simp only [encode, List.flatMap_cons] at hb hnext ⊢
    simp only [hb, Option.bind_eq_bind, Option.bind_some, if_neg hb0,
      getNextCode_utf8EncodeChar, hnext, List.append_assoc, toNat_upcase]

theorem length_le_encode (cs : List Char) : cs.length ≤ (encode cs).length := by
  induction cs with
  | nil => exact Nat.zero_le _
  | cons c cs ih =>
    have hpos := utf8Length_pos c.toNat
    rw [encode, List.flatMap_cons, List.length_append, length_utf8EncodeChar, List.length_cons,
      ← encode]
    omega

theorem utf8Upper_encode {cs : List Char} (hcs : ∀ c ∈ cs, 0 < c.toNat) : utf8Upper (encode cs) =
    some (cs.flatMap fun c => unicodeToUtf8 (upcase c).toNat) :=
  upperLoop_eq hcs [] [] (Nat.lt_succ_of_le (length_le_encode cs))

/-! ## Comparison -/

/-- The folded codes. -/
def folds (cs : List Char) : List ℕ :=
  cs.map fun c => unicodeUpper c.toNat

/-- The order of two lists of codes, as a result of `utf8_casencmp`. -/
def orderOf (a b : List ℕ) : ℤ :=
  if a < b then -1 else if b < a then 1 else 0

section Order

variable {a b : List ℕ}

theorem orderOf_cons_of_lt (h : x < y) : orderOf (x :: a) (y :: b) = -1 :=
  if_pos (List.cons_lt_cons_iff.2 (.inl h))

theorem orderOf_cons_of_gt (h : y < x) : orderOf (x :: a) (y :: b) = 1 := by
  have hlt : y :: b < x :: a := List.cons_lt_cons_iff.2 (.inl h)
  rw [orderOf, if_neg (not_lt_of_gt hlt), if_pos hlt]

theorem orderOf_cons_self : orderOf (x :: a) (x :: b) = orderOf a b := by
  simp [orderOf]

theorem orderOf_eq_zero_iff : orderOf a b = 0 ↔ a = b := by
  unfold orderOf
  rcases lt_trichotomy a b with h | rfl | h
  · simp [h, h.ne]
  · simp
  · simp [h, h.not_gt, h.ne']

theorem orderOf_swap (a b : List ℕ) : orderOf b a = -orderOf a b := by
  unfold orderOf
  rcases lt_trichotomy a b with h | rfl | h
  · simp [h, h.not_gt]
  · simp
  · simp [h, h.not_gt]

theorem orderOf_nonpos_iff : orderOf a b ≤ 0 ↔ a ≤ b := by
  unfold orderOf
  rcases lt_trichotomy a b with h | rfl | h
  · simp [h, h.le]
  · simp
  · simp [h, h.not_gt, h.not_ge]

end Order

theorem encode_nil : encode [] = [] := rfl

theorem encode_cons (c : Char) (cs : List Char) :
    encode (c :: cs) = String.utf8EncodeChar c ++ encode cs :=
  List.flatMap_cons

theorem folds_cons (c : Char) (cs : List Char) :
    folds (c :: cs) = unicodeUpper c.toNat :: folds cs := rfl

theorem length_encode_cons (c : Char) (cs : List Char) :
    0 < utf8Length c.toNat ∧
      (encode (c :: cs)).length = utf8Length c.toNat + (encode cs).length := by
  rw [encode_cons, List.length_append, length_utf8EncodeChar]
  exact ⟨utf8Length_pos _, rfl⟩

/-- Since folding keeps the length of a code point, the offset of the first string is one in the
second while the codes agree. -/
theorem casencmpLoop_eq (cs ds : List Char) (p q : List UInt8) (hpq : p.length = q.length)
    {fuel : ℕ} (hfuel : cs.length < fuel) :
    casencmpLoop (p ++ encode cs).length (p ++ encode cs) (q ++ encode ds).length (q ++ encode ds)
      fuel p.length = some (orderOf (folds cs) (folds ds)) := by
  obtain ⟨fuel, rfl⟩ : ∃ k, fuel = k + 1 := ⟨fuel - 1, by omega⟩
  induction cs generalizing ds p q fuel with
  | nil =>
    rw [casencmpLoop, if_neg (by simp [encode_nil])]
    cases ds with
    | nil => simp [encode_nil, hpq, orderOf, folds]
    | cons d ds =>
      have hlen := length_encode_cons d ds
      rw [if_pos (by simp only [List.length_append, encode_nil, List.length_nil]; omega)]
      rfl
  | cons c cs ih =>
    have hclen := length_encode_cons c cs
    rw [casencmpLoop]
    cases ds with
    | nil =>
      rw [if_neg (by simp [encode_nil, hpq]), if_neg, if_pos]
      · rfl
      · simp only [List.length_append, encode_nil, List.length_nil]
        omega
      · simp only [List.length_append, encode_nil, List.length_nil]
        omega
    | cons d ds =>
      have hdlen := length_encode_cons d ds
      have hcode1 : getNextCode (p ++ encode (c :: cs)) p.length =
          some (c.toNat, utf8Length c.toNat) := by
        rw [getNextCode_append, encode_cons, getNextCode_utf8EncodeChar]
      have hcode2 : getNextCode (q ++ encode (d :: ds)) p.length =
          some (d.toNat, utf8Length d.toNat) := by
        rw [hpq, getNextCode_append, encode_cons, getNextCode_utf8EncodeChar]
      rw [if_pos (by simp only [List.length_append]; omega), folds_cons, folds_cons]
      simp only [hcode1, hcode2, Option.bind_eq_bind, Option.bind_some]
      rcases lt_trichotomy (unicodeUpper c.toNat) (unicodeUpper d.toNat) with hlt | heq | hgt
      · rw [if_pos hlt, orderOf_cons_of_lt hlt]
      · have hsame : utf8Length d.toNat = utf8Length c.toNat := by
          rw [← length_unicodeUpper, ← heq, length_unicodeUpper]
        obtain ⟨k, rfl⟩ : ∃ k, fuel = k + 1 := ⟨fuel - 1, by simp at hfuel; omega⟩
        have hnext := ih ds (p ++ String.utf8EncodeChar c) (q ++ String.utf8EncodeChar d)
          (by simp only [List.length_append, length_utf8EncodeChar, hpq, hsame]) k
          (Nat.lt_of_succ_lt_succ hfuel)
        have hp : (p ++ String.utf8EncodeChar c).length = p.length + utf8Length c.toNat := by
          rw [List.length_append, length_utf8EncodeChar]
        rw [hp, List.append_assoc, List.append_assoc, ← encode_cons, ← encode_cons] at hnext
        rw [if_neg heq.not_lt, if_neg heq.not_gt, hnext, heq, orderOf_cons_self]
      · rw [if_neg hgt.not_gt, if_pos hgt, orderOf_cons_of_gt hgt]

theorem utf8Casencmp_eq (cs ds : List Char) :
    utf8Casencmp (encode cs).length (encode cs) (encode ds).length (encode ds) =
      some (orderOf (folds cs) (folds ds)) :=
  casencmpLoop_eq cs ds [] [] rfl (Nat.lt_succ_of_le (length_le_encode cs))

/-! ## Folding and comparing -/

/-- `utf8_casencmp` of the full lengths. -/
def casecmp (s t : List UInt8) : Option ℤ :=
  utf8Casencmp s.length s t.length t

/-- `utf8_upper` gives the encoding of the folded string, and folding that again changes
nothing. -/
structure UpperRight (s : List Char) : Prop where
  upper : utf8Upper (encode s) = some (encode (s.map upcase))
  idem : (utf8Upper (encode s)).bind utf8Upper = utf8Upper (encode s)

/-- Folding and comparison of the names in `S` agree, and the comparison is an order. -/
structure FoldsConsistently (S : Set (List Char)) : Prop where
  upper : ∀ s ∈ S, UpperRight s
  zero_iff : ∀ s ∈ S, ∀ t ∈ S, casecmp (encode s) (encode t) = some 0 ↔
    utf8Upper (encode s) = utf8Upper (encode t)
  antisymm : ∀ s ∈ S, ∀ t ∈ S, ∃ r, casecmp (encode s) (encode t) = some r ∧
    casecmp (encode t) (encode s) = some (-r)
  trans : ∀ s ∈ S, ∀ t ∈ S, ∀ u ∈ S, ∀ r₁ r₂, casecmp (encode s) (encode t) = some r₁ →
    casecmp (encode t) (encode u) = some r₂ → r₁ ≤ 0 → r₂ ≤ 0 →
    ∃ r₃ ≤ 0, casecmp (encode s) (encode u) = some r₃

section Folding

variable {cs ds : List Char}

theorem casecmp_encode (cs ds : List Char) :
    casecmp (encode cs) (encode ds) = some (orderOf (folds cs) (folds ds)) :=
  utf8Casencmp_eq cs ds

/-- Concatenations of pieces as long as each other are the same if the pieces are. -/
theorem flatMap_eq_flatMap_iff {α β : Type*} {f g : α → List β} (l : List α)
    (h : ∀ x ∈ l, (f x).length = (g x).length) :
    l.flatMap f = l.flatMap g ↔ ∀ x ∈ l, f x = g x := by
  induction l with
  | nil => simp
  | cons x l ih =>
    obtain ⟨hx, hl⟩ := List.forall_mem_cons.1 h
    rw [List.flatMap_cons, List.flatMap_cons, List.forall_mem_cons, ← ih hl]
    constructor
    · exact fun heq => List.append_inj heq hx
    · rintro ⟨hhead, htail⟩
      rw [hhead, htail]

theorem encode_injective : Function.Injective encode := by
  intro cs
  induction cs with
  | nil =>
    intro ds h
    cases ds with
    | nil => rfl
    | cons d ds =>
      have hlen := length_encode_cons d ds
      rw [← h, encode_nil, List.length_nil] at hlen
      omega
  | cons c cs ih =>
    intro ds h
    cases ds with
    | nil =>
      have hlen := length_encode_cons c cs
      rw [h, encode_nil, List.length_nil] at hlen
      omega
    | cons d ds =>
      have hc := getNextCode_utf8EncodeChar c (encode cs)
      have hd := getNextCode_utf8EncodeChar d (encode ds)
      rw [encode_cons, encode_cons] at h
      rw [h, hd, Option.some.injEq, Prod.mk.injEq] at hc
      obtain rfl : d = c := Char.toNat_inj.1 hc.1
      rw [ih (List.append_cancel_left h)]

theorem folds_eq_iff : folds cs = folds ds ↔ cs.map upcase = ds.map upcase := by
  have hfolds : ∀ cs, folds cs = (cs.map upcase).map Char.toNat := by
    intro cs
    simp [folds, toNat_upcase]
  rw [hfolds, hfolds]
  exact (List.map_injective_iff.2 fun _ _ => Char.toNat_inj.1).eq_iff

/-- Folding does not cross U+40000. -/
theorem toNat_upcase_lt_iff (c : Char) : (upcase c).toNat < 0x40000 ↔ c.toNat < 0x40000 := by
  rw [toNat_upcase]
  constructor
  · intro h
    by_contra hc
    have hge := unicodeUpper_mem (.inr (.inr (by decide))) (.inr (by decide))
      ⟨Nat.le_of_not_lt hc, toNat_lt c⟩
    omega
  · intro h
    exact (unicodeUpper_mem (.inl rfl) (.inr (by decide)) ⟨Nat.zero_le _, h⟩).2

theorem utf8Upper_eq_iff (hcs : ∀ c ∈ cs, 0 < c.toNat) :
    utf8Upper (encode cs) = some (encode (cs.map upcase)) ↔ ∀ c ∈ cs, c.toNat < 0x40000 := by
  have hlen : ∀ c ∈ cs, (unicodeToUtf8 (upcase c).toNat).length =
      (String.utf8EncodeChar (upcase c)).length := by
    intro c hc
    rw [unicodeToUtf8_eq (upcase_pos (hcs c hc)) (toNat_lt _), List.length_map, length_cUtf8,
      length_utf8EncodeChar]
  rw [utf8Upper_encode hcs, Option.some_inj, encode, List.flatMap_map,
    flatMap_eq_flatMap_iff cs hlen]
  refine forall₂_congr fun c hc => ?_
  rw [unicodeToUtf8_eq_iff (upcase_pos (hcs c hc)), toNat_upcase_lt_iff]

theorem upperRight_iff (hcs : ∀ c ∈ cs, 0 < c.toNat) :
    UpperRight cs ↔ ∀ c ∈ cs, c.toNat < 0x40000 := by
  rw [← utf8Upper_eq_iff hcs]
  refine ⟨UpperRight.upper, fun h => ⟨h, ?_⟩⟩
  have hmap : ∀ c ∈ cs.map upcase, 0 < c.toNat ∧ c.toNat < 0x40000 := by
    have hlt := (utf8Upper_eq_iff hcs).1 h
    simp only [List.forall_mem_map]
    exact fun c hc => ⟨upcase_pos (hcs c hc), (toNat_upcase_lt_iff c).2 (hlt c hc)⟩
  have hfix : (cs.map upcase).map upcase = cs.map upcase := by
    rw [List.map_map]
    exact List.map_congr_left fun c _ => upcase_idem c
  have hagain := (utf8Upper_eq_iff fun c hc => (hmap c hc).1).2 fun c hc => (hmap c hc).2
  rw [h, Option.bind_some, hagain, hfix]

/-- Names fold and compare as they should exactly if they stay below U+40000. -/
theorem foldsConsistently_iff {S : Set (List Char)} (hS : ∀ s ∈ S, ∀ c ∈ s, 0 < c.toNat) :
    FoldsConsistently S ↔ ∀ s ∈ S, ∀ c ∈ s, c.toNat < 0x40000 := by
  constructor
  · intro h s hs
    exact (upperRight_iff (hS s hs)).1 (h.upper s hs)
  · intro h
    have hupper : ∀ s ∈ S, UpperRight s := fun s hs => (upperRight_iff (hS s hs)).2 (h s hs)
    refine ⟨hupper, ?_, ?_, ?_⟩
    · intro s hs t ht
      rw [casecmp_encode, Option.some_inj, orderOf_eq_zero_iff, folds_eq_iff,
        (hupper s hs).upper, (hupper t ht).upper, Option.some_inj, encode_injective.eq_iff]
    · intro s _ t _
      exact ⟨_, casecmp_encode s t, by rw [casecmp_encode, orderOf_swap]⟩
    · intro s _ t _ u _ r₁ r₂ hst htu h₁ h₂
      rw [casecmp_encode, Option.some_inj] at hst htu
      rw [← hst, orderOf_nonpos_iff] at h₁
      rw [← htu, orderOf_nonpos_iff] at h₂
      exact ⟨_, orderOf_nonpos_iff.2 (h₁.trans h₂), casecmp_encode s u⟩

/-- Two spellings of one name. -/
theorem foldsConsistently_spellings : FoldsConsistently {['a', 'Ä'], ['A', 'ä']} :=
  (foldsConsistently_iff (by simp)).2 (by simp)

/-- The lead byte of U+40000 is `F1`, and `utf8_upper` makes it `F4`. -/
theorem not_foldsConsistently_plane4 :
    ¬ FoldsConsistently {[Char.ofNat 0x40000]} := by
  intro h
  have hupper := (h.upper _ rfl).upper
  have hcode : utf8Upper (encode [Char.ofNat 0x40000]) = some [0xf4, 0x80, 0x80, 0x80] := by
    decide
  have hright : encode ([Char.ofNat 0x40000].map upcase) = [0xf1, 0x80, 0x80, 0x80] := by
    decide
  rw [hcode, hright] at hupper
  exact absurd hupper (by decide)

end Folding

end PersonalCloud.DatasetDb
