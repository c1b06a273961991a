import Mathlib.Data.List.TakeWhile
import Mathlib.Tactic.Ring

/-!
# ASCII text

Text as bytes, and the character classes of the C locale: no byte from 0x80 on is in any of
them.

## Main definitions

* `ascii`, `asciiBytes` — the bytes of characters and of texts.
* `hexDigit?` — the value of a hexadecimal digit.
* `strtoull` — the number that a text starts with.
-/

namespace PersonalCloud.Lib

def ascii (ch : Char) : UInt8 :=
  UInt8.ofNat ch.toNat

def asciiBytes (text : String) : List UInt8 :=
  text.toList.map ascii

def isdigit (c : UInt8) : Bool :=
  ascii '0' ≤ c && c ≤ ascii '9'

def islower (c : UInt8) : Bool :=
  ascii 'a' ≤ c && c ≤ ascii 'z'

def isupper (c : UInt8) : Bool :=
  ascii 'A' ≤ c && c ≤ ascii 'Z'

def isalnum (c : UInt8) : Bool :=
  isdigit c || islower c || isupper c

def isxdigit (c : UInt8) : Bool :=
  isdigit c || (ascii 'a' ≤ c && c ≤ ascii 'f') || (ascii 'A' ≤ c && c ≤ ascii 'F')

/-- Blank, tab, newline, vertical tab, form feed and carriage return. -/
def isspace (c : UInt8) : Bool :=
  c == 32 || (9 ≤ c && c ≤ 13)

/-- The value of a hexadecimal digit of either case. -/
def hexDigit? (c : UInt8) : Option ℕ :=
  if isdigit c then some (c.toNat - 48)
  else if ascii 'a' ≤ c ∧ c ≤ ascii 'f' then some (c.toNat - 97 + 10)
  else if ascii 'A' ≤ c ∧ c ≤ ascii 'F' then some (c.toNat - 65 + 10)
  else none

/-- The number that decimal digits stand for. -/
def decimal (digits : List UInt8) : ℕ :=
  digits.foldl (fun n c => 10 * n + (c.toNat - 48)) 0

/-- `strtoull(s, NULL, 10)`: blanks, a sign, digits. A number that is too large is the largest
one, and a minus sign negates modulo 2^64. -/
def strtoull (s : List UInt8) : UInt64 :=
  let s := s.dropWhile isspace
  let negative := s.head? = some (ascii '-')
  let digits := if negative ∨ s.head? = some (ascii '+') then s.tail else s
  let n := decimal (digits.takeWhile isdigit)
  if 2 ^ 64 ≤ n then 0 - 1 else if negative then 0 - .ofNat n else .ofNat n

theorem forall_byte {P : UInt8 → Prop} (h : ∀ n < 256, P (UInt8.ofNat n)) (c : UInt8) : P c := by
  have := h c.toNat c.toNat_lt
  rwa [UInt8.ofNat_toNat] at this

theorem hexDigit?_isSome (c : UInt8) : (hexDigit? c).isSome = isxdigit c := by
  unfold hexDigit? isxdigit
  split_ifs <;> simp_all

theorem isdigit_iff (c : UInt8) : isdigit c = true ↔ 48 ≤ c.toNat ∧ c.toNat ≤ 57 := by
  simp [isdigit, ascii, UInt8.le_iff_toNat_le]

theorem not_isspace_of_isdigit (c : UInt8) (h : isdigit c = true) :
    isspace c = false ∧ c ≠ ascii '-' ∧ c ≠ ascii '+' := by
  obtain ⟨hlow, -⟩ := (isdigit_iff c).1 h
  refine ⟨?_, ?_, ?_⟩
  · have hne : c ≠ 32 := by
      rintro rfl
      exact absurd hlow (by decide)
    have hlt : ¬c.toNat ≤ 13 := by omega
    simp [isspace, hne, UInt8.le_iff_toNat_le, hlt]
  · rintro rfl
    exact absurd hlow (by decide)
  · rintro rfl
    exact absurd hlow (by decide)

/-- A text of digits is its number, or the largest one. -/
theorem toNat_strtoull {s : List UInt8} (h : ∀ c ∈ s, isdigit c = true) :
    (strtoull s).toNat = min (decimal s) (2 ^ 64 - 1) := by
  have hdrop : s.dropWhile isspace = s ∧ s.head? ≠ some (ascii '-') ∧
      s.head? ≠ some (ascii '+') := by
    cases s with
    | nil => exact ⟨rfl, (Option.some_ne_none _).symm, (Option.some_ne_none _).symm⟩
    | cons c s =>
      obtain ⟨hspace, hminus, hplus⟩ := not_isspace_of_isdigit c (h c List.mem_cons_self)
      refine ⟨?_, fun h => hminus (Option.some.inj h), fun h => hplus (Option.some.inj h)⟩
      rw [List.dropWhile_cons, hspace]
      rfl
  have htake : s.takeWhile isdigit = s := List.takeWhile_eq_self_iff.2 h
  unfold strtoull
  rw [hdrop.1]
  dsimp only
  rw [if_neg (not_or_intro hdrop.2.1 hdrop.2.2), htake]
  by_cases hlarge : 2 ^ 64 ≤ decimal s
  · rw [if_pos hlarge, Nat.min_eq_right (by omega)]
    rfl
  · have hlt := not_le.1 hlarge
    rw [if_neg hlarge, if_neg hdrop.2.1, UInt64.toNat_ofNat', Nat.mod_eq_of_lt hlt,
      Nat.min_eq_left (by omega)]

end PersonalCloud.Lib
