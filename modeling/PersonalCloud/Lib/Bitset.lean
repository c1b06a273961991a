import Mathlib.Tactic.Ring
import Mathlib.Data.Nat.Bitwise

/-!
# Bitsets over words

A set of numbers as a vector of 32-bit words: bit `b % 32` of word `b / 32` says whether `b`
is in the set. The operations are written with the shifts and masks that code does them
with; the lemmas say what they do to membership.
-/

namespace PersonalCloud.Lib

/-- The set of some of the numbers below `32 * n`. -/
abbrev Bitset (n : Nat) := Vector UInt32 n

namespace Bitset

variable {n : Nat}

def empty : Bitset n := Vector.replicate n 0

def full : Bitset n := Vector.replicate n 0xffffffff

/-- The word of a bit, and the bit in it. -/
def word (w : Bitset n) (b : UInt32) : UInt32 := w[(b >>> 5).toNat]?.getD 0

def mask (b : UInt32) : UInt32 := 1 <<< (b &&& 31)

def mem (w : Bitset n) (b : UInt32) : Bool := w.word b &&& mask b != 0

def insert (w : Bitset n) (b : UInt32) : Bitset n :=
  w.setIfInBounds (b >>> 5).toNat (w.word b ||| mask b)

def erase (w : Bitset n) (b : UInt32) : Bitset n :=
  w.setIfInBounds (b >>> 5).toNat (w.word b &&& ~~~mask b)

theorem toNat_mask (b : UInt32) : (mask b).toNat = 2 ^ (b.toNat % 32) := by
  have hlow : (b &&& 31).toNat = b.toNat % 32 := by
    rw [UInt32.toNat_and]
    exact Nat.and_two_pow_sub_one_eq_mod b.toNat 5
  have hlt : 2 ^ (b.toNat % 32) < 2 ^ 32 := Nat.pow_lt_pow_right (by omega) (by omega)
  rw [mask, UInt32.toNat_shiftLeft, hlow, Nat.mod_mod, UInt32.toNat_one, Nat.one_shiftLeft]
  exact Nat.mod_eq_of_lt hlt

theorem getLsbD_mask (b : UInt32) (j : Nat) :
    (mask b).toBitVec.getLsbD j = decide (b.toNat % 32 = j) := by
  rw [← BitVec.testBit_toNat, UInt32.toNat_toBitVec, toNat_mask, Nat.testBit_two_pow]

theorem and_mask_ne_zero (x b : UInt32) :
    (x &&& mask b != 0) = x.toBitVec.getLsbD (b.toNat % 32) := by
  rw [Bool.eq_iff_iff, bne_iff_ne, ne_eq, ← UInt32.toNat_inj, UInt32.toNat_and, toNat_mask,
    Nat.and_two_pow, ← BitVec.testBit_toNat, UInt32.toNat_toBitVec]
  cases x.toNat.testBit (b.toNat % 32) <;> simp

theorem toNat_shiftRight_five (b : UInt32) : (b >>> 5).toNat = b.toNat / 32 := by
  simp [UInt32.toNat_shiftRight, Nat.shiftRight_eq_div_pow]

theorem word_eq_of_div_eq (w : Bitset n) {b c : UInt32} (h : b.toNat / 32 = c.toNat / 32) :
    w.word b = w.word c := by
  rw [word, word, toNat_shiftRight_five, toNat_shiftRight_five, h]

theorem word_set (w : Bitset n) {b c : UInt32} (hb : b.toNat < 32 * n) (x : UInt32) :
    word (w.setIfInBounds (b >>> 5).toNat x) c =
      if b.toNat / 32 = c.toNat / 32 then x else w.word c := by
  have hlt : b.toNat / 32 < n := by omega
  simp only [word, toNat_shiftRight_five, Vector.getElem?_setIfInBounds]
  split_ifs <;> simp_all

@[simp] theorem mem_empty (b : UInt32) : (empty : Bitset n).mem b = false := by
  have hword : (empty : Bitset n).word b = 0 := by
    simp only [empty, word, Vector.getElem?_replicate]
    split_ifs <;> rfl
  simp [mem, hword]

theorem mem_insert (w : Bitset n) {b c : UInt32} (hb : b.toNat < 32 * n) :
    (w.insert b).mem c = (decide (b = c) || w.mem c) := by
  have heq : b = c ↔ b.toNat / 32 = c.toNat / 32 ∧ b.toNat % 32 = c.toNat % 32 := by
    rw [← UInt32.toNat_inj]
    omega
  rw [mem, insert, word_set w hb, and_mask_ne_zero, mem, and_mask_ne_zero]
  split_ifs with hw
  · simp [heq, hw, word_eq_of_div_eq w hw, getLsbD_mask, Bool.or_comm]
  · simp [heq, hw]

theorem mem_erase (w : Bitset n) {b c : UInt32} (hb : b.toNat < 32 * n) :
    (w.erase b).mem c = (!decide (b = c) && w.mem c) := by
  have heq : b = c ↔ b.toNat / 32 = c.toNat / 32 ∧ b.toNat % 32 = c.toNat % 32 := by
    rw [← UInt32.toNat_inj]
    omega
  have hlt : c.toNat % 32 < 32 := by omega
  rw [mem, erase, word_set w hb, and_mask_ne_zero, mem, and_mask_ne_zero]
  split_ifs with hw
  · rw [UInt32.toBitVec_and, UInt32.toBitVec_not, BitVec.getLsbD_and, BitVec.getLsbD_not,
      getLsbD_mask]
    simp [heq, hw, word_eq_of_div_eq w hw, Bool.and_comm, hlt]
  · simp [heq, hw]

end Bitset

end PersonalCloud.Lib
