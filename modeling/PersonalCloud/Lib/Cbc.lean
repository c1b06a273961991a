import Mathlib.Logic.Equiv.Defs
import Mathlib.Logic.Equiv.Basic
import Mathlib.GroupTheory.Perm.Basic

/-!
# Cipher block chaining

A block cipher under one key is a permutation `E` of the blocks. `Cbc.encrypt` adds to each
block the ciphertext of the block before, and the initialisation vector to the first.
-/

namespace PersonalCloud.Lib.Cbc

variable {w : Nat} (E : Equiv.Perm (BitVec w))

def encrypt : BitVec w → List (BitVec w) → List (BitVec w)
  | _, [] => []
  | iv, p :: ps => E (p ^^^ iv) :: encrypt (E (p ^^^ iv)) ps

def decrypt : BitVec w → List (BitVec w) → List (BitVec w)
  | _, [] => []
  | iv, c :: cs => (E.symm c ^^^ iv) :: decrypt c cs

@[simp] theorem length_encrypt (iv : BitVec w) (ps : List (BitVec w)) :
    (encrypt E iv ps).length = ps.length := by
  induction ps generalizing iv with
  | nil => rfl
  | cons p ps ih => simp [encrypt, ih]

@[simp] theorem length_decrypt (iv : BitVec w) (cs : List (BitVec w)) :
    (decrypt E iv cs).length = cs.length := by
  induction cs generalizing iv with
  | nil => rfl
  | cons c cs ih => simp [decrypt, ih]

theorem decrypt_encrypt (iv : BitVec w) (ps : List (BitVec w)) :
    decrypt E iv (encrypt E iv ps) = ps := by
  induction ps generalizing iv with
  | nil => rfl
  | cons p ps ih =>
    rw [encrypt, decrypt, ih, E.symm_apply_apply, BitVec.xor_assoc, BitVec.xor_self,
      BitVec.xor_zero]

/-- A message may be encrypted in two parts when the second starts from the last block of
the first. -/
theorem encrypt_append (iv : BitVec w) (ps qs : List (BitVec w)) :
    encrypt E iv (ps ++ qs) =
      encrypt E iv ps ++ encrypt E ((encrypt E iv ps).getLastD iv) qs := by
  induction ps generalizing iv with
  | nil => rfl
  | cons p ps ih =>
    rw [List.cons_append, encrypt, ih, encrypt, List.cons_append, List.getLastD_cons]

/-- There is a cipher that takes two given blocks to two given others. -/
theorem exists_perm_apply {x y a b : BitVec w} (hxy : x ≠ y) (hab : a ≠ b) :
    ∃ E : Equiv.Perm (BitVec w), E x = a ∧ E y = b := by
  have hy : Equiv.swap x a y ≠ a := by
    intro h
    apply hxy
    apply (Equiv.swap x a).injective
    rw [h, Equiv.swap_apply_left]
  refine ⟨(Equiv.swap x a).trans (Equiv.swap (Equiv.swap x a y) b), ?_, ?_⟩
  · rw [Equiv.trans_apply, Equiv.swap_apply_left, Equiv.swap_apply_of_ne_of_ne hy.symm hab]
  · rw [Equiv.trans_apply, Equiv.swap_apply_left]

end PersonalCloud.Lib.Cbc
