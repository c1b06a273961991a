import Mathlib.Data.List.Basic
import Mathlib.Tactic.Ring

/-!
# Bytes in groups of six bits

Three bytes have as many bits as four sextets. Bytes that do not come in threes are completed
by zeros for the last sextet they reach into, and sextets that do not come in fours are
completed by zeros.

## Main definitions

* `toSextets` — the sextets that some bytes reach into.
* `ofSextets` — the bytes of some sextets, three for every group that has been started.

## Main results

* `ofSextets_toSextets` — bytes are found in their sextets again, with zeros behind them.
-/

namespace PersonalCloud.Lib

/-- The bytes of a group of 24 bits. -/
def groupBytes (v24 : ℕ) : List UInt8 :=
  [.ofNat (v24 / 2 ^ 16 % 2 ^ 8), .ofNat (v24 / 2 ^ 8 % 2 ^ 8), .ofNat (v24 % 2 ^ 8)]

/-- The sextets of a group of 24 bits. -/
def groupSextets (v24 : ℕ) : List ℕ :=
  [v24 / 2 ^ 18 % 2 ^ 6, v24 / 2 ^ 12 % 2 ^ 6, v24 / 2 ^ 6 % 2 ^ 6, v24 % 2 ^ 6]

def toSextets : List UInt8 → List ℕ
  | [] => []
  | [x] => (groupSextets (x.toNat * 2 ^ 16)).take 2
  | [x, y] => (groupSextets (x.toNat * 2 ^ 16 + y.toNat * 2 ^ 8)).take 3
  | x :: y :: z :: rest =>
    groupSextets (x.toNat * 2 ^ 16 + y.toNat * 2 ^ 8 + z.toNat) ++ toSextets rest

def ofSextets : List ℕ → List UInt8
  | [] => []
  | [a] => groupBytes (a * 2 ^ 18)
  | [a, b] => groupBytes (a * 2 ^ 18 + b * 2 ^ 12)
  | [a, b, c] => groupBytes (a * 2 ^ 18 + b * 2 ^ 12 + c * 2 ^ 6)
  | a :: b :: c :: d :: rest =>
    groupBytes (a * 2 ^ 18 + b * 2 ^ 12 + c * 2 ^ 6 + d) ++ ofSextets rest

@[simp] theorem length_groupBytes (v24 : ℕ) : (groupBytes v24).length = 3 :=
  rfl

@[simp] theorem length_groupSextets (v24 : ℕ) : (groupSextets v24).length = 4 :=
  rfl

theorem lt_of_mem_groupSextets {v24 v : ℕ} (h : v ∈ groupSextets v24) : v < 64 := by
  simp only [groupSextets, List.mem_cons, List.not_mem_nil, or_false] at h
  omega

theorem lt_of_mem_toSextets {bs : List UInt8} {v : ℕ} (h : v ∈ toSextets bs) : v < 64 := by
  fun_induction toSextets bs with
  | case1 => exact absurd h List.not_mem_nil
  | case2 x => exact lt_of_mem_groupSextets (List.mem_of_mem_take h)
  | case3 x y => exact lt_of_mem_groupSextets (List.mem_of_mem_take h)
  | case4 x y z rest ih => exact (List.mem_append.1 h).elim lt_of_mem_groupSextets ih

theorem length_ofSextets (vs : List ℕ) : (ofSextets vs).length = 3 * ((vs.length + 3) / 4) := by
  fun_induction ofSextets vs with
  | case1 => rfl
  | case2 a => simp
  | case3 a b => simp
  | case4 a b c => simp
  | case5 a b c d rest ih =>
    simp only [List.length_append, length_groupBytes, ih, List.length_cons]
    omega

theorem length_toSextets (bs : List UInt8) : (toSextets bs).length = (4 * bs.length + 2) / 3 := by
  fun_induction toSextets bs with
  | case1 => rfl
  | case2 x => simp
  | case3 x y => simp
  | case4 x y z rest ih =>
    simp only [List.length_append, length_groupSextets, List.length_cons]
    omega

theorem groupBytes_eq {x y z : UInt8} {v24 : ℕ}
    (h : v24 = x.toNat * 2 ^ 16 + y.toNat * 2 ^ 8 + z.toNat) : groupBytes v24 = [x, y, z] := by
  have hx := x.toNat_lt
  have hy := y.toNat_lt
  have hz := z.toNat_lt
  have hbyte : ∀ (b : UInt8) (n : ℕ), n = b.toNat → UInt8.ofNat n = b := fun b n hn => by
    rw [hn, UInt8.ofNat_toNat]
  rw [groupBytes, hbyte x _ (by omega), hbyte y _ (by omega), hbyte z _ (by omega)]

theorem ofSextets_toSextets (bs : List UInt8) : ∃ pad, ofSextets (toSextets bs) = bs ++ pad := by
  fun_induction toSextets bs with
  | case1 => exact ⟨[], rfl⟩
  | case2 x =>
    have hx := x.toNat_lt
    refine ⟨[0, 0], groupBytes_eq ?_⟩
    rw [UInt8.toNat_zero]
    omega
  | case3 x y =>
    have hx := x.toNat_lt
    have hy := y.toNat_lt
    refine ⟨[0], groupBytes_eq ?_⟩
    rw [UInt8.toNat_zero]
    omega
  | case4 x y z rest ih =>
    obtain ⟨pad, hpad⟩ := ih
    have hx := x.toNat_lt
    have hy := y.toNat_lt
    have hz := z.toNat_lt
    refine ⟨pad, ?_⟩
    change groupBytes _ ++ ofSextets (toSextets rest) = _
    rw [hpad, groupBytes_eq (x := x) (y := y) (z := z) (by omega)]
    rfl

end PersonalCloud.Lib
