import Mathlib.Data.List.Basic
import Mathlib.Data.UInt

/-!
# Content paths

A content file is stored under a path that is made of its number. The bits of the number are
spread over the directories, so that none of these holds too many entries.

## Main definitions

* `defaultConstructContentPathFromNum` — the path for a number.
* `numOfContentPath` — the number, read back from the path.
* `LiesBelow` — a path needs the other one to be a directory.

## Main results

* `contentPaths_apart` — paths of different numbers are in nobody's way.
-/

namespace PersonalCloud.DatasetDb

/-! ## Hexadecimal digits -/

/-- What a stream writes for an unsigned number after `std::hex`. -/
def hex (n : UInt64) : String :=
  String.ofList (Nat.toDigits 16 n.toNat)

def hexDigitValue (ch : Char) : ℕ :=
  if ch.isDigit then ch.toNat - '0'.toNat else ch.toNat - 'a'.toNat + 10

def hexValue (digits : List Char) : ℕ :=
  digits.foldl (fun n ch => 16 * n + hexDigitValue ch) 0

theorem hexDigitValue_digitChar : ∀ d < 16, hexDigitValue d.digitChar = d := by
  decide

/-- No digit can be taken for a separator or for the mark of a file. -/
theorem digitChar_ne : ∀ d < 16, '/' ≠ Nat.digitChar d ∧ 'x' ≠ Nat.digitChar d := by
  decide

theorem toDigits_induction {motive : ℕ → Prop} (base : ∀ n, n < 16 → motive n)
    (step : ∀ n, 16 ≤ n → motive (n / 16) → motive n) (n : ℕ) : motive n := by
  induction n using Nat.strongRecOn with
  | ind n ih =>
    by_cases hn : n < 16
    · exact base n hn
    · exact step n (by omega) (ih _ (by omega))

theorem hexValue_toDigits (n : ℕ) : hexValue (Nat.toDigits 16 n) = n := by
  induction n using toDigits_induction with
  | base n hn =>
    rw [Nat.toDigits_of_lt_base hn]
    exact (Nat.zero_add _).trans (hexDigitValue_digitChar n hn)
  | step n hn ih =>
    rw [hexValue] at ih
    rw [Nat.toDigits_of_base_le (by decide) hn, hexValue, List.foldl_append, ih, List.foldl_cons,
      List.foldl_nil, hexDigitValue_digitChar _ (Nat.mod_lt n (by decide))]
    omega

theorem exists_digitChar {ch : Char} {n : ℕ} (h : ch ∈ Nat.toDigits 16 n) :
    ∃ d < 16, ch = d.digitChar := by
  induction n using toDigits_induction with
  | base n hn =>
    rw [Nat.toDigits_of_lt_base hn] at h
    exact ⟨n, hn, List.mem_singleton.1 h⟩
  | step n hn ih =>
    rw [Nat.toDigits_of_base_le (by decide) hn, List.mem_append] at h
    obtain h | h := h
    · exact ih h
    · exact ⟨n % 16, Nat.mod_lt n (by decide), List.mem_singleton.1 h⟩

theorem slash_notMem_toDigits (n : ℕ) : '/' ∉ Nat.toDigits 16 n := by
  intro h
  obtain ⟨d, hd, h⟩ := exists_digitChar h
  exact (digitChar_ne d hd).1 h

theorem x_notMem_toDigits (n : ℕ) : 'x' ∉ Nat.toDigits 16 n := by
  intro h
  obtain ⟨d, hd, h⟩ := exists_digitChar h
  exact (digitChar_ne d hd).2 h

/-! ## Paths -/

/-- The names of files start with an `x`, those of directories do not. -/
def defaultConstructContentPathFromNum (num : UInt64) : String :=
  if num >>> 30 = 0 then
    hex ((num >>> 20) &&& 0x3ff) ++ "/" ++ hex ((num >>> 10) &&& 0x3ff) ++
      "/x" ++ hex (num &&& 0x3ff)
  else if num >>> 43 = 0 then
    hex ((num >>> 32) &&& 0x7ff) ++ "/" ++ hex ((num >>> 21) &&& 0x7ff) ++
      "/" ++ hex ((num >>> 11) &&& 0x3ff) ++ "/x" ++ hex (num &&& 0x7ff)
  else
    hex (num >>> 46) ++ "/" ++ hex ((num >>> 34) &&& 0xfff) ++
      "/" ++ hex ((num >>> 23) &&& 0x7ff) ++ "/" ++ hex ((num >>> 12) &&& 0x7ff) ++
      "/x" ++ hex (num &&& 0xfff)

def pathComponents (path : String) : List (List Char) :=
  path.toList.splitOn '/'

/-- The number whose path it is. The number of components tells how the bits are spread. -/
def numOfContentPath (path : String) : Option UInt64 :=
  match (pathComponents path).map fun name => hexValue (name.filter (· ≠ 'x')) with
  | [d1, d2, f3] => some (.ofNat (d1 * 2 ^ 20 + d2 * 2 ^ 10 + f3))
  | [d1, d2, d3, f4] => some (.ofNat (d1 * 2 ^ 32 + d2 * 2 ^ 21 + d3 * 2 ^ 11 + f4))
  | [d1, d2, d3, d4, f5] =>
    some (.ofNat (d1 * 2 ^ 46 + d2 * 2 ^ 34 + d3 * 2 ^ 23 + d4 * 2 ^ 12 + f5))
  | _ => none

/-- `q` can only exist if `p` is a directory. -/
def LiesBelow (p q : String) : Prop :=
  ∃ rest, q = p ++ "/" ++ rest

/-! ## The components of a path -/

section Components

variable {num : UInt64} {dirs : List ℕ} {file : ℕ}

/-- The components that are written for the given directories and file. -/
def componentsOf (dirs : List ℕ) (file : ℕ) : List (List Char) :=
  dirs.map (Nat.toDigits 16) ++ ['x' :: Nat.toDigits 16 file]

theorem hexValue_filter_toDigits (n : ℕ) :
    hexValue ((Nat.toDigits 16 n).filter (· ≠ 'x')) = n := by
  rw [List.filter_eq_self.2, hexValue_toDigits]
  intro ch hch
  refine decide_eq_true ?_
  rintro rfl
  exact x_notMem_toDigits n hch

theorem values_componentsOf (dirs : List ℕ) (file : ℕ) :
    ((componentsOf dirs file).map fun name => hexValue (name.filter (· ≠ 'x'))) =
      dirs ++ [file] := by
  have hfile : ('x' :: Nat.toDigits 16 file).filter (· ≠ 'x') =
      (Nat.toDigits 16 file).filter (· ≠ 'x') := List.filter_cons_of_neg (by simp)
  rw [componentsOf, List.map_append, List.map_map, List.map_singleton, hfile,
    hexValue_filter_toDigits]
  exact congrArg (· ++ [file])
    ((List.map_congr_left fun n _ => hexValue_filter_toDigits n).trans dirs.map_id')

theorem x_notMem_of_mem_dirs {name : List Char} (h : name ∈ dirs.map (Nat.toDigits 16)) :
    'x' ∉ name := by
  obtain ⟨n, -, rfl⟩ := List.mem_map.1 h
  exact x_notMem_toDigits n

/-- The bits that a mask of `w` ones leaves of a shifted number. -/
theorem toNat_shiftRight_and (k mask : UInt64) (w : ℕ) (hk : k.toNat < 64)
    (hmask : mask.toNat = 2 ^ w - 1) :
    ((num >>> k) &&& mask).toNat = num.toNat / 2 ^ k.toNat % 2 ^ w := by
  rw [UInt64.toNat_and, UInt64.toNat_shiftRight, Nat.mod_eq_of_lt hk, hmask,
    Nat.and_two_pow_sub_one_eq_mod, Nat.shiftRight_eq_div_pow]

theorem toNat_and_mask (mask : UInt64) (w : ℕ) (hmask : mask.toNat = 2 ^ w - 1) :
    (num &&& mask).toNat = num.toNat % 2 ^ w := by
  rw [UInt64.toNat_and, hmask, Nat.and_two_pow_sub_one_eq_mod]

theorem shiftRight_eq_zero_iff (k : UInt64) (hk : k.toNat < 64) :
    num >>> k = 0 ↔ num.toNat / 2 ^ k.toNat = 0 := by
  rw [← UInt64.toNat_inj, UInt64.toNat_shiftRight, Nat.mod_eq_of_lt hk,
    Nat.shiftRight_eq_div_pow]
  rfl

theorem toList_hex (n : UInt64) : (hex n).toList = Nat.toDigits 16 n.toNat :=
  String.toList_ofList

/-- A directory in front of the rest of a path. -/
theorem splitOn_hex (n : UInt64) (rest : List Char) :
    ((hex n).toList ++ '/' :: rest).splitOn '/' =
      Nat.toDigits 16 n.toNat :: rest.splitOn '/' := by
  rw [toList_hex, List.splitOn_append_cons_self_of_not_mem (slash_notMem_toDigits _)]

theorem splitOn_x_hex (n : UInt64) :
    ('x' :: (hex n).toList).splitOn '/' = ['x' :: Nat.toDigits 16 n.toNat] := by
  rw [toList_hex]
  refine List.splitOn_eq_singleton fun h => ?_
  obtain h | h := List.mem_cons.1 h
  · exact absurd h (by decide)
  · exact slash_notMem_toDigits _ h

theorem pathComponents_of_lt_30 (h : num.toNat < 2 ^ 30) :
    pathComponents (defaultConstructContentPathFromNum num) =
      componentsOf [num.toNat / 2 ^ 20 % 2 ^ 10, num.toNat / 2 ^ 10 % 2 ^ 10]
        (num.toNat % 2 ^ 10) := by
  have h30 : num >>> 30 = 0 := (shiftRight_eq_zero_iff 30 (by decide)).2 (Nat.div_eq_of_lt h)
  have hpath : (defaultConstructContentPathFromNum num).toList =
      (hex ((num >>> 20) &&& 0x3ff)).toList ++ '/' ::
        ((hex ((num >>> 10) &&& 0x3ff)).toList ++ '/' :: 'x' :: (hex (num &&& 0x3ff)).toList) := by
    rw [defaultConstructContentPathFromNum, if_pos h30]
    simp [String.toList_append]
  rw [pathComponents, hpath, splitOn_hex, splitOn_hex, splitOn_x_hex,
    toNat_shiftRight_and 20 _ 10 (by decide) rfl, toNat_shiftRight_and 10 _ 10 (by decide) rfl,
    toNat_and_mask _ 10 rfl]
  rfl

theorem pathComponents_of_lt_43 (h30 : 2 ^ 30 ≤ num.toNat) (h43 : num.toNat < 2 ^ 43) :
    pathComponents (defaultConstructContentPathFromNum num) =
      componentsOf [num.toNat / 2 ^ 32 % 2 ^ 11, num.toNat / 2 ^ 21 % 2 ^ 11,
        num.toNat / 2 ^ 11 % 2 ^ 10] (num.toNat % 2 ^ 11) := by
  have hshift30 : ¬num >>> 30 = 0 := by
    rw [shiftRight_eq_zero_iff 30 (by decide), Nat.div_eq_zero_iff]
    exact not_or_intro (by decide) (not_lt.2 h30)
  have hshift43 : num >>> 43 = 0 :=
    (shiftRight_eq_zero_iff 43 (by decide)).2 (Nat.div_eq_of_lt h43)
  have hpath : (defaultConstructContentPathFromNum num).toList =
      (hex ((num >>> 32) &&& 0x7ff)).toList ++ '/' ::
        ((hex ((num >>> 21) &&& 0x7ff)).toList ++ '/' ::
          ((hex ((num >>> 11) &&& 0x3ff)).toList ++ '/' ::
            'x' :: (hex (num &&& 0x7ff)).toList)) := by
    rw [defaultConstructContentPathFromNum, if_neg hshift30, if_pos hshift43]
    simp [String.toList_append]
  rw [pathComponents, hpath, splitOn_hex, splitOn_hex, splitOn_hex, splitOn_x_hex,
    toNat_shiftRight_and 32 _ 11 (by decide) rfl, toNat_shiftRight_and 21 _ 11 (by decide) rfl,
    toNat_shiftRight_and 11 _ 10 (by decide) rfl, toNat_and_mask _ 11 rfl]
  rfl

theorem pathComponents_of_ge_43 (h : 2 ^ 43 ≤ num.toNat) :
    pathComponents (defaultConstructContentPathFromNum num) =
      componentsOf [num.toNat / 2 ^ 46, num.toNat / 2 ^ 34 % 2 ^ 12,
        num.toNat / 2 ^ 23 % 2 ^ 11, num.toNat / 2 ^ 12 % 2 ^ 11] (num.toNat % 2 ^ 12) := by
  have hshift30 : ¬num >>> 30 = 0 := by
    rw [shiftRight_eq_zero_iff 30 (by decide), Nat.div_eq_zero_iff]
    exact not_or_intro (by decide) (not_lt.2 (le_trans (by decide) h))
  have hshift43 : ¬num >>> 43 = 0 := by
    rw [shiftRight_eq_zero_iff 43 (by decide), Nat.div_eq_zero_iff]
    exact not_or_intro (by decide) (not_lt.2 h)
  have htop : (num >>> 46).toNat = num.toNat / 2 ^ 46 := by
    rw [UInt64.toNat_shiftRight, Nat.shiftRight_eq_div_pow]
    rfl
  have hpath : (defaultConstructContentPathFromNum num).toList =
      (hex (num >>> 46)).toList ++ '/' ::
        ((hex ((num >>> 34) &&& 0xfff)).toList ++ '/' ::
          ((hex ((num >>> 23) &&& 0x7ff)).toList ++ '/' ::
            ((hex ((num >>> 12) &&& 0x7ff)).toList ++ '/' ::
              'x' :: (hex (num &&& 0xfff)).toList))) := by
    rw [defaultConstructContentPathFromNum, if_neg hshift30, if_neg hshift43]
    simp [String.toList_append]
  rw [pathComponents, hpath, splitOn_hex, splitOn_hex, splitOn_hex, splitOn_hex, splitOn_x_hex,
    htop, toNat_shiftRight_and 34 _ 12 (by decide) rfl,
    toNat_shiftRight_and 23 _ 11 (by decide) rfl, toNat_shiftRight_and 12 _ 11 (by decide) rfl,
    toNat_and_mask _ 12 rfl]
  rfl

theorem exists_componentsOf (num : UInt64) : ∃ dirs file,
    pathComponents (defaultConstructContentPathFromNum num) = componentsOf dirs file := by
  by_cases h43 : num.toNat < 2 ^ 43
  · by_cases h30 : num.toNat < 2 ^ 30
    · exact ⟨_, _, pathComponents_of_lt_30 h30⟩
    · exact ⟨_, _, pathComponents_of_lt_43 (not_lt.1 h30) h43⟩
  · exact ⟨_, _, pathComponents_of_ge_43 (not_lt.1 h43)⟩

end Components

/-! ## Paths of different numbers -/

theorem numOfContentPath_construct (num : UInt64) :
    numOfContentPath (defaultConstructContentPathFromNum num) = some num := by
  have hfields : ∀ n, n = num.toNat → some (UInt64.ofNat n) = some num := fun n hn => by
    rw [hn, UInt64.ofNat_toNat]
  unfold numOfContentPath
  by_cases h43 : num.toNat < 2 ^ 43
  · by_cases h30 : num.toNat < 2 ^ 30
    · rw [pathComponents_of_lt_30 h30, values_componentsOf]
      exact hfields _ (by omega)
    · rw [pathComponents_of_lt_43 (not_lt.1 h30) h43, values_componentsOf]
      exact hfields _ (by omega)
  · rw [pathComponents_of_ge_43 (not_lt.1 h43), values_componentsOf]
    exact hfields _ (by omega)

theorem defaultConstructContentPathFromNum_injective :
    Function.Injective defaultConstructContentPathFromNum := fun a b h =>
  Option.some.inj <| by
    rw [← numOfContentPath_construct a, h, numOfContentPath_construct]

/-- A file's name cannot be the name of a directory that another file is in. -/
theorem not_liesBelow (a b : UInt64) : ¬LiesBelow (defaultConstructContentPathFromNum a)
    (defaultConstructContentPathFromNum b) := by
  rintro ⟨rest, h⟩
  obtain ⟨dirs, file, ha⟩ := exists_componentsOf a
  obtain ⟨dirs', file', hb⟩ := exists_componentsOf b
  have hsplit : componentsOf dirs' file' = componentsOf dirs file ++ pathComponents rest := by
    rw [← hb, ← ha, h, pathComponents, String.toList_append, String.toList_append]
    exact (congrArg (List.splitOn '/') (List.append_assoc _ _ _)).trans
      (List.splitOn_append_cons_self _ _)
  have hmem : 'x' :: Nat.toDigits 16 file ∈ dirs'.map (Nat.toDigits 16) := by
    have hrest : pathComponents rest ≠ [] := List.splitOn_ne_nil _ _
    have hlast := congrArg List.dropLast hsplit
    rw [List.dropLast_append_of_ne_nil hrest, componentsOf, List.dropLast_concat] at hlast
    rw [hlast, componentsOf]
    simp
  exact x_notMem_of_mem_dirs hmem List.mem_cons_self

/-- The number can be read back from its path, and no path is that of another number or needs
it to be a directory. -/
theorem contentPaths_apart (a b : UInt64) :
    numOfContentPath (defaultConstructContentPathFromNum a) = some a ∧
      (a ≠ b →
        defaultConstructContentPathFromNum a ≠ defaultConstructContentPathFromNum b ∧
        ¬LiesBelow (defaultConstructContentPathFromNum a)
          (defaultConstructContentPathFromNum b)) :=
  ⟨numOfContentPath_construct a, fun hne =>
    ⟨defaultConstructContentPathFromNum_injective.ne hne, not_liesBelow a b⟩⟩

example : defaultConstructContentPathFromNum (2 ^ 43 + 1) = "0/200/0/0/x1" := by
  decide

theorem contentPaths_apart_twoFiles : (0 : UInt64) ≠ 2 ^ 43 ∧
    numOfContentPath (defaultConstructContentPathFromNum 0) = some 0 ∧
    defaultConstructContentPathFromNum 0 ≠ defaultConstructContentPathFromNum (2 ^ 43) ∧
    ¬LiesBelow (defaultConstructContentPathFromNum 0)
      (defaultConstructContentPathFromNum (2 ^ 43)) :=
  ⟨by decide, (contentPaths_apart 0 (2 ^ 43)).1, (contentPaths_apart 0 (2 ^ 43)).2 (by decide)⟩

end PersonalCloud.DatasetDb
