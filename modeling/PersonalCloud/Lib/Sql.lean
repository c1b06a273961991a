import Mathlib.Data.List.Zip
import PersonalCloud.Lib.Table

/-!
# UPDATE statements with positional parameters

A statement `UPDATE t SET a=?,b=? WHERE c=? AND d=?` has a parameter for each `?`, numbered from
left to right. The caller binds values to the first few of them. A parameter without value is
NULL, and a comparison with NULL does not hold.

## Main results

* `Update.run_append` — if the values are bound column by column, the statement assigns them in
  the rows that have the bound keys.
* `Update.run_of_unbound` — if a parameter of the `WHERE` clause has no value, the statement
  changes nothing.
-/

namespace PersonalCloud.Lib.Sql

/-- The columns of the `SET` clause and those of the `WHERE` clause. -/
structure Update (κ : Type*) where
  set : List κ
  keys : List κ

variable {κ ν : Type*}

/-- The value of the parameter number `i`, with `none` for NULL. -/
def param (bound : List (Option ν)) (i : ℕ) : Option ν :=
  bound[i]?.join

/-- The row with the given values in the given columns. -/
def assign [DecidableEq κ] (given : List (κ × Option ν)) (row : κ → Option ν) : κ → Option ν :=
  fun k => (given.lookup k).getD (row k)

@[simp] theorem assign_nil [DecidableEq κ] (row : κ → Option ν) : assign [] row = row := rfl

theorem assign_cons [DecidableEq κ] (x : κ × Option ν) (given : List (κ × Option ν))
    (row : κ → Option ν) (k : κ) :
    assign (x :: given) row k = if k = x.1 then x.2 else assign given row k := by
  obtain ⟨l, v⟩ := x
  by_cases h : k = l
  · simp [assign, h]
  · simp [assign, List.lookup_cons, h, beq_false_of_ne h]

namespace Update

variable (u : Update κ) (bound : List (Option ν))

def assignments : List (κ × Option ν) :=
  u.set.zipIdx.map fun x => (x.1, param bound x.2)

section Where

variable [DecidableEq ν]

/-- The `WHERE` clause. -/
def Selects (row : κ → Option ν) : Prop :=
  ∀ x ∈ u.keys.zipIdx u.set.length, param bound x.2 ≠ none ∧ row x.1 = param bound x.2

instance : DecidablePred (u.Selects bound) := fun row =>
  inferInstanceAs (Decidable (∀ x ∈ u.keys.zipIdx u.set.length, _ ∧ row x.1 = _))

/-- How many rows change, and the table afterwards. -/
def run [DecidableEq κ] (rows : List (κ → Option ν)) : ℕ × List (κ → Option ν) :=
  (rows.countP fun row => u.Selects bound row,
    Table.update (u.Selects bound) (assign (u.assignments bound)) rows)

end Where

variable {u bound} {values keys : List (Option ν)}

theorem param_append_left {i : ℕ} (h : i < values.length) :
    param (values ++ keys) i = param values i := by
  rw [param, List.getElem?_append_left h, param]

theorem param_append_right (i : ℕ) :
    param (values ++ keys) (values.length + i) = param keys i := by
  rw [param, List.getElem?_append_right (by omega), Nat.add_sub_cancel_left, param]

theorem zipIdx_map_param {cols : List κ} (h : cols.length = values.length) :
    cols.zipIdx.map (fun x => (x.1, param values x.2)) = cols.zip values := by
  refine List.ext_getElem (by simp [h]) fun i h₁ h₂ => ?_
  have hi : i < values.length := by simpa [h] using h₂
  simp [param, hi]

theorem assignments_append (h : u.set.length = values.length) :
    u.assignments (values ++ keys) = u.set.zip values := by
  rw [assignments, ← zipIdx_map_param h]
  refine List.map_congr_left fun x hx => ?_
  rw [param_append_left (h ▸ List.snd_lt_of_mem_zipIdx hx)]

theorem selects_append [DecidableEq ν] (hset : u.set.length = values.length) (hkeys : u.keys.length = keys.length)
    (row : κ → Option ν) : u.Selects (values ++ keys) row ↔
      ∀ x ∈ u.keys.zip keys, x.2 ≠ none ∧ row x.1 = x.2 := by
  rw [← zipIdx_map_param hkeys, List.forall_mem_map, Selects, hset, List.zipIdx_eq_map_add,
    List.forall_mem_map]
  simp only [param_append_right]

variable [DecidableEq ν] [DecidableEq κ]

/-- All parameters are bound, each to the value of its column. -/
theorem run_append (rows : List (κ → Option ν)) (hset : u.set.length = values.length) (hkeys : u.keys.length = keys.length)
    {p : (κ → Option ν) → Prop} [DecidablePred p]
    (hp : ∀ row ∈ rows, p row ↔ ∀ x ∈ u.keys.zip keys, x.2 ≠ none ∧ row x.1 = x.2) :
    u.run (values ++ keys) rows =
      (rows.countP fun row => p row, Table.update p (assign (u.set.zip values)) rows) := by
  have hsel : ∀ row ∈ rows, u.Selects (values ++ keys) row ↔ p row := fun row hrow =>
    (selects_append hset hkeys row).trans (hp row hrow).symm
  rw [run, assignments_append hset, Table.update_congr hsel]
  exact congrArg (·, _) (List.countP_congr fun row hrow => by simp [hsel row hrow])

theorem run_of_unbound (rows : List (κ → Option ν)) {k : κ} {i : ℕ}
    (hk : (k, i) ∈ u.keys.zipIdx u.set.length) (hi : bound.length ≤ i) : u.run bound rows = (0, rows) := by
  have hnot : ∀ row ∈ rows, ¬ u.Selects bound row := by
    intro row _ hsel
    refine (hsel (k, i) hk).1 ?_
    rw [param, List.getElem?_eq_none hi, Option.join_none]
  rw [run, Table.update_of_forall_not hnot, List.countP_eq_zero.2 fun row hrow => by
    simpa using hnot row hrow]

end Update

end PersonalCloud.Lib.Sql
