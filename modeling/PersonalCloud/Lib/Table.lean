import Mathlib.Data.List.Nodup
import Mathlib.Logic.Function.Basic

/-!
# Tables of a relational store

A table is the list of its rows. The statements that change it are total functions on such
lists, with the `WHERE` clause as a decidable predicate and the `SET` clause as a function on
rows.

## Main results

* `asMap_insertOrReplace`, `asMap_delete`, `asMap_update` — seen as a map from a key, a table
  changes at one key when the statement's clause singles out the rows of that key.
* `Keyed.insertOrReplace`, `Keyed.delete`, `Keyed.update`, `Keyed.edit` — the statements keep the
  key unique.
* `edit_comm` — statements about the rows of two keys commute.
* `updateUnique_eq_some` — what an update does if no row is in its way.
-/

namespace PersonalCloud.Lib.Table

variable {ρ κ : Type*}

/-- `UPDATE … SET f WHERE p`. -/
def update (p : ρ → Prop) [DecidablePred p] (f : ρ → ρ) (rows : List ρ) : List ρ :=
  rows.map fun r => if p r then f r else r

/-- `DELETE … WHERE p`. -/
def delete (p : ρ → Prop) [DecidablePred p] (rows : List ρ) : List ρ :=
  rows.filter fun r => ¬ p r

/-- `INSERT OR REPLACE` into a table whose primary key is `key`. -/
def insertOrReplace [DecidableEq κ] (key : ρ → κ) (row : ρ) (rows : List ρ) : List ρ :=
  delete (fun r => key r = key row) rows ++ [row]

/-- The first row of each key. -/
def asMap [DecidableEq κ] (key : ρ → κ) (rows : List ρ) (k : κ) : Option ρ :=
  rows.find? fun r => key r = k

/-- At most one row has any given key. -/
def Keyed (key : ρ → κ) (rows : List ρ) : Prop :=
  (rows.map key).Nodup

instance [DecidableEq κ] (key : ρ → κ) (rows : List ρ) : Decidable (Keyed key rows) :=
  inferInstanceAs (Decidable (rows.map key).Nodup)

section Statements

variable {p : ρ → Prop} [DecidablePred p] {f : ρ → ρ} {rows : List ρ} {r : ρ}

@[simp] theorem mem_delete : r ∈ delete p rows ↔ r ∈ rows ∧ ¬ p r := by
  simp [delete]

theorem mem_update : r ∈ update p f rows ↔ (∃ x ∈ rows, p x ∧ f x = r) ∨ r ∈ rows ∧ ¬ p r := by
  simp only [update, List.mem_map]
  constructor
  · rintro ⟨x, hx, rfl⟩
    by_cases h : p x
    · exact .inl ⟨x, hx, h, by simp [h]⟩
    · exact .inr ⟨by simpa [h] using hx, by simp [h]⟩
  · rintro (⟨x, hx, h, rfl⟩ | ⟨hr, h⟩)
    · exact ⟨x, hx, by simp [h]⟩
    · exact ⟨r, hr, by simp [h]⟩

theorem update_of_forall_not (h : ∀ r ∈ rows, ¬ p r) : update p f rows = rows := by
  simp only [update]
  exact (List.map_congr_left fun r hr => if_neg (h r hr)).trans (List.map_id _)

theorem delete_congr {q : ρ → Prop} [DecidablePred q] (h : ∀ r ∈ rows, p r ↔ q r) :
    delete p rows = delete q rows :=
  List.filter_congr fun r hr => by simp [h r hr]

theorem update_congr {q : ρ → Prop} [DecidablePred q] (h : ∀ r ∈ rows, p r ↔ q r) :
    update p f rows = update q f rows :=
  List.map_congr_left fun r hr => by simp [h r hr]

/-- An update of rows that are not selected, neither before nor after it. -/
theorem filter_update {q : ρ → Bool} (h : ∀ r ∈ rows, p r → q r = false ∧ q (f r) = false) :
    (update p f rows).filter q = rows.filter q := by
  induction rows with
  | nil => rfl
  | cons r rows ih =>
    have ih := ih fun s hs => h s (List.mem_cons_of_mem r hs)
    rw [update, List.map_cons]
    by_cases hp : p r
    · obtain ⟨hr, hf⟩ := h r List.mem_cons_self hp
      rw [if_pos hp, List.filter_cons_of_neg (by simp [hf]), List.filter_cons_of_neg (by simp [hr])]
      exact ih
    · rw [if_neg hp, List.filter_cons, List.filter_cons]
      exact congrArg (fun l => if q r = true then r :: l else l) ih

end Statements

section Unique

variable (conflict : ρ → ρ → Prop) [DecidableRel conflict] (p : ρ → Prop) [DecidablePred p]
  (f : ρ → ρ)

/-- `UPDATE … SET f WHERE p` under a `UNIQUE` constraint. The rows are changed one after the other,
and the statement fails at the first one whose new values are those of another row at that time. -/
def updateUnique : List ρ → List ρ → Option (List ρ)
  | done, [] => some done
  | done, r :: rows =>
    if p r then
      if ∃ s ∈ done ++ rows, conflict (f r) s then none else updateUnique (done ++ [f r]) rows
    else updateUnique (done ++ [r]) rows

variable {conflict p f}

theorem updateUnique_eq_some {done rows rows' : List ρ}
    (h : updateUnique conflict p f done rows = some rows') : rows' = done ++ update p f rows := by
  induction rows generalizing done with
  | nil => simpa [updateUnique, update, eq_comm] using h
  | cons r rows ih =>
    rw [updateUnique] at h
    by_cases hp : p r
    · rw [if_pos hp] at h
      rw [ih (Option.ite_none_left_eq_some.1 h).2]
      simp [update, hp]
    · rw [if_neg hp] at h
      rw [ih h]
      simp [update, hp]

end Unique

section Keyed

variable {key : ρ → κ} {f : ρ → ρ} {row r : ρ} {rows : List ρ}

@[simp] theorem keyed_nil : Keyed key [] :=
  List.nodup_nil

theorem Keyed.filter (h : Keyed key rows) (p : ρ → Bool) : Keyed key (rows.filter p) :=
  h.sublist (List.filter_sublist.map _)

theorem Keyed.delete {p : ρ → Prop} [DecidablePred p] (h : Keyed key rows) :
    Keyed key (delete p rows) :=
  h.filter _

theorem Keyed.update {p : ρ → Prop} [DecidablePred p] (h : Keyed key rows)
    (hf : ∀ r ∈ rows, p r → key (f r) = key r) : Keyed key (update p f rows) := by
  have hkey : (Table.update p f rows).map key = rows.map key := by
    rw [Table.update, List.map_map]
    refine List.map_congr_left fun r hr => ?_
    by_cases hp : p r
    · simpa [hp] using hf r hr hp
    · simp [hp]
  rwa [Keyed, hkey]

theorem keyed_append_singleton : Keyed key (rows ++ [row]) ↔
    Keyed key rows ∧ ∀ r ∈ rows, key r ≠ key row := by
  rw [Keyed, List.map_append, List.map_singleton, List.nodup_append]
  simp [Keyed]

theorem Keyed.eq_of_mem (h : Keyed key rows) (hr : r ∈ rows) (hrow : row ∈ rows)
    (hk : key r = key row) : r = row :=
  List.inj_on_of_nodup_map h hr hrow hk

end Keyed

section Map

variable [DecidableEq κ] {key : ρ → κ} {k : κ} {f : ρ → ρ} {row r : ρ} {rows : List ρ}

@[simp] theorem asMap_nil : asMap key [] k = none := rfl

theorem asMap_eq_none_iff : asMap key rows k = none ↔ ∀ r ∈ rows, key r ≠ k := by
  simp [asMap]

theorem key_of_asMap (h : asMap key rows k = some r) : r ∈ rows ∧ key r = k :=
  ⟨List.mem_of_find?_eq_some h, by simpa using List.find?_some h⟩

theorem Keyed.asMap_of_mem (h : Keyed key rows) (hr : r ∈ rows) :
    asMap key rows (key r) = some r := by
  cases hf : asMap key rows (key r) with
  | none => exact absurd rfl (asMap_eq_none_iff.1 hf r hr)
  | some x =>
    obtain ⟨hx, hk⟩ := key_of_asMap hf
    rw [h.eq_of_mem hx hr hk]

theorem asMap_delete (key : ρ → κ) (k : κ) (rows : List ρ) :
    asMap key (delete (fun r => key r = k) rows) = Function.update (asMap key rows) k none := by
  funext l
  by_cases hl : l = k
  · subst hl
    simp [asMap_eq_none_iff]
  · rw [Function.update_of_ne hl, asMap, asMap, delete, List.find?_filter]
    congr 1
    funext r
    by_cases hr : key r = l <;> simp [hr, hl]

theorem asMap_insertOrReplace :
    asMap key (insertOrReplace key row rows) =
      Function.update (asMap key rows) (key row) (some row) := by
  funext l
  have hdel := congrFun (asMap_delete key (key row) rows) l
  rw [insertOrReplace, asMap, List.find?_append, ← asMap, hdel]
  by_cases hl : l = key row
  · simp [hl]
  · simp [hl, Ne.symm hl]

/-- An update of the rows of one key that keeps the key. -/
theorem asMap_update (hf : ∀ r, key (f r) = key r) :
    asMap key (update (fun r => key r = k) f rows) =
      Function.update (asMap key rows) k ((asMap key rows k).map f) := by
  funext l
  rw [asMap, update, List.find?_map]
  have hkey : ((fun r => decide (key r = l)) ∘ fun r => if key r = k then f r else r) =
      fun r => decide (key r = l) := by
    funext r
    by_cases hr : key r = k <;> simp [hr, hf]
  rw [hkey]
  change Option.map _ (asMap key rows l) = _
  by_cases hl : l = k
  · subst hl
    rw [Function.update_self]
    cases h : asMap key rows l with
    | none => rfl
    | some r => simp [(key_of_asMap h).2]
  · rw [Function.update_of_ne hl]
    cases h : asMap key rows l with
    | none => rfl
    | some r => simp [(key_of_asMap h).2, hl]

theorem Keyed.insertOrReplace (h : Keyed key rows) : Keyed key (insertOrReplace key row rows) := by
  refine keyed_append_singleton.2 ⟨h.delete, ?_⟩
  intro r hr
  exact (mem_delete.1 hr).2

end Map

section Edit

variable [DecidableEq κ] {key : ρ → κ} {k l : κ} {f g : ρ → Option ρ} {rows : List ρ}

/-- A statement about the rows of one key: what becomes of each of them, if it stays. -/
def edit (key : ρ → κ) (k : κ) (f : ρ → Option ρ) (rows : List ρ) : List ρ :=
  rows.filterMap fun r => if key r = k then f r else some r

/-- The rows that stay keep their keys. -/
def KeepsKey (key : ρ → κ) (f : ρ → Option ρ) : Prop :=
  ∀ r, ∀ r' ∈ f r, key r' = key r

theorem Keyed.edit (h : Keyed key rows) (hf : KeepsKey key f) : Keyed key (edit key k f rows) := by
  refine h.sublist ?_
  rw [Table.edit, List.map_filterMap, ← List.filterMap_eq_map]
  induction rows with
  | nil => exact .slnil
  | cons r rows ih =>
    have ih := ih (List.nodup_cons.1 h).2
    rw [List.filterMap_cons, List.filterMap_cons]
    by_cases hk : key r = k
    · rw [if_pos hk]
      cases hr : f r with
      | none => exact ih.cons _
      | some r' =>
        simp only [Option.map_some, Function.comp_apply]
        rw [hf r r' hr]
        exact ih.cons_cons _
    · rw [if_neg hk]
      exact ih.cons_cons _

theorem edit_edit (hf : KeepsKey key f) (hidem : ∀ r, (f r).bind f = f r) :
    edit key k f (edit key k f rows) = edit key k f rows := by
  rw [edit, edit, List.filterMap_filterMap]
  refine List.filterMap_congr fun r _ => ?_
  by_cases hr : key r = k
  · rw [if_pos hr]
    conv_rhs => rw [← hidem r]
    refine Option.bind_congr fun r' hr' => ?_
    rw [if_pos ((hf r r' hr').trans hr)]
  · simp [hr]

theorem edit_comm (hf : KeepsKey key f) (hg : KeepsKey key g)
    (hcomm : k = l → ∀ r, (f r).bind g = (g r).bind f) :
    edit key k f (edit key l g rows) = edit key l g (edit key k f rows) := by
  rw [edit, edit, edit, edit, List.filterMap_filterMap, List.filterMap_filterMap]
  refine List.filterMap_congr fun r _ => ?_
  have hbind : ∀ {h h' : ρ → Option ρ} {m : κ}, KeepsKey key h →
      (h r).bind (fun r' => if key r' = m then h' r' else some r') =
        if key r = m then (h r).bind h' else h r := by
    intro h h' m hh
    split
    case isTrue hm => exact Option.bind_congr fun r' hr' => if_pos ((hh r r' hr').trans hm)
    case isFalse hm =>
      refine (Option.bind_congr fun r' hr' => if_neg fun he => hm ?_).trans (Option.bind_fun_some _)
      exact (hh r r' hr').symm.trans he
  by_cases hk : key r = k <;> by_cases hl : key r = l
  · simp only [if_pos hk, if_pos hl, hbind hf, hbind hg]
    exact (hcomm (hk.symm.trans hl) r).symm
  · simp only [if_pos hk, if_neg hl, hbind hf, Option.bind_some]
  · simp only [if_pos hl, if_neg hk, hbind hg, Option.bind_some]
  · simp only [if_neg hk, if_neg hl, Option.bind_some]

theorem mem_of_mem_edit {m : κ} (hf : KeepsKey key f) (h : m ∈ (edit key k f rows).map key) :
    m ∈ rows.map key := by
  obtain ⟨r', hr', rfl⟩ := List.mem_map.1 h
  obtain ⟨r, hr, hedit⟩ := List.mem_filterMap.1 hr'
  refine List.mem_map.2 ⟨r, hr, ?_⟩
  split at hedit
  · exact (hf r r' hedit).symm
  · rw [Option.some.inj hedit]

theorem notMem_edit_none : k ∉ (edit key k (fun _ => none) rows).map key := by
  intro h
  obtain ⟨r', hr', hk⟩ := List.mem_map.1 h
  obtain ⟨r, -, hedit⟩ := List.mem_filterMap.1 hr'
  split at hedit
  case isTrue => cases hedit
  case isFalse hr => exact hr (Option.some.inj hedit ▸ hk)

/-- An edit that deletes nothing. -/
theorem map_edit (hf : KeepsKey key f) (hsome : ∀ r, (f r).isSome) :
    (edit key k f rows).map key = rows.map key := by
  rw [edit, List.map_filterMap, ← List.filterMap_eq_map]
  refine List.filterMap_congr fun r _ => ?_
  by_cases hr : key r = k
  · rw [if_pos hr]
    obtain ⟨r', hr'⟩ := Option.isSome_iff_exists.1 (hsome r)
    simp [hr', hf r r' hr']
  · simp [hr]

end Edit

end PersonalCloud.Lib.Table
