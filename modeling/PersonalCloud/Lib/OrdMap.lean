import Mathlib.Order.Basic
import Mathlib.Order.Lattice
import Mathlib.Data.List.Basic
import Mathlib.Tactic.Ring
import Mathlib.Tactic.SplitIfs
import Mathlib.Tactic.Tauto

/-!
# Ordered maps

A finite map kept as the list of its entries in strictly increasing key order, which is
the order an iterator visits them in. The order is a field of the structure, so every
value of the type is a map. Facts about lookup go through membership of the entry list
(`find?_eq_some`), facts about iteration through the list itself.
-/

namespace PersonalCloud.Lib

/-- A finite map from `κ` to `α`, with its entries in increasing key order. -/
structure OrdMap (κ : Type*) (α : Type*) [LinearOrder κ] where
  entries : List (κ × α)
  sorted : entries.Pairwise fun a b => a.1 < b.1

namespace OrdMap

variable {κ α : Type*} [LinearOrder κ]

@[ext] theorem ext {m n : OrdMap κ α} (h : m.entries = n.entries) : m = n := by
  cases m; cases n; congr

def empty : OrdMap κ α := ⟨[], .nil⟩

instance : Inhabited (OrdMap κ α) := ⟨empty⟩

def size (m : OrdMap κ α) : Nat := m.entries.length

/-- The value stored under `k`, if there is one. -/
def find? (m : OrdMap κ α) (k : κ) : Option α :=
  (m.entries.find? fun x => x.1 = k).map Prod.snd

/-- Insert an entry into a sorted list, replacing the one with the same key. -/
def insertEntry (k : κ) (v : α) : List (κ × α) → List (κ × α)
  | [] => [(k, v)]
  | x :: l =>
    if k < x.1 then (k, v) :: x :: l
    else if k = x.1 then (k, v) :: l
    else x :: insertEntry k v l

theorem fst_of_mem_insertEntry {k : κ} {v : α} {l : List (κ × α)} {y : κ × α}
    (h : y ∈ insertEntry k v l) : y = (k, v) ∨ y ∈ l := by
  induction l with
  | nil => simpa [insertEntry] using h
  | cons x l ih =>
    unfold insertEntry at h
    split_ifs at h
    · simpa using h
    · simp only [List.mem_cons] at h ⊢
      tauto
    · rcases List.mem_cons.1 h with rfl | h
      · simp
      · rcases ih h with h | h <;> simp [h]

theorem sorted_insertEntry (k : κ) (v : α) {l : List (κ × α)}
    (h : l.Pairwise fun a b => a.1 < b.1) :
    (insertEntry k v l).Pairwise fun a b => a.1 < b.1 := by
  induction l with
  | nil => simp [insertEntry]
  | cons x l ih =>
    rw [List.pairwise_cons] at h
    unfold insertEntry
    split_ifs with hlt heq
    · refine List.pairwise_cons.2 ⟨?_, List.pairwise_cons.2 h⟩
      rintro y hy
      rcases List.mem_cons.1 hy with rfl | hy
      · exact hlt
      · exact hlt.trans (h.1 y hy)
    · refine List.pairwise_cons.2 ⟨fun y hy => ?_, h.2⟩
      exact heq ▸ h.1 y hy
    · refine List.pairwise_cons.2 ⟨fun y hy => ?_, ih h.2⟩
      rcases fst_of_mem_insertEntry hy with rfl | hy
      · exact lt_of_le_of_ne (not_lt.1 hlt) (Ne.symm heq)
      · exact h.1 y hy

/-- `m[k] = v`. -/
def insert (m : OrdMap κ α) (k : κ) (v : α) : OrdMap κ α :=
  ⟨insertEntry k v m.entries, sorted_insertEntry k v m.sorted⟩

/-- `m.erase(k)`, which does nothing when the key is absent. -/
def erase (m : OrdMap κ α) (k : κ) : OrdMap κ α :=
  ⟨m.entries.filter fun x => x.1 ≠ k, m.sorted.filter _⟩

/-- Change every value in place. -/
def mapVal (m : OrdMap κ α) (f : α → α) : OrdMap κ α :=
  ⟨m.entries.map fun x => (x.1, f x.2), List.pairwise_map.2 m.sorted⟩

/-- The entries that `p` holds of. -/
def filter (m : OrdMap κ α) (p : κ × α → Bool) : OrdMap κ α :=
  ⟨m.entries.filter p, m.sorted.filter _⟩

/-- The sum of the values. -/
def total (m : OrdMap κ Int) : Int := (m.entries.map Prod.snd).sum

/-! ## Lookup and membership -/

theorem eq_of_mem {m : OrdMap κ α} {k : κ} {v w : α}
    (hv : (k, v) ∈ m.entries) (hw : (k, w) ∈ m.entries) : v = w := by
  obtain ⟨i, hi, hiv⟩ := List.getElem_of_mem hv
  obtain ⟨j, hj, hjw⟩ := List.getElem_of_mem hw
  have hs := List.pairwise_iff_getElem.1 m.sorted
  rcases lt_trichotomy i j with h | rfl | h
  · exact absurd (hs i j hi hj h) (by simp [hiv, hjw])
  · exact congrArg Prod.snd (hiv.symm.trans hjw)
  · exact absurd (hs j i hj hi h) (by simp [hiv, hjw])

theorem find?_eq_some {m : OrdMap κ α} {k : κ} {v : α} :
    m.find? k = some v ↔ (k, v) ∈ m.entries := by
  constructor
  · intro h
    obtain ⟨x, hx, rfl⟩ := Option.map_eq_some_iff.1 h
    have hk : x.1 = k := by simpa using List.find?_some hx
    exact hk ▸ List.mem_of_find?_eq_some hx
  · intro h
    obtain ⟨x, hx⟩ : ∃ x, m.entries.find? (fun x => decide (x.1 = k)) = some x := by
      rw [← Option.isSome_iff_exists, List.find?_isSome]
      exact ⟨(k, v), h, by simp⟩
    have hk : x.1 = k := by simpa using List.find?_some hx
    have hm : (k, x.2) ∈ m.entries := hk ▸ List.mem_of_find?_eq_some hx
    simp [find?, hx, eq_of_mem h hm]

theorem find?_eq_none {m : OrdMap κ α} {k : κ} :
    m.find? k = none ↔ ∀ v, (k, v) ∉ m.entries := by
  rw [Option.eq_none_iff_forall_ne_some]
  simp only [ne_eq, find?_eq_some]

@[simp] theorem find?_empty (k : κ) : (empty : OrdMap κ α).find? k = none := rfl

@[simp] theorem entries_empty : (empty : OrdMap κ α).entries = [] := rfl

theorem mem_insertEntry {k : κ} {v : α} {l : List (κ × α)}
    (h : l.Pairwise fun a b => a.1 < b.1) {y : κ × α} :
    y ∈ insertEntry k v l ↔ y = (k, v) ∨ y.1 ≠ k ∧ y ∈ l := by
  induction l with
  | nil => simp [insertEntry]
  | cons x l ih =>
    rw [List.pairwise_cons] at h
    unfold insertEntry
    split_ifs with hlt heq
    · have hne : ∀ y ∈ x :: l, y.1 ≠ k := by
        intro y hy
        rcases List.mem_cons.1 hy with rfl | hy
        · exact hlt.ne'
        · exact (hlt.trans (h.1 y hy)).ne'
      rw [List.mem_cons]
      exact or_congr_right ⟨fun hy => ⟨hne y hy, hy⟩, And.right⟩
    · have hne : ∀ y ∈ l, y.1 ≠ k := fun y hy => heq ▸ (h.1 y hy).ne'
      simp only [List.mem_cons]
      refine or_congr_right ⟨fun hy => ⟨hne y hy, .inr hy⟩, ?_⟩
      rintro ⟨hk, rfl | hy⟩
      · exact absurd heq.symm hk
      · exact hy
    · rw [List.mem_cons, ih h.2, List.mem_cons]
      constructor
      · rintro (rfl | rfl | ⟨hk, hy⟩)
        · exact .inr ⟨Ne.symm heq, .inl rfl⟩
        · exact .inl rfl
        · exact .inr ⟨hk, .inr hy⟩
      · rintro (rfl | ⟨hk, rfl | hy⟩)
        · exact .inr (.inl rfl)
        · exact .inl rfl
        · exact .inr (.inr ⟨hk, hy⟩)

@[simp] theorem mem_insert {m : OrdMap κ α} {k j : κ} {v w : α} :
    (j, w) ∈ (m.insert k v).entries ↔ j = k ∧ w = v ∨ j ≠ k ∧ (j, w) ∈ m.entries := by
  simp [insert, mem_insertEntry m.sorted]

@[simp] theorem mem_erase {m : OrdMap κ α} {k j : κ} {w : α} :
    (j, w) ∈ (m.erase k).entries ↔ j ≠ k ∧ (j, w) ∈ m.entries := by
  simp [erase, and_comm]

@[simp] theorem mem_mapVal {m : OrdMap κ α} {f : α → α} {j : κ} {w : α} :
    (j, w) ∈ (m.mapVal f).entries ↔ ∃ v, (j, v) ∈ m.entries ∧ f v = w := by
  simp [mapVal]

@[simp] theorem mem_filter {m : OrdMap κ α} {p : κ × α → Bool} {x : κ × α} :
    x ∈ (m.filter p).entries ↔ x ∈ m.entries ∧ p x := by
  simp [filter]

/-- A key has one entry at most. -/
theorem map_filter_entries (m : OrdMap κ α) (k : κ) :
    (m.entries.filter fun x => x.1 = k).map Prod.snd = (m.find? k).toList := by
  obtain ⟨l, hsorted⟩ := m
  change (l.filter fun x => x.1 = k).map Prod.snd =
    ((l.find? fun x => x.1 = k).map Prod.snd).toList
  induction l with
  | nil => rfl
  | cons x l ih =>
    rw [List.pairwise_cons] at hsorted
    by_cases hx : x.1 = k
    · have hrest : l.filter (fun x => x.1 = k) = [] := by
        refine List.filter_eq_nil_iff.2 fun y hy hk => ?_
        exact absurd (hsorted.1 y hy) (by rw [hx, of_decide_eq_true hk]; exact lt_irrefl k)
      rw [List.filter_cons, if_pos (decide_eq_true hx), hrest, List.find?_cons,
        decide_eq_true hx]
      rfl
    · rw [List.filter_cons, if_neg (by simp [hx]), List.find?_cons, decide_eq_false hx,
        ih hsorted.2]

theorem find?_insert (m : OrdMap κ α) (k j : κ) (v : α) :
    (m.insert k v).find? j = if j = k then some v else m.find? j := by
  ext w
  rw [find?_eq_some, mem_insert]
  split_ifs with h
  · simp [h, eq_comm]
  · simp [h, find?_eq_some]

@[simp] theorem find?_insert_self (m : OrdMap κ α) (k : κ) (v : α) :
    (m.insert k v).find? k = some v := by
  simp [find?_insert]

theorem find?_insert_of_ne (m : OrdMap κ α) {k j : κ} (v : α) (h : j ≠ k) :
    (m.insert k v).find? j = m.find? j := by
  simp [find?_insert, h]

theorem find?_erase (m : OrdMap κ α) (k j : κ) :
    (m.erase k).find? j = if j = k then none else m.find? j := by
  ext w
  split_ifs with h
  · simp [find?_eq_some, h]
  · simp [find?_eq_some, h]

theorem erase_of_find?_eq_none {m : OrdMap κ α} {k : κ} (h : m.find? k = none) :
    m.erase k = m := by
  refine OrdMap.ext (List.filter_eq_self.2 fun x hx => decide_eq_true ?_)
  rintro rfl
  exact find?_eq_none.1 h x.2 hx

@[simp] theorem find?_erase_self (m : OrdMap κ α) (k : κ) : (m.erase k).find? k = none := by
  simp [find?_erase]

theorem find?_erase_of_ne (m : OrdMap κ α) {k j : κ} (h : j ≠ k) :
    (m.erase k).find? j = m.find? j := by
  simp [find?_erase, h]

theorem find?_mapVal (m : OrdMap κ α) (f : α → α) (k : κ) :
    (m.mapVal f).find? k = (m.find? k).map f := by
  ext w
  simp [find?_eq_some]

/-! ## The entry list after an update -/

/-- Inserting between two runs of smaller and larger keys puts the entry there. -/
theorem entries_insert {m : OrdMap κ α} {k : κ} {l₁ l₂ : List (κ × α)} (v : α)
    (h : m.entries = l₁ ++ l₂) (h₁ : ∀ x ∈ l₁, x.1 < k) (h₂ : ∀ x ∈ l₂, k < x.1) :
    (m.insert k v).entries = l₁ ++ (k, v) :: l₂ := by
  change insertEntry k v m.entries = _
  rw [h]
  clear h
  induction l₁ with
  | nil =>
    cases l₂ with
    | nil => rfl
    | cons y l₂ => simp [insertEntry, h₂ y (by simp)]
  | cons x l₁ ih =>
    have hx : x.1 < k := h₁ x (by simp)
    simp [insertEntry, hx.not_gt, hx.ne', ih fun y hy => h₁ y (by simp [hy])]

/-- Inserting behind a run of smaller keys leaves that run as it is. -/
theorem entries_insert_right {m : OrdMap κ α} {k : κ} {l₁ l₂ : List (κ × α)} (v : α)
    (h : m.entries = l₁ ++ l₂) (h₁ : ∀ x ∈ l₁, x.1 < k) :
    (m.insert k v).entries = l₁ ++ insertEntry k v l₂ := by
  change insertEntry k v m.entries = _
  rw [h]
  clear h
  induction l₁ with
  | nil => rfl
  | cons x l₁ ih =>
    have hx : x.1 < k := h₁ x (by simp)
    simp [insertEntry, hx.not_gt, hx.ne', ih fun y hy => h₁ y (by simp [hy])]

theorem insertEntry_perm {k : κ} (v : α) {l : List (κ × α)} (h : ∀ x ∈ l, x.1 ≠ k) :
    (insertEntry k v l).Perm ((k, v) :: l) := by
  induction l with
  | nil => exact .refl _
  | cons x l ih =>
    unfold insertEntry
    split_ifs with hlt heq
    · exact .refl _
    · exact absurd heq.symm (h x (by simp))
    · exact ((ih fun y hy => h y (by simp [hy])).cons x).trans (.swap ..)

/-- Inserting a key at the end replaces the last entry if it has that key. -/
theorem entries_insert_last {m : OrdMap κ α} {k : κ} {l : List (κ × α)} {w : α} (v : α)
    (h : m.entries = l ++ [(k, w)]) : (m.insert k v).entries = l ++ [(k, v)] := by
  have h₁ : ∀ x ∈ l, x.1 < k := by
    have := m.sorted
    rw [h, List.pairwise_append] at this
    exact fun x hx => this.2.2 x hx (k, w) (by simp)
  change insertEntry k v m.entries = _
  rw [h]
  clear h
  induction l with
  | nil => simp [insertEntry]
  | cons x l ih =>
    have hx : x.1 < k := h₁ x (by simp)
    simp [insertEntry, hx.not_gt, hx.ne', ih fun y hy => h₁ y (by simp [hy])]

theorem entries_erase_head {m : OrdMap κ α} {k : κ} {v : α} {l : List (κ × α)}
    (h : m.entries = (k, v) :: l) : (m.erase k).entries = l := by
  have hs := m.sorted
  rw [h, List.pairwise_cons] at hs
  change m.entries.filter _ = l
  rw [h, List.filter_cons_of_neg (by simp)]
  exact List.filter_eq_self.2 fun x hx => by simpa using (hs.1 x hx).ne'

/-! ## Totals -/

@[simp] theorem total_empty : (empty : OrdMap κ Int).total = 0 := rfl

theorem sum_insertEntry (k : κ) (v : Int) {l : List (κ × Int)}
    (h : l.Pairwise fun a b => a.1 < b.1) :
    ((insertEntry k v l).map Prod.snd).sum =
      v + ((l.filter fun x => x.1 ≠ k).map Prod.snd).sum := by
  induction l with
  | nil => simp [insertEntry]
  | cons x l ih =>
    rw [List.pairwise_cons] at h
    have hself : ∀ {j}, j ≤ x.1 → l.filter (fun y => !decide (y.1 = j)) = l := by
      intro j hj
      exact List.filter_eq_self.2 fun y hy => by simpa using (hj.trans_lt (h.1 y hy)).ne'
    unfold insertEntry
    split_ifs with hlt heq
    · simp [hself hlt.le, hlt.ne']
    · simp [← heq, hself heq.le]
    · have hne : x.1 ≠ k := Ne.symm heq
      simp [ih h.2, hne]
      omega

theorem total_insert (m : OrdMap κ Int) (k : κ) (v : Int) :
    (m.insert k v).total = v + (m.erase k).total :=
  sum_insertEntry k v m.sorted

theorem sum_filter_add {k : κ} {l : List (κ × Int)} (h : l.Pairwise fun a b => a.1 < b.1) :
    ((l.filter fun x => x.1 ≠ k).map Prod.snd).sum +
      ((l.find? fun x => x.1 = k).map Prod.snd).getD 0 = (l.map Prod.snd).sum := by
  induction l with
  | nil => rfl
  | cons x l ih =>
    rw [List.pairwise_cons] at h
    by_cases hk : x.1 = k
    · have hself : l.filter (fun y => !decide (y.1 = k)) = l :=
        List.filter_eq_self.2 fun y hy => by simpa using (hk ▸ h.1 y hy).ne'
      simp [hk, hself]
      omega
    · have := ih h.2
      simp [hk] at this ⊢
      omega

theorem total_erase (m : OrdMap κ Int) (k : κ) :
    (m.erase k).total = m.total - (m.find? k).getD 0 :=
  eq_sub_of_add_eq (sum_filter_add m.sorted)

end OrdMap

end PersonalCloud.Lib
