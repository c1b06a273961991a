import PersonalCloud.Lib.Exhaust
import PersonalCloud.Lib.PathText
import PersonalCloud.Lib.StdString
import PersonalCloud.StorageNode.OpenConflict

/-!
# Component names

The tables of a dataset know a component by its name as `normalizePath` leaves it. NUL bytes at the
end go first, and slashes at the end go last. A NUL byte in front of these slashes is at the end
then, and stays.

## Main definitions

* `normalizePath` — the code.
* `Canonical` — a name that is left as it is.

## Main results

* `normalizePath_of_canonical` — a canonical name is left as it is.
* `canonicalizes_iff` — the result is canonical unless there is a NUL byte in front of slashes at
  the end.
-/

namespace PersonalCloud.StorageNode

open PersonalCloud.Lib
open PersonalCloud.Lib.PathText (parts join parts_append_cons parts_nil canonical_of_not_infix)

/-! ## The code -/

def eraseLast (c : UInt8) (rv : Component) : Option Component :=
  if rv.getLast? = some c then some rv.dropLast else none

def eraseFirst (c : UInt8) (rv : Component) : Option Component :=
  if rv.head? = some c then some rv.tail else none

def mergeSlashes (rv : Component) : Option Component :=
  (find rv [slash, slash]).map fun pos => replace rv pos 2 [slash]

/-- The loop that erases a byte at the end. -/
def trimLast (c : UInt8) (rv : Component) : Component :=
  exhaust (eraseLast c) rv.length rv

/-- The loop that erases a byte at the beginning. -/
def trimFirst (c : UInt8) (rv : Component) : Component :=
  exhaust (eraseFirst c) rv.length rv

/-- The loop that makes two slashes one. -/
def mergeAll (rv : Component) : Component :=
  exhaust mergeSlashes rv.length rv

def normalizePath (path : Component) : Component :=
  let rv := trimLast 0 path
  let rv := mergeAll rv
  let rv := trimFirst slash rv
  trimLast slash rv

/-- What the server makes of a name in a request. -/
def assignComponentName (data : List UInt8) : Component :=
  let rv := trimFirst slash data
  let rv := trimLast slash rv
  trimLast 0 rv

/-! ## One round -/

variable {c d : UInt8} {s t path : Component}

theorem eraseLast_eq_none : eraseLast c s = none ↔ s.getLast? ≠ some c :=
  ite_eq_right_iff.trans ⟨fun h hc => Option.some_ne_none _ (h hc), fun h hc => absurd hc h⟩

theorem eraseLast_concat (s : Component) (c : UInt8) : eraseLast c (s ++ [c]) = some s := by
  rw [eraseLast, if_pos List.getLast?_concat, List.dropLast_concat]

theorem eq_concat_of_eraseLast (h : eraseLast c s = some t) : s = t ++ [c] := by
  unfold eraseLast at h
  split_ifs at h with hlast
  obtain ⟨s, rfl⟩ := List.getLast?_eq_some_iff.1 hlast
  rw [← Option.some.inj h, List.dropLast_concat]

theorem eraseFirst_eq_none : eraseFirst c s = none ↔ s.head? ≠ some c :=
  ite_eq_right_iff.trans ⟨fun h hc => Option.some_ne_none _ (h hc), fun h hc => absurd hc h⟩

theorem eq_cons_of_eraseFirst (h : eraseFirst c s = some t) : s = c :: t := by
  unfold eraseFirst at h
  split_ifs at h with hfirst
  obtain ⟨s, rfl⟩ := List.head?_eq_some_iff.1 hfirst
  rw [← Option.some.inj h, List.tail_cons]

theorem mergeSlashes_eq_none : mergeSlashes s = none ↔ ¬[slash, slash] <:+: s :=
  Option.map_eq_none_iff.trans find_eq_none

theorem exists_of_mergeSlashes (h : mergeSlashes s = some t) :
    ∃ a b, s = a ++ [slash, slash] ++ b ∧ t = a ++ [slash] ++ b := by
  obtain ⟨pos, hpos, rfl⟩ := Option.map_eq_some_iff.1 h
  obtain ⟨a, b, rfl, rfl⟩ := exists_of_find_eq_some hpos
  exact ⟨a, b, rfl, replace_eq a [slash, slash] b [slash]⟩

/-! ## The loops -/

theorem trimLast_of_ne (h : s.getLast? ≠ some c) : trimLast c s = s :=
  exhaust_of_none (eraseLast_eq_none.2 h) _

theorem trimFirst_of_ne (h : s.head? ≠ some c) : trimFirst c s = s :=
  exhaust_of_none (eraseFirst_eq_none.2 h) _

theorem mergeAll_of_not_infix (h : ¬[slash, slash] <:+: s) : mergeAll s = s :=
  exhaust_of_none (mergeSlashes_eq_none.2 h) _

theorem getLast?_trimLast (c : UInt8) (s : Component) : (trimLast c s).getLast? ≠ some c := by
  refine eraseLast_eq_none.1 (step_exhaust (m := List.length) (fun s t h => ?_) le_rfl)
  rw [eq_concat_of_eraseLast h, List.length_append, List.length_singleton]
  exact Nat.lt_succ_self _

theorem head?_trimFirst (c : UInt8) (s : Component) : (trimFirst c s).head? ≠ some c := by
  refine eraseFirst_eq_none.1 (step_exhaust (m := List.length) (fun s t h => ?_) le_rfl)
  rw [eq_cons_of_eraseFirst h, List.length_cons]
  exact Nat.lt_succ_self _

theorem not_infix_mergeAll (s : Component) : ¬[slash, slash] <:+: mergeAll s := by
  refine mergeSlashes_eq_none.1 (step_exhaust (m := List.length) (fun s t h => ?_) le_rfl)
  obtain ⟨a, b, rfl, rfl⟩ := exists_of_mergeSlashes h
  simp only [List.length_append, List.length_cons, List.length_nil]
  omega

/-- What is erased at the end is a run of the byte. -/
theorem exists_append_replicate (c : UInt8) (s : Component) :
    ∃ n, s = trimLast c s ++ List.replicate n c := by
  refine exhaust_invariant (I := fun t => ∃ n, s = t ++ List.replicate n c)
    (fun t u h => ?_) ⟨0, (List.append_nil s).symm⟩
  rintro ⟨n, rfl⟩
  refine ⟨n + 1, ?_⟩
  rw [eq_concat_of_eraseLast h, List.replicate_succ, List.append_assoc, List.singleton_append]

theorem exists_replicate_append (c : UInt8) (s : Component) :
    ∃ n, s = List.replicate n c ++ trimFirst c s := by
  refine exhaust_invariant (I := fun t => ∃ n, s = List.replicate n c ++ t)
    (fun t u h => ?_) ⟨0, rfl⟩
  rintro ⟨n, rfl⟩
  refine ⟨n + 1, ?_⟩
  rw [eq_cons_of_eraseFirst h, List.replicate_succ', List.append_assoc, List.singleton_append]

theorem trimLast_append_replicate (h : s.getLast? ≠ some c) (n : ℕ) :
    trimLast c (s ++ List.replicate n c) = s := by
  induction n with
  | zero => rw [List.replicate_zero, List.append_nil, trimLast_of_ne h]
  | succ n ih =>
    have hlast : s ++ List.replicate (n + 1) c = s ++ List.replicate n c ++ [c] := by
      rw [List.replicate_succ', List.append_assoc]
    rw [hlast, trimLast, List.length_append, List.length_singleton,
      exhaust_of_some (eraseLast_concat _ c)]
    exact ih

/-! ## Canonical names -/

/-- A name without a slash too many and without a NUL byte at the end. -/
structure Canonical (name : Component) : Prop where
  noLeading : name.head? ≠ some slash
  noTrailing : name.getLast? ≠ some slash
  noDouble : ¬[slash, slash] <:+: name
  noNul : name.getLast? ≠ some 0

theorem normalizePath_of_canonical {name : Component} (h : Canonical name) :
    normalizePath name = name := by
  unfold normalizePath
  dsimp only
  rw [trimLast_of_ne h.noNul, mergeAll_of_not_infix h.noDouble, trimFirst_of_ne h.noLeading,
    trimLast_of_ne h.noTrailing]

theorem getLast?_normalizePath (path : Component) :
    (normalizePath path).getLast? ≠ some slash :=
  getLast?_trimLast slash _

theorem head?_normalizePath (path : Component) : (normalizePath path).head? ≠ some slash := by
  let rv := trimFirst slash (mergeAll (trimLast 0 path))
  obtain ⟨n, hn⟩ := exists_append_replicate slash rv
  have hrv : rv.head? ≠ some slash := head?_trimFirst slash _
  rw [hn] at hrv
  intro h
  obtain ⟨t, ht⟩ := List.head?_eq_some_iff.1 h
  exact hrv (by rw [show trimLast slash rv = slash :: t from ht]; rfl)

theorem not_infix_normalizePath (path : Component) :
    ¬[slash, slash] <:+: normalizePath path := by
  let merged := mergeAll (trimLast 0 path)
  obtain ⟨m, hm⟩ := exists_replicate_append slash merged
  obtain ⟨n, hn⟩ := exists_append_replicate slash (trimFirst slash merged)
  intro h
  have hlast : normalizePath path <+: trimFirst slash merged := ⟨_, hn.symm⟩
  have hfirst : trimFirst slash merged <:+ merged := ⟨_, hm.symm⟩
  exact not_infix_mergeAll (trimLast 0 path)
    (h.trans (hlast.isInfix.trans hfirst.isInfix))

/-! ## What is kept -/

/-- What depends on no slash too many is the same for the result. -/
theorem normalizePath_keeps {β : Type*} {f : Component → β}
    (hmerge : ∀ a b, f (a ++ [slash, slash] ++ b) = f (a ++ [slash] ++ b))
    (hfirst : ∀ t, f (slash :: t) = f t) (hlast : ∀ t, f (t ++ [slash]) = f t)
    (path : Component) : f (normalizePath path) = f (trimLast 0 path) := by
  have hmerged : f (mergeAll (trimLast 0 path)) = f (trimLast 0 path) := by
    refine exhaust_invariant (I := fun t => f t = f (trimLast 0 path)) (fun s t h hs => ?_) rfl
    obtain ⟨a, b, rfl, rfl⟩ := exists_of_mergeSlashes h
    exact (hmerge a b).symm.trans hs
  have hbegin : f (trimFirst slash (mergeAll (trimLast 0 path))) = f (trimLast 0 path) := by
    refine exhaust_invariant (I := fun t => f t = f (trimLast 0 path)) (fun s t h hs => ?_) hmerged
    rw [eq_cons_of_eraseFirst h] at hs
    exact (hfirst t).symm.trans hs
  refine exhaust_invariant (I := fun t => f t = f (trimLast 0 path)) (fun s t h hs => ?_) hbegin
  rw [eq_concat_of_eraseLast h] at hs
  exact (hlast t).symm.trans hs

/-- The parts are the names of the directories on the way, and the last one. -/
theorem parts_normalizePath (path : Component) :
    parts slash (normalizePath path) = parts slash (trimLast 0 path) := by
  refine normalizePath_keeps (fun a b => ?_) (fun t => ?_) (fun t => ?_) path
  · have hb : parts slash (slash :: b) = parts slash b := parts_append_cons [] b
    rw [List.append_assoc, List.append_assoc, List.cons_append, List.cons_append,
      List.nil_append, parts_append_cons, parts_append_cons, hb]
  · exact parts_append_cons [] t
  · rw [parts_append_cons, parts_nil, List.append_nil]

theorem canonical_normalizePath (path : Component) :
    PathText.Canonical slash (normalizePath path) :=
  canonical_of_not_infix (head?_normalizePath path) (getLast?_normalizePath path)
    (not_infix_normalizePath path)

/-- The result is the parts, with one slash between them. -/
theorem normalizePath_eq_join (path : Component) :
    normalizePath path = join slash (parts slash (trimLast 0 path)) := by
  rw [← parts_normalizePath, (canonical_normalizePath path).join_parts]

/-- Two spellings are one name if they have the same parts. -/
theorem normalizePath_eq_iff {path other : Component} : normalizePath path = normalizePath other ↔
    parts slash (trimLast 0 path) = parts slash (trimLast 0 other) := by
  constructor
  · intro h
    rw [← parts_normalizePath, h, parts_normalizePath]
  · intro h
    rw [normalizePath_eq_join, h, normalizePath_eq_join]

/-! ## The last byte -/

theorem getLast?_filter (h : s.getLast? ≠ some c) : (s.filter (· ≠ c)).getLast? = s.getLast? := by
  obtain rfl | ⟨t, d, rfl⟩ := s.eq_nil_or_concat'
  · rfl
  · have hd : d ≠ c := by
      rintro rfl
      exact h List.getLast?_concat
    have hone : [d].filter (· ≠ c) = [d] := List.filter_cons_of_pos (decide_eq_true hd)
    rw [List.filter_append, hone, List.getLast?_concat, List.getLast?_concat]

theorem getLast?_filter_eq (c : UInt8) (s : Component) :
    (s.filter (· ≠ c)).getLast? = (trimLast c s).getLast? := by
  obtain ⟨n, hn⟩ := exists_append_replicate c s
  have hrun : (List.replicate n c).filter (· ≠ c) = [] := by
    refine List.filter_eq_nil_iff.2 fun d hd => ?_
    rw [List.eq_of_mem_replicate hd]
    simp
  calc (s.filter (· ≠ c)).getLast?
      = ((trimLast c s ++ List.replicate n c).filter (· ≠ c)).getLast? := by rw [← hn]
    _ = ((trimLast c s).filter (· ≠ c)).getLast? := by
      rw [List.filter_append, hrun, List.append_nil]
    _ = (trimLast c s).getLast? := getLast?_filter (getLast?_trimLast c s)

/-- The last byte is the last one that is not a slash. -/
theorem getLast?_normalizePath_eq (path : Component) :
    (normalizePath path).getLast? = (trimLast slash (trimLast 0 path)).getLast? := by
  have hkept : (normalizePath path).filter (· ≠ slash) =
      (trimLast 0 path).filter (· ≠ slash) := by
    refine normalizePath_keeps (f := fun t => t.filter (· ≠ slash)) (fun a b => ?_) (fun t => ?_)
      (fun t => ?_) path
    · simp
    · simp
    · simp
  rw [← getLast?_filter (getLast?_normalizePath path), hkept, getLast?_filter_eq]

/-- A NUL byte in front of slashes at the end, behind which there may only be more NUL bytes. -/
def NulBeforeSlashes (path : Component) : Prop :=
  ∃ a m n, path = a ++ 0 :: List.replicate (m + 1) slash ++ List.replicate n 0

theorem getLast?_trimLast_trimLast_iff (path : Component) :
    (trimLast slash (trimLast 0 path)).getLast? = some 0 ↔ NulBeforeSlashes path := by
  constructor
  · intro h
    obtain ⟨n, hn⟩ := exists_append_replicate 0 path
    obtain ⟨m, hm⟩ := exists_append_replicate slash (trimLast 0 path)
    obtain ⟨a, ha⟩ := List.getLast?_eq_some_iff.1 h
    rw [ha, List.append_assoc, List.singleton_append] at hm
    cases m with
    | zero =>
      have hlast := getLast?_trimLast 0 path
      rw [hm] at hlast
      exact absurd List.getLast?_concat hlast
    | succ m =>
      rw [hm] at hn
      exact ⟨a, m, n, hn⟩
  · rintro ⟨a, m, n, rfl⟩
    have hslash : (a ++ 0 :: List.replicate (m + 1) slash).getLast? ≠ some 0 := by
      rw [List.replicate_succ', ← List.cons_append, ← List.append_assoc, List.getLast?_concat]
      decide
    have hnul : (a ++ [0]).getLast? ≠ some slash := by
      rw [List.getLast?_concat]
      decide
    rw [trimLast_append_replicate hslash, List.append_cons, trimLast_append_replicate hnul,
      List.getLast?_concat]

/-! ## When the result is canonical -/

theorem canonicalizes_iff (path : Component) :
    (Canonical (normalizePath path) ∧
      normalizePath (normalizePath path) = normalizePath path) ↔ ¬NulBeforeSlashes path := by
  rw [← getLast?_trimLast_trimLast_iff, ← getLast?_normalizePath_eq]
  constructor
  · rintro ⟨h, -⟩
    exact h.noNul
  · intro h
    have hcanonical : Canonical (normalizePath path) := {
      noLeading := head?_normalizePath path
      noTrailing := getLast?_normalizePath path
      noDouble := not_infix_normalizePath path
      noNul := h }
    exact ⟨hcanonical, normalizePath_of_canonical hcanonical⟩

/-- A name in a request that ends in a NUL byte behind a slash gets here. The name of the component
ends in a NUL byte then, and is another one when it is normalized again. -/
theorem not_canonicalizes_nulBeforeSlash :
    ¬∀ path : Component, Canonical (normalizePath path) ∧
      normalizePath (normalizePath path) = normalizePath path := by
  intro h
  have hpath : assignComponentName [97, 0, slash, 0] = [97, 0, slash] := by decide
  have hname : normalizePath [97, 0, slash] = [97, 0] := by decide
  have hagain : normalizePath [97, 0] = [97] := by decide
  have hidem := (h (assignComponentName [97, 0, slash, 0])).2
  rw [hpath, hname, hagain] at hidem
  exact absurd hidem (by decide)

end PersonalCloud.StorageNode
