import PersonalCloud.DatasetDb.Creation

/-!
# The rows below a component

What is below a component is found by a pattern, and gets another path by a change of the
beginning of its name.

## Main results

* `selectsForRemoval_iff`, `selectsForMove_iff` — the rows of the component and those below it.
* `replaceprefix_spec` — the parts of the beginning are changed for others.
* `upperName_replaceprefix_ne` — with a longer beginning no name is the old one.
* `renamed_spec` — a row that is renamed keeps what the invariant says about it.
-/

namespace PersonalCloud.DatasetDb

open PersonalCloud.Lib PersonalCloud.Lib.PathText PersonalCloud.Lib.PathTree

variable {α : Type} [DecidableEq α] {c : Collation α} {Literal : α → Prop}
  {name pre new : List α} {r : ComponentRow α}

namespace Collation

/-! ## Patterns -/

omit [DecidableEq α] in
theorem Lawful.glob_below (hc : c.Lawful Literal) (hlit : ∀ a ∈ name, Literal a) (s : List α) :
    c.glob (c.upperName name ++ [c.slash, c.star]) s = true ↔
      c.upperName name ++ [c.slash] <+: s := by
  have hliteral : ∀ a ∈ c.upperName name ++ [c.slash], Literal a := by
    intro a ha
    obtain ha | ha := List.mem_append.1 ha
    · obtain ⟨b, hb, rfl⟩ := List.mem_map.1 ha
      exact hc.literal_upper b (hlit b hb)
    · rw [List.mem_singleton.1 ha]
      exact hc.literal_slash
  rw [← hc.glob_star _ s hliteral, List.append_assoc]
  rfl

theorem Lawful.eq_or_glob_iff (hc : c.Lawful Literal) (hname : Canonical c.slash name)
    (hlit : ∀ a ∈ name, Literal a) (hne : name ≠ []) (hr : Canonical c.slash r.nameUpper) :
    r.nameUpper = c.upperName name ∨
        c.glob (c.upperName name ++ [c.slash, c.star]) r.nameUpper = true ↔
      c.pathOf name <+: c.rowPath r := by
  have hupper : c.upperName name ≠ [] := by simpa [upperName] using hne
  rw [hc.glob_below hlit, (hc.canonical_upperName.2 hname).eq_or_below_iff hr hupper]
  rfl

/-- The pattern of the root is for everything. -/
theorem Lawful.selectsForRemoval_iff (hc : c.Lawful Literal) (hname : Canonical c.slash name)
    (hlit : ∀ a ∈ name, Literal a) (hr : Canonical c.slash r.nameUpper) :
    c.SelectsForRemoval name r ↔ r.trashId = none ∧ c.pathOf name <+: c.rowPath r := by
  rw [SelectsForRemoval, and_comm]
  refine and_congr_right fun _ => ?_
  obtain rfl | hne := eq_or_ne name []
  · have hstar : c.upperName (c.globpattern []) = [] ++ [c.star] := by
      simp [globpattern, upperName, hc.upper_star]
    rw [hstar, hc.glob_star [] _ (by simp)]
    simp [pathOf, upperName]
  · have hpattern : c.upperName (c.globpattern name) = c.upperName name ++ [c.slash, c.star] := by
      simp [globpattern, hne, upperName, hc.upper_star, (hc.upper_slash _).2]
    rw [hpattern]
    exact hc.eq_or_glob_iff hname hlit hne hr

/-- The pattern of the root is for no canonical name. -/
theorem Lawful.selectsForMove_iff (hc : c.Lawful Literal) (hname : Canonical c.slash name)
    (hlit : ∀ a ∈ name, Literal a) (hr : Canonical c.slash r.nameUpper) :
    c.SelectsForMove name r ↔ r.trashId = none ∧
      (c.rowPath r = c.pathOf name ∨ name ≠ [] ∧ c.pathOf name <+: c.rowPath r) := by
  rw [SelectsForMove, and_comm]
  refine and_congr_right fun _ => ?_
  obtain rfl | hne := eq_or_ne name []
  · have hnot : ¬c.glob (c.upperName [] ++ [c.slash, c.star]) r.nameUpper = true := by
      rw [hc.glob_below hlit]
      rintro ⟨rest, hrest⟩
      refine hr.head?_ne ?_
      rw [← hrest]
      rfl
    simp only [hnot, or_false, ne_eq, not_true_eq_false, false_and]
    rw [rowPath, pathOf, hr.parts_inj (hc.canonical_upperName.2 hname)]
    simp
  · rw [hc.eq_or_glob_iff hname hlit hne hr]
    refine ⟨fun h => .inr ⟨hne, h⟩, ?_⟩
    rintro (h | ⟨-, h⟩)
    · rw [h]
    · exact h

/-! ## Other names -/

/-- A name at or below another one is that name, or it goes on behind a slash. -/
theorem Lawful.prefix_cases (hc : c.Lawful Literal) (hname : Canonical c.slash name)
    (hpre : Canonical c.slash pre) (hne : pre ≠ []) (hinit : c.pathOf pre <+: c.pathOf name) :
    c.upperName name = c.upperName pre ∨
      ∃ a rest, name = a ++ c.slash :: rest ∧ c.upperName a = c.upperName pre := by
  have hupper : c.upperName pre ≠ [] := by simpa [upperName] using hne
  obtain heq | ⟨rest, hrest⟩ := ((hc.canonical_upperName.2 hpre).eq_or_below_iff
    (hc.canonical_upperName.2 hname) hupper).2 hinit
  · exact .inl heq
  · rw [List.append_assoc, List.singleton_append] at hrest
    obtain ⟨a, b, rfl, ha, hb⟩ := List.map_eq_append_iff.1 hrest.symm
    obtain ⟨d, rest', rfl, hd, -⟩ := List.map_eq_cons_iff.1 hb
    rw [hc.upper_slash] at hd
    subst hd
    exact .inr ⟨a, rest', rfl, ha⟩

theorem Lawful.length_spell (hc : c.Lawful Literal) (h : c.upperName name = c.upperName pre) :
    (c.spell name).length = (c.spell pre).length := by
  have hpath : c.pathOf name = c.pathOf pre := congrArg (parts c.slash) h
  rw [hc.pathOf_eq, hc.pathOf_eq] at hpath
  simpa using congrArg List.length hpath

theorem Lawful.replaceprefix_spec (hc : c.Lawful Literal) (hname : Canonical c.slash name)
    (hpre : Canonical c.slash pre) (hnew : Canonical c.slash new)
    (hinit : c.pathOf pre <+: c.pathOf name) :
    c.replaceprefix name pre new =
      join c.slash (c.spell new ++ (c.spell name).drop (c.spell pre).length) := by
  unfold replaceprefix
  obtain rfl | hne := eq_or_ne pre []
  · rw [if_pos rfl]
    exact (hnew.join_parts_append hname).symm
  rw [if_neg hne]
  obtain heq | ⟨a, rest, rfl, ha⟩ := hc.prefix_cases hname hpre hne hinit
  · have hlen : name.length = pre.length := by simpa [upperName] using congrArg List.length heq
    have hdrop : (c.spell name).drop (c.spell pre).length = [] := by
      rw [← hc.length_spell heq, List.drop_length]
    rw [← hlen, List.take_length, if_pos heq, if_pos rfl, hdrop, List.append_nil, spell,
      hnew.join_parts]
    simp
  · have hlen : a.length = pre.length := by simpa [upperName] using congrArg List.length ha
    have hdrop : (c.spell (a ++ c.slash :: rest)).drop (c.spell pre).length = c.spell rest := by
      rw [← hc.length_spell ha]
      simp only [spell, parts_append_cons, List.drop_left]
    obtain ⟨-, hrestne, hrest⟩ := canonical_append_cons.1 hname
    have hrest' : (a ++ c.slash :: rest).drop (a.length + 1) = rest := by
      rw [← List.drop_drop, List.drop_left, List.drop_one, List.tail_cons]
    rw [← hlen, List.take_left, if_pos ha, if_neg (by simp), if_pos (by simp), hdrop, hrest']
    exact (hnew.join_parts_append hrest).symm

omit [DecidableEq α] in
theorem Lawful.upperName_upperName (hc : c.Lawful Literal) (name : List α) :
    c.upperName (c.upperName name) = c.upperName name := by
  simp [upperName, Function.comp_def, hc.upper_upper]

theorem Lawful.pathOf_upperName (hc : c.Lawful Literal) (name : List α) :
    c.pathOf (c.upperName name) = c.pathOf name := by
  rw [pathOf, hc.upperName_upperName, pathOf]

/-- The beginning is compared in upper case. -/
theorem Lawful.upperName_replaceprefix (hc : c.Lawful Literal) (name pre new : List α) :
    c.upperName (c.replaceprefix (c.upperName name) pre new) =
      c.upperName (c.replaceprefix name pre new) := by
  have hlength : (c.upperName name).length = name.length := List.length_map ..
  have htake : c.upperName ((c.upperName name).take pre.length) =
      c.upperName (name.take pre.length) := by
    rw [upperName, upperName, ← List.map_take]
    exact hc.upperName_upperName _
  have hnext : (c.upperName name)[pre.length]? = some c.slash ↔
      name[pre.length]? = some c.slash := by
    simp [upperName, hc.upper_slash]
  have hput : ∀ rest : List α,
      c.upperName (if new ≠ [] ∧ c.upperName rest ≠ [] then new ++ c.slash :: c.upperName rest
        else new ++ c.upperName rest) =
      c.upperName (if new ≠ [] ∧ rest ≠ [] then new ++ c.slash :: rest else new ++ rest) := by
    intro rest
    have hnil : c.upperName rest = [] ↔ rest = [] := List.map_eq_nil_iff
    simp only [ne_eq, hnil]
    split_ifs <;> simp [upperName, Function.comp_def, hc.upper_upper]
  have hdrop : ∀ n, (c.upperName name).drop n = c.upperName (name.drop n) := fun n =>
    List.map_drop.symm
  unfold replaceprefix
  simp only [hlength, htake, hnext, hdrop]
  split_ifs
  · exact hput name
  · rfl
  · exact hput _
  · exact hc.upperName_upperName name
  · exact hc.upperName_upperName name

/-- A name that is not at or below the old one stays. -/
theorem Lawful.replaceprefix_of_not_below (hc : c.Lawful Literal) (hname : Canonical c.slash name)
    (hpre : Canonical c.slash pre) (hnot : ¬c.pathOf pre <+: c.pathOf name) :
    c.replaceprefix name pre new = name := by
  have hne : pre ≠ [] := by
    rintro rfl
    exact hnot (by simp [pathOf, upperName])
  have hupper : c.upperName pre ≠ [] := by simpa [upperName] using hne
  rw [pathOf, pathOf, ← (hc.canonical_upperName.2 hpre).eq_or_below_iff
    (hc.canonical_upperName.2 hname) hupper, not_or] at hnot
  unfold replaceprefix
  rw [if_neg hne]
  split_ifs with htake hlen hnext
  · rw [← hlen, List.take_length] at htake
    exact absurd htake hnot.1
  · obtain ⟨hlt, hslash⟩ := List.getElem?_eq_some_iff.1 hnext
    refine absurd ⟨c.upperName (name.drop (pre.length + 1)), ?_⟩ hnot.2
    conv_rhs => rw [← List.take_append_drop pre.length name, List.drop_eq_getElem_cons hlt, hslash]
    rw [← htake]
    simp [upperName, (hc.upper_slash _).2]
  · rfl
  · rfl

/-- If a longer name comes in place of it, nothing is called like the prefix any more. -/
theorem upperName_replaceprefix_ne (hlen : pre.length < new.length) (name : List α) :
    c.upperName (c.replaceprefix name pre new) ≠ c.upperName pre := by
  intro heq
  have hlength : (c.replaceprefix name pre new).length = pre.length := by
    simpa [upperName] using congrArg List.length heq
  have hlonger : ∀ rest : List α, pre.length <
      (if new ≠ [] ∧ rest ≠ [] then new ++ c.slash :: rest else new ++ rest).length := by
    intro rest
    split_ifs
    · simp only [List.length_append, List.length_cons]
      omega
    · simp only [List.length_append]
      omega
  unfold replaceprefix at heq hlength
  split_ifs at heq hlength with hnil htake hsame hnext
  · exact (hlonger name).ne' hlength
  · exact (hlonger []).ne' hlength
  · exact (hlonger _).ne' hlength
  · exact hsame hlength
  · refine htake ?_
    rw [List.take_of_length_le hlength.le]
    exact heq

/-- The names of a row that has this path and leaf. -/
structure Named (c : Collation α) (path : List (List α)) (leaf name nameUpper : List α) :
    Prop where
  upper : nameUpper = c.upperName name
  canonical : Canonical c.slash nameUpper
  path : parts c.slash nameUpper = path
  leaf : c.basename name = leaf

theorem getLastD_append_drop {σ : Type*} {ps qs : List σ} {n : ℕ} (hlen : n ≤ qs.length)
    (d : σ) : (ps ++ qs.drop n).getLastD d =
      if qs.length = n then ps.getLastD d else qs.getLastD d := by
  by_cases hn : qs.length = n
  · rw [if_pos hn, ← hn, List.drop_length, List.append_nil]
  · have hne : qs.drop n ≠ [] := by
      rw [ne_eq, List.drop_eq_nil_iff]
      omega
    have hqs : qs ≠ [] := by
      rintro rfl
      simp at hne
    rw [if_neg hn, List.getLastD_eq_getLast?, List.getLastD_eq_getLast?,
      List.getLast?_append_of_ne_nil _ hne, List.getLast?_drop, if_neg (by omega)]

/-- A row at or below a path keeps what is behind it and, unless it is the row of that path, its
leaf. -/
theorem Lawful.renamed_spec (hc : c.Lawful Literal) (hupper : r.nameUpper = c.upperName r.name)
    (hr : Canonical c.slash r.nameUpper) (hpre : Canonical c.slash pre)
    (hnew : Canonical c.slash new) (hinit : c.pathOf pre <+: c.rowPath r) :
    c.Named (c.pathOf new ++ (c.rowPath r).drop (c.pathOf pre).length)
      (if c.rowPath r = c.pathOf pre then (c.spell new).getLastD [] else c.basename r.name)
      (c.replaceprefix r.name pre new)
      (c.upperName (c.replaceprefix r.nameUpper pre new)) := by
  have hname : Canonical c.slash r.name := hc.canonical_upperName.1 (hupper ▸ hr)
  have hpath : c.pathOf r.name = c.rowPath r := congrArg (parts c.slash) hupper.symm
  have hpath' : c.pathOf r.nameUpper = c.rowPath r := by rw [hupper, hc.pathOf_upperName, hpath]
  have hspell : c.spell r.nameUpper = (c.spell r.name).map c.upperName := by
    rw [← hc.pathOf_eq, hpath]
    rfl
  have hspec := hc.replaceprefix_spec hname hpre hnew (hpath ▸ hinit)
  have hspec' := hc.replaceprefix_spec hr hpre hnew (hpath' ▸ hinit)
  have hparts : ∀ x ∈ c.spell new ++ (c.spell r.name).drop (c.spell pre).length,
      IsPart c.slash x := by
    intro x hx
    obtain hx | hx := List.mem_append.1 hx
    · exact isPart_of_mem hx
    · exact isPart_of_mem (List.mem_of_mem_drop hx)
  have hparts' : ∀ x ∈ c.spell new ++ (c.spell r.nameUpper).drop (c.spell pre).length,
      IsPart c.slash x := by
    intro x hx
    obtain hx | hx := List.mem_append.1 hx
    · exact isPart_of_mem hx
    · exact isPart_of_mem (List.mem_of_mem_drop hx)
  have hlen : (c.pathOf pre).length = (c.spell pre).length := by rw [hc.pathOf_eq, List.length_map]
  have hcanonical : Canonical c.slash (c.upperName (c.replaceprefix r.nameUpper pre new)) := by
    rw [hspec', hc.canonical_upperName]
    exact canonical_join hparts'
  have hnewPath : parts c.slash (c.upperName (c.replaceprefix r.nameUpper pre new)) =
      c.pathOf new ++ (c.rowPath r).drop (c.pathOf pre).length := by
    change c.pathOf _ = _
    rw [hspec', hc.pathOf_join hparts', List.map_append, ← hc.pathOf_eq, List.map_drop,
      ← hc.pathOf_eq, hpath', hlen]
  have hnewUpper : c.upperName (c.replaceprefix r.nameUpper pre new) =
      c.upperName (c.replaceprefix r.name pre new) := by
    rw [hupper, hc.upperName_replaceprefix]
  refine ⟨hnewUpper, hcanonical, hnewPath, ?_⟩
  have hle : (c.spell pre).length ≤ (c.spell r.name).length := by
    have := hinit.length_le
    rwa [hlen, ← hpath, hc.pathOf_eq, List.length_map] at this
  have hleaf : (c.spell r.name).getLastD [] = c.basename r.name := by
    conv_rhs => rw [← hname.join_parts]
    exact (basename_join fun x hx => isPart_of_mem hx).1.symm
  have hiff : (c.spell r.name).length = (c.spell pre).length ↔ c.rowPath r = c.pathOf pre := by
    have hmap : (c.pathOf r.name).length = (c.spell r.name).length := by
      rw [hc.pathOf_eq, List.length_map]
    rw [← hlen, ← hmap, hpath]
    exact ⟨fun h => (hinit.eq_of_length h.symm).symm, fun h => by rw [h]⟩
  rw [hspec, (basename_join hparts).1, getLastD_append_drop hle, hleaf]
  simp only [hiff]

end Collation

end PersonalCloud.DatasetDb
