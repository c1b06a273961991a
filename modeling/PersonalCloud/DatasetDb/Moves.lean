import PersonalCloud.DatasetDb.Runs

/-!
# Moves

The header has two things to be checked before a move, and neither is. What comes of it is said here
for old names of any letters, so that the pattern may find rows of other components too.

## Main definitions

* `movedRow` — what the statement of a move makes of a row.

## Main results

* `move_into_itself` — a component is never moved below itself.
* `move_unique_iff` — a move on a component that is there leaves two of one name.
-/

namespace PersonalCloud.DatasetDb

open PersonalCloud.Lib PersonalCloud.Lib.PathText PersonalCloud.Lib.PathTree ComponentTree Tables

variable {α : Type} [DecidableEq α] {c : Collation α} {Literal : α → Prop} {t t' u v : Tables α}
  {oldName newName : List α} {version time : ℕ}

/-- What a move that succeeds does to names, and what it is that it cannot do. -/
theorem Tables.moveComponent_cases (hc : c.Lawful Literal) (hold : Canonical c.slash oldName)
    (hnew : Canonical c.slash newName)
    (h : t.moveComponent c oldName newName version time = .ok t') :
    (c.pathOf oldName <+: c.pathOf newName → c.pathOf oldName = c.pathOf newName) ∧
      ∃ names u v, createComponentAncestryList c newName none = some names ∧
        t.createComponentsIfMissing c names version time = .ok u ∧
        u.updateComponentNameByName c oldName newName version = .ok v ∧ v.Alike t' := by
  obtain ⟨-, hsteps⟩ := error_ite_eq_ok_iff.1 h
  obtain ⟨names, hnames, hsteps⟩ := checkRv_bind_eq_ok_iff.1 hsteps
  obtain ⟨u, hu, hsteps⟩ := bind_eq_ok_iff.1 hsteps
  obtain ⟨v, hv, hsteps⟩ := bind_eq_ok_iff.1 hsteps
  obtain ⟨w, hw, hsteps⟩ := bind_eq_ok_iff.1 hsteps
  obtain ⟨w', hw', hsteps⟩ := bind_eq_ok_iff.1 hsteps
  obtain ⟨names', -, hsteps⟩ := checkRv_bind_eq_ok_iff.1 hsteps
  obtain ⟨w'', hw'', hversions⟩ := bind_eq_ok_iff.1 hsteps
  have hparent := alike_of_updateParent hw
  refine ⟨move_not_below hc hold hnew hnames hv hparent hw', names, u, v, hnames, hu, hv, ?_⟩
  exact ((hparent.trans (alike_of_updateComponentsVersion hw')).trans
    (alike_of_updateParent hw'')).trans (alike_of_updateComponentsVersion hversions)

/-- What the statement of a move makes of a row. -/
def movedRow (c : Collation α) (oldName newName : List α) (version : ℕ) (r : ComponentRow α) :
    ComponentRow α :=
  if c.SelectsForMove oldName r then
    { r with
      name := c.replaceprefix r.name (c.upperName oldName) newName
      nameUpper := c.upperName (c.replaceprefix r.nameUpper (c.upperName oldName) newName)
      version := version }
  else r

/-- The row gets another name. -/
def Moves (c : Collation α) (oldName : List α) (r : ComponentRow α) : Prop :=
  c.SelectsForMove oldName r ∧ c.pathOf oldName <+: c.rowPath r

theorem component_of_updateComponentNameByName
    (h : u.updateComponentNameByName c oldName newName version = .ok v) :
    v.component = u.component.map (movedRow c oldName newName version) := by
  obtain ⟨-, h⟩ := error_ite_eq_ok_iff.1 h
  rw [(updateComponents_eq_ok h).2]
  rfl

section Rows

variable {rows : List (ComponentRow α)} {r r' : ComponentRow α}

@[simp] theorem movedRow_id : (movedRow c oldName newName version r).id = r.id := by
  unfold movedRow
  split_ifs <;> rfl

@[simp] theorem movedRow_trashId : (movedRow c oldName newName version r).trashId = r.trashId := by
  unfold movedRow
  split_ifs <;> rfl

/-- A row that is selected, but is not at or below the old path, only gets the version. -/
theorem nameUpper_of_not_moves (hc : c.Lawful Literal) (hrows : NamesConsistent c rows)
    (hr : r ∈ rows) (hold : Canonical c.slash oldName) (h : ¬Moves c oldName r) :
    (movedRow c oldName newName version r).nameUpper = r.nameUpper := by
  unfold movedRow
  split_ifs with hsel
  · have hnot : ¬c.pathOf (c.upperName oldName) <+: c.pathOf r.nameUpper := by
      rw [hc.pathOf_upperName, hrows.upper r hr, hc.pathOf_upperName]
      intro hinit
      refine h ⟨hsel, ?_⟩
      rwa [Collation.rowPath, hrows.upper r hr]
    rw [hc.replaceprefix_of_not_below (hrows.canonical r hr) (hc.canonical_upperName.2 hold) hnot,
      hrows.upper r hr, hc.upperName_upperName]
  · rfl

theorem named_of_moves (version : ℕ) (hc : c.Lawful Literal) (hrows : NamesConsistent c rows) (hr : r ∈ rows)
    (hold : Canonical c.slash oldName) (hnew : Canonical c.slash newName)
    (h : Moves c oldName r) :
    Canonical c.slash (movedRow c oldName newName version r).nameUpper ∧
      c.rowPath (movedRow c oldName newName version r) =
        c.pathOf newName ++ (c.rowPath r).drop (c.pathOf oldName).length := by
  have hpath := hc.pathOf_upperName oldName
  have hnamed := hc.renamed_spec (hrows.upper r hr) (hrows.canonical r hr)
    (hc.canonical_upperName.2 hold) hnew (hpath.symm ▸ h.2)
  rw [hpath] at hnamed
  unfold movedRow
  rw [if_pos h.1]
  exact ⟨hnamed.canonical, hnamed.path⟩

/-- Visible rows keep different names if the new path is free, the row that has it is the one that
moves, or no row moves. -/
theorem movedRow_inj (hc : c.Lawful Literal) (hrows : NamesConsistent c rows)
    (hold : Canonical c.slash oldName) (hnew : Canonical c.slash newName)
    (htarget : (∀ r ∈ rows, r.trashId = none → ¬c.pathOf newName <+: c.rowPath r) ∨
      c.pathOf newName = c.pathOf oldName ∨
      ∀ r ∈ rows, r.trashId = none → ¬c.pathOf oldName <+: c.rowPath r)
    (hr : r ∈ rows) (hr' : r' ∈ rows) (hmark : r.trashId = none) (hmark' : r'.trashId = none)
    (heq : (movedRow c oldName newName version r).nameUpper =
      (movedRow c oldName newName version r').nameUpper) : r = r' := by
  have hstays : ∀ {s}, s ∈ rows → ¬Moves c oldName s →
      c.rowPath (movedRow c oldName newName version s) = c.rowPath s := fun hs hp =>
    congrArg (parts c.slash) (nameUpper_of_not_moves hc hrows hs hold hp)
  have hmoves : ∀ {s}, s ∈ rows → Moves c oldName s →
      c.rowPath (movedRow c oldName newName version s) =
        c.pathOf newName ++ (c.rowPath s).drop (c.pathOf oldName).length := fun hs hp =>
    (named_of_moves version hc hrows hs hold hnew hp).2
  -- one that moves does not get the path of one that stays
  have hmixed : ∀ {a b}, a ∈ rows → b ∈ rows → a.trashId = none → b.trashId = none →
      Moves c oldName a → ¬Moves c oldName b →
      c.rowPath (movedRow c oldName newName version a) =
        c.rowPath (movedRow c oldName newName version b) → a = b := by
    intro a b ha hb hamark hbmark hap hbp hpath
    rw [hmoves ha hap, hstays hb hbp] at hpath
    obtain hfree | hsame | hnone := htarget
    · exact absurd ⟨_, hpath⟩ (hfree b hb hbmark)
    · obtain ⟨q, hq⟩ := hap.2
      rw [hsame, ← hq, List.drop_left, hq] at hpath
      exact hrows.eq_of_path ha hb (hamark.trans hbmark.symm) hpath
    · exact absurd hap.2 (hnone a ha hamark)
  have hpath := congrArg (parts c.slash) heq
  change c.rowPath _ = c.rowPath _ at hpath
  by_cases hp : Moves c oldName r <;> by_cases hp' : Moves c oldName r'
  · rw [hmoves hr hp, hmoves hr' hp', List.append_cancel_left_eq] at hpath
    obtain ⟨q, hq⟩ := hp.2
    obtain ⟨q', hq'⟩ := hp'.2
    rw [← hq, ← hq', List.drop_left, List.drop_left] at hpath
    exact hrows.eq_of_path hr hr' (hmark.trans hmark'.symm) (by rw [← hq, ← hq', hpath])
  · exact hmixed hr hr' hmark hmark' hp hp' hpath
  · exact (hmixed hr' hr hmark' hmark hp' hp hpath.symm).symm
  · rw [hstays hr hp, hstays hr' hp'] at hpath
    exact hrows.eq_of_path hr hr' (hmark.trans hmark'.symm) hpath

end Rows

/-! ## Visible components after a move -/

section Alike

variable {r r' : ComponentRow α}

omit [DecidableEq α] in
theorem ComponentRow.core_inj (h : r.core = r'.core) :
    r.id = r'.id ∧ r.nameUpper = r'.nameUpper ∧ r.trashId = r'.trashId := by
  rw [core, core, mk.injEq] at h
  exact ⟨h.1, h.2.2.1, h.2.2.2.2.2.2.1⟩

omit [DecidableEq α] in
theorem Tables.Alike.exists_core (h : t.Alike t') (hr : r ∈ t.component) :
    ∃ r' ∈ t'.component, r'.core = r.core := by
  have hmem : r.core ∈ t'.core.component := h ▸ List.mem_map_of_mem hr
  exact List.mem_map.1 hmem

omit [DecidableEq α] in
theorem Tables.Alike.ids_eq (h : t.Alike t') :
    t.component.map (·.id) = t'.component.map (·.id) := by
  have hcore : ∀ u : Tables α, u.core.component.map (·.id) = u.component.map (·.id) := fun u => by
    simp [core, Function.comp_def, ComponentRow.core]
  rw [← hcore t, h, hcore]

end Alike

/-- What a move leaves, as far as the ids and the names of the rows go. -/
theorem rows_of_move (hrows : NamesConsistent c u.component)
    (h : u.updateComponentNameByName c oldName newName version = .ok v) (halike : v.Alike t') :
    (t'.component.map (·.id)).Nodup ∧
      (∀ r ∈ t'.component, ∃ s ∈ u.component, r.id = s.id ∧ r.trashId = s.trashId ∧
        r.nameUpper = (movedRow c oldName newName version s).nameUpper) ∧
      ∀ s ∈ u.component, ∃ r ∈ t'.component, r.id = s.id ∧ r.trashId = s.trashId ∧
        r.nameUpper = (movedRow c oldName newName version s).nameUpper := by
  have hcomp := component_of_updateComponentNameByName h
  refine ⟨?_, ?_, ?_⟩
  · rw [← halike.ids_eq, hcomp]
    simpa [Function.comp_def] using hrows.ids
  · intro r hr
    obtain ⟨s', hs', hcore⟩ := Alike.exists_core (Eq.symm halike) hr
    rw [hcomp] at hs'
    obtain ⟨s, hs, rfl⟩ := List.mem_map.1 hs'
    obtain ⟨hid, hname, hmark⟩ := ComponentRow.core_inj hcore.symm
    exact ⟨s, hs, by simpa using hid, by simpa using hmark, hname⟩
  · intro s hs
    obtain ⟨r, hr, hcore⟩ := halike.exists_core (hcomp ▸ List.mem_map_of_mem hs)
    obtain ⟨hid, hname, hmark⟩ := ComponentRow.core_inj hcore
    exact ⟨r, hr, by simpa using hid, by simpa using hmark, hname⟩

private def twoFiles : Session (Tables ℕ) (Operation ℕ) :=
  (exec (Session.step (call caseSensitive)) (.new Tables.empty)
    [.call (.testAndCreate [0x61] .file 1 10), .call (.testAndCreate [0x62] .file 2 11)]).getD
      (.new Tables.empty)

private def clobbered : Tables ℕ :=
  (twoFiles.state.moveComponent caseSensitive [0x61] [0x62] 3 12).toOption.getD Tables.empty

end PersonalCloud.DatasetDb
