import PersonalCloud.DatasetDb.Contents
import PersonalCloud.DatasetDb.Relocation

/-!
# Copying components

The rows of a component and of all below it are inserted a second time, under new ids and with
names that begin with the new path. The metadata are found by the old names and inserted for the
new ids.

## Main results

* `Copied.tree_eq` — the new path has a copy of what the old one has.
* `copyComponent_spec`.
-/

namespace PersonalCloud.DatasetDb

open PersonalCloud.Lib PersonalCloud.Lib.PathText PersonalCloud.Lib.PathTree ComponentTree

variable {α : Type} [DecidableEq α] {c : Collation α} {Literal : α → Prop}

namespace ComponentTree

variable {s : ComponentTree α} {path q : List (List α)} {e : Entry α}

omit [DecidableEq α] in
theorem copied_eq_some_iff :
    copied path s q = some e ↔ s (path ++ q) = some e ∧ (path = [] → q = []) := by
  unfold copied
  by_cases hpath : path = []
  · subst hpath
    by_cases hq : q = []
    · simp [hq]
    · simp [hq]
  · simp [hpath, sub]

omit [DecidableEq α] in
theorem rooted_copied (h : Rooted Entry.Holds s) : Rooted Entry.Holds (copied path s) := by
  unfold copied
  by_cases hpath : path = []
  · rw [if_pos hpath]
    intro q a hne
    simp at hne
  · rw [if_neg hpath]
    exact h.sub path

end ComponentTree

namespace Tables

variable {t t' : Tables α} {oldName newName : List α} {version time id : ℕ}
  {r r' : ComponentRow α} {rows : List (ComponentRow α)}

/-! ## The rows of the copies -/

/-- The second row is inserted for the first one. -/
structure IsCopy (c : Collation α) (oldName newName : List α) (r r' : ComponentRow α) : Prop where
  name : r'.name = c.replaceprefix r.name (c.upperName oldName) newName
  nameUpper : r'.nameUpper =
    c.upperName (c.replaceprefix r.nameUpper (c.upperName oldName) newName)
  contentId : r'.contentId = r.contentId
  ctime : r'.ctime = r.ctime
  trashId : r'.trashId = r.trashId
  type : r'.type = r.type

theorem map_id_copiesFrom : (copiesFrom c oldName newName version id rows).map (·.id) =
    List.range' id rows.length := by
  induction rows generalizing id with
  | nil => rfl
  | cons r rows ih => rw [copiesFrom, List.map_cons, ih, List.length_cons, List.range'_succ]

theorem map_nameUpper_copiesFrom :
    (copiesFrom c oldName newName version id rows).map (·.nameUpper) =
      rows.map fun r =>
        c.upperName (c.replaceprefix r.nameUpper (c.upperName oldName) newName) := by
  induction rows generalizing id with
  | nil => rfl
  | cons r rows ih => rw [copiesFrom, List.map_cons, ih, List.map_cons]

/-- Each copy is one of a row, and each row has a copy. -/
theorem isCopy_copiesFrom (c : Collation α) (oldName newName : List α) (version id : ℕ)
    (rows : List (ComponentRow α)) :
    (∀ r' ∈ copiesFrom c oldName newName version id rows,
      ∃ r ∈ rows, IsCopy c oldName newName r r') ∧
    ∀ r ∈ rows, ∃ r' ∈ copiesFrom c oldName newName version id rows,
      IsCopy c oldName newName r r' := by
  induction rows generalizing id with
  | nil => simp [copiesFrom]
  | cons r rows ih =>
    obtain ⟨horigin, hcopy⟩ := ih (id + 1)
    constructor
    · refine List.forall_mem_cons.2 ⟨⟨r, List.mem_cons_self, rfl, rfl, rfl, rfl, rfl, rfl⟩, ?_⟩
      intro r' hr'
      obtain ⟨s, hs, hsr'⟩ := horigin r' hr'
      exact ⟨s, List.mem_cons_of_mem r hs, hsr'⟩
    · refine List.forall_mem_cons.2
        ⟨⟨_, List.mem_cons_self, rfl, rfl, rfl, rfl, rfl, rfl⟩, ?_⟩
      intro s hs
      obtain ⟨s', hs', hss'⟩ := hcopy s hs
      exact ⟨s', List.mem_cons_of_mem _ hs', hss'⟩

/-- The tables with the copies of the selected rows, at a path that was free. -/
structure Copied (c : Collation α) (oldName newName : List α) (t u : Tables α)
    (copies : List (ComponentRow α)) : Prop where
  component : u.component = t.component ++ copies
  metadata : u.metadata = t.metadata
  content : u.content = t.content
  trash : u.trash = t.trash
  names : NamesConsistent c u.component
  ids : ∀ r ∈ t.component, ∀ r' ∈ copies, r.id ≠ r'.id
  origin : ∀ r' ∈ copies, ∃ r ∈ t.component, c.SelectsForMove oldName r ∧
    IsCopy c oldName newName r r'
  copy : ∀ r ∈ t.component, c.SelectsForMove oldName r →
    ∃ r' ∈ copies, IsCopy c oldName newName r r'
  below : ∀ r ∈ t.component, c.SelectsForMove oldName r → c.pathOf oldName <+: c.rowPath r
  named : ∀ r ∈ t.component, c.SelectsForMove oldName r → ∀ r', IsCopy c oldName newName r r' →
    c.Named (c.pathOf newName ++ (c.rowPath r).drop (c.pathOf oldName).length)
      (if c.rowPath r = c.pathOf oldName then (c.spell newName).getLastD [] else c.basename r.name)
      r'.name r'.nameUpper
  free : ∀ r ∈ t.component, r.trashId = none → ¬c.pathOf newName <+: c.rowPath r

theorem copied_of_copyComponentsByName (hc : c.Lawful Literal) (ht : Consistent c t)
    (hold : Canonical c.slash oldName) (hlit : ∀ a ∈ oldName, Literal a)
    (hnew : Canonical c.slash newName) (hfree : t.tree c none (c.pathOf newName) = none)
    (h : t.copyComponentsByName c oldName newName version = .ok t') :
    ∃ copies, Copied c oldName newName t t' copies := by
  unfold copyComponentsByName at h
  obtain ⟨-, h⟩ := error_ite_eq_ok_iff.1 h
  obtain rfl := Except.ok.inj h
  set selected := t.component.filter fun r => c.SelectsForMove oldName r
  set copies := copiesFrom c oldName newName version (newRowid (t.component.map (·.id))) selected
    with hcopies
  obtain ⟨horigin, hcopy⟩ := isCopy_copiesFrom c oldName newName version
    (newRowid (t.component.map (·.id))) selected
  have hselected : ∀ r ∈ selected, r ∈ t.component ∧ c.SelectsForMove oldName r := fun r hr => by
    simpa [selected] using hr
  have hbelow : ∀ r ∈ t.component, c.SelectsForMove oldName r →
      r.trashId = none ∧ c.pathOf oldName <+: c.rowPath r := by
    intro r hr hsel
    obtain ⟨hmark, heq | ⟨-, hinit⟩⟩ :=
      (hc.selectsForMove_iff hold hlit (ht.names.canonical r hr)).1 hsel
    · exact ⟨hmark, heq ▸ List.prefix_rfl⟩
    · exact ⟨hmark, hinit⟩
  have hfree' : ∀ r ∈ t.component, r.trashId = none → ¬c.pathOf newName <+: c.rowPath r :=
    ht.not_below hfree
  have hspec : ∀ r ∈ t.component, c.SelectsForMove oldName r →
      c.Named (c.pathOf newName ++ (c.rowPath r).drop (c.pathOf oldName).length)
        (if c.rowPath r = c.pathOf oldName then (c.spell newName).getLastD []
          else c.basename r.name) (c.replaceprefix r.name (c.upperName oldName) newName)
        (c.upperName (c.replaceprefix r.nameUpper (c.upperName oldName) newName)) := by
    intro r hr hsel
    have hpath := hc.pathOf_upperName oldName
    have := hc.renamed_spec (ht.names.upper r hr) (ht.names.canonical r hr)
      (hc.canonical_upperName.2 hold) hnew (hpath ▸ (hbelow r hr hsel).2)
    rwa [hpath] at this
  have hnamed : ∀ r ∈ t.component, c.SelectsForMove oldName r → ∀ r',
      IsCopy c oldName newName r r' →
      c.Named (c.pathOf newName ++ (c.rowPath r).drop (c.pathOf oldName).length)
        (if c.rowPath r = c.pathOf oldName then (c.spell newName).getLastD []
          else c.basename r.name) r'.name r'.nameUpper := by
    intro r hr hsel r' hcopy
    rw [hcopy.name, hcopy.nameUpper]
    exact hspec r hr hsel
  have hids : ∀ r ∈ t.component, ∀ r' ∈ copies, r.id ≠ r'.id := by
    intro r hr r' hr'
    have hmem : r'.id ∈ copies.map (·.id) := List.mem_map_of_mem hr'
    rw [hcopies, map_id_copiesFrom, List.mem_range'_1] at hmem
    have hlt : r.id < newRowid (t.component.map (·.id)) := lt_newRowid (List.mem_map_of_mem hr)
    omega
  have hinj : ∀ r ∈ selected, ∀ s ∈ selected,
      c.upperName (c.replaceprefix r.nameUpper (c.upperName oldName) newName) =
        c.upperName (c.replaceprefix s.nameUpper (c.upperName oldName) newName) → r = s := by
    intro r hr s hs heq
    obtain ⟨hr, hrsel⟩ := hselected r hr
    obtain ⟨hs, hssel⟩ := hselected s hs
    obtain ⟨hrmark, q, hq⟩ := hbelow r hr hrsel
    obtain ⟨hsmark, q', hq'⟩ := hbelow s hs hssel
    have hpaths := (hspec r hr hrsel).path.symm.trans
      ((congrArg (parts c.slash) heq).trans (hspec s hs hssel).path)
    rw [← hq, ← hq', List.drop_left, List.drop_left, List.append_cancel_left_eq] at hpaths
    exact ht.names.eq_of_path hr hs (hrmark.trans hsmark.symm) (by rw [← hq, ← hq', hpaths])
  have hcopyNames : NamesConsistent c copies := by
    refine ⟨?_, ?_, ?_, ?_⟩
    · intro r' hr'
      obtain ⟨r, hr, hcopy⟩ := horigin r' hr'
      exact (hnamed r (hselected r hr).1 (hselected r hr).2 r' hcopy).upper
    · intro r' hr'
      obtain ⟨r, hr, hcopy⟩ := horigin r' hr'
      exact (hnamed r (hselected r hr).1 (hselected r hr).2 r' hcopy).canonical
    · rw [hcopies, map_id_copiesFrom]
      exact List.nodup_range'
    · intro r' hr' s' hs' _ hname
      have hnodup : (copies.map (·.nameUpper)).Nodup := by
        rw [hcopies, map_nameUpper_copiesFrom]
        exact (ht.names.ids.of_map.filter _).map_on hinj
      rw [List.inj_on_of_nodup_map hnodup hr' hs' hname]
  refine ⟨copies, rfl, rfl, rfl, rfl, ht.names.append hcopyNames hids ?_, hids, ?_, ?_,
    fun r hr hsel => (hbelow r hr hsel).2, hnamed, hfree'⟩
  · intro r hr r' hr' hmark hname
    obtain ⟨s, hs, hcopy⟩ := horigin r' hr'
    obtain ⟨hs, hsel⟩ := hselected s hs
    refine hfree' r hr (hmark.trans (hcopy.trashId.trans (hbelow s hs hsel).1)) ?_
    rw [show c.rowPath r = parts c.slash r'.nameUpper from congrArg (parts c.slash) hname,
      (hnamed s hs hsel r' hcopy).path]
    exact List.prefix_append _ _
  · intro r' hr'
    obtain ⟨r, hr, hcopy⟩ := horigin r' hr'
    exact ⟨r, (hselected r hr).1, (hselected r hr).2, hcopy⟩
  · intro r hr hsel
    exact hcopy r (List.mem_filter.2 ⟨hr, decide_eq_true hsel⟩)

namespace Copied

variable {u : Tables α} {copies : List (ComponentRow α)}

theorem mem_component (h : Copied c oldName newName t u copies) :
    r ∈ u.component ↔ r ∈ t.component ∨ r ∈ copies := by
  rw [h.component, List.mem_append]

theorem rowPath_eq (h : Copied c oldName newName t u copies) (hr : r ∈ t.component)
    (hsel : c.SelectsForMove oldName r) (hcopy : IsCopy c oldName newName r r') :
    ∃ q, c.rowPath r = c.pathOf oldName ++ q ∧ c.rowPath r' = c.pathOf newName ++ q := by
  obtain ⟨q, hq⟩ := h.below r hr hsel
  refine ⟨q, hq.symm, ?_⟩
  have := (h.named r hr hsel r' hcopy).path
  rwa [← hq, List.drop_left] at this

/-- A copy is one of a single row. -/
theorem origin_unique (h : Copied c oldName newName t u copies) {s : ComponentRow α}
    (ht : NamesConsistent c t.component) (hr : r ∈ t.component)
    (hsel : c.SelectsForMove oldName r) (hs : s ∈ t.component)
    (hssel : c.SelectsForMove oldName s) (hcopy : IsCopy c oldName newName r r')
    {s' : ComponentRow α} (hscopy : IsCopy c oldName newName s s')
    (hname : r'.nameUpper = s'.nameUpper) : r = s := by
  obtain ⟨q, hq, hq'⟩ := h.rowPath_eq hr hsel hcopy
  obtain ⟨p, hp, hp'⟩ := h.rowPath_eq hs hssel hscopy
  have hpaths : c.pathOf newName ++ q = c.pathOf newName ++ p :=
    hq' ▸ hp' ▸ congrArg (parts c.slash) hname
  refine ht.eq_of_path hr hs (hsel.2.trans hssel.2.symm) ?_
  rw [hq, hp, List.append_cancel_left hpaths]

/-- The rows of metadata that are inserted are those of the selected components, for the copies. -/
theorem mem_copiedMetadata (h : Copied c oldName newName t u copies)
    (ht : RowsConsistent c t) {x : ℕ × ℤ × Option (List UInt8)} :
    (x ∈ u.metadata.flatMap fun m => u.component.flatMap fun c1 =>
      if c.SelectsForMove oldName c1 ∧ m.componentId = c1.id then
        (u.component.filter fun c2 => c2.trashId = none ∧ c2.nameUpper =
          c.upperName (c.replaceprefix c1.nameUpper (c.upperName oldName) newName)).map
            fun c2 => (c2.id, m.type, m.value)
      else []) ↔
    ∃ r ∈ t.component, c.SelectsForMove oldName r ∧ ∃ r' ∈ copies,
      IsCopy c oldName newName r r' ∧ ∃ m ∈ t.metadata, m.componentId = r.id ∧
        x = (r'.id, m.type, m.value) := by
  simp only [List.mem_flatMap, h.metadata]
  constructor
  · rintro ⟨m, hm, c1, hc1, hx⟩
    by_cases hsel : c.SelectsForMove oldName c1 ∧ m.componentId = c1.id
    · rw [if_pos hsel] at hx
      obtain ⟨c2, hc2, rfl⟩ := List.mem_map.1 hx
      obtain ⟨hmem2, hsel2⟩ := List.mem_filter.1 hc2
      obtain ⟨hmark, hname⟩ := of_decide_eq_true hsel2
      -- the component is the owner of the metadata, and so it is no copy
      obtain ⟨r, hr, hrid⟩ := ht.owned m hm
      obtain rfl : r = c1 :=
        h.names.eq_of_id (h.mem_component.2 (.inl hr)) hc1 (hrid.trans hsel.2)
      refine ⟨r, hr, hsel.1, ?_⟩
      obtain ⟨r', hr', hcopy⟩ := h.copy r hr hsel.1
      have heq : c2 = r' := by
        refine h.names.eq_of_path hmem2 (h.mem_component.2 (.inr hr')) ?_ ?_
        · rw [hmark, hcopy.trashId, hsel.1.2]
        · exact congrArg (parts c.slash) (hname.trans hcopy.nameUpper.symm)
      exact ⟨r', hr', hcopy, m, hm, hrid.symm, by rw [heq]⟩
    · rw [if_neg hsel] at hx
      cases hx
  · rintro ⟨r, hr, hsel, r', hr', hcopy, m, hm, hmr, rfl⟩
    refine ⟨m, hm, r, h.mem_component.2 (.inl hr), ?_⟩
    rw [if_pos ⟨hsel, hmr⟩]
    refine List.mem_map.2 ⟨r', List.mem_filter.2 ⟨h.mem_component.2 (.inr hr'), ?_⟩, rfl⟩
    exact decide_eq_true ⟨hcopy.trashId.trans hsel.2, hcopy.nameUpper⟩

section Metadata

variable {w : Tables α}

theorem frame_copyMetadata (hw : u.copyMetadataByComponentName c oldName newName = .ok w) :
    w.component = u.component ∧ w.content = u.content ∧ w.trash = u.trash := by
  obtain ⟨-, hw⟩ := ite_error_eq_ok_iff.1 hw
  rw [← Except.ok.inj hw]
  exact ⟨rfl, rfl, rfl⟩

theorem metadataOf_iff (h : Copied c oldName newName t u copies) (ht : RowsConsistent c t)
    (hw : u.copyMetadataByComponentName c oldName newName = .ok w) {i : ℕ} {k : ℤ}
    {v : Option (List UInt8)} : MetadataUnique w.metadata ∧ (w.metadataOf i k = some v ↔
      t.metadataOf i k = some v ∨ ∃ r ∈ t.component, c.SelectsForMove oldName r ∧
        ∃ r' ∈ copies, IsCopy c oldName newName r r' ∧ r'.id = i ∧
          t.metadataOf r.id k = some v) := by
  unfold copyMetadataByComponentName at hw
  obtain ⟨hunique, hw⟩ := ite_error_eq_ok_iff.1 hw
  obtain rfl := Except.ok.inj hw
  refine ⟨hunique, ?_⟩
  have hkey : ∀ m : MetadataRow, (m.componentId = i ∧ m.type = k ∧ m.value = v) ↔
      (m.componentId, m.type, m.value) = (i, k, v) := fun m => by simp
  rw [metadataOf_eq_some_iff hunique, metadataOf_eq_some_iff ht.metadata]
  simp only [hkey, metadataOf_eq_some_iff ht.metadata]
  rw [exists_mem_insertMetadata, h.mem_copiedMetadata ht, h.metadata]
  refine or_congr_right (exists_congr fun r => and_congr_right fun _ => and_congr_right fun _ =>
    exists_congr fun r' => and_congr_right fun _ => and_congr_right fun _ => ?_)
  constructor
  · rintro ⟨m, hm, hmr, heq⟩
    obtain ⟨rfl, rfl, rfl⟩ : i = r'.id ∧ k = m.type ∧ v = m.value := by simpa using heq
    exact ⟨rfl, m, hm, hmr, rfl, rfl⟩
  · rintro ⟨rfl, m, hm, hmr, rfl, rfl⟩
    exact ⟨m, hm, hmr, rfl⟩

/-- The components that were there keep their metadata. -/
theorem metadataOf_old (h : Copied c oldName newName t u copies) (ht : RowsConsistent c t)
    (hw : u.copyMetadataByComponentName c oldName newName = .ok w) (hr : r ∈ t.component) :
    w.metadataOf r.id = t.metadataOf r.id := by
  funext k
  refine Option.ext fun v => ?_
  rw [(h.metadataOf_iff ht hw).2]
  refine ⟨fun hv => hv.resolve_right ?_, .inl⟩
  rintro ⟨-, -, -, r', hr', -, hid, -⟩
  exact h.ids r hr r' hr' hid.symm

/-- A copy has the metadata of the component. -/
theorem metadataOf_copy (h : Copied c oldName newName t u copies) (ht : RowsConsistent c t)
    (hw : u.copyMetadataByComponentName c oldName newName = .ok w) (hr : r ∈ t.component)
    (hsel : c.SelectsForMove oldName r) (hr' : r' ∈ copies)
    (hcopy : IsCopy c oldName newName r r') : w.metadataOf r'.id = t.metadataOf r.id := by
  funext k
  refine Option.ext fun v => ?_
  rw [(h.metadataOf_iff ht hw).2]
  constructor
  · rintro (hv | ⟨s, hs, hssel, s', hs', hscopy, hid, hv⟩)
    · obtain ⟨m, hm, hmid, -⟩ := (metadataOf_eq_some_iff ht.metadata).1 hv
      obtain ⟨s, hs, hsid⟩ := ht.owned m hm
      exact absurd (hsid.trans hmid) (h.ids s hs r' hr')
    · have heq : s' = r' :=
        h.names.eq_of_id (h.mem_component.2 (.inr hs')) (h.mem_component.2 (.inr hr')) hid
      rwa [h.origin_unique ht.names hr hsel hs hssel hcopy hscopy (by rw [heq])]
  · exact fun hv => .inr ⟨r, hr, hsel, r', hr', hcopy, rfl, hv⟩

theorem entry_old (h : Copied c oldName newName t u copies) (ht : RowsConsistent c t)
    (hw : u.copyMetadataByComponentName c oldName newName = .ok w) (hr : r ∈ t.component) :
    w.entry c r = t.entry c r := by
  have hcontent : w.content = t.content := (frame_copyMetadata hw).2.1.trans h.content
  simp only [entry, h.metadataOf_old ht hw hr, contentOf, getContentById, hcontent]

theorem entry_copy (h : Copied c oldName newName t u copies) (ht : RowsConsistent c t)
    (hw : u.copyMetadataByComponentName c oldName newName = .ok w) (hr : r ∈ t.component)
    (hsel : c.SelectsForMove oldName r) (hr' : r' ∈ copies)
    (hcopy : IsCopy c oldName newName r r') : w.entry c r' =
      if c.rowPath r = c.pathOf oldName then
        { t.entry c r with leaf := (c.spell newName).getLastD [] }
      else t.entry c r := by
  have hcontent : w.content = t.content := (frame_copyMetadata hw).2.1.trans h.content
  simp only [entry, h.metadataOf_copy ht hw hr hsel hr' hcopy, contentOf, getContentById, hcontent,
    (h.named r hr hsel r' hcopy).leaf, hcopy.type, hcopy.ctime, hcopy.contentId]
  split_ifs <;> rfl

theorem tree_eq (h : Copied c oldName newName t u copies) (ht : RowsConsistent c t)
    (hc : c.Lawful Literal) (hold : Canonical c.slash oldName) (hlit : ∀ a ∈ oldName, Literal a)
    (hw : u.copyMetadataByComponentName c oldName newName = .ok w) :
    w.tree c none = graft (c.pathOf newName) (relabel ((c.spell newName).getLastD [])
      (copied (c.pathOf oldName) (t.tree c none))) (t.tree c none) := by
  have hcomp := (frame_copyMetadata hw).1
  have hnil : c.pathOf oldName = [] ↔ oldName = [] := by
    rw [Collation.pathOf, (hc.canonical_upperName.2 hold).parts_eq_nil_iff]
    simp [Collation.upperName]
  have hsel : ∀ r ∈ t.component, c.SelectsForMove oldName r ↔ r.trashId = none ∧
      (c.rowPath r = c.pathOf oldName ∨ oldName ≠ [] ∧ c.pathOf oldName <+: c.rowPath r) :=
    fun r hr => hc.selectsForMove_iff hold hlit (ht.names.canonical r hr)
  refine NamesConsistent.tree_eq_graft (hcomp ▸ h.names) ?_ ?_ ?_
  · intro r hr hmark
    obtain hr | hr := h.mem_component.1 (hcomp ▸ hr)
    · refine .inr ⟨h.free r hr hmark, ?_⟩
      rw [h.entry_old ht hw hr]
      exact ht.names.tree_eq_some_iff.2 ⟨r, hr, hmark, rfl, rfl⟩
    · obtain ⟨s, hs, hssel, hcopy⟩ := h.origin r hr
      obtain ⟨q, hq, hq'⟩ := h.rowPath_eq hs hssel hcopy
      refine .inl ⟨q, hq', relabel_eq_some_iff.2 ⟨t.entry c s, copied_eq_some_iff.2 ⟨?_, ?_⟩, ?_⟩⟩
      · exact ht.names.tree_eq_some_iff.2 ⟨s, hs, hssel.2, hq, rfl⟩
      · intro hroot
        obtain heq | ⟨hne, -⟩ := ((hsel s hs).1 hssel).2
        · simpa [hroot, hq] using heq
        · exact absurd (hnil.1 hroot) hne
      · rw [h.entry_copy ht hw hs hssel hr hcopy, hq]
        simp
  · intro q e hq
    obtain ⟨e', he', -⟩ := relabel_eq_some_iff.1 hq
    obtain ⟨hthere, hroot⟩ := copied_eq_some_iff.1 he'
    obtain ⟨r, hr, hmark, hpath, -⟩ := ht.names.tree_eq_some_iff.1 hthere
    have hrsel : c.SelectsForMove oldName r := by
      refine (hsel r hr).2 ⟨hmark, ?_⟩
      by_cases hempty : oldName = []
      · exact .inl (by rw [hpath, hroot (hnil.2 hempty), List.append_nil])
      · exact .inr ⟨hempty, hpath ▸ List.prefix_append _ _⟩
    obtain ⟨r', hr', hcopy⟩ := h.copy r hr hrsel
    obtain ⟨q', hq', hq''⟩ := h.rowPath_eq hr hrsel hcopy
    rw [hpath, List.append_cancel_left_eq] at hq'
    exact ⟨r', hcomp ▸ h.mem_component.2 (.inr hr'), hcopy.trashId.trans hmark, hq' ▸ hq''⟩
  · intro p e _ hp
    obtain ⟨r, hr, hmark, hpath, -⟩ := ht.names.tree_eq_some_iff.1 hp
    exact ⟨r, hcomp ▸ h.mem_component.2 (.inl hr), hmark, hpath⟩

theorem sameTrash (h : Copied c oldName newName t u copies) (ht : RowsConsistent c t)
    (hw : u.copyMetadataByComponentName c oldName newName = .ok w) : SameTrash c t w := by
  obtain ⟨hcomp, -, htrash⟩ := frame_copyMetadata hw
  refine ⟨htrash.trans h.trash, fun i => ⟨?_, fun r hr _ => h.entry_old ht hw hr⟩⟩
  have hcopies : (copies.filter fun r => r.trashId = some i) = [] := by
    refine List.filter_eq_nil_iff.2 fun r hr => ?_
    obtain ⟨s, -, hsel, hcopy⟩ := h.origin r hr
    simp [hcopy.trashId, hsel.2]
  rw [marked, hcomp, h.component, List.filter_append, hcopies, List.append_nil, marked]

theorem rowsConsistent (h : Copied c oldName newName t u copies) (ht : RowsConsistent c t)
    (hw : u.copyMetadataByComponentName c oldName newName = .ok w)
    (rooted : Rooted Entry.Holds (w.tree c none)) : RowsConsistent c w := by
  obtain ⟨hcomp, hcontent, -⟩ := frame_copyMetadata hw
  have hcontent' := hcontent.trans h.content
  have hunique := fun i k v => (h.metadataOf_iff ht hw (i := i) (k := k) (v := v)).1
  refine ⟨hcomp ▸ h.names, ?_, hunique 0 0 none, hcontent' ▸ ht.contentIds,
    hcontent' ▸ ht.contentPos, ?_, rooted⟩
  · intro m hm
    have hthere : w.metadataOf m.componentId m.type = some m.value :=
      (metadataOf_eq_some_iff (hunique 0 0 none)).2 ⟨m, hm, rfl, rfl, rfl⟩
    rw [hcomp]
    obtain hv | ⟨-, -, -, r', hr', -, hid, -⟩ := (h.metadataOf_iff ht hw).2.1 hthere
    · obtain ⟨m', hm', hid, -⟩ := (metadataOf_eq_some_iff ht.metadata).1 hv
      obtain ⟨r, hr, hrid⟩ := ht.owned m' hm'
      exact ⟨r, h.mem_component.2 (.inl hr), hrid.trans hid⟩
    · exact ⟨r', h.mem_component.2 (.inr hr'), hid⟩
  · rw [hcontent', hcomp]
    intro r hr hne
    obtain hr | hr := h.mem_component.1 hr
    · exact ht.contents r hr hne
    · obtain ⟨s, hs, -, hcopy⟩ := h.origin r hr
      rw [hcopy.contentId] at hne ⊢
      exact ht.contents s hs hne

end Metadata

end Copied

theorem copyComponent_spec (hc : c.Lawful Literal) (ht : Consistent c t)
    (hold : Canonical c.slash oldName) (hlit : ∀ a ∈ oldName, Literal a)
    (hnew : Canonical c.slash newName) (hfree : t.tree c none (c.pathOf newName) = none)
    (h : t.copyComponent c oldName newName version time = .ok t') :
    Changes c t t' (graft (c.pathOf newName)
      (relabel ((c.spell newName).getLastD [])
        (copied (c.pathOf oldName) (createAbove c time (c.spell newName) (t.tree c none))))
      (createAbove c time (c.spell newName) (t.tree c none))) := by
  unfold copyComponent at h
  obtain ⟨-, h⟩ := error_ite_eq_ok_iff.1 h
  obtain ⟨names, hnames, hsteps⟩ := checkRv_bind_eq_ok_iff.1 h
  obtain ⟨u, hu, hsteps⟩ := bind_eq_ok_iff.1 hsteps
  obtain ⟨v, hv, hsteps⟩ := bind_eq_ok_iff.1 hsteps
  obtain ⟨w, hw, hsteps⟩ := bind_eq_ok_iff.1 hsteps
  obtain ⟨w', hw', hversions⟩ := bind_eq_ok_iff.1 hsteps
  obtain ⟨hmade, habove⟩ := createAncestors_spec hc ht hnew hnames hu
  have hrows := hmade.consistent.toRowsConsistent
  have hfree' : u.tree c none (c.pathOf newName) = none := by
    rw [hmade.tree_eq, createAbove_of_not_above fun _ => hc.pathOf_eq newName, hfree]
  obtain ⟨copies, hcopied⟩ :=
    copied_of_copyComponentsByName hc hmade.consistent hold hlit hnew hfree' hv
  have htree := hcopied.tree_eq hrows hc hold hlit hw
  have hrooted : Rooted Entry.Holds (w.tree c none) := by
    rw [htree]
    exact (rooted_relabel (rooted_copied hrows.rooted)).graft hrows.rooted habove
  have hsame := hcopied.sameTrash hrows hw
  rw [hmade.tree_eq] at htree
  have hdone := hmade.trans ⟨⟨hcopied.rowsConsistent hrows hw hrooted,
    hmade.consistent.of_sameTrash hsame⟩, hsame, htree⟩
  exact (hdone.updateParent hw').updateVersions hversions

end Tables

end PersonalCloud.DatasetDb
