import PersonalCloud.DatasetDb.Creation

/-!
# Contents and metadata

What the operations do that change a component in its place.

## Main results

* `metadataOf_eq_some_iff`, `mem_insertMetadata` — the metadata by its rows.
* `setComponentPath_spec`, `setComponentMetadata_spec` — one entry is changed.
* `setComponentSize_spec` — none is.
-/

namespace PersonalCloud.DatasetDb

open PersonalCloud.Lib PersonalCloud.Lib.PathText PersonalCloud.Lib.PathTree

variable {α : Type} [DecidableEq α] {c : Collation α} {Literal : α → Prop}

namespace Tables

variable {t t' : Tables α} {name : List α} {path : List UInt8} {version time id : ℕ}
  {r : ComponentRow α} {k : ℤ}

/-- One entry changes if the row at its path does. -/
theorem NamesConsistent.tree_eq_modify {f : ComponentRow α → ComponentRow α}
    {g : Entry α → Entry α} {p : List (List α)} (h : NamesConsistent c t.component)
    (h' : NamesConsistent c t'.component) (hcomp : t'.component = t.component.map f)
    (hf : ∀ r, (f r).trashId = r.trashId ∧ c.rowPath (f r) = c.rowPath r)
    (hentry : ∀ r ∈ t.component, r.trashId = none → t'.entry c (f r) =
      if c.rowPath r = p then g (t.entry c r) else t.entry c r) :
    t'.tree c none = modify p g (t.tree c none) := by
  funext q
  refine Option.ext fun e => ?_
  rw [h'.tree_map_eq_some_iff hcomp]
  simp only [hf]
  by_cases hq : q = p
  · subst hq
    rw [PathTree.modify, Function.update_self, Option.map_eq_some_iff]
    constructor
    · rintro ⟨r, hr, hmark, rfl, rfl⟩
      refine ⟨t.entry c r, h.tree_eq_some_iff.2 ⟨r, hr, hmark, rfl, rfl⟩, ?_⟩
      rw [hentry r hr hmark, if_pos rfl]
    · rintro ⟨e', he', rfl⟩
      obtain ⟨r, hr, hmark, rfl, rfl⟩ := h.tree_eq_some_iff.1 he'
      exact ⟨r, hr, hmark, rfl, by rw [hentry r hr hmark, if_pos rfl]⟩
  · rw [PathTree.modify, Function.update_of_ne hq, h.tree_eq_some_iff]
    refine exists_congr fun r => and_congr_right fun hr => and_congr_right fun hmark =>
      and_congr_right fun hpath => ?_
    rw [hentry r hr hmark, if_neg (hpath ▸ hq)]

/-! ## Metadata -/

omit [DecidableEq α] in
theorem metadataOf_eq_some_iff (h : MetadataUnique t.metadata) {v : Option (List UInt8)} :
    t.metadataOf id k = some v ↔
      ∃ m ∈ t.metadata, m.componentId = id ∧ m.type = k ∧ m.value = v := by
  rw [metadataOf, Option.map_eq_some_iff]
  constructor
  · rintro ⟨m, hm, rfl⟩
    obtain ⟨hid, hk⟩ : m.componentId = id ∧ m.type = k := by simpa using List.find?_some hm
    exact ⟨m, List.mem_of_find?_eq_some hm, hid, hk, rfl⟩
  · rintro ⟨m, hm, rfl, rfl, rfl⟩
    cases hf : t.metadata.find? fun n => n.componentId = m.componentId ∧ n.type = m.type with
    | none => exact absurd (List.find?_eq_none.1 hf m hm) (by simp)
    | some n =>
      have hkeys : n.componentId = m.componentId ∧ n.type = m.type := by
        simpa using List.find?_some hf
      refine ⟨n, rfl, ?_⟩
      rw [List.inj_on_of_nodup_map h (List.mem_of_find?_eq_some hf) hm
        (Prod.ext hkeys.1 hkeys.2)]

/-- The new rows of metadata are those given, under some ids. -/
theorem exists_mem_insertMetadata {rows : List MetadataRow}
    {xs : List (ℕ × ℤ × Option (List UInt8))} {x : ℕ × ℤ × Option (List UInt8)} :
    (∃ m ∈ insertMetadata rows xs, (m.componentId, m.type, m.value) = x) ↔
      (∃ m ∈ rows, (m.componentId, m.type, m.value) = x) ∨ x ∈ xs := by
  induction xs generalizing rows with
  | nil => simp [insertMetadata]
  | cons y xs ih =>
    rw [insertMetadata, ih, List.mem_cons]
    simp only [List.mem_append, List.mem_singleton, or_and_right, exists_or, exists_eq_left,
      or_assoc, eq_comm (a := y) (b := x), Prod.mk.eta]

omit [DecidableEq α] in
/-- There is one row for the component and the type then, and no other is new. -/
theorem createMetadataIfMissing_spec (id : ℕ) (k : ℤ) (h : MetadataUnique t.metadata) :
    MetadataUnique (t.createMetadataIfMissing id k).metadata ∧
      (∃ m ∈ (t.createMetadataIfMissing id k).metadata, m.componentId = id ∧ m.type = k) ∧
      ∀ m, (m.componentId = id ∧ m.type = k) ∨
        (m ∈ (t.createMetadataIfMissing id k).metadata ↔ m ∈ t.metadata) := by
  unfold createMetadataIfMissing
  by_cases hex : ∃ m ∈ t.metadata, m.componentId = id ∧ m.type = k
  · rw [if_pos hex]
    exact ⟨h, hex, fun m => .inr Iff.rfl⟩
  · rw [if_neg hex]
    change MetadataUnique (t.metadata ++ [⟨newRowid (t.metadata.map (·.id)), id, k, none⟩]) ∧ _
    refine ⟨?_, ⟨⟨newRowid (t.metadata.map (·.id)), id, k, none⟩, by simp [insertMetadata], rfl,
      rfl⟩, fun m => ?_⟩
    · refine Table.keyed_append_singleton.2 ⟨h, fun m hm hkey => hex ⟨m, hm, ?_⟩⟩
      exact ⟨congrArg Prod.fst hkey, congrArg Prod.snd hkey⟩
    · by_cases hm : m = ⟨newRowid (t.metadata.map (·.id)), id, k, none⟩
      · rw [hm]
        exact .inl ⟨rfl, rfl⟩
      · exact .inr (by simp [insertMetadata, hm])

omit [DecidableEq α] in
theorem metadataOf_updateMetadataValue (id : ℕ) (k : ℤ) (value : List UInt8)
    (h : MetadataUnique t.metadata) :
    MetadataUnique ((t.createMetadataIfMissing id k).updateMetadataValue id k value).metadata ∧
    ∀ i, ((t.createMetadataIfMissing id k).updateMetadataValue id k value).metadataOf i =
      if i = id then Function.update (t.metadataOf i) k (some (some value))
      else t.metadataOf i := by
  obtain ⟨hunique, ⟨m₀, hm₀, hkey⟩, hmem⟩ := createMetadataIfMissing_spec id k h
  set u := t.createMetadataIfMissing id k
  have hunique' : MetadataUnique (u.updateMetadataValue id k value).metadata :=
    Table.Keyed.update hunique fun _ _ _ => rfl
  refine ⟨hunique', fun i => funext fun j => Option.ext fun v => ?_⟩
  rw [metadataOf_eq_some_iff hunique', updateMetadataValue]
  simp only [Table.mem_update]
  by_cases hij : i = id ∧ j = k
  · obtain ⟨rfl, rfl⟩ := hij
    rw [if_pos rfl, Function.update_self, Option.some.injEq]
    constructor
    · rintro ⟨_, ⟨m, -, -, rfl⟩ | ⟨-, hnot⟩, hi, hj, rfl⟩
      · rfl
      · exact absurd ⟨hi, hj⟩ hnot
    · rintro rfl
      exact ⟨_, .inl ⟨m₀, hm₀, hkey, rfl⟩, hkey.1, hkey.2, rfl⟩
  · have hother : (if i = id then Function.update (t.metadataOf i) k (some (some value))
        else t.metadataOf i) j = t.metadataOf i j := by
      by_cases hi : i = id
      · rw [if_pos hi, Function.update_of_ne fun hj => hij ⟨hi, hj⟩]
      · rw [if_neg hi]
    rw [hother, metadataOf_eq_some_iff h]
    constructor
    · rintro ⟨_, ⟨m, -, hsel, rfl⟩ | ⟨hm, -⟩, rfl, rfl, rfl⟩
      · exact absurd hsel hij
      · exact ⟨_, ((hmem _).resolve_left hij).1 hm, rfl, rfl, rfl⟩
    · rintro ⟨m, hm, rfl, rfl, rfl⟩
      exact ⟨m, .inr ⟨((hmem m).resolve_left hij).2 hm, hij⟩, rfl, rfl, rfl⟩

omit [DecidableEq α] in
theorem createMetadataIfMissing_frame (t : Tables α) (id : ℕ) (k : ℤ) :
    (t.createMetadataIfMissing id k).component = t.component ∧
    (t.createMetadataIfMissing id k).content = t.content ∧
      (t.createMetadataIfMissing id k).trash = t.trash := by
  unfold createMetadataIfMissing
  split_ifs <;> exact ⟨rfl, rfl, rfl⟩

omit [DecidableEq α] in
theorem owned_updateMetadataValue (k : ℤ) (value : List UInt8) (ht : MetadataUnique t.metadata)
    (h : ∀ m ∈ t.metadata, ∃ s ∈ t.component, s.id = m.componentId) (hr : r ∈ t.component) :
    ∀ m ∈ ((t.createMetadataIfMissing r.id k).updateMetadataValue r.id k value).metadata,
      ∃ s ∈ t.component, s.id = m.componentId := by
  obtain ⟨-, -, hmem⟩ := createMetadataIfMissing_spec r.id k ht
  have howned : ∀ m ∈ (t.createMetadataIfMissing r.id k).metadata,
      ∃ s ∈ t.component, s.id = m.componentId := by
    intro m hm
    obtain ⟨hid, -⟩ | hiff := hmem m
    · exact ⟨r, hr, hid.symm⟩
    · exact h m (hiff.1 hm)
  refine List.forall_mem_map.2 fun m hm => ?_
  split_ifs
  · exact howned m hm
  · exact howned m hm

theorem setComponentMetadata_spec (hc : c.Lawful Literal) (ht : Consistent c t)
    (hname : Canonical c.slash name) {value : List UInt8}
    (h : t.setComponentMetadata c name k value = .ok t') :
    Changes c t t' (modify (c.pathOf name)
      (fun e => { e with metadata := Function.update e.metadata k (some (some value)) })
      (t.tree c none)) := by
  obtain ⟨r, hr, h⟩ := checkRv_bind_eq_ok_iff.1 h
  obtain ⟨hmem, hmark, hpath⟩ :=
    ht.names.mem_of_getComponentByName (hc.canonical_upperName.2 hname) hr
  obtain ⟨hunique, hmetadata⟩ :=
    metadataOf_updateMetadataValue r.id k value ht.metadata
  have howned := owned_updateMetadataValue k value ht.metadata ht.owned hmem
  obtain ⟨hcomp, hcontent, htrash⟩ := createMetadataIfMissing_frame t r.id k
  obtain rfl := Except.ok.inj h
  set t' := (t.createMetadataIfMissing r.id k).updateMetadataValue r.id k value
  have hcomp' : t'.component = t.component := hcomp
  have hcontent' : t'.content = t.content := hcontent
  have hentry : ∀ s, t'.entry c s = { t.entry c s with metadata := t'.metadataOf s.id } := by
    intro s
    simp only [entry, contentOf, getContentById, hcontent']
  have hother : ∀ s, s.id ≠ r.id → t'.entry c s = t.entry c s := fun s hs => by
    rw [hentry, hmetadata, if_neg hs]
    rfl
  have hnames : NamesConsistent c t'.component := hcomp'.symm ▸ ht.names
  have htree : t'.tree c none = modify (c.pathOf name)
      (fun e => { e with metadata := Function.update e.metadata k (some (some value)) })
      (t.tree c none) := by
    refine ht.names.tree_eq_modify hnames (f := id) (by simpa using hcomp') (fun s => ⟨rfl, rfl⟩)
      fun s hs hsmark => ?_
    by_cases hsr : s = r
    · rw [hsr, if_pos hpath, id_eq, hentry, hmetadata, if_pos rfl]
      rfl
    · have hspath : c.rowPath s ≠ c.pathOf name := fun heq =>
        hsr (ht.names.eq_of_path hs hmem (hsmark.trans hmark.symm) (heq.trans hpath.symm))
      rw [if_neg hspath]
      exact hother s fun hid => hsr (ht.names.eq_of_id hs hmem hid)
  have hsame : SameTrash c t t' := by
    refine ⟨htrash, fun i => ⟨by rw [marked, hcomp', marked], fun s hs hsmark => ?_⟩⟩
    refine hother s fun hid => ?_
    rw [ht.names.eq_of_id hs hmem hid, hmark] at hsmark
    cases hsmark
  refine ⟨⟨⟨hnames, ?_, hunique, ?_, ?_, ?_, ?_⟩, ht.of_sameTrash hsame⟩, hsame, htree⟩
  · rw [hcomp']
    exact howned
  · rw [hcontent']
    exact ht.contentIds
  · rw [hcontent']
    exact ht.contentPos
  · rw [hcontent', hcomp']
    exact ht.contents
  · rw [htree]
    exact ht.rooted.modify fun _ he => he

/-! ## Contents -/

/-- Either the content has that path already, or the component gets one that has it. -/
theorem assignComponentPath_cases (h : t.assignComponentPath c name path = .ok t') :
    ∃ r, t.getComponentByName c name = some r ∧
      ((t.contentOf r.contentId = some path ∧ t' = t) ∨
        (t.createContentIfMissing path).2.updateComponentContentIdByName c name
          (t.createContentIfMissing path).1 = .ok t') := by
  obtain ⟨r, hr, h⟩ := checkRv_bind_eq_ok_iff.1 h
  refine ⟨r, hr, ?_⟩
  by_cases hzero : r.contentId = 0
  · exact .inr (by simpa only [if_pos hzero] using h)
  · simp only [if_neg hzero] at h
    obtain ⟨s, hs, h⟩ := checkRv_bind_eq_ok_iff.1 h
    by_cases hpath : s.path.getD [] = path
    · rw [if_neg (not_not.2 hpath), Except.ok.injEq] at h
      exact .inl ⟨by rw [contentOf, if_neg hzero, hs, Option.map_some, hpath], h.symm⟩
    · rw [if_pos hpath] at h
      exact .inr h

/-- The content of a path that was looked up or made. -/
structure ContentMade (t u : Tables α) (id : ℕ) (path : List UInt8) : Prop where
  component : u.component = t.component
  metadata : u.metadata = t.metadata
  trash : u.trash = t.trash
  contentIds : (u.content.map (·.id)).Nodup
  contentPos : ∀ s ∈ u.content, 0 < s.id
  subset : ∀ s ∈ t.content, s ∈ u.content
  mem : ∃ s ∈ u.content, s.id = id
  contentOf : u.contentOf id = some path
  same : ∀ i, (∃ s ∈ t.content, s.id = i) → u.contentOf i = t.contentOf i

omit [DecidableEq α] in
theorem createContentIfMissing_spec (hids : (t.content.map (·.id)).Nodup)
    (hpos : ∀ s ∈ t.content, 0 < s.id) : ContentMade t (t.createContentIfMissing path).2
      (t.createContentIfMissing path).1 path := by
  unfold createContentIfMissing
  cases hs : t.content.find? fun s => s.path = some path with
  | some s =>
    have hmem := List.mem_of_find?_eq_some hs
    have hpath : s.path = some path := by simpa using List.find?_some hs
    have hget : t.getContentById s.id = some s := by
      cases hf : t.getContentById s.id with
      | none => exact absurd (List.find?_eq_none.1 hf s hmem) (by simp)
      | some u =>
        have hid : u.id = s.id := by simpa using List.find?_some hf
        rw [List.inj_on_of_nodup_map hids (List.mem_of_find?_eq_some hf) hmem hid]
    refine ⟨rfl, rfl, rfl, hids, hpos, fun _ h => h, ⟨s, hmem, rfl⟩, ?_, fun _ _ => rfl⟩
    rw [Tables.contentOf, if_neg (hpos s hmem).ne', hget, Option.map_some, hpath]
    rfl
  | none =>
    have hlt : ∀ s ∈ t.content, s.id < newRowid (t.content.map (·.id)) := fun s hs =>
      lt_newRowid (List.mem_map_of_mem hs)
    set row : ContentRow := ⟨newRowid (t.content.map (·.id)), some path, none⟩ with hrow
    have hnew : ([row].find? fun s => s.id = newRowid (t.content.map (·.id))) = some row := by
      simp [hrow]
    have hnone : t.getContentById (newRowid (t.content.map (·.id))) = none :=
      List.find?_eq_none.2 fun s hs heq => (hlt s hs).ne (of_decide_eq_true heq)
    refine ⟨rfl, rfl, rfl, ?_, ?_, fun _ h => List.mem_append_left _ h, ?_, ?_, ?_⟩
    · exact Table.keyed_append_singleton.2 ⟨hids, fun s hs => (hlt s hs).ne⟩
    · intro s hs
      obtain hs | hs := List.mem_append.1 hs
      · exact hpos s hs
      · rw [List.mem_singleton.1 hs]
        exact Nat.succ_pos _
    · exact ⟨_, List.mem_append_right _ (List.mem_singleton_self _), rfl⟩
    · have hget : (t.content ++ [row]).find? (fun s => s.id = newRowid (t.content.map (·.id))) =
          some row := by
        rw [List.find?_append, hnew]
        exact congrArg (Option.or · (some row)) hnone
      have hne : newRowid (t.content.map (·.id)) ≠ 0 := Nat.succ_ne_zero _
      exact (if_neg hne).trans (congrArg (Option.map fun s => s.path.getD []) hget)
    · rintro i ⟨s, hs, rfl⟩
      have hold : ([row].find? fun r => r.id = s.id) = none := by
        simpa [hrow] using (hlt s hs).ne'
      rw [Tables.contentOf, getContentById, List.find?_append, hold, Option.or_none]
      rfl

/-- The row of a component gets the content. -/
theorem updateContentId_spec (hc : c.Lawful Literal) (ht : Consistent c t)
    (hname : Canonical c.slash name) {u : Tables α} (hmade : ContentMade t u id path)
    (h : u.updateComponentContentIdByName c name id = .ok t') :
    Changes c t t' (modify (c.pathOf name) (fun e => { e with content := some path })
      (t.tree c none)) := by
  have hsel : ∀ r ∈ t.component, c.SelectsName name r ↔
      r.trashId = none ∧ c.rowPath r = c.pathOf name := fun r hr =>
    ht.names.selectsName_iff hr (hc.canonical_upperName.2 hname)
  obtain ⟨-, h⟩ := updateComponentByName_eq_ok_iff.1 h
  set f : ComponentRow α → ComponentRow α := fun r =>
    if c.SelectsName name r then { r with contentId := id } else r with hf
  have hcomp : t'.component = t.component.map f := by
    rw [← h]
    exact congrArg (List.map f) hmade.component
  have hmetadata : t'.metadata = t.metadata := by
    rw [← h]
    exact hmade.metadata
  have htrash : t'.trash = t.trash := by
    rw [← h]
    exact hmade.trash
  have hcontent : t'.content = u.content := by rw [← h]
  have hsame : ∀ r, (f r).id = r.id ∧ (f r).name = r.name ∧ (f r).nameUpper = r.nameUpper ∧
      (f r).trashId = r.trashId := by
    intro r
    by_cases hs : c.SelectsName name r <;> simp [hf, hs]
  have hcontents : ∀ r ∈ t.component, t'.contentOf r.contentId = t.contentOf r.contentId := by
    intro r hr
    have hu : t'.contentOf r.contentId = u.contentOf r.contentId := by
      simp only [contentOf, getContentById, hcontent]
    rw [hu]
    by_cases hzero : r.contentId = 0
    · rw [hzero]
      rfl
    · exact hmade.same _ (ht.contents r hr hzero)
  have hmetadataOf : ∀ i, t'.metadataOf i = t.metadataOf i := fun i => by
    funext j
    rw [metadataOf, hmetadata, metadataOf]
  have hentry : ∀ r ∈ t.component, t'.entry c r = t.entry c r := by
    intro r hr
    rw [entry, hcontents r hr, hmetadataOf]
    rfl
  have hnames : NamesConsistent c t'.component := by
    rw [hcomp]
    refine ht.names.map (fun r => (hsame r).1) (fun r hr => ?_) (fun r hr => ?_)
      fun r hr r' hr' hmark hname' => ?_
    · rw [(hsame r).2.1, (hsame r).2.2.1]
      exact ht.names.upper r hr
    · rw [(hsame r).2.2.1]
      exact ht.names.canonical r hr
    · rw [(hsame r).2.2.1, (hsame r').2.2.1] at hname'
      rw [(hsame r).2.2.2, (hsame r').2.2.2] at hmark
      exact ht.names.eq_of_path hr hr' hmark (congrArg (parts c.slash) hname')
  have htree : t'.tree c none = modify (c.pathOf name)
      (fun e => { e with content := some path }) (t.tree c none) := by
    refine ht.names.tree_eq_modify hnames hcomp (fun r => ⟨(hsame r).2.2.2, ?_⟩)
      fun r hr hmark => ?_
    · exact congrArg (parts c.slash) (hsame r).2.2.1
    · by_cases hs : c.SelectsName name r
      · have hpath : t'.contentOf id = some path := by
          rw [← hmade.contentOf, contentOf, contentOf, getContentById, hcontent, getContentById]
        have hfr : f r = { r with contentId := id } := if_pos hs
        rw [hfr, if_pos ((hsel r hr).1 hs).2, entry, hpath, hmetadataOf]
        rfl
      · have hnot : c.rowPath r ≠ c.pathOf name := fun h => hs ((hsel r hr).2 ⟨hmark, h⟩)
        have hfr : f r = r := if_neg hs
        rw [hfr, if_neg hnot, hentry r hr]
  have htrashSame : SameTrash c t t' := by
    refine ⟨htrash, fun i => ⟨?_, fun r hr _ => hentry r hr⟩⟩
    rw [marked, hcomp]
    exact Table.filter_update fun r hr hs => by simp [((hsel r hr).1 hs).1]
  refine ⟨⟨⟨hnames, ?_, hmetadata ▸ ht.metadata, hcontent ▸ hmade.contentIds,
    hcontent ▸ hmade.contentPos, ?_, ?_⟩, ht.of_sameTrash htrashSame⟩, htrashSame, htree⟩
  · rw [hmetadata, hcomp]
    intro m hm
    obtain ⟨r, hr, hrid⟩ := ht.owned m hm
    exact ⟨f r, List.mem_map_of_mem hr, (hsame r).1.trans hrid⟩
  · rw [hcontent, hcomp]
    refine List.forall_mem_map.2 fun r hr hne => ?_
    by_cases hs : c.SelectsName name r
    · simpa [hf, hs] using hmade.mem
    · simp only [hf, hs, if_false] at hne ⊢
      obtain ⟨s, hs, hsid⟩ := ht.contents r hr hne
      exact ⟨s, hmade.subset s hs, hsid⟩
  · rw [htree]
    exact ht.rooted.modify fun _ he => he

theorem assignComponentPath_spec (hc : c.Lawful Literal) (ht : Consistent c t)
    (hname : Canonical c.slash name) (h : t.assignComponentPath c name path = .ok t') :
    Changes c t t' (modify (c.pathOf name) (fun e => { e with content := some path })
      (t.tree c none)) := by
  obtain ⟨r, hr, ⟨hcontent, rfl⟩ | h⟩ := assignComponentPath_cases h
  · obtain ⟨hmem, hmark, hpath⟩ :=
      ht.names.mem_of_getComponentByName (hc.canonical_upperName.2 hname) hr
    have hthere := ht.names.tree_eq_some_iff.2 ⟨r, hmem, hmark, hpath, rfl⟩
    have hself : modify (c.pathOf name) (fun e => { e with content := some path })
        (t'.tree c none) = t'.tree c none := by
      rw [PathTree.modify, hthere, Option.map_some]
      refine Function.update_eq_self_iff.2 ?_
      rw [hthere, entry, ← hcontent]
    rw [hself]
    exact .refl ht
  · exact updateContentId_spec hc ht hname
      (createContentIfMissing_spec ht.contentIds ht.contentPos) h

theorem setComponentPath_spec (hc : c.Lawful Literal) (ht : Consistent c t)
    (hname : Canonical c.slash name)
    (h : t.setComponentPath c name path version time = .ok t') :
    Changes c t t' (modify (c.pathOf name) (fun e => { e with content := some path })
      (if version ≠ 0 ∨ time ≠ 0 then ComponentTree.create c time .file (c.spell name)
        (ComponentTree.createAbove c time (c.spell name) (t.tree c none))
      else t.tree c none)) := by
  unfold setComponentPath at h
  by_cases hset : version ≠ 0 ∨ time ≠ 0
  · rw [if_pos hset] at h ⊢
    obtain ⟨names, hnames, hsteps⟩ := checkRv_bind_eq_ok_iff.1 h
    obtain ⟨u, hu, hsteps⟩ := bind_eq_ok_iff.1 hsteps
    obtain ⟨v, hv, hversions⟩ := bind_eq_ok_iff.1 hsteps
    obtain ⟨hmade, -⟩ := createComponentsIfMissing_spec hc ht hname hnames hu
    have hassigned := assignComponentPath_spec hc hmade.consistent hname hv
    rw [hmade.tree_eq] at hassigned
    exact (hmade.trans hassigned).updateVersions hversions
  · rw [if_neg hset] at h ⊢
    exact assignComponentPath_spec hc ht hname h

/-! ## Sizes -/

theorem updateContentSizeById_spec {size : ℕ} (ht : Consistent c t)
    (h : t.updateContentSizeById id size = .ok t') : Changes c t t' (t.tree c none) := by
  obtain ⟨-, h⟩ := ite_error_eq_ok_iff.1 h
  obtain rfl := Except.ok.inj h
  set f : ContentRow → ContentRow := fun s => if s.id = id then { s with size := some size } else s
    with hf
  have hsame : ∀ s, (f s).id = s.id ∧ (f s).path = s.path := by
    intro s
    by_cases hs : s.id = id <;> simp [hf, hs]
  set t' : Tables α := { t with content := t.content.map f } with ht'
  change Changes c t t' (t.tree c none)
  have hcontent : ∀ i, t'.contentOf i = t.contentOf i := by
    intro i
    simp only [contentOf, getContentById, ht', List.find?_map, Function.comp_def, (hsame _).1,
      Option.map_map, (hsame _).2]
  have hentry : ∀ r, t'.entry c r = t.entry c r := fun r => by
    rw [entry, hcontent, entry]
    rfl
  have htree : t'.tree c none = t.tree c none := by
    funext p
    rw [tree, tree, funext hentry]
    rfl
  have htrash : SameTrash c t t' := ⟨rfl, fun _ => ⟨rfl, fun r _ _ => hentry r⟩⟩
  refine ⟨⟨⟨ht.names, ht.owned, ht.metadata, ?_, ?_, ?_, htree ▸ ht.rooted⟩,
    ht.of_sameTrash htrash⟩, htrash, htree⟩
  · simpa [ht', Function.comp_def, hsame] using ht.contentIds
  · refine List.forall_mem_map.2 fun s hs => ?_
    rw [(hsame s).1]
    exact ht.contentPos s hs
  · intro r hr hne
    obtain ⟨s, hs, hsid⟩ := ht.contents r hr hne
    exact ⟨f s, List.mem_map_of_mem hs, (hsame s).1.trans hsid⟩

theorem setComponentSize_spec {size : ℕ} (ht : Consistent c t)
    (h : t.setComponentSize c name size version time = .ok t') :
    Changes c t t' (t.tree c none) := by
  obtain ⟨r, -, h⟩ := checkRv_bind_eq_ok_iff.1 h
  obtain ⟨-, h⟩ := error_ite_eq_ok_iff.1 h
  obtain ⟨u, hu, hsteps⟩ := bind_eq_ok_iff.1 h
  obtain ⟨names, -, hsteps⟩ := checkRv_bind_eq_ok_iff.1 hsteps
  obtain ⟨v, hv, hversions⟩ := bind_eq_ok_iff.1 hsteps
  have htimed := (updateContentSizeById_spec ht hu).updateByName
    (f := fun r => { r with mtime := time }) (fun _ => rfl) hv
  exact htimed.updateVersions hversions

end Tables

end PersonalCloud.DatasetDb
