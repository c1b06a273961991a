import PersonalCloud.DatasetDb.Removal

/-!
# Components that get another path

A move gives the rows of a component and of all below it names that begin with another path. To
restore a component from the trash is the same for the rows of a trash record, and takes their mark
away.

## Main definitions

* `Relocation` — what the two have in common.

## Main results

* `Relocation.tree_eq` — the part of the tree stands at its new path.
* `moveComponent_spec`, `restoreTrash_spec`.
-/

namespace PersonalCloud.DatasetDb

open PersonalCloud.Lib PersonalCloud.Lib.PathText PersonalCloud.Lib.PathTree

variable {α : Type} [DecidableEq α] {c : Collation α} {Literal : α → Prop}

namespace ComponentTree

variable {s t : ComponentTree α} {path q : List (List α)} {leaf : List α} {e : Entry α}

theorem relabel_eq_some_iff : relabel leaf s q = some e ↔
    ∃ e', s q = some e' ∧ (if q = [] then { e' with leaf := leaf } else e') = e := by
  unfold relabel PathTree.modify
  by_cases hq : q = []
  · subst hq
    simp
  · simp [hq]

theorem rooted_relabel (h : Rooted Entry.Holds s) : Rooted Entry.Holds (relabel leaf s) :=
  h.modify fun _ he => he

/-- Nothing is made but the directories above. -/
theorem createAbove_of_not_above {time : ℕ} {ps : List (List α)}
    (h : q <+: ps.map c.upperName → q = ps.map c.upperName) : createAbove c time ps t q = t q := by
  induction ps using List.reverseRecOn generalizing q with
  | nil => rfl
  | append_singleton ps x ih =>
    rw [List.map_append, List.map_singleton] at h
    have hnot : ¬q <+: ps.map c.upperName := by
      intro hinit
      rw [h (hinit.trans (List.prefix_append _ _))] at hinit
      simpa using hinit.length_le
    have hne : q ≠ ps.map c.upperName := fun heq => hnot (heq ▸ List.prefix_rfl)
    rw [Tables.createAbove_concat, create, ensure_of_ne hne]
    exact ih fun hinit => absurd hinit hnot

end ComponentTree

open ComponentTree

namespace Tables

variable {t t' : Tables α} {old new path : List (List α)} {leaf : List α}

/-- The tree is put together from two others if the rows are the entries of the two. -/
theorem NamesConsistent.tree_eq_graft {s base : ComponentTree α}
    (h : NamesConsistent c t.component)
    (hrows : ∀ r ∈ t.component, r.trashId = none →
      (∃ q, c.rowPath r = new ++ q ∧ s q = some (t.entry c r)) ∨
        ¬new <+: c.rowPath r ∧ base (c.rowPath r) = some (t.entry c r))
    (hs : ∀ q e, s q = some e → ∃ r ∈ t.component, r.trashId = none ∧ c.rowPath r = new ++ q)
    (hbase : ∀ p e, ¬new <+: p → base p = some e →
      ∃ r ∈ t.component, r.trashId = none ∧ c.rowPath r = p) :
    t.tree c none = graft new s base := by
  have hentry : ∀ r ∈ t.component, r.trashId = none →
      graft new s base (c.rowPath r) = some (t.entry c r) := by
    intro r hr hmark
    obtain ⟨q, hq, hsq⟩ | ⟨hnot, hb⟩ := hrows r hr hmark
    · rw [hq, graft_append, hsq]
    · rw [graft_of_not_below hnot, hb]
  funext p
  refine Option.ext fun e => ?_
  rw [h.tree_eq_some_iff]
  constructor
  · rintro ⟨r, hr, hmark, rfl, rfl⟩
    exact hentry r hr hmark
  · intro hp
    have hthere : ∃ r ∈ t.component, r.trashId = none ∧ c.rowPath r = p := by
      by_cases hnew : new <+: p
      · obtain ⟨q, rfl⟩ := hnew
        rw [graft_append] at hp
        exact hs q e hp
      · rw [graft_of_not_below hnew] at hp
        exact hbase p e hnew hp
    obtain ⟨r, hr, hmark, rfl⟩ := hthere
    rw [hentry r hr hmark] at hp
    exact ⟨r, hr, hmark, rfl, Option.some.inj hp⟩

/-- Rows at and below a path, under one mark, get another path outside the trash. -/
structure Relocation (c : Collation α) (t t' : Tables α) (p : ComponentRow α → Prop)
    [DecidablePred p] (f : ComponentRow α → ComponentRow α) (mark : Option ℕ)
    (old new : List (List α)) (leaf : List α) : Prop where
  component : t'.component = t.component.map fun r => if p r then f r else r
  metadata : t'.metadata = t.metadata
  content : t'.content = t.content
  selects : ∀ r ∈ t.component, p r ↔ r.trashId = mark ∧ old <+: c.rowPath r
  trashId : ∀ r, (f r).trashId = none
  same : ∀ r, (f r).id = r.id ∧ (f r).type = r.type ∧ (f r).ctime = r.ctime ∧
    (f r).contentId = r.contentId
  named : ∀ r ∈ t.component, p r → c.Named (new ++ (c.rowPath r).drop old.length)
    (if c.rowPath r = old then leaf else c.basename r.name) (f r).name (f r).nameUpper
  free : ∀ r ∈ t.component, r.trashId = none → ¬p r → ¬new <+: c.rowPath r

namespace Relocation

variable {p : ComponentRow α → Prop} [DecidablePred p] {f : ComponentRow α → ComponentRow α}
  {mark : Option ℕ} {r : ComponentRow α}

theorem rowPath_eq (h : Relocation c t t' p f mark old new leaf) (hr : r ∈ t.component)
    (hp : p r) : ∃ q, c.rowPath r = old ++ q ∧ c.rowPath (f r) = new ++ q := by
  obtain ⟨q, hq⟩ := ((h.selects r hr).1 hp).2
  refine ⟨q, hq.symm, ?_⟩
  have := (h.named r hr hp).path
  rwa [← hq, List.drop_left] at this

theorem entry_eq (h : Relocation c t t' p f mark old new leaf) (hr : r ∈ t.component)
    (hp : p r) : t'.entry c (f r) =
      if c.rowPath r = old then { t.entry c r with leaf := leaf } else t.entry c r := by
  obtain ⟨hid, htype, hctime, hcontent⟩ := h.same r
  rw [entry_congr h.metadata h.content]
  by_cases hold : c.rowPath r = old <;>
    simp [entry, hid, htype, hctime, hcontent, (h.named r hr hp).leaf, hold]

theorem names (h : Relocation c t t' p f mark old new leaf)
    (ht : NamesConsistent c t.component) : NamesConsistent c t'.component := by
  rw [h.component]
  refine ht.map (fun r => ?_) (fun r hr => ?_) (fun r hr => ?_) fun r hr r' hr' hmark hname => ?_
  · by_cases hp : p r <;> simp [hp, (h.same r).1]
  · by_cases hp : p r
    · simpa [hp] using (h.named r hr hp).upper
    · simpa [hp] using ht.upper r hr
  · by_cases hp : p r
    · simpa [hp] using (h.named r hr hp).canonical
    · simpa [hp] using ht.canonical r hr
  · have hpath := congrArg (parts c.slash) hname
    -- a row that gets a path does not get that of a row that stays
    have hmixed : ∀ s ∈ t.component, ∀ s' ∈ t.component, p s → ¬p s' → s'.trashId = none →
        c.rowPath (f s) ≠ c.rowPath s' := by
      intro s hs s' hs' hp hp' hmark' heq
      obtain ⟨q, -, hq⟩ := h.rowPath_eq hs hp
      exact h.free s' hs' hmark' hp' (heq ▸ hq ▸ List.prefix_append _ _)
    by_cases hp : p r <;> by_cases hp' : p r' <;>
      simp only [hp, hp', if_true, if_false] at hmark hpath
    · obtain ⟨q, hq, hfq⟩ := h.rowPath_eq hr hp
      obtain ⟨q', hq', hfq'⟩ := h.rowPath_eq hr' hp'
      have heq : new ++ q = new ++ q' := hfq ▸ hfq' ▸ hpath
      refine ht.eq_of_path hr hr' ?_ ?_
      · rw [((h.selects r hr).1 hp).1, ((h.selects r' hr').1 hp').1]
      · rw [hq, hq', List.append_cancel_left heq]
    · exact absurd hpath (hmixed r hr r' hr' hp hp' (by rw [← hmark, h.trashId]))
    · exact absurd hpath.symm (hmixed r' hr' r hr hp' hp (by rw [hmark, h.trashId]))
    · exact ht.eq_of_path hr hr' hmark hpath

theorem tree_eq (h : Relocation c t t' p f mark old new leaf)
    (ht : NamesConsistent c t.component) (base : ComponentTree α)
    (hbase : ∀ q e, base q = some e ↔
      ∃ r ∈ t.component, ¬p r ∧ r.trashId = none ∧ c.rowPath r = q ∧ t.entry c r = e) :
    t'.tree c none = graft new (relabel leaf (sub old (t.tree c mark))) base := by
  refine (h.names ht).tree_eq_graft ?_ ?_ ?_
  · rw [h.component]
    refine List.forall_mem_map.2 fun r hr => ?_
    by_cases hp : p r
    · rw [if_pos hp]
      intro _
      obtain ⟨q, hq, hfq⟩ := h.rowPath_eq hr hp
      refine .inl ⟨q, hfq, relabel_eq_some_iff.2 ⟨t.entry c r, ?_, ?_⟩⟩
      · exact ht.tree_eq_some_iff.2 ⟨r, hr, ((h.selects r hr).1 hp).1, hq, rfl⟩
      · rw [h.entry_eq hr hp, hq]
        simp
    · rw [if_neg hp, entry_congr h.metadata h.content]
      exact fun hmark => .inr ⟨h.free r hr hmark hp, (hbase _ _).2 ⟨r, hr, hp, hmark, rfl, rfl⟩⟩
  · intro q e hq
    obtain ⟨e', he', -⟩ := relabel_eq_some_iff.1 hq
    obtain ⟨r, hr, hmark, hpath, -⟩ := ht.tree_eq_some_iff.1 he'
    have hp := (h.selects r hr).2 ⟨hmark, hpath ▸ List.prefix_append _ _⟩
    obtain ⟨q', hq', hfq'⟩ := h.rowPath_eq hr hp
    rw [hpath, List.append_cancel_left_eq] at hq'
    refine ⟨f r, ?_, h.trashId r, hq' ▸ hfq'⟩
    rw [h.component]
    exact List.mem_map.2 ⟨r, hr, if_pos hp⟩
  · intro q e _ hq
    obtain ⟨r, hr, hp, hmark, hpath, -⟩ := (hbase q e).1 hq
    refine ⟨r, ?_, hmark, hpath⟩
    rw [h.component]
    exact List.mem_map.2 ⟨r, hr, if_neg hp⟩

theorem rows (h : Relocation c t t' p f mark old new leaf) (ht : RowsConsistent c t)
    (rooted : Rooted Entry.Holds (t'.tree c none)) : RowsConsistent c t' := by
  refine ht.map h.component h.metadata h.content (fun r => ?_) (fun r => ?_) (h.names ht.names)
    rooted
  · by_cases hp : p r <;> simp [hp, (h.same r).1]
  · by_cases hp : p r <;> simp [hp, (h.same r).2.2.2]

theorem sameRecord (h : Relocation c t t' p f mark old new leaf) {id : ℕ}
    (hid : some id ≠ mark) : SameRecord c t t' id where
  marked := by
    rw [marked, h.component]
    refine Table.filter_update fun r hr hp => ?_
    simpa [((h.selects r hr).1 hp).1, h.trashId] using hid.symm
  entry r _ _ := entry_congr h.metadata h.content r

end Relocation

/-! ## Moves -/

theorem exists_of_updateComponentsVersion {names : List (List α × ComponentType)} {version : ℕ}
    (h : t.updateComponentsVersion c names version = .ok t') :
    ∀ x ∈ names, ∃ r ∈ t.component, c.SelectsName x.1 r := by
  induction names generalizing t with
  | nil => simp
  | cons y names ih =>
    obtain ⟨u, hu, h⟩ := bind_eq_ok_iff.1 h
    refine List.forall_mem_cons.2 ⟨?_, fun x hx => ?_⟩
    · obtain ⟨hcount, -⟩ := ite_error_eq_ok_iff.1 hu
      obtain ⟨r, hr, hsel⟩ := List.countP_pos_iff.1 (hcount ▸ Nat.one_pos)
      exact ⟨r, hr, of_decide_eq_true hsel⟩
    · have halike : t.Alike u :=
        alike_of_updateComponentByName (f := fun r => { r with version := version })
          (fun _ => rfl) hu
      exact (halike.exists_selectsName_iff).2 (ih h x hx)

variable {oldName newName name : List α} {version time : ℕ}

/-- The statement of a move gives no name that goes on from the old one: the row of the old name
would be needed afterwards. -/
theorem move_not_below (hc : c.Lawful Literal) (hold : Canonical c.slash oldName)
    (hnew : Canonical c.slash newName) {names : List (List α × ComponentType)} {u v : Tables α}
    (hnames : createComponentAncestryList c newName none = some names)
    (hu : t.updateComponentNameByName c oldName newName version = .ok u) (hv : u.Alike v)
    (h : v.updateComponentsVersion c names version = .ok t')
    (hinit : c.pathOf oldName <+: c.pathOf newName) : c.pathOf oldName = c.pathOf newName := by
  by_contra hne
  have hupperOld := hc.canonical_upperName.2 hold
  have hparts : ∀ x ∈ c.spell newName, IsPart c.slash x := fun x hx => isPart_of_mem hx
  -- the row of the old name is one of those that get the version
  obtain ⟨qs, hmem, hqs⟩ : ∃ qs ∈ (c.spell newName).inits.dropLast,
      c.upperName (join c.slash qs) = c.upperName oldName := by
    obtain ⟨rest, hrest⟩ := hinit
    rw [hc.pathOf_eq newName] at hrest hne
    obtain ⟨qs, qs', hspell, hqs, -⟩ := List.map_eq_append_iff.1 hrest.symm
    have hqsparts : ∀ x ∈ qs, IsPart c.slash x := fun x hx =>
      hparts x (hspell ▸ List.mem_append_left _ hx)
    refine ⟨qs, mem_inits_dropLast.2 ⟨⟨qs', hspell.symm⟩, fun heq => hne ?_⟩, ?_⟩
    · rw [← hqs, heq]
    · rw [← (hc.canonical_upperName.2 (canonical_join hqsparts)).parts_inj hupperOld]
      exact (hc.pathOf_join hqsparts).trans hqs
  rw [← hnew.join_parts] at hnames
  have hlist := createComponentAncestryList_join hparts hnames
  rw [Option.map_none, Option.toList_none, List.append_nil] at hlist
  obtain ⟨s, hs, hsname, hsmark⟩ := hv.exists_selectsName_iff.2 (exists_of_updateComponentsVersion h
    (join c.slash qs, .directory) (hlist ▸ List.mem_map.2 ⟨qs, hmem, rfl⟩))
  rw [hqs] at hsname
  -- but no row has that name any more
  have hlonger : (c.upperName oldName).length < newName.length := by
    have hlt := hupperOld.length_lt (hc.canonical_upperName.2 hnew) hinit fun heq =>
      hne (congrArg (parts c.slash) heq)
    simpa [Collation.upperName] using hlt
  unfold updateComponentNameByName at hu
  split_ifs at hu with hsamename
  obtain ⟨-, rfl⟩ := updateComponents_eq_ok hu
  obtain ⟨r, hr, rfl⟩ := List.mem_map.1 hs
  by_cases hp : c.SelectsForMove oldName r
  · rw [if_pos hp] at hsname
    refine Collation.upperName_replaceprefix_ne hlonger r.nameUpper (hsname.trans ?_)
    exact (hc.upperName_upperName oldName).symm
  · rw [if_neg hp] at hsname hsmark
    exact hp ⟨.inl hsname, hsmark⟩

/-- The statement of a move relocates the rows, if they are those below a component that is not
the root and the new path has no other. -/
theorem relocation_of_updateComponentNameByName (hc : c.Lawful Literal) (ht : Consistent c t)
    (hold : Canonical c.slash oldName) (hlit : ∀ a ∈ oldName, Literal a)
    (hnew : Canonical c.slash newName) (hroot : oldName ≠ [])
    (hfree : t.tree c none (c.pathOf newName) = none ∨ c.pathOf newName = c.pathOf oldName)
    (h : t.updateComponentNameByName c oldName newName version = .ok t') :
    Relocation c t t' (c.SelectsForMove oldName) (fun r => { r with
      name := c.replaceprefix r.name (c.upperName oldName) newName
      nameUpper := c.upperName (c.replaceprefix r.nameUpper (c.upperName oldName) newName)
      trashId := none
      version := version }) none (c.pathOf oldName) (c.pathOf newName)
      ((c.spell newName).getLastD []) := by
  have hsel : ∀ r ∈ t.component, c.SelectsForMove oldName r ↔
      r.trashId = none ∧ c.pathOf oldName <+: c.rowPath r := by
    intro r hr
    rw [hc.selectsForMove_iff hold hlit (ht.names.canonical r hr)]
    refine and_congr_right fun _ => ⟨?_, fun h => .inr ⟨hroot, h⟩⟩
    rintro (heq | ⟨-, hbelow⟩)
    · rw [heq]
    · exact hbelow
  unfold updateComponentNameByName at h
  split_ifs at h with hsamename
  obtain ⟨-, rfl⟩ := updateComponents_eq_ok h
  refine ⟨?_, rfl, rfl, hsel, fun _ => rfl, fun _ => ⟨rfl, rfl, rfl, rfl⟩, ?_, ?_⟩
  · refine List.map_congr_left fun r hr => ?_
    by_cases hp : c.SelectsForMove oldName r
    · simp [hp, ((hsel r hr).1 hp).1]
    · simp [hp]
  · intro r hr hp
    have hpath := hc.pathOf_upperName oldName
    have hnamed := hc.renamed_spec (ht.names.upper r hr) (ht.names.canonical r hr)
      (hc.canonical_upperName.2 hold) hnew (hpath ▸ ((hsel r hr).1 hp).2)
    rwa [hpath] at hnamed
  · intro r hr hmark hp hinit
    obtain hnone | heq := hfree
    · exact ht.not_below hnone r hr hmark hinit
    · exact hp ((hsel r hr).2 ⟨hmark, heq ▸ hinit⟩)

theorem moveComponent_spec (hc : c.Lawful Literal) (ht : Consistent c t)
    (hold : Canonical c.slash oldName) (hlit : ∀ a ∈ oldName, Literal a)
    (hnew : Canonical c.slash newName)
    (hfree : t.tree c none (c.pathOf newName) = none ∨ c.pathOf newName = c.pathOf oldName)
    (h : t.moveComponent c oldName newName version time = .ok t') :
    Changes c t t' (graft (c.pathOf newName)
      (relabel ((c.spell newName).getLastD [])
        (sub (c.pathOf oldName) (createAbove c time (c.spell newName) (t.tree c none))))
      (prune (c.pathOf oldName) (createAbove c time (c.spell newName) (t.tree c none)))) := by
  unfold moveComponent at h
  split_ifs at h with hsamename
  obtain ⟨names, hnames, hsteps⟩ := checkRv_bind_eq_ok_iff.1 h
  obtain ⟨u, hu, hsteps⟩ := bind_eq_ok_iff.1 hsteps
  obtain ⟨v, hv, hsteps⟩ := bind_eq_ok_iff.1 hsteps
  obtain ⟨w, hw, hsteps⟩ := bind_eq_ok_iff.1 hsteps
  obtain ⟨w', hw', hsteps⟩ := bind_eq_ok_iff.1 hsteps
  obtain ⟨names', -, hsteps⟩ := checkRv_bind_eq_ok_iff.1 hsteps
  obtain ⟨w'', hw'', hversions⟩ := bind_eq_ok_iff.1 hsteps
  obtain ⟨hmade, habove⟩ := createAncestors_spec hc ht hnew hnames hu
  have hconsistent := hmade.consistent
  have hbelow := move_not_below hc hold hnew hnames hv (alike_of_updateParent hw) hw'
  have hfree' : u.tree c none (c.pathOf newName) = none ∨ c.pathOf newName = c.pathOf oldName := by
    refine hfree.imp_left fun hnone => ?_
    rw [hmade.tree_eq, createAbove_of_not_above fun _ => hc.pathOf_eq newName, hnone]
  have hroot : oldName ≠ [] := by
    rintro rfl
    have hnil : [] = c.pathOf newName := hbelow List.nil_prefix
    refine hsamename ?_
    simpa [Collation.upperName] using (hc.canonical_upperName.2 hnew).parts_eq_nil_iff.1 hnil.symm
  have hrel := relocation_of_updateComponentNameByName hc hconsistent hold hlit hnew hroot hfree' hv
  have htree := hrel.tree_eq hconsistent.names _ fun q e =>
    hconsistent.names.prune_eq_some_iff hrel.selects
  have hrooted : Rooted Entry.Holds (v.tree c none) := by
    rw [htree]
    refine (rooted_relabel (hconsistent.rooted.sub _)).graft (hconsistent.rooted.prune _) ?_
    intro q a hq
    obtain ⟨e, he, hholds⟩ := habove q a hq
    refine ⟨e, (prune_of_not_below fun hinit => ?_).trans he, hholds⟩
    have heq := hbelow (hinit.trans ⟨[a], hq.symm⟩)
    rw [heq, hq] at hinit
    simpa using hinit.length_le
  have hsame : SameTrash c u v := by
    refine ⟨?_, fun id => hrel.sameRecord (by simp)⟩
    unfold updateComponentNameByName at hv
    rw [if_neg hsamename] at hv
    obtain ⟨-, rfl⟩ := updateComponents_eq_ok hv
    rfl
  rw [hmade.tree_eq] at htree
  have hmoved := hmade.trans
    ⟨⟨hrel.rows hconsistent.toRowsConsistent hrooted, hconsistent.of_sameTrash hsame⟩, hsame, htree⟩
  exact (((hmoved.updateParent hw).updateVersions hw').updateParent hw'').updateVersions hversions

/-! ## Restoring from the trash -/

/-- The three statements for the rows of a trash record relocate them, if the new path is free. -/
theorem relocation_of_restore (hc : c.Lawful Literal) (ht : Consistent c t)
    (hname : Canonical c.slash name) (hfree : t.tree c none (c.pathOf name) = none)
    {root : ComponentRow α} {id : ℕ} (hroot : t.BinConsistent c root id) {u v : Tables α}
    (hu : t.updateComponentVersionByTrashId id version time = .ok u)
    (hv : u.updateComponentNameByTrashId c id root.name name = .ok v)
    (h : v.updateComponentTrashIdByTrashId id time = .ok t') :
    t'.trash = t.trash ∧ Relocation c t t' (fun r => r.trashId = some id) (fun r => { r with
      name := c.replaceprefix r.name root.name name
      nameUpper := c.upperName (c.replaceprefix r.nameUpper root.name name)
      trashId := none
      version := version
      mtime := time }) (some id) (c.rowPath root) (c.pathOf name) ((c.spell name).getLastD []) := by
  obtain ⟨-, rfl⟩ := updateComponents_eq_ok hu
  obtain ⟨-, rfl⟩ := updateComponents_eq_ok hv
  obtain ⟨-, rfl⟩ := updateComponents_eq_ok h
  have hrootUpper := ht.names.upper root hroot.mem
  have hrootCanonical := ht.names.canonical root hroot.mem
  have hrootPath : c.pathOf root.name = c.rowPath root :=
    congrArg (parts c.slash) hrootUpper.symm
  refine ⟨rfl, ?_, rfl, rfl, ?_, fun _ => rfl, fun _ => ⟨rfl, rfl, rfl, rfl⟩, ?_, ?_⟩
  · rw [List.map_map, List.map_map]
    refine List.map_congr_left fun r _ => ?_
    by_cases hmark : r.trashId = some id <;> simp [hmark]
  · exact fun r hr => ⟨fun hmark => ⟨hmark, hroot.below r hr hmark⟩, fun h => h.1⟩
  · intro r hr hmark
    have hnamed := hc.renamed_spec (ht.names.upper r hr) (ht.names.canonical r hr)
      (hc.canonical_upperName.1 (hrootUpper ▸ hrootCanonical)) hname
      (hrootPath ▸ hroot.below r hr hmark)
    rwa [hrootPath] at hnamed
  · exact fun r hr hmark _ => ht.not_below hfree r hr hmark

theorem restoreTrash_spec (hc : c.Lawful Literal) (ht : Consistent c t)
    (hname : Canonical c.slash name) (hfree : t.tree c none (c.pathOf name) = none)
    {trashVersion index : ℕ} (h : t.restoreTrash c trashVersion index name version time = .ok t') :
    Consistent c t' ∧ ∃ kept, (t.abs c).bin (trashVersion, index) = some kept ∧ t'.abs c =
      { tree := graft (c.pathOf name) (relabel ((c.spell name).getLastD []) kept)
          (createAbove c time (c.spell name) (t.tree c none))
        bin := Function.update (t.abs c).bin (trashVersion, index) none } := by
  obtain ⟨x, hx, hsteps⟩ := checkRv_bind_eq_ok_iff.1 h
  obtain ⟨root, hrootRow, hsteps⟩ := checkRv_bind_eq_ok_iff.1 hsteps
  obtain ⟨names, hnames, hsteps⟩ := checkRv_bind_eq_ok_iff.1 hsteps
  obtain ⟨u, hu, hsteps⟩ := bind_eq_ok_iff.1 hsteps
  obtain ⟨v, hv, hsteps⟩ := bind_eq_ok_iff.1 hsteps
  obtain ⟨v', hv', hsteps⟩ := bind_eq_ok_iff.1 hsteps
  obtain ⟨w, hw, hsteps⟩ := bind_eq_ok_iff.1 hsteps
  obtain ⟨w', hw', hsteps⟩ := bind_eq_ok_iff.1 hsteps
  obtain ⟨w'', hw'', hdelete⟩ := bind_eq_ok_iff.1 hsteps
  obtain ⟨hxmem, rfl, rfl⟩ := ht.getTrash_eq_some_iff.1 hx
  obtain ⟨hmade, habove⟩ := createAncestors_spec hc ht hname hnames hu
  have hconsistent := hmade.consistent
  -- the row that the record is found by is still the same one
  obtain ⟨root', hbin⟩ := ht.bins x hxmem
  obtain rfl : root' = root := by
    have := hbin.root_eq ht.names
    rw [hrootRow] at this
    exact (Option.some.inj this).symm
  have hroot := (hmade.sameTrash.record x.id).binConsistent hbin
  have hfree' : u.tree c none (c.pathOf name) = none := by
    rw [hmade.tree_eq, createAbove_of_not_above fun _ => hc.pathOf_eq name, hfree]
  obtain ⟨hwtrash, hrel⟩ := relocation_of_restore hc hconsistent hname hfree' hroot hv hv' hw
  have htree := hrel.tree_eq hconsistent.names (u.tree c none) fun q e => by
    rw [hconsistent.names.tree_eq_some_iff]
    refine exists_congr fun r => and_congr_right fun _ => ⟨fun h => ⟨?_, h⟩, fun h => h.2⟩
    rw [h.1]
    simp
  have hrooted : Rooted Entry.Holds (w.tree c none) := by
    rw [htree]
    exact (rooted_relabel hroot.rooted).graft hconsistent.rooted habove
  have hunmarked : ∀ r ∈ w.component, r.trashId ≠ some x.id := by
    rw [hrel.component]
    refine List.forall_mem_map.2 fun r _ => ?_
    by_cases hmark : r.trashId = some x.id <;> simp [hmark]
  -- the record has no rows any more when it is deleted
  have halike := (alike_of_updateParent hw').trans (alike_of_updateComponentsVersion hw'')
  obtain ⟨-, hdelete⟩ := ite_error_eq_ok_iff.1 hdelete
  rw [deleteComponents_of_forall_not (halike.forall_trashId (P := (· ≠ some x.id)) hunmarked),
    ← halike.trash_eq, hwtrash] at hdelete
  obtain rfl := Except.ok.inj hdelete
  replace halike := halike.withTrash (u.trash.filter fun y => y.id ≠ x.id)
  obtain ⟨htrash, hbinEq⟩ := hconsistent.erase
    { w with trash := u.trash.filter fun y => y.id ≠ x.id }
    (hmade.sameTrash.trash ▸ hxmem) rfl hunmarked fun id hid =>
      (hrel.sameRecord fun h => hid (Option.some.inj h)).withTrash _
  refine ⟨halike.consistent ⟨(hrel.rows hconsistent.toRowsConsistent hrooted).withTrash _, htrash⟩,
    sub (c.rowPath root') (t.tree c (some x.id)), ?_, ?_⟩
  · refine ht.bin_eq_some_iff.2 ⟨x, hxmem, rfl, ?_⟩
    rw [kept, hrootRow, Option.map_some]
  · rw [halike.abs_eq]
    refine Dataset.ext ?_ ?_
    · rw [← (hmade.sameTrash.record x.id).tree_eq, ← hmade.tree_eq]
      exact htree
    · rw [hbinEq, hmade.sameTrash.bin_eq]

end Tables

end PersonalCloud.DatasetDb
