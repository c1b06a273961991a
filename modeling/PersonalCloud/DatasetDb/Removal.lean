import PersonalCloud.DatasetDb.Selection

/-!
# Removing components

A component is removed with all that is below it. Its rows are deleted, or marked with the id of
the trash record that they are found by.

## Main results

* `deleteComponent_spec`, `trashComponent_spec` — nothing is at or below the path any more, and
  all else is as before.
* `deleteTrash_spec` — the rows of a trash record go with it.
-/

namespace PersonalCloud.DatasetDb

open PersonalCloud.Lib PersonalCloud.Lib.PathText PersonalCloud.Lib.PathTree

variable {α : Type} [DecidableEq α] {c : Collation α} {Literal : α → Prop}
  {t t' : Tables α} {name : List α} {version index time : ℕ}

namespace Tables

/-! ## Rows that are deleted -/

section Deletion

variable {p : ComponentRow α → Prop} [DecidablePred p] {r : ComponentRow α} {mark : Option ℕ}
  {path : List (List α)} {e : Entry α}

theorem entry_deleteComponents (h : NamesConsistent c t.component) (hr : r ∈ t.component)
    (hp : ¬p r) : (t.deleteComponents p).entry c r = t.entry c r := by
  have hmetadata : (t.deleteComponents p).metadataOf r.id = t.metadataOf r.id := by
    funext k
    unfold metadataOf deleteComponents
    rw [List.find?_filter]
    congr 2
    funext m
    have hkeep : m.componentId = r.id ∧ m.type = k →
        ¬∃ r' ∈ t.component, p r' ∧ m.componentId = r'.id := by
      rintro ⟨hm, -⟩ ⟨r', hr', hp', hid⟩
      rw [h.eq_of_id hr hr' (hm.symm.trans hid)] at hp
      exact hp hp'
    simpa using hkeep
  rw [entry, entry, hmetadata]
  rfl

theorem tree_deleteComponents_eq_some_iff (h : NamesConsistent c t.component) :
    (t.deleteComponents p).tree c mark path = some e ↔
      ∃ r ∈ t.component, ¬p r ∧ r.trashId = mark ∧ c.rowPath r = path ∧ t.entry c r = e := by
  rw [(h.filter _).tree_eq_some_iff]
  constructor
  · rintro ⟨r, hr, hmark, hpath, rfl⟩
    obtain ⟨hr, hp⟩ := Table.mem_delete.1 hr
    exact ⟨r, hr, hp, hmark, hpath, (entry_deleteComponents h hr hp).symm⟩
  · rintro ⟨r, hr, hp, hmark, hpath, rfl⟩
    exact ⟨r, Table.mem_delete.2 ⟨hr, hp⟩, hmark, hpath, entry_deleteComponents h hr hp⟩

theorem sameRecord_deleteComponents (h : NamesConsistent c t.component) {id : ℕ}
    (hp : ∀ r ∈ t.component, r.trashId = some id → ¬p r) :
    SameRecord c t (t.deleteComponents p) id where
  marked := by
    unfold marked deleteComponents Table.delete
    rw [List.filter_filter]
    refine List.filter_congr fun r hr => ?_
    by_cases hmark : r.trashId = some id
    · simp [hmark, hp r hr hmark]
    · simp [hmark]
  entry r hr hmark := entry_deleteComponents h hr (hp r hr hmark)

theorem RowsConsistent.deleteComponents (h : RowsConsistent c t)
    (rooted : Rooted Entry.Holds ((t.deleteComponents p).tree c none)) :
    RowsConsistent c (t.deleteComponents p) where
  names := h.names.filter _
  owned := by
    intro m hm
    obtain ⟨hm, hkeep⟩ := List.mem_filter.1 hm
    obtain ⟨r, hr, hrid⟩ := h.owned m hm
    refine ⟨r, Table.mem_delete.2 ⟨hr, fun hp => ?_⟩, hrid⟩
    exact of_decide_eq_true hkeep ⟨r, hr, hp, hrid.symm⟩
  metadata := h.metadata.sublist (List.filter_sublist.map _)
  contentIds := h.contentIds
  contentPos := h.contentPos
  contents r hr := h.contents r (List.mem_of_mem_filter hr)
  rooted := rooted

omit [DecidableEq α] in
theorem deleteComponents_of_forall_not (h : ∀ r ∈ t.component, ¬p r) :
    t.deleteComponents p = t := by
  have hcomp : Table.delete p t.component = t.component :=
    List.filter_eq_self.2 fun r hr => decide_eq_true (h r hr)
  have hmetadata : (t.metadata.filter fun m => ¬∃ r ∈ t.component, p r ∧ m.componentId = r.id) =
      t.metadata := by
    refine List.filter_eq_self.2 fun m _ => decide_eq_true ?_
    rintro ⟨r, hr, hp, -⟩
    exact h r hr hp
  rw [deleteComponents, hcomp, hmetadata]

end Deletion

/-- What is left when a subtree is removed are the rows that a statement does not select. -/
theorem NamesConsistent.prune_eq_some_iff (h : NamesConsistent c t.component)
    {p : ComponentRow α → Prop} {path q : List (List α)} {e : Entry α}
    (hp : ∀ r ∈ t.component, p r ↔ r.trashId = none ∧ path <+: c.rowPath r) :
    prune path (t.tree c none) q = some e ↔
      ∃ r ∈ t.component, ¬p r ∧ r.trashId = none ∧ c.rowPath r = q ∧ t.entry c r = e := by
  by_cases hq : path <+: q
  · rw [prune, if_pos hq]
    refine iff_of_false (by simp) ?_
    rintro ⟨r, hr, hnot, hmark, rfl, -⟩
    exact hnot ((hp r hr).2 ⟨hmark, hq⟩)
  · rw [prune_of_not_below hq, h.tree_eq_some_iff]
    refine exists_congr fun r => and_congr_right fun hr => ?_
    rw [hp r hr]
    constructor
    · rintro ⟨hmark, rfl, he⟩
      exact ⟨fun h => hq h.2, hmark, rfl, he⟩
    · exact fun h => h.2

theorem deleteComponent_spec (hc : c.Lawful Literal) (ht : Consistent c t)
    (hname : Canonical c.slash name) (hlit : ∀ a ∈ name, Literal a)
    (h : t.deleteComponent c name version time = .ok t') :
    Changes c t t' (prune (c.pathOf name) (t.tree c none)) := by
  obtain ⟨names, -, hdelete⟩ := checkRv_bind_eq_ok_iff.1 h
  obtain ⟨u, hu, hparent⟩ := bind_eq_ok_iff.1 hdelete
  obtain ⟨v, hv, hversions⟩ := bind_eq_ok_iff.1 hparent
  unfold deleteComponentByName at hu
  split_ifs at hu with hfound
  obtain rfl := Except.ok.inj hu
  have hsel : ∀ r ∈ t.component, c.SelectsForRemoval name r ↔
      r.trashId = none ∧ c.pathOf name <+: c.rowPath r := fun r hr =>
    hc.selectsForRemoval_iff hname hlit (ht.names.canonical r hr)
  have htree : (t.deleteComponents (c.SelectsForRemoval name)).tree c none =
      prune (c.pathOf name) (t.tree c none) := by
    funext p
    refine Option.ext fun e => ?_
    rw [tree_deleteComponents_eq_some_iff ht.names, ht.names.prune_eq_some_iff hsel]
  have hsame : SameTrash c t (t.deleteComponents (c.SelectsForRemoval name)) := by
    refine ⟨rfl, fun id => sameRecord_deleteComponents ht.names fun r hr hmark => ?_⟩
    rw [hsel r hr, hmark]
    simp
  have hchanges : Changes c t (t.deleteComponents (c.SelectsForRemoval name))
      (prune (c.pathOf name) (t.tree c none)) :=
    ⟨⟨ht.toRowsConsistent.deleteComponents (htree ▸ ht.rooted.prune _),
      ht.of_sameTrash hsame⟩, hsame, htree⟩
  exact (hchanges.updateParent hv).updateVersions hversions

/-! ## The trash -/

theorem deleteTrash_spec (ht : Consistent c t) (h : t.deleteTrash version index = .ok t') :
    Consistent c t' ∧
      t'.abs c = { t.abs c with bin := Function.update (t.abs c).bin (version, index) none } := by
  obtain ⟨x, hx, hdelete⟩ := checkRv_bind_eq_ok_iff.1 h
  obtain ⟨hxmem, rfl, rfl⟩ := ht.getTrash_eq_some_iff.1 hx
  unfold deleteTrashById at hdelete
  split_ifs at hdelete with hfound
  obtain rfl := Except.ok.inj hdelete
  have htree : (t.deleteComponents fun r => r.trashId = some x.id).tree c none =
      t.tree c none := by
    funext p
    refine Option.ext fun e => ?_
    rw [tree_deleteComponents_eq_some_iff ht.names, ht.names.tree_eq_some_iff]
    refine exists_congr fun r => and_congr_right fun hr => ?_
    constructor
    · exact fun h => h.2
    · rintro ⟨hmark, hpath, he⟩
      exact ⟨by simp [hmark], hmark, hpath, he⟩
  have hrows : RowsConsistent c (t.deleteComponents fun r => r.trashId = some x.id) :=
    ht.toRowsConsistent.deleteComponents (htree ▸ ht.rooted)
  have hother : ∀ id, id ≠ x.id →
      SameRecord c t (t.deleteComponents fun r => r.trashId = some x.id) id := fun id hid =>
    sameRecord_deleteComponents ht.names fun r _ hmark hmark' =>
      hid (Option.some.inj (hmark.symm.trans hmark'))
  obtain ⟨htrash, hbin⟩ := ht.erase { t.deleteComponents fun r => r.trashId = some x.id with
    trash := t.trash.filter fun y => y.id ≠ x.id } hxmem rfl
    (fun r hr => (Table.mem_delete.1 hr).2) fun id hid => (hother id hid).withTrash _
  exact ⟨⟨hrows.withTrash _, htrash⟩, Dataset.ext htree hbin⟩

theorem trashed_spec (hc : c.Lawful Literal) (ht : Consistent c t)
    (hname : Canonical c.slash name) (hlit : ∀ a ∈ name, Literal a) {r : ComponentRow α}
    (hr : t.getComponentByName c name = some r) (x : TrashRow)
    (hnew : t.getTrashByVersionIndex x.version x.index = none)
    (hid : x.id = newRowid (t.trash.map (·.id)))
    (h : { t with trash := t.trash ++ [x] }.updateComponentTrashIdByName c name x.id = .ok t') :
    Consistent c t' ∧ t'.abs c =
      { tree := prune (c.pathOf name) (t.tree c none)
        bin := Function.update (t.abs c).bin (x.version, x.index)
          (some (sub (c.pathOf name) (t.tree c none))) } := by
  obtain ⟨-, ht'⟩ := updateComponents_eq_ok h
  have hsel : ∀ r ∈ t.component, c.SelectsForRemoval name r ↔
      r.trashId = none ∧ c.pathOf name <+: c.rowPath r := fun r hr =>
    hc.selectsForRemoval_iff hname hlit (ht.names.canonical r hr)
  set f : ComponentRow α → ComponentRow α := fun r =>
    if c.SelectsForRemoval name r then { r with trashId := some x.id } else r with hf
  have hcomp : t'.component = t.component.map f := by rw [ht']
  have htrash : t'.trash = t.trash ++ [x] := by rw [ht']
  -- the id is new, so that no row is in the trash under it yet
  have hidlt : ∀ y ∈ t.trash, y.id ≠ x.id := fun y hy =>
    (hid ▸ lt_newRowid (List.mem_map_of_mem hy)).ne
  have hunmarked : ∀ r ∈ t.component, r.trashId ≠ some x.id := by
    intro r hr hmark
    obtain ⟨y, hy, hyid⟩ := ht.trashed r hr x.id hmark
    exact hidlt y hy hyid
  have hmarked : ∀ r ∈ t.component, (f r).trashId = some x.id ↔
      r.trashId = none ∧ c.pathOf name <+: c.rowPath r := by
    intro r hr
    rw [← hsel r hr, hf]
    by_cases hs : c.SelectsForRemoval name r
    · simp [hs]
    · simpa [hs] using hunmarked r hr
  have hkept : ∀ r ∈ t.component, ∀ mark, mark ≠ some x.id →
      ((f r).trashId = mark ↔ r.trashId = mark ∧ ¬c.SelectsForRemoval name r) := by
    intro r hr mark hmark
    rw [hf]
    by_cases hs : c.SelectsForRemoval name r
    · simpa [hs] using hmark.symm
    · simp [hs]
  have hsame : ∀ r, (f r).id = r.id ∧ (f r).nameUpper = r.nameUpper ∧ (f r).name = r.name ∧
      (f r).contentId = r.contentId ∧ t'.entry c (f r) = t.entry c r := by
    intro r
    by_cases hs : c.SelectsForRemoval name r <;> simp [hf, hs, ht'] <;> rfl
  have hpath : ∀ r, c.rowPath (f r) = c.rowPath r := fun r =>
    congrArg (parts c.slash) (hsame r).2.1
  have hnames : NamesConsistent c t'.component := by
    rw [hcomp]
    refine ht.names.map (fun r => (hsame r).1) ?_ ?_ ?_
    · intro r hr
      rw [(hsame r).2.1, (hsame r).2.2.1]
      exact ht.names.upper r hr
    · intro r hr
      rw [(hsame r).2.1]
      exact ht.names.canonical r hr
    · intro r hr r' hr' hmark hname
      rw [(hsame r).2.1, (hsame r').2.1] at hname
      refine ht.names.eq_of_path hr hr' ?_ (congrArg (parts c.slash) hname)
      by_cases hx : (f r).trashId = some x.id
      · rw [((hmarked r hr).1 hx).1, ((hmarked r' hr').1 (hmark ▸ hx)).1]
      · rw [((hkept r hr _ hx).1 rfl).1, ((hkept r' hr' _ hx).1 hmark.symm).1]
  have htree : t'.tree c none = prune (c.pathOf name) (t.tree c none) := by
    funext p
    refine Option.ext fun e => ?_
    rw [hnames.tree_map_eq_some_iff hcomp, ht.names.prune_eq_some_iff hsel]
    refine exists_congr fun r => and_congr_right fun hr => ?_
    rw [hkept r hr none (by simp), hpath, (hsame r).2.2.2.2]
    tauto
  have hbelow : sub (c.pathOf name) (t'.tree c (some x.id)) =
      sub (c.pathOf name) (t.tree c none) := by
    funext q
    refine Option.ext fun e => ?_
    rw [sub, sub, hnames.tree_map_eq_some_iff hcomp, ht.names.tree_eq_some_iff]
    refine exists_congr fun r => and_congr_right fun hr => ?_
    rw [hmarked r hr, hpath, (hsame r).2.2.2.2]
    constructor
    · rintro ⟨⟨hmark, -⟩, hpath, he⟩
      exact ⟨hmark, hpath, he⟩
    · rintro ⟨hmark, hpath, he⟩
      exact ⟨⟨hmark, hpath ▸ List.prefix_append _ _⟩, hpath, he⟩
  obtain ⟨hmem, hmark, hrpath⟩ :=
    ht.names.mem_of_getComponentByName (hc.canonical_upperName.2 hname) hr
  have hrootpath : c.rowPath (f r) = c.pathOf name := (hpath r).trans hrpath
  have hroot : t'.BinConsistent c (f r) x.id := by
    refine ⟨hcomp ▸ List.mem_map_of_mem hmem, (hmarked r hmem).2 ⟨hmark, hrpath ▸ List.prefix_rfl⟩,
      ?_, ?_⟩
    · rw [hcomp, hrootpath]
      refine List.forall_mem_map.2 fun s hs hsmark => ?_
      rw [hpath]
      exact ((hmarked s hs).1 hsmark).2
    · rw [hrootpath, hbelow]
      exact ht.rooted.sub _
  have hother : ∀ id, id ≠ x.id → SameRecord c t t' id := by
    intro id hne
    have hne' : some id ≠ some x.id := fun h => hne (Option.some.inj h)
    refine ⟨?_, fun s hs hmark => ?_⟩
    · rw [marked, hcomp]
      refine Table.filter_update fun s hs hsel' => ?_
      have := ((hsel s hs).1 hsel').1
      simp [this, hne.symm]
    · have hnot : ¬c.SelectsForRemoval name s := fun h => by
        simp [((hsel s hs).1 h).1] at hmark
      have := (hsame s).2.2.2.2
      simpa only [hf, if_neg hnot] using this
  have hrows : RowsConsistent c t' :=
    ht.toRowsConsistent.map hcomp (by rw [ht']) (by rw [ht']) (fun r => (hsame r).1)
      (fun r => (hsame r).2.2.2.1) hnames (htree ▸ ht.rooted.prune _)
  obtain ⟨htrash', hbin⟩ := ht.insert hnames hidlt hnew htrash hroot hother
  refine ⟨⟨hrows, htrash'⟩, Dataset.ext htree ?_⟩
  rw [hbin, hrootpath, hbelow]

theorem trashComponent_spec (hc : c.Lawful Literal) (ht : Consistent c t)
    (hname : Canonical c.slash name) (hlit : ∀ a ∈ name, Literal a)
    (h : t.trashComponent c name version index time = .ok t') :
    Consistent c t' ∧ t'.abs c =
      { tree := prune (c.pathOf name) (t.tree c none)
        bin := Function.update (t.abs c).bin (version, index)
          (some (sub (c.pathOf name) (t.tree c none))) } := by
  obtain ⟨r, hr, hsteps⟩ := checkRv_bind_eq_ok_iff.1 h
  obtain ⟨names, -, hsteps⟩ := checkRv_bind_eq_ok_iff.1 hsteps
  obtain ⟨size, -, hsteps⟩ := checkRv_bind_eq_ok_iff.1 hsteps
  obtain ⟨⟨id, u⟩, hcreate, hsteps⟩ := bind_eq_ok_iff.1 hsteps
  obtain ⟨v, hv, hsteps⟩ := bind_eq_ok_iff.1 hsteps
  obtain ⟨w, hw, hversions⟩ := bind_eq_ok_iff.1 hsteps
  obtain ⟨hnew, hcreate⟩ := ite_error_eq_ok_iff.1 hcreate
  obtain ⟨rfl, rfl⟩ := Prod.mk.inj (Except.ok.inj hcreate)
  obtain ⟨hconsistent, habs⟩ := trashed_spec hc ht hname hlit hr
    ⟨newRowid (t.trash.map (·.id)), version, index, time, r.id, size⟩ hnew rfl hv
  have halike := (alike_of_updateParent hw).trans (alike_of_updateComponentsVersion hversions)
  exact ⟨halike.consistent hconsistent, halike.abs_eq.trans habs⟩

end Tables

end PersonalCloud.DatasetDb
