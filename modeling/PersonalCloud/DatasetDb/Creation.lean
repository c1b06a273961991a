import PersonalCloud.DatasetDb.Tree

/-!
# Making components

The operations make the directories above a component before anything else. The code finds them by
the slashes of the name.

## Main results

* `createComponentAncestryList_join` — the names in the list are the beginnings of the path.
* `createDirectories_spec` — when all of them are made the tree has the directories.
* `createComponentsIfMissing_spec` — and then the component.
-/

namespace PersonalCloud.DatasetDb

open PersonalCloud.Lib PersonalCloud.Lib.PathText PersonalCloud.Lib.PathTree

variable {α : Type} [DecidableEq α] {c : Collation α} {ps : List (List α)} {x : List α}

namespace Collation

/-! ## Names by their parts -/

theorem basename_concat (hx : c.slash ∉ x) (a : List α) :
    c.basename (a ++ c.slash :: x) = x ∧ c.dirname (a ++ c.slash :: x) = a := by
  have hall : ∀ b ∈ x.reverse, (b ≠ c.slash : Bool) = true := by
    intro b hb
    refine decide_eq_true ?_
    rintro rfl
    exact hx (List.mem_reverse.1 hb)
  have hrev : (a ++ c.slash :: x).reverse = x.reverse ++ c.slash :: a.reverse := by simp
  constructor
  · rw [basename, hrev, List.takeWhile_append_of_pos hall]
    simp
  · rw [dirname, hrev, List.dropWhile_append_of_pos hall]
    simp

theorem basename_of_notMem (hx : c.slash ∉ x) : c.basename x = x ∧ c.dirname x = [] := by
  have hall : ∀ b ∈ x.reverse, (b ≠ c.slash : Bool) = true := by
    intro b hb
    refine decide_eq_true ?_
    rintro rfl
    exact hx (List.mem_reverse.1 hb)
  constructor
  · rw [basename, List.takeWhile_eq_self_iff.2 hall, List.reverse_reverse]
  · rw [dirname, List.dropWhile_eq_nil_iff.2 hall]
    rfl

theorem basename_join (h : ∀ x ∈ ps, IsPart c.slash x) :
    c.basename (join c.slash ps) = ps.getLastD [] ∧
      c.dirname (join c.slash ps) = join c.slash ps.dropLast := by
  induction ps using List.reverseRecOn with
  | nil => exact ⟨rfl, rfl⟩
  | append_singleton qs x =>
    have hx := (h x (by simp)).2
    obtain rfl | hne := eq_or_ne qs []
    · simpa using basename_of_notMem hx
    · rw [join_append hne (List.cons_ne_nil _ _), join_singleton]
      simpa using basename_concat hx _

theorem spell_join (h : ∀ x ∈ ps, IsPart c.slash x) : c.spell (join c.slash ps) = ps :=
  parts_join h

variable {Literal : α → Prop}

theorem Lawful.pathOf_eq (hc : c.Lawful Literal) (name : List α) :
    c.pathOf name = (c.spell name).map c.upperName :=
  parts_map hc.upper_slash name

theorem Lawful.pathOf_join (hc : c.Lawful Literal) (h : ∀ x ∈ ps, IsPart c.slash x) :
    c.pathOf (join c.slash ps) = ps.map c.upperName := by
  rw [hc.pathOf_eq, spell_join h]

theorem Lawful.canonical_upperName (hc : c.Lawful Literal) {name : List α} :
    Canonical c.slash (c.upperName name) ↔ Canonical c.slash name :=
  canonical_map hc.upper_slash

/-! ## The list of the directories above -/

/-- What stands before each of the slashes. -/
def beforeSlashes (c : Collation α) (name : List α) : List (List α) :=
  ((List.range name.length).filter fun i => name[i]? = some c.slash).map fun pos => name.take pos

theorem beforeSlashes_of_notMem (hx : c.slash ∉ x) : c.beforeSlashes x = [] := by
  rw [beforeSlashes, List.map_eq_nil_iff, List.filter_eq_nil_iff]
  intro i _ hi
  exact hx (List.mem_of_getElem? (of_decide_eq_true hi))

theorem beforeSlashes_concat (hx : c.slash ∉ x) (a : List α) :
    c.beforeSlashes (a ++ c.slash :: x) = c.beforeSlashes a ++ [a] := by
  have hrange : List.range (a ++ c.slash :: x).length =
      List.range a.length ++ a.length :: (List.range x.length).map fun i => a.length + 1 + i := by
    rw [List.length_append, List.length_cons, List.range_add, List.range_succ_eq_map,
      List.map_cons, List.map_map, Nat.add_zero]
    refine congrArg (fun l => _ ++ a.length :: l) (List.map_congr_left fun i _ => ?_)
    simp only [Function.comp_apply]
    omega
  have hleft : (List.range a.length).filter (fun i => (a ++ c.slash :: x)[i]? = some c.slash) =
      (List.range a.length).filter fun i => a[i]? = some c.slash := by
    refine List.filter_congr fun i hi => ?_
    rw [List.getElem?_append_left (List.mem_range.1 hi)]
  have hright : ((List.range x.length).map fun i => a.length + 1 + i).filter
      (fun i => (a ++ c.slash :: x)[i]? = some c.slash) = [] := by
    rw [List.filter_eq_nil_iff]
    intro j hj hslash
    obtain ⟨i, -, rfl⟩ := List.mem_map.1 hj
    have hi := of_decide_eq_true hslash
    rw [List.getElem?_append_right (by omega),
      show a.length + 1 + i - a.length = i + 1 by omega, List.getElem?_cons_succ] at hi
    exact hx (List.mem_of_getElem? hi)
  rw [beforeSlashes, hrange, List.filter_append, hleft, List.filter_cons_of_pos (by simp), hright,
    List.map_append, List.map_singleton, List.take_left]
  refine congrArg (· ++ [a]) (List.map_congr_left fun i hi => ?_)
  exact List.take_append_of_le_length (List.mem_range.1 (List.mem_filter.1 hi).1).le

end Collation

/-! ## The beginnings of a path -/

section Beginnings

variable {σ : Type*}

theorem inits_concat_dropLast (qs : List σ) (x : σ) :
    (qs ++ [x]).inits.dropLast = qs.inits.dropLast ++ [qs] := by
  have hlast : ∀ l : List σ, l.inits = l.inits.dropLast ++ [l] := by
    intro l
    induction l using List.reverseRecOn with
    | nil => rfl
    | append_singleton l y _ => simp [List.inits_append]
  rw [← hlast]
  simp [List.inits_append]

theorem mem_inits_dropLast {ps qs : List σ} :
    qs ∈ ps.inits.dropLast ↔ qs <+: ps ∧ qs ≠ ps := by
  induction ps using List.reverseRecOn with
  | nil =>
    refine iff_of_false (by simp) ?_
    rintro ⟨h, hne⟩
    exact hne (List.prefix_nil.1 h)
  | append_singleton ps x ih =>
    have hlen : ∀ qs, qs <+: ps → qs ≠ ps ++ [x] := by
      rintro qs h rfl
      simpa using h.length_le
    rw [inits_concat_dropLast, List.mem_append, List.mem_singleton, ih, List.prefix_concat_iff]
    constructor
    · rintro (⟨h, -⟩ | rfl)
      · exact ⟨.inr h, hlen _ h⟩
      · exact ⟨.inr List.prefix_rfl, hlen _ List.prefix_rfl⟩
    · rintro ⟨h | h, hne⟩
      · exact absurd h hne
      · by_cases heq : qs = ps
        · exact .inr heq
        · exact .inl ⟨h, heq⟩

end Beginnings

theorem beforeSlashes_join (hne : ps ≠ []) (h : ∀ x ∈ ps, IsPart c.slash x) :
    [] :: c.beforeSlashes (join c.slash ps) = ps.inits.dropLast.map (join c.slash) := by
  induction ps using List.reverseRecOn with
  | nil => exact absurd rfl hne
  | append_singleton qs x ih =>
    have hx := (h x (by simp)).2
    rw [inits_concat_dropLast, List.map_append, List.map_singleton]
    obtain rfl | hqs := eq_or_ne qs []
    · rw [List.nil_append, join_singleton, Collation.beforeSlashes_of_notMem hx]
      rfl
    · rw [join_append hqs (List.cons_ne_nil _ _), join_singleton,
        Collation.beforeSlashes_concat hx, ← List.cons_append,
        ih hqs fun y hy => h y (List.mem_append_left _ hy)]

namespace Tables

/-- The list has the directories on the way, and the component behind them. -/
theorem createComponentAncestryList_join (h : ∀ x ∈ ps, IsPart c.slash x)
    {included : Option ComponentType} {names : List (List α × ComponentType)}
    (hnames : createComponentAncestryList c (join c.slash ps) included = some names) :
    names = ps.inits.dropLast.map (fun q => (join c.slash q, .directory)) ++
      (included.map fun type => (join c.slash ps, type)).toList := by
  by_cases hroot : join c.slash ps = [] ∧ included = some .file
  · rw [createComponentAncestryList, if_pos hroot] at hnames
    cases hnames
  rw [createComponentAncestryList, if_neg hroot] at hnames
  obtain rfl := Option.some.inj hnames
  refine congrArg (· ++ _) ?_
  obtain rfl | hne := eq_or_ne ps []
  · rfl
  · have hjoin : join c.slash ps ≠ [] := by
      intro hnil
      have := parts_join h
      rw [hnil, parts_nil] at this
      exact hne this.symm
    have hlist := congrArg (List.map fun name => (name, ComponentType.directory))
      (beforeSlashes_join hne h)
    rw [if_neg hjoin]
    simpa [Collation.beforeSlashes, Function.comp_def] using hlist

/-! ## New rows -/

variable {t t' : Tables α} {name : List α} {version time : ℕ} {type : ComponentType}

theorem lt_newRowid {ids : List ℕ} {id : ℕ} (h : id ∈ ids) : id < newRowid ids := by
  unfold newRowid
  induction ids with
  | nil => cases h
  | cons i ids ih =>
    rw [List.foldr_cons]
    cases h with
    | head => omega
    | tail _ h =>
      have := ih h
      omega

theorem SameRecord.trans {t'' : Tables α} {id : ℕ} (h : SameRecord c t t' id)
    (h' : SameRecord c t' t'' id) : SameRecord c t t'' id where
  marked := h'.marked.trans h.marked
  entry r hr hmark :=
    (h'.entry r ((h.mem_iff hmark).2 hr) hmark).trans (h.entry r hr hmark)

theorem SameTrash.trans {t'' : Tables α} (h : SameTrash c t t') (h' : SameTrash c t' t'') :
    SameTrash c t t'' :=
  ⟨h'.trash.trans h.trash, fun id => (h.record id).trans (h'.record id)⟩

/-- The tables after something outside the trash was changed, and how the tree looks then. -/
structure Changes (c : Collation α) (t t' : Tables α) (tree : ComponentTree α) : Prop where
  consistent : Consistent c t'
  sameTrash : SameTrash c t t'
  tree_eq : t'.tree c none = tree

theorem Changes.abs_eq {tree : ComponentTree α} (h : Changes c t t' tree) :
    t'.abs c = { t.abs c with tree := tree } :=
  Dataset.ext h.tree_eq h.sameTrash.bin_eq

theorem Changes.refl (ht : Consistent c t) : Changes c t t (t.tree c none) :=
  ⟨ht, ⟨rfl, fun _ => ⟨rfl, fun _ _ _ => rfl⟩⟩, rfl⟩

theorem Changes.trans {t'' : Tables α} {tree tree' : ComponentTree α} (h : Changes c t t' tree)
    (h' : Changes c t' t'' tree') : Changes c t t'' tree' :=
  ⟨h'.consistent, h.sameTrash.trans h'.sameTrash, h'.tree_eq⟩

/-- An update of one row outside the trash that is about version and modification time only. -/
theorem Changes.updateByName {t'' : Tables α} {tree : ComponentTree α} (h : Changes c t t' tree)
    {f : ComponentRow α → ComponentRow α} (hf : ∀ r, (f r).core = r.core)
    (h' : t'.updateComponentByName c name f = .ok t'') : Changes c t t'' tree := by
  have halike := alike_of_updateComponentByName hf h'
  refine h.trans ⟨halike.consistent h.consistent, ?_, ?_⟩
  · obtain ⟨-, rfl⟩ := updateComponentByName_eq_ok_iff.1 h'
    refine ⟨rfl, fun id => ⟨?_, fun r _ _ => rfl⟩⟩
    refine Table.filter_update fun r _ hr => ?_
    have htrash : (f r).core.trashId = r.core.trashId := by rw [hf]
    simp [show (f r).trashId = r.trashId from htrash, hr.2]
  · rw [← h.tree_eq]
    exact congrArg Dataset.tree halike.abs_eq

theorem Changes.updateParent {t'' : Tables α} {tree : ComponentTree α} (h : Changes c t t' tree)
    (h' : t'.updateComponentParentLastModifyTime c name time = .ok t'') :
    Changes c t t'' tree := by
  unfold updateComponentParentLastModifyTime at h'
  split_ifs at h'
  · obtain rfl := Except.ok.inj h'
    exact h
  · exact h.updateByName (f := fun r => { r with mtime := time }) (fun _ => rfl) h'

theorem Changes.updateVersions {t'' : Tables α} {tree : ComponentTree α} (h : Changes c t t' tree)
    {names : List (List α × ComponentType)}
    (h' : t'.updateComponentsVersion c names version = .ok t'') : Changes c t t'' tree := by
  induction names generalizing t' with
  | nil =>
    obtain rfl := Except.ok.inj h'
    exact h
  | cons x names ih =>
    obtain ⟨u, hu, h'⟩ := bind_eq_ok_iff.1 h'
    have hcore : ∀ r : ComponentRow α, { r with version := version }.core = r.core := fun _ => rfl
    exact ih (h.updateByName hcore hu) h'

/-! ## Making one component -/

variable {Literal : α → Prop}

theorem createComponent_spec (version time : ℕ) (type : ComponentType) (hc : c.Lawful Literal)
    (ht : Consistent c t) (hname : Canonical c.slash name)
    (hfree : t.tree c none (c.pathOf name) = none)
    (habove : ∀ q a, c.pathOf name = q ++ [a] → ∃ e, t.tree c none q = some e ∧ e.Holds) :
    Changes c t (t.createComponent c name version time type)
      (ComponentTree.create c time type (c.spell name) (t.tree c none)) := by
  have hupper := hc.canonical_upperName.2 hname
  -- what the tables look like with the new row
  set id := newRowid (t.component.map (·.id)) with hid
  set r : ComponentRow α := ⟨id, name, c.upperName name, 0, time, time, none, type, version⟩
  set t' := t.createComponent c name version time type with ht'
  have hcomp : t'.component = t.component ++ [r] := rfl
  have hidlt : ∀ s ∈ t.component, s.id < id := fun s hs =>
    lt_newRowid (List.mem_map_of_mem hs)
  have hfresh : ∀ s ∈ t.component, s.trashId = none → c.rowPath s ≠ c.pathOf name :=
    tree_eq_none_iff.1 hfree
  have hnames : NamesConsistent c t'.component := by
    rw [hcomp]
    refine ht.names.append ⟨?_, ?_, ?_, ?_⟩ ?_ ?_
    · simp [r]
    · simpa [r] using hupper
    · simp
    · simp
    · intro s hs r' hr'
      rw [List.mem_singleton.1 hr']
      exact (hidlt s hs).ne
    · intro s hs r' hr' hmark hsname
      rw [List.mem_singleton.1 hr'] at hmark hsname
      exact hfresh s hs hmark (congrArg (parts c.slash) hsname)
  have hentry : t'.entry c r = .new ((c.spell name).getLastD []) type time := by
    have hmeta : t'.metadataOf id = fun _ => none := by
      funext k
      rw [metadataOf, Option.map_eq_none_iff, List.find?_eq_none]
      intro m hm hsel
      obtain ⟨s, hs, hsid⟩ := ht.owned m hm
      have hmid := (of_decide_eq_true hsel).1
      exact (hidlt s hs).ne (hsid.trans hmid)
    have hleaf : c.basename name = (c.spell name).getLastD [] := by
      conv_lhs => rw [← hname.join_parts]
      exact (Collation.basename_join fun x hx => isPart_of_mem hx).1
    rw [entry, Entry.new, hmeta, hleaf]
    rfl
  have htree : t'.tree c none =
      ComponentTree.create c time type (c.spell name) (t.tree c none) := by
    funext p
    rw [ComponentTree.create, ← hc.pathOf_eq]
    refine Option.ext fun e => ?_
    rw [hnames.tree_eq_some_iff]
    by_cases hp : p = c.pathOf name
    · rw [hp, ensure_self, hfree, Option.getD_none, Option.some_inj]
      constructor
      · rintro ⟨s, hs, hmark, hpath, rfl⟩
        obtain hs | hs := List.mem_append.1 (hcomp ▸ hs)
        · exact absurd hpath (hfresh s hs hmark)
        · rw [List.mem_singleton.1 hs, hentry]
      · rintro rfl
        exact ⟨r, by simp [hcomp], rfl, rfl, hentry⟩
    · rw [ensure_of_ne hp, ht.names.tree_eq_some_iff]
      refine exists_congr fun s => ?_
      rw [hcomp, List.mem_append, List.mem_singleton]
      constructor
      · rintro ⟨hs | rfl, hmark, hpath, he⟩
        · exact ⟨hs, hmark, hpath, he⟩
        · exact absurd hpath.symm hp
      · rintro ⟨hs, hmark, hpath, he⟩
        exact ⟨.inl hs, hmark, hpath, he⟩
  have hsame : SameTrash c t t' := by
    refine ⟨rfl, fun i => ⟨?_, fun _ _ _ => rfl⟩⟩
    rw [marked, hcomp, List.filter_append, marked]
    simp [r]
  refine ⟨⟨⟨hnames, ?_, ht.metadata, ht.contentIds, ht.contentPos, ?_, ?_⟩,
    ht.of_sameTrash hsame⟩, hsame, htree⟩
  · intro m hm
    obtain ⟨s, hs, hsid⟩ := ht.owned m hm
    exact ⟨s, List.mem_append_left _ hs, hsid⟩
  · intro s hs hcontent
    obtain hs | hs := List.mem_append.1 (hcomp ▸ hs)
    · exact ht.contents s hs hcontent
    · rw [List.mem_singleton.1 hs] at hcontent
      exact absurd rfl hcontent
  · rw [htree]
    refine ht.rooted.ensure fun q a hq => habove q a ?_
    rw [hc.pathOf_eq]
    exact hq

theorem createComponentIfMissing_spec (hc : c.Lawful Literal) (ht : Consistent c t)
    (hname : Canonical c.slash name)
    (habove : ∀ q a, c.pathOf name = q ++ [a] → ∃ e, t.tree c none q = some e ∧ e.Holds)
    (h : t.createComponentIfMissing c name version time type = .ok t') :
    Changes c t t' (ComponentTree.create c time type (c.spell name) (t.tree c none)) ∧
      ∃ e, t'.tree c none (c.pathOf name) = some e ∧ e.type = type := by
  have hupper := hc.canonical_upperName.2 hname
  unfold createComponentIfMissing at h
  cases hr : t.getComponentByName c name with
  | some r =>
    rw [hr] at h
    obtain ⟨hmem, hmark, hpath⟩ := ht.names.mem_of_getComponentByName hupper hr
    have hthere := ht.names.tree_eq_some_iff.2 ⟨r, hmem, hmark, hpath, rfl⟩
    by_cases htype : r.type = type
    · obtain rfl : t = t' := by simpa [htype] using h
      refine ⟨?_, t.entry c r, hthere, htype⟩
      have hsame : ComponentTree.create c time type (c.spell name) (t.tree c none) =
          t.tree c none := by
        rw [ComponentTree.create, ← hc.pathOf_eq, ensure, if_neg (by simp [hthere])]
      rw [hsame]
      exact .refl ht
    · simp [htype] at h
  | none =>
    rw [hr] at h
    have hfree := (ht.names.getComponentByName_eq_none_iff hupper).1 hr
    have hmade := createComponent_spec version time type hc ht hname hfree habove
    have hchanges := hmade.updateParent h
    refine ⟨hchanges, .new ((c.spell name).getLastD []) type time, ?_, rfl⟩
    rw [hchanges.tree_eq, ComponentTree.create, ← hc.pathOf_eq, ensure_self, hfree]
    rfl

/-! ## Making the directories above -/

theorem createAbove_concat (time : ℕ) (qs : List (List α)) (x : List α) (s : ComponentTree α) :
    ComponentTree.createAbove c time (qs ++ [x]) s =
      ComponentTree.create c time .directory qs (ComponentTree.createAbove c time qs s) := by
  rw [ComponentTree.createAbove, inits_concat_dropLast, List.foldl_append]
  rfl

/-- All directories above a path are made, and then the path may have something. -/
theorem createDirectories_spec (hc : c.Lawful Literal) (ht : Consistent c t)
    (hps : ∀ x ∈ ps, IsPart c.slash x)
    (h : t.createComponentsIfMissing c
      (ps.inits.dropLast.map fun q => (join c.slash q, .directory)) version time = .ok t') :
    Changes c t t' (ComponentTree.createAbove c time ps (t.tree c none)) ∧
      ∀ q a, ps.map c.upperName = q ++ [a] → ∃ e, t'.tree c none q = some e ∧ e.Holds := by
  induction ps using List.reverseRecOn generalizing t' with
  | nil =>
    obtain rfl := Except.ok.inj h
    exact ⟨.refl ht, by simp⟩
  | append_singleton qs x ih =>
    have hqs : ∀ y ∈ qs, IsPart c.slash y := fun y hy => hps y (List.mem_append_left _ hy)
    rw [inits_concat_dropLast, List.map_append, createComponentsIfMissing,
      List.foldlM_append] at h
    obtain ⟨u, hu, h⟩ := bind_eq_ok_iff.1 h
    obtain ⟨hchanges, habove⟩ := ih hqs hu
    replace h : u.createComponentIfMissing c (join c.slash qs) version time .directory =
        .ok t' := by
      simpa using h
    have hspell := Collation.spell_join hqs
    have hpath := hc.pathOf_join hqs
    obtain ⟨hmade, e, he, htype⟩ := createComponentIfMissing_spec hc hchanges.consistent
      (canonical_join hqs) (by rwa [hpath]) h
    rw [hspell, hchanges.tree_eq, ← createAbove_concat (x := x)] at hmade
    refine ⟨hchanges.trans hmade, ?_⟩
    intro q a hq
    obtain ⟨rfl, -⟩ : qs.map c.upperName = q ∧ c.upperName x = a := by simpa using hq
    exact ⟨e, by rwa [← hpath], htype⟩

theorem createAncestors_spec (hc : c.Lawful Literal) (ht : Consistent c t)
    (hname : Canonical c.slash name) {names : List (List α × ComponentType)}
    (hnames : createComponentAncestryList c name none = some names)
    (h : t.createComponentsIfMissing c names version time = .ok t') :
    Changes c t t' (ComponentTree.createAbove c time (c.spell name) (t.tree c none)) ∧
      ∀ q a, c.pathOf name = q ++ [a] → ∃ e, t'.tree c none q = some e ∧ e.Holds := by
  have hparts : ∀ x ∈ c.spell name, IsPart c.slash x := fun x hx => isPart_of_mem hx
  rw [← hname.join_parts] at hnames
  have hlist := createComponentAncestryList_join hparts hnames
  rw [Option.map_none, Option.toList_none, List.append_nil] at hlist
  rw [hc.pathOf_eq]
  exact createDirectories_spec hc ht hparts (hlist ▸ h)

theorem createComponentsIfMissing_spec (hc : c.Lawful Literal) (ht : Consistent c t)
    (hname : Canonical c.slash name) {names : List (List α × ComponentType)}
    (hnames : createComponentAncestryList c name (some type) = some names)
    (h : t.createComponentsIfMissing c names version time = .ok t') :
    Changes c t t' (ComponentTree.create c time type (c.spell name)
        (ComponentTree.createAbove c time (c.spell name) (t.tree c none))) ∧
      ∃ e, t'.tree c none (c.pathOf name) = some e ∧ e.type = type := by
  have hparts : ∀ x ∈ c.spell name, IsPart c.slash x := fun x hx => isPart_of_mem hx
  rw [← hname.join_parts] at hnames
  have hlist := createComponentAncestryList_join hparts hnames
  change names = _ ++ [(join c.slash (parts c.slash name), type)] at hlist
  rw [hname.join_parts] at hlist
  rw [hlist, createComponentsIfMissing, List.foldlM_append] at h
  obtain ⟨u, hu, h⟩ := bind_eq_ok_iff.1 h
  obtain ⟨hchanges, habove⟩ := createDirectories_spec hc ht hparts hu
  replace h : u.createComponentIfMissing c name version time type = .ok t' := by
    simpa using h
  rw [← hc.pathOf_eq] at habove
  obtain ⟨hmade, hthere⟩ := createComponentIfMissing_spec hc hchanges.consistent hname habove h
  rw [hchanges.tree_eq] at hmade
  exact ⟨hchanges.trans hmade, hthere⟩

/-! ## The operations -/

theorem testAndCreateComponent_spec (hc : c.Lawful Literal) (ht : Consistent c t)
    (hname : Canonical c.slash name)
    (h : t.testAndCreateComponent c name type version time = .ok t') :
    Changes c t t' (if t.tree c none (c.pathOf name) = none then
        ComponentTree.create c time type (c.spell name)
          (ComponentTree.createAbove c time (c.spell name) (t.tree c none))
      else t.tree c none) := by
  have hiff := ht.names.getComponentByName_eq_none_iff (hc.canonical_upperName.2 hname)
  unfold testAndCreateComponent at h
  cases hr : t.getComponentByName c name with
  | some r =>
    rw [hr] at h
    rw [if_neg fun hnone => by simp [hiff.2 hnone] at hr]
    obtain ⟨-, h⟩ := ite_error_eq_ok_iff.1 h
    rw [← Except.ok.inj h]
    exact .refl ht
  | none =>
    rw [hr] at h
    rw [if_pos (hiff.1 hr)]
    obtain ⟨names, hnames, hsteps⟩ := checkRv_bind_eq_ok_iff.1 h
    obtain ⟨u, hu, hversions⟩ := bind_eq_ok_iff.1 hsteps
    exact (createComponentsIfMissing_spec hc ht hname hnames hu).1.updateVersions hversions

theorem setComponentVersion_spec (hc : c.Lawful Literal) (ht : Consistent c t)
    (hname : Canonical c.slash name)
    (h : t.setComponentVersion c name version time type = .ok t') :
    Changes c t t' (ComponentTree.create c time type (c.spell name)
      (ComponentTree.createAbove c time (c.spell name) (t.tree c none))) := by
  obtain ⟨names, hnames, hsteps⟩ := checkRv_bind_eq_ok_iff.1 h
  obtain ⟨u, hu, hsteps⟩ := bind_eq_ok_iff.1 hsteps
  obtain ⟨v, hv, hversions⟩ := bind_eq_ok_iff.1 hsteps
  have hmade := (createComponentsIfMissing_spec hc ht hname hnames hu).1
  have htimed := hmade.updateByName (f := fun r => { r with mtime := time }) (fun _ => rfl) hv
  exact htimed.updateVersions hversions

end Tables

end PersonalCloud.DatasetDb
