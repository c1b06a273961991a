import PersonalCloud.DatasetDb.Spec

/-!
# The tables as a dataset

What the rows of the tables stand for, and what they have in common in every state.

## Main definitions

* `Tables.abs` — the dataset of the tables.
* `Collation.Lawful` — what is taken for granted of the letters and of GLOB.
* `Tables.Consistent` — the invariant.

## Main results

* `NamesConsistent.tree_eq_some_iff` — the entries of the tree are those of the rows.
* `SameTrash.bin_eq` — what an operation outside the trash has to leave alone.
* `abs_core`, `consistent_core_iff` — versions and modification times make no difference.
-/

namespace PersonalCloud.DatasetDb

open PersonalCloud.Lib PersonalCloud.Lib.PathText PersonalCloud.Lib.PathTree

variable {α : Type} [DecidableEq α]

namespace Collation

/-- `utf8_upper` is idempotent and keeps slashes and stars apart from other letters. Between the
letters that are not special in patterns a pattern with a star at its end is for the texts that
begin with what stands before it. -/
structure Lawful (c : Collation α) (Literal : α → Prop) : Prop where
  upper_upper : ∀ a, c.upper (c.upper a) = c.upper a
  upper_slash : ∀ a, c.upper a = c.slash ↔ a = c.slash
  upper_star : c.upper c.star = c.star
  literal_slash : Literal c.slash
  literal_upper : ∀ a, Literal a → Literal (c.upper a)
  glob_star : ∀ p s, (∀ a ∈ p, Literal a) → (c.glob (p ++ [c.star]) s = true ↔ p <+: s)

def rowPath (c : Collation α) (r : ComponentRow α) : List (List α) :=
  parts c.slash r.nameUpper

end Collation

namespace Tables

section Abstraction

variable (c : Collation α) (t : Tables α)

/-- The path of a content. -/
def contentOf (id : ℕ) : Option (List UInt8) :=
  if id = 0 then none else (t.getContentById id).map fun s => s.path.getD []

def metadataOf (id : ℕ) (type : ℤ) : Option (Option (List UInt8)) :=
  (t.metadata.find? fun m => m.componentId = id ∧ m.type = type).map (·.value)

def entry (r : ComponentRow α) : Entry α where
  leaf := c.basename r.name
  type := r.type
  ctime := r.ctime
  content := t.contentOf r.contentId
  metadata := t.metadataOf r.id

/-- The rows of a trash record, or those that are in none. -/
def marked (mark : Option ℕ) : List (ComponentRow α) :=
  t.component.filter fun r => r.trashId = mark

def tree (mark : Option ℕ) : ComponentTree α :=
  fun p => ((t.marked mark).find? fun r => c.rowPath r = p).map (t.entry c)

/-- What a trash record keeps. -/
def kept (id : ℕ) : Option (ComponentTree α) :=
  (t.getRootComponentByTrashId id).map fun root => sub (c.rowPath root) (t.tree c (some id))

/-- The dataset that the tables stand for. -/
def abs : Dataset α where
  tree := t.tree c none
  bin k := (t.getTrashByVersionIndex k.1 k.2).bind fun x => t.kept c x.id

end Abstraction

/-! ## The invariant -/

/-- What the components of a trash record have in common. -/
structure BinConsistent (c : Collation α) (t : Tables α) (root : ComponentRow α) (id : ℕ) :
    Prop where
  mem : root ∈ t.component
  trashId : root.trashId = some id
  below : ∀ r ∈ t.component, r.trashId = some id → c.rowPath root <+: c.rowPath r
  rooted : Rooted Entry.Holds (sub (c.rowPath root) (t.tree c (some id)))

/-- Names are canonical, and unique as the `UNIQUE` constraint says, but also outside the trash. -/
structure NamesConsistent (c : Collation α) (rows : List (ComponentRow α)) : Prop where
  upper : ∀ r ∈ rows, r.nameUpper = c.upperName r.name
  canonical : ∀ r ∈ rows, Canonical c.slash r.nameUpper
  ids : (rows.map (·.id)).Nodup
  keys : ∀ r ∈ rows, ∀ r' ∈ rows,
    r.trashId = r'.trashId → r.nameUpper = r'.nameUpper → r.id = r'.id

/-- The tables without that of the trash. -/
structure RowsConsistent (c : Collation α) (t : Tables α) : Prop where
  names : NamesConsistent c t.component
  owned : ∀ m ∈ t.metadata, ∃ r ∈ t.component, r.id = m.componentId
  metadata : MetadataUnique t.metadata
  contentIds : (t.content.map (·.id)).Nodup
  contentPos : ∀ s ∈ t.content, 0 < s.id
  contents : ∀ r ∈ t.component, r.contentId ≠ 0 → ∃ s ∈ t.content, s.id = r.contentId
  rooted : Rooted Entry.Holds (t.tree c none)

structure TrashConsistent (c : Collation α) (t : Tables α) : Prop where
  trashIds : (t.trash.map (·.id)).Nodup
  trashKeys : ∀ x ∈ t.trash, ∀ y ∈ t.trash, x.version = y.version → x.index = y.index → x = y
  trashed : ∀ r ∈ t.component, ∀ id, r.trashId = some id → ∃ x ∈ t.trash, x.id = id
  bins : ∀ x ∈ t.trash, ∃ root, t.BinConsistent c root x.id

structure Consistent (c : Collation α) (t : Tables α) : Prop
  extends RowsConsistent c t, TrashConsistent c t

variable {c : Collation α} {t t' : Tables α} {r r' : ComponentRow α} {mark : Option ℕ}
  {p : List (List α)} {e : Entry α} {name : List α}

theorem consistent_empty : Consistent c (empty : Tables α) where
  names := ⟨by simp [empty], by simp [empty], by simp [empty], by simp [empty]⟩
  owned := by simp [empty]
  metadata := by simp [empty, MetadataUnique]
  contentIds := by simp [empty]
  contentPos := by simp [empty]
  contents := by simp [empty]
  trashIds := by simp [empty]
  trashKeys := by simp [empty]
  trashed := by simp [empty]
  rooted := by simp [Rooted, tree, marked, empty]
  bins := by simp [empty]

theorem abs_empty : (empty : Tables α).abs c = Dataset.empty :=
  rfl

omit [DecidableEq α] in
@[simp] theorem mem_marked : r ∈ t.marked mark ↔ r ∈ t.component ∧ r.trashId = mark := by
  simp [marked]

omit [DecidableEq α] in
theorem shortest_spec {rows : List (ComponentRow α)} : (shortest rows = none → rows = []) ∧
    ∀ r, shortest rows = some r →
      r ∈ rows ∧ ∀ r' ∈ rows, r.nameUpper.length ≤ r'.nameUpper.length := by
  induction rows with
  | nil => simp [shortest]
  | cons s rows ih =>
    rw [shortest]
    cases hrest : shortest rows with
    | none => simp [ih.1 hrest]
    | some u =>
      obtain ⟨hmem, hle⟩ := ih.2 u hrest
      by_cases hlt : u.nameUpper.length < s.nameUpper.length
      · simpa [hlt, hmem] using ⟨hlt.le, hle⟩
      · have hle' : ∀ r' ∈ rows, s.nameUpper.length ≤ r'.nameUpper.length := fun r' hr' =>
          (not_lt.1 hlt).trans (hle r' hr')
        simpa [hlt] using hle'

theorem shortest_eq {rows : List (ComponentRow α)} (hr : r ∈ rows)
    (h : ∀ r' ∈ rows, r' ≠ r → r.nameUpper.length < r'.nameUpper.length) :
    shortest rows = some r := by
  cases hs : shortest rows with
  | none => simp [shortest_spec.1 hs] at hr
  | some s =>
    obtain ⟨hmem, hle⟩ := shortest_spec.2 s hs
    by_contra hne
    exact absurd (hle r hr) (not_le.2 (h s hmem fun heq => hne (heq ▸ rfl)))

theorem NamesConsistent.eq_of_id {rows : List (ComponentRow α)} (h : NamesConsistent c rows)
    (hr : r ∈ rows) (hr' : r' ∈ rows) (hid : r.id = r'.id) : r = r' :=
  List.inj_on_of_nodup_map h.ids hr hr' hid

/-- Two rows of one path are the same row. -/
theorem NamesConsistent.eq_of_path {rows : List (ComponentRow α)} (h : NamesConsistent c rows)
    (hr : r ∈ rows) (hr' : r' ∈ rows) (hmark : r.trashId = r'.trashId)
    (hpath : c.rowPath r = c.rowPath r') : r = r' := by
  have hname := ((h.canonical r hr).parts_inj (h.canonical r' hr')).1 hpath
  exact h.eq_of_id hr hr' (h.keys r hr r' hr' hmark hname)

theorem NamesConsistent.tree_eq_some_iff (h : NamesConsistent c t.component) :
    t.tree c mark p = some e ↔
      ∃ r ∈ t.component, r.trashId = mark ∧ c.rowPath r = p ∧ t.entry c r = e := by
  constructor
  · intro hp
    obtain ⟨r, hr, rfl⟩ := Option.map_eq_some_iff.1 hp
    obtain ⟨hmem, hmark⟩ := mem_marked.1 (List.mem_of_find?_eq_some hr)
    exact ⟨r, hmem, hmark, by simpa using List.find?_some hr, rfl⟩
  · rintro ⟨r, hr, rfl, rfl, rfl⟩
    refine Option.map_eq_some_iff.2 ?_
    cases hf : (t.marked r.trashId).find? fun r' => c.rowPath r' = c.rowPath r with
    | none => exact absurd (List.find?_eq_none.1 hf r (mem_marked.2 ⟨hr, rfl⟩)) (by simp)
    | some r' =>
      obtain ⟨hmem, hmark⟩ := mem_marked.1 (List.mem_of_find?_eq_some hf)
      have hpath : c.rowPath r' = c.rowPath r := by simpa using List.find?_some hf
      exact ⟨r', rfl, by rw [h.eq_of_path hmem hr hmark hpath]⟩

theorem entry_congr (hmetadata : t'.metadata = t.metadata) (hcontent : t'.content = t.content)
    (r : ComponentRow α) : t'.entry c r = t.entry c r := by
  obtain ⟨component, metadata, content, trash⟩ := t
  obtain ⟨component', metadata', content', trash'⟩ := t'
  subst hmetadata hcontent
  rfl

theorem tree_eq_none_iff : t.tree c mark p = none ↔
    ∀ r ∈ t.component, r.trashId = mark → c.rowPath r ≠ p := by
  simp [tree]

/-- Where there is no component, there is none below. -/
theorem RowsConsistent.not_below (h : RowsConsistent c t) (hp : t.tree c none p = none) :
    ∀ r ∈ t.component, r.trashId = none → ¬p <+: c.rowPath r := by
  rintro r hr hmark ⟨q, hq⟩
  have hnone := h.rooted.eq_none hp q
  rw [hq] at hnone
  exact tree_eq_none_iff.1 hnone r hr hmark rfl

/-- The rows of a name are those of its path. -/
theorem NamesConsistent.selectsName_iff {rows : List (ComponentRow α)}
    (h : NamesConsistent c rows) (hr : r ∈ rows) (hname : Canonical c.slash (c.upperName name)) :
    c.SelectsName name r ↔ r.trashId = none ∧ c.rowPath r = c.pathOf name := by
  rw [Collation.SelectsName, Collation.rowPath, Collation.pathOf,
    (h.canonical r hr).parts_inj hname, and_comm]

theorem NamesConsistent.getComponentByName_eq_none_iff (h : NamesConsistent c t.component)
    (hname : Canonical c.slash (c.upperName name)) :
    t.getComponentByName c name = none ↔ t.tree c none (c.pathOf name) = none := by
  rw [getComponentByName, List.find?_eq_none, tree_eq_none_iff]
  refine forall₂_congr fun r hr => ?_
  simp only [decide_eq_true_eq, h.selectsName_iff hr hname, not_and]

theorem NamesConsistent.mem_of_getComponentByName (h : NamesConsistent c t.component)
    (hname : Canonical c.slash (c.upperName name)) (hr : t.getComponentByName c name = some r) :
    r ∈ t.component ∧ r.trashId = none ∧ c.rowPath r = c.pathOf name := by
  unfold getComponentByName at hr
  have hmem := List.mem_of_find?_eq_some hr
  exact ⟨hmem, (h.selectsName_iff hmem hname).1 (by simpa using List.find?_some hr)⟩

/-! ## Rows that keep the invariant -/

section Rows

variable {rows new : List (ComponentRow α)} {f : ComponentRow α → ComponentRow α}

theorem NamesConsistent.append (hrows : NamesConsistent c rows) (hnew : NamesConsistent c new)
    (hids : ∀ r ∈ rows, ∀ r' ∈ new, r.id ≠ r'.id)
    (hkeys : ∀ r ∈ rows, ∀ r' ∈ new, r.trashId = r'.trashId → r.nameUpper ≠ r'.nameUpper) :
    NamesConsistent c (rows ++ new) where
  upper := by
    intro r hr
    obtain hr | hr := List.mem_append.1 hr
    · exact hrows.upper r hr
    · exact hnew.upper r hr
  canonical := by
    intro r hr
    obtain hr | hr := List.mem_append.1 hr
    · exact hrows.canonical r hr
    · exact hnew.canonical r hr
  ids := by
    rw [List.map_append, List.nodup_append]
    refine ⟨hrows.ids, hnew.ids, ?_⟩
    intro i hi j hj
    obtain ⟨r, hr, rfl⟩ := List.mem_map.1 hi
    obtain ⟨r', hr', rfl⟩ := List.mem_map.1 hj
    exact hids r hr r' hr'
  keys := by
    intro r hr r' hr' hmark hname
    obtain hr | hr := List.mem_append.1 hr <;> obtain hr' | hr' := List.mem_append.1 hr'
    · exact hrows.keys r hr r' hr' hmark hname
    · exact absurd hname (hkeys r hr r' hr' hmark)
    · exact absurd hname.symm (hkeys r' hr' r hr hmark.symm)
    · exact hnew.keys r hr r' hr' hmark hname

theorem NamesConsistent.filter (h : NamesConsistent c rows) (q : ComponentRow α → Bool) :
    NamesConsistent c (rows.filter q) where
  upper r hr := h.upper r (List.mem_of_mem_filter hr)
  canonical r hr := h.canonical r (List.mem_of_mem_filter hr)
  ids := h.ids.sublist (List.filter_sublist.map _)
  keys r hr r' hr' := h.keys r (List.mem_of_mem_filter hr) r' (List.mem_of_mem_filter hr')

theorem NamesConsistent.map (h : NamesConsistent c rows) (hid : ∀ r, (f r).id = r.id)
    (hupper : ∀ r ∈ rows, (f r).nameUpper = c.upperName (f r).name)
    (hcanonical : ∀ r ∈ rows, Canonical c.slash (f r).nameUpper)
    (hkeys : ∀ r ∈ rows, ∀ r' ∈ rows, (f r).trashId = (f r').trashId →
      (f r).nameUpper = (f r').nameUpper → r = r') : NamesConsistent c (rows.map f) where
  upper := List.forall_mem_map.2 hupper
  canonical := List.forall_mem_map.2 hcanonical
  ids := by simpa [Function.comp_def, hid] using h.ids
  keys := List.forall_mem_map.2 fun r hr => List.forall_mem_map.2 fun r' hr' hmark hname => by
    rw [hkeys r hr r' hr' hmark hname]

theorem NamesConsistent.tree_map_eq_some_iff (hcomp : t'.component = t.component.map f)
    (h' : NamesConsistent c t'.component) : t'.tree c mark p = some e ↔
      ∃ r ∈ t.component, (f r).trashId = mark ∧ c.rowPath (f r) = p ∧ t'.entry c (f r) = e := by
  rw [h'.tree_eq_some_iff, hcomp]
  simp

theorem RowsConsistent.map (h : RowsConsistent c t) (hcomp : t'.component = t.component.map f)
    (hmetadata : t'.metadata = t.metadata) (hcontent : t'.content = t.content)
    (hid : ∀ r, (f r).id = r.id) (hcontentId : ∀ r, (f r).contentId = r.contentId)
    (names : NamesConsistent c t'.component) (rooted : Rooted Entry.Holds (t'.tree c none)) :
    RowsConsistent c t' where
  names := names
  owned := by
    rw [hmetadata, hcomp]
    intro m hm
    obtain ⟨r, hr, hrid⟩ := h.owned m hm
    exact ⟨f r, List.mem_map_of_mem hr, (hid r).trans hrid⟩
  metadata := hmetadata ▸ h.metadata
  contentIds := hcontent ▸ h.contentIds
  contentPos := hcontent ▸ h.contentPos
  contents := by
    rw [hcontent, hcomp]
    refine List.forall_mem_map.2 fun r hr => ?_
    rw [hcontentId]
    exact h.contents r hr
  rooted := rooted

theorem RowsConsistent.withTrash (h : RowsConsistent c t) (trash : List TrashRow) :
    RowsConsistent c { t with trash := trash } :=
  ⟨h.names, h.owned, h.metadata, h.contentIds, h.contentPos, h.contents, h.rooted⟩

end Rows

/-- The component that stands above all others of its record is found by the length of its
name. -/
theorem BinConsistent.root_eq {root : ComponentRow α} {id : ℕ}
    (hnames : NamesConsistent c t.component) (h : t.BinConsistent c root id) :
    t.getRootComponentByTrashId id = some root := by
  have hshorter : ∀ r ∈ t.marked (some id), r ≠ root →
      root.nameUpper.length < r.nameUpper.length := by
    intro r hr hne
    obtain ⟨hmem, hmark⟩ := mem_marked.1 hr
    have hpath : c.rowPath root ≠ c.rowPath r := fun heq =>
      hne (hnames.eq_of_path hmem h.mem (hmark.trans h.trashId.symm) heq.symm)
    obtain hnil | hnil := eq_or_ne root.nameUpper []
    · rw [hnil, List.length_nil, List.length_pos_iff]
      rintro hrnil
      exact hpath (by rw [Collation.rowPath, hnil, Collation.rowPath, hrnil])
    · obtain heq | ⟨rest, hrest⟩ := ((hnames.canonical root h.mem).eq_or_below_iff
        (hnames.canonical r hmem) hnil).2 (h.below r hmem hmark)
      · exact absurd (by rw [Collation.rowPath, Collation.rowPath, heq]) hpath
      · rw [← hrest, List.length_append, List.length_append, List.length_singleton]
        omega
  have hroot : root ∈ t.marked (some id) := mem_marked.2 ⟨h.mem, h.trashId⟩
  exact shortest_eq hroot hshorter

theorem TrashConsistent.getTrash_eq_some_iff (h : TrashConsistent c t) {version index : ℕ}
    {x : TrashRow} : t.getTrashByVersionIndex version index = some x ↔
      x ∈ t.trash ∧ x.version = version ∧ x.index = index := by
  constructor
  · intro hx
    exact ⟨List.mem_of_find?_eq_some hx, by simpa using List.find?_some hx⟩
  · rintro ⟨hx, rfl, rfl⟩
    cases hf : t.getTrashByVersionIndex x.version x.index with
    | none => exact absurd (List.find?_eq_none.1 hf x hx) (by simp)
    | some y =>
      have hkeys : y.version = x.version ∧ y.index = x.index := by simpa using List.find?_some hf
      rw [h.trashKeys y (List.mem_of_find?_eq_some hf) x hx hkeys.1 hkeys.2]

theorem TrashConsistent.bin_eq_some_iff (h : TrashConsistent c t) {k : ℕ × ℕ}
    {s : ComponentTree α} : (t.abs c).bin k = some s ↔
      ∃ x ∈ t.trash, (x.version, x.index) = k ∧ t.kept c x.id = some s := by
  simp only [abs, Option.bind_eq_some_iff, h.getTrash_eq_some_iff, Prod.ext_iff, and_assoc]

/-! ## What leaves the trash alone -/

/-- The second tables have the same components under a trash record. -/
structure SameRecord (c : Collation α) (t t' : Tables α) (id : ℕ) : Prop where
  marked : t'.marked (some id) = t.marked (some id)
  entry : ∀ r ∈ t.component, r.trashId = some id → t'.entry c r = t.entry c r

section SameRecord

variable {id : ℕ}

theorem SameRecord.tree_eq (h : SameRecord c t t' id) :
    t'.tree c (some id) = t.tree c (some id) := by
  funext p
  rw [tree, tree, h.marked]
  refine Option.map_congr fun r hr => ?_
  obtain ⟨hmem, hmark⟩ := mem_marked.1 (List.mem_of_find?_eq_some hr)
  exact h.entry r hmem hmark

theorem SameRecord.root_eq (h : SameRecord c t t' id) :
    t'.getRootComponentByTrashId id = t.getRootComponentByTrashId id :=
  congrArg shortest h.marked

theorem SameRecord.kept_eq (h : SameRecord c t t' id) : t'.kept c id = t.kept c id := by
  rw [kept, kept, h.root_eq, h.tree_eq]

theorem SameRecord.mem_iff (h : SameRecord c t t' id) (hmark : r.trashId = some id) :
    r ∈ t'.component ↔ r ∈ t.component := by
  have := congrArg (r ∈ ·) h.marked
  simpa [hmark] using this

theorem SameRecord.binConsistent (h : SameRecord c t t' id) (hbin : t.BinConsistent c r id) :
    t'.BinConsistent c r id where
  mem := (h.mem_iff hbin.trashId).2 hbin.mem
  trashId := hbin.trashId
  below r' hr' hmark := hbin.below r' ((h.mem_iff hmark).1 hr') hmark
  rooted := h.tree_eq ▸ hbin.rooted

theorem SameRecord.withTrash (h : SameRecord c t t' id) (trash : List TrashRow) :
    SameRecord c t { t' with trash := trash } id :=
  ⟨h.marked, h.entry⟩

end SameRecord

/-- The second tables have the same trash. -/
structure SameTrash (c : Collation α) (t t' : Tables α) : Prop where
  trash : t'.trash = t.trash
  record : ∀ id, SameRecord c t t' id

theorem SameTrash.bin_eq (h : SameTrash c t t') : (t'.abs c).bin = (t.abs c).bin := by
  funext k
  simp only [abs, getTrashByVersionIndex, h.trash, (h.record _).kept_eq]

theorem TrashConsistent.of_sameTrash (ht : TrashConsistent c t) (h : SameTrash c t t') :
    TrashConsistent c t' where
  trashIds := h.trash ▸ ht.trashIds
  trashKeys := h.trash ▸ ht.trashKeys
  trashed r hr id hid := h.trash ▸ ht.trashed r (((h.record id).mem_iff hid).1 hr) id hid
  bins x hx := by
    obtain ⟨root, hroot⟩ := ht.bins x (h.trash ▸ hx)
    exact ⟨root, (h.record x.id).binConsistent hroot⟩

/-! ## Trash records -/

section TrashRecords

variable {x : TrashRow} {root : ComponentRow α}

theorem TrashConsistent.insert (ht : TrashConsistent c t) (hnames : NamesConsistent c t'.component)
    (hid : ∀ y ∈ t.trash, y.id ≠ x.id) (hkey : t.getTrashByVersionIndex x.version x.index = none)
    (htrash : t'.trash = t.trash ++ [x]) (hroot : t'.BinConsistent c root x.id)
    (hother : ∀ id, id ≠ x.id → SameRecord c t t' id) :
    TrashConsistent c t' ∧ (t'.abs c).bin = Function.update (t.abs c).bin (x.version, x.index)
      (some (sub (c.rowPath root) (t'.tree c (some x.id)))) := by
  have hkeys : ∀ y ∈ t.trash, y.version = x.version → y.index ≠ x.index := by
    simpa [getTrashByVersionIndex] using hkey
  have htrash' : TrashConsistent c t' := by
    constructor
    case trashIds =>
      rw [htrash, List.map_append, List.map_singleton]
      refine List.nodup_append.2 ⟨ht.trashIds, by simp, ?_⟩
      simpa using hid
    case trashKeys =>
      rw [htrash]
      intro y hy z hz hversion hindex
      obtain hy | hy := List.mem_append.1 hy <;> obtain hz | hz := List.mem_append.1 hz
      · exact ht.trashKeys y hy z hz hversion hindex
      · rw [List.mem_singleton.1 hz] at hversion hindex
        exact absurd hindex (hkeys y hy hversion)
      · rw [List.mem_singleton.1 hy] at hversion hindex
        exact absurd hindex.symm (hkeys z hz hversion.symm)
      · rw [List.mem_singleton.1 hy, List.mem_singleton.1 hz]
    case trashed =>
      intro r hr id hmark
      rw [htrash]
      by_cases hx : id = x.id
      · exact ⟨x, by simp, hx.symm⟩
      · obtain ⟨y, hy, hyid⟩ := ht.trashed r (((hother id hx).mem_iff hmark).1 hr) id hmark
        exact ⟨y, List.mem_append_left _ hy, hyid⟩
    case bins =>
      rw [htrash]
      intro y hy
      obtain hy | hy := List.mem_append.1 hy
      · obtain ⟨s, hs⟩ := ht.bins y hy
        exact ⟨s, (hother y.id (hid y hy)).binConsistent hs⟩
      · rw [List.mem_singleton.1 hy]
        exact ⟨root, hroot⟩
  refine ⟨htrash', funext fun k => Option.ext fun s => ?_⟩
  rw [htrash'.bin_eq_some_iff]
  by_cases hk : k = (x.version, x.index)
  · rw [hk, Function.update_self]
    have hkept : t'.kept c x.id = some (sub (c.rowPath root) (t'.tree c (some x.id))) := by
      rw [kept, hroot.root_eq hnames, Option.map_some]
    rw [← hkept]
    constructor
    · rintro ⟨y, hy, hykey, hs⟩
      have hxmem : x ∈ t'.trash := by simp [htrash]
      rw [Prod.mk.injEq] at hykey
      rwa [htrash'.trashKeys y hy x hxmem hykey.1 hykey.2] at hs
    · exact fun hs => ⟨x, by simp [htrash], rfl, hs⟩
  · rw [Function.update_of_ne hk, ht.bin_eq_some_iff]
    refine exists_congr fun y => ?_
    rw [htrash, List.mem_append, List.mem_singleton]
    constructor
    · rintro ⟨hy | rfl, hykey, hs⟩
      · exact ⟨hy, hykey, (hother y.id (hid y hy)).kept_eq ▸ hs⟩
      · exact absurd hykey.symm hk
    · rintro ⟨hy, hykey, hs⟩
      exact ⟨.inl hy, hykey, (hother y.id (hid y hy)).kept_eq.trans hs⟩

theorem TrashConsistent.erase (ht : TrashConsistent c t) (t' : Tables α) (hx : x ∈ t.trash)
    (htrash : t'.trash = t.trash.filter fun y => y.id ≠ x.id)
    (hempty : ∀ r ∈ t'.component, r.trashId ≠ some x.id)
    (hother : ∀ id, id ≠ x.id → SameRecord c t t' id) :
    TrashConsistent c t' ∧
      (t'.abs c).bin = Function.update (t.abs c).bin (x.version, x.index) none := by
  have hmem : ∀ y, y ∈ t'.trash ↔ y ∈ t.trash ∧ y.id ≠ x.id := by
    intro y
    simp [htrash]
  have htrash' : TrashConsistent c t' := by
    constructor
    case trashIds =>
      rw [htrash]
      exact ht.trashIds.sublist (List.filter_sublist.map _)
    case trashKeys =>
      intro y hy z hz
      exact ht.trashKeys y ((hmem y).1 hy).1 z ((hmem z).1 hz).1
    case trashed =>
      intro r hr id hmark
      have hne : id ≠ x.id := fun h => hempty r hr (h ▸ hmark)
      obtain ⟨y, hy, rfl⟩ := ht.trashed r (((hother id hne).mem_iff hmark).1 hr) id hmark
      exact ⟨y, (hmem y).2 ⟨hy, hne⟩, rfl⟩
    case bins =>
      intro y hy
      obtain ⟨hy, hne⟩ := (hmem y).1 hy
      obtain ⟨s, hs⟩ := ht.bins y hy
      exact ⟨s, (hother y.id hne).binConsistent hs⟩
  refine ⟨htrash', funext fun k => Option.ext fun s => ?_⟩
  rw [htrash'.bin_eq_some_iff]
  by_cases hk : k = (x.version, x.index)
  · rw [hk, Function.update_self]
    refine iff_of_false ?_ (by simp)
    rintro ⟨y, hy, hykey, -⟩
    obtain ⟨hy, hne⟩ := (hmem y).1 hy
    rw [Prod.mk.injEq] at hykey
    exact hne (congrArg _ (ht.trashKeys y hy x hx hykey.1 hykey.2))
  · rw [Function.update_of_ne hk, ht.bin_eq_some_iff]
    refine exists_congr fun y => ?_
    rw [hmem]
    constructor
    · rintro ⟨⟨hy, hne⟩, hykey, hs⟩
      exact ⟨hy, hykey, (hother y.id hne).kept_eq ▸ hs⟩
    · rintro ⟨hy, rfl, hs⟩
      have hne : y.id ≠ x.id := fun hid =>
        hk (by rw [List.inj_on_of_nodup_map ht.trashIds hy hx hid])
      exact ⟨⟨hy, hne⟩, rfl, (hother y.id hne).kept_eq.trans hs⟩

end TrashRecords

/-! ## Versions and times -/

end Tables

/-- A row without its version and modification time. -/
def ComponentRow.core (r : ComponentRow α) : ComponentRow α :=
  { r with mtime := 0, version := 0 }

namespace Tables

variable {c : Collation α} {t t' : Tables α} {mark : Option ℕ} {name : List α}
  {f : ComponentRow α → ComponentRow α}

/-- The tables without versions and modification times. -/
def core (t : Tables α) : Tables α :=
  { t with component := t.component.map ComponentRow.core }

theorem tree_core (mark : Option ℕ) : t.core.tree c mark = t.tree c mark := by
  funext p
  simp only [tree, marked, core, List.filter_map, List.find?_map, Option.map_map]
  rfl

omit [DecidableEq α] in
theorem shortest_map_core (rows : List (ComponentRow α)) :
    shortest (rows.map ComponentRow.core) = (shortest rows).map ComponentRow.core := by
  induction rows with
  | nil => rfl
  | cons r rows ih =>
    rw [List.map_cons, shortest, shortest, ih]
    cases shortest rows with
    | none => rfl
    | some s =>
      by_cases hlt : s.nameUpper.length < r.nameUpper.length
      · simp [hlt, ComponentRow.core]
      · simp [hlt, ComponentRow.core]

omit [DecidableEq α] in
theorem getRootComponentByTrashId_core (id : ℕ) : t.core.getRootComponentByTrashId id =
    (t.getRootComponentByTrashId id).map ComponentRow.core := by
  rw [getRootComponentByTrashId, getRootComponentByTrashId, ← shortest_map_core, core,
    List.filter_map]
  rfl

theorem kept_core (id : ℕ) : t.core.kept c id = t.kept c id := by
  rw [kept, getRootComponentByTrashId_core, Option.map_map, tree_core]
  rfl

theorem abs_core : t.core.abs c = t.abs c := by
  refine Dataset.ext (tree_core none) (funext fun k => ?_)
  change (t.getTrashByVersionIndex k.1 k.2).bind _ = (t.getTrashByVersionIndex k.1 k.2).bind _
  simp only [kept_core]

theorem binConsistent_core_iff {id : ℕ} :
    (∃ root, t.core.BinConsistent c root id) ↔ ∃ root, t.BinConsistent c root id := by
  constructor
  · rintro ⟨_, hmem, hid, hbelow, hrooted⟩
    obtain ⟨root, hroot, rfl⟩ := List.mem_map.1 hmem
    rw [tree_core] at hrooted
    exact ⟨root, hroot, hid, fun r hr => hbelow r.core (List.mem_map_of_mem hr), hrooted⟩
  · rintro ⟨root, hmem, hid, hbelow, hrooted⟩
    refine ⟨root.core, List.mem_map_of_mem hmem, hid, fun r hr => ?_, by rwa [tree_core]⟩
    obtain ⟨s, hs, rfl⟩ := List.mem_map.1 hr
    exact hbelow s hs

theorem consistent_core_iff : Consistent c t.core ↔ Consistent c t := by
  constructor
  · intro h
    exact {
      names := {
        upper := fun r hr => h.names.upper r.core (List.mem_map_of_mem hr)
        canonical := fun r hr => h.names.canonical r.core (List.mem_map_of_mem hr)
        ids := by simpa [core, Function.comp_def, ComponentRow.core] using h.names.ids
        keys := fun r hr r' hr' =>
          h.names.keys r.core (List.mem_map_of_mem hr) r'.core (List.mem_map_of_mem hr') }
      owned := fun m hm => by simpa [core, ComponentRow.core] using h.owned m hm
      metadata := h.metadata
      contentIds := h.contentIds
      contentPos := h.contentPos
      contents := fun r hr => h.contents r.core (List.mem_map_of_mem hr)
      trashIds := h.trashIds
      trashKeys := h.trashKeys
      trashed := fun r hr => h.trashed r.core (List.mem_map_of_mem hr)
      rooted := tree_core (c := c) (t := t) none ▸ h.rooted
      bins := fun x hx => binConsistent_core_iff.1 (h.bins x hx) }
  · intro h
    exact {
      names := {
        upper := List.forall_mem_map.2 h.names.upper
        canonical := List.forall_mem_map.2 h.names.canonical
        ids := by simpa [core, Function.comp_def, ComponentRow.core] using h.names.ids
        keys := List.forall_mem_map.2 fun r hr => List.forall_mem_map.2 (h.names.keys r hr) }
      owned := fun m hm => by simpa [core, ComponentRow.core] using h.owned m hm
      metadata := h.metadata
      contentIds := h.contentIds
      contentPos := h.contentPos
      contents := List.forall_mem_map.2 h.contents
      trashIds := h.trashIds
      trashKeys := h.trashKeys
      trashed := List.forall_mem_map.2 h.trashed
      rooted := (tree_core (c := c) (t := t) none).symm ▸ h.rooted
      bins := fun x hx => binConsistent_core_iff.2 (h.bins x hx) }

/-- The tables differ in versions and modification times only. -/
def Alike (t t' : Tables α) : Prop := t.core = t'.core

omit [DecidableEq α] in
theorem Alike.trans {t'' : Tables α} (h : t.Alike t') (h' : t'.Alike t'') : t.Alike t'' :=
  Eq.trans h h'

theorem Alike.consistent (h : t.Alike t') (ht : Consistent c t) : Consistent c t' := by
  rw [← consistent_core_iff, ← h, consistent_core_iff]
  exact ht

omit [DecidableEq α] in
theorem Alike.withTrash (h : t.Alike t') (trash : List TrashRow) :
    ({ t with trash := trash } : Tables α).Alike { t' with trash := trash } := by
  unfold Alike core at h ⊢
  rw [Tables.mk.injEq] at h ⊢
  exact ⟨h.1, h.2.1, h.2.2.1, rfl⟩

omit [DecidableEq α] in
theorem Alike.trash_eq (h : t.Alike t') : t.trash = t'.trash := by
  change t.core.trash = t'.core.trash
  rw [h]

omit [DecidableEq α] in
theorem Alike.forall_trashId (h : t.Alike t') {P : Option ℕ → Prop}
    (ht : ∀ r ∈ t.component, P r.trashId) : ∀ r ∈ t'.component, P r.trashId := by
  intro r hr
  have hmem : r.core ∈ t.core.component := h ▸ List.mem_map_of_mem hr
  obtain ⟨s, hs, hcore⟩ := List.mem_map.1 hmem
  have htrash : s.core.trashId = r.core.trashId := by rw [hcore]
  exact (show s.trashId = r.trashId from htrash) ▸ ht s hs

theorem Alike.abs_eq (h : t.Alike t') : t'.abs c = t.abs c := by
  rw [← abs_core, ← h, abs_core]

omit [DecidableEq α] in
theorem Alike.exists_selectsName_iff (h : t.Alike t') :
    (∃ r ∈ t.component, c.SelectsName name r) ↔ ∃ r ∈ t'.component, c.SelectsName name r := by
  have hcore : ∀ u : Tables α, (∃ r ∈ u.core.component, c.SelectsName name r) ↔
      ∃ r ∈ u.component, c.SelectsName name r := fun u => by
    simp [core, Collation.SelectsName, ComponentRow.core]
  rw [← hcore t, h, hcore]

theorem alike_of_updateComponentByName (hf : ∀ r, (f r).core = r.core)
    (h : t.updateComponentByName c name f = .ok t') : t.Alike t' := by
  obtain ⟨-, rfl⟩ := updateComponentByName_eq_ok_iff.1 h
  unfold Alike core
  congr 1
  simp only [Table.update, List.map_map]
  refine List.map_congr_left fun r _ => ?_
  simp only [Function.comp_apply]
  split_ifs
  · exact (hf r).symm
  · rfl

theorem alike_of_updateParent {time : ℕ}
    (h : t.updateComponentParentLastModifyTime c name time = .ok t') : t.Alike t' := by
  unfold updateComponentParentLastModifyTime at h
  split_ifs at h
  · obtain rfl := Except.ok.inj h
    rfl
  · exact alike_of_updateComponentByName (f := fun r => { r with mtime := time }) (fun _ => rfl) h

theorem alike_of_updateComponentsVersion {names : List (List α × ComponentType)} {version : ℕ}
    (h : t.updateComponentsVersion c names version = .ok t') : t.Alike t' := by
  induction names generalizing t with
  | nil =>
    obtain rfl := Except.ok.inj h
    rfl
  | cons x names ih =>
    obtain ⟨u, hu, h⟩ := bind_eq_ok_iff.1 h
    have hcore : ∀ r : ComponentRow α, { r with version := version }.core = r.core := fun _ => rfl
    exact (alike_of_updateComponentByName hcore hu).trans (ih h)

end Tables

end PersonalCloud.DatasetDb
