import Mathlib.Data.List.Chain
import PersonalCloud.DatasetDb.Utf8
import PersonalCloud.Lib.StdString
import PersonalCloud.SyncConfig.SyncState

/-!
# Which states are exact

The state of a path should be that of the entries at the path or below it, compared component by
component. A name may hold the wildcards of `LIKE`, and the pending changes are searched for the
directory and the name without a separator between them.

## Main results

* `SyncRoot.stateExact_iff` — for which contents of the logs and which pending changes the state
  of a path is exact.
-/

namespace PersonalCloud.SyncConfig

open PersonalCloud.Lib

/-! ## What the state should be -/

/-- The components of a path. -/
def components (path : String) : List (List Char) :=
  path.toList.splitOn '/'

/-- `q` is the path or lies below it. The path is given in the form in which paths are
compared. -/
def CasePolicy.AtOrBelow (c : CasePolicy) (path q : String) : Prop :=
  components path <+: components (c.convertCase q)

namespace SyncState

def NeedsUpload (state : SyncState) : Prop :=
  state = .needToUpload ∨ state = .needToUploadAndDownload

def NeedsDownload (state : SyncState) : Prop :=
  state = .needToDownload ∨ state = .needToUploadAndDownload

end SyncState

namespace SyncRoot

variable (s : SyncRoot) (db : StateDb) (path : String)

/-- Something at the path or below it waits to be uploaded. -/
def UploadPending : Prop :=
  (∃ r ∈ db.uploadChangeLog, s.policy.AtOrBelow path (relPath r.parentPath r.name)) ∨
    ∃ q ∈ s.incrementalLocalScanPaths, s.policy.AtOrBelow path q

/-- Something at the path or below it waits to be downloaded. -/
def DownloadPending : Prop :=
  ∃ r ∈ db.downloadChangeLog, s.policy.AtOrBelow path (relPath r.parentPath r.name)

/-- The state is that of the path. -/
structure StateExact (state : SyncState) : Prop where
  upload : state.NeedsUpload ↔ s.UploadPending db path
  download : state.NeedsDownload ↔ s.DownloadPending db path
  upToDate : ¬ s.UploadPending db path → ¬ s.DownloadPending db path →
    (state = .upToDate ↔
      ∃ r ∈ db.syncHistoryTree, s.policy.convertCase (relPath r.parentPath r.name) = path)

end SyncRoot

/-! ## Where the queries differ -/

/-- `q` is in the directory or below it. -/
def Inside (path q : String) : Prop :=
  path.toList ++ ['/'] <+: q.toList

namespace CasePolicy

variable (c : CasePolicy) (path : String)

/-- The entry is in no directory below the path, but its directory is like one. -/
def Stray (x : PathColumns) : Prop :=
  like (path ++ "/%") (c.convertCase x.parentPath) ∧ ¬ Inside path (c.convertCase x.parentPath)

/-- The pending path is the directory and the name without a separator, or holds them and a
separator anywhere. -/
def Hits (q : String) : Prop :=
  c.convertCase q = getParent path ++ getName path ∨
    (getParent path ++ getName path).toList ++ ['/'] <:+: (c.convertCase q).toList

/-- The first entry for the path itself is that of a file and written as the path is, and no
stray entry comes before it. -/
def DownloadsFile (rows : List DownloadRow) : Prop :=
  (∃ r, rows.find? (fun r => c.fold (r.parentPath, r.name) = (getParent path, getName path)) =
      some r ∧ r.parentPath = getParent path ∧ r.name = getName path ∧ r.isDir = false) ∧
    ∀ r ∈ rows, c.Stray path r.columns → ¬ c.convertCase r.parentPath < getParent path

end CasePolicy

namespace SyncRoot

variable (s : SyncRoot) (db : StateDb) (path : String)

/-- What makes the state of a path exact. -/
structure Tellable : Prop where
  download : (∃ r ∈ db.downloadChangeLog, s.policy.Stray path r.columns) →
    s.DownloadPending db path
  file : s.policy.DownloadsFile path db.downloadChangeLog → ¬ s.UploadPending db path
  upload : ¬ s.policy.DownloadsFile path db.downloadChangeLog →
    (∃ r ∈ db.uploadChangeLog, s.policy.AtOrBelow path (relPath r.parentPath r.name)) ∨
      ((∃ r ∈ db.uploadChangeLog, s.policy.Stray path r.columns) ∨
          (∃ q ∈ s.incrementalLocalScanPaths, s.policy.Hits path q) ↔
        ∃ q ∈ s.incrementalLocalScanPaths, s.policy.AtOrBelow path q)

end SyncRoot

/-! ## Folding -/

namespace CasePolicy

/-- `Util_UTF8Upper` folds every character of a text below U+40000, as `utf8_upper` does. -/
def Upcases (c : CasePolicy) : Prop :=
  ∀ s, (∀ ch ∈ s.toList, 0 < ch.toNat ∧ ch.toNat < 0x40000) →
    c.utf8Upper s = String.ofList (s.toList.map DatasetDb.upcase)

/-- Where case is ignored, the text is one that `Util_UTF8Upper` folds. -/
def Text (c : CasePolicy) (s : String) : Prop :=
  c.caseInsensitive → ∀ ch ∈ s.toList, 0 < ch.toNat ∧ ch.toNat < 0x40000

/-- The form in which characters are compared. -/
def upper (c : CasePolicy) (ch : Char) : Char :=
  if c.caseInsensitive then DatasetDb.upcase ch else ch

variable {c : CasePolicy} {s t : String}

theorem upper_eq_iff {d : Char} (hd : d.toNat < 0x41) (ch : Char) : c.upper ch = d ↔ ch = d := by
  unfold upper
  split_ifs
  · exact DatasetDb.upcase_eq_iff hd
  · rfl

theorem upper_upper (ch : Char) : c.upper (c.upper ch) = c.upper ch := by
  unfold upper
  split_ifs
  · exact DatasetDb.upcase_idem ch
  · rfl

/-- A text is looked at character by character. -/
theorem text_of_all (h : s.toList.all fun ch => 0 < ch.toNat ∧ ch.toNat < 0x40000) : c.Text s :=
  fun _ ch hch => by simpa using List.all_eq_true.1 h ch hch

theorem text_append : c.Text (s ++ t) ↔ c.Text s ∧ c.Text t := by
  simp only [Text, String.toList_append, List.forall_mem_append, forall_and]
  tauto

theorem convertCase_eq (hc : c.Upcases) (hs : c.Text s) :
    c.convertCase s = String.ofList (s.toList.map c.upper) := by
  unfold convertCase
  split_ifs with hci
  · have hupper : c.upper = DatasetDb.upcase := funext fun _ => if_pos hci
    rw [hc s (hs hci), hupper]
  · have hupper : c.upper = id := funext fun _ => if_neg hci
    rw [hupper, List.map_id, String.ofList_toList]

theorem text_convertCase (hc : c.Upcases) (hs : c.Text s) : c.Text (c.convertCase s) := by
  intro hci
  rw [convertCase_eq hc hs, String.toList_ofList, List.forall_mem_map]
  intro ch hch
  obtain ⟨hpos, hlt⟩ := hs hci ch hch
  rw [upper, if_pos hci]
  exact ⟨DatasetDb.upcase_pos hpos, (DatasetDb.toNat_upcase_lt_iff ch).2 hlt⟩

theorem convertCase_append (hc : c.Upcases) (hs : c.Text s) (ht : c.Text t) :
    c.convertCase (s ++ t) = c.convertCase s ++ c.convertCase t := by
  rw [convertCase_eq hc (text_append.2 ⟨hs, ht⟩), convertCase_eq hc hs, convertCase_eq hc ht]
  simp [String.toList_append, String.ofList_append]

/-- Folding a text again changes nothing. -/
theorem upper_of_mem (hc : c.Upcases) (hs : c.Text s) :
    ∀ ch ∈ (c.convertCase s).toList, c.upper ch = ch := by
  rw [convertCase_eq hc hs, String.toList_ofList, List.forall_mem_map]
  exact fun ch _ => upper_upper ch

/-- A text whose characters are folded is folded. -/
theorem convertCase_of_upper (hc : c.Upcases) (hs : c.Text s)
    (h : ∀ ch ∈ s.toList, c.upper ch = ch) : c.convertCase s = s := by
  rw [convertCase_eq hc hs, List.map_congr_left h, List.map_id', String.ofList_toList]

theorem convertCase_eq_empty_iff (hc : c.Upcases) (hs : c.Text s) :
    c.convertCase s = "" ↔ s = "" := by
  rw [convertCase_eq hc hs, String.ofList_eq_empty_iff, List.map_eq_nil_iff,
    String.toList_eq_nil_iff]

theorem slash_mem_convertCase (hc : c.Upcases) (hs : c.Text s) :
    '/' ∈ (c.convertCase s).toList ↔ '/' ∈ s.toList := by
  rw [convertCase_eq hc hs, String.toList_ofList, List.mem_map]
  simp only [upper_eq_iff (d := '/') (by decide), exists_eq_right]

end CasePolicy

/-! ## Components -/

variable {a n path q : String}

theorem splitOn_prefix_iff (p q : List Char) :
    p.splitOn '/' <+: q.splitOn '/' ↔ q = p ∨ p ++ ['/'] <+: q := by
  constructor
  · rintro ⟨t, ht⟩
    have hq : ['/'].intercalate (q.splitOn '/') = q := List.intercalate_splitOn '/'
    have hp : ['/'].intercalate (p.splitOn '/') = p := List.intercalate_splitOn '/'
    cases t with
    | nil =>
      rw [List.append_nil] at ht
      exact .inl (by rw [← hq, ← ht, hp])
    | cons x t =>
      refine .inr ⟨['/'].intercalate (x :: t), ?_⟩
      rw [← hq, ← ht, intercalate_append (List.splitOn_ne_nil '/' p), hp]
  · rintro (rfl | ⟨t, rfl⟩)
    · exact List.prefix_refl _
    · rw [List.append_assoc, List.singleton_append, List.splitOn_append_cons_self]
      exact List.prefix_append _ _

theorem atOrBelow_iff {c : CasePolicy} :
    c.AtOrBelow path q ↔ c.convertCase q = path ∨ Inside path (c.convertCase q) := by
  rw [CasePolicy.AtOrBelow, components, components, splitOn_prefix_iff, String.toList_inj]
  rfl

theorem toList_relPath (h : a ≠ "") : (relPath a n).toList = a.toList ++ '/' :: n.toList := by
  rw [relPath, if_neg h]
  simp [String.toList_append]

/-- What is in a directory and has a parent is the directory's own or in one in it. -/
theorem inside_relPath_iff (hpath : path ≠ "") (hn : '/' ∉ n.toList) :
    Inside path (relPath a n) ↔ a = path ∨ Inside path a := by
  by_cases ha : a = ""
  · have hname : ¬ Inside path n := fun ⟨t, ht⟩ => hn (by simp [← ht])
    have hempty : ¬ Inside path "" := by
      rintro ⟨t, ht⟩
      simp at ht
    rw [ha, relPath, if_pos rfl]
    exact iff_of_false hname (not_or.2 ⟨hpath.symm, hempty⟩)
  · rw [Inside, toList_relPath ha]
    constructor
    · rintro ⟨t, ht⟩
      rw [List.append_assoc, List.singleton_append] at ht
      rcases List.append_eq_append_iff.1 ht with ⟨l, hl, hr⟩ | ⟨l, hl, hr⟩
      · cases l with
        | nil => exact .inl (String.toList_injective (by rw [hl, List.append_nil]))
        | cons x l =>
          obtain ⟨rfl, -⟩ := List.cons.inj hr
          exact .inr ⟨l, by rw [hl, List.append_assoc, List.singleton_append]⟩
      · cases l with
        | nil => exact .inl (String.toList_injective (by rw [hl, List.append_nil]))
        | cons x l =>
          obtain ⟨-, hl⟩ := List.cons.inj hr
          exact absurd (by simp [hl]) hn
    · rintro (rfl | ⟨t, ht⟩)
      · exact ⟨n.toList, by rw [List.append_assoc, List.singleton_append]⟩
      · exact ⟨t ++ '/' :: n.toList, by rw [← List.append_assoc, ht]⟩

/-! ## The queries -/

namespace CasePolicy

/-- The path of something in the sync root, in the form in which paths are compared. -/
structure EntryPath (c : CasePolicy) (path : String) : Prop where
  relPath_eq : relPath (getParent path) (getName path) = path
  name : getName path ≠ "" ∧ '/' ∉ (getName path).toList
  text : c.Text path
  folded : ∀ ch ∈ path.toList, c.upper ch = ch

/-- A row that an insertion has made. -/
structure Entry (c : CasePolicy) (x : PathColumns) : Prop where
  derived : c.Derived x
  name : x.name ≠ "" ∧ '/' ∉ x.name.toList
  text_parentPath : c.Text x.parentPath
  text_name : c.Text x.name

variable {c : CasePolicy} {x : PathColumns}

namespace EntryPath

theorem ne_empty (hp : c.EntryPath path) : path ≠ "" := by
  intro h
  have hname := hp.name.1
  rw [h] at hname
  exact hname (by simp [getName])

theorem mem_of_mem (hp : c.EntryPath path) {ch : Char}
    (h : ch ∈ (getParent path).toList ∨ ch ∈ (getName path).toList) : ch ∈ path.toList := by
  rw [← hp.relPath_eq, relPath]
  split_ifs with hparent
  · rw [hparent] at h
    simpa using h
  · simp only [String.toList_append, List.mem_append]
    exact h.imp_left .inl

theorem full_eq (hp : c.EntryPath path) :
    getParent path ++ separater (getParent path) ++ getName path = path := by
  conv_rhs => rw [← hp.relPath_eq, relPath]
  unfold separater
  split_ifs with hparent
  · simp [hparent]
  · rfl

theorem convertCase_eq_self (hc : c.Upcases) (hp : c.EntryPath path) (t : String)
    (ht : ∀ ch ∈ t.toList, ch ∈ path.toList ∨ 0 < ch.toNat ∧ ch.toNat < 0x41) :
    c.convertCase t = t := by
  refine convertCase_of_upper hc ?_ ?_
  · intro hci ch hch
    rcases ht ch hch with h | h
    · exact hp.text hci ch h
    · omega
  · intro ch hch
    rcases ht ch hch with h | h
    · exact hp.folded ch h
    · exact (upper_eq_iff h.2 ch).2 rfl

end EntryPath

theorem EntryPath.fold_eq (hc : c.Upcases) (hp : c.EntryPath path) :
    c.fold (getParent path, getName path) = (getParent path, getName path) := by
  rw [fold, hp.convertCase_eq_self hc _ fun ch hch => .inl (hp.mem_of_mem (.inl hch)),
    hp.convertCase_eq_self hc _ fun ch hch => .inl (hp.mem_of_mem (.inr hch))]

theorem selectsLike_iff (hx : c.Derived x) (pattern : String) :
    c.selectsLike pattern x ↔ like (c.convertCase pattern) (c.convertCase x.parentPath) := by
  rw [hx]
  by_cases h : c.caseInsensitive <;> simp [selectsLike, columns, convertCase, h]

theorem like_of_inside (h : Inside path q) : like (path ++ "/%") q := by
  obtain ⟨t, ht⟩ := h
  have hself : Wildcard.accepts ((path.toList ++ ['/']).map likeItem) (path.toList ++ ['/']) := by
    refine Wildcard.accepts_self fun ch _ => ?_
    unfold likeItem
    split_ifs <;> simp [Wildcard.Item.Takes]
  have hpattern : ((path ++ "/%").toList).map likeItem =
      (path.toList ++ ['/']).map likeItem ++ [.many] := by
    simp [String.toList_append, likeItem]
  rw [like, hpattern, ← ht]
  exact Wildcard.accepts_append_iff.2 ⟨_, t, rfl, hself, Wildcard.accepts_many_nil⟩

theorem Entry.convertCase_relPath (hc : c.Upcases) (hx : c.Entry x) :
    c.convertCase (relPath x.parentPath x.name) =
      relPath (c.convertCase x.parentPath) (c.convertCase x.name) := by
  refine CasePolicy.convertCase_relPath fun hci => ?_
  have hslash : c.Text "/" := text_of_all (by decide)
  have hfold : c.convertCase "/" = "/" :=
    convertCase_of_upper hc hslash (by simp [upper_eq_iff (d := '/') (by decide)])
  have hupper : c.utf8Upper = c.convertCase := funext fun _ => (if_pos hci).symm
  unfold relPath
  simp only [hupper, convertCase_eq_empty_iff hc hx.text_parentPath]
  split_ifs
  · rfl
  · rw [convertCase_append hc (text_append.2 ⟨hx.text_parentPath, hslash⟩) hx.text_name,
      convertCase_append hc hx.text_parentPath hslash, hfold]

theorem Entry.name_convertCase (hc : c.Upcases) (hx : c.Entry x) :
    c.convertCase x.name ≠ "" ∧ '/' ∉ (c.convertCase x.name).toList := by
  rw [Ne, convertCase_eq_empty_iff hc hx.text_name, slash_mem_convertCase hc hx.text_name]
  exact hx.name

theorem Entry.convertCase_relPath_eq_iff (hc : c.Upcases) (hp : c.EntryPath path)
    (hx : c.Entry x) : c.convertCase (relPath x.parentPath x.name) = path ↔
      c.fold (x.parentPath, x.name) = (getParent path, getName path) := by
  rw [hx.convertCase_relPath hc, fold, Prod.mk.injEq,
    ← relPath_inj (hx.name_convertCase hc) hp.name, hp.relPath_eq]

/-- The row of the sync root is at no path in it. -/
theorem selects_root_iff (hc : c.Upcases) (hp : c.EntryPath path) (hx : x = c.columns "" "") :
    c.Selects (getParent path) (getName path) x ↔
      c.convertCase (relPath x.parentPath x.name) = path := by
  have hempty : c.convertCase "" = "" :=
    (convertCase_eq_empty_iff hc (text_of_all (by decide))).2 rfl
  subst hx
  rw [selects_iff (derived_columns "" ""), hp.fold_eq hc]
  simp only [columns, fold, relPath, if_true, hempty, Prod.mk.injEq]
  exact iff_of_false (fun h => hp.name.1 h.2.symm) hp.ne_empty.symm

theorem or_stray_iff {p q i l : Prop} (h : i → l) : p ∨ q ∨ l ↔ (p ∨ q ∨ i) ∨ l ∧ ¬ i := by
  tauto

/-- A row is selected if it is about the path or something below it, and if it is stray. -/
theorem selectsState_iff (hc : c.Upcases) (hp : c.EntryPath path) (hx : c.Entry x) :
    c.SelectsState (getParent path) (getName path) x ↔
      c.AtOrBelow path (relPath x.parentPath x.name) ∨ c.Stray path x := by
  have hself : c.convertCase path = path :=
    hp.convertCase_eq_self hc _ fun ch hch => .inl hch
  have hexp : likeExp (getParent path) (getName path) = "/%" :=
    if_neg fun h => hp.name.1 h.2
  have hpattern : c.convertCase (path ++ "/%") = path ++ "/%" := by
    refine hp.convertCase_eq_self hc _ fun ch hch => ?_
    rw [String.toList_append, List.mem_append] at hch
    refine hch.imp_right fun h => ?_
    have hch : ch = '/' ∨ ch = '%' := by simpa using h
    rcases hch with rfl | rfl <;> decide
  rw [SelectsState, hp.full_eq, hexp, selects_iff hx.derived, selectsChild_iff hx.derived,
    selectsLike_iff hx.derived, hpattern, hself, hp.fold_eq hc, atOrBelow_iff,
    hx.convertCase_relPath_eq_iff hc hp, hx.convertCase_relPath hc,
    inside_relPath_iff hp.ne_empty (hx.name_convertCase hc).2, Stray]
  exact or_stray_iff like_of_inside

end CasePolicy

/-! ## The first row -/

section First

variable {α β : Type} [LinearOrder β] {f : α → β} {l : List α} {r : α} {k : β}

theorem find?_of_argmin (h : l.argmin f = some r) : l.find? (fun x => f x ≤ f r) = some r := by
  induction l with
  | nil => exact absurd h (by simp)
  | cons x l ih =>
    rw [List.argmin_cons] at h
    cases hl : l.argmin f with
    | none =>
      simp only [hl, Option.some_inj] at h
      rw [← h, List.find?_cons_of_pos (by simp)]
    | some m =>
      simp only [hl] at h
      split_ifs at h with hlt
      · obtain rfl := Option.some_inj.1 h
        rw [List.find?_cons_of_neg (by simpa using hlt), ih hl]
      · obtain rfl := Option.some_inj.1 h
        rw [List.find?_cons_of_pos (by simp)]

/-- The first of the smallest is the first with the smallest key. -/
theorem argmin_eq_some_and_iff : l.argmin f = some r ∧ f r = k ↔
    (∀ x ∈ l, k ≤ f x) ∧ l.find? (fun x => f x = k) = some r := by
  have hcongr : (∀ x ∈ l, k ≤ f x) → l.find? (fun x => f x ≤ k) = l.find? (fun x => f x = k) :=
    fun h => List.find?_congr fun x hx => by simp [(h x hx).ge_iff_eq']
  constructor
  · rintro ⟨hr, rfl⟩
    have hle : ∀ x ∈ l, f r ≤ f x := fun x hx => List.le_of_mem_argmin hx hr
    exact ⟨hle, (hcongr hle).symm.trans (find?_of_argmin hr)⟩
  · rintro ⟨hle, hr⟩
    have hkey : f r = k := by simpa using List.find?_some hr
    obtain ⟨m, hm⟩ : ∃ m, l.argmin f = some m := by
      cases hl : l.argmin f with
      | none =>
        rw [List.argmin_eq_none.1 hl] at hr
        exact absurd hr (by simp)
      | some m => exact ⟨m, rfl⟩
    have hmk : f m = k :=
      le_antisymm (hkey ▸ List.le_of_mem_argmin (List.mem_of_find?_eq_some hr) hm)
        (hle m (List.argmin_mem hm))
    have hfind := find?_of_argmin hm
    rw [hmk, hcongr hle, hr, Option.some_inj] at hfind
    exact ⟨hfind ▸ hm, hkey⟩

end First

namespace CasePolicy

variable {c : CasePolicy} {x : PathColumns}

theorem orderKey_eq (hx : c.Derived x) : c.orderKey x = ↑(c.convertCase x.parentPath) := by
  rw [hx]
  by_cases h : c.caseInsensitive <;> simp [orderKey, columns, convertCase, h] <;> rfl

theorem isPrefix_getParent (hp : c.EntryPath path) : (getParent path).toList <+: path.toList := by
  by_cases h : getParent path = ""
  · rw [h]
    exact List.nil_prefix
  · have hlist := toList_relPath (n := getName path) h
    rw [hp.relPath_eq] at hlist
    rw [hlist]
    exact List.prefix_append _ _

theorem getParent_length_lt (hp : c.EntryPath path) :
    (getParent path).toList.length < path.toList.length := by
  have hlt := length_relPath_lt (getParent path) hp.name.1
  rwa [hp.relPath_eq] at hlt

/-- No letter has the separator as its upper case. -/
theorem eq_slash_of_toUpper {b : Char} (h : b.toUpper = '/') : b = '/' := by
  unfold Char.toUpper at h
  split at h
  case isTrue hb =>
    rw [Char.ext_iff] at h
    have hval : b.val = '/'.val - ('A'.val - 'a'.val) := by
      rw [← h, UInt32.add_sub_cancel]
    rw [hval] at hb
    exact absurd hb (by decide)
  case isFalse => exact h

/-- Nothing in the directory itself is like the pattern, which has one separator more. -/
theorem not_like_getParent (hp : c.EntryPath path) : ¬ like (path ++ "/%") (getParent path) := by
  intro h
  have hslash : likeItem '/' = .one fun x => x.toUpper == '/'.toUpper := rfl
  have hcount := Wildcard.count_le_of_accepts hslash (fun b hb => ?_) h
  · have hle := (isPrefix_getParent hp).sublist.count_le '/'
    rw [String.toList_append, List.count_append] at hcount
    have hone : List.count '/' "/%".toList = 1 := by decide
    omega
  · exact eq_slash_of_toUpper (beq_iff_eq.1 hb)

theorem eq_getParent_iff (hc : c.Upcases) (hp : c.EntryPath path) (hx : c.Entry x)
    (hsel : c.SelectsState (getParent path) (getName path) x) :
    c.convertCase x.parentPath = getParent path ↔
      c.fold (x.parentPath, x.name) = (getParent path, getName path) := by
  refine ⟨fun h => ?_, fun h => congrArg Prod.fst h⟩
  have hlen := getParent_length_lt hp
  rw [selectsState_iff hc hp hx, atOrBelow_iff, hx.convertCase_relPath_eq_iff hc hp,
    hx.convertCase_relPath hc, inside_relPath_iff hp.ne_empty (hx.name_convertCase hc).2, Stray,
    h] at hsel
  rcases hsel with (h | h | h) | ⟨h, -⟩
  · exact h
  · exact absurd (congrArg (fun q : String => q.toList.length) h) hlen.ne
  · have hle := h.length_le
    rw [List.length_append] at hle
    omega
  · exact absurd h (not_like_getParent hp)

theorem getParent_le (hc : c.Upcases) (hp : c.EntryPath path) (hx : c.Entry x)
    (h : c.AtOrBelow path (relPath x.parentPath x.name)) :
    getParent path ≤ c.convertCase x.parentPath := by
  rw [atOrBelow_iff, hx.convertCase_relPath_eq_iff hc hp, hx.convertCase_relPath hc,
    inside_relPath_iff hp.ne_empty (hx.name_convertCase hc).2] at h
  have hle : ∀ {q : String}, (getParent path).toList <+: q.toList → getParent path ≤ q :=
    fun h => String.le_iff_toList_le.2 (not_lt.1 h.le)
  rcases h with h | h | h
  · have hfst : c.convertCase x.parentPath = getParent path := congrArg Prod.fst h
    exact hfst.ge
  · rw [h]
    exact hle (isPrefix_getParent hp)
  · exact hle ((isPrefix_getParent hp).trans ((List.prefix_append _ _).trans h))

end CasePolicy

/-! ## The answers -/

namespace CasePolicy

variable {c : CasePolicy} {ρ : Type} {columns : ρ → PathColumns} {rows : List ρ}

theorem isSome_getState_iff {parentPath name : String} :
    (c.getState columns parentPath name rows).isSome ↔
      ∃ r ∈ rows, c.SelectsState parentPath name (columns r) := by
  rw [getState, Option.isSome_iff_ne_none, Ne, List.argmin_eq_none, List.filter_eq_nil_iff]
  simp

/-- A change log answers if it has an entry at the path or below it, or a stray one. -/
theorem isSome_getState (hc : c.Upcases) (hp : c.EntryPath path)
    (hrows : ∀ r ∈ rows, c.Entry (columns r)) :
    (c.getState columns (getParent path) (getName path) rows).isSome ↔
      (∃ r ∈ rows, c.AtOrBelow path (relPath (columns r).parentPath (columns r).name)) ∨
        ∃ r ∈ rows, c.Stray path (columns r) := by
  rw [isSome_getState_iff, ← exists_or]
  refine exists_congr fun r => ?_
  rw [← and_or_left]
  exact and_congr_right fun hr => selectsState_iff hc hp (hrows r hr)

/-- The row of the download log that is answered is that of the path itself, as a file. -/
theorem getState_file_iff {rows : List DownloadRow} (hc : c.Upcases) (hp : c.EntryPath path)
    (hrows : ∀ r ∈ rows, c.Entry r.columns) :
    (∃ r, c.downloadChangeLogGetState (getParent path) (getName path) rows = some r ∧
      r.parentPath = getParent path ∧ r.name = getName path ∧ r.isDir = false) ↔
    c.DownloadsFile path rows := by
  set sel := fun r : DownloadRow => c.SelectsState (getParent path) (getName path) r.columns
  have hmem : ∀ r ∈ rows.filter (fun r => sel r), r ∈ rows ∧ sel r := by simp
  have hkey : ∀ r ∈ rows, c.orderKey r.columns = ↑(c.convertCase r.parentPath) :=
    fun r hr => orderKey_eq (hrows r hr).derived
  have hparent : c.convertCase (getParent path) = getParent path :=
    hp.convertCase_eq_self hc _ fun ch hch => .inl (hp.mem_of_mem (.inl hch))
  have hfirst : (rows.filter fun r => sel r).find?
      (fun r => c.orderKey r.columns = ↑(getParent path)) =
      rows.find? fun r => c.fold (r.parentPath, r.name) = (getParent path, getName path) := by
    rw [List.find?_filter]
    refine List.find?_congr fun r hr => ?_
    have hiff := eq_getParent_iff hc hp (hrows r hr)
    have hsel : c.fold (r.parentPath, r.name) = (getParent path, getName path) → sel r :=
      fun h => (selectsState_iff hc hp (hrows r hr)).2 <| .inl <| atOrBelow_iff.2 <| .inl <|
        ((hrows r hr).convertCase_relPath_eq_iff hc hp).2 h
    simp only [hkey r hr, WithBot.coe_inj, decide_eq_true_eq, decide_eq_decide]
    exact ⟨fun h => (hiff h.1).1 h.2, fun h => ⟨hsel h, (hiff (hsel h)).2 h⟩⟩
  have hle : (∀ r ∈ rows.filter (fun r => sel r), ↑(getParent path) ≤ c.orderKey r.columns) ↔
      ∀ r ∈ rows, c.Stray path r.columns → ¬ c.convertCase r.parentPath < getParent path := by
    constructor
    · intro h r hr hstray
      have hsel : sel r := (selectsState_iff hc hp (hrows r hr)).2 (.inr hstray)
      have hk := h r (List.mem_filter.2 ⟨hr, by simpa using hsel⟩)
      rw [hkey r hr, WithBot.coe_le_coe] at hk
      exact hk.not_gt
    · intro h r hr
      obtain ⟨hr, hsel⟩ := hmem r hr
      rw [hkey r hr, WithBot.coe_le_coe]
      rcases (selectsState_iff hc hp (hrows r hr)).1 hsel with hat | hstray
      · exact getParent_le hc hp (hrows r hr) hat
      · exact le_of_not_gt (h r hr hstray)
  rw [DownloadsFile, ← hfirst, ← hle]
  constructor
  · rintro ⟨r, hr, hpp, hn, hdir⟩
    have hrk : c.orderKey r.columns = ↑(getParent path) := by
      rw [hkey r (hmem r (List.argmin_mem hr)).1, hpp, hparent]
    obtain ⟨hle, hfind⟩ := argmin_eq_some_and_iff.1 ⟨hr, hrk⟩
    exact ⟨⟨r, hfind, hpp, hn, hdir⟩, hle⟩
  · rintro ⟨⟨r, hfind, hpp, hn, hdir⟩, hle⟩
    exact ⟨r, (argmin_eq_some_and_iff.2 ⟨hle, hfind⟩).1, hpp, hn, hdir⟩

end CasePolicy

namespace SyncRoot

variable {s : SyncRoot} {db : StateDb} {parentPath name : String}

theorem needsDownload_queryState (s : SyncRoot) (db : StateDb) (parentPath name : String) :
    (s.queryState db parentPath name).NeedsDownload ↔
    (s.policy.downloadChangeLogGetState parentPath name db.downloadChangeLog).isSome := by
  unfold queryState SyncState.NeedsDownload
  cases s.policy.downloadChangeLogGetState parentPath name db.downloadChangeLog with
  | some down =>
    simp only [Option.isSome_some, iff_true]
    split_ifs <;> simp
  | none =>
    simp only [Option.isSome_none, Bool.false_eq_true, iff_false]
    split_ifs
    · simp
    · simp
    · cases HistoryTree.get s.policy parentPath name db.syncHistoryTree with
      | ok r => simp
      | error e => cases e; simp

theorem needsUpload_queryState (s : SyncRoot) (db : StateDb) (parentPath name : String) :
    (s.queryState db parentPath name).NeedsUpload ↔
    ¬ (∃ r, s.policy.downloadChangeLogGetState parentPath name db.downloadChangeLog = some r ∧
      r.parentPath = parentPath ∧ r.name = name ∧ r.isDir = false) ∧
    ((s.policy.uploadChangeLogGetState parentPath name db.uploadChangeLog).isSome ∨
      s.findFromIncrementalLocalScanPaths parentPath name) := by
  unfold queryState SyncState.NeedsUpload
  cases s.policy.downloadChangeLogGetState parentPath name db.downloadChangeLog with
  | some down =>
    simp only [Option.some.injEq, exists_eq_left']
    split_ifs with hfile hup hfind
    · exact iff_of_false (by simp) fun h => h.1 (by simpa using hfile)
    · simpa [hup] using hfile
    · simpa [hup, hfind] using hfile
    · simp [hup, hfind]
  | none =>
    split_ifs with hup hfind
    · simp [hup]
    · simp [hfind]
    · cases HistoryTree.get s.policy parentPath name db.syncHistoryTree with
      | ok r => simp [hup, hfind]
      | error e => cases e; simp [hup, hfind]

theorem upToDate_queryState
    (hdown : ¬ (s.policy.downloadChangeLogGetState parentPath name db.downloadChangeLog).isSome)
    (hup : ¬ (s.policy.uploadChangeLogGetState parentPath name db.uploadChangeLog).isSome)
    (hfind : ¬ s.findFromIncrementalLocalScanPaths parentPath name) :
    s.queryState db parentPath name = .upToDate ↔
      ∃ r ∈ db.syncHistoryTree, s.policy.Selects parentPath name r.columns := by
  rw [Option.not_isSome_iff_eq_none] at hdown
  simp only [queryState, hdown, if_neg hup, if_neg hfind, HistoryTree.get]
  cases hr : db.syncHistoryTree.find? fun r => s.policy.Selects parentPath name r.columns with
  | none =>
    rw [List.find?_eq_none] at hr
    simpa [HistoryTree.answer] using hr
  | some r =>
    have hsel := List.find?_some hr
    simp only [HistoryTree.answer, true_iff]
    exact ⟨r, List.mem_of_find?_eq_some hr, by simpa using hsel⟩

theorem findFromIncrementalLocalScanPaths_iff (hc : s.policy.Upcases)
    (hp : s.policy.EntryPath path) :
    s.findFromIncrementalLocalScanPaths (getParent path) (getName path) ↔
      ∃ q ∈ s.incrementalLocalScanPaths, s.policy.Hits path q := by
  have hfold : s.policy.convertCase (getParent path ++ getName path) =
      getParent path ++ getName path := by
    refine hp.convertCase_eq_self hc _ fun ch hch => .inl (hp.mem_of_mem ?_)
    rwa [String.toList_append, List.mem_append] at hch
  simp [findFromIncrementalLocalScanPaths, hfold, CasePolicy.Hits, String.toList_append]

end SyncRoot

/-! ## Paths in the sync root -/

/-- No separator follows another. -/
def Single (l : List Char) : Prop :=
  l.IsChain fun a b => a ≠ '/' ∨ b ≠ '/'

theorem single_squeeze (lastWasSlash : Bool) (l : List Char) :
    Single (squeeze lastWasSlash l) ∧
      (lastWasSlash → (squeeze lastWasSlash l).head? ≠ some '/') := by
  induction l generalizing lastWasSlash with
  | nil => exact ⟨.nil, by simp [squeeze]⟩
  | cons curr l ih =>
    rw [squeeze]
    split_ifs with hslash hlast
    · exact ⟨(ih true).1, fun _ => (ih true).2 rfl⟩
    · refine ⟨List.isChain_cons.2 ⟨fun y hy => .inr ?_, (ih true).1⟩, fun h => absurd h hlast⟩
      rintro rfl
      exact (ih true).2 rfl hy
    · obtain ⟨hcurr, -⟩ := not_or.1 hslash
      exact ⟨List.isChain_cons.2 ⟨fun y _ => .inl hcurr, (ih false).1⟩, fun _ => by simpa⟩

theorem mem_squeeze {lastWasSlash : Bool} {l : List Char} {ch : Char}
    (h : ch ∈ squeeze lastWasSlash l) : ch ∈ l ∨ ch = '/' := by
  induction l generalizing lastWasSlash with
  | nil => exact absurd h (by simp [squeeze])
  | cons curr l ih =>
    rw [squeeze] at h
    split_ifs at h
    · exact (ih h).imp_left (List.mem_cons_of_mem _)
    · rcases List.mem_cons.1 h with h | h
      · exact .inr h
      · exact (ih h).imp_left (List.mem_cons_of_mem _)
    · rcases List.mem_cons.1 h with h | h
      · exact .inl (List.mem_cons.2 (.inl h))
      · exact (ih h).imp_left (List.mem_cons_of_mem _)

theorem isPrefix_cleanupPath (q : String) : (cleanupPath q).toList <+: squeeze false q.toList := by
  rw [cleanupPath, String.toList_ofList, ← List.reverse_suffix, List.reverse_reverse]
  exact List.dropWhile_suffix _

theorem slash_notMem_getName (q : String) : '/' ∉ (getName q).toList := by
  rw [getName, String.toList_ofList, List.mem_reverse]
  intro h
  simpa using List.mem_takeWhile_imp h

theorem relPath_getParent_getName (h : q.toList.head? ≠ some '/') :
    relPath (getParent q) (getName q) = q := by
  have hsplit := List.takeWhile_append_dropWhile (p := (· != '/')) (l := q.toList.reverse)
  apply String.toList_injective
  rw [← List.reverse_inj, ← hsplit]
  unfold relPath getParent getName
  cases hdrop : q.toList.reverse.dropWhile (· != '/') with
  | nil => simp
  | cons x l =>
    have hx : x = '/' := by
      have hhead := List.head_dropWhile_not (p := (· != '/')) (l := q.toList.reverse)
        (by simp [hdrop])
      simpa [hdrop] using hhead
    have hl : l ≠ [] := by
      rintro rfl
      rw [hdrop, hx] at hsplit
      have hq := congrArg List.reverse hsplit
      rw [List.reverse_reverse, List.reverse_append] at hq
      exact h (by rw [← hq]; rfl)
    simp [hx, hl, String.toList_append]

/-! ## The state of a path -/

namespace SyncRoot

variable {s : SyncRoot} {db : StateDb} {absPathTs : String}

/-- What the statements that fill the tables leave behind: rows for entries of directories and,
in the history, the row that `setRootCompId` stores. -/
structure Regular (s : SyncRoot) (db : StateDb) : Prop where
  uploads : ∀ r ∈ db.uploadChangeLog, s.policy.Entry r.columns
  downloads : ∀ r ∈ db.downloadChangeLog, s.policy.Entry r.columns
  history : ∀ r ∈ db.syncHistoryTree,
    r.columns = s.policy.columns "" "" ∨ s.policy.Entry r.columns

theorem text_cleanupPath (h : s.policy.Text absPathTs) : s.policy.Text (cleanupPath absPathTs) := by
  intro hci ch hch
  rcases mem_squeeze ((isPrefix_cleanupPath absPathTs).subset hch) with hmem | rfl
  · exact h hci ch hmem
  · decide

theorem single_absPath (hc : s.policy.Upcases) (h : s.policy.Text absPathTs) :
    Single (s.absPath absPathTs).toList := by
  have hslash := CasePolicy.upper_eq_iff (c := s.policy) (d := '/') (by decide)
  have hclean : Single (cleanupPath absPathTs).toList := by
    obtain ⟨t, ht⟩ := isPrefix_cleanupPath absPathTs
    have hsqueeze := (single_squeeze false absPathTs.toList).1
    rw [← ht] at hsqueeze
    exact hsqueeze.left_of_append
  rw [absPath, CasePolicy.convertCase_eq hc (text_cleanupPath h), String.toList_ofList]
  exact List.isChain_map_of_isChain _ (fun a b hab => by simpa only [Ne, hslash] using hab) hclean

theorem toList_absPath {absPath : String} (hin : s.IsInSyncRoot absPath) :
    absPath.toList = s.root.toList ++ '/' :: (s.relPathOf absPath).toList := by
  obtain ⟨⟨t, ht⟩, hslash⟩ := hin
  rw [← ht, List.getElem?_append_right le_rfl, Nat.sub_self] at hslash
  cases t with
  | nil => exact absurd hslash (by simp)
  | cons x t =>
    obtain rfl := Option.some_inj.1 hslash
    rw [relPathOf, String.toList_ofList, ← ht]
    simp

/-- The relative path of an unfiltered path in the sync root. -/
theorem entryPath_relPathOf (hc : s.policy.Upcases) (htext : s.policy.Text absPathTs)
    (hin : s.IsInSyncRoot (s.absPath absPathTs))
    (hf : ¬ s.IsFiltered (s.relPathOf (s.absPath absPathTs))) :
    s.policy.EntryPath (s.relPathOf (s.absPath absPathTs)) := by
  have hlist := toList_absPath hin
  have hsub : ∀ ch ∈ (s.relPathOf (s.absPath absPathTs)).toList,
      ch ∈ (s.absPath absPathTs).toList := by
    intro ch hch
    rw [hlist]
    exact List.mem_append_right _ (List.mem_cons_of_mem _ hch)
  have htext' := text_cleanupPath htext
  refine ⟨relPath_getParent_getName ?_, ⟨?_, slash_notMem_getName _⟩, ?_, ?_⟩
  · intro hhead
    have hsingle := (single_absPath hc htext).suffix ⟨_, hlist.symm⟩
    have hrel := (List.isChain_cons.1 hsingle).1 '/' hhead
    simp at hrel
  · intro hname
    refine hf (.inl fun hvalid => hvalid.1 ?_)
    rw [hname]
    exact (CasePolicy.convertCase_eq_empty_iff hc fun _ => by simp).2 rfl
  · exact fun hci ch hch => CasePolicy.text_convertCase hc htext' hci ch (hsub ch hch)
  · exact fun ch hch => CasePolicy.upper_of_mem hc htext' ch (hsub ch hch)

theorem state_getSyncStateForPath (hdb : s.getStateDb = some db)
    (hin : s.IsInSyncRoot (s.absPath absPathTs))
    (hf : ¬ s.IsFiltered (s.relPathOf (s.absPath absPathTs))) :
    (s.getSyncStateForPath absPathTs).state =
      s.queryState db (getParent (s.relPathOf (s.absPath absPathTs)))
        (getName (s.relPathOf (s.absPath absPathTs))) := by
  have hroot : ¬ s.IsSyncRoot (s.absPath absPathTs) := by
    intro h
    have hslash := hin.2
    rw [h] at hslash
    simp at hslash
  simp [getSyncStateForPath, hroot, hin, hf, hdb]

/-- When the two answers are right, given what makes them positive. -/
theorem answers_right_iff {needsUpload needsDownload down strayDown file up strayUp hit : Prop}
    (scan : Prop) (hdown : needsDownload ↔ down ∨ strayDown)
    (hup : needsUpload ↔ ¬ file ∧ ((up ∨ strayUp) ∨ hit)) :
    (needsUpload ↔ up ∨ scan) ∧ (needsDownload ↔ down) ↔
      (strayDown → down) ∧ (file → ¬ (up ∨ scan)) ∧
        (¬ file → up ∨ (strayUp ∨ hit ↔ scan)) := by
  rw [hdown, hup]
  by_cases file <;> by_cases up <;> simp [*] <;> tauto

/-- The state of a path is exact for the contents of the tables that `Tellable` describes. -/
theorem stateExact_iff (hc : s.policy.Upcases) (hdb : s.getStateDb = some db)
    (hreg : s.Regular db) (htext : s.policy.Text absPathTs)
    (hin : s.IsInSyncRoot (s.absPath absPathTs))
    (hf : ¬ s.IsFiltered (s.relPathOf (s.absPath absPathTs))) :
    s.StateExact db (s.relPathOf (s.absPath absPathTs)) (s.getSyncStateForPath absPathTs).state ↔
      s.Tellable db (s.relPathOf (s.absPath absPathTs)) := by
  have hp := entryPath_relPathOf hc htext hin hf
  rw [state_getSyncStateForPath hdb hin hf]
  generalize s.relPathOf (s.absPath absPathTs) = path at hp
  have hdown := (needsDownload_queryState s db _ _).trans (CasePolicy.isSome_getState hc hp hreg.downloads)
  have hup := CasePolicy.isSome_getState hc hp hreg.uploads
  have hfile := CasePolicy.getState_file_iff hc hp hreg.downloads
  have hfind := findFromIncrementalLocalScanPaths_iff hc hp
  have hneeds := needsUpload_queryState s db (getParent path) (getName path)
  rw [hfile, CasePolicy.uploadChangeLogGetState, hup, hfind] at hneeds
  have hright := answers_right_iff (∃ q ∈ s.incrementalLocalScanPaths, s.policy.AtOrBelow path q)
    hdown hneeds
  constructor
  · intro h
    obtain ⟨hdownload, hfile, hupload⟩ := hright.1 ⟨h.upload, h.download⟩
    exact ⟨hdownload, hfile, hupload⟩
  · intro h
    obtain ⟨hu, hd⟩ := hright.2 ⟨h.download, h.file, h.upload⟩
    refine ⟨hu, hd, fun hnu hnd => ?_⟩
    have hnodown : ¬ (s.policy.downloadChangeLogGetState (getParent path) (getName path)
        db.downloadChangeLog).isSome := by
      rw [← needsDownload_queryState, hd]
      exact hnd
    have hnofile : ¬ s.policy.DownloadsFile path db.downloadChangeLog := by
      rw [← hfile]
      rintro ⟨r, hr, -⟩
      exact hnodown (by rw [hr]; rfl)
    obtain ⟨hnoup, hnofind⟩ := not_or.1 fun h => hnu (hu.1 (hneeds.2 ⟨hnofile, h⟩))
    have hsel : ∀ r ∈ db.syncHistoryTree,
        (s.policy.Selects (getParent path) (getName path) r.columns ↔
          s.policy.convertCase (relPath r.parentPath r.name) = path) := by
      intro r hr
      rcases hreg.history r hr with hroot | hentry
      · exact CasePolicy.selects_root_iff hc hp hroot
      · rw [CasePolicy.selects_iff hentry.derived, hp.fold_eq hc]
        exact (hentry.convertCase_relPath_eq_iff hc hp).symm
    rw [upToDate_queryState hnodown (by rwa [CasePolicy.uploadChangeLogGetState, hup])
      (by rwa [hfind])]
    exact exists_congr fun r => and_congr_right (hsel r)

/-- A sync root with one new file to upload. The history holds the row of the root alone. -/
def withUpload (caseInsensitive : Bool) (parentPath name : String) : SyncRoot × StateDb :=
  let policy : CasePolicy :=
    ⟨caseInsensitive, fun s => String.ofList (s.toList.map DatasetDb.upcase)⟩
  let entry : UploadEntry := ⟨parentPath, name, false, .create, none, none, "", none⟩
  let root : HistoryRow :=
    ⟨"", "", true, some 1, none, none, none, none, false, "", none, none, none⟩
  let db : StateDb :=
    ⟨(UploadChangeLog.add policy entry ⟨[], 0⟩).rows, [], HistoryTree.add policy root []⟩
  (⟨policy, "/r", 1, [], some db⟩, db)

theorem upcases_withUpload (caseInsensitive : Bool) (parentPath name : String) :
    (withUpload caseInsensitive parentPath name).1.policy.Upcases :=
  fun _ _ => rfl

theorem regular_withUpload {caseInsensitive : Bool} {parentPath name : String}
    (hname : name ≠ "" ∧ '/' ∉ name.toList)
    (htext : (withUpload caseInsensitive parentPath name).1.policy.Text (parentPath ++ name)) :
    (withUpload caseInsensitive parentPath name).1.Regular
      (withUpload caseInsensitive parentPath name).2 := by
  obtain ⟨hparent, htext⟩ := CasePolicy.text_append.1 htext
  refine ⟨?_, fun _ h => (List.not_mem_nil h).elim, ?_⟩
  · intro r hr
    obtain rfl := List.mem_singleton.1 hr
    exact ⟨rfl, hname, hparent, htext⟩
  · intro r hr
    obtain rfl := List.mem_singleton.1 hr
    exact .inl rfl

/-- A directory asked for in another spelling. -/
theorem stateExact_otherSpelling : (withUpload true "Docs" "a").1.StateExact
    (withUpload true "Docs" "a").2 "DOCS"
    ((withUpload true "Docs" "a").1.getSyncStateForPath "/R//docs/").state := by
  have hrel : (withUpload true "Docs" "a").1.relPathOf
      ((withUpload true "Docs" "a").1.absPath "/R//docs/") = "DOCS" := by decide +kernel
  have hentry : (withUpload true "Docs" "a").1.policy.Text ("Docs" ++ "a") :=
    CasePolicy.text_of_all (by decide +kernel)
  have htext : (withUpload true "Docs" "a").1.policy.Text "/R//docs/" :=
    CasePolicy.text_of_all (by decide +kernel)
  have h := stateExact_iff (upcases_withUpload true "Docs" "a") rfl
    (regular_withUpload ⟨by decide, by decide⟩ hentry) htext (by decide +kernel)
    (by decide +kernel)
  rw [hrel] at h
  refine h.2 ⟨?_, ?_, fun _ => .inl ⟨_, List.mem_singleton_self _, ?_⟩⟩
  · rintro ⟨r, hr, -⟩
    exact absurd hr List.not_mem_nil
  · rintro ⟨⟨r, hr, -⟩, -⟩
    exact absurd hr (by simp [withUpload])
  · rw [CasePolicy.AtOrBelow]
    decide +kernel

/-- A file waits in `axb/c`, and the state of `a_b` is that of a directory with a file to
upload. -/
theorem not_stateExact_wildcard :
    (withUpload false "axb/c" "f").1.Regular (withUpload false "axb/c" "f").2 ∧
      (withUpload false "axb/c" "f").1.IsInSyncRoot "/r/a_b" ∧
      ¬ (withUpload false "axb/c" "f").1.IsFiltered "a_b" ∧
      ¬ (withUpload false "axb/c" "f").1.StateExact (withUpload false "axb/c" "f").2 "a_b"
        ((withUpload false "axb/c" "f").1.getSyncStateForPath "/r/a_b").state := by
  refine ⟨regular_withUpload ⟨by decide, by decide⟩ (fun h => absurd h (by decide)),
    by decide +kernel, by decide +kernel, fun h => ?_⟩
  have hstate : ((withUpload false "axb/c" "f").1.getSyncStateForPath "/r/a_b").state =
      .needToUpload := by decide +kernel
  rcases h.upload.1 (.inl hstate) with ⟨r, hr, hat⟩ | ⟨q, hq, -⟩
  · obtain rfl := List.mem_singleton.1 hr
    rw [CasePolicy.AtOrBelow] at hat
    exact absurd hat (by decide +kernel)
  · exact absurd hq List.not_mem_nil

end SyncRoot

end PersonalCloud.SyncConfig
