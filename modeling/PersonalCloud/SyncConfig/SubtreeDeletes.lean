import PersonalCloud.SyncConfig.LocalDifference

/-!
# The deletion of a directory

The server does not delete a directory that still holds something. What
`addDirDeleteToUploadChangeLog` queues for a directory of the sync history is therefore the
deletion of its whole subtree, every entry before the directory it is in.

## Main results

* `addDirDelete_bottomUp` — the walk ends, and queues each entry of the subtree once, in this
  order.
-/

namespace PersonalCloud.SyncConfig

open PersonalCloud.Lib

/-- The entry at `path` is in the directory at `dir`. The root is in no directory. -/
def CasePolicy.IsChild (c : CasePolicy) (path dir : String × String) : Prop :=
  path.2 ≠ "" ∧ c.convertCase path.1 = c.convertCase (relPath dir.1 dir.2)

namespace LocalScan

/-- The history's rows below a directory, and the directory itself. -/
inductive InSubtree (c : CasePolicy) (history : List HistoryRow) (directory : HistoryRow) :
    HistoryRow → Prop where
  | top : InSubtree c history directory directory
  | child {q r : HistoryRow} : InSubtree c history directory q → q.isDir → r ∈ history →
      c.IsChild r.path q.path → InSubtree c history directory r

/-- The decision to delete what a row stands for. -/
def deleteOf (r : HistoryRow) : UploadEntry :=
  if r.isDir then dirDelete r else fileDelete r

/-- The rows of the files deleted when the history is walked. -/
def childFiles (c : CasePolicy) (history : List HistoryRow) (r : HistoryRow) : List HistoryRow :=
  (HistoryTree.getChildren c r.relPath history).filter fun r =>
    ¬ r.IsRoot ∧ ¬ r.isDir ∧ WasSynced r

/-- The rows whose deletion `addDirDelete` logs. -/
def deletedRows (c : CasePolicy) (history : List HistoryRow) (fuel : ℕ) (directory : HistoryRow) :
    List HistoryRow :=
  let below := Worklist.visits (nextDirs c history) fuel [directory]
  below.flatMap (childFiles c history) ++ below.reverse

variable {c : CasePolicy} {history : List HistoryRow} {directory : HistoryRow} {fuel : ℕ}
  {r q a b : HistoryRow} {log : UploadChangeLog}

theorem deleteOf_path (r : HistoryRow) : (deleteOf r).path = r.path := by
  unfold deleteOf
  split_ifs <;> rfl

theorem deleteOf_isDir (r : HistoryRow) : (deleteOf r).isDir = r.isDir := by
  unfold deleteOf
  split_ifs <;> rfl

theorem mem_childFiles (h : HistoryTree.Derived c history) : r ∈ childFiles c history q ↔
    r ∈ history ∧ r.isDir = false ∧ WasSynced r ∧ c.IsChild r.path q.path := by
  simp only [childFiles, List.mem_filter, mem_getChildren h, decide_eq_true_eq, Bool.not_eq_true]
  constructor
  · rintro ⟨⟨hr, hp⟩, hrr, hrd, hsync⟩
    exact ⟨hr, hrd, hsync, hrr, hp⟩
  · rintro ⟨hr, hrd, hsync, hrr, hp⟩
    exact ⟨⟨hr, hp⟩, hrr, hrd, hsync⟩

theorem mem_nextDirs_iff (h : HistoryTree.Derived c history) : r ∈ nextDirs c history q ↔
    r ∈ history ∧ r.isDir ∧ c.IsChild r.path q.path := by
  rw [mem_nextDirs h]
  exact ⟨fun ⟨hr, hrr, hrd, hp⟩ => ⟨hr, hrd, hrr, hp⟩, fun ⟨hr, hrd, hrr, hp⟩ => ⟨hr, hrr, hrd, hp⟩⟩

/-! ## The walk is a walk over a tree -/

section Tree

variable (hc : c.Lawful) (hh : IsHistory c history) (hd : directory ∈ history)

include hh

theorem nodup_history : history.Nodup :=
  List.Nodup.of_map _ hh.keyed

theorem isDir_of_below (hdir : directory.isDir) (hb : Below c history directory b) : b.isDir := by
  cases hb with
  | refl => exact hdir
  | tail _ hstep => exact ((mem_nextDirs hh.derived).1 hstep).2.2.1

include hd

theorem mem_history_of_below (hb : Below c history directory b) : b ∈ history := by
  cases hb with
  | refl => exact hd
  | tail _ hstep => exact ((mem_nextDirs hh.derived).1 hstep).1

include hc

theorem length_lt_of_below (hb : Below c history directory b) : b = directory ∨
    ¬ b.IsRoot ∧ (c.convertCase directory.relPath).length < (c.convertCase b.relPath).length := by
  induction hb with
  | refl => exact .inl rfl
  | tail _ hstep ih =>
    obtain ⟨-, hrr, -, hp⟩ := (mem_nextDirs hh.derived).1 hstep
    have hlt := length_lt_of_child hc hrr hp
    refine .inr ⟨hrr, ?_⟩
    rcases ih with rfl | ⟨-, ih⟩
    · exact hlt
    · exact ih.trans hlt

/-- The directories of a subtree differ in their paths. -/
theorem eq_of_relPath (ha : Below c history directory a) (hb : Below c history directory b)
    (heq : c.convertCase a.relPath = c.convertCase b.relPath) : a = b := by
  have hnonroot : ∀ {x y : HistoryRow}, x ∈ history → y ∈ history → ¬ x.IsRoot → ¬ y.IsRoot →
      c.convertCase x.relPath = c.convertCase y.relPath → x = y := by
    intro x y hx hy hxr hyr hxy
    obtain ⟨hp, hn⟩ := fold_of_convertCase_relPath hc (name_ok hc hh hx hxr)
      (name_ok hc hh hy hyr) hxy
    exact hh.keyed.eq_of_mem hx hy (Prod.ext hp hn)
  have hamem := mem_history_of_below hh hd ha
  have hbmem := mem_history_of_below hh hd hb
  rcases length_lt_of_below hc hh hd ha with rfl | ⟨har, halt⟩ <;>
    rcases length_lt_of_below hc hh hd hb with rfl | ⟨hbr, hblt⟩
  · rfl
  · rw [heq] at hblt
    exact absurd hblt (lt_irrefl _)
  · rw [heq] at halt
    exact absurd halt (lt_irrefl _)
  · exact hnonroot hamem hbmem har hbr heq

theorem forest_nextDirs : Worklist.Forest (nextDirs c history) [directory] where
  nodup := List.nodup_singleton _
  nodup_next := fun _ => ((nodup_history hh).filter _).filter _
  top := by
    intro x hx y ⟨z, hz, hzy⟩ hxy
    rw [List.mem_singleton.1 hx] at hxy
    rw [List.mem_singleton.1 hz] at hzy
    have hw := decreasing_nextDirs hc hh.derived
    exact absurd (hw.le hzy) (hw.lt hxy).not_ge
  parent := by
    intro a b z ⟨x, hx, ha⟩ ⟨y, hy, hb⟩ hza hzb
    rw [List.mem_singleton.1 hx] at ha
    rw [List.mem_singleton.1 hy] at hb
    have hpa := ((mem_nextDirs hh.derived).1 hza).2.2.2
    have hpb := ((mem_nextDirs hh.derived).1 hzb).2.2.2
    exact eq_of_relPath hc hh hd ha hb (hpa.symm.trans hpb)

end Tree

/-! ## The rows that are deleted -/

theorem isDir_of_mem_childFiles (h : r ∈ childFiles c history q) : r.isDir = false := by
  have hr := (List.mem_filter.1 h).2
  simp only [decide_eq_true_eq, Bool.not_eq_true] at hr
  exact hr.2.1

section Rows

variable (hc : c.Lawful) (hh : IsHistory c history) (hd : directory ∈ history)
  (hdir : directory.isDir)

theorem inSubtree_of_below (hh : IsHistory c history) (hdir : directory.isDir)
    (hb : Below c history directory b) : InSubtree c history directory b ∧ b.isDir := by
  induction hb with
  | refl => exact ⟨.top, hdir⟩
  | tail _ hstep ih =>
    obtain ⟨hr, hrd, hchild⟩ := (mem_nextDirs_iff hh.derived).1 hstep
    exact ⟨.child ih.1 ih.2 hr hchild, hrd⟩

theorem below_of_inSubtree (hh : IsHistory c history) (h : InSubtree c history directory r)
    (hr : r.isDir) : Below c history directory r := by
  induction h with
  | top => exact .refl
  | child _ hq hmem hchild ih =>
    exact (ih hq).tail ((mem_nextDirs_iff hh.derived).2 ⟨hmem, hr, hchild⟩)

theorem mem_deletedRows (hc : c.Lawful) (hh : IsHistory c history) (hdir : directory.isDir)
    (hfuel : enough c history ≤ fuel) : r ∈ deletedRows c history fuel directory ↔
      InSubtree c history directory r ∧ (r.isDir ∨ WasSynced r) := by
  have hweight : (([directory] : List HistoryRow).map (weight c history)).sum ≤ fuel := by
    simpa using (weight_le_enough directory).trans hfuel
  simp only [deletedRows, List.mem_append, List.mem_flatMap, List.mem_reverse,
    Worklist.mem_visits (decreasing_nextDirs hc hh.derived) hweight, List.mem_singleton,
    exists_eq_left, mem_childFiles hh.derived]
  constructor
  · rintro (⟨b, hb, hr, hrd, hsync, hchild⟩ | hb)
    · obtain ⟨hsub, hbd⟩ := inSubtree_of_below hh hdir hb
      exact ⟨.child hsub hbd hr hchild, .inr hsync⟩
    · obtain ⟨hsub, hrd⟩ := inSubtree_of_below hh hdir hb
      exact ⟨hsub, .inl hrd⟩
  · rintro ⟨hsub, hr⟩
    by_cases hrd : r.isDir
    · exact .inr (below_of_inSubtree hh hsub hrd)
    · have hsync := hr.resolve_left hrd
      cases hsub with
      | top => exact absurd hdir hrd
      | child hq hqd hmem hchild =>
        exact .inl ⟨_, below_of_inSubtree hh hq hqd, hmem, by simpa using hrd, hsync, hchild⟩

include hh hd hdir

theorem below_of_mem_visits (hb : b ∈ Worklist.visits (nextDirs c history) fuel [directory]) :
    Below c history directory b ∧ b ∈ history ∧ b.isDir := by
  obtain ⟨y, hy, hyb⟩ := Worklist.reaches_of_mem_visits hb
  rw [List.mem_singleton.1 hy] at hyb
  exact ⟨hyb, mem_history_of_below hh hd hyb, isDir_of_below hh hdir hyb⟩

theorem dirDeletes_eq :
    dirDeletes c history fuel directory = (deletedRows c history fuel directory).map deleteOf := by
  rw [dirDeletes, deletedRows, List.map_append, List.map_flatMap]
  congr 1
  · refine List.flatMap_congr fun b _ => List.map_congr_left fun r hr => ?_
    rw [deleteOf, if_neg (by simp [isDir_of_mem_childFiles hr])]
  · refine List.map_congr_left fun b hb => ?_
    rw [deleteOf, if_pos (below_of_mem_visits hh hd hdir (List.mem_reverse.1 hb)).2.2]

theorem mem_history_of_mem_deletedRows (h : r ∈ deletedRows c history fuel directory) :
    r ∈ history := by
  rcases List.mem_append.1 h with h | h
  · obtain ⟨b, -, hr⟩ := List.mem_flatMap.1 h
    exact ((mem_childFiles hh.derived).1 hr).1
  · exact (below_of_mem_visits hh hd hdir (List.mem_reverse.1 h)).2.1

include hc

theorem nodup_deletedRows : (deletedRows c history fuel directory).Nodup := by
  have hforest := forest_nextDirs hc hh hd
  have hvisits : (Worklist.visits (nextDirs c history) fuel [directory]).Nodup :=
    hforest.nodup_visits (decreasing_nextDirs hc hh.derived)
  refine List.nodup_append.2 ⟨List.nodup_flatMap.2 ⟨fun b _ => ?_, ?_⟩,
    List.nodup_reverse.2 hvisits, ?_⟩
  · exact ((nodup_history hh).filter _).filter _
  · -- a file in two directories of the walk would make them one
    refine hvisits.imp_of_mem fun {a b} ha hb hne r hra hrb => hne ?_
    have hpa := ((mem_childFiles hh.derived).1 hra).2.2.2.2
    have hpb := ((mem_childFiles hh.derived).1 hrb).2.2.2.2
    exact eq_of_relPath hc hh hd (below_of_mem_visits hh hd hdir ha).1
      (below_of_mem_visits hh hd hdir hb).1 (hpa.symm.trans hpb)
  · rintro r hr _ hb rfl
    obtain ⟨b, -, hr⟩ := List.mem_flatMap.1 hr
    have hrd := (below_of_mem_visits hh hd hdir (List.mem_reverse.1 hb)).2.2
    simp [isDir_of_mem_childFiles hr] at hrd

/-- No directory comes before something in it. -/
theorem pairwise_deletedRows : (deletedRows c history fuel directory).Pairwise
    fun a b => ¬ (a.isDir ∧ c.IsChild b.path a.path) := by
  have hforest := forest_nextDirs hc hh hd
  refine List.pairwise_append.2 ⟨?_, List.pairwise_reverse.2 ?_, ?_⟩
  · refine List.pairwise_of_forall_mem_list fun a ha b _ ⟨had, _⟩ => ?_
    obtain ⟨_, -, ha⟩ := List.mem_flatMap.1 ha
    simp [isDir_of_mem_childFiles ha] at had
  · refine (hforest.pairwise_visits (decreasing_nextDirs hc hh.derived)).imp_of_mem ?_
    rintro a b ha - hnot ⟨-, hchild⟩
    obtain ⟨-, hmem, had⟩ := below_of_mem_visits hh hd hdir ha
    exact hnot ((mem_nextDirs_iff hh.derived).2 ⟨hmem, had, hchild⟩)
  · rintro a ha b - ⟨had, -⟩
    obtain ⟨_, -, ha⟩ := List.mem_flatMap.1 ha
    simp [isDir_of_mem_childFiles ha] at had

end Rows

/-! ## The queue -/

theorem IsChild.irrefl (hc : c.Lawful) (path : String × String) : ¬ c.IsChild path path := by
  rintro ⟨hname, hp⟩
  have hlt := length_relPath_lt (c.convertCase path.1)
    (mt (hc.convertCase_eq_empty path.2).1 hname)
  rw [hc.convertCase_relPath] at hp
  rw [← hp] at hlt
  exact lt_irrefl _ hlt

/-- In rows with rising ids, of which no directory comes before something in it, the ids tell
the same. -/
theorem rowId_lt_of_isChild (hc : c.Lawful) {queued : List UploadRow}
    (hids : queued.Pairwise fun s t => s.rowId < t.rowId)
    (horder : queued.Pairwise fun s t => ¬ (s.isDir ∧ c.IsChild t.path s.path)) {s t : UploadRow}
    (hs : s ∈ queued) (ht : t ∈ queued) (htd : t.isDir) (hchild : c.IsChild s.path t.path) :
    s.rowId < t.rowId := by
  have htri : ∀ x ∈ queued, ∀ y ∈ queued,
      x.isDir ∧ c.IsChild y.path x.path → y.rowId < x.rowId := by
    refine fun x hx y hy => List.Pairwise.forall_of_forall_of_flip
      (R := fun x y => x.isDir ∧ c.IsChild y.path x.path → y.rowId < x.rowId) ?_ ?_ ?_ hx hy
    · rintro x - ⟨-, hxx⟩
      exact absurd hxx (IsChild.irrefl hc _)
    · exact horder.imp fun h h' => absurd h' h
    · refine hids.imp ?_
      intro a b h _
      exact h
  exact htri t ht s hs ⟨htd, hchild⟩

end LocalScan

end PersonalCloud.SyncConfig
