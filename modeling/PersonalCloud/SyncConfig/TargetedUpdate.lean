import PersonalCloud.Lib.Sql
import PersonalCloud.SyncConfig.HistoryTree

/-!
# The updates of the sync history, statement by statement

Each of the five `syncHistoryTree_update…` functions prepares one of two statements, by whether
the database ignores case, and binds its parameters one by one. After the assertion that all of
them are bound the code goes on even if it has failed.

## Main results

* `exact_iff` — an update sets the given columns in the rows of the path and nothing else,
  unless it is `syncHistoryTree_updateCompId` where case matters and there is such a row.
* `run_cells` — on stored rows the statements do what the functions on rows do.
-/

namespace PersonalCloud.SyncConfig

open PersonalCloud.Lib

/-- The columns of `sync_history_tree`. -/
inductive Column where
  | parentPath
  | name
  | isDir
  | compId
  | revision
  | localMtime
  | lastSeenInVersion
  | versionScanned
  | isOnAcs
  | hashValue
  | fileSize
  | parentPathCi
  | nameCi
deriving DecidableEq, Repr

/-- What a column can hold, besides NULL. -/
inductive Value where
  | int (v : UInt64)
  | text (s : String)
deriving DecidableEq, Repr

/-- A stored row, with `none` for NULL. -/
abbrev Cells := Column → Option Value

namespace HistoryTree

/-! ## The statements -/

variable (c : CasePolicy) (parentPath name : String)

def bindInt64 (isPresent : Bool) (v : UInt64) : Option Value :=
  if isPresent then some (.int v) else none

/-- An empty string is bound as NULL. -/
def bindText (s : String) : Option Value :=
  if s = "" then none else some (.text s)

/-- The columns of the `WHERE` clause. -/
def pathColumns : List Column :=
  if c.caseInsensitive then [.parentPathCi, .nameCi] else [.parentPath, .name]

def bindPath : List (Option Value) :=
  if c.caseInsensitive then
    [some (.text (c.utf8Upper parentPath)), some (.text (c.utf8Upper name))]
  else [some (.text parentPath), some (.text name)]

/-- `sqlite3_step`, and the check of `sqlite3_changes`. -/
def execute (u : Sql.Update Column) (bound : List (Option Value)) (rows : List Cells) :
    Except DbError Unit × List Cells :=
  (if (u.run bound rows).1 = 0 then .error .rowNotFound else .ok (), (u.run bound rows).2)

/-- A call of one of the five functions, with the values and the flags that say whether they
are there. -/
inductive Call where
  | updateLocalTime (localMtimeExists : Bool) (localMtime : UInt64)
  | updateCompId (compIdExists : Bool) (compId : UInt64) (revisionExists : Bool)
      (revision : UInt64)
  | updateEntryInfo (localMtimeExists : Bool) (localMtime : UInt64) (compIdExists : Bool)
      (compId : UInt64) (revisionExists : Bool) (revision : UInt64) (hashValue : String)
      (fileSizeExists : Bool) (fileSize : UInt64)
  | updateLastSeenInVersion (lastSeenInVersionExists : Bool) (lastSeenInVersion : UInt64)
  | updateVersionScanned (versionScannedExists : Bool) (versionScanned : UInt64)

/-- The columns of the `SET` clause. -/
def Call.columns : Call → List Column
  | .updateLocalTime .. => [.localMtime]
  | .updateCompId .. =>
    if c.caseInsensitive then [.compId, .revision]
    else [.compId, .revision, .hashValue, .fileSize]
  | .updateEntryInfo .. => [.localMtime, .compId, .revision, .hashValue, .fileSize]
  | .updateLastSeenInVersion .. => [.lastSeenInVersion]
  | .updateVersionScanned .. => [.versionScanned]

/-- What is bound before the path. -/
def Call.values : Call → List (Option Value)
  | .updateLocalTime e t => [bindInt64 e t]
  | .updateCompId e i e' v => [bindInt64 e i, bindInt64 e' v]
  | .updateEntryInfo e t e' i e'' v h e''' z =>
    [bindInt64 e t, bindInt64 e' i, bindInt64 e'' v, bindText h, bindInt64 e''' z]
  | .updateLastSeenInVersion e v => [bindInt64 e v]
  | .updateVersionScanned e v => [bindInt64 e v]

def Call.run (rows : List Cells) (call : Call) : Except DbError Unit × List Cells :=
  execute ⟨call.columns c, pathColumns c⟩ (call.values ++ bindPath c parentPath name) rows

/-! ## What a call is for -/

/-- The row is for the path, up to case where the database ignores it. -/
def IsFor (row : Cells) : Prop :=
  if c.caseInsensitive then
    row .parentPathCi = some (.text (c.utf8Upper parentPath)) ∧
      row .nameCi = some (.text (c.utf8Upper name))
  else row .parentPath = some (.text parentPath) ∧ row .name = some (.text name)

instance : DecidablePred (IsFor c parentPath name) := fun _ =>
  inferInstanceAs (Decidable (if c.caseInsensitive then _ ∧ _ else _ ∧ _))

/-- The fields given by the parameters of a call. -/
def Call.given : Call → List (Column × Option Value)
  | .updateLocalTime e t => [(.localMtime, bindInt64 e t)]
  | .updateCompId e i e' v => [(.compId, bindInt64 e i), (.revision, bindInt64 e' v)]
  | .updateEntryInfo e t e' i e'' v h e''' z =>
    [(.localMtime, bindInt64 e t), (.compId, bindInt64 e' i), (.revision, bindInt64 e'' v),
      (.hashValue, bindText h), (.fileSize, bindInt64 e''' z)]
  | .updateLastSeenInVersion e v => [(.lastSeenInVersion, bindInt64 e v)]
  | .updateVersionScanned e v => [(.versionScanned, bindInt64 e v)]

/-- The call sets the given fields in the row for the path and leaves everything else as it is.
Without such a row it says so and changes nothing. -/
def Exact (rows : List Cells) (call : Call) : Prop :=
  call.run c parentPath name rows =
    if ∃ row ∈ rows, IsFor c parentPath name row then
      (.ok (), Table.update (IsFor c parentPath name) (Sql.assign call.given) rows)
    else (.error .rowNotFound, rows)

/-- The call whose statement sets two columns that it has no values for. -/
def Call.IsUpdateCompId : Call → Prop
  | .updateCompId .. => True
  | _ => False

variable {c parentPath name} {rows : List Cells} {call : Call}

theorem isFor_iff (row : Cells) : IsFor c parentPath name row ↔
    ∀ x ∈ (pathColumns c).zip (bindPath c parentPath name), x.2 ≠ none ∧ row x.1 = x.2 := by
  by_cases h : c.caseInsensitive <;> simp [IsFor, pathColumns, bindPath, h]

/-- A statement whose parameters are all bound. -/
theorem execute_append {columns : List Column} {values : List (Option Value)}
    (h : columns.length = values.length) :
    execute ⟨columns, pathColumns c⟩ (values ++ bindPath c parentPath name) rows =
      if ∃ row ∈ rows, IsFor c parentPath name row then
        (.ok (), Table.update (IsFor c parentPath name) (Sql.assign (columns.zip values)) rows)
      else (.error .rowNotFound, rows) := by
  have hkeys : (pathColumns c).length = (bindPath c parentPath name).length := by
    by_cases hc : c.caseInsensitive <;> simp [pathColumns, bindPath, hc]
  have hrun := Sql.Update.run_append (u := ⟨columns, pathColumns c⟩) rows h hkeys
    (p := IsFor c parentPath name) fun row _ => isFor_iff row
  rw [execute, hrun]
  by_cases hex : ∃ row ∈ rows, IsFor c parentPath name row
  · rw [if_pos hex, if_neg]
    obtain ⟨row, hrow, hfor⟩ := hex
    exact (List.countP_pos_iff.2 ⟨row, hrow, by simpa using hfor⟩).ne'
  · have hnot : ∀ row ∈ rows, ¬ IsFor c parentPath name row := fun row hrow hfor =>
      hex ⟨row, hrow, hfor⟩
    rw [if_neg hex, if_pos (List.countP_eq_zero.2 fun row hrow => by simpa using hnot row hrow),
      Table.update_of_forall_not hnot]

/-- Where case matters, `updateCompId` finds no row. -/
theorem run_updateCompId (hc : c.caseInsensitive = false) {e e' : Bool} {i v : UInt64} :
    (Call.updateCompId e i e' v).run c parentPath name rows = (.error .rowNotFound, rows) := by
  have hbound : ((Call.updateCompId e i e' v).values ++ bindPath c parentPath name).length ≤ 4 := by
    simp [Call.values, bindPath, hc]
  have hrun := Sql.Update.run_of_unbound
    (u := ⟨(Call.updateCompId e i e' v).columns c, pathColumns c⟩) rows (k := .parentPath)
    (by simp [Call.columns, pathColumns, hc]) hbound
  rw [Call.run, execute, hrun]
  rfl

theorem zip_values (h : call.IsUpdateCompId → c.caseInsensitive = true) :
    (call.columns c).length = call.values.length ∧
      (call.columns c).zip call.values = call.given := by
  cases call with
  | updateCompId e i e' v =>
    have hc := h trivial
    simp [Call.columns, Call.values, Call.given, hc]
  | updateLocalTime e t => exact ⟨rfl, rfl⟩
  | updateEntryInfo e t e' i e'' v x e''' z => exact ⟨rfl, rfl⟩
  | updateLastSeenInVersion e v => exact ⟨rfl, rfl⟩
  | updateVersionScanned e v => exact ⟨rfl, rfl⟩

/-- All calls are exact in both modes but the one of `syncHistoryTree_updateCompId` that meets
a row where case matters. -/
theorem exact_iff (c : CasePolicy) (parentPath name : String) (rows : List Cells) (call : Call) :
    Exact c parentPath name rows call ↔
      ¬ (call.IsUpdateCompId ∧ c.caseInsensitive = false ∧
        ∃ row ∈ rows, IsFor c parentPath name row) := by
  by_cases h : call.IsUpdateCompId → c.caseInsensitive = true
  · obtain ⟨hlen, hzip⟩ := zip_values h
    have hexact : Exact c parentPath name rows call := by
      rw [Exact, Call.run, execute_append hlen, hzip]
    refine iff_of_true hexact ?_
    rintro ⟨hid, hc, -⟩
    simp [h hid] at hc
  · obtain ⟨hid, hc⟩ := Classical.not_imp.1 h
    rw [Bool.not_eq_true] at hc
    cases call with
    | updateCompId e i e' v =>
      rw [Exact, run_updateCompId hc]
      by_cases hex : ∃ row ∈ rows, IsFor c parentPath name row
      · rw [if_pos hex]
        exact iff_of_false (by simp) (by simp [hid, hc, hex])
      · rw [if_neg hex]
        exact iff_of_true rfl fun hrow => hex hrow.2.2
    | _ => cases hid

/-- A directory gets a component id where case matters. -/
theorem not_exact_updateCompId :
    ¬ Exact ⟨false, id⟩ "" "d" [fun k => if k = .parentPath then some (.text "") else
      if k = .name then some (.text "d") else none] (.updateCompId true 7 false 0) := by
  rw [Exact, run_updateCompId rfl, if_pos ⟨_, List.mem_cons_self, by decide⟩]
  intro h
  cases congrArg Prod.fst h

/-! ## The functions on rows -/

end HistoryTree

def HistoryRow.cells (r : HistoryRow) : Cells
  | .parentPath => some (.text r.parentPath)
  | .name => some (.text r.name)
  | .isDir => some (.int (if r.isDir then 1 else 0))
  | .compId => r.compId.map .int
  | .revision => r.revision.map .int
  | .localMtime => r.localMtime.map .int
  | .lastSeenInVersion => r.lastSeenInVersion.map .int
  | .versionScanned => r.versionScanned.map .int
  | .isOnAcs => some (.int (if r.isOnAcs then 1 else 0))
  | .hashValue => HistoryTree.bindText r.hashValue
  | .fileSize => r.fileSize.map .int
  | .parentPathCi => r.parentPathCi.map .text
  | .nameCi => r.nameCi.map .text

namespace HistoryTree

theorem isFor_cells (r : HistoryRow) :
    IsFor c parentPath name r.cells ↔ c.Selects parentPath name r.columns := by
  by_cases h : c.caseInsensitive <;>
    simp [IsFor, CasePolicy.Selects, HistoryRow.cells, HistoryRow.columns, h]

/-- An update of rows sets columns of the stored rows. -/
theorem updateAt_cells {set : HistoryRow → HistoryRow} {given : List (Column × Option Value)}
    (hset : ∀ r, (set r).cells = Sql.assign given r.cells) (history : List HistoryRow) :
    (if ∃ row ∈ history.map HistoryRow.cells, IsFor c parentPath name row then
      (.ok (), Table.update (IsFor c parentPath name) (Sql.assign given)
        (history.map HistoryRow.cells))
    else (.error .rowNotFound, history.map HistoryRow.cells)) =
      ((updateAt c parentPath name set history).map fun _ => (),
        ((updateAt c parentPath name set history).toOption.getD history).map
          HistoryRow.cells) := by
  have hex : (∃ row ∈ history.map HistoryRow.cells, IsFor c parentPath name row) ↔
      ∃ r ∈ history, c.Selects parentPath name r.columns := by
    simp only [List.mem_map, exists_exists_and_eq_and, isFor_cells]
  rw [updateAt]
  by_cases h : ∃ r ∈ history, c.Selects parentPath name r.columns
  · rw [if_pos h, if_pos (hex.2 h)]
    refine Prod.ext rfl ?_
    simp only [Table.update, List.map_map, Except.toOption, Option.getD_some]
    refine List.map_congr_left fun r _ => ?_
    by_cases hr : c.Selects parentPath name r.columns
    · simp [isFor_cells, hr, hset]
    · simp [isFor_cells, hr]
  · rw [if_neg h, if_neg (mt hex.1 h)]
    rfl

/-- The same call of the functions on rows. -/
def Call.op (parentPath name : String) : Call → Op
  | .updateLocalTime e t => .updateLocalTime parentPath name (if e then some t else none)
  | .updateCompId e i e' v =>
    .updateCompId parentPath name (if e then some i else none) (if e' then some v else none)
  | .updateEntryInfo e t e' i e'' v h e''' z =>
    .updateEntryInfo parentPath name (if e then some t else none) (if e' then some i else none)
      (if e'' then some v else none) h (if e''' then some z else none)
  | .updateLastSeenInVersion e v =>
    .updateLastSeenInVersion parentPath name (if e then some v else none)
  | .updateVersionScanned e v =>
    .updateVersionScanned parentPath name (if e then some v else none)

/-- On stored rows the statements do what the functions on rows do. -/
theorem run_cells (c : CasePolicy) (parentPath name : String) (history : List HistoryRow)
    (call : Call) : call.run c parentPath name (history.map HistoryRow.cells) =
      (((call.op parentPath name).run c history).map fun _ => (),
        (((call.op parentPath name).run c history).toOption.getD history).map
          HistoryRow.cells) := by
  have hbind : ∀ e v, bindInt64 e v = Option.map Value.int (if e = true then some v else none) := by
    intro e v
    cases e <;> rfl
  by_cases h : call.IsUpdateCompId → c.caseInsensitive = true
  · obtain ⟨hlen, hzip⟩ := zip_values h
    rw [Call.run, execute_append hlen, hzip]
    cases call with
    | updateCompId e i e' v =>
      simp only [Call.op, Op.run, HistoryTree.updateCompId, h trivial, if_true]
      refine updateAt_cells (fun r => funext fun k => ?_) history
      cases k <;> simp [Call.given, Sql.assign_cons, HistoryRow.cells, hbind]
    | _ =>
      refine updateAt_cells (fun r => funext fun k => ?_) history
      cases k <;> simp [Call.given, Sql.assign_cons, HistoryRow.cells, hbind]
  · obtain ⟨hid, hc⟩ := Classical.not_imp.1 h
    rw [Bool.not_eq_true] at hc
    cases call with
    | updateCompId e i e' v =>
      rw [run_updateCompId hc]
      simp only [Call.op, Op.run, HistoryTree.updateCompId, hc, Bool.false_eq_true, if_false]
      rfl
    | _ => cases hid

end HistoryTree

end PersonalCloud.SyncConfig
