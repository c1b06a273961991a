import Mathlib.Data.List.Find
import PersonalCloud.Lib.Run
import PersonalCloud.Lib.Table
import PersonalCloud.SyncConfig.Paths

/-!
# The sync history tree

`SyncConfigDb` keeps a row for each directory entry that was synced. The table's primary key
is the path as it is written. Lookups, removals and updates compare the path as written or,
where the database ignores case, the folded path in two columns of its own. The update of the
component id asserts that it binds all its parameters, which it does not where case matters; the
code goes on after a failed assertion.

## Main results

* `isMap_iff_meets` — the table is a map from paths, compared by the configured policy, to the
  rows last added and updated, exactly as long as no add meets a path that differs by case
  only and no update of the component id is made where case matters.
-/

namespace PersonalCloud.SyncConfig

open PersonalCloud.Lib

/-- `SCRow_syncHistoryTree`: a row of `sync_history_tree`, with `none` for NULL. An empty
`hashValue` is stored as NULL and read back as empty. -/
structure HistoryRow where
  parentPath : String
  name : String
  isDir : Bool
  compId : Option UInt64
  revision : Option UInt64
  localMtime : Option UInt64
  lastSeenInVersion : Option UInt64
  versionScanned : Option UInt64
  isOnAcs : Bool
  hashValue : String
  fileSize : Option UInt64
  parentPathCi : Option String
  nameCi : Option String
deriving DecidableEq, Repr

/-- `SYNC_AGENT_DB_ERR_ROW_NOT_FOUND`, the one error of a statement that ran. -/
inductive DbError where
  | rowNotFound
deriving DecidableEq, Repr

/-- The primary key. -/
def HistoryRow.path (r : HistoryRow) : String × String :=
  (r.parentPath, r.name)

def HistoryRow.columns (r : HistoryRow) : PathColumns :=
  ⟨r.parentPath, r.name, r.parentPathCi, r.nameCi⟩

/-- The row that `syncHistoryTree_add` inserts for an entry. -/
def CasePolicy.stored (c : CasePolicy) (entry : HistoryRow) : HistoryRow :=
  { entry with
    parentPathCi := (c.columns entry.parentPath entry.name).parentPathCi
    nameCi := (c.columns entry.parentPath entry.name).nameCi }

namespace HistoryTree

variable (c : CasePolicy)

/-! ## The operations -/

/-- `CHECK_ROW_EXIST`. -/
def answer : Option HistoryRow → Except DbError HistoryRow
  | some r => .ok r
  | none => .error .rowNotFound

def get (parentPath name : String) (rows : List HistoryRow) : Except DbError HistoryRow :=
  answer (rows.find? fun r => c.Selects parentPath name r.columns)

/-- `syncHistoryTree_getChildren`; where there are none the callers go on with an empty list. -/
def getChildren (path : String) (rows : List HistoryRow) : List HistoryRow :=
  rows.filter fun r => c.SelectsChild path r.columns

def add (entry : HistoryRow) (rows : List HistoryRow) : List HistoryRow :=
  Table.insertOrReplace HistoryRow.path (c.stored entry) rows

def remove (parentPath name : String) (rows : List HistoryRow) :
    Except DbError (List HistoryRow) :=
  if ∃ r ∈ rows, c.Selects parentPath name r.columns then
    .ok (Table.delete (fun r => c.Selects parentPath name r.columns) rows)
  else .error .rowNotFound

/-- `UPDATE sync_history_tree SET …` at one path, and the check of `sqlite3_changes`. -/
def updateAt (parentPath name : String) (set : HistoryRow → HistoryRow)
    (rows : List HistoryRow) : Except DbError (List HistoryRow) :=
  if ∃ r ∈ rows, c.Selects parentPath name r.columns then
    .ok (Table.update (fun r => c.Selects parentPath name r.columns) set rows)
  else .error .rowNotFound

def updateLocalTime (parentPath name : String) (localMtime : Option UInt64) :
    List HistoryRow → Except DbError (List HistoryRow) :=
  updateAt c parentPath name fun r => { r with localMtime }

/-- Where case matters, the statement has six parameters and the code binds four: the two of
the `WHERE` clause stay NULL, which no column equals. -/
def updateCompId (parentPath name : String) (compId revision : Option UInt64)
    (rows : List HistoryRow) : Except DbError (List HistoryRow) :=
  if c.caseInsensitive then
    updateAt c parentPath name (fun r => { r with compId, revision }) rows
  else .error .rowNotFound

def updateEntryInfo (parentPath name : String) (localMtime compId revision : Option UInt64)
    (hashValue : String) (fileSize : Option UInt64) :
    List HistoryRow → Except DbError (List HistoryRow) :=
  updateAt c parentPath name fun r =>
    { r with localMtime, compId, revision, hashValue, fileSize }

def updateLastSeenInVersion (parentPath name : String) (lastSeenInVersion : Option UInt64) :
    List HistoryRow → Except DbError (List HistoryRow) :=
  updateAt c parentPath name fun r => { r with lastSeenInVersion }

def updateVersionScanned (parentPath name : String) (versionScanned : Option UInt64) :
    List HistoryRow → Except DbError (List HistoryRow) :=
  updateAt c parentPath name fun r => { r with versionScanned }

/-! ## Runs of operations -/

/-- A call that changes the table. -/
inductive Op where
  | add (entry : HistoryRow)
  | remove (parentPath name : String)
  | updateLocalTime (parentPath name : String) (localMtime : Option UInt64)
  | updateCompId (parentPath name : String) (compId revision : Option UInt64)
  | updateEntryInfo (parentPath name : String) (localMtime compId revision : Option UInt64)
      (hashValue : String) (fileSize : Option UInt64)
  | updateLastSeenInVersion (parentPath name : String) (lastSeenInVersion : Option UInt64)
  | updateVersionScanned (parentPath name : String) (versionScanned : Option UInt64)

def Op.run (rows : List HistoryRow) : Op → Except DbError (List HistoryRow)
  | .add entry => .ok (HistoryTree.add c entry rows)
  | .remove p n => HistoryTree.remove c p n rows
  | .updateLocalTime p n t => HistoryTree.updateLocalTime c p n t rows
  | .updateCompId p n i v => HistoryTree.updateCompId c p n i v rows
  | .updateEntryInfo p n t i v h z => HistoryTree.updateEntryInfo c p n t i v h z rows
  | .updateLastSeenInVersion p n v => HistoryTree.updateLastSeenInVersion c p n v rows
  | .updateVersionScanned p n v => HistoryTree.updateVersionScanned c p n v rows

/-- The rows that the paths should have, by the folded path. -/
abbrev Meaning := String × String → Option HistoryRow

/-- What the columns named by an update should become. -/
def Meaning.updateAt (path : String × String) (set : HistoryRow → HistoryRow) (m : Meaning) :
    Meaning :=
  Function.update m (c.fold path) ((m (c.fold path)).map set)

/-- What a call means for a map from paths to rows. -/
def Op.meaning (m : Meaning) : Op → Meaning
  | .add entry => Function.update m (c.fold entry.path) (some (c.stored entry))
  | .remove p n => Function.update m (c.fold (p, n)) none
  | .updateLocalTime p n localMtime => m.updateAt c (p, n) fun r => { r with localMtime }
  | .updateCompId p n compId revision => m.updateAt c (p, n) fun r => { r with compId, revision }
  | .updateEntryInfo p n localMtime compId revision hashValue fileSize =>
    m.updateAt c (p, n) fun r => { r with localMtime, compId, revision, hashValue, fileSize }
  | .updateLastSeenInVersion p n lastSeenInVersion =>
    m.updateAt c (p, n) fun r => { r with lastSeenInVersion }
  | .updateVersionScanned p n versionScanned =>
    m.updateAt c (p, n) fun r => { r with versionScanned }

/-- The table, and beside it what the calls so far mean. -/
structure Store where
  rows : List HistoryRow
  meant : Meaning

def Store.empty : Store := ⟨[], fun _ => none⟩

/-- A call that fails leaves the table as it is. -/
def Store.step (s : Store) (op : Op) : Option Store :=
  some ⟨(op.run c s.rows).toOption.getD s.rows, op.meaning c s.meant⟩

/-- At most one row stands for a path, and `get` returns the row the path should have. -/
structure IsMap (s : Store) : Prop where
  keyed : Table.Keyed (fun r : HistoryRow => c.fold r.path) s.rows
  get_eq : ∀ parentPath name,
    get c parentPath name s.rows = answer (s.meant (c.fold (parentPath, name)))

/-- An add finds no other spelling of its path. An update of the component id happens where
case is ignored, or has nothing to change. -/
def Regular (s : Store) : Op → Prop
  | .add entry => ∀ r ∈ s.rows, c.fold r.path = c.fold entry.path → r.path = entry.path
  | .updateCompId p n compId revision => c.caseInsensitive = false →
    ∀ r ∈ s.rows, r.path = (p, n) → r.compId = compId ∧ r.revision = revision
  | _ => True

instance (s : Store) : DecidablePred (Regular c s)
  | .add entry => inferInstanceAs (Decidable (∀ r ∈ s.rows, c.fold r.path = c.fold entry.path → _))
  | .updateCompId _ _ _ _ => inferInstanceAs (Decidable (_ → ∀ r ∈ s.rows, _ → _ ∧ _))
  | .remove _ _ | .updateLocalTime _ _ _ | .updateEntryInfo _ _ _ _ _ _ _
  | .updateLastSeenInVersion _ _ _ | .updateVersionScanned _ _ _ => .isTrue trivial

/-! ## The derived columns -/

variable {c}

theorem answer_injective : Function.Injective answer := by
  rintro (_ | r) (_ | r') h <;> simp_all [answer]

/-- All rows have their derived columns. -/
def Derived (c : CasePolicy) (rows : List HistoryRow) : Prop :=
  ∀ r ∈ rows, c.Derived r.columns

instance (rows : List HistoryRow) : Decidable (Derived c rows) :=
  inferInstanceAs (Decidable (∀ r ∈ rows, c.Derived r.columns))

@[simp] theorem path_stored (entry : HistoryRow) : (c.stored entry).path = entry.path := rfl

theorem columns_stored (entry : HistoryRow) :
    (c.stored entry).columns = c.columns entry.parentPath entry.name := rfl

theorem selects_iff {r : HistoryRow} (hr : c.Derived r.columns) (parentPath name : String) :
    c.Selects parentPath name r.columns ↔ c.fold r.path = c.fold (parentPath, name) :=
  CasePolicy.selects_iff hr parentPath name

/-- An assignment to columns other than those of the path. -/
def Keeps (set : HistoryRow → HistoryRow) : Prop :=
  ∀ r, (set r).columns = r.columns

theorem Keeps.path_eq {set : HistoryRow → HistoryRow} (h : Keeps set) (r : HistoryRow) :
    (set r).path = r.path :=
  congrArg (fun x : PathColumns => (x.parentPath, x.name)) (h r)

section Statements

variable {rows : List HistoryRow} {parentPath name : String} {set : HistoryRow → HistoryRow}

theorem get_eq_asMap (h : Derived c rows) :
    get c parentPath name rows =
      answer (Table.asMap (fun r => c.fold r.path) rows (c.fold (parentPath, name))) := by
  rw [get, Table.asMap]
  congr 1
  exact List.find?_congr fun r hr => by simp [selects_iff (h r hr)]

theorem toOption_remove (h : Derived c rows) :
    (remove c parentPath name rows).toOption.getD rows =
      Table.delete (fun r => c.fold r.path = c.fold (parentPath, name)) rows := by
  rw [← Table.delete_congr fun r hr => selects_iff (h r hr) parentPath name, remove]
  split_ifs with hex
  · rfl
  · exact (List.filter_eq_self.2 fun r hr => by simpa using fun hs => hex ⟨r, hr, hs⟩).symm

theorem toOption_updateAt (h : Derived c rows) :
    (updateAt c parentPath name set rows).toOption.getD rows =
      Table.update (fun r => c.fold r.path = c.fold (parentPath, name)) set rows := by
  rw [← Table.update_congr fun r hr => selects_iff (h r hr) parentPath name, updateAt]
  split_ifs with hex
  · rfl
  · exact (Table.update_of_forall_not fun r hr hs => hex ⟨r, hr, hs⟩).symm

end Statements

/-! ## One call -/

variable {s : Store} {op : Op} {p n : String} {set : HistoryRow → HistoryRow}

/-- On rows with their derived columns, the law is one about the table as a map. -/
theorem isMap_iff (h : Derived c s.rows) : IsMap c s ↔
    Table.Keyed (fun r : HistoryRow => c.fold r.path) s.rows ∧
      ∀ path, Table.asMap (fun r : HistoryRow => c.fold r.path) s.rows (c.fold path) =
        s.meant (c.fold path) := by
  constructor
  · rintro ⟨hk, hget⟩
    refine ⟨hk, fun path => answer_injective ?_⟩
    rw [← get_eq_asMap h, hget]
  · rintro ⟨hk, hmap⟩
    refine ⟨hk, fun p n => ?_⟩
    rw [get_eq_asMap h, hmap]

/-- Changing the table and the meaning at one path alike keeps them alike at all paths. -/
theorem asMap_eq_of_update {rows rows' : List HistoryRow} {m : Meaning} {k : String × String}
    {v w : Option HistoryRow}
    (h : ∀ path, Table.asMap (fun r : HistoryRow => c.fold r.path) rows (c.fold path) =
      m (c.fold path))
    (hr : Table.asMap (fun r : HistoryRow => c.fold r.path) rows' =
      Function.update (Table.asMap (fun r : HistoryRow => c.fold r.path) rows) k v)
    (hv : v = w) (path : String × String) :
    Table.asMap (fun r : HistoryRow => c.fold r.path) rows' (c.fold path) =
      Function.update m k w (c.fold path) := by
  subst hv
  rw [hr]
  by_cases hk : c.fold path = k
  · simp [hk]
  · simp [hk, h]

theorem derived_add (h : Derived c s.rows) (entry : HistoryRow) :
    Derived c (add c entry s.rows) := by
  intro r hr
  rcases List.mem_append.1 hr with hr | hr
  · exact h r (Table.mem_delete.1 hr).1
  · rw [List.mem_singleton.1 hr, columns_stored]
    exact CasePolicy.derived_columns _ _

theorem derived_remove (h : Derived c s.rows) :
    Derived c ((remove c p n s.rows).toOption.getD s.rows) := by
  rw [toOption_remove h]
  intro r hr
  exact h r (Table.mem_delete.1 hr).1

theorem derived_updateAt (hset : Keeps set) (h : Derived c s.rows) :
    Derived c ((updateAt c p n set s.rows).toOption.getD s.rows) := by
  rw [toOption_updateAt h]
  intro r hr
  rcases Table.mem_update.1 hr with ⟨x, hx, -, rfl⟩ | ⟨hr, -⟩
  · rw [hset]
    exact h x hx
  · exact h r hr

theorem derived_step {t : Store} (h : Derived c s.rows) (hstep : s.step c op = some t) :
    Derived c t.rows := by
  obtain rfl := Option.some.inj hstep
  cases op with
  | add entry => exact derived_add h entry
  | remove p n => exact derived_remove h
  | updateLocalTime p n v => exact derived_updateAt (fun _ => rfl) h
  | updateCompId p n compId revision =>
    by_cases hc : c.caseInsensitive
    · simp only [Op.run, updateCompId, hc, if_true]
      exact derived_updateAt (fun _ => rfl) h
    · simp only [Op.run, updateCompId, hc]
      exact h
  | updateEntryInfo p n v i w x z => exact derived_updateAt (fun _ => rfl) h
  | updateLastSeenInVersion p n v => exact derived_updateAt (fun _ => rfl) h
  | updateVersionScanned p n v => exact derived_updateAt (fun _ => rfl) h

theorem isMap_add_iff (hd : Derived c s.rows) (h : IsMap c s) (entry : HistoryRow) :
    IsMap c ⟨add c entry s.rows, (Op.add entry).meaning c s.meant⟩ ↔ Regular c s (.add entry) := by
  obtain ⟨hk, hmap⟩ := (isMap_iff hd).1 h
  constructor
  · rintro ⟨hk', -⟩ r hr hfold
    by_contra hpath
    have hnew := (Table.keyed_append_singleton.1 hk').2 r
      (Table.mem_delete.2 ⟨hr, by simpa using hpath⟩)
    simp [hfold] at hnew
  · intro hreg
    -- the rows with the primary key of the entry are those with its folded path
    have hdel : Table.delete (fun r => r.path = (c.stored entry).path) s.rows =
        Table.delete (fun r => c.fold r.path = c.fold (c.stored entry).path) s.rows := by
      refine Table.delete_congr fun r hr => ?_
      rw [path_stored]
      exact ⟨fun hp => by rw [hp], hreg r hr⟩
    have hadd : add c entry s.rows =
        Table.insertOrReplace (fun r : HistoryRow => c.fold r.path) (c.stored entry) s.rows :=
      congrArg (· ++ [c.stored entry]) hdel
    refine (isMap_iff (derived_add hd entry)).2 ⟨?_, ?_⟩
    · rw [hadd]
      exact hk.insertOrReplace
    · refine asMap_eq_of_update hmap (k := c.fold entry.path) ?_ rfl
      rw [hadd, Table.asMap_insertOrReplace, path_stored]

theorem isMap_remove (hd : Derived c s.rows) (h : IsMap c s) :
    IsMap c ⟨(remove c p n s.rows).toOption.getD s.rows, (Op.remove p n).meaning c s.meant⟩ := by
  obtain ⟨hk, hmap⟩ := (isMap_iff hd).1 h
  refine (isMap_iff (derived_remove hd)).2 ?_
  simp only [toOption_remove hd]
  refine ⟨hk.delete, asMap_eq_of_update hmap ?_ rfl⟩
  exact Table.asMap_delete (fun r : HistoryRow => c.fold r.path) _ _

theorem isMap_updateAt (hset : Keeps set) (hd : Derived c s.rows) (h : IsMap c s) :
    IsMap c ⟨(updateAt c p n set s.rows).toOption.getD s.rows,
      s.meant.updateAt c (p, n) set⟩ := by
  obtain ⟨hk, hmap⟩ := (isMap_iff hd).1 h
  refine (isMap_iff (derived_updateAt hset hd)).2 ?_
  simp only [toOption_updateAt hd]
  refine ⟨hk.update fun r _ _ => by rw [hset.path_eq], ?_⟩
  refine asMap_eq_of_update hmap (Table.asMap_update fun r => by rw [hset.path_eq]) ?_
  rw [hmap]

/-- What `updateCompId` does where case matters: nothing. -/
theorem isMap_updateCompId_iff (hc : c.caseInsensitive = false) (hd : Derived c s.rows)
    (h : IsMap c s) (compId revision : Option UInt64) :
    IsMap c ⟨s.rows, (Op.updateCompId p n compId revision).meaning c s.meant⟩ ↔
      Regular c s (.updateCompId p n compId revision) := by
  obtain ⟨hk, hmap⟩ := (isMap_iff hd).1 h
  have hfold : ∀ path, c.fold path = path := fun path => by
    simp [CasePolicy.fold, CasePolicy.convertCase, hc]
  have hp := hmap (p, n)
  simp only [Regular, hc, forall_const, Op.meaning, Meaning.updateAt]
  refine Iff.trans (isMap_iff (show Derived c (Store.mk s.rows _).rows from hd)) ?_
  simp only [hk, true_and]
  constructor
  · intro hnew r hr hpath
    have hr' := hk.asMap_of_mem hr
    have hpn := hnew (p, n)
    rw [Function.update_self, ← hp, hfold, ← hpath, ← hfold r.path, hr'] at hpn
    have heq : r = { r with compId, revision } := by simpa using hpn
    exact ⟨congrArg HistoryRow.compId heq, congrArg HistoryRow.revision heq⟩
  · intro hsame path
    rw [hmap path]
    by_cases hk' : c.fold path = c.fold (p, n)
    · rw [hk', Function.update_self, ← hp]
      cases hrow : Table.asMap (fun r : HistoryRow => c.fold r.path) s.rows (c.fold (p, n)) with
      | none => rfl
      | some r =>
        obtain ⟨hr, hpath⟩ := Table.key_of_asMap hrow
        obtain ⟨rfl, rfl⟩ := hsame r hr (by simpa only [hfold] using hpath)
        rfl
    · rw [Function.update_of_ne hk']

/-- One call keeps the law exactly if it is regular. -/
theorem isMap_step_iff {t : Store} (hd : Derived c s.rows) (h : IsMap c s)
    (hstep : s.step c op = some t) : IsMap c t ↔ Regular c s op := by
  obtain rfl := Option.some.inj hstep
  cases op with
  | add entry => exact isMap_add_iff hd h entry
  | updateCompId p n compId revision =>
    by_cases hc : c.caseInsensitive
    · have hreg : Regular c s (.updateCompId p n compId revision) := by simp [Regular, hc]
      refine iff_of_true ?_ hreg
      simp only [Op.run, updateCompId, hc, if_true]
      exact isMap_updateAt (fun _ => rfl) hd h
    · rw [Bool.not_eq_true] at hc
      simp only [Op.run, updateCompId, hc]
      exact isMap_updateCompId_iff hc hd h compId revision
  | remove p n => exact iff_of_true (isMap_remove hd h) trivial
  | updateLocalTime p n v => exact iff_of_true (isMap_updateAt (fun _ => rfl) hd h) trivial
  | updateEntryInfo p n v i w x z => exact iff_of_true (isMap_updateAt (fun _ => rfl) hd h) trivial
  | updateLastSeenInVersion p n v => exact iff_of_true (isMap_updateAt (fun _ => rfl) hd h) trivial
  | updateVersionScanned p n v => exact iff_of_true (isMap_updateAt (fun _ => rfl) hd h) trivial

theorem isMap_empty : IsMap c .empty :=
  ⟨Table.keyed_nil, fun _ _ => rfl⟩

/-- Along every run from the empty table, the table is the map that the calls mean exactly as
long as all calls are regular. -/
theorem isMap_iff_meets (c : CasePolicy) {tr : List (Store × Op)} {s : Store}
    (h : Run (Store.step c) .empty tr s) : Always (IsMap c) tr s ↔ Meets (Regular c) tr := by
  refine h.always_iff_meets (I := fun s => Derived c s.rows) ?_ ?_ isMap_empty ?_
  · intro r hr
    cases hr
  · exact fun s op t hd hstep => derived_step hd hstep
  · exact fun s op t hd hs hstep => isMap_step_iff hd hs hstep

/-- A file that was never synced. -/
def freshFile (parentPath name : String) : HistoryRow where
  parentPath := parentPath
  name := name
  isDir := false
  compId := none
  revision := none
  localMtime := none
  lastSeenInVersion := none
  versionScanned := none
  isOnAcs := false
  hashValue := ""
  fileSize := none
  parentPathCi := none
  nameCi := none

/-- Upper case of one letter, which is all that the runs below need. -/
def upperA (s : String) : String :=
  if s = "a" then "A" else s

/-- Updates and a removal by another spelling of the name, and an add after the removal. -/
theorem isMap_iff_meets_otherSpelling :
    ∃ tr s, Run (Store.step ⟨true, upperA⟩) .empty tr s ∧
      tr.map Prod.snd = [.add (freshFile "" "A"), .remove "" "A",
        .updateCompId "" "A" (some 7) (some 1), .add (freshFile "" "a")] ∧
      Always (IsMap ⟨true, upperA⟩) tr s := by
  have he : exec (Store.step ⟨true, upperA⟩) .empty [.add (freshFile "" "a"),
      .updateCompId "" "A" (some 7) (some 1), .remove "" "A", .add (freshFile "" "A")] = some _ :=
    rfl
  have hrun := run_trace he
  refine ⟨_, _, hrun, rfl, (isMap_iff_meets _ hrun).2 ?_⟩
  decide +kernel

/-- Two spellings added where case is ignored, and a component id set where it is not. -/
theorem not_isMap_otherSpelling_compId :
    (∃ tr s, Run (Store.step ⟨true, upperA⟩) .empty tr s ∧
      tr.map Prod.snd = [.add (freshFile "" "A"), .add (freshFile "" "a")] ∧
      ¬ Always (IsMap ⟨true, upperA⟩) tr s) ∧
    ∃ tr s, Run (Store.step ⟨false, upperA⟩) .empty tr s ∧
      tr.map Prod.snd = [.updateCompId "" "a" (some 7) (some 1), .add (freshFile "" "a")] ∧
      ¬ Always (IsMap ⟨false, upperA⟩) tr s := by
  constructor
  · have he : exec (Store.step ⟨true, upperA⟩) .empty
        [.add (freshFile "" "a"), .add (freshFile "" "A")] = some _ := rfl
    exact ⟨_, _, run_trace he, rfl, fun h => absurd h.2.keyed (by decide +kernel)⟩
  · have he : exec (Store.step ⟨false, upperA⟩) .empty
        [.add (freshFile "" "a"), .updateCompId "" "a" (some 7) (some 1)] = some _ := rfl
    exact ⟨_, _, run_trace he, rfl, fun h => absurd (h.2.get_eq "" "a") (by decide +kernel)⟩

end HistoryTree

end PersonalCloud.SyncConfig
