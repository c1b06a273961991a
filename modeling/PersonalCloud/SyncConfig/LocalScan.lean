import PersonalCloud.Lib.Worklist
import PersonalCloud.SyncConfig.HistoryTree
import PersonalCloud.SyncConfig.UploadChangeLog

/-!
# The full local scan

`PerformFullLocalScan` walks the local directories breadth first. It compares every entry with
the sync history and, after the entries of a directory, looks for the rows of the history that
are no longer there. Below a vanished directory it walks the history instead.

The file system does not change during a scan, so a directory in the queue is given with what
reading it will return. An entry whose row has no component id, which the code asserts to be there
where the kind has changed, is logged without one: the code goes on after a failed assertion.

## Main results

* `performFullLocalScan_eq` — with enough fuel the scan ends, and what it logs are the
  decisions taken at each directory.
-/

namespace PersonalCloud.SyncConfig

open PersonalCloud.Lib

/-- A local directory: its entries, in the order in which `VPLFS_Readdir` returns them. -/
inductive Listing where
  | nil
  | file (name : String) (mtime : UInt64) (rest : Listing)
  | dir (name : String) (sub rest : Listing)
deriving DecidableEq, Repr

/-- What an entry of a local directory is. -/
inductive LocalEntry where
  | file (mtime : UInt64)
  | dir (sub : Listing)
deriving DecidableEq, Repr

def Listing.entries : Listing → List (String × LocalEntry)
  | nil => []
  | file name mtime rest => (name, .file mtime) :: rest.entries
  | dir name sub rest => (name, .dir sub) :: rest.entries

def LocalEntry.isDir : LocalEntry → Bool
  | file _ => false
  | dir _ => true

def LocalEntry.sub? : LocalEntry → Option Listing
  | .file _ => none
  | .dir sub => some sub

/-- How many entries there are at all depths. -/
def Listing.size : Listing → ℕ
  | nil => 0
  | file _ _ rest => rest.size + 1
  | dir _ sub rest => sub.size + rest.size + 1

/-- `isRoot`: the root is stored in the tree, as a child of itself. -/
def HistoryRow.IsRoot (r : HistoryRow) : Prop :=
  r.name = ""

instance : DecidablePred HistoryRow.IsRoot := fun r => inferInstanceAs (Decidable (r.name = ""))

def HistoryRow.relPath (r : HistoryRow) : String :=
  SyncConfig.relPath r.parentPath r.name

namespace LocalScan

open UploadChangeLog

/-! ## Entries that are logged -/

/-- The entry of `addFileDeleteToUploadChangeLog`. -/
def fileDelete (r : HistoryRow) : UploadEntry where
  parentPath := r.parentPath
  name := r.name
  isDir := r.isDir
  uploadAction := .delete
  compId := r.compId
  revision := r.revision
  hashValue := r.hashValue
  fileSize := r.fileSize

/-- A directory is deleted whatever its revision. -/
def dirDelete (r : HistoryRow) : UploadEntry :=
  { fileDelete r with revision := none }

/-- A file is deleted only if it was downloaded or uploaded before. -/
def WasSynced (r : HistoryRow) : Prop :=
  r.localMtime.isSome ∧ r.revision.isSome

instance : DecidablePred WasSynced := fun _ => inferInstanceAs (Decidable (_ ∧ _))

/-- The entry for a name that the history does not know. -/
def created (dir name : String) (isDir : Bool) : UploadEntry where
  parentPath := dir
  name := name
  isDir := isDir
  uploadAction := .create
  compId := none
  revision := none
  hashValue := ""
  fileSize := none

/-- An upload of a known entry: of a file that was modified, or of a directory that has no
component id. -/
def uploaded (dir name : String) (isDir : Bool) (uploadAction : UploadAction) (r : HistoryRow) :
    UploadEntry where
  parentPath := dir
  name := name
  isDir := isDir
  uploadAction := uploadAction
  compId := none
  revision := none
  hashValue := r.hashValue
  fileSize := r.fileSize

def changed (dir name : String) (r : HistoryRow) : UploadEntry where
  parentPath := dir
  name := name
  isDir := r.isDir
  uploadAction := .changeFileOrDirType
  compId := r.compId
  revision := r.revision
  hashValue := r.hashValue
  fileSize := r.fileSize

/-! ## The scan -/

variable (c : CasePolicy) (history : List HistoryRow)

/-- A child met while the history is walked. The pair holds the log and what is pushed. -/
def traverseChild (acc : UploadChangeLog × List HistoryRow) (child : HistoryRow) :
    UploadChangeLog × List HistoryRow :=
  if child.IsRoot then acc
  else if child.isDir then (acc.1, acc.2 ++ [child])
  else if WasSynced child then (addAndSetSyncStatus c (fileDelete child) acc.1, acc.2)
  else acc

/-- One round of the first loop. The state holds the log and `traversedDirsStack`. -/
def traverseDir (s : UploadChangeLog × List HistoryRow) (toTraverse : HistoryRow) :
    Option ((UploadChangeLog × List HistoryRow) × List HistoryRow) :=
  let children := HistoryTree.getChildren c toTraverse.relPath history
  let acc := children.foldl (traverseChild c) (s.1, [])
  some ((acc.1, toTraverse :: s.2), acc.2)

/-- `addDirDeleteToUploadChangeLog`. -/
def addDirDelete (fuel : ℕ) (directory : HistoryRow) (log : UploadChangeLog) :
    Option UploadChangeLog :=
  (Worklist.drain (traverseDir c history) fuel (log, []) [directory]).map fun s =>
    s.2.foldl (fun log dirToDelete => addAndSetSyncStatus c (dirDelete dirToDelete) log) s.1

/-- A directory in `relDirQ`: its path and what reading it returns. -/
abbrev LocalDir := String × Listing

/-- One entry of a directory. The pair holds the log and what is pushed. -/
def scanEntry (fuel : ℕ) (currRelDir : String) (acc : UploadChangeLog × List LocalDir)
    (dirEntry : String × LocalEntry) : Option (UploadChangeLog × List LocalDir) :=
  if ¬ c.IsValidDirEntry dirEntry.1 then some acc
  else
    let log := acc.1
    let pushed := match dirEntry.2 with
      | .file _ => acc.2
      | .dir sub => acc.2 ++ [(relPath currRelDir dirEntry.1, sub)]
    match HistoryTree.get c currRelDir dirEntry.1 history, dirEntry.2 with
    | .error _, entry =>
      some (addAndSetSyncStatus c (created currRelDir dirEntry.1 entry.isDir) log, pushed)
    | .ok row, .file mtime =>
      if row.isDir then
        (addDirDelete c history fuel row log).map fun log =>
          (addAndSetSyncStatus c (changed currRelDir dirEntry.1 row) log, pushed)
      else if mtime ≠ row.localMtime.getD 0 then
        some (addAndSetSyncStatus c (uploaded currRelDir dirEntry.1 false .update row) log, pushed)
      else some (log, pushed)
    | .ok row, .dir _ =>
      if row.isDir then
        -- recovery of a directory without component id
        if row.compId.isNone then
          some (addAndSetSyncStatus c (uploaded currRelDir dirEntry.1 true .create row) log, pushed)
        else some (log, pushed)
      -- a file on the server that was not downloaded yet is a conflict
      else if row.revision.isNone then some (log, pushed)
      else some (addAndSetSyncStatus c (changed currRelDir dirEntry.1 row) log, pushed)

/-- `pathExists`. -/
def pathExists (listing : Listing) : List String :=
  (listing.entries.filter fun dirEntry => c.IsValidDirEntry dirEntry.1).map fun dirEntry =>
    c.convertCase dirEntry.1

/-- A row of the history below a directory that was read. -/
def deletePrevious (fuel : ℕ) (exist : List String) (log : UploadChangeLog)
    (currToDelete : HistoryRow) : Option UploadChangeLog :=
  if currToDelete.IsRoot then some log
  else if c.convertCase currToDelete.name ∈ exist then some log
  else if currToDelete.isDir then addDirDelete c history fuel currToDelete log
  else if WasSynced currToDelete then some (addAndSetSyncStatus c (fileDelete currToDelete) log)
  else some log

/-- One round of the scan's loop. -/
def scanDir (fuel : ℕ) (log : UploadChangeLog) (dir : LocalDir) :
    Option (UploadChangeLog × List LocalDir) := do
  let acc ← dir.2.entries.foldlM (scanEntry c history fuel dir.1) (log, [])
  let log ← (HistoryTree.getChildren c dir.1 history).foldlM
    (deletePrevious c history fuel (pathExists c dir.2)) acc.1
  some (log, acc.2)

/-- `PerformFullLocalScan`. -/
def performFullLocalScan (fuel : ℕ) (root : Listing) (log : UploadChangeLog) :
    Option UploadChangeLog :=
  Worklist.drain (scanDir c history fuel) fuel log.clear [("", root)]

/-! ## The walk over the history -/

/-- The directories pushed when the history is walked. -/
def nextDirs (r : HistoryRow) : List HistoryRow :=
  (HistoryTree.getChildren c r.relPath history).filter fun r => ¬ r.IsRoot ∧ r.isDir

/-- The files deleted when the history is walked. -/
def childDeletes (r : HistoryRow) : List UploadEntry :=
  ((HistoryTree.getChildren c r.relPath history).filter fun r =>
    ¬ r.IsRoot ∧ ¬ r.isDir ∧ WasSynced r).map fileDelete

/-- What `addDirDelete` logs: the files first, then the directories, the deepest first. -/
def dirDeletes (fuel : ℕ) (directory : HistoryRow) : List UploadEntry :=
  let below := Worklist.visits (nextDirs c history) fuel [directory]
  below.flatMap (childDeletes c history) ++ below.reverse.map dirDelete

variable {c history} {log : UploadChangeLog} {r : HistoryRow} {fuel : ℕ}

theorem mem_getChildren (h : HistoryTree.Derived c history) {path : String} :
    r ∈ HistoryTree.getChildren c path history ↔
      r ∈ history ∧ c.convertCase r.parentPath = c.convertCase path := by
  rw [HistoryTree.getChildren, List.mem_filter, decide_eq_true_eq]
  exact and_congr_right fun hr => CasePolicy.selectsChild_iff (h r hr) path

theorem foldl_traverseChild (children pushed : List HistoryRow) :
    children.foldl (traverseChild c) (log, pushed) =
      (addAll c ((children.filter fun r => ¬ r.IsRoot ∧ ¬ r.isDir ∧ WasSynced r).map fileDelete) log,
        pushed ++ children.filter fun r => ¬ r.IsRoot ∧ r.isDir) := by
  induction children generalizing log pushed with
  | nil => simp [addAll]
  | cons child children ih =>
    rw [List.foldl_cons, traverseChild]
    by_cases hroot : child.IsRoot
    · simp [ih, hroot]
    by_cases hdir : child.isDir
    · simp [ih, hroot, hdir]
    by_cases hsync : WasSynced child
    · simp [ih, hroot, hdir, hsync, addAll]
    · simp [ih, hroot, hdir, hsync]

theorem traverseDir_eq (s : UploadChangeLog × List HistoryRow) (toTraverse : HistoryRow) :
    traverseDir c history s toTraverse =
      some ((addAll c (childDeletes c history toTraverse) s.1, toTraverse :: s.2),
        nextDirs c history toTraverse) := by
  simp [traverseDir, foldl_traverseChild, childDeletes, nextDirs]

theorem foldl_visit (rows stack : List HistoryRow) :
    rows.foldl (fun s r => (addAll c (childDeletes c history r) s.1, r :: s.2)) (log, stack) =
      (addAll c (rows.flatMap (childDeletes c history)) log, rows.reverse ++ stack) := by
  induction rows generalizing log stack with
  | nil => rfl
  | cons r rows ih => simp [ih, addAll_append]

/-- The directories below one in the history have longer paths. -/
theorem mem_nextDirs (h : HistoryTree.Derived c history) {q : HistoryRow} :
    r ∈ nextDirs c history q ↔ r ∈ history ∧ ¬ r.IsRoot ∧ r.isDir ∧
      c.convertCase r.parentPath = c.convertCase q.relPath := by
  simp only [nextDirs, List.mem_filter, mem_getChildren h, Bool.decide_and, Bool.and_eq_true,
    decide_eq_true_eq]
  tauto

/-- The more of the longest path is left, the heavier a directory. -/
def weight (c : CasePolicy) (history : List HistoryRow) (r : HistoryRow) : ℕ :=
  (history.length + 1) ^ ((history.map fun r => (c.convertCase r.relPath).length).sum -
    (c.convertCase r.relPath).length)

theorem length_lt_of_child (hc : c.Lawful) {q : HistoryRow} (hroot : ¬ r.IsRoot)
    (hpath : c.convertCase r.parentPath = c.convertCase q.relPath) :
    (c.convertCase q.relPath).length < (c.convertCase r.relPath).length := by
  rw [← hpath, HistoryRow.relPath, hc.convertCase_relPath]
  exact length_relPath_lt _ fun h0 => hroot ((hc.convertCase_eq_empty _).1 h0)

theorem decreasing_nextDirs (hc : c.Lawful) (h : HistoryTree.Derived c history) :
    Worklist.Decreasing (nextDirs c history) (weight c history) := by
  intro q
  by_cases hnil : nextDirs c history q = []
  · simp [hnil, weight]
  set longest := (history.map fun r => (c.convertCase r.relPath).length).sum
  have hle : ∀ r ∈ nextDirs c history q, (c.convertCase q.relPath).length + 1 ≤
      (c.convertCase r.relPath).length ∧ (c.convertCase r.relPath).length ≤ longest := by
    intro r hr
    obtain ⟨hmem, hroot, -, hpath⟩ := (mem_nextDirs h).1 hr
    exact ⟨length_lt_of_child hc hroot hpath, List.single_le_sum (by simp) _
      (List.mem_map_of_mem hmem)⟩
  obtain ⟨r, hr⟩ := List.exists_mem_of_ne_nil _ hnil
  have hr := hle r hr
  obtain ⟨k, hk⟩ : ∃ k, longest - (c.convertCase q.relPath).length = k + 1 :=
    ⟨longest - (c.convertCase q.relPath).length - 1, by omega⟩
  have hbound : ∀ x ∈ (nextDirs c history q).map (weight c history),
      x ≤ (history.length + 1) ^ k := by
    simp only [List.mem_map]
    rintro _ ⟨r, hr, rfl⟩
    have := hle r hr
    exact Nat.pow_le_pow_right (by omega) (by omega)
  have hlen : (nextDirs c history q).length ≤ history.length :=
    (List.length_filter_le _ _).trans (List.length_filter_le _ _)
  calc ((nextDirs c history q).map (weight c history)).sum
      ≤ (nextDirs c history q).length * (history.length + 1) ^ k := by
        simpa using List.sum_le_card_nsmul _ _ hbound
    _ ≤ history.length * (history.length + 1) ^ k := Nat.mul_le_mul_right _ hlen
    _ < (history.length + 1) * (history.length + 1) ^ k :=
        Nat.mul_lt_mul_of_pos_right (Nat.lt_succ_self _) (Nat.pow_pos (Nat.succ_pos _))
    _ = weight c history q := by rw [weight, hk, pow_succ']

/-- Fuel that is enough for every walk. -/
def enough (c : CasePolicy) (history : List HistoryRow) : ℕ :=
  (history.length + 1) ^ (history.map fun r => (c.convertCase r.relPath).length).sum

theorem weight_le_enough (r : HistoryRow) : weight c history r ≤ enough c history :=
  Nat.pow_le_pow_right (by omega) (by omega)

theorem addDirDelete_eq (hc : c.Lawful) (h : HistoryTree.Derived c history)
    (hfuel : enough c history ≤ fuel) (r : HistoryRow) (log : UploadChangeLog) :
    addDirDelete c history fuel r log = some (addAll c (dirDeletes c history fuel r) log) := by
  have hweight : (([r] : List HistoryRow).map (weight c history)).sum ≤ fuel := by
    simpa using (weight_le_enough r).trans hfuel
  rw [addDirDelete, Worklist.drain_eq_foldl traverseDir_eq (decreasing_nextDirs hc h) hweight,
    foldl_visit, Option.map_some, dirDeletes, addAll_append, List.append_nil]
  simp only [addAll, List.foldl_map]

/-! ## The walk over the local files -/

section Decisions

variable (c history)

/-- What is decided about one valid entry of a directory. -/
def entryDecision (currRelDir name : String) (entry : LocalEntry) : Option UploadEntry :=
  match HistoryTree.get c currRelDir name history, entry with
  | .error _, entry => some (created currRelDir name entry.isDir)
  | .ok row, .file mtime =>
    if row.isDir then some (changed currRelDir name row)
    else if mtime ≠ row.localMtime.getD 0 then some (uploaded currRelDir name false .update row)
    else none
  | .ok row, .dir _ =>
    if row.isDir then
      if row.compId.isNone then some (uploaded currRelDir name true .create row) else none
    else if row.revision.isNone then none
    else some (changed currRelDir name row)

/-- The directory of the history that a file has replaced. -/
def replacedDir (currRelDir name : String) (entry : LocalEntry) : Option HistoryRow :=
  match HistoryTree.get c currRelDir name history, entry with
  | .ok row, .file _ => if row.isDir then some row else none
  | _, _ => none

/-- What is logged for one entry of a directory. -/
def entryDecisions (fuel : ℕ) (currRelDir : String) (dirEntry : String × LocalEntry) :
    List UploadEntry :=
  if c.IsValidDirEntry dirEntry.1 then
    (replacedDir c history currRelDir dirEntry.1 dirEntry.2).toList.flatMap
        (dirDeletes c history fuel) ++
      (entryDecision c history currRelDir dirEntry.1 dirEntry.2).toList
  else []

/-- What is logged for one row below a directory. -/
def previousDecisions (fuel : ℕ) (exist : List String) (row : HistoryRow) : List UploadEntry :=
  if row.IsRoot ∨ c.convertCase row.name ∈ exist then []
  else if row.isDir then dirDeletes c history fuel row
  else if WasSynced row then [fileDelete row]
  else []

/-- What is logged for one directory. -/
def dirDecisions (fuel : ℕ) (dir : LocalDir) : List UploadEntry :=
  dir.2.entries.flatMap (entryDecisions c history fuel dir.1) ++
    (HistoryTree.getChildren c dir.1 history).flatMap
      (previousDecisions c history fuel (pathExists c dir.2))

end Decisions

/-- The directory that an entry stands for. -/
def subDir? (c : CasePolicy) (dir : String) (dirEntry : String × LocalEntry) : Option LocalDir :=
  if c.IsValidDirEntry dirEntry.1 then
    dirEntry.2.sub?.map fun sub => (relPath dir dirEntry.1, sub)
  else none

/-- The directories pushed when a directory is read. -/
def subDirs (c : CasePolicy) (dir : LocalDir) : List LocalDir :=
  dir.2.entries.filterMap (subDir? c dir.1)

section Equations

variable (hc : c.Lawful) (h : HistoryTree.Derived c history) (hfuel : enough c history ≤ fuel)

include hc h hfuel

theorem scanEntry_eq (dir : String) (acc : UploadChangeLog × List LocalDir)
    (dirEntry : String × LocalEntry) : scanEntry c history fuel dir acc dirEntry =
      some (addAll c (entryDecisions c history fuel dir dirEntry) acc.1,
        acc.2 ++ (subDir? c dir dirEntry).toList) := by
  obtain ⟨name, entry⟩ := dirEntry
  rw [scanEntry, entryDecisions, subDir?]
  by_cases hvalid : c.IsValidDirEntry name
  · simp only [hvalid, not_true_eq_false, if_false, if_true, replacedDir, entryDecision]
    cases HistoryTree.get c dir name history with
    | error e => cases entry <;> simp [addAll, LocalEntry.sub?]
    | ok row =>
      cases entry with
      | file mtime =>
        simp only [addDirDelete_eq hc h hfuel]
        split_ifs <;> simp [addAll, LocalEntry.sub?]
      | dir sub =>
        dsimp only
        split_ifs <;> simp [addAll, LocalEntry.sub?]
  · simp [hvalid, addAll]

theorem deletePrevious_eq (exist : List String) (log : UploadChangeLog) (row : HistoryRow) :
    deletePrevious c history fuel exist log row =
      some (addAll c (previousDecisions c history fuel exist row) log) := by
  rw [deletePrevious, previousDecisions, addDirDelete_eq hc h hfuel]
  split_ifs <;> simp_all [addAll]

theorem foldlM_scanEntry (dir : String) (entries : List (String × LocalEntry))
    (acc : UploadChangeLog × List LocalDir) :
    entries.foldlM (scanEntry c history fuel dir) acc =
      some (addAll c (entries.flatMap (entryDecisions c history fuel dir)) acc.1,
        acc.2 ++ entries.filterMap (subDir? c dir)) := by
  induction entries generalizing acc with
  | nil => simp [addAll]
  | cons dirEntry entries ih =>
    rw [List.foldlM_cons, scanEntry_eq hc h hfuel, Option.bind_eq_bind, Option.bind_some, ih]
    cases hsub : subDir? c dir dirEntry <;> simp [addAll_append, hsub]

theorem foldlM_deletePrevious (exist : List String) (rows : List HistoryRow)
    (log : UploadChangeLog) : rows.foldlM (deletePrevious c history fuel exist) log =
      some (addAll c (rows.flatMap (previousDecisions c history fuel exist)) log) := by
  induction rows generalizing log with
  | nil => rfl
  | cons row rows ih =>
    rw [List.foldlM_cons, deletePrevious_eq hc h hfuel, Option.bind_eq_bind, Option.bind_some, ih,
      List.flatMap_cons, addAll_append]

theorem scanDir_eq (log : UploadChangeLog) (dir : LocalDir) : scanDir c history fuel log dir =
    some (addAll c (dirDecisions c history fuel dir) log, subDirs c dir) := by
  simp [scanDir, foldlM_scanEntry hc h hfuel, foldlM_deletePrevious hc h hfuel, dirDecisions,
    addAll_append, subDirs]

end Equations

/-- The entries below a directory, and the directory itself. -/
def dirWeight (dir : LocalDir) : ℕ :=
  dir.2.size + 1

theorem dirWeight_mk (path : String) (listing : Listing) :
    dirWeight (path, listing) = listing.size + 1 := rfl

theorem decreasing_subDirs : Worklist.Decreasing (subDirs c) dirWeight := by
  rintro ⟨path, listing⟩
  suffices ((listing.entries.filterMap (subDir? c path)).map dirWeight).sum ≤ listing.size from
    Nat.lt_succ_of_le this
  induction listing with
  | nil => simp [Listing.entries]
  | file name mtime rest ih =>
    by_cases hvalid : c.IsValidDirEntry name <;>
      simp [Listing.entries, Listing.size, subDir?, hvalid, LocalEntry.sub?] <;> omega
  | dir name sub rest _ ih =>
    by_cases hvalid : c.IsValidDirEntry name <;>
      simp [Listing.entries, Listing.size, subDir?, hvalid, LocalEntry.sub?, dirWeight_mk] <;>
      omega

/-- The directories that a scan reads. -/
def scannedDirs (c : CasePolicy) (fuel : ℕ) (root : Listing) : List LocalDir :=
  Worklist.visits (subDirs c) fuel [("", root)]

/-- The scan ends, and logs what is decided at each directory. -/
theorem performFullLocalScan_eq (hc : c.Lawful) (h : HistoryTree.Derived c history)
    (hfuel : enough c history ≤ fuel) {root : Listing} (hroot : root.size < fuel)
    (log : UploadChangeLog) : performFullLocalScan c history fuel root log =
      some (addAll c ((scannedDirs c fuel root).flatMap (dirDecisions c history fuel))
        log.clear) := by
  rw [performFullLocalScan, Worklist.drain_eq_foldl (scanDir_eq hc h hfuel) decreasing_subDirs
    (by simpa [dirWeight_mk] using Nat.succ_le_of_lt hroot), scannedDirs]
  generalize Worklist.visits (subDirs c) fuel [("", root)] = dirs
  generalize log.clear = log
  induction dirs generalizing log with
  | nil => rfl
  | cons dir dirs ih => rw [List.foldl_cons, ih, List.flatMap_cons, addAll_append]

end LocalScan

end PersonalCloud.SyncConfig
