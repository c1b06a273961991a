import Mathlib.Data.String.Basic
import Mathlib.Order.WithBot
import PersonalCloud.Lib.Wildcard
import PersonalCloud.SyncConfig.HistoryTree
import PersonalCloud.SyncConfig.UploadChangeLog

/-!
# The sync state of a path

`GetSyncStateForPath` asks the two change logs and the pending local changes whether anything
at a path or below it waits for a transfer. Below is what begins with the path and a separator;
the logs are asked with `LIKE` and the pending changes with a substring search.

## Main definitions

* `SyncRoot.getSyncStateForPath` — the state of a path, as the code finds it.
-/

namespace PersonalCloud.SyncConfig

open PersonalCloud.Lib

/-! ## The tables -/

/-- `SYNC_CONFIG_STATE_…`. -/
inductive SyncState where
  | notInSyncFolder
  | upToDate
  | needToDownload
  | needToUpload
  | needToUploadAndDownload
  | filtered
  | unknown
deriving DecidableEq, Repr

/-- `SCRow_downloadChangeLog`: the columns that say which path a row is about. -/
structure DownloadRow where
  parentPath : String
  name : String
  isDir : Bool
  parentPathCi : Option String
  nameCi : Option String
deriving DecidableEq, Repr

def DownloadRow.columns (r : DownloadRow) : PathColumns :=
  ⟨r.parentPath, r.name, r.parentPathCi, r.nameCi⟩

/-- The tables that the state of a path is read from. -/
structure StateDb where
  uploadChangeLog : List UploadRow
  downloadChangeLog : List DownloadRow
  syncHistoryTree : List HistoryRow
deriving DecidableEq, Repr

/-- An item of a `LIKE` pattern. Letters of ASCII stand for both of their cases. -/
def likeItem (ch : Char) : Wildcard.Item Char :=
  if ch = '%' then .many
  else if ch = '_' then .one fun _ => true
  else .one fun x => x.toUpper == ch.toUpper

/-- `s LIKE pattern`. -/
def like (pattern s : String) : Bool :=
  Wildcard.accepts (pattern.toList.map likeItem) s.toList

namespace CasePolicy

variable (c : CasePolicy)

/-- `parent_path LIKE ?`, where NULL is like nothing. -/
def selectsLike (pattern : String) (x : PathColumns) : Bool :=
  if c.caseInsensitive then x.parentPathCi.any (like (c.utf8Upper pattern))
  else like pattern x.parentPath

def separater (parentPath : String) : String :=
  if parentPath = "" then "" else "/"

def likeExp (parentPath name : String) : String :=
  if parentPath = "" ∧ name = "" then "%" else "/%"

/-- The `WHERE` clause of `uploadChangeLog_getState` and `downloadChangeLog_getState`. -/
def SelectsState (parentPath name : String) (x : PathColumns) : Prop :=
  c.Selects parentPath name x ∨
    c.SelectsChild (parentPath ++ separater parentPath ++ name) x ∨
    c.selectsLike (parentPath ++ separater parentPath ++ name ++ likeExp parentPath name) x

instance (parentPath name : String) : DecidablePred (c.SelectsState parentPath name) := fun _ =>
  inferInstanceAs (Decidable (_ ∨ _ ∨ _))

/-- What the rows are ordered by. NULL comes first. -/
def orderKey (x : PathColumns) : WithBot String :=
  if c.caseInsensitive then x.parentPathCi else some x.parentPath

/-- The first row of a change log that is about a path or something in it. -/
def getState {ρ : Type} (columns : ρ → PathColumns) (parentPath name : String) (rows : List ρ) :
    Option ρ :=
  (rows.filter fun r => c.SelectsState parentPath name (columns r)).argmin
    fun r => c.orderKey (columns r)

def uploadChangeLogGetState (parentPath name : String) (rows : List UploadRow) :
    Option UploadRow :=
  c.getState UploadRow.columns parentPath name rows

def downloadChangeLogGetState (parentPath name : String) (rows : List DownloadRow) :
    Option DownloadRow :=
  c.getState DownloadRow.columns parentPath name rows

end CasePolicy

/-! ## Paths in the sync root -/

/-- One separator for every run of separators of either kind. -/
def squeeze : Bool → List Char → List Char
  | _, [] => []
  | lastWasSlash, curr :: path =>
    if curr = '/' ∨ curr.toNat = 0x5c then
      if lastWasSlash then squeeze true path else '/' :: squeeze true path
    else curr :: squeeze false path

/-- `Util_CleanupPath`. -/
def cleanupPath (path : String) : String :=
  String.ofList ((squeeze false path.toList).reverse.dropWhile (· = '/')).reverse

/-- `SyncConfigImpl`, as far as the state of a path goes. Without `getStateDb` the database is
not open. -/
structure SyncRoot where
  policy : CasePolicy
  localDir : String
  datasetId : UInt64
  incrementalLocalScanPaths : List String
  getStateDb : Option StateDb

/-- What `GetSyncStateForPath` returns, with the error `CCD_ERROR_NOT_INIT`. -/
structure SyncStateReport where
  state : SyncState
  datasetId : Option UInt64
  isSyncFolderRoot : Bool
  notInit : Bool
deriving DecidableEq, Repr

namespace SyncRoot

variable (s : SyncRoot)

/-- `local_dir_ci` or `local_dir`. -/
def root : String :=
  s.policy.convertCase s.localDir

def IsSyncRoot (absPath : String) : Prop :=
  absPath = s.root

def IsInSyncRoot (absPath : String) : Prop :=
  s.root.toList <+: absPath.toList ∧ absPath.toList[s.root.toList.length]? = some '/'

def IsSyncTemp (relPath : String) : Prop :=
  relPath = s.policy.convertCase syncTempDir

def IsInSyncTemp (relPath : String) : Prop :=
  let syncTempPath := s.policy.convertCase syncTempDir
  syncTempPath.toList <+: relPath.toList ∧ relPath.toList[syncTempPath.toList.length]? = some '/'

instance (absPath : String) : Decidable (s.IsSyncRoot absPath) :=
  inferInstanceAs (Decidable (_ = _))

instance (absPath : String) : Decidable (s.IsInSyncRoot absPath) :=
  inferInstanceAs (Decidable (_ ∧ _))

instance (relPath : String) : Decidable (s.IsSyncTemp relPath) :=
  inferInstanceAs (Decidable (_ = _))

instance (relPath : String) : Decidable (s.IsInSyncTemp relPath) :=
  inferInstanceAs (Decidable (_ ∧ _))

/-- The test that gives `SYNC_CONFIG_STATE_FILTERED`. -/
def IsFiltered (relPath : String) : Prop :=
  ¬ s.policy.IsValidDirEntry (getName relPath) ∨ s.IsSyncTemp (getParent relPath) ∨
    s.IsInSyncTemp (getParent relPath)

instance (relPath : String) : Decidable (s.IsFiltered relPath) :=
  inferInstanceAs (Decidable (_ ∨ _))

/-- `abs_path`: the path as it is compared. -/
def absPath (absPathTs : String) : String :=
  s.policy.convertCase (cleanupPath absPathTs)

/-- `rel_path` of a path in the sync root. -/
def relPathOf (absPath : String) : String :=
  String.ofList (absPath.toList.drop (s.root.toList.length + 1))

def findFromIncrementalLocalScanPaths (pathParent pathName : String) : Bool :=
  let path := s.policy.convertCase (pathParent ++ pathName)
  let pathFolder := path ++ "/"
  s.incrementalLocalScanPaths.any fun it =>
    let curPath := s.policy.convertCase it
    curPath = path ∨ pathFolder.toList <:+: curPath.toList

/-- What the database and the pending changes say about a path. -/
def queryState (db : StateDb) (pathParent pathName : String) : SyncState :=
  match s.policy.downloadChangeLogGetState pathParent pathName db.downloadChangeLog with
  | some down =>
    if down.parentPath = pathParent ∧ down.name = pathName ∧ !down.isDir then .needToDownload
    else if (s.policy.uploadChangeLogGetState pathParent pathName db.uploadChangeLog).isSome then
      .needToUploadAndDownload
    else if s.findFromIncrementalLocalScanPaths pathParent pathName then .needToUploadAndDownload
    else .needToDownload
  | none =>
    if (s.policy.uploadChangeLogGetState pathParent pathName db.uploadChangeLog).isSome then
      .needToUpload
    else if s.findFromIncrementalLocalScanPaths pathParent pathName then .needToUpload
    else
      match HistoryTree.get s.policy pathParent pathName db.syncHistoryTree with
      | .ok _ => .upToDate
      | .error .rowNotFound => .unknown

/-- `GetSyncStateForPath`. -/
def getSyncStateForPath (absPathTs : String) : SyncStateReport :=
  let absPath := s.absPath absPathTs
  if ¬ s.IsSyncRoot absPath ∧ ¬ s.IsInSyncRoot absPath then ⟨.notInSyncFolder, none, false, false⟩
  else
    let isSyncFolderRoot := decide (s.IsSyncRoot absPath)
    let relPath := if isSyncFolderRoot then "" else s.relPathOf absPath
    if !isSyncFolderRoot ∧ s.IsFiltered relPath then
      ⟨.filtered, some s.datasetId, isSyncFolderRoot, false⟩
    else
      match s.getStateDb with
      | some db => ⟨s.queryState db (getParent relPath) (getName relPath), some s.datasetId,
          isSyncFolderRoot, false⟩
      | none => ⟨.unknown, some s.datasetId, isSyncFolderRoot, true⟩

end SyncRoot

end PersonalCloud.SyncConfig
