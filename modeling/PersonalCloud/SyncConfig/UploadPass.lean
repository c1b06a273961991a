import PersonalCloud.Lib.Retry
import PersonalCloud.SyncConfig.LocalScan

/-!
# Applying the upload change log

`ApplyUploadChangeLog` takes the rows of the upload change log one by one and brings each to the
server. A change of type takes two calls, a removal of the old item and the creation of the new
one, and what has been done is only kept in a local copy of the row.

What the surroundings do during the handling of one row is given with the step: the answers of
the server, the checks for a stop, and the local file. A pause only delays the pass. The
code goes on after a failed assertion: a row with no valid name is skipped, and the removal of one
without a component id asks for the id 0.
-/

namespace PersonalCloud.SyncConfig

open PersonalCloud.Lib

/-- Result codes, as the pass tells them apart. `conflict` stands for the codes that a removal
takes for a conflict. -/
inductive Rc where
  | ok
  | conflict
  | transient
  | cantCreateUploadRevision
  | needUploadScan
  | stopping
  | other
deriving DecidableEq, Repr

/-! ## The server -/

/-- What the server is asked to create. A file may replace the component that the client knows
under its path. -/
structure Item where
  path : String × String
  isDir : Bool
  parentCompId : UInt64
  oldCompId : Option UInt64
deriving DecidableEq, Repr

/-- The components of the dataset, and what the passes have removed and created. -/
structure Server where
  components : List UInt64
  deleted : List UInt64
  created : List Item
deriving DecidableEq, Repr

namespace Server

/-- `vcs_delete_dir` and `vcs_delete_file`. A server that would do it finds a component that is
not there to be a conflict: `VCS_ERR_PROVIDED_PATH_DOESNT_MATCH_PROVIDED_COMPID`. -/
def delete (compId : UInt64) (wish : Rc) (v : Server) : Rc × Server :=
  if wish = .ok then
    if compId ∈ v.components then
      (.ok, { v with
        components := v.components.filter (· ≠ compId)
        deleted := compId :: v.deleted })
    else (.conflict, v)
  else (wish, v)

/-- `vcs_make_dir` and `vcs_post_file_metadata`. -/
def create (item : Item) (newCompId : UInt64) (wish : Rc) (v : Server) : Rc × Server :=
  if wish = .ok then
    (.ok, { v with components := newCompId :: v.components, created := item :: v.created })
  else (wish, v)

end Server

/-- What the pass works on besides the log. -/
structure World where
  history : List HistoryRow
  server : Server
deriving DecidableEq, Repr

/-! ## The surroundings -/

/-- A local file, as `VPLFS_Stat` and `computeMD5` see it. -/
structure LocalFile where
  mtime : UInt64
  size : UInt64
  md5 : Option String
deriving DecidableEq, Repr

/-- The metadata file that goes with an upload to archive storage: whether it can be written,
and how sending it goes. -/
structure ArchiveMeta where
  written : Bool
  put : ℕ → Attempt Rc

/-- What happens while one row is handled. `root` is the result of creating the root of the sync
configuration on the server, `postedRevision` is none where the answer lists no revisions. -/
structure Env where
  stopAtStart : Bool
  delete : ℕ → Attempt Rc
  root : Except Rc UInt64
  stopAfterRoot : Bool
  stopAfterParent : Bool
  makeDir : ℕ → Attempt Rc
  newCompId : UInt64
  stat : Option LocalFile
  access : ℕ → Attempt Rc
  archiveMeta : Option ArchiveMeta
  put : ℕ → Attempt Rc
  putHash : String
  statAfter : Option (UInt64 × UInt64)
  post : ℕ → Attempt Rc
  postAgain : ℕ → Attempt Rc
  postedRevision : Option UInt64
  postedLastChanged : UInt64

/-- The configuration: `SYNC_TYPE_TWO_WAY_HOST_ARCHIVE_STORAGE`,
`FILE_COMPARE_POLICY_USE_HASH` and `max_error_retry_count`. -/
structure UploadConfig where
  casePolicy : CasePolicy
  hostArchiveStorage : Bool
  useHash : Bool
  maxErrorRetryCount : ℕ

/-- Why the handling of a row ends early: the pass ends, the row is dropped, or it is tried again
later. -/
inductive Exit where
  | stop
  | skip
  | errInc
deriving DecidableEq, Repr

namespace UploadPass

def numImmediateTransientRetry : ℕ := 3

variable (cfg : UploadConfig)

/-- A call that the code below retries. -/
def call (serve : Rc → Server → Rc × Server) (attempts : ℕ → Attempt Rc) (v : Server) :
    Option Rc × Server :=
  retry .transient serve attempts numImmediateTransientRetry 0 v

/-- A call that changes nothing that the pass looks at. -/
def query (attempts : ℕ → Attempt Rc) : Option Rc :=
  (retry .transient (fun wish u => (wish, u)) attempts numImmediateTransientRetry 0 ()).1

/-- `PutFile` is not asked to stop by these checks. -/
def putFile (put : ℕ → Attempt Rc) : Option Rc :=
  query fun k => { put k with stopBefore := false, stopAfter := false }

/-! ## The delete stage -/

/-- `none` in the first component lets the handling of the row go on. -/
def deleteStage (r : UploadRow) (env : Env) (w : World) : Option Exit × World :=
  match call (Server.delete (r.compId.getD 0)) env.delete w.server with
  | (none, v) => (some .stop, ⟨w.history, v⟩)
  | (some .ok, v) =>
    (none, ⟨(HistoryTree.remove cfg.casePolicy r.parentPath r.name w.history).toOption.getD
      w.history, v⟩)
  | (some .transient, v) => (some .errInc, ⟨w.history, v⟩)
  | (some _, v) => (some .skip, ⟨w.history, v⟩)

/-! ## The create stage -/

/-- `syncHistoryTree_getEntry` of a path, and its component id. -/
def knownCompId (path : String) (history : List HistoryRow) : Option UInt64 :=
  (HistoryTree.get cfg.casePolicy (getParent path) (getName path) history).toOption.bind
    HistoryRow.compId

/-- A directory with nothing but its component id. -/
def dirEntry (parentPath name : String) (compId : UInt64) : HistoryRow where
  parentPath := parentPath
  name := name
  isDir := true
  compId := some compId
  revision := none
  localMtime := none
  lastSeenInVersion := none
  versionScanned := none
  isOnAcs := false
  hashValue := ""
  fileSize := none
  parentPathCi := none
  nameCi := none

/-- A file that was just uploaded. -/
def fileEntry (r : UploadRow) (env : Env) (revision : UInt64) (hash : String) (size : UInt64) :
    HistoryRow where
  parentPath := r.parentPath
  name := r.name
  isDir := false
  compId := some env.newCompId
  revision := some revision
  localMtime := some env.postedLastChanged
  lastSeenInVersion := none
  versionScanned := none
  isOnAcs := true
  hashValue := hash
  fileSize := if hash = "" then none else some size
  parentPathCi := none
  nameCi := none

def getParentCompId (r : UploadRow) (env : Env) (w : World) : Except Rc UInt64 × World :=
  match knownCompId cfg r.parentPath w.history with
  | some compId => (.ok compId, w)
  | none =>
    if r.parentPath = "" then
      match env.root with
      | .error rc => (.error rc, w)
      | .ok compId =>
        (if env.stopAfterRoot then .error .stopping else .ok compId,
          { w with history := HistoryTree.add cfg.casePolicy (dirEntry "" "" compId) w.history })
    else (.error .needUploadScan, w)

/-- The case of a new directory. -/
def createDir (r : UploadRow) (env : Env) (w : World) : Option Exit × World :=
  match getParentCompId cfg r env w with
  | (.error .stopping, w) => (some .stop, w)
  | (parent, w) =>
    if env.stopAfterParent then (some .stop, w)
    else match parent with
    | .error .transient => (some .errInc, w)
    | .error _ => (some .skip, w)
    | .ok parentCompId =>
      match call (Server.create ⟨r.path, true, parentCompId, none⟩ env.newCompId) env.makeDir
          w.server with
      | (none, v) => (some .stop, ⟨w.history, v⟩)
      | (some .ok, v) =>
        (none, ⟨HistoryTree.add cfg.casePolicy (dirEntry r.parentPath r.name env.newCompId)
          w.history, v⟩)
      | (some .transient, v) => (some .errInc, ⟨w.history, v⟩)
      | (some _, v) => (some .skip, ⟨w.history, v⟩)

/-- `compareHash` returns 0. A missing size is read as 0. -/
def SameContent (r : UploadRow) (file : LocalFile) : Prop :=
  r.fileSize.getD 0 = file.size ∧ r.hashValue ≠ "" ∧ file.md5 = some r.hashValue

instance (r : UploadRow) (file : LocalFile) : Decidable (SameContent r file) :=
  inferInstanceAs (Decidable (_ ∧ _))

/-- All errors from storage are taken to be transient. -/
def sent : Option Rc → Option Exit
  | none => some .stop
  | some .ok => none
  | some _ => some .errInc

def sendMeta : Option ArchiveMeta → Option Exit
  | none => none
  | some archiveMeta => if archiveMeta.written then sent (putFile archiveMeta.put) else some .errInc

/-- What happens to the contents before the metadata are posted, up to the hash that is posted
with them. -/
def transfer (file : LocalFile) (env : Env) : Except Exit String :=
  if cfg.hostArchiveStorage then .ok (if cfg.useHash then file.md5.getD "" else "")
  else match query env.access with
  | none => .error .stop
  | some .ok =>
    match (sendMeta env.archiveMeta).or (sent (putFile env.put)) with
    | some exit => .error exit
    | none =>
      if env.statAfter = some (file.mtime, file.size) then
        .ok (if cfg.useHash then env.putHash else "")
      else .error .skip
  | some .transient => .error .errInc
  | some _ => .error .skip

def vcsPostFileMetadataAfterUpload (r : UploadRow) (env : Env) (parentCompId : UInt64)
    (oldCompId : Option UInt64) (hash : String) (size : UInt64) (post : ℕ → Attempt Rc)
    (w : World) : Rc × World :=
  match call (Server.create ⟨r.path, false, parentCompId, oldCompId⟩ env.newCompId) post
      w.server with
  | (none, v) => (.stopping, ⟨w.history, v⟩)
  | (some .ok, v) =>
    match env.postedRevision with
    | none => (.other, ⟨w.history, v⟩)
    | some revision =>
      (.ok, ⟨HistoryTree.add cfg.casePolicy (fileEntry r env revision hash size) w.history, v⟩)
  | (some rc, v) => (rc, ⟨w.history, v⟩)

/-- How the handling of the row ends with the result of posting the metadata. -/
def Rc.exit : Rc → Option Exit
  | .ok => none
  | .stopping => some .stop
  | .transient => some .errInc
  | _ => some .skip

/-- The posting of the metadata, once more as a new file where the old one is gone. -/
def postFile (r : UploadRow) (env : Env) (parentCompId : UInt64) (oldCompId : Option UInt64)
    (hash : String) (size : UInt64) (w : World) : Option Exit × World :=
  match vcsPostFileMetadataAfterUpload cfg r env parentCompId oldCompId hash size env.post w with
  | (.cantCreateUploadRevision, w) =>
    let again :=
      vcsPostFileMetadataAfterUpload cfg r env parentCompId none hash size env.postAgain w
    (Rc.exit again.1, again.2)
  | (rc, w) => (Rc.exit rc, w)

def applyUploadCreateOrUpdateToAcs (r : UploadRow) (env : Env) (w : World) :
    Option Exit × World :=
  let oldCompId := knownCompId cfg (relPath r.parentPath r.name) w.history
  match env.stat with
  | none => (some .skip, w)
  | some file =>
    if cfg.useHash ∧ SameContent r file then
      (none, { w with
        history := (HistoryTree.updateLocalTime cfg.casePolicy r.parentPath r.name
          (some file.mtime) w.history).toOption.getD w.history })
    else match transfer cfg file env with
    | .error exit => (some exit, w)
    | .ok hash =>
      match getParentCompId cfg r env w with
      | (.error rc, w) => (Rc.exit rc, w)
      | (.ok parentCompId, w) => postFile cfg r env parentCompId oldCompId hash file.size w

/-- An update of a directory is nothing. -/
def createStage (r : UploadRow) (env : Env) (w : World) : Option Exit × World :=
  if r.isDir then
    if r.uploadAction = .create then createDir cfg r env w else (none, w)
  else applyUploadCreateOrUpdateToAcs cfg r env w

/-! ## One row -/

/-- The local copy of the row after its old item was removed. -/
def flipped (r : UploadRow) : UploadRow :=
  { r with uploadAction := .create, isDir := !r.isDir, compId := none, revision := none }

/-- The body of the loop up to the label `skip`. -/
def handleRow (r : UploadRow) (env : Env) (w : World) : Option Exit × World :=
  if ¬ cfg.casePolicy.IsValidDirEntry r.name then (some .skip, w)
  else if env.stopAtStart then (some .stop, w)
  else match r.uploadAction with
  | .delete => deleteStage cfg r env w
  | .changeFileOrDirType =>
    match deleteStage cfg r env w with
    | (some exit, w) => (some exit, w)
    | (none, w) => createStage cfg (flipped r) env w
  | .create | .update => createStage cfg r env w

/-! ## Passes -/

/-- `pass` is that of the running pass: none in normal mode, the largest row id in error mode.
`departures` holds the rows that left the log, with the server at that time. -/
structure State where
  log : UploadChangeLog
  world : World
  pass : Option (Option ℕ)
  departures : List (UploadRow × Server)

inductive Event where
  | start (isErrorMode : Bool)
  | iterate (env : Env)

/-- What follows the label `skip`. -/
def settle (r : UploadRow) (s : State) : Option Exit × World → State
  | (some .stop, w) => { s with world := w, pass := none }
  | (some .errInc, w) =>
    if cfg.maxErrorRetryCount < r.uploadErrCount then
      { s with
        log := s.log.remove r.rowId
        world := w
        departures := (r, w.server) :: s.departures }
    else { s with log := s.log.incErr r.rowId, world := w }
  | (_, w) =>
    { s with
      log := s.log.remove r.rowId
      world := w
      departures := (r, w.server) :: s.departures }

def State.step (s : State) : Event → Option State
  | .start isErrorMode =>
    if s.pass = none then
      some { s with pass := some (if isErrorMode then some s.log.getMaxRowId else none) }
    else none
  | .iterate env =>
    s.pass.map fun mode =>
      match s.log.next mode with
      | none => { s with pass := none }
      | some r => settle cfg r s (handleRow cfg r env s.world)

end UploadPass

end PersonalCloud.SyncConfig
