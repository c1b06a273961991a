import PersonalCloud.StorageNode.Requests

/-!
# Open files and their database entries

A dataset keeps the permissions and the size of each component in its database, and for an
open file a second copy of both in the `vss_file`, which writes, truncates and mode changes
go to. `fileUpdateDatabase` carries them over: it compares the attributes with the value
they had at the last update, and always writes the size.

The database may refuse a statement; the mini-transaction it belongs to is here taken to leave
the database as it was then. What the environment decides (replies of the database and of the file
system, the clock, free space, fresh names) comes with each event. Component names are
normalised and folded as the database compares them, and a content file is known by the
number its path is made from. Renames are left out.
-/

namespace PersonalCloud.StorageNode

open PersonalCloud.Lib

abbrev Component := List UInt8
abbrev ContentPath := Nat
abbrev FileId := Nat

def VSSI_FILE_OPEN_CREATE : UInt32 := 0x8
def VSSI_FILE_OPEN_OPEN_ALWAYS : UInt32 := VSSI_FILE_OPEN_CREATE
def VSSI_FILE_OPEN_CREATE_ALWAYS : UInt32 := 0x10
def VSSI_FILE_OPEN_CREATE_NEW : UInt32 := 0x20
def VSSI_FILE_OPEN_TRUNCATE_ALWAYS : UInt32 := 0x40

def VSSI_ATTR_READONLY : UInt32 := 0x1
def VSSI_ATTR_HIDDEN : UInt32 := 0x2
def VSSI_ATTR_SYS : UInt32 := 0x4
def VSSI_ATTR_ARCHIVE : UInt32 := 0x8
def ATTRS_SET_MASK : UInt32 :=
  VSSI_ATTR_READONLY ||| VSSI_ATTR_SYS ||| VSSI_ATTR_HIDDEN ||| VSSI_ATTR_ARCHIVE
def ATTRS_CLR_MASK : UInt32 := ATTRS_SET_MASK

def MAXIMUM_COMPONENTS : Nat := 64 * 1024

/-! ## The database -/

structure ComponentInfo where
  directory : Bool
  perm : UInt32
  size : Nat
  path : ContentPath
  version : Nat
  mtime : Nat
  deriving DecidableEq, Repr

abbrev Database := Component → Option ComponentInfo

/-- How the database takes an update of a file: the statement it refuses, if any. -/
inductive DbReply where
  | ok | refusesPermission | refusesSize
  deriving DecidableEq, Repr

namespace Database

/-- There is no result when the component is unknown. -/
def setComponentPermission (db : Database) (component : Component) (perm : UInt32)
    (version : Nat) : Option Database :=
  (db component).map fun info =>
    Function.update db component (some { info with perm := perm, version := version })

def setComponentSize (db : Database) (component : Component) (size version changeTime : Nat)
    (newModifyTime : Bool) : Option Database :=
  match db component with
  | none => none
  | some info =>
    if info.directory then none
    else some (Function.update db component (some { info with
      size := size
      version := version
      mtime := if newModifyTime then changeTime else info.mtime }))

def isDirectory (db : Database) (component : Component) : Bool :=
  (db component).any ComponentInfo.directory

end Database

/-- What stands before the last slash of a name. -/
def parentOf (component : Component) : Option Component :=
  let slash : UInt8 := 0x2f
  if slash ∈ component then
    some ((component.reverse.dropWhile fun b => b ≠ slash).tail.reverse)
  else none

/-! ## Open files -/

/-- The text that stands for the names of a file that was removed while open. -/
def goneName : Component := [0x3c, 0x67, 0x6f, 0x6e, 0x65, 0x3e]

/-- A `vss_file`: its locks and references, and what it tracks for the database. No content is at
the path `goneName`, so `filename` is none there. `lastUpdateFailed` is a ghost. -/
structure OpenFile where
  file : VssFile
  attrsOrig : UInt32
  attrs : UInt32
  sizeOrig : Nat
  size : Nat
  isModified : Bool
  newModifyTime : Bool
  deletePending : Bool
  component : Component
  filename : Option ContentPath
  lastUpdateFailed : Bool

namespace OpenFile

def new (file : VssFile) (component : Component) (filename : ContentPath) (attrs : UInt32)
    (size : Nat) (isModified : Bool) : OpenFile where
  file := file
  attrsOrig := attrs
  attrs := attrs
  sizeOrig := size
  size := size
  isModified := isModified
  newModifyTime := isModified
  deletePending := false
  component := component
  filename := some filename
  lastUpdateFailed := false

def setSize (h : OpenFile) (newSize : Nat) : OpenFile :=
  { h with size := newSize, isModified := true, newModifyTime := true }

def setSizeIfLarger (h : OpenFile) (newSize : Nat) : OpenFile :=
  { h with
    size := if newSize > h.size then newSize else h.size
    isModified := true
    newModifyTime := true }

def setAttrs (h : OpenFile) (newAttrs : UInt32) : OpenFile :=
  { h with attrs := newAttrs, isModified := true }

/-- Whether the attributes changed since the last call. -/
def syncAttrs (h : OpenFile) : Bool × OpenFile :=
  (h.attrs != h.attrsOrig, { h with attrsOrig := h.attrs })

def syncSize (h : OpenFile) : Bool × OpenFile :=
  (h.size != h.sizeOrig, { h with sizeOrig := h.size })

def setDeletePending (h : OpenFile) : OpenFile :=
  { h with component := goneName, filename := none, deletePending := true }

/-- After a write of `written` bytes at `offset`. -/
def wrote (h : OpenFile) (offset written : Nat) : OpenFile :=
  (h.setAttrs (h.attrs ||| VSSI_ATTR_ARCHIVE)).setSizeIfLarger (rangeStop offset written)

/-- After a truncation to `size` bytes. -/
def truncated (h : OpenFile) (size : Nat) : OpenFile :=
  (h.setAttrs (h.attrs ||| VSSI_ATTR_ARCHIVE)).setSize size

def chmod (h : OpenFile) (attrs attrsMask : UInt32) : OpenFile :=
  h.setAttrs ((h.attrs &&& ~~~(attrsMask &&& ATTRS_CLR_MASK)) |||
    (attrs &&& (attrsMask &&& ATTRS_SET_MASK)))

end OpenFile

/-! ## The dataset -/

/-- A dataset. The last two fields are ghosts: the database updates of files that succeeded
and the files that were destroyed, newest first, each file as it was then with the database's
entry for it right after. -/
structure Dataset where
  database : Database
  version : Nat
  openHandles : OrdMap ContentPath FileId
  fileIdToHandle : OrdMap FileId OpenFile
  updated : List (OpenFile × Option ComponentInfo)
  destroyed : List (OpenFile × Option ComponentInfo)

/-- What the environment decides when a file is opened. -/
structure OpenEnv where
  siblings : Nat
  createRefused : Bool
  path : ContentPath
  contentError : Option Status
  fileId : UInt32
  time : Nat
  deriving Repr

namespace Dataset

/-- A dataset with no file open. -/
def start (database : Database) (version : Nat) : Dataset where
  database := database
  version := version
  openHandles := .empty
  fileIdToHandle := .empty
  updated := []
  destroyed := []

/-- The database's entry for an open file that still has its names. -/
def entry (d : Dataset) (h : OpenFile) : Option ComponentInfo :=
  if h.deletePending then none else d.database h.component

def putFile (d : Dataset) (id : FileId) (h : OpenFile) : Dataset :=
  { d with fileIdToHandle := d.fileIdToHandle.insert id h }

/-- Carry the attributes and the size of an open file over to the database. The attributes
count as synced before their statement is made, and so does the size; with a refused
statement the database is taken to stay as it was. -/
def fileUpdateDatabase (d : Dataset) (id : FileId) (h : OpenFile) (reply : DbReply)
    (changeTime : Nat) : Dataset :=
  if !h.isModified || h.deletePending then d
  else
    let nversion := d.version + 1
    let attrs := h.syncAttrs
    let permission :=
      if attrs.1 then
        if reply = .refusesPermission then none
        else d.database.setComponentPermission h.component h.attrs nversion
      else some d.database
    match permission with
    | none => d.putFile id { attrs.2 with lastUpdateFailed := true }
    | some db =>
      let h := attrs.2.syncSize.2
      let size :=
        if reply = .refusesSize then none
        else db.setComponentSize h.component h.size nversion changeTime h.newModifyTime
      match size with
      | none => d.putFile id { h with lastUpdateFailed := true }
      | some db =>
        let h := { h with newModifyTime := false, isModified := false, lastUpdateFailed := false }
        { d with
          database := db
          version := nversion
          fileIdToHandle := d.fileIdToHandle.insert id h
          updated := (h, db h.component) :: d.updated }

/-! ### Opening -/

/-- Open the content file of a component, or add to the handle it has. -/
def openHandle (d : Dataset) (object : ObjectPtr) (component : Component) (info : ComponentInfo)
    (created truncate : Bool) (origin : Origin) (flags : UInt32) (env : OpenEnv) :
    Status × Dataset :=
  let readonly (attrs : UInt32) :=
    !created && hasFlag flags VSSI_FILE_OPEN_WRITE && hasFlag attrs VSSI_ATTR_READONLY
  let truncateFile (h : OpenFile) := if truncate then h.truncated 0 else h
  match d.openHandles.find? info.path with
  | none =>
    if readonly info.perm then (.perm, d)
    else
      match env.contentError with
      | some error => (error, d)
      | none =>
        let file := VssFile.opened env.fileId object origin flags
        let h := OpenFile.new file component info.path info.perm info.size created
        (.vssi .success, { d with
          openHandles := d.openHandles.insert info.path env.fileId.toNat
          fileIdToHandle := d.fileIdToHandle.insert env.fileId.toNat (truncateFile h) })
  | some id =>
    match d.fileIdToHandle.find? id with
    | none => (.badobj, d)
    | some h =>
      if readonly h.attrs then (.perm, d)
      else if h.deletePending then (.busy, d)
      else
        let r := h.file.openAgain object origin flags
        let h := { h with file := r.2 }
        (.vssi r.1, d.putFile id (if r.1 = .success then truncateFile h else h))

def openFile (d : Dataset) (object : ObjectPtr) (component : Component) (origin : Origin)
    (flags attrs : UInt32) (env : OpenEnv) : Status × Dataset :=
  if d.database.isDirectory component then (.isdir, d)
  else
    match d.database component with
    | none =>
      if (parentOf component).any fun dir => !d.database.isDirectory dir then (.badpath, d)
      else if !hasFlag flags (VSSI_FILE_OPEN_OPEN_ALWAYS ||| VSSI_FILE_OPEN_CREATE_ALWAYS |||
          VSSI_FILE_OPEN_CREATE_NEW) then (.notfound, d)
      else if MAXIMUM_COMPONENTS ≤ env.siblings then (.maxcomp, d)
      else if env.createRefused then (.notfound, d)
      else
        let info : ComponentInfo := {
          directory := false
          perm := (attrs ||| VSSI_ATTR_ARCHIVE) &&& ATTRS_SET_MASK
          size := 0
          path := env.path
          version := d.version + 1
          mtime := env.time }
        let d := { d with
          database := Function.update d.database component (some info)
          version := d.version + 1 }
        d.openHandle object component info true false origin flags env
    | some info =>
      if hasFlag flags VSSI_FILE_OPEN_CREATE_NEW then (.perm, d)
      else
        let truncate := hasFlag flags VSSI_FILE_OPEN_CREATE_ALWAYS ||
          hasFlag flags VSSI_FILE_OPEN_TRUNCATE_ALWAYS
        let createExists := hasFlag flags VSSI_FILE_OPEN_CREATE_ALWAYS ||
          hasFlag flags VSSI_FILE_OPEN_OPEN_ALWAYS
        let r := d.openHandle object component info false truncate origin flags env
        (if r.1 = .vssi .success ∧ createExists then .existed else r.1, r.2)

/-! ### Other requests on a file -/

/-- Handle a request on the file's locks and references, and let `done` follow when it was
answered with success. -/
def onFile (d : Dataset) (id : FileId) (context : Context) (remainingSpace : Nat)
    (request : Request) (done : OpenFile → OpenFile) : Dataset :=
  match d.fileIdToHandle.find? id with
  | none => d
  | some h =>
    let r := h.file.handle context remainingSpace request
    let h := { h with file := r.2 }
    d.putFile id (if r.1 = some (.vssi .success) then done h else h)

/-- A write; the file system says how many bytes it took. -/
def writeFile (d : Dataset) (id : FileId) (context : Context) (object : ObjectPtr)
    (origin : Origin) (offset length remainingSpace : Nat) (written : Option Nat) : Dataset :=
  d.onFile id context remainingSpace (.writeFile object origin offset length) fun h =>
    match written with
    | none => h
    | some n => h.wrote offset (min n length)

def truncateFile (d : Dataset) (id : FileId) (context : Context) (object : ObjectPtr)
    (origin : Origin) (offset : Nat) (done : Bool) : Dataset :=
  d.onFile id context 0 (.truncateFile object origin offset) fun h =>
    if done then h.truncated offset else h

def chmodFile (d : Dataset) (id : FileId) (attrs attrsMask : UInt32) : Dataset :=
  match d.fileIdToHandle.find? id with
  | none => d
  | some h => d.putFile id (h.chmod attrs attrsMask)

/-! ### The end of a handle -/

/-- Forget the handle and destroy its `vss_file`. -/
def destroy (d : Dataset) (id : FileId) (h : OpenFile) : Dataset :=
  { d with
    openHandles :=
      if h.deletePending then d.openHandles
      else match h.filename with
        | none => d.openHandles
        | some filename => d.openHandles.erase filename
    fileIdToHandle := d.fileIdToHandle.erase id
    destroyed := (h, d.entry h) :: d.destroyed }

/-- Put the file back, or destroy it when it has no reference left. -/
def putOrDestroy (d : Dataset) (id : FileId) (h : OpenFile) : Dataset :=
  if h.file.referenced then d.putFile id h else d.destroy id h

def closeFile (d : Dataset) (id : FileId) (object : ObjectPtr) (origin : Origin)
    (reply : DbReply) (changeTime : Nat) : Dataset :=
  match d.fileIdToHandle.find? id with
  | none => d
  | some h =>
    if origin % 2 ^ 32 = 0 then d
    else if !h.file.validateOrigin origin then d
    else
      let d := d.fileUpdateDatabase id h reply changeTime
      match d.fileIdToHandle.find? id with
      | none => d
      | some h => d.putOrDestroy id { h with file := (h.file.closeFile object origin).2 }

/-- Remove the object from every file; those without references go. -/
def objectRelease (d : Dataset) (object : ObjectPtr) : Dataset :=
  d.fileIdToHandle.entries.foldl
    (fun d x => d.putOrDestroy x.1 { x.2 with file := (x.2.file.removeObject object).2 }) d

/-- Remove a component. An open file must have been opened for deletion, and loses its names;
its handle stays until the last close. -/
def removeIw (d : Dataset) (component : Component) (empty refused : Bool) : Dataset :=
  match d.database component with
  | none => d
  | some info =>
    let erase (d : Dataset) :=
      if refused then d
      else { d with
        database := Function.update d.database component none
        version := d.version + 1 }
    if info.directory then if empty then erase d else d
    else
      match (d.openHandles.find? info.path).bind fun id =>
          (d.fileIdToHandle.find? id).map fun h => (id, h) with
      | none => erase d
      | some (id, h) =>
        if hasFlag h.file.accessMode VSSI_FILE_OPEN_DELETE then
          erase { d with
            openHandles := d.openHandles.erase info.path
            fileIdToHandle := d.fileIdToHandle.insert id h.setDeletePending }
        else d

end Dataset

/-! ## Runs -/

inductive DatasetEvent where
  | openFile (object : ObjectPtr) (component : Component) (origin : Origin)
      (flags attrs : UInt32) (env : OpenEnv)
  | writeFile (id : FileId) (context : Context) (object : ObjectPtr) (origin : Origin)
      (offset length remainingSpace : Nat) (written : Option Nat)
  | truncateFile (id : FileId) (context : Context) (object : ObjectPtr) (origin : Origin)
      (offset : Nat) (done : Bool)
  | chmodFile (id : FileId) (attrs attrsMask : UInt32)
  /-- A request that only concerns locks, references and open modes. -/
  | lockRequest (id : FileId) (context : Context) (request : Request)
  | fileUpdateDatabase (id : FileId) (reply : DbReply) (changeTime : Nat)
  | closeFile (id : FileId) (object : ObjectPtr) (origin : Origin) (reply : DbReply)
      (changeTime : Nat)
  | objectRelease (object : ObjectPtr)
  | removeIw (component : Component) (empty refused : Bool)

/-- The requests that leave the opens and the content of a file alone, but for open modes. -/
def Request.isLocking : Request → Bool
  | .readFile .. | .setLock .. | .getLock .. | .setLockRange .. | .releaseFile .. => true
  | _ => false

namespace Dataset

/-- A new handle gets an id that no open file has. -/
def step (d : Dataset) : DatasetEvent → Option Dataset
  | .openFile object component origin flags attrs env =>
    if (d.fileIdToHandle.find? env.fileId.toNat).isSome then none
    else some (d.openFile object component origin flags attrs env).2
  | .writeFile id context object origin offset length remainingSpace written =>
    some (d.writeFile id context object origin offset length remainingSpace written)
  | .truncateFile id context object origin offset done =>
    some (d.truncateFile id context object origin offset done)
  | .chmodFile id attrs attrsMask => some (d.chmodFile id attrs attrsMask)
  | .lockRequest id context request =>
    if request.isLocking then some (d.onFile id context 0 request fun h => h) else none
  | .fileUpdateDatabase id reply changeTime =>
    some (match d.fileIdToHandle.find? id with
      | none => d
      | some h => d.fileUpdateDatabase id h reply changeTime)
  | .closeFile id object origin reply changeTime =>
    some (d.closeFile id object origin reply changeTime)
  | .objectRelease object => some (d.objectRelease object)
  | .removeIw component empty refused => some (d.removeIw component empty refused)

end Dataset

end PersonalCloud.StorageNode
