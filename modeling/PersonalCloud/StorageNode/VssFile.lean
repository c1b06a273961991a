import PersonalCloud.Lib.OrdMap
import PersonalCloud.Lib.Run

/-!
# The storage node's open-file object

`VssFile` holds what the server keeps for an open file: the byte-range locks, the oplocks,
the references of client objects and the open modes of client descriptors (origins), and
the requests waiting for a lock. Client objects are known by their address, requests by
their context. The locks, oplocks and queues are lists in the order the code keeps them:
new locks and oplocks go to the front, waiters to the back.

`step` puts the public operations together as one transition function, so that facts
about all histories of a file are facts about its runs.
-/

namespace PersonalCloud.StorageNode

open PersonalCloud.Lib

abbrev ObjectPtr := Nat
abbrev Origin := Nat
abbrev Context := Nat

/-! ## Flags -/

def VSSI_FILE_OPEN_READ : UInt32 := 0x1
def VSSI_FILE_OPEN_WRITE : UInt32 := 0x2
def VSSI_FILE_OPEN_DELETE : UInt32 := 0x4
def VSSI_FILE_SHARE_READ : UInt32 := 0x10000
def VSSI_FILE_SHARE_WRITE : UInt32 := 0x20000
def VSSI_FILE_SHARE_DELETE : UInt32 := 0x40000
def VSSI_FILE_ACCESS_MODES : UInt32 := 0x0000ffff
def VSSI_FILE_SHARING_MODES : UInt32 := 0xffff0000

def VSSI_FILE_LOCK_NONE : UInt64 := 0
def VSSI_FILE_LOCK_READ_SHARED : UInt64 := 0x1
def VSSI_FILE_LOCK_WRITE_EXCL : UInt64 := 0x2
def VSSI_FILE_LOCK_CACHE_READ : UInt64 := 0x100
def VSSI_FILE_LOCK_CACHE_WRITE : UInt64 := 0x200
def VSSI_FILE_LOCK_CACHE_BREAK : UInt64 := 0x400

def VSSI_RANGE_LOCK : UInt32 := 0x1
def VSSI_RANGE_UNLOCK : UInt32 := 0x2
def VSSI_RANGE_WAIT : UInt32 := 0x8

/-- The result codes these operations return. -/
inductive VssiResult where
  | success | badcmd | access | invalid | locked | retry | waitlock
  deriving DecidableEq, Repr

/-- `mode & flag`, as a condition. -/
def hasBit (mode flag : UInt64) : Bool := mode &&& flag != 0

def hasFlag (flags flag : UInt32) : Bool := flags &&& flag != 0

/-! ## Byte-range locks -/

/-- A held lock on the bytes from `start` up to `stop`, which is the first byte not
covered. -/
structure Flock where
  object : ObjectPtr
  origin : Origin
  mode : UInt64
  start : Nat
  stop : Nat
  deriving DecidableEq, Repr

namespace Flock

def overlaps (l : Flock) (start2 stop2 : Nat) : Bool :=
  if start2 ≥ l.stop ∨ l.start ≥ stop2 then false else true

def isMatch (l : Flock) (origin2 : Origin) (mode2 : UInt64) (start2 stop2 : Nat) : Bool :=
  l.origin = origin2 ∧ l.mode = mode2 ∧ l.start = start2 ∧ l.stop = stop2

/-- Whether a read or a write of a range conflicts with the lock. -/
def ioConflicts (l : Flock) (origin2 : Origin) (mode2 : UInt64) (start2 stop2 : Nat) : Bool :=
  if !l.overlaps start2 stop2 then false
  else if l.origin = origin2 then
    hasBit l.mode VSSI_FILE_LOCK_READ_SHARED && hasBit mode2 VSSI_FILE_LOCK_WRITE_EXCL
  else if hasBit l.mode VSSI_FILE_LOCK_WRITE_EXCL then true
  else if hasBit mode2 VSSI_FILE_LOCK_WRITE_EXCL then true
  else if hasBit l.mode VSSI_FILE_LOCK_READ_SHARED && hasBit mode2 VSSI_FILE_LOCK_READ_SHARED then
    false
  else true

/-- Whether a request for a new lock conflicts with the lock. On the same origin a request
with the read bit may overlay a lock with the write bit. -/
def lockConflicts (l : Flock) (origin2 : Origin) (mode2 : UInt64) (start2 stop2 : Nat) : Bool :=
  if !l.overlaps start2 stop2 then false
  else if l.origin = origin2 ∧ hasBit l.mode VSSI_FILE_LOCK_WRITE_EXCL ∧
      hasBit mode2 VSSI_FILE_LOCK_READ_SHARED then false
  else if hasBit l.mode VSSI_FILE_LOCK_WRITE_EXCL then true
  else if hasBit mode2 VSSI_FILE_LOCK_WRITE_EXCL then true
  else if hasBit l.mode VSSI_FILE_LOCK_READ_SHARED && hasBit mode2 VSSI_FILE_LOCK_READ_SHARED then
    false
  else true

end Flock

/-! ## Oplocks -/

/-- The right of a client object to cache the file. -/
structure Oplock where
  object : ObjectPtr
  mode : UInt64
  deriving DecidableEq, Repr

/-- Whether a request of `objectIn` conflicts with the oplock. -/
def Oplock.needToBreak (l : Oplock) (objectIn : ObjectPtr) (writeRequest : Bool) : Bool :=
  (hasBit l.mode VSSI_FILE_LOCK_CACHE_WRITE && l.object != objectIn) ||
    (hasBit l.mode VSSI_FILE_LOCK_CACHE_READ && (writeRequest && l.object != objectIn))

/-! ## The file -/

structure OplockWait where
  context : Context
  object : ObjectPtr
  writeRequest : Bool
  deriving DecidableEq, Repr

structure BrlockWait where
  context : Context
  origin : Origin
  mode : UInt64
  start : Nat
  stop : Nat
  deriving DecidableEq, Repr

/-- The state of an open file. The last two fields record what the file has handed to the
server: the contexts requeued, oldest first, and the break notifications sent. -/
structure VssFile where
  refcount : Int
  accessMode : UInt32
  fileId : UInt32
  locks : List Flock
  oplocks : List Oplock
  objectRefs : OrdMap ObjectPtr Int
  originFlags : OrdMap Origin UInt32
  openOrigins : List Origin
  oplockQueue : List OplockWait
  brlockQueue : List BrlockWait
  requeued : List Context
  notified : List (ObjectPtr × UInt64 × UInt32)

namespace VssFile

/-- The file as its constructor leaves it: one reference, and nothing held. -/
def new (fileId flags : UInt32) : VssFile where
  refcount := 1
  accessMode := flags
  fileId := fileId
  locks := []
  oplocks := []
  objectRefs := .empty
  originFlags := .empty
  openOrigins := []
  oplockQueue := []
  brlockQueue := []
  requeued := []
  notified := []

/-! ### Waiters -/

def rangeOverlap (start1 stop1 start2 stop2 : Nat) : Bool :=
  if start1 ≥ stop2 ∨ start2 ≥ stop1 then false else true

/-- Requeue the waiters whose range meets the freed range; the others keep their order. -/
def wakeRangeLock (f : VssFile) (start stop : Nat) : VssFile :=
  let freed (w : BrlockWait) := rangeOverlap start stop w.start w.stop
  { f with
    requeued := f.requeued ++ (f.brlockQueue.filter freed).map BrlockWait.context
    brlockQueue := f.brlockQueue.filter fun w => !freed w }

def wakeOplocks (f : VssFile) : VssFile :=
  { f with
    requeued := f.requeued ++ f.oplockQueue.map OplockWait.context
    oplockQueue := [] }

def wakeAll (f : VssFile) : VssFile :=
  { f with
    requeued := f.requeued ++ f.brlockQueue.map BrlockWait.context ++
      f.oplockQueue.map OplockWait.context
    brlockQueue := []
    oplockQueue := [] }

def waitOplock (f : VssFile) (context : Context) (object : ObjectPtr) (writeRequest : Bool) :
    VssFile :=
  { f with oplockQueue := f.oplockQueue ++ [⟨context, object, writeRequest⟩] }

def waitBrlock (f : VssFile) (context : Context) (origin : Origin) (mode : UInt64)
    (start stop : Nat) : VssFile :=
  { f with brlockQueue := f.brlockQueue ++ [⟨context, origin, mode, start, stop⟩] }

/-! ### Setting and clearing locks -/

def addRangeLock (f : VssFile) (object : ObjectPtr) (origin : Origin) (mode : UInt64)
    (start stop : Nat) : Bool × VssFile :=
  if f.locks.any fun l => l.lockConflicts origin mode start stop then (false, f)
  else (true, { f with locks := ⟨object, origin, mode, start, stop⟩ :: f.locks })

def removeRangeLock (f : VssFile) (origin : Origin) (mode : UInt64) (start stop : Nat) :
    Bool × VssFile :=
  if f.locks.any fun l => l.isMatch origin mode start stop then
    (true, { f with
      locks := f.locks.filter fun l => !l.isMatch origin mode start stop }.wakeRangeLock
        start stop)
  else (false, f)

/-- Drop the locks of an origin, waking the waiters of each one in turn. -/
def releaseBrlocks (f : VssFile) (origin : Origin) : VssFile :=
  (f.locks.filter fun l => l.origin = origin).foldl
    (fun g l => g.wakeRangeLock l.start l.stop)
    { f with locks := f.locks.filter fun l => l.origin ≠ origin }

/-- Drop the locks of an object. No waiter is woken here. -/
def removeBrlocks (f : VssFile) (object : ObjectPtr) : Bool × VssFile :=
  (f.locks.any fun l => l.object = object,
    { f with locks := f.locks.filter fun l => l.object ≠ object })

def removeOplocks (f : VssFile) (object : ObjectPtr) : Bool × VssFile :=
  if f.oplocks.any fun l => l.object = object then
    (true, { f with oplocks := f.oplocks.filter fun l => l.object ≠ object }.wakeOplocks)
  else (false, f)

/-- Whether a request conflicts with an oplock. Each oplock that conflicts is notified. -/
def checkOplockConflict (f : VssFile) (object : ObjectPtr) (writeRequest : Bool) :
    Bool × VssFile :=
  (f.oplocks.any fun l => l.needToBreak object writeRequest,
    { f with
      notified := f.notified ++
        (f.oplocks.filter fun l => l.needToBreak object writeRequest).map
          fun l => (l.object, l.mode, f.fileId) })

def setLockRange (f : VssFile) (object : ObjectPtr) (origin : Origin) (flags : UInt32)
    (mode : UInt64) (start stop : Nat) : VssiResult × VssFile :=
  if stop < start then (.invalid, f)
  else if hasFlag flags VSSI_RANGE_UNLOCK && hasFlag flags VSSI_RANGE_LOCK then (.badcmd, f)
  else if hasFlag flags VSSI_RANGE_UNLOCK then
    let removed := f.removeRangeLock origin mode start stop
    (if removed.1 then .success else .invalid, removed.2)
  else if hasFlag flags VSSI_RANGE_LOCK then
    let checked := f.checkOplockConflict object true
    if checked.1 then (.retry, checked.2)
    else
      let added := checked.2.addRangeLock object origin mode start stop
      (if added.1 then .success else if hasFlag flags VSSI_RANGE_WAIT then .waitlock else .locked,
        added.2)
  else (.badcmd, f)

def setFirstMode (object : ObjectPtr) (mode : UInt64) : List Oplock → List Oplock
  | [] => []
  | l :: ls => if l.object = object then { l with mode := mode } :: ls
    else l :: setFirstMode object mode ls

/-- Give the object's oplock the new mode, or put a new oplock in front. -/
def putOplock (object : ObjectPtr) (mode : UInt64) (oplocks : List Oplock) : List Oplock :=
  if oplocks.any fun l => l.object = object then setFirstMode object mode oplocks
  else ⟨object, mode⟩ :: oplocks

def setOplock (f : VssFile) (object : ObjectPtr) (mode : UInt64) : VssiResult × VssFile :=
  if hasBit mode (~~~(VSSI_FILE_LOCK_CACHE_READ ||| VSSI_FILE_LOCK_CACHE_WRITE)) then
    (.invalid, f)
  else if mode = VSSI_FILE_LOCK_NONE then (.success, (f.removeOplocks object).2)
  else if f.locks ≠ [] then (.locked, f)
  else if f.oplocks.any fun l =>
      l.needToBreak object (hasBit mode VSSI_FILE_LOCK_CACHE_WRITE) then (.locked, f)
  else (.success, { f with oplocks := putOplock object mode f.oplocks })

/-! ### References and open modes -/

/-- Whether the open modes `newflags` of a new origin conflict with those of an old one. -/
def checkModeConflict (oldflags newflags : UInt32) : Bool :=
  let wants (a b access share : UInt32) := hasFlag a access && !hasFlag b share
  wants newflags oldflags VSSI_FILE_OPEN_READ VSSI_FILE_SHARE_READ ||
  wants newflags oldflags VSSI_FILE_OPEN_WRITE VSSI_FILE_SHARE_WRITE ||
  wants newflags oldflags VSSI_FILE_OPEN_DELETE VSSI_FILE_SHARE_DELETE ||
  wants oldflags newflags VSSI_FILE_OPEN_READ VSSI_FILE_SHARE_READ ||
  wants oldflags newflags VSSI_FILE_OPEN_WRITE VSSI_FILE_SHARE_WRITE ||
  wants oldflags newflags VSSI_FILE_OPEN_DELETE VSSI_FILE_SHARE_DELETE

def addReference (f : VssFile) (flags : UInt32) : VssiResult × VssFile :=
  if f.originFlags.entries.any fun x => checkModeConflict x.2 flags then (.access, f)
  else (.success, { f with refcount := f.refcount + 1 })

def addObject (f : VssFile) (object : ObjectPtr) : VssFile :=
  match f.objectRefs.find? object with
  | none => { f with objectRefs := f.objectRefs.insert object 1 }
  | some n => { f with objectRefs := f.objectRefs.insert object (n + 1) }

def addOrigin (f : VssFile) (origin : Origin) (flags : UInt32) : VssFile :=
  { f with
    originFlags := f.originFlags.insert origin flags
    accessMode := f.accessMode ||| flags }

def addOpenOrigin (f : VssFile) (origin : Origin) : VssFile :=
  { f with openOrigins := f.openOrigins ++ [origin] }

def removeOpenOrigin (f : VssFile) (origin : Origin) : VssFile :=
  { f with openOrigins := f.openOrigins.erase origin }

def releaseOrigin (f : VssFile) (origin : Origin) : VssFile :=
  let f := f.releaseBrlocks origin
  let originFlags := f.originFlags.erase origin
  { f with
    originFlags := originFlags
    accessMode :=
      if originFlags.size = 0 then VSSI_FILE_ACCESS_MODES ||| VSSI_FILE_SHARING_MODES
      else originFlags.entries.foldl (fun m x => m ||| x.2) 0 }

/-- Count down the object's references; `true` when this was its last one. -/
def dropObjectRef (f : VssFile) (object : ObjectPtr) : Bool × VssFile :=
  match f.objectRefs.find? object with
  | none => (false, f)
  | some n =>
    if n - 1 = 0 then (true, { f with objectRefs := f.objectRefs.erase object })
    else (false, { f with objectRefs := f.objectRefs.insert object (n - 1) })

/-- Drop one reference of the object, and its oplocks with the last one. -/
def removeReference (f : VssFile) (object : ObjectPtr) (origin : Origin) :
    VssiResult × VssFile :=
  let dropped := (f.releaseBrlocks origin).dropObjectRef object
  let f : VssFile := { dropped.2 with originFlags := dropped.2.originFlags.erase origin }
  let f := if dropped.1 then (f.removeOplocks object).2 else f
  if f.refcount = 0 then (.invalid, f) else (.success, { f with refcount := f.refcount - 1 })

/-- Forget the object with all its references; `false` when it had none. -/
def eraseObjectRefs (f : VssFile) (object : ObjectPtr) : Bool × VssFile :=
  match f.objectRefs.find? object with
  | none => (false, f)
  | some n =>
    (true, { f with
      refcount := f.refcount - n
      objectRefs := f.objectRefs.erase object })

/-- Drop everything a dying object holds on the file. -/
def removeObject (f : VssFile) (object : ObjectPtr) : Bool × VssFile :=
  let oplocks := f.removeOplocks object
  let brlocks := oplocks.2.removeBrlocks object
  let refs := brlocks.2.eraseObjectRefs object
  let removed := oplocks.1 || brlocks.1 || refs.1
  (removed, if removed then refs.2.wakeAll else refs.2)

/-! ### What each part leaves alone -/

section Frame

variable (f : VssFile) (object : ObjectPtr) (origin : Origin) (start stop : Nat)

@[simp] theorem locks_wakeRangeLock : (f.wakeRangeLock start stop).locks = f.locks := rfl

@[simp] theorem oplocks_wakeRangeLock : (f.wakeRangeLock start stop).oplocks = f.oplocks := rfl

@[simp] theorem locks_wakeOplocks : f.wakeOplocks.locks = f.locks := rfl

@[simp] theorem oplocks_wakeOplocks : f.wakeOplocks.oplocks = f.oplocks := rfl

@[simp] theorem locks_wakeAll : f.wakeAll.locks = f.locks := rfl

@[simp] theorem oplocks_wakeAll : f.wakeAll.oplocks = f.oplocks := rfl

theorem locks_foldl_wakeRangeLock (ls : List Flock) :
    (ls.foldl (fun g l => g.wakeRangeLock l.start l.stop) f).locks = f.locks := by
  induction ls generalizing f with
  | nil => rfl
  | cons l ls ih => simp [ih]

theorem oplocks_foldl_wakeRangeLock (ls : List Flock) :
    (ls.foldl (fun g l => g.wakeRangeLock l.start l.stop) f).oplocks = f.oplocks := by
  induction ls generalizing f with
  | nil => rfl
  | cons l ls ih => simp [ih]

@[simp] theorem locks_releaseBrlocks :
    (f.releaseBrlocks origin).locks = f.locks.filter fun l => l.origin ≠ origin := by
  simp [releaseBrlocks, locks_foldl_wakeRangeLock]

@[simp] theorem oplocks_releaseBrlocks : (f.releaseBrlocks origin).oplocks = f.oplocks := by
  simp [releaseBrlocks, oplocks_foldl_wakeRangeLock]

@[simp] theorem locks_removeRangeLock (mode : UInt64) :
    (f.removeRangeLock origin mode start stop).2.locks =
      f.locks.filter fun l => !l.isMatch origin mode start stop := by
  unfold removeRangeLock
  split_ifs with h
  · rfl
  · refine (List.filter_eq_self.2 fun l hl => ?_).symm
    simp only [List.any_eq_true, not_exists, not_and, Bool.not_eq_true] at h
    simpa using h l hl

@[simp] theorem oplocks_removeRangeLock (mode : UInt64) :
    (f.removeRangeLock origin mode start stop).2.oplocks = f.oplocks := by
  unfold removeRangeLock
  split <;> rfl

@[simp] theorem locks_checkOplockConflict (write : Bool) :
    (f.checkOplockConflict object write).2.locks = f.locks := rfl

@[simp] theorem oplocks_checkOplockConflict (write : Bool) :
    (f.checkOplockConflict object write).2.oplocks = f.oplocks := rfl

theorem locks_addRangeLock (mode : UInt64) :
    (f.addRangeLock object origin mode start stop).2.locks =
      if f.locks.any fun l => l.lockConflicts origin mode start stop then f.locks
      else ⟨object, origin, mode, start, stop⟩ :: f.locks := by
  unfold addRangeLock
  split <;> rfl

@[simp] theorem oplocks_addRangeLock (mode : UInt64) :
    (f.addRangeLock object origin mode start stop).2.oplocks = f.oplocks := by
  unfold addRangeLock
  split <;> rfl

@[simp] theorem locks_removeOplocks : (f.removeOplocks object).2.locks = f.locks := by
  unfold removeOplocks
  split <;> rfl

@[simp] theorem oplocks_removeOplocks :
    (f.removeOplocks object).2.oplocks = f.oplocks.filter fun l => l.object ≠ object := by
  unfold removeOplocks
  split_ifs with h
  · rfl
  · refine (List.filter_eq_self.2 fun l hl => ?_).symm
    simp only [List.any_eq_true, not_exists, not_and, decide_eq_true_eq] at h
    simpa using h l hl

@[simp] theorem locks_removeBrlocks :
    (f.removeBrlocks object).2.locks = f.locks.filter fun l => l.object ≠ object := rfl

@[simp] theorem oplocks_removeBrlocks : (f.removeBrlocks object).2.oplocks = f.oplocks := rfl

theorem snd_setLockRange (flags : UInt32) (mode : UInt64) :
    (f.setLockRange object origin flags mode start stop).2 =
      if stop < start then f
      else if hasFlag flags VSSI_RANGE_UNLOCK && hasFlag flags VSSI_RANGE_LOCK then f
      else if hasFlag flags VSSI_RANGE_UNLOCK then
        (f.removeRangeLock origin mode start stop).2
      else if hasFlag flags VSSI_RANGE_LOCK then
        if (f.checkOplockConflict object true).1 then (f.checkOplockConflict object true).2
        else ((f.checkOplockConflict object true).2.addRangeLock object origin mode start stop).2
      else f := by
  simp only [setLockRange]
  split_ifs <;> rfl

@[simp] theorem oplocks_setLockRange (flags : UInt32) (mode : UInt64) :
    (f.setLockRange object origin flags mode start stop).2.oplocks = f.oplocks := by
  rw [snd_setLockRange]
  split_ifs <;> simp

@[simp] theorem locks_setOplock (mode : UInt64) :
    (f.setOplock object mode).2.locks = f.locks := by
  simp only [setOplock]
  split_ifs <;> simp

@[simp] theorem locks_releaseOrigin :
    (f.releaseOrigin origin).locks = f.locks.filter fun l => l.origin ≠ origin := by
  simp [releaseOrigin]

@[simp] theorem oplocks_releaseOrigin : (f.releaseOrigin origin).oplocks = f.oplocks := by
  simp [releaseOrigin]

@[simp] theorem locks_addReference (flags : UInt32) :
    (f.addReference flags).2.locks = f.locks := by
  unfold addReference
  split <;> rfl

@[simp] theorem oplocks_addReference (flags : UInt32) :
    (f.addReference flags).2.oplocks = f.oplocks := by
  unfold addReference
  split <;> rfl

@[simp] theorem locks_addObject : (f.addObject object).locks = f.locks := by
  unfold addObject
  split <;> rfl

@[simp] theorem oplocks_addObject : (f.addObject object).oplocks = f.oplocks := by
  unfold addObject
  split <;> rfl

@[simp] theorem locks_dropObjectRef : (f.dropObjectRef object).2.locks = f.locks := by
  unfold dropObjectRef
  split
  · rfl
  · split <;> rfl

@[simp] theorem oplocks_dropObjectRef : (f.dropObjectRef object).2.oplocks = f.oplocks := by
  unfold dropObjectRef
  split
  · rfl
  · split <;> rfl

@[simp] theorem locks_eraseObjectRefs : (f.eraseObjectRefs object).2.locks = f.locks := by
  unfold eraseObjectRefs
  split <;> rfl

@[simp] theorem oplocks_eraseObjectRefs : (f.eraseObjectRefs object).2.oplocks = f.oplocks := by
  unfold eraseObjectRefs
  split <;> rfl

@[simp] theorem locks_removeReference :
    (f.removeReference object origin).2.locks = f.locks.filter fun l => l.origin ≠ origin := by
  simp only [removeReference]
  split_ifs <;> simp

theorem oplocks_removeReference :
    (f.removeReference object origin).2.oplocks.Sublist f.oplocks := by
  simp only [removeReference]
  split_ifs <;> simp

@[simp] theorem locks_removeObject :
    (f.removeObject object).2.locks = f.locks.filter fun l => l.object ≠ object := by
  simp only [removeObject]
  split_ifs <;> simp

@[simp] theorem oplocks_removeObject :
    (f.removeObject object).2.oplocks = f.oplocks.filter fun l => l.object ≠ object := by
  simp only [removeObject]
  split_ifs <;> simp

end Frame

end VssFile

/-! ## Runs -/

/-- The operations on an open file, each run under the dataset's lock. -/
inductive FileOp where
  | addReference (flags : UInt32)
  | addObject (object : ObjectPtr)
  | addOrigin (origin : Origin) (flags : UInt32)
  | addOpenOrigin (origin : Origin)
  | removeOpenOrigin (origin : Origin)
  | releaseOrigin (origin : Origin)
  | removeReference (object : ObjectPtr) (origin : Origin)
  | removeObject (object : ObjectPtr)
  | setLockRange (object : ObjectPtr) (origin : Origin) (flags : UInt32) (mode : UInt64)
      (start stop : Nat)
  | setOplock (object : ObjectPtr) (mode : UInt64)
  | checkOplockConflict (object : ObjectPtr) (writeRequest : Bool)
  | waitOplock (context : Context) (object : ObjectPtr) (writeRequest : Bool)
  | waitBrlock (context : Context) (origin : Origin) (mode : UInt64) (start stop : Nat)
  deriving DecidableEq, Repr

/-- The state an operation leaves; every operation may come at any time. -/
def FileOp.apply (f : VssFile) : FileOp → VssFile
  | addReference flags => (f.addReference flags).2
  | addObject object => f.addObject object
  | addOrigin origin flags => f.addOrigin origin flags
  | addOpenOrigin origin => f.addOpenOrigin origin
  | removeOpenOrigin origin => f.removeOpenOrigin origin
  | releaseOrigin origin => f.releaseOrigin origin
  | removeReference object origin => (f.removeReference object origin).2
  | removeObject object => (f.removeObject object).2
  | setLockRange object origin flags mode start stop =>
    (f.setLockRange object origin flags mode start stop).2
  | setOplock object mode => (f.setOplock object mode).2
  | checkOplockConflict object writeRequest => (f.checkOplockConflict object writeRequest).2
  | waitOplock context object writeRequest => f.waitOplock context object writeRequest
  | waitBrlock context origin mode start stop => f.waitBrlock context origin mode start stop

def fileStep (f : VssFile) (op : FileOp) : Option VssFile := some (op.apply f)

end PersonalCloud.StorageNode
