import Mathlib.Tactic.Ring
import PersonalCloud.StorageNode.VssFile

/-!
# Client requests on an open file

The server handles the requests of a dataset one at a time. `VssFile.handle` is what the
handlers of the command processor do to the file a request names: a request that an oplock
or a range lock stands in the way of is parked in a queue of the file and gets no reply; all
others are answered at once. A parked request is known by its context, and is handled again
from the start when the file has requeued the context.

`Server` is one open file with the requests received for it, from the open that made the
`vss_file` to its last close. Its last two fields are ghosts: `log` lists, newest first, the
opens that were granted and what took them back, `gone` the objects that were closed.
-/

namespace PersonalCloud.StorageNode

open PersonalCloud.Lib

/-- The status codes of replies. -/
inductive Status where
  | vssi (result : VssiResult)
  | perm | badobj | nospace | isdir | badpath | notfound | maxcomp | busy | existed | hlimit
  deriving DecidableEq, Repr

/-- A decoded request. The object is the one the session knows under the handle that the
request carries. -/
inductive Request where
  | openFile (object : ObjectPtr) (origin : Origin) (flags : UInt32)
  | readFile (object : ObjectPtr) (origin : Origin) (offset length : Nat)
  | writeFile (object : ObjectPtr) (origin : Origin) (offset length : Nat)
  | truncateFile (object : ObjectPtr) (origin : Origin) (offset : Nat)
  | setLock (object : ObjectPtr) (mode : UInt64)
  | getLock (object : ObjectPtr)
  | setLockRange (object : ObjectPtr) (origin : Origin) (flags : UInt32) (mode : UInt64)
      (start stop : Nat)
  | releaseFile (object : ObjectPtr) (origin : Origin)
  | closeFile (object : ObjectPtr) (origin : Origin)
  deriving DecidableEq, Repr

def Request.object : Request → ObjectPtr
  | .openFile object _ _ | .readFile object _ _ _ | .writeFile object _ _ _
  | .truncateFile object _ _ | .setLock object _ | .getLock object
  | .setLockRange object _ _ _ _ _ | .releaseFile object _ | .closeFile object _ => object

/-- The object that an operation sets a lock or an oplock for. -/
def FileOp.locker : FileOp → Option ObjectPtr
  | .setLockRange object _ _ _ _ _ | .setOplock object _ => some object
  | _ => none

/-- The first byte after the range, in 64 bits. -/
def rangeStop (offset length : Nat) : Nat := (offset + length) % 2 ^ 64

def MAX_READ_LENGTH : Nat := 2 ^ 20

namespace VssFile

def referenced (f : VssFile) : Bool := decide (f.refcount > 0)

def checkLockConflict (f : VssFile) (origin : Origin) (mode : UInt64) (start stop : Nat) : Bool :=
  f.locks.any fun l => l.ioConflicts origin mode start stop

/-- The test that reads and truncates make before they touch the content: range locks refuse
the request, oplocks make it wait. -/
def checkIo (f : VssFile) (object : ObjectPtr) (origin : Origin) (mode : UInt64)
    (start stop : Nat) (writeRequest : Bool) : VssiResult × VssFile :=
  if f.checkLockConflict origin mode start stop then (.locked, f)
  else
    let checked := f.checkOplockConflict object writeRequest
    (if checked.1 then .retry else .success, checked.2)

def readFile (f : VssFile) (object : ObjectPtr) (origin : Origin) (offset length : Nat) :
    VssiResult × VssFile :=
  f.checkIo object origin VSSI_FILE_LOCK_READ_SHARED offset (rangeStop offset length) false

/-- A write asks for the space it needs between the two tests. -/
def writeFile (f : VssFile) (object : ObjectPtr) (origin : Origin) (offset length : Nat)
    (remainingSpace : Nat) : Status × VssFile :=
  if f.checkLockConflict origin VSSI_FILE_LOCK_WRITE_EXCL offset (rangeStop offset length) then
    (.vssi .locked, f)
  else if remainingSpace < length then (.nospace, f)
  else
    let checked := f.checkOplockConflict object true
    (.vssi (if checked.1 then .retry else .success), checked.2)

def truncateFile (f : VssFile) (object : ObjectPtr) (origin : Origin) (offset : Nat) :
    VssiResult × VssFile :=
  f.checkIo object origin VSSI_FILE_LOCK_WRITE_EXCL offset (2 ^ 64 - 1) true

/-- The cache mode of the object, with the break bit while a request waits. -/
def getOplock (f : VssFile) (object : ObjectPtr) : UInt64 :=
  match f.oplocks.find? fun l => l.object = object with
  | none => 0
  | some l => if f.oplockQueue = [] then l.mode else l.mode ||| VSSI_FILE_LOCK_CACHE_BREAK

def validateOrigin (f : VssFile) (origin : Origin) : Bool :=
  f.openOrigins.contains origin || origin == 0

/-- An open of the file by a further descriptor. -/
def openAgain (f : VssFile) (object : ObjectPtr) (origin : Origin) (flags : UInt32) :
    VssiResult × VssFile :=
  let added := f.addReference flags
  if added.1 = .success then
    (.success, ((added.2.addObject object).addOrigin origin flags).addOpenOrigin origin)
  else added

/-- The file after the open that made it. -/
def opened (fileId : UInt32) (object : ObjectPtr) (origin : Origin) (flags : UInt32) : VssFile :=
  (((new fileId flags).addObject object).addOrigin origin flags).addOpenOrigin origin

def closeFile (f : VssFile) (object : ObjectPtr) (origin : Origin) : VssiResult × VssFile :=
  if f.validateOrigin origin then
    (.success, ((f.removeOpenOrigin origin).removeReference object origin).2)
  else (.invalid, f)

/-- Park a request that an oplock stands in the way of. -/
def orWaitOplock (r : Status × VssFile) (context : Context) (object : ObjectPtr)
    (writeRequest : Bool) : Option Status × VssFile :=
  if r.1 = .vssi .retry then (none, r.2.waitOplock context object writeRequest)
  else (some r.1, r.2)

/-- Handle a request; there is no status when it was parked. The requests whose object is
found by their origin fail where the origin holds the handle zero, which no object has. -/
def handle (f : VssFile) (context : Context) (remainingSpace : Nat) :
    Request → Option Status × VssFile
  | .openFile object origin flags =>
    let r := f.openAgain object origin flags
    (some (.vssi r.1), r.2)
  | .readFile object origin offset length =>
    if origin % 2 ^ 32 = 0 then (some .badobj, f)
    else if !hasFlag f.accessMode VSSI_FILE_OPEN_READ then (some .perm, f)
    else
      let r := f.readFile object origin offset (min length MAX_READ_LENGTH)
      orWaitOplock (.vssi r.1, r.2) context object false
  | .writeFile object origin offset length =>
    if origin % 2 ^ 32 = 0 then (some .badobj, f)
    else if !hasFlag f.accessMode VSSI_FILE_OPEN_WRITE then (some .perm, f)
    else orWaitOplock (f.writeFile object origin offset length remainingSpace) context object true
  | .truncateFile object origin offset =>
    if origin % 2 ^ 32 = 0 then (some .badobj, f)
    else if !hasFlag f.accessMode VSSI_FILE_OPEN_WRITE then (some .perm, f)
    else
      let r := f.truncateFile object origin offset
      orWaitOplock (.vssi r.1, r.2) context object true
  | .setLock object mode =>
    let r := f.setOplock object mode
    (some (.vssi r.1), r.2)
  | .getLock _ => (some (.vssi .success), f)
  | .setLockRange object origin flags mode start stop =>
    if origin % 2 ^ 32 = 0 then (some .badobj, f)
    else
      let r := f.setLockRange object origin flags mode start stop
      if r.1 = .retry then (none, r.2.waitOplock context object false)
      else if r.1 = .waitlock then (none, r.2.waitBrlock context origin mode start stop)
      else (some (.vssi r.1), r.2)
  | .releaseFile _ origin =>
    if origin % 2 ^ 32 = 0 then (some .badobj, f)
    else (some (.vssi .success), f.releaseOrigin origin)
  | .closeFile object origin =>
    if origin % 2 ^ 32 = 0 then (some .badobj, f)
    else
      let r := f.closeFile object origin
      (some (.vssi r.1), r.2)

variable {f g : VssFile}

/-! ### Handlers as operations on the file -/

/-- Some sequence of the file's operations leads from `f` to `g`, in which only `object` sets
locks and oplocks. -/
def Reaches (object : ObjectPtr) (f g : VssFile) : Prop :=
  ∃ ops : List FileOp, (∀ op ∈ ops, ∀ o ∈ op.locker, o = object) ∧
    g = ops.foldl FileOp.apply f

variable {object : ObjectPtr}

theorem Reaches.refl (f : VssFile) : Reaches object f f := ⟨[], by simp, rfl⟩

theorem Reaches.tail (h : Reaches object f g) (op : FileOp)
    (ho : ∀ o ∈ op.locker, o = object := by simp [FileOp.locker, Request.object]) :
    Reaches object f (op.apply g) := by
  obtain ⟨ops, hops, rfl⟩ := h
  refine ⟨ops ++ [op], ?_, by simp⟩
  intro op' hop'
  rcases List.mem_append.1 hop' with hop' | hop'
  · exact hops op' hop'
  · exact List.mem_singleton.1 hop' ▸ ho

theorem Reaches.checkIo (h : Reaches object f g) (origin : Origin) (mode : UInt64)
    (start stop : Nat) (write : Bool) :
    Reaches object f (g.checkIo object origin mode start stop write).2 := by
  simp only [VssFile.checkIo]
  split_ifs
  · exact h
  · exact h.tail (.checkOplockConflict object write)
  · exact h.tail (.checkOplockConflict object write)

theorem Reaches.writeFile (h : Reaches object f g) (origin : Origin)
    (offset length remainingSpace : Nat) :
    Reaches object f (g.writeFile object origin offset length remainingSpace).2 := by
  simp only [VssFile.writeFile]
  split_ifs
  · exact h
  · exact h
  · exact h.tail (.checkOplockConflict object true)
  · exact h.tail (.checkOplockConflict object true)

theorem Reaches.orWaitOplock {r : Status × VssFile} (h : Reaches object f r.2)
    (context : Context) (write : Bool) :
    Reaches object f (orWaitOplock r context object write).2 := by
  unfold VssFile.orWaitOplock
  split_ifs
  · exact h.tail (.waitOplock context object write)
  · exact h

theorem Reaches.openAgain (h : Reaches object f g) (origin : Origin) (flags : UInt32) :
    Reaches object f (g.openAgain object origin flags).2 := by
  have hadd := h.tail (.addReference flags)
  simp only [VssFile.openAgain]
  split_ifs
  · exact ((hadd.tail (.addObject object)).tail (.addOrigin origin flags)).tail
      (.addOpenOrigin origin)
  · exact hadd

/-- A handler is a sequence of the file's operations. -/
theorem reaches_handle (f : VssFile) (context : Context) (remainingSpace : Nat)
    (request : Request) :
    Reaches request.object f (f.handle context remainingSpace request).2 := by
  cases request with
  | openFile object origin flags => exact (Reaches.refl f).openAgain origin flags
  | readFile object origin offset length =>
    simp only [VssFile.handle]
    split_ifs
    · exact .refl f
    · exact .refl f
    · exact ((Reaches.refl f).checkIo _ _ _ _ _).orWaitOplock _ _
  | writeFile object origin offset length =>
    simp only [VssFile.handle]
    split_ifs
    · exact .refl f
    · exact .refl f
    · exact ((Reaches.refl f).writeFile _ _ _ _).orWaitOplock _ _
  | truncateFile object origin offset =>
    simp only [VssFile.handle]
    split_ifs
    · exact .refl f
    · exact .refl f
    · exact ((Reaches.refl f).checkIo _ _ _ _ _).orWaitOplock _ _
  | setLock object mode => exact (Reaches.refl f).tail (.setOplock object mode)
  | getLock object => exact .refl f
  | setLockRange object origin flags mode start stop =>
    have hset : Reaches object f (f.setLockRange object origin flags mode start stop).2 :=
      (Reaches.refl f).tail (.setLockRange object origin flags mode start stop)
    simp only [VssFile.handle]
    split_ifs
    · exact .refl f
    · exact hset.tail (.waitOplock context object false)
    · exact hset.tail (.waitBrlock context origin mode start stop)
    · exact hset
  | releaseFile object origin =>
    simp only [VssFile.handle]
    split_ifs
    · exact .refl f
    · exact (Reaches.refl f).tail (.releaseOrigin origin)
  | closeFile object origin =>
    simp only [VssFile.handle, VssFile.closeFile]
    split_ifs
    · exact .refl f
    · exact ((Reaches.refl f).tail (.removeOpenOrigin origin)).tail
        (.removeReference object origin)
    · exact .refl f

/-- What every operation on a file keeps that sets locks for no other object, every handler
keeps. -/
theorem handle_induction {P : VssFile → Prop} {request : Request}
    (hP : ∀ f op, (∀ o ∈ op.locker, o = request.object) → P f → P (FileOp.apply f op))
    (h : P f) (context : Context) (remainingSpace : Nat) :
    P (f.handle context remainingSpace request).2 := by
  obtain ⟨ops, hops, hg⟩ := f.reaches_handle context remainingSpace request
  rw [hg]
  clear hg
  induction ops generalizing f with
  | nil => exact h
  | cons op ops ih =>
    rw [List.forall_mem_cons] at hops
    exact ih (hP f op hops.1 h) hops.2

end VssFile

/-! ## The requests of a file's life -/

/-- What happened to the open modes of a file. -/
inductive OpenEvent where
  | opened (object : ObjectPtr) (origin : Origin) (flags : UInt32)
  | released (object : ObjectPtr) (origin : Origin)
  | objectReleased (object : ObjectPtr)
  deriving DecidableEq, Repr

structure Server where
  file : VssFile
  /-- The requests received; a request's context is its place in the list. -/
  contexts : List Request
  log : List OpenEvent
  /-- The objects that were closed and have made no request since. -/
  gone : List ObjectPtr

inductive ServerEvent where
  /-- A request arrives. -/
  | receive (request : Request) (remainingSpace : Nat)
  /-- A requeued request is handled again. -/
  | resume (context : Context) (remainingSpace : Nat)
  /-- A requeued request is answered with an error: its object is gone. -/
  | expire (context : Context)
  /-- A client's object on the dataset is closed. -/
  | objectRelease (object : ObjectPtr)
  deriving DecidableEq, Repr

/-- What a request adds to the log, given its answer. -/
def Request.logged (status : Option Status) : Request → List OpenEvent
  | .openFile object origin flags =>
    if status = some (.vssi .success) then [.opened object origin flags] else []
  | .releaseFile object origin | .closeFile object origin =>
    if status = some (.vssi .success) then [.released object origin] else []
  | _ => []

namespace Server

def opened (fileId : UInt32) (object : ObjectPtr) (origin : Origin) (flags : UInt32) : Server where
  file := VssFile.opened fileId object origin flags
  contexts := []
  log := [.opened object origin flags]
  gone := []

/-- Handle a request in the given state of the file. -/
def serve (s : Server) (f : VssFile) (context : Context) (request : Request)
    (remainingSpace : Nat) : Server :=
  let r := f.handle context remainingSpace request
  { s with
    file := r.2
    log := request.logged r.1 ++ s.log
    gone := s.gone.filter fun object => object ≠ request.object }

def requeue (s : Server) (context : Context) : VssFile :=
  { s.file with requeued := s.file.requeued.erase context }

/-- The state an event leads to, before the server looks whether the file is still open. -/
def next (s : Server) : ServerEvent → Option Server
  | .receive request remainingSpace =>
    some { s.serve s.file s.contexts.length request remainingSpace with
      contexts := s.contexts ++ [request] }
  | .resume context remainingSpace =>
    if context ∈ s.file.requeued then
      (s.contexts[context]?).map fun request =>
        s.serve (s.requeue context) context request remainingSpace
    else none
  | .expire context =>
    if context ∈ s.file.requeued then some { s with file := s.requeue context } else none
  | .objectRelease object =>
    some { s with
      file := (s.file.removeObject object).2
      log := .objectReleased object :: s.log
      gone := object :: s.gone }

/-- The `vss_file` is destroyed with its last reference, and the run ends there. -/
def step (s : Server) (e : ServerEvent) : Option Server :=
  (s.next e).filter fun t => t.file.referenced

theorem next_of_step {s t : Server} {e : ServerEvent} (h : s.step e = some t) :
    s.next e = some t :=
  (Option.filter_eq_some_iff.1 h).1

theorem referenced_of_step {s t : Server} {e : ServerEvent} (h : s.step e = some t) :
    t.file.referenced :=
  (Option.filter_eq_some_iff.1 h).2

def waiting (s : Server) (context : Context) : Option Request := s.contexts[context]?

/-- The request that an event has the server handle. -/
def requested (s : Server) : ServerEvent → Option Request
  | .receive request _ => some request
  | .resume context _ => s.waiting context
  | _ => none

/-- What an event does to the server: it has a request handled, with another list of requeued
contexts at most, or answers one with an error, or removes an object from the file. -/
inductive Effect (s : Server) : ServerEvent → Server → Prop where
  | handled {e : ServerEvent} {t : Server} (request : Request) (context : Context)
      (remainingSpace : Nat) (f : VssFile)
      (requested : s.requested e = some request)
      (before : ∃ requeued, f = { s.file with requeued := requeued })
      (file : t.file = (f.handle context remainingSpace request).2)
      (log : t.log = request.logged (f.handle context remainingSpace request).1 ++ s.log)
      (gone : t.gone = s.gone.filter fun object => object ≠ request.object)
      (waiting : t.waiting context = some request)
      (keeps : ∀ c r, s.waiting c = some r → t.waiting c = some r) : Effect s e t
  | expired (context : Context) :
      Effect s (.expire context) { s with file := s.requeue context }
  | released (object : ObjectPtr) :
      Effect s (.objectRelease object)
        { s with
          file := (s.file.removeObject object).2
          log := .objectReleased object :: s.log
          gone := object :: s.gone }

theorem effect_of_next {s t : Server} {e : ServerEvent} (h : s.next e = some t) :
    s.Effect e t := by
  cases e with
  | receive request remainingSpace =>
    obtain rfl := Option.some.inj h
    refine .handled request s.contexts.length remainingSpace s.file rfl ⟨_, rfl⟩ rfl rfl rfl ?_ ?_
    · simp [waiting]
    · intro c r hr
      obtain ⟨hlt, -⟩ := List.getElem?_eq_some_iff.1 hr
      exact (List.getElem?_append_left hlt).trans hr
  | resume context remainingSpace =>
    simp only [next] at h
    split_ifs at h
    obtain ⟨request, hr, rfl⟩ := Option.map_eq_some_iff.1 h
    exact .handled request context remainingSpace (s.requeue context) hr ⟨_, rfl⟩ rfl rfl rfl hr
      fun _ _ hc => hc
  | expire context =>
    simp only [next] at h
    split_ifs at h
    obtain rfl := Option.some.inj h
    exact .expired context
  | objectRelease object =>
    obtain rfl := Option.some.inj h
    exact .released object

theorem effect_of_step {s t : Server} {e : ServerEvent} (h : s.step e = some t) :
    s.Effect e t :=
  effect_of_next (next_of_step h)

end Server

end PersonalCloud.StorageNode
