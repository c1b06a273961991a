import Mathlib.Data.List.Nodup
import Mathlib.Data.List.Pairwise
import PersonalCloud.Lib.Run

/-!
# The delay queue of the file monitors

Events of the file system are put into a queue, and a thread passes them to the callback of their
monitor when they have waited long enough. The callback is looked up under the mutex of the queue
and called without it.

Each section under that mutex is one step, and so is each thing done without it. The queue is
modelled from its initialisation on.

## Main definitions

* `FileMonitorDelayQ` — the queue, what its thread and its callers are doing, and a history.
* `FileMonitorDelayQ.step` — the steps of all of them.
* `FileMonitorDelayQ.Delivered` — what the history has to be like.
-/

namespace PersonalCloud.SyncConfig

open PersonalCloud.Lib

/-- The callback and its context are told apart by the number of their `AddMonitor` call. -/
structure FileMonitorHandleMap where
  handle : ℕ
  monitor : ℕ
deriving DecidableEq, Repr

/-- An entry, with its number in the queue and the monitor that it was enqueued for. -/
structure DelayQEntry (α : Type) where
  timeQueued : ℕ
  handle : ℕ
  event : α
  monitor : ℕ
  seq : ℕ
deriving DecidableEq, Repr

/-- Where `fileMonitorCallback` is: the mutex of the queues lets one in at a time. -/
inductive Enqueueing (α : Type) where
  | idle
  | found (handle monitor : ℕ) (event : α)
  | stamped (handle monitor : ℕ) (event : α) (timeQueued : ℕ)
deriving DecidableEq, Repr

/-- Where `delayQLoop` is when it does not hold the mutex. -/
inductive DelayQLoop where
  | starting
  | waiting
  | lookedUp (currTime : ℕ) (callback : Option ℕ)
  | calling (currTime : ℕ)
  | exited
deriving DecidableEq, Repr

/-- What is done under the mutex of the interface, with the monitors it has removed. -/
inductive ApiCall where
  | idle
  | removing (monitors : List ℕ)
  | unlisting
  | stopping
  | joining (monitors : List ℕ)
deriving DecidableEq, Repr

/-- A callback that was started, and whether its monitor had been removed by then. -/
structure CallbackCall (α : Type) where
  entry : DelayQEntry α
  monitor : ℕ
  time : ℕ
  late : Bool
deriving DecidableEq, Repr

/-- An entry that was taken off the queue, and whether its monitor was registered then. -/
structure HandledEntry (α : Type) where
  entry : DelayQEntry α
  registered : Bool
deriving DecidableEq, Repr

/-- The fields from `nextMonitor` on are history. -/
structure FileMonitorDelayQ (α : Type) where
  now : ℕ
  initCount : ℕ
  threadRunning : Bool
  listed : Bool
  handleMap : List FileMonitorHandleMap
  delayQ : List (DelayQEntry α)
  enqueueing : Enqueueing α
  loop : DelayQLoop
  api : ApiCall
  nextMonitor : ℕ
  enqueued : List (DelayQEntry α)
  calls : List (CallbackCall α)
  handled : List (HandledEntry α)
  gone : List ℕ
deriving DecidableEq, Repr

namespace FileMonitorDelayQ

variable {α : Type}

/-- After as many successful calls of `Init`. -/
def init (initCount : ℕ) : FileMonitorDelayQ α where
  now := 0
  initCount := initCount
  threadRunning := true
  listed := true
  handleMap := []
  delayQ := []
  enqueueing := .idle
  loop := .starting
  api := .idle
  nextMonitor := 0
  enqueued := []
  calls := []
  handled := []
  gone := []

/-! ## The code -/

/-- `GetHandleMap`. -/
def getHandleMap (s : FileMonitorDelayQ α) (handle : ℕ) : Option FileMonitorHandleMap :=
  s.handleMap.find? fun h => h.handle = handle

def monitors (s : FileMonitorDelayQ α) : List ℕ :=
  s.handleMap.map fun h => h.monitor

/-- The difference of the times is clamped, as that of natural numbers is. -/
def hasWork (delayAmount : ℕ) (s : FileMonitorDelayQ α) (currTime : ℕ) : Bool :=
  s.delayQ.head?.any fun entry => delayAmount ≤ currTime - entry.timeQueued

/-- Release the mutex with the callback for the front entry. -/
def lookUp (s : FileMonitorDelayQ α) (currTime : ℕ) : FileMonitorDelayQ α :=
  { s with
    loop := .lookedUp currTime <|
      (s.delayQ.head?.bind fun entry => s.getHandleMap entry.handle).map fun h => h.monitor }

/-- The loop from its head on until it releases the mutex. -/
def serve (delayAmount : ℕ) (s : FileMonitorDelayQ α) (currTime : ℕ) : FileMonitorDelayQ α :=
  if s.hasWork delayAmount currTime then s.lookUp currTime
  else if s.hasWork delayAmount s.now then s.lookUp s.now
  else { s with loop := .waiting }

/-- Behind the label `exit`. -/
def exit (s : FileMonitorDelayQ α) : FileMonitorDelayQ α :=
  { s with delayQ := [], loop := .exited }

/-- Behind the callback: the front entry is popped. -/
def popFront (s : FileMonitorDelayQ α) : FileMonitorDelayQ α :=
  match s.delayQ with
  | [] => s
  | entry :: rest =>
    { s with delayQ := rest, handled := s.handled ++ [⟨entry, entry.monitor ∈ s.monitors⟩] }

/-- The section behind a callback. -/
def afterCallback (delayAmount : ℕ) (s : FileMonitorDelayQ α) (currTime : ℕ) :
    FileMonitorDelayQ α :=
  if s.popFront.threadRunning then s.popFront.serve delayAmount currTime else s.popFront.exit

/-- The section of `removeMonitor`. -/
def removeMonitor (s : FileMonitorDelayQ α) (handle : ℕ) : FileMonitorDelayQ α :=
  { s with
    handleMap := s.handleMap.filter fun h => h.handle ≠ handle
    api := .removing <| (s.handleMap.filter fun h => h.handle = handle).map fun h => h.monitor }

/-- The steps. `fileEvent`, `stamp` and `enqueue` are those of `fileMonitorCallback`, `wake`,
`start` and `pop` those of the thread. -/
inductive Event (α : Type) where
  | tick (time : ℕ)
  | fileEvent (handle : ℕ) (event : α)
  | stamp
  | enqueue
  | addMonitor (handle : ℕ)
  | removeMonitor (handle : ℕ)
  | removeReturn
  | shutdown
  | unlist
  | stop
  | shutdownReturn
  | wake
  | start
  | pop
deriving DecidableEq, Repr

def step (delayAmount : ℕ) (s : FileMonitorDelayQ α) : Event α → Option (FileMonitorDelayQ α)
  | .tick time => some { s with now := s.now + time }
  | .fileEvent handle event =>
    if s.enqueueing matches .idle then
      match s.getHandleMap handle with
      | some h =>
        if s.listed then some { s with enqueueing := .found handle h.monitor event } else some s
      | none => some s
    else none
  | .stamp =>
    match s.enqueueing with
    | .found handle monitor event =>
      some { s with enqueueing := .stamped handle monitor event s.now }
    | _ => none
  | .enqueue =>
    match s.enqueueing with
    | .stamped handle monitor event timeQueued =>
      let entry := ⟨timeQueued, handle, event, monitor, s.enqueued.length⟩
      some { s with
        delayQ := s.delayQ ++ [entry]
        enqueueing := .idle
        enqueued := s.enqueued ++ [entry] }
    | _ => none
  | .addMonitor handle =>
    if s.api = .idle then
      if s.initCount = 0 then some s
      else some { s with
        handleMap := s.handleMap ++ [⟨handle, s.nextMonitor⟩]
        nextMonitor := s.nextMonitor + 1 }
    else none
  | .removeMonitor handle =>
    if s.api = .idle then
      if s.initCount = 0 then some s else some (s.removeMonitor handle)
    else none
  | .removeReturn =>
    match s.api with
    | .removing monitors => some { s with api := .idle, gone := s.gone ++ monitors }
    | _ => none
  | .shutdown =>
    if s.api = .idle then
      if s.initCount = 0 then some s
      else if s.initCount = 1 then some { s with initCount := 0, api := .unlisting }
      else some { s with initCount := s.initCount - 1 }
    else none
  | .unlist =>
    if s.api = .unlisting ∧ s.enqueueing matches .idle then
      some { s with listed := false, api := .stopping }
    else none
  | .stop =>
    if s.api = .stopping then
      some { s with threadRunning := false, handleMap := [], api := .joining s.monitors }
    else none
  | .shutdownReturn =>
    match s.api with
    | .joining monitors =>
      if s.loop = .exited then
        some { s with delayQ := [], api := .idle, gone := s.gone ++ monitors }
      else none
    | _ => none
  | .wake =>
    match s.loop with
    | .starting => some (s.serve delayAmount s.now)
    | .waiting => if s.threadRunning then some (s.serve delayAmount s.now) else some s.exit
    | _ => none
  | .start =>
    match s.loop, s.delayQ with
    | .lookedUp currTime (some monitor), entry :: _ =>
      some { s with
        loop := .calling currTime
        calls := s.calls ++ [⟨entry, monitor, s.now, monitor ∈ s.gone⟩] }
    | _, _ => none
  | .pop =>
    match s.loop with
    | .lookedUp currTime none => some (s.afterCallback delayAmount currTime)
    | .calling currTime => some (s.afterCallback delayAmount currTime)
    | _ => none

/-! ## What is wanted -/

/-- Callbacks are started in the order of the queue, after the delay, and not for monitors that
have been removed. An entry that is handled while its monitor is registered was passed to it
once, and none is lost as long as its monitor is registered. -/
structure Delivered (delayAmount : ℕ) (s : FileMonitorDelayQ α) : Prop where
  order : (s.calls.map fun c => c.entry.seq).Pairwise (· < ·)
  delayed : ∀ c ∈ s.calls, c.entry.timeQueued + delayAmount ≤ c.time
  notLate : ∀ c ∈ s.calls, c.late = false
  once : ∀ h ∈ s.handled, h.registered = true →
    (s.calls.map fun c => (c.entry.seq, c.monitor)).count (h.entry.seq, h.entry.monitor) = 1
  kept : ∀ entry ∈ s.enqueued, entry.monitor ∈ s.monitors →
    entry ∈ s.delayQ ∨ ∃ h ∈ s.handled, h.entry = entry

/-- The monitor whose callback is about to be started. -/
def awaited (s : FileMonitorDelayQ α) : Option ℕ :=
  match s.loop with
  | .lookedUp _ callback => callback
  | _ => none

def removing (s : FileMonitorDelayQ α) : List ℕ :=
  match s.api with
  | .removing monitors => monitors
  | _ => []

/-- `RemoveMonitor` does not return between the look-up of a callback that it has removed and the
start of that callback. -/
def WaitsForStart (s : FileMonitorDelayQ α) (e : Event α) : Prop :=
  e matches .removeReturn → ∀ monitor ∈ s.awaited, monitor ∉ s.removing

instance (s : FileMonitorDelayQ α) (e : Event α) : Decidable (s.WaitsForStart e) :=
  inferInstanceAs (Decidable (_ → _))

end FileMonitorDelayQ

end PersonalCloud.SyncConfig
