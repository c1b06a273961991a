import Mathlib.Data.List.Perm.Basic
import PersonalCloud.Lib.Ring
import PersonalCloud.Lib.Run

/-!
# The event manager

Clients of the daemon read its events through queues. All queues are cursors into one ring of
event pointers: an event is enqueued once, and it is deleted when the operation that believes
to have moved the oldest cursor cleans up.

Each function is one section under the module's mutex. A `GetEvents` that finds nothing waits
for the condition variable, and tries again in a section of its own.

The ghosts are the faults of the ring, the list of all events given to `AddEvent`, and for each
queue the length of that list when it was created and what it has handed out. A failed
assertion is recorded, and the code goes on.
-/

namespace PersonalCloud.Ccd

open PersonalCloud.Lib

variable {Event : Type*}

def EVENT_MANAGER_PB_MAX_EVENTS : Nat := 1024

def NEXT_RING_IDX (x : Nat) : Nat := (x + 1) % EVENT_MANAGER_PB_MAX_EVENTS

/-! ## The ring -/

/-- `enqueueFull` and `dequeueEmpty` are failed assertions; with `overwritten` the pointer to an
event is lost that was not deleted. -/
inductive RingFault where
  | enqueueFull | dequeueEmpty | overwritten
  deriving DecidableEq, Repr

/-- The slots hold pointers to events, `none` for the null pointer. -/
structure EventRing (Event : Type*) where
  popIndex : Nat
  pushIndex : Nat
  buffer : Nat → Option Event
  faults : List RingFault

namespace EventRing

def new : EventRing Event where
  popIndex := 0
  pushIndex := 0
  buffer := fun _ => none
  faults := []

def numQueued (r : EventRing Event) : Nat :=
  ((r.pushIndex + EVENT_MANAGER_PB_MAX_EVENTS) - r.popIndex) % EVENT_MANAGER_PB_MAX_EVENTS

def enqueue (r : EventRing Event) (event : Event) : EventRing Event :=
  let pushIndex := NEXT_RING_IDX r.pushIndex
  { r with
    buffer := Function.update r.buffer r.pushIndex (some event)
    pushIndex := pushIndex
    faults := (if pushIndex = r.popIndex then [.enqueueFull] else []) ++
      (if (r.buffer r.pushIndex).isSome then [.overwritten] else []) ++ r.faults }

def dequeue (r : EventRing Event) : EventRing Event :=
  { r with
    buffer := Function.update r.buffer r.popIndex none
    popIndex := NEXT_RING_IDX r.popIndex
    faults := (if r.pushIndex = r.popIndex then [.dequeueEmpty] else []) ++ r.faults }

/-- The loop of `trimTo`. -/
def trimLoop (count : Nat) : Nat → EventRing Event → EventRing Event
  | 0, r => r
  | fuel + 1, r => if r.numQueued > count then trimLoop count fuel r.dequeue else r

/-- The loop ends before the fuel does: the ring never holds as many events as it has slots. -/
@[irreducible] def trimTo (r : EventRing Event) (count : Nat) : EventRing Event :=
  trimLoop count EVENT_MANAGER_PB_MAX_EVENTS r

def clear (r : EventRing Event) : EventRing Event := r.trimTo 0

end EventRing

/-! ## The queues -/

structure EventQueue (Event : Type*) where
  handle : UInt64
  currPos : Nat
  born : Nat
  given : List (Option Event)

namespace EventQueue

def numQueued (q : EventQueue Event) (r : EventRing Event) : Nat :=
  ((r.pushIndex + EVENT_MANAGER_PB_MAX_EVENTS) - q.currPos) % EVENT_MANAGER_PB_MAX_EVENTS

def peek (q : EventQueue Event) (r : EventRing Event) : Option Event := r.buffer q.currPos

def advance (q : EventQueue Event) : EventQueue Event :=
  { q with currPos := NEXT_RING_IDX q.currPos }

def isOldest (q : EventQueue Event) (r : EventRing Event) : Bool := q.currPos == r.popIndex

/-- Hand out up to `maxToGet` events. The queue is not empty when the loop starts. -/
def getLoop (r : EventRing Event) : Nat → EventQueue Event → EventQueue Event
  | 0, q => q
  | maxToGet + 1, q =>
    let q := { q with given := q.given ++ [q.peek r] }.advance
    if q.numQueued r = 0 then q else getLoop r maxToGet q

/-- What the queue still holds. -/
def unread (q : EventQueue Event) (r : EventRing Event) : List (Option Event) :=
  Ring.contents EVENT_MANAGER_PB_MAX_EVENTS r.buffer q.currPos (q.numQueued r)

end EventQueue

/-- Put the last element in the place of element `i`, and drop the last place. -/
def swapRemove {α : Type*} (l : List α) (i : Nat) : List α :=
  (if i < l.length - 1 then
    match l.getLast? with
    | some x => l.set i x
    | none => l
  else l).dropLast

theorem length_swapRemove {α : Type*} (l : List α) (i : Nat) :
    (swapRemove l i).length = l.length - 1 := by
  unfold swapRemove
  split
  · split <;> simp
  · simp

/-- Remove the queues whose cursor is at `full`, from element `i` on; the element put in a
removed one's place is looked at too. -/
def dropFull (full i : Nat) (queues : List (EventQueue Event)) :
    Bool × List (EventQueue Event) :=
  if h : i < queues.length then
    if queues[i].currPos = full then (true, (dropFull full i (swapRemove queues i)).2)
    else dropFull full (i + 1) queues
  else (false, queues)
termination_by queues.length - i
decreasing_by
  · have := length_swapRemove queues i
    omega
  · omega

/-! ## The module -/

/-- The arguments of a call of `GetEvents`. -/
structure GetCall where
  queueHandle : UInt64
  maxToGet : Nat
  timeoutMs : Int
  deriving DecidableEq, Repr

inductive ReturnValue where
  | ok | notRunning | noQueue | parameter | internal
  deriving DecidableEq, Repr

structure EventManager (Event : Type*) where
  isRunning : Bool
  nextHandle : UInt64
  numThreadsWaiting : Nat
  eventRing : EventRing Event
  queues : List (EventQueue Event)
  /-- The calls that wait for the condition variable. -/
  blocked : List GetCall
  history : List Event

namespace EventManager

/-- The module after `Init`. -/
def start (nextHandle : UInt64) : EventManager Event where
  isRunning := true
  nextHandle := nextHandle
  numThreadsWaiting := 0
  eventRing := .new
  queues := []
  blocked := []
  history := []

def wakeBlockedThreads (s : EventManager Event) : EventManager Event :=
  { s with numThreadsWaiting := 0 }

def quit (s : EventManager Event) : EventManager Event :=
  { s.wakeBlockedThreads with
    queues := []
    eventRing := s.eventRing.clear
    isRunning := false }

/-- The largest number of unread events. -/
def largestQueue (r : EventRing Event) (queues : List (EventQueue Event)) : Nat :=
  queues.foldl (fun largest q => if q.numQueued r > largest then q.numQueued r else largest) 0

def privCleanup (s : EventManager Event) : EventManager Event :=
  { s with eventRing := s.eventRing.trimTo (largestQueue s.eventRing s.queues) }

/-- Remove the queues that another event would fill up. -/
def dropFullQueues (s : EventManager Event) : EventManager Event :=
  let full := (s.eventRing.pushIndex + 1) % EVENT_MANAGER_PB_MAX_EVENTS
  let dropped := dropFull full 0 s.queues
  let s := { s with queues := dropped.2 }
  if dropped.1 then s.privCleanup else s

def addEvent (s : EventManager Event) (event : Event) : EventManager Event :=
  let history := s.history ++ [event]
  if !s.isRunning then { s with history := history }
  else if s.queues.length = 0 then { s with history := history }
  else
    let s := s.dropFullQueues
    { s with eventRing := s.eventRing.enqueue event, history := history }.wakeBlockedThreads

def createQueue (s : EventManager Event) : ReturnValue × EventManager Event :=
  if !s.isRunning then (.notRunning, s)
  else
    let newQueue : EventQueue Event := {
      handle := s.nextHandle
      currPos := s.eventRing.pushIndex
      born := s.history.length
      given := [] }
    (.ok, { s with queues := s.queues ++ [newQueue], nextHandle := s.nextHandle + 1 })

def findQueue (s : EventManager Event) (handle : UInt64) : Nat :=
  s.queues.findIdx fun q => q.handle == handle

def destroyQueue (s : EventManager Event) (handle : UInt64) :
    ReturnValue × EventManager Event :=
  if !s.isRunning then (.notRunning, s)
  else
    let i := s.findQueue handle
    match s.queues[i]? with
    | none => (.noQueue, s)
    | some q =>
      let doCleanup := q.isOldest s.eventRing
      let s := { s with queues := swapRemove s.queues i }
      let s := if doCleanup then s.privCleanup else s
      (.ok, s.wakeBlockedThreads)

/-- The section of `GetEvents` from `start_again` on. `expired` tells whether the time is up;
there is no return value when the call waits. -/
def getEventsAgain (s : EventManager Event) (call : GetCall) (expired : Bool) :
    Option ReturnValue × EventManager Event :=
  let i := s.findQueue call.queueHandle
  match s.queues[i]? with
  | none => (some .noQueue, s)
  | some q =>
    if q.numQueued s.eventRing > 0 then
      let doCleanup := q.isOldest s.eventRing
      let maxToGet := if call.maxToGet = 0 then EVENT_MANAGER_PB_MAX_EVENTS else call.maxToGet
      let s := { s with queues := s.queues.set i (q.getLoop s.eventRing maxToGet) }
      (some .ok, if doCleanup then s.privCleanup else s)
    else if call.timeoutMs ≠ -1 ∧ expired then (some .ok, s)
    else (none, { s with
      numThreadsWaiting := s.numThreadsWaiting + 1
      blocked := s.blocked ++ [call] })

def getEvents (s : EventManager Event) (call : GetCall) (expired : Bool) :
    Option ReturnValue × EventManager Event :=
  if !s.isRunning then (some .notRunning, s)
  else if call.timeoutMs < -1 then (some .parameter, s)
  else s.getEventsAgain call expired

/-- A waiting call goes on; `waitFailed` tells whether the wait itself failed. -/
def resume (s : EventManager Event) (call : GetCall) (expired waitFailed : Bool) :
    Option ReturnValue × EventManager Event :=
  let s := { s with blocked := s.blocked.erase call }
  if waitFailed then (some .internal, s)
  else if !s.isRunning then (some .notRunning, s)
  else s.getEventsAgain call expired

end EventManager

/-! ## Runs -/

inductive ManagerEvent (Event : Type*) where
  | addEvent (event : Event)
  | createQueue
  | destroyQueue (handle : UInt64)
  | getEvents (call : GetCall) (expired : Bool)
  | resume (call : GetCall) (expired waitFailed : Bool)
  | quit

/-- A call can go on once it waits. -/
def EventManager.step (s : EventManager Event) : ManagerEvent Event → Option (EventManager Event)
  | .addEvent event => some (s.addEvent event)
  | .createQueue => some s.createQueue.2
  | .destroyQueue handle => some (s.destroyQueue handle).2
  | .getEvents call expired => some (s.getEvents call expired).2
  | .resume call expired waitFailed =>
    if call ∈ s.blocked then some (s.resume call expired waitFailed).2 else none
  | .quit => some s.quit

end PersonalCloud.Ccd
