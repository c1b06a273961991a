import PersonalCloud.Ts2.Transport.BufferOwnership
import PersonalCloud.Ts2.Transport.TunnelState

/-!
# The buffers of Write

Write lends its caller's memory to the writer and retry threads and must not return while
they, or a packet queued at the front end, still point into it. The system below has any
number of calls of Write, the two worker threads, handlers of acknowledgements, and the
threads that close the tunnel; every critical section of `buffers_mutex` or `segs_mutex` is
one event. `holder` is the thread that keeps the tunnel mutex over several sections.
-/

namespace PersonalCloud.Ts2.Transport

open PersonalCloud.Lib

/-! ## The system -/

inductive WriteResult where
  | ok | closed | wrongState | internal | noMem | spawnFailed | timeout | waitFailed
  deriving DecidableEq, Repr

/-- Where a call of Write is. -/
inductive WritePc where
  | idle
  | checked (bytes : List UInt8)
  | appended (index : Nat)
  | ready (index : Nat)
  | waiting (index : Nat)
  | returned (err : WriteResult)
  deriving DecidableEq, Repr

/-- The index of the buffer the call has queued. -/
def WritePc.index? : WritePc → Option Nat
  | appended i | ready i | waiting i => some i
  | _ => none

def WritePc.isReturned : WritePc → Bool
  | returned _ => true
  | _ => false

inductive WriterPc where
  | notStarted | top | ready | exited
  deriving DecidableEq, Repr

/-- Why the tunnel mutex is held: by Close with a FIN to send, by Close after the peer's
FIN, or by one of the handlers. -/
inductive CloseKind where
  | closeFin | closePlain | fin | finAck
  deriving DecidableEq, Repr

/-- Which section comes next. The sequence number of the FIN is read before `segs_mutex`
is taken. -/
inductive CloseStage where
  | clearBuffers | clearSegments | finish
  | insertFin (seqNum : Nat)
  deriving DecidableEq, Repr

structure WriteState where
  win : SendWindow
  state : VtunnelState
  holder : Option (CloseKind × CloseStage)
  closers : Nat
  calls : Nat → WritePc
  writer : WriterPc
  isWriterStarted : Bool
  isWriterStop : Bool
  isRetryStop : Bool
  ackReceived : List Nat
  ackTested : List Nat
  ackSegsDone : List Nat
  queued : List DataRef

namespace WriteState

/-- An open tunnel before the first call of Write. -/
def opened (seq capacity size : Nat) : WriteState where
  win := .opened seq capacity size
  state := .opened
  holder := none
  closers := 0
  calls := fun _ => .idle
  writer := .notStarted
  isWriterStarted := false
  isWriterStop := false
  isRetryStop := false
  ackReceived := []
  ackTested := []
  ackSegsDone := []
  queued := []

def setCall (s : WriteState) (c : Nat) (pc : WritePc) : WriteState :=
  { s with calls := Function.update s.calls c pc }

/-! ### Write -/

def write (s : WriteState) (c : Nat) (bytes : List UInt8) : Option WriteState :=
  if s.holder = none ∧ s.calls c = .idle then
    if s.state ≠ .opened then
      if s.state = .closed ∨ s.state = .closing ∨ s.state = .closeWait then
        some (s.setCall c (.returned .closed))
      else some (s.setCall c (.returned .wrongState))
    else if bytes = [] then some (s.setCall c (.returned .ok))
    else some (s.setCall c (.checked bytes))
  else none

def append (s : WriteState) (c : Nat) (alloc : Bool) : Option WriteState :=
  match s.calls c with
  | .checked bytes =>
    match s.win.appendToBuffers ⟨c, bytes⟩ with
    | none => some (s.setCall c (.returned .internal))
    | some (i, w) =>
      if alloc then some ({ s with win := w }.setCall c (.appended i))
      else some (s.setCall c (.returned .noMem))
  | _ => none

/-- Start the writer thread with the first buffer to send. -/
def spawn (s : WriteState) (c : Nat) (spawned : Bool) : Option WriteState :=
  match s.holder, s.calls c with
  | none, .appended i =>
    let cancel (err : WriteResult) :=
      { s with win := s.win.cancelFromBuffers i }.setCall c (.returned err)
    if !s.isWriterStarted && !s.isWriterStop then
      if s.state ≠ .opened then some (cancel .closed)
      else if !spawned then some (cancel .spawnFailed)
      else some ({ s with isWriterStarted := true, writer := .top }.setCall c (.ready i))
    else some (s.setCall c (.ready i))
  | _, _ => none

/-- The code behind the label `cleanup`. -/
def cleanup (s : WriteState) (c i : Nat) (err : WriteResult) : WriteState :=
  let win := if err ≠ WriteResult.ok then s.win.cancelFromBuffers i else s.win
  -- the front end drops the tunnel's DATA packets
  { s with win := win, queued := [] }.setCall c (.returned err)

def check (s : WriteState) (c : Nat) : Option WriteState :=
  match s.calls c with
  | .ready i =>
    match s.win.sendBuffers.find? i with
    | none => some (s.cleanup c i .ok)
    | some b =>
      if b.sendAborted then some (s.cleanup c i .closed) else some (s.setCall c (.waiting i))
  | _ => none

def wake (s : WriteState) (c : Nat) (r : WaitResult) : Option WriteState :=
  match s.calls c with
  | .waiting i =>
    if r = .timeout then some (s.cleanup c i .timeout)
    else if (s.win.sendBuffers.find? i).any SendBuffer.sendAborted then
      some (s.cleanup c i .closed)
    else some (s.cleanup c i (if r = .ok then .ok else .waitFailed))
  | _ => none

/-! ### The worker threads -/

def writerExit (s : WriteState) : WriteState :=
  { s with writer := .exited, isWriterStop := true }

def writerWindow (s : WriteState) : Option WriteState :=
  if s.writer ≠ .top then none
  else if s.isWriterStop then some s.writerExit
  else if s.win.isAvailableWindow then some { s with writer := .ready }
  else none

def writerSend (s : WriteState) (ackNum now interval : Nat) (alloc : Bool) :
    Option WriteState :=
  if s.writer ≠ .ready then none
  else if s.isWriterStop then some s.writerExit
  else if !s.win.isAvailableBufferToSend then none
  else
    match s.win.sendBuffers.find? s.win.currBufferIndex with
    | none => some s.writerExit
    | some b =>
      if !alloc then some s.writerExit
      else some { s with
        win := s.win.advance b (s.win.nextSegment b ackNum now interval)
        queued := s.queued ++ [⟨b.buffer, s.win.currBufferOffset⟩]
        writer := .top }

def retry (s : WriteState) (key now maxRound interval : Nat) : Option WriteState :=
  if s.isRetryStop then none
  else
    (s.win.retrySegments.find? key).bind fun p =>
      (s.win.heap p).map fun seg =>
        { s with
          win := s.win.reschedule p now maxRound interval
          queued := if seg.pktType = .data then s.queued ++ seg.data.toList else s.queued }

def stopWorkerThreads (s : WriteState) : WriteState :=
  { s with
    isRetryStop := true
    isWriterStop := if s.isWriterStarted then true else s.isWriterStop
    isWriterStarted := false }

/-! ### Acknowledgements -/

/-- `ReceivePacket` lets the packet through and gives the tunnel mutex back. -/
def receiveAck (s : WriteState) (latestAck : Nat) : Option WriteState :=
  if s.holder = none ∧ (s.state = .opened ∨ s.state = .closing ∨ s.state = .closeWait) then
    some { s with ackReceived := latestAck :: s.ackReceived }
  else none

/-- The test of `handleAck`, made with no lock held. -/
def ackTest (s : WriteState) (latestAck : Nat) : Option WriteState :=
  if latestAck ∈ s.ackReceived then
    some { s with
      ackReceived := s.ackReceived.erase latestAck
      ackTested := if latestAck > s.win.curSeq then latestAck :: s.ackTested else s.ackTested }
  else none

def ackSegments (s : WriteState) (latestAck : Nat) : Option WriteState :=
  if latestAck ∈ s.ackTested then
    some { s with
      win := s.win.ackSegments latestAck
      ackTested := s.ackTested.erase latestAck
      ackSegsDone := latestAck :: s.ackSegsDone }
  else none

def ackBuffers (s : WriteState) (latestAck : Nat) : Option WriteState :=
  if latestAck ∈ s.ackSegsDone then
    some { s with
      win := s.win.ackBuffers latestAck
      ackSegsDone := s.ackSegsDone.erase latestAck }
  else none

/-! ### Closing -/

def close (s : WriteState) : Option WriteState :=
  if s.holder ≠ none then none
  else if s.state = .opened then
    some { s with state := .closing, holder := some (.closeFin, .clearBuffers) }
  else if s.state = .closing then
    some { s.stopWorkerThreads with holder := some (.closePlain, .clearBuffers) }
  else none

def handleFin (s : WriteState) : Option WriteState :=
  if s.holder = none ∧ s.state ≠ .null ∧ s.state ≠ .closed then
    some { s with holder := some (.fin, .clearBuffers) }
  else none

def handleFinAck (s : WriteState) : Option WriteState :=
  if s.holder = none ∧ (s.state = .closing ∨ s.state = .closeWait) then
    some { s.stopWorkerThreads with
      state := .closed
      holder := some (.finAck, .clearBuffers) }
  else none

def clearBuffers (s : WriteState) : Option WriteState :=
  match s.holder with
  | some (kind, .clearBuffers) =>
    some { s with win := s.win.abortBuffers, holder := some (kind, .clearSegments) }
  | _ => none

def clearSegments (s : WriteState) : Option WriteState :=
  match s.holder with
  | some (kind, .clearSegments) =>
    some { s with win := s.win.clearSegments, holder := some (kind, .finish) }
  | _ => none

/-- The rest under the mutex, but for the insertion of the FIN. `alloc` is whether the
packet to send can be made. -/
def finish (s : WriteState) (alloc : Bool) : Option WriteState :=
  match s.holder with
  | some (.closeFin, .finish) =>
    if alloc then some { s with holder := some (.closeFin, .insertFin s.win.curSeq) }
    else some { s with holder := none, closers := s.closers + 1 }
  | some (.closePlain, .finish) => some { s with holder := none, state := .closed }
  | some (.fin, .finish) =>
    some { s with
      holder := none
      state :=
        if !alloc then s.state
        else match s.state with
          | .opened => .closing
          | .closing | .closeWait => .closed
          | state => state }
  | some (.finAck, .finish) => some { s with holder := none }
  | _ => none

def insertFin (s : WriteState) (ackNum now interval : Nat) : Option WriteState :=
  match s.holder with
  | some (_, .insertFin seqNum) =>
    some { s with
      win := s.win.insertSegments (ctrlSegment .fin seqNum ackNum now interval)
      holder := none
      closers := s.closers + 1 }
  | _ => none

/-- A Close that waits for the peer gives up. -/
def closeTimeout (s : WriteState) : Option WriteState :=
  if s.holder = none ∧ s.closers ≠ 0 ∧ s.state = .closing then
    some { s with state := .closed, closers := s.closers - 1 }
  else none

end WriteState

inductive WriteOp where
  | write (c : Nat) (bytes : List UInt8)
  | append (c : Nat) (alloc : Bool)
  | spawn (c : Nat) (spawned : Bool)
  | check (c : Nat)
  | wake (c : Nat) (r : WaitResult)
  | writerWindow
  | writerSend (ackNum now interval : Nat) (alloc : Bool)
  | retry (key now maxRound interval : Nat)
  | receiveAck (latestAck : Nat)
  | ackTest (latestAck : Nat)
  | ackSegments (latestAck : Nat)
  | ackBuffers (latestAck : Nat)
  | close
  | handleFin
  | handleFinAck
  | clearBuffers
  | clearSegments
  | finish (alloc : Bool)
  | insertFin (ackNum now interval : Nat)
  | closeTimeout
  | transmit (i : Nat)
  deriving DecidableEq, Repr

def writeStep (s : WriteState) : WriteOp → Option WriteState
  | .write c bytes => s.write c bytes
  | .append c alloc => s.append c alloc
  | .spawn c spawned => s.spawn c spawned
  | .check c => s.check c
  | .wake c r => s.wake c r
  | .writerWindow => s.writerWindow
  | .writerSend ackNum now interval alloc => s.writerSend ackNum now interval alloc
  | .retry key now maxRound interval => s.retry key now maxRound interval
  | .receiveAck latestAck => s.receiveAck latestAck
  | .ackTest latestAck => s.ackTest latestAck
  | .ackSegments latestAck => s.ackSegments latestAck
  | .ackBuffers latestAck => s.ackBuffers latestAck
  | .close => s.close
  | .handleFin => s.handleFin
  | .handleFinAck => s.handleFinAck
  | .clearBuffers => s.clearBuffers
  | .clearSegments => s.clearSegments
  | .finish alloc => s.finish alloc
  | .insertFin ackNum now interval => s.insertFin ackNum now interval
  | .closeTimeout => s.closeTimeout
  -- the front end takes a packet from its queue
  | .transmit i => some { s with queued := s.queued.eraseIdx i }

end PersonalCloud.Ts2.Transport
