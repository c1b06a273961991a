import PersonalCloud.Ts2.Transport.RecvWindow
import PersonalCloud.Ts2.Transport.TunnelState

/-!
# One tunnel under concurrent calls

The calls that open and close a tunnel and the packets that arrive for it, as threads that
take turns. A section run under the tunnel mutex is one step, and so is each access that
`handleThreeWayAck`, `handleAck` and `handleData` make after the mutex was given back. A
thread between two of its steps is a value of `ThreadPc`.

`closed_stays_iff` says that a closed tunnel stays closed exactly when no thread in
`handleThreeWayAck`, which got there on a state test made before, finds it closed.
-/

namespace PersonalCloud.Ts2.Transport

open PersonalCloud.Lib

/-! ## States -/

structure TunnelPkt where
  pktType : PktType
  srcVtId : Nat
  seqNum : Nat
  ackNum : Nat
  windowSize : Nat
  data : List UInt8
  deriving DecidableEq, Repr

/-- Where `handleThreeWayAck` is; at `relock` it has returned to `ReceivePacket`. -/
inductive ThreeWayPc where
  | testAck | testSeq | sync | setState | cancelCtrlPkt | relock
  deriving DecidableEq, Repr

inductive AckPc where
  | test | segments | buffers
  deriving DecidableEq, Repr

/-- Where a thread stands that does not hold the mutex. -/
inductive ThreadPc where
  | openWait | waitForOpenWait | closeWait | waitForCloseWait
  | cancelCtrlPkt (err : TSError)
  | threeWayAck (pkt : TunnelPkt) (pc : ThreeWayPc)
  | handleAck (pkt : TunnelPkt) (pc : AckPc)
  | handleData (pkt : TunnelPkt)
  deriving DecidableEq, Repr

/-- How a step of a thread ends. -/
inductive Next where
  | done (err : TSError)
  | goto (pc : ThreadPc)

/-- What a step finds in its surroundings: the clock, whether memory and threads are to be
had, whether a Read waits, and how the wait ended. -/
structure Env where
  now : Nat
  interval : Nat
  alloc : Bool
  spawned : Bool
  readers : Bool
  wait : WaitResult
  deriving DecidableEq, Repr

structure Tunnel where
  state : VtunnelState
  win : SendWindow
  recv : RecvWindow
  rmtVtId : Nat
  openQueue : List TunnelPkt
  threads : List ThreadPc

namespace Tunnel

/-- A tunnel as the client constructs it. -/
def client (maxSegmentSize maxWindowSize : Nat) : Tunnel where
  state := .null
  win := .opened 0 maxWindowSize maxSegmentSize
  recv := .opened 0 maxWindowSize
  rmtVtId := 0
  openQueue := []
  threads := []

/-- A tunnel as the server constructs it for the SYN of `dstVtId`. -/
def server (dstVtId maxSegmentSize maxWindowSize : Nat) : Tunnel :=
  { client maxSegmentSize maxWindowSize with
    state := .halfOpen
    rmtVtId := dstVtId }

def wakeReaders (s : Tunnel) (env : Env) : Tunnel :=
  if env.readers then { s with recv := { s.recv with closeInProgress := true } } else s

def insertCtrl (s : Tunnel) (pktType : PktType) (env : Env) : Tunnel :=
  { s with
    win := s.win.insertSegments
      (ctrlSegment pktType s.win.curSeq s.recv.curAck env.now env.interval) }

/-! ## Opening -/

/-- The end of the loop of Open. -/
def openLoop (s : Tunnel) : Next × Tunnel :=
  if s.state = .opening then (.goto .openWait, s)
  else if s.state = .opened then (.goto (.cancelCtrlPkt .ok), s)
  else (.goto (.cancelCtrlPkt .noConnection), s)

/-- Open up to its wait. -/
def openCall (s : Tunnel) (env : Env) : Next × Tunnel :=
  if s.state = .closed then (.goto (.cancelCtrlPkt .invalidDevice), s)
  else if s.state ≠ .null then (.goto (.cancelCtrlPkt .wrongState), s)
  else
    let s := { s with state := .opening }
    if !env.alloc then (.goto (.cancelCtrlPkt .noMem), s)
    else if !env.spawned then (.goto (.cancelCtrlPkt .internal), s)
    else (s.insertCtrl .syn env).openLoop

/-- Open after a wait. -/
def openWake (s : Tunnel) (env : Env) : Next × Tunnel :=
  if env.wait = .timeout then (.goto (.cancelCtrlPkt .timeout), s)
  else if env.wait = .error then (.goto (.cancelCtrlPkt .condVar), s)
  else if s.state = .closed then (.goto (.cancelCtrlPkt .closed), s)
  else
    match s.openQueue with
    | [] => s.openLoop
    | pkt :: queue =>
      let s := { s with openQueue := queue }
      if pkt.pktType ≠ .synAck then s.openLoop
      else if pkt.ackNum ≠ s.win.curSeq + 1 then s.openLoop
      else
        let s := { s with
          win := s.win.sync pkt.ackNum pkt.windowSize
          recv := { s.recv with curAck := pkt.seqNum + 1, headSeq := pkt.seqNum + 1 }
          rmtVtId := pkt.srcVtId }
        if pkt.srcVtId = 0 then s.openLoop
        else
          let s := { s with state := .opened, openQueue := [] }
          (.goto (.cancelCtrlPkt (if env.alloc then .ok else .noMem)), s)

/-- The end of WaitForOpen, its loop left with `err`. -/
def waitForOpenEnd (s : Tunnel) (err : TSError) : Next × Tunnel :=
  if s.state = .opened ∧ err = .ok then (.goto (.cancelCtrlPkt .ok), s)
  else if s.state = .closed then (.goto (.cancelCtrlPkt .closed), s)
  else (.goto (.cancelCtrlPkt err), s)

def waitForOpenCall (s : Tunnel) : Next × Tunnel :=
  if s.state = .closed then (.goto (.cancelCtrlPkt .closed), s)
  else if s.state ≠ .halfOpen ∧ s.state ≠ .opened then (.goto (.cancelCtrlPkt .wrongState), s)
  else if s.state = .halfOpen then (.goto .waitForOpenWait, s)
  else s.waitForOpenEnd .ok

def waitForOpenWake (s : Tunnel) (env : Env) : Next × Tunnel :=
  match env.wait with
  | .timeout => s.waitForOpenEnd .timeout
  | .error => s.waitForOpenEnd .internal
  | .ok =>
    if s.state = .halfOpen then (.goto .waitForOpenWait, s)
    else s.waitForOpenEnd .ok

def handleSyn (s : Tunnel) (pkt : TunnelPkt) (env : Env) : Next × Tunnel :=
  if pkt.pktType ≠ .syn then (.done .invalid, s)
  else
    let s := { s with rmtVtId := pkt.srcVtId }
    if pkt.srcVtId = 0 then (.done .invalid, s)
    else
      let s := { s with
        recv := { s.recv with curAck := pkt.seqNum + 1, headSeq := pkt.seqNum + 1 } }
      if !env.alloc then (.done .noMem, s)
      else if !env.spawned then (.done .internal, s)
      else (.done .ok, s.insertCtrl .synAck env)

/-! ## Closing -/

def closeTunnel (s : Tunnel) (sendFin : Bool) (env : Env) : Tunnel :=
  if s.state ≠ .opened ∧ s.state ≠ .closing then s
  else
    let s := { s with win := s.win.clear }.wakeReaders env
    if sendFin && env.alloc then s.insertCtrl .fin env else s

def closeCall (s : Tunnel) (env : Env) : Next × Tunnel :=
  if s.state = .closed then (.done .ok, s)
  else if s.state ≠ .opened ∧ s.state ≠ .closing then (.done .wrongState, s)
  else if s.state = .closing then (.done .ok, { s.closeTunnel false env with state := .closed })
  else (.goto .closeWait, { s with state := .closing }.closeTunnel true env)

def closeWake (s : Tunnel) (env : Env) : Next × Tunnel :=
  match env.wait with
  | .timeout => (.done .timeout, { s with state := .closed })
  | .error => (.done (if s.state = .closed then .condVar else .noConnection), s)
  | .ok =>
    if s.state = .closing then (.goto .closeWait, s)
    else (.done (if s.state = .closed then .ok else .noConnection), s)

def waitForCloseCall (s : Tunnel) (env : Env) : Next × Tunnel :=
  if s.state = .closed then (.done .ok, s)
  else if s.state ≠ .opened ∧ s.state ≠ .closing then (.done .wrongState, s)
  else if s.state = .closing then (.done .ok, { s.closeTunnel false env with state := .closed })
  else (.goto .waitForCloseWait, { s.closeTunnel true env with state := .closeWait })

def waitForCloseWake (s : Tunnel) (env : Env) : Next × Tunnel :=
  match env.wait with
  | .timeout => (.done .timeout, { s with state := .closed })
  | .error => (.done .condVar, s)
  | .ok => if s.state = .closeWait then (.goto .waitForCloseWait, s) else (.done .ok, s)

def forceClose (s : Tunnel) (env : Env) : Next × Tunnel :=
  if s.state = .closed then (.done .ok, s)
  else if s.state = .null then (.done .ok, { s with state := .closed })
  else if s.state = .opening ∨ s.state = .halfOpen then (.done .ok, { s with state := .closed })
  else if s.state = .closing then (.done .ok, { s.closeTunnel false env with state := .closed })
  else (.done .ok, { s.closeTunnel true env with state := .closed })

/-! ## Packets -/

def handleFin (s : Tunnel) (pkt : TunnelPkt) (env : Env) : Tunnel :=
  let s := s.wakeReaders env
  let s := { s with
    recv := { s.recv with curAck := pkt.seqNum + 1 }
    win := s.win.clear }
  if !env.alloc then s
  else
    match s.state with
    | .opened => { s with state := .closing }
    | .closing | .closeWait => { s with state := .closed }
    | _ => s

def handleFinAck (s : Tunnel) (pkt : TunnelPkt) : Tunnel :=
  if s.rmtVtId ≠ pkt.srcVtId then s
  else if s.state ≠ .closing ∧ s.state ≠ .closeWait then s
  else { s with state := .closed, win := s.win.clear }

/-- `ReceivePacket` up to where it gives the mutex back. -/
def receivePacket (s : Tunnel) (pkt : TunnelPkt) (env : Env) : Next × Tunnel :=
  if s.state = .null ∨ s.state = .closed then (.done .ok, s)
  else
    match pkt.pktType with
    | .syn => (.done .ok, s)
    | .fin => (.done .ok, s.handleFin pkt env)
    | .finAck => (.done .ok, s.handleFinAck pkt)
    | .synAck =>
      if s.state = .opening then (.done .ok, { s with openQueue := s.openQueue ++ [pkt] })
      else (.done .ok, s)
    | .ack =>
      if s.state = .halfOpen then (.goto (.threeWayAck pkt .testAck), s)
      else if s.state = .opened ∨ s.state = .closing ∨ s.state = .closeWait then
        (.goto (.handleAck pkt .test), s)
      else (.done .ok, s)
    | .data =>
      if s.state = .halfOpen then (.goto (.threeWayAck pkt .testAck), s)
      else if s.state = .closing then (.done .ok, s)
      else (.goto (.handleData pkt), s)

/-- `handleThreeWayAck`, with no lock held, and the rest of `ReceivePacket`. -/
def handleThreeWayAck (s : Tunnel) (pkt : TunnelPkt) : ThreeWayPc → Next × Tunnel
  | .testAck =>
    if (pkt.pktType = .ack ∨ pkt.pktType = .data) ∧ pkt.ackNum = s.win.curSeq + 1 then
      (.goto (.threeWayAck pkt .testSeq), s)
    else (.goto (.threeWayAck pkt .relock), s)
  | .testSeq =>
    if pkt.seqNum = s.recv.curAck then (.goto (.threeWayAck pkt .sync), s)
    else (.goto (.threeWayAck pkt .relock), s)
  | .sync =>
    (.goto (.threeWayAck pkt .setState), { s with win := s.win.sync pkt.ackNum pkt.windowSize })
  | .setState => (.goto (.threeWayAck pkt .cancelCtrlPkt), { s with state := .opened })
  | .cancelCtrlPkt =>
    (.goto (.threeWayAck pkt .relock), { s with win := s.win.cancelCtrlPktFromSegments })
  | .relock =>
    if pkt.pktType = .data ∧ s.state ≠ .closing then (.goto (.handleData pkt), s)
    else (.done .ok, s)

def handleAck (s : Tunnel) (pkt : TunnelPkt) : AckPc → Next × Tunnel
  | .test =>
    if pkt.ackNum > s.win.curSeq then (.goto (.handleAck pkt .segments), s) else (.done .ok, s)
  | .segments =>
    (.goto (.handleAck pkt .buffers), { s with win := s.win.ackSegments pkt.ackNum })
  | .buffers => (.done .ok, { s with win := s.win.ackBuffers pkt.ackNum })

def handleData (s : Tunnel) (pkt : TunnelPkt) : Next × Tunnel :=
  (.done .ok, { s with recv := (s.recv.handleData ⟨pkt.seqNum, pkt.data⟩).1 })

/-! ## Threads -/

/-- The next step of a thread. -/
def resume (s : Tunnel) (env : Env) : ThreadPc → Next × Tunnel
  | .openWait => s.openWake env
  | .waitForOpenWait => s.waitForOpenWake env
  | .closeWait => s.closeWake env
  | .waitForCloseWait => s.waitForCloseWake env
  | .cancelCtrlPkt err => (.done err, { s with win := s.win.cancelCtrlPktFromSegments })
  | .threeWayAck pkt pc => s.handleThreeWayAck pkt pc
  | .handleAck pkt pc => s.handleAck pkt pc
  | .handleData pkt => s.handleData pkt

/-- Keep the thread if it is not done. -/
def park (x : Next × Tunnel) : Tunnel :=
  match x.1 with
  | .done _ => x.2
  | .goto pc => { x.2 with threads := pc :: x.2.threads }

end Tunnel

inductive TunnelOp where
  | openCall | waitForOpen | close | waitForClose | forceClose
  | handleSyn (pkt : TunnelPkt)
  | receivePacket (pkt : TunnelPkt)
  | resume (pc : ThreadPc)
  deriving DecidableEq, Repr

def tunnelStep (s : Tunnel) : TunnelOp × Env → Option Tunnel
  | (.openCall, env) => some (Tunnel.park (s.openCall env))
  | (.waitForOpen, _) => some (Tunnel.park s.waitForOpenCall)
  | (.close, env) => some (Tunnel.park (s.closeCall env))
  | (.waitForClose, env) => some (Tunnel.park (s.waitForCloseCall env))
  | (.forceClose, env) => some (Tunnel.park (s.forceClose env))
  | (.handleSyn pkt, env) => some (Tunnel.park (s.handleSyn pkt env))
  | (.receivePacket pkt, env) => some (Tunnel.park (s.receivePacket pkt env))
  | (.resume pc, env) =>
    if pc ∈ s.threads then
      some (Tunnel.park ({ s with threads := s.threads.erase pc }.resume env pc))
    else none

/-! ## Closed tunnels -/

/-- `handleThreeWayAck` does not set the state of a tunnel that is closed. -/
def NotReopened (s : Tunnel) (op : TunnelOp × Env) : Prop :=
  ∀ pkt, op.1 = .resume (.threeWayAck pkt .setState) → s.state ≠ .closed

namespace Tunnel

variable {s t : Tunnel}

@[simp] theorem state_park (x : Next × Tunnel) : (park x).state = x.2.state := by
  unfold park
  split <;> rfl

theorem closed_waitForOpenEnd (h : s.state = .closed) (err : TSError) :
    (s.waitForOpenEnd err).2.state = .closed := by
  simp [waitForOpenEnd, h]

theorem closed_receivePacket (h : s.state = .closed) (pkt : TunnelPkt) (env : Env) :
    (s.receivePacket pkt env).2.state = .closed := by
  simp [receivePacket, h]

theorem closed_handleSyn (h : s.state = .closed) (pkt : TunnelPkt) (env : Env) :
    (s.handleSyn pkt env).2.state = .closed := by
  simp only [handleSyn]
  split_ifs <;> exact h

/-- The calls that open and close do nothing to a closed tunnel. -/
theorem closed_calls (h : s.state = .closed) (env : Env) :
    (s.openCall env).2.state = .closed ∧ s.waitForOpenCall.2.state = .closed ∧
      (s.closeCall env).2.state = .closed ∧ (s.waitForCloseCall env).2.state = .closed ∧
      (s.forceClose env).2.state = .closed := by
  simp [openCall, waitForOpenCall, closeCall, waitForCloseCall, forceClose, h]

/-- Neither do the threads that wait in them, or that handle a packet, but for one step. -/
theorem closed_resume (h : s.state = .closed) (env : Env) {pc : ThreadPc}
    (hpc : ∀ pkt, pc ≠ .threeWayAck pkt .setState) : (s.resume env pc).2.state = .closed := by
  cases pc with
  | openWait =>
    simp only [resume, openWake, h, if_true]
    split_ifs <;> exact h
  | waitForOpenWait =>
    simp only [resume, waitForOpenWake]
    split
    · exact closed_waitForOpenEnd h _
    · exact closed_waitForOpenEnd h _
    · rw [if_neg (by simp [h])]
      exact closed_waitForOpenEnd h _
  | closeWait =>
    simp only [resume, closeWake]
    split
    · rfl
    · exact h
    · split_ifs <;> exact h
  | waitForCloseWait =>
    simp only [resume, waitForCloseWake]
    split
    · rfl
    · exact h
    · split_ifs <;> exact h
  | cancelCtrlPkt err => exact h
  | threeWayAck pkt pc =>
    cases pc with
    | testAck | testSeq | relock =>
      simp only [resume, handleThreeWayAck]
      split_ifs <;> exact h
    | sync | cancelCtrlPkt => exact h
    | setState => exact absurd rfl (hpc pkt)
  | handleAck pkt pc =>
    cases pc with
    | test =>
      simp only [resume, handleAck]
      split_ifs <;> exact h
    | segments | buffers => exact h
  | handleData pkt => exact h

end Tunnel

/-- A step takes a tunnel out of the closed state exactly if it is the one that
`NotReopened` is about. -/
theorem closed_tunnelStep_iff {s t : Tunnel} {op : TunnelOp × Env}
    (he : tunnelStep s op = some t) :
    (s.state = .closed → t.state = .closed) ↔ NotReopened s op := by
  obtain ⟨op, env⟩ := op
  have hcalls := fun h => Tunnel.closed_calls (s := s) h env
  cases op with
  | openCall =>
    obtain rfl := Option.some.inj he
    exact iff_of_true (fun h => by simpa using (hcalls h).1) nofun
  | waitForOpen =>
    obtain rfl := Option.some.inj he
    exact iff_of_true (fun h => by simpa using (hcalls h).2.1) nofun
  | close =>
    obtain rfl := Option.some.inj he
    exact iff_of_true (fun h => by simpa using (hcalls h).2.2.1) nofun
  | waitForClose =>
    obtain rfl := Option.some.inj he
    exact iff_of_true (fun h => by simpa using (hcalls h).2.2.2.1) nofun
  | forceClose =>
    obtain rfl := Option.some.inj he
    exact iff_of_true (fun h => by simpa using (hcalls h).2.2.2.2) nofun
  | handleSyn pkt =>
    obtain rfl := Option.some.inj he
    exact iff_of_true (fun h => by simpa using Tunnel.closed_handleSyn h pkt env) nofun
  | receivePacket pkt =>
    obtain rfl := Option.some.inj he
    exact iff_of_true (fun h => by simpa using Tunnel.closed_receivePacket h pkt env) nofun
  | resume pc =>
    obtain ⟨-, he⟩ := Option.ite_none_right_eq_some.1 he
    obtain rfl := Option.some.inj he
    by_cases hpc : ∃ pkt, pc = .threeWayAck pkt .setState
    · obtain ⟨pkt, rfl⟩ := hpc
      have hopen : (Tunnel.park ({ s with
          threads := s.threads.erase (.threeWayAck pkt .setState) }.resume env
            (.threeWayAck pkt .setState))).state = .opened := rfl
      rw [hopen]
      exact ⟨fun h _ _ hc => (nomatch h hc), fun h hc => absurd hc (h pkt rfl)⟩
    · rw [not_exists] at hpc
      refine iff_of_true (fun h => ?_) fun pkt he => absurd (TunnelOp.resume.inj he) (hpc pkt)
      simpa using Tunnel.closed_resume (s := { s with threads := s.threads.erase pc }) h env hpc

/-- In every run from any tunnel, closed is for ever exactly if no thread that got into
`handleThreeWayAck` sets the state of a tunnel that was closed since. -/
theorem closed_stays_iff {s₀ s : Tunnel} {tr : List (Tunnel × (TunnelOp × Env))}
    (h : Run tunnelStep s₀ tr s) :
    Stays (fun s : Tunnel => s.state = .closed) tr s ↔ Meets NotReopened tr :=
  h.stays_iff_meets fun _ _ _ he => closed_tunnelStep_iff he

def calmEnv : Env where
  now := 10
  interval := 5
  alloc := true
  spawned := true
  readers := false
  wait := .ok

def synPkt : TunnelPkt := ⟨.syn, 9, 40, 0, 0, []⟩

/-- The ACK that ends the handshake begun by `synPkt`. -/
def lastAckPkt : TunnelPkt := ⟨.ack, 9, 41, 1, 8, []⟩

/-- The server's side of a handshake, and a forced close after it. -/
def openedAndClosed : List (TunnelOp × Env) :=
  [.handleSyn synPkt, .waitForOpen, .receivePacket lastAckPkt,
    .resume (.threeWayAck lastAckPkt .testAck), .resume (.threeWayAck lastAckPkt .testSeq),
    .resume (.threeWayAck lastAckPkt .sync), .resume (.threeWayAck lastAckPkt .setState),
    .forceClose, .resume (.threeWayAck lastAckPkt .cancelCtrlPkt),
    .resume (.threeWayAck lastAckPkt .relock), .resume .waitForOpenWait].map (·, calmEnv)

theorem closed_stays_iff_openedAndClosed :
    ∃ tr s, Run tunnelStep (.server 9 4 8) tr s ∧ s.state = .closed ∧ tr.length = 11 ∧
      (Stays (fun s : Tunnel => s.state = .closed) tr s ↔ Meets NotReopened tr) := by
  have he : exec tunnelStep (.server 9 4 8) openedAndClosed = some _ := rfl
  obtain ⟨tr, hr, hm⟩ := run_of_exec he
  exact ⟨tr, _, hr, rfl, by simpa [openedAndClosed] using congrArg List.length hm,
    closed_stays_iff hr⟩

/-- The tunnel is closed by force between the state test of `ReceivePacket` and the handling
of the last ACK. -/
def closedInHandshake : List (TunnelOp × Env) :=
  [.handleSyn synPkt, .waitForOpen, .receivePacket lastAckPkt, .forceClose,
    .resume (.threeWayAck lastAckPkt .testAck), .resume (.threeWayAck lastAckPkt .testSeq),
    .resume (.threeWayAck lastAckPkt .sync),
    .resume (.threeWayAck lastAckPkt .setState)].map (·, calmEnv)

/-- The tunnel was closed and is open again. -/
theorem not_closed_stays_closedInHandshake :
    ∃ tr s, Run tunnelStep (.server 9 4 8) tr s ∧ tr.map Prod.snd = closedInHandshake.reverse ∧
      s.state = .opened ∧ ¬Stays (fun s : Tunnel => s.state = .closed) tr s := by
  have he : exec tunnelStep (.server 9 4 8) closedInHandshake = some _ := rfl
  refine ⟨_, _, run_trace he, by rw [List.map_reverse, map_snd_trace he], rfl, fun h => ?_⟩
  exact absurd ((stays_cons.1 h).1 rfl) (by decide)

end PersonalCloud.Ts2.Transport
