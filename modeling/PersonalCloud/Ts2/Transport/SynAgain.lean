import PersonalCloud.Ts2.Transport.Reading
import PersonalCloud.Ts2.Transport.SendStream

/-!
# A SYN that arrives again

The server answers every SYN, also one that made a tunnel long ago, by handing it to the
`HandleSyn` of that tunnel. `HandleSyn` does not look at the state: it takes both ends of the
receiving window from the packet and inserts its SYN_ACK at `curSeq`.

The system is one tunnel of the server with everything that happens to it: the threads and
packets of `tunnelStep`, the calls of Write and Read, and the writer and retry threads.
-/

namespace PersonalCloud.Ts2.Transport

open PersonalCloud.Lib

/-! ## The system -/

inductive ServerOp where
  | thread (op : TunnelOp)
  | write (buffer : Buffer)
  | writerSend
  | retry (key maxRound : Nat)
  /-- A call of Write gives its buffer up. -/
  | cancel (index : Nat)
  | read (len : Nat)
  deriving DecidableEq, Repr

def serverStep (s : Tunnel) : ServerOp × Env → Option Tunnel
  | (.thread op, env) => tunnelStep s (op, env)
  | (.write buffer, _) =>
    if s.state = .opened ∧ buffer.bytes ≠ [] then
      (s.win.appendToBuffers buffer).map fun x => { s with win := x.2 }
    else none
  | (.writerSend, env) =>
    if s.win.isAvailableWindow ∧ s.win.isAvailableBufferToSend then
      (s.win.sendBuffers.find? s.win.currBufferIndex).map fun b =>
        { s with
          win := s.win.advance b (s.win.nextSegment b s.recv.curAck env.now env.interval) }
    else none
  | (.retry key maxRound, env) =>
    (s.win.retrySegments.find? key).map fun p =>
      { s with win := s.win.reschedule p env.now maxRound env.interval }
  | (.cancel index, _) => some { s with win := s.win.cancelFromBuffers index }
  | (.read len, _) =>
    if s.readCheck = .ok then (s.recv.read len).map fun x => { s with recv := x.2.2 } else none

namespace SendWindow

/-- The segment that waits under a sequence number. -/
def segmentAt (w : SendWindow) (q : Nat) : Option SendSegment :=
  (w.sendSegments.find? q).bind w.heap

section Linked

variable {w : SendWindow}

/-- Inserting a segment replaces what stood under its number and leaves all others. -/
theorem Linked.segmentAt_insertSegments (h : w.Linked) (seg : SendSegment) (q : Nat) :
    (w.insertSegments seg).segmentAt q = if q = seg.seqNum then some seg else w.segmentAt q := by
  unfold segmentAt
  split
  next hq => simp [SendWindow.insertSegments, hq]
  next hq =>
    have hfind : (w.insertSegments seg).sendSegments.find? q = w.sendSegments.find? q :=
      OrdMap.find?_insert_of_ne _ _ hq
    rw [hfind]
    cases hp : w.sendSegments.find? q with
    | none => rfl
    | some p =>
      obtain ⟨old, hold, -⟩ := h.live q p hp
      simp only [Option.bind_some, hold, (h.fresh.heap_insertSegments hold seg).2]

/-! ### Operations that keep the pointers right -/

theorem Linked.ackSegments (h : w.Linked) (latestAck : Nat) : (w.ackSegments latestAck).Linked :=
  have hdrop := h.dropEntries (w.ackedSegments_sublist latestAck)
  ⟨hdrop.fresh, hdrop.live, hdrop.keyed⟩

theorem Linked.ackBuffers (h : w.Linked) (latestAck : Nat) : (w.ackBuffers latestAck).Linked := by
  rw [SendWindow.ackBuffers, foldl_ackBuffers]
  exact ⟨h.fresh, h.live, h.keyed⟩

theorem Linked.clear (h : w.Linked) : w.clear.Linked :=
  have habort : w.abortBuffers.Linked := ⟨h.fresh, h.live, h.keyed⟩
  habort.dropEntries (List.Sublist.refl _)

theorem Linked.cancelCtrlPktFromSegments (h : w.Linked) : w.cancelCtrlPktFromSegments.Linked :=
  h.dropEntries (w.entriesWith_sublist _)

theorem Linked.cancelFromBuffers (h : w.Linked) (index : Nat) :
    (w.cancelFromBuffers index).Linked :=
  have hdrop := h.dropEntries (w.entriesWith_sublist fun seg => seg.headSeqIndex = index)
  ⟨hdrop.fresh, hdrop.live, hdrop.keyed⟩

theorem Linked.appendToBuffers (h : w.Linked) {buffer : Buffer} {i : Nat} {w' : SendWindow}
    (he : w.appendToBuffers buffer = some (i, w')) : w'.Linked := by
  obtain ⟨-, -, rfl⟩ := of_appendToBuffers he
  exact ⟨h.fresh, h.live, h.keyed⟩

theorem Linked.advance (h : w.Linked) (b : SendBuffer) (seg : SendSegment) :
    (w.advance b seg).Linked := by
  have hinsert := h.insertSegments seg
  obtain ⟨index, offset, he, -⟩ := frame_advance w b seg
  rw [he]
  exact ⟨hinsert.fresh, hinsert.live, hinsert.keyed⟩

end Linked

end SendWindow

/-! ## The pointers of a tunnel -/

namespace Tunnel

variable {s : Tunnel}

@[simp] theorem win_park (x : Next × Tunnel) : (park x).win = x.2.win := by
  unfold park
  split <;> rfl

@[simp] theorem win_wakeReaders (s : Tunnel) (env : Env) : (s.wakeReaders env).win = s.win := by
  unfold wakeReaders
  split <;> rfl

theorem linked_insertCtrl (h : s.win.Linked) (pktType : PktType) (env : Env) :
    (s.insertCtrl pktType env).win.Linked :=
  h.insertSegments _

theorem linked_openLoop (h : s.win.Linked) : s.openLoop.2.win.Linked := by
  unfold openLoop
  split_ifs <;> exact h

theorem linked_openCall (h : s.win.Linked) (env : Env) : (s.openCall env).2.win.Linked := by
  unfold openCall
  split_ifs
  · exact h
  · exact h
  · exact h
  · exact h
  · exact linked_openLoop (linked_insertCtrl h _ _)

theorem linked_openWake (h : s.win.Linked) (env : Env) : (s.openWake env).2.win.Linked := by
  unfold openWake
  split
  · exact h
  split
  · exact h
  split
  · exact h
  split
  · exact linked_openLoop h
  next pkt queue _ =>
    simp only
    split
    · exact linked_openLoop h
    split
    · exact linked_openLoop h
    split
    · exact linked_openLoop ⟨h.fresh, h.live, h.keyed⟩
    · exact ⟨h.fresh, h.live, h.keyed⟩

theorem win_waitForOpenEnd (s : Tunnel) (err : TSError) : (s.waitForOpenEnd err).2.win = s.win := by
  unfold waitForOpenEnd
  split_ifs <;> rfl

theorem linked_closeTunnel (h : s.win.Linked) (sendFin : Bool) (env : Env) :
    (s.closeTunnel sendFin env).win.Linked := by
  unfold closeTunnel
  split_ifs
  · exact h
  · exact linked_insertCtrl (by rw [win_wakeReaders]; exact h.clear) _ _
  · rw [win_wakeReaders]
    exact h.clear

theorem linked_handleSyn (h : s.win.Linked) (pkt : TunnelPkt) (env : Env) :
    (s.handleSyn pkt env).2.win.Linked := by
  unfold handleSyn
  simp only
  split_ifs
  · exact h
  · exact h
  · exact h
  · exact h
  · exact h.insertSegments _

theorem win_handleFin (s : Tunnel) (pkt : TunnelPkt) (env : Env) :
    (s.handleFin pkt env).win = s.win.clear := by
  unfold handleFin
  simp only [win_wakeReaders]
  split
  · rfl
  · split <;> rfl

theorem linked_receivePacket (h : s.win.Linked) (pkt : TunnelPkt) (env : Env) :
    (s.receivePacket pkt env).2.win.Linked := by
  unfold receivePacket
  split
  · exact h
  · cases pkt.pktType with
    | syn => exact h
    | fin =>
      simp only [win_handleFin]
      exact h.clear
    | finAck =>
      simp only [handleFinAck]
      split_ifs
      · exact h
      · exact h
      · exact h.clear
    | synAck | ack | data =>
      simp only
      split_ifs <;> exact h

theorem linked_calls (h : s.win.Linked) (env : Env) :
    s.waitForOpenCall.2.win.Linked ∧ (s.closeCall env).2.win.Linked ∧
      (s.waitForCloseCall env).2.win.Linked ∧ (s.forceClose env).2.win.Linked := by
  refine ⟨?_, ?_, ?_, ?_⟩
  · unfold waitForOpenCall
    split_ifs
    · exact h
    · exact h
    · exact h
    · rw [win_waitForOpenEnd]
      exact h
  · unfold closeCall
    split_ifs
    · exact h
    · exact h
    · exact linked_closeTunnel h false env
    · exact linked_closeTunnel (s := { s with state := .closing }) h true env
  · unfold waitForCloseCall
    split_ifs
    · exact h
    · exact h
    · exact linked_closeTunnel h false env
    · exact linked_closeTunnel h true env
  · unfold forceClose
    split_ifs
    · exact h
    · exact h
    · exact h
    · exact linked_closeTunnel h false env
    · exact linked_closeTunnel h true env

theorem linked_resume (h : s.win.Linked) (env : Env) (pc : ThreadPc) :
    (s.resume env pc).2.win.Linked := by
  cases pc with
  | openWait => exact linked_openWake h env
  | waitForOpenWait =>
    simp only [resume, waitForOpenWake]
    split
    · rwa [win_waitForOpenEnd]
    · rwa [win_waitForOpenEnd]
    · split_ifs
      · exact h
      · rwa [win_waitForOpenEnd]
  | closeWait =>
    simp only [resume, closeWake]
    split
    · exact h
    · exact h
    · split_ifs <;> exact h
  | waitForCloseWait =>
    simp only [resume, waitForCloseWake]
    split
    · exact h
    · exact h
    · split_ifs <;> exact h
  | cancelCtrlPkt err => exact h.cancelCtrlPktFromSegments
  | threeWayAck pkt pc =>
    cases pc with
    | testAck | testSeq | relock =>
      simp only [resume, handleThreeWayAck]
      split_ifs <;> exact h
    | sync => exact ⟨h.fresh, h.live, h.keyed⟩
    | setState => exact h
    | cancelCtrlPkt => exact h.cancelCtrlPktFromSegments
  | handleAck pkt pc =>
    cases pc with
    | test =>
      simp only [resume, handleAck]
      split_ifs <;> exact h
    | segments => exact h.ackSegments _
    | buffers => exact h.ackBuffers _
  | handleData pkt => exact h

theorem linked_tunnelStep {t : Tunnel} {op : TunnelOp × Env} (h : s.win.Linked)
    (he : tunnelStep s op = some t) : t.win.Linked := by
  obtain ⟨op, env⟩ := op
  obtain ⟨hwait, hclose, hwaitClose, hforce⟩ := linked_calls h env
  cases op with
  | resume pc =>
    obtain ⟨-, he⟩ := Option.ite_none_right_eq_some.1 he
    obtain rfl := Option.some.inj he
    rw [win_park]
    exact linked_resume (s := { s with threads := s.threads.erase pc }) h env pc
  | openCall =>
    obtain rfl := Option.some.inj he
    simpa using linked_openCall h env
  | waitForOpen =>
    obtain rfl := Option.some.inj he
    simpa using hwait
  | close =>
    obtain rfl := Option.some.inj he
    simpa using hclose
  | waitForClose =>
    obtain rfl := Option.some.inj he
    simpa using hwaitClose
  | forceClose =>
    obtain rfl := Option.some.inj he
    simpa using hforce
  | handleSyn pkt =>
    obtain rfl := Option.some.inj he
    simpa using linked_handleSyn h pkt env
  | receivePacket pkt =>
    obtain rfl := Option.some.inj he
    simpa using linked_receivePacket h pkt env

theorem linked_serverStep {t : Tunnel} {op : ServerOp × Env} (h : s.win.Linked)
    (he : serverStep s op = some t) : t.win.Linked := by
  obtain ⟨op, env⟩ := op
  cases op with
  | thread op => exact linked_tunnelStep h he
  | write buffer =>
    obtain ⟨-, he⟩ := Option.ite_none_right_eq_some.1 he
    obtain ⟨⟨i, w⟩, ha, rfl⟩ := Option.map_eq_some_iff.1 he
    exact h.appendToBuffers ha
  | writerSend =>
    obtain ⟨-, he⟩ := Option.ite_none_right_eq_some.1 he
    obtain ⟨b, -, rfl⟩ := Option.map_eq_some_iff.1 he
    exact h.advance b _
  | retry key maxRound =>
    obtain ⟨p, hp, rfl⟩ := Option.map_eq_some_iff.1 he
    exact h.reschedule hp _ _ _
  | cancel index =>
    obtain rfl := Option.some.inj he
    exact h.cancelFromBuffers index
  | read len =>
    obtain ⟨-, he⟩ := Option.ite_none_right_eq_some.1 he
    obtain ⟨x, -, rfl⟩ := Option.map_eq_some_iff.1 he
    exact h

/-! ## The SYN handled again -/

/-- The handshake is over. -/
def Established (s : Tunnel) : Prop :=
  s.state = .opened ∨ s.state = .closing ∨ s.state = .closeWait ∨ s.state = .closed

/-- The stream received and the DATA segments that are not acknowledged are as before. -/
structure Undisturbed (s t : Tunnel) : Prop where
  curAck : t.recv.curAck = s.recv.curAck
  headSeq : t.recv.headSeq = s.recv.headSeq
  recvSegments : t.recv.recvSegments = s.recv.recvSegments
  sendSegments : ∀ q seg, s.win.segmentAt q = some seg → seg.pktType = .data →
    t.win.segmentAt q = some seg

/-- The packet names no tunnel of the client, or nothing has come in since the SYN, and no DATA
segment waits at `curSeq` unless the SYN_ACK cannot be made. -/
def StillFresh (s : Tunnel) (syn : TunnelPkt) (env : Env) : Prop :=
  syn.srcVtId = 0 ∨
    s.recv.curAck = syn.seqNum + 1 ∧ s.recv.headSeq = syn.seqNum + 1 ∧
      (env.alloc = true → env.spawned = true →
        ∀ seg, s.win.segmentAt s.win.curSeq = some seg → seg.pktType ≠ .data)

theorem undisturbed_handleSyn_iff (h : s.win.Linked) {syn : TunnelPkt} (hsyn : syn.pktType = .syn)
    (env : Env) : s.Undisturbed (s.handleSyn syn env).2 ↔ s.StillFresh syn env := by
  unfold handleSyn StillFresh
  rw [if_neg (by simp [hsyn])]
  simp only
  split
  next hzero => exact iff_of_true ⟨rfl, rfl, rfl, fun _ _ h _ => h⟩ (.inl hzero)
  next hzero =>
    simp only [hzero, false_or]
    split
    next halloc =>
      have halloc : env.alloc = false := by simpa using halloc
      constructor
      · rintro ⟨hack, hhead, -, -⟩
        exact ⟨hack.symm, hhead.symm, fun h => by simp [halloc] at h⟩
      · rintro ⟨hack, hhead, -⟩
        exact ⟨hack.symm, hhead.symm, rfl, fun _ _ h _ => h⟩
    next halloc =>
      split
      next hspawned =>
        have hspawned : env.spawned = false := by simpa using hspawned
        constructor
        · rintro ⟨hack, hhead, -, -⟩
          exact ⟨hack.symm, hhead.symm, fun _ h => by simp [hspawned] at h⟩
        · rintro ⟨hack, hhead, -⟩
          exact ⟨hack.symm, hhead.symm, rfl, fun _ _ h _ => h⟩
      next hspawned =>
        have hsent : ∀ q, (s.win.insertSegments (ctrlSegment .synAck s.win.curSeq
            (syn.seqNum + 1) env.now env.interval)).segmentAt q =
            if q = s.win.curSeq then some (ctrlSegment .synAck s.win.curSeq (syn.seqNum + 1)
              env.now env.interval) else s.win.segmentAt q :=
          h.segmentAt_insertSegments _
        constructor
        · rintro ⟨hack, hhead, -, hsend⟩
          refine ⟨hack.symm, hhead.symm, fun _ _ seg hseg hdata => ?_⟩
          -- the SYN_ACK is what stands at `curSeq` now
          have hnow := hsend _ seg hseg hdata
          change (s.win.insertSegments _).segmentAt _ = _ at hnow
          rw [hsent, if_pos rfl] at hnow
          obtain rfl := Option.some.inj hnow
          cases hdata
        · rintro ⟨hack, hhead, hnone⟩
          refine ⟨hack.symm, hhead.symm, rfl, fun q seg hseg hdata => ?_⟩
          change (s.win.insertSegments _).segmentAt _ = _
          rw [hsent]
          by_cases hq : q = s.win.curSeq
          · subst hq
            exact absurd hdata (hnone (by simpa using halloc) (by simpa using hspawned) seg hseg)
          · rw [if_neg hq]
            exact hseg

end Tunnel

/-- A copy of the SYN that is handled after the handshake leaves the tunnel undisturbed. -/
def SynHarmless (syn : TunnelPkt) (s : Tunnel) (op : ServerOp × Env) : Prop :=
  op.1 = .thread (.handleSyn syn) → s.Established → s.Undisturbed (s.handleSyn syn op.2).2

/-- A copy of the SYN is handled after the handshake only while the tunnel is as the handshake
left it. -/
def SynInTime (syn : TunnelPkt) (s : Tunnel) (op : ServerOp × Env) : Prop :=
  op.1 = .thread (.handleSyn syn) → s.Established → s.StillFresh syn op.2

/-- In every run of a tunnel that the server made for a SYN, the copies of this SYN are
harmless exactly if they all come in time. -/
theorem synHarmless_iff {syn : TunnelPkt} (hsyn : syn.pktType = .syn)
    {maxSegmentSize maxWindowSize : Nat} {tr : List (Tunnel × (ServerOp × Env))} {s : Tunnel}
    (h : Run serverStep (.server syn.srcVtId maxSegmentSize maxWindowSize) tr s) :
    Meets (SynHarmless syn) tr ↔ Meets (SynInTime syn) tr := by
  refine h.meets_iff_meets (I := fun s => s.win.Linked) (SendWindow.linked_opened _ _ _) ?_ ?_
  · rintro s op t hs -
    exact imp_congr_right fun _ => imp_congr_right fun _ =>
      Tunnel.undisturbed_handleSyn_iff hs hsyn op.2
  · exact fun s op t hs _ he => Tunnel.linked_serverStep hs he

/-- The handshake that `synPkt` begins, and the SYN once more. -/
def synTwice : List (ServerOp × Env) :=
  [.handleSyn synPkt, .receivePacket lastAckPkt, .resume (.threeWayAck lastAckPkt .testAck),
    .resume (.threeWayAck lastAckPkt .testSeq), .resume (.threeWayAck lastAckPkt .sync),
    .resume (.threeWayAck lastAckPkt .setState), .resume (.threeWayAck lastAckPkt .cancelCtrlPkt),
    .handleSyn synPkt].map fun op => (.thread op, calmEnv)

theorem synHarmless_iff_synTwice :
    ∃ s, exec serverStep (.server 9 4 8) synTwice = some s ∧ s.Established ∧
      (Meets (SynHarmless synPkt) (trace serverStep (.server 9 4 8) synTwice).reverse ↔
        Meets (SynInTime synPkt) (trace serverStep (.server 9 4 8) synTwice).reverse) :=
  ⟨_, rfl, .inl rfl, synHarmless_iff rfl (run_trace rfl)⟩

def firstDataPkt : TunnelPkt := ⟨.data, 9, 41, 1, 8, [10, 11, 12, 13]⟩

/-- Four bytes arrive between the handshake and the second SYN. -/
def synAfterData : List (ServerOp × Env) :=
  [.handleSyn synPkt, .receivePacket lastAckPkt, .resume (.threeWayAck lastAckPkt .testAck),
    .resume (.threeWayAck lastAckPkt .testSeq), .resume (.threeWayAck lastAckPkt .sync),
    .resume (.threeWayAck lastAckPkt .setState), .resume (.threeWayAck lastAckPkt .cancelCtrlPkt),
    .receivePacket firstDataPkt, .resume (.handleData firstDataPkt),
    .handleSyn synPkt].map fun op => (.thread op, calmEnv)

/-- The acknowledged number goes back from 45 to 41. -/
theorem not_synHarmless_synAfterData :
    ¬∀ tr s, Run serverStep (.server 9 4 8) tr s → Meets (SynHarmless synPkt) tr := by
  intro h
  have he : exec serverStep (.server 9 4 8) synAfterData = some _ := rfl
  have hlast := h _ _ (run_trace he) _ List.mem_cons_self rfl (.inl rfl)
  exact absurd hlast.curAck (by decide)

end PersonalCloud.Ts2.Transport
