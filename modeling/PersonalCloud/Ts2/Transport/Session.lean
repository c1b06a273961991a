import PersonalCloud.Ts2.Transport.Reading
import PersonalCloud.Ts2.Transport.SendStream
import PersonalCloud.Ts2.Transport.WriteBuffers

/-!
# A sender, a receiver and the packets between them

One direction of the traffic between two tunnels, with all that may end it: Writes that run out
of time, Close at either end, and a network that loses, repeats and reorders. The sender is
`WriteState`, the receiver `Tunnel`. A DATA packet or a FIN arrives only if it was sent, an
acknowledgement only if the receiver sent it, and whatever else the two exchange is left open.

## Main results

* `Tunnel.recvStep_of_tunnelStep` — what the steps of a tunnel do to its receiving window.
* `Session.sound_of_run` — in every reachable state the DATA packets sent do not overlap, and the
  receiver holds no others.
-/

namespace PersonalCloud.Ts2.Transport

open PersonalCloud.Lib

/-- What a packet on the way to the receiver says of the stream. -/
structure SentPkt where
  pktType : PktType
  seqNum : Nat
  data : List UInt8
  deriving DecidableEq, Repr

def SendSegment.sentPkt (seg : SendSegment) : SentPkt :=
  ⟨seg.pktType, seg.seqNum, seg.payload⟩

def TunnelPkt.sentPkt (pkt : TunnelPkt) : SentPkt :=
  ⟨pkt.pktType, pkt.seqNum, pkt.data⟩

namespace WriteState

/-- The packet that a step of the sender gives to the front end. -/
def emits (s : WriteState) : WriteOp → Option SentPkt
  | .writerSend ackNum now interval alloc =>
    if s.writer = .ready ∧ !s.isWriterStop ∧ s.win.isAvailableBufferToSend ∧ alloc then
      (s.win.sendBuffers.find? s.win.currBufferIndex).map fun b =>
        (s.win.nextSegment b ackNum now interval).sentPkt
    else none
  | .retry key _ _ _ => ((s.win.retrySegments.find? key).bind s.win.heap).map SendSegment.sentPkt
  | .insertFin ackNum now interval =>
    match s.holder with
    | some (_, .insertFin seqNum) => some (ctrlSegment .fin seqNum ackNum now interval).sentPkt
    | _ => none
  | _ => none

end WriteState

/-! ## The system -/

/-- `readers` counts the calls of Read that have passed the test of the state. -/
structure Session where
  sender : WriteState
  sent : List SentPkt
  receiver : Tunnel
  acksSent : List Nat
  readers : Nat

inductive SessionOp where
  | send (op : WriteOp)
  | receive (op : TunnelOp) (env : Env)
  | readCheck
  | readTurn (len : Nat)
  deriving DecidableEq, Repr

namespace Session

/-- Both ends after the handshake, or the receiver before it knows that the handshake is over. -/
def start (halfOpen : Bool) (seq rmtSeq sendCapacity recvCapacity size : Nat) : Session where
  sender := .opened seq sendCapacity size
  sent := []
  receiver := {
    state := if halfOpen then .halfOpen else .opened
    win := .opened rmtSeq recvCapacity size
    recv := .opened seq recvCapacity
    rmtVtId := 0
    openQueue := []
    threads := [] }
  acksSent := []
  readers := 0

/-- The sender hears an acknowledgement that was sent. -/
def AckHeard (s : Session) : WriteOp → Prop
  | .receiveAck latestAck => latestAck ∈ s.acksSent
  | _ => True

instance (s : Session) (op : WriteOp) : Decidable (s.AckHeard op) := by
  unfold AckHeard
  split <;> infer_instance

/-- The receiver gets a DATA packet or a FIN that was sent. `handleSyn` is called for a tunnel
that is new. -/
def Honest (s : Session) : TunnelOp → Prop
  | .receivePacket pkt =>
    (pkt.pktType = .data ∨ pkt.pktType = .fin → pkt.sentPkt ∈ s.sent) ∧ pkt.seqNum < 2 ^ 63
  | .handleSyn _ => False
  | _ => True

instance (s : Session) (op : TunnelOp) : Decidable (s.Honest op) := by
  unfold Honest
  split <;> infer_instance

/-- The acknowledgements that the receiver sends. -/
def acks (s : Session) : TunnelOp → List Nat
  | .resume (.handleData pkt) =>
    (s.receiver.recv.handleData ⟨pkt.seqNum, pkt.data⟩).2.map AckPkt.ackNum
  | _ => []

def step (s : Session) : SessionOp → Option Session
  | .send op =>
    if s.AckHeard op then
      (writeStep s.sender op).map fun sender =>
        { s with sender := sender, sent := s.sent ++ (s.sender.emits op).toList }
    else none
  | .receive op env =>
    if s.Honest op ∧ (env.readers → s.readers ≠ 0) then
      (tunnelStep s.receiver (op, env)).map fun receiver =>
        { s with receiver := receiver, acksSent := s.acksSent ++ s.acks op }
    else none
  | .readCheck =>
    some (if s.receiver.readCheck = .ok then { s with readers := s.readers + 1 } else s)
  | .readTurn len =>
    if s.readers = 0 then none
    else
      (s.receiver.recv.read len).map fun x =>
        { s with receiver := { s.receiver with recv := x.2.2 }, readers := s.readers - 1 }

end Session

/-! ## What is sent -/

/-- The DATA packets sent end where the next one begins or before and do not overlap, and what
may be sent again was sent. -/
structure SendWindow.Stamped (sent : List SentPkt) (w : SendWindow) : Prop where
  index_le : w.currBufferIndex ≤ w.nextBufferIndex
  buffer_le : ∀ i b, w.sendBuffers.find? i = some b → i + b.size ≤ w.nextBufferIndex
  again : ∀ p seg, w.heap p = some seg → seg.sentPkt ∈ sent
  ends : ∀ x ∈ sent, x.pktType = .data → x.seqNum + x.data.length ≤ w.sentEnd
  apart : ∀ x ∈ sent, ∀ y ∈ sent, x.pktType = .data → y.pktType = .data →
    x = y ∨ x.seqNum + x.data.length ≤ y.seqNum ∨ y.seqNum + y.data.length ≤ x.seqNum

namespace SendWindow

variable {sent : List SentPkt} {w w' : SendWindow}

theorem stamped_opened (seq capacity size : Nat) : (opened seq capacity size).Stamped [] where
  index_le := Nat.le_refl _
  buffer_le := by simp [opened]
  again := nofun
  ends := nofun
  apart := nofun

/-- A step that leaves the numbers, and of the buffers and segments some. -/
structure Shrinks (w w' : SendWindow) : Prop where
  index : w'.currBufferIndex = w.currBufferIndex
  offset : w'.currBufferOffset = w.currBufferOffset
  next : w'.nextBufferIndex = w.nextBufferIndex
  buffers : ∀ i b', w'.sendBuffers.find? i = some b' →
    ∃ b, w.sendBuffers.find? i = some b ∧ b.size = b'.size
  heap : ∀ p seg, w'.heap p = some seg → w.heap p = some seg

theorem Shrinks.refl (w : SendWindow) : w.Shrinks w where
  index := rfl
  offset := rfl
  next := rfl
  buffers := fun _ b hb => ⟨b, hb, rfl⟩
  heap := fun _ _ => id

theorem shrinks_dropEntries (w : SendWindow) (xs : List (Nat × SegPtr)) :
    w.Shrinks (w.dropEntries xs) := by
  have hheap : ∀ p seg, (w.dropEntries xs).heap p = some seg → w.heap p = some seg :=
    fun _ _ => heap_dropEntries
  obtain ⟨heap, send, retry, he⟩ := frame_dropEntries w xs
  rw [he] at hheap ⊢
  exact ⟨rfl, rfl, rfl, fun _ b hb => ⟨b, hb, rfl⟩, hheap⟩

theorem shrinks_cancelFromBuffers (w : SendWindow) (index : Nat) :
    w.Shrinks (w.cancelFromBuffers index) := by
  have h := shrinks_dropEntries w (w.entriesWith fun seg => seg.headSeqIndex = index)
  refine ⟨h.index, h.offset, h.next, fun i b' hb' => ?_, h.heap⟩
  have hb' : ((w.cancelSegments index).sendBuffers.erase index).find? i = some b' := hb'
  rw [OrdMap.find?_erase] at hb'
  split_ifs at hb'
  exact h.buffers i b' hb'

theorem shrinks_ackSegments (w : SendWindow) (latestAck : Nat) :
    w.Shrinks (w.ackSegments latestAck) :=
  have h := shrinks_dropEntries w (w.ackedSegments latestAck)
  ⟨h.index, h.offset, h.next, h.buffers, h.heap⟩

theorem find?_foldl_erase {m : OrdMap Nat SendBuffer} {i : Nat} {b : SendBuffer}
    {xs : List (Nat × SendBuffer)}
    (h : (xs.foldl (fun m x => m.erase x.1) m).find? i = some b) : m.find? i = some b := by
  induction xs generalizing m with
  | nil => exact h
  | cons x xs ih =>
    have h := ih h
    rw [OrdMap.find?_erase] at h
    split_ifs at h
    exact h

theorem shrinks_ackBuffers (w : SendWindow) (latestAck : Nat) :
    w.Shrinks (w.ackBuffers latestAck) := by
  rw [SendWindow.ackBuffers, foldl_ackBuffers]
  exact ⟨rfl, rfl, rfl, fun i b hb => ⟨b, find?_foldl_erase hb, rfl⟩, fun _ _ => id⟩

theorem shrinks_abortBuffers (w : SendWindow) : w.Shrinks w.abortBuffers := by
  refine ⟨rfl, rfl, rfl, fun i b' hb' => ?_, fun _ _ => id⟩
  rw [SendWindow.abortBuffers, OrdMap.find?_mapVal, Option.map_eq_some_iff] at hb'
  obtain ⟨b, hb, rfl⟩ := hb'
  exact ⟨b, hb, rfl⟩

theorem Stamped.shrinks (h : w.Stamped sent) (hw : w.Shrinks w') : w'.Stamped sent where
  index_le := by
    rw [hw.index, hw.next]
    exact h.index_le
  buffer_le i b' hb' := by
    obtain ⟨b, hb, hsize⟩ := hw.buffers i b' hb'
    rw [hw.next, ← hsize]
    exact h.buffer_le i b hb
  again p seg hp := h.again p seg (hw.heap p seg hp)
  ends := by
    rw [sentEnd, hw.index, hw.offset]
    exact h.ends
  apart := h.apart

theorem Stamped.appendToBuffers (h : w.Stamped sent) {buffer : Buffer} {i : Nat}
    (ha : w.appendToBuffers buffer = some (i, w')) : w'.Stamped sent := by
  obtain ⟨-, -, rfl⟩ := of_appendToBuffers ha
  have hindex := h.index_le
  refine ⟨?_, ?_, h.again, fun x hx hd => (h.ends x hx hd).trans ?_, h.apart⟩
  · simp only
    split <;> omega
  · intro j b hb
    simp only [OrdMap.find?_insert] at hb
    split_ifs at hb with hj
    · obtain rfl := Option.some.inj hb
      exact (congrArg (· + _) hj).le
    · exact (h.buffer_le j b hb).trans (Nat.le_add_right _ _)
  · simp only [sentEnd]
    split <;> omega

/-- A segment that is cut begins where all others have ended. -/
theorem Stamped.advance (h : w.Stamped sent) {b : SendBuffer}
    (hb : w.sendBuffers.find? w.currBufferIndex = some b) {ackNum now interval : Nat}
    {seg : SendSegment} (hseg : seg = w.nextSegment b ackNum now interval) :
    (w.advance b seg).Stamped (sent ++ [seg.sentPkt]) := by
  have hseq : seg.seqNum = w.sentEnd := by rw [hseg]; rfl
  have hlen : seg.payload.length ≤ seg.dataSize := by
    rw [hseg]
    exact List.length_take_le _ _
  have hsent := sentEnd_advance w b seg
  have hbuf := h.buffer_le _ b hb
  have hnew : ∀ x ∈ sent, x.pktType = .data → x.seqNum + x.data.length ≤ seg.sentPkt.seqNum :=
    fun x hx hd => (h.ends x hx hd).trans_eq hseq.symm
  have hindex : (w.advance b seg).currBufferIndex ≤ w.nextBufferIndex := by
    simp only [SendWindow.advance]
    split
    · exact hbuf
    · exact h.index_le
  have hagain : ∀ p seg', (w.insertSegments seg).heap p = some seg' →
      seg'.sentPkt ∈ sent ++ [seg.sentPkt] := by
    intro p seg' hp
    by_cases hpp : p = w.nextPtr
    · obtain rfl : seg = seg' := by simpa [hpp] using hp
      simp
    · have hp : w.heap p = some seg' := by
        simpa [SendWindow.insertSegments, Function.update_of_ne hpp] using hp
      exact List.mem_append_left _ (h.again p seg' hp)
  obtain ⟨index, offset, he, -⟩ := frame_advance w b seg
  rw [he] at hsent hindex ⊢
  refine ⟨hindex, h.buffer_le, hagain, ?_, ?_⟩
  · rintro x hx hd
    rw [hsent]
    rcases List.mem_append.1 hx with hx | hx
    · exact (h.ends x hx hd).trans (Nat.le_add_right _ _)
    · obtain rfl := List.mem_singleton.1 hx
      simp only [SendSegment.sentPkt]
      omega
  · intro x hx y hy hxd hyd
    rcases List.mem_append.1 hx with hx | hx <;> rcases List.mem_append.1 hy with hy | hy
    · exact h.apart x hx y hy hxd hyd
    · obtain rfl := List.mem_singleton.1 hy
      exact .inr (.inl (hnew x hx hxd))
    · obtain rfl := List.mem_singleton.1 hx
      exact .inr (.inr (hnew y hy hyd))
    · exact .inl ((List.mem_singleton.1 hx).trans (List.mem_singleton.1 hy).symm)

/-- A packet that is no DATA packet, or one that was sent before, may be sent. -/
theorem Stamped.snoc (h : w.Stamped sent) {x : SentPkt} (hx : x.pktType = .data → x ∈ sent) :
    w.Stamped (sent ++ [x]) := by
  have hold : ∀ y ∈ sent ++ [x], y.pktType = .data → y ∈ sent := by
    intro y hy hd
    rcases List.mem_append.1 hy with hy | hy
    · exact hy
    · obtain rfl := List.mem_singleton.1 hy
      exact hx hd
  exact ⟨h.index_le, h.buffer_le, fun p seg hp => List.mem_append_left _ (h.again p seg hp),
    fun y hy hd => h.ends y (hold y hy hd) hd,
    fun y hy z hz hyd hzd => h.apart y (hold y hy hyd) z (hold z hz hzd) hyd hzd⟩

theorem Stamped.insertCtrl (h : w.Stamped sent) {seg : SendSegment}
    (hseg : seg.sentPkt ∈ sent) : (w.insertSegments seg).Stamped sent := by
  refine ⟨h.index_le, h.buffer_le, fun p seg' hp => ?_, h.ends, h.apart⟩
  by_cases hpp : p = w.nextPtr
  · obtain rfl : seg = seg' := by simpa [hpp] using hp
    exact hseg
  · refine h.again p seg' ?_
    simpa [SendWindow.insertSegments, Function.update_of_ne hpp] using hp

theorem Stamped.reschedule (h : w.Stamped sent) (p : SegPtr) (now maxRound interval : Nat) :
    (w.reschedule p now maxRound interval).Stamped sent := by
  have hagain : ∀ p₁ seg₁, (w.reschedule p now maxRound interval).heap p₁ = some seg₁ →
      seg₁.sentPkt ∈ sent := by
    intro p₁ seg₁ hp₁
    rw [heap_reschedule] at hp₁
    obtain ⟨seg₂, hseg₂, rfl⟩ := Option.map_eq_some_iff.1 hp₁
    split
    · exact h.again p₁ seg₂ hseg₂
    · exact h.again p₁ seg₂ hseg₂
  unfold SendWindow.reschedule at hagain ⊢
  split at hagain
  · exact h
  · exact ⟨h.index_le, h.buffer_le, hagain, h.ends, h.apart⟩

end SendWindow

namespace WriteState

variable {s t : WriteState} {sent : List SentPkt}

/-- A step of the sender keeps what is sent apart. -/
theorem stamped_writeStep (h : s.win.Stamped sent) {op : WriteOp} (he : writeStep s op = some t) :
    t.win.Stamped (sent ++ (s.emits op).toList) := by
  have hsilent : ∀ {w : SendWindow}, s.win.Shrinks w → w.Stamped (sent ++ []) := fun hw => by
    rw [List.append_nil]
    exact h.shrinks hw
  have hcleanup : ∀ c i err, s.win.Shrinks (s.cleanup c i err).win := by
    intro c i err
    simp only [cleanup, setCall]
    split
    · exact SendWindow.shrinks_cancelFromBuffers _ _
    · exact .refl _
  cases op with
  | write c bytes =>
    simp only [writeStep, write] at he
    split at he
    · split_ifs at he <;> obtain rfl := Option.some.inj he <;> exact hsilent (.refl _)
    · cases he
  | append c alloc =>
    simp only [writeStep, append] at he
    split at he
    · split at he
      · obtain rfl := Option.some.inj he
        exact hsilent (.refl _)
      next happ =>
        split at he <;> obtain rfl := Option.some.inj he
        · exact (List.append_nil sent).symm ▸ h.appendToBuffers happ
        · exact hsilent (.refl _)
    · cases he
  | spawn c spawned =>
    simp only [writeStep, spawn] at he
    split at he
    · split_ifs at he <;> obtain rfl := Option.some.inj he
      · exact hsilent (SendWindow.shrinks_cancelFromBuffers _ _)
      · exact hsilent (SendWindow.shrinks_cancelFromBuffers _ _)
      · exact hsilent (.refl _)
      · exact hsilent (.refl _)
    · cases he
  | check c =>
    simp only [writeStep, check] at he
    split at he
    · split at he
      · obtain rfl := Option.some.inj he
        exact hsilent (hcleanup _ _ _)
      · split_ifs at he <;> obtain rfl := Option.some.inj he
        · exact hsilent (hcleanup _ _ _)
        · exact hsilent (.refl _)
    · cases he
  | wake c r =>
    simp only [writeStep, wake] at he
    split at he
    · split_ifs at he <;> obtain rfl := Option.some.inj he <;> exact hsilent (hcleanup _ _ _)
    · cases he
  | writerWindow =>
    simp only [writeStep, writerWindow] at he
    split_ifs at he <;> obtain rfl := Option.some.inj he <;> exact hsilent (.refl _)
  | writerSend ackNum now interval alloc =>
    simp only [writeStep, writerSend] at he
    split at he
    · cases he
    next hready =>
      rw [not_not] at hready
      split at he
      next hstop =>
        obtain rfl := Option.some.inj he
        have hnone : s.emits (.writerSend ackNum now interval alloc) = none := by
          simp [emits, hstop]
        rw [hnone]
        exact hsilent (.refl _)
      next hstop =>
        split at he
        · cases he
        next havail =>
          split at he
          next hfind =>
            obtain rfl := Option.some.inj he
            have hnone : s.emits (.writerSend ackNum now interval alloc) = none := by
              simp [emits, hfind]
            rw [hnone]
            exact hsilent (.refl _)
          next b hb =>
            split at he
            next halloc =>
              obtain rfl := Option.some.inj he
              have hnone : s.emits (.writerSend ackNum now interval alloc) = none := by
                simp_all [emits]
              rw [hnone]
              exact hsilent (.refl _)
            next halloc =>
              obtain rfl := Option.some.inj he
              have hsome : s.emits (.writerSend ackNum now interval alloc) =
                  some (s.win.nextSegment b ackNum now interval).sentPkt := by
                simp_all [emits]
              rw [hsome]
              exact h.advance hb rfl
  | retry key now maxRound interval =>
    simp only [writeStep, retry] at he
    split_ifs at he
    obtain ⟨p, hp, he⟩ := Option.bind_eq_some_iff.1 he
    obtain ⟨seg, hseg, rfl⟩ := Option.map_eq_some_iff.1 he
    have hsome : s.emits (.retry key now maxRound interval) = some seg.sentPkt := by
      simp [emits, hp, hseg]
    rw [hsome]
    exact (h.reschedule p now maxRound interval).snoc fun _ => h.again p seg hseg
  | receiveAck latestAck =>
    simp only [writeStep, receiveAck] at he
    split_ifs at he
    obtain rfl := Option.some.inj he
    exact hsilent (.refl _)
  | ackTest latestAck =>
    simp only [writeStep, ackTest] at he
    split_ifs at he <;> obtain rfl := Option.some.inj he <;> exact hsilent (.refl _)
  | ackSegments latestAck =>
    simp only [writeStep, ackSegments] at he
    split_ifs at he
    obtain rfl := Option.some.inj he
    exact hsilent (SendWindow.shrinks_ackSegments _ _)
  | ackBuffers latestAck =>
    simp only [writeStep, ackBuffers] at he
    split_ifs at he
    obtain rfl := Option.some.inj he
    exact hsilent (SendWindow.shrinks_ackBuffers _ _)
  | close =>
    simp only [writeStep, close] at he
    split_ifs at he <;> obtain rfl := Option.some.inj he <;> exact hsilent (.refl _)
  | handleFin =>
    simp only [writeStep, handleFin] at he
    split_ifs at he
    obtain rfl := Option.some.inj he
    exact hsilent (.refl _)
  | handleFinAck =>
    simp only [writeStep, handleFinAck] at he
    split_ifs at he
    obtain rfl := Option.some.inj he
    exact hsilent (.refl _)
  | clearBuffers =>
    simp only [writeStep, clearBuffers] at he
    split at he
    · obtain rfl := Option.some.inj he
      exact hsilent (SendWindow.shrinks_abortBuffers _)
    · cases he
  | clearSegments =>
    simp only [writeStep, clearSegments] at he
    split at he
    · obtain rfl := Option.some.inj he
      exact hsilent (SendWindow.shrinks_dropEntries _ _)
    · cases he
  | finish alloc =>
    simp only [writeStep, finish] at he
    split at he
    · split_ifs at he <;> obtain rfl := Option.some.inj he <;> exact hsilent (.refl _)
    · obtain rfl := Option.some.inj he
      exact hsilent (.refl _)
    · obtain rfl := Option.some.inj he
      exact hsilent (.refl _)
    · obtain rfl := Option.some.inj he
      exact hsilent (.refl _)
    · cases he
  | insertFin ackNum now interval =>
    simp only [writeStep, insertFin] at he
    split at he
    next seqNum hholder =>
      obtain rfl := Option.some.inj he
      have hsome : s.emits (.insertFin ackNum now interval) =
          some (ctrlSegment .fin seqNum ackNum now interval).sentPkt := by
        simp [emits, hholder]
      rw [hsome]
      exact (h.snoc (by simp [SendSegment.sentPkt, ctrlSegment])).insertCtrl (by simp)
    · cases he
  | closeTimeout =>
    simp only [writeStep, closeTimeout] at he
    split_ifs at he
    obtain rfl := Option.some.inj he
    exact hsilent (.refl _)
  | transmit i =>
    obtain rfl := Option.some.inj he
    exact hsilent (.refl _)

end WriteState

/-! ## What the receiver does with it -/

/-- The packet that a thread has in hand. -/
def ThreadPc.pkt? : ThreadPc → Option TunnelPkt
  | threeWayAck pkt _ | handleAck pkt _ | handleData pkt => some pkt
  | _ => none

/-- A thread that handles one of the packets of `P` and is not in Open. -/
structure ThreadPc.Fed (P : TunnelPkt → Prop) (pc : ThreadPc) : Prop where
  notOpening : pc ≠ .openWait
  pkt : ∀ pkt, pc.pkt? = some pkt → P pkt
  data : ∀ pkt, pc = .handleData pkt → pkt.pktType = .data

namespace Tunnel

/-- The tunnel is past Open, and its threads handle packets of `P`. -/
structure Fed (P : TunnelPkt → Prop) (s : Tunnel) : Prop where
  notNull : s.state ≠ .null
  notOpening : s.state ≠ .opening
  threads : ∀ pc ∈ s.threads, pc.Fed P

/-- A step of a thread of such a tunnel that does `R` to the receiving window. -/
structure Proceeds (P : TunnelPkt → Prop) (R : RecvWindow → Prop) (s : Tunnel)
    (x : Next × Tunnel) : Prop where
  next : ∀ pc, x.1 = .goto pc → pc.Fed P
  notNull : x.2.state ≠ .null
  notOpening : x.2.state ≠ .opening
  threads : x.2.threads = s.threads
  recv : R x.2.recv

variable {P : TunnelPkt → Prop} {R : RecvWindow → Prop} {s t : Tunnel}

theorem Proceeds.park {x : Next × Tunnel} (h : Proceeds P R s x) (hs : s.Fed P) :
    (park x).Fed P ∧ R (park x).recv := by
  obtain ⟨next, t⟩ := x
  have hthreads := h.threads
  cases next with
  | done err =>
    exact ⟨⟨h.notNull, h.notOpening, fun pc hpc => hs.threads pc (hthreads ▸ hpc)⟩, h.recv⟩
  | goto pc =>
    refine ⟨⟨h.notNull, h.notOpening, fun pc' hpc' => ?_⟩, h.recv⟩
    rcases List.mem_cons.1 hpc' with rfl | hpc'
    · exact h.next _ rfl
    · exact hs.threads pc' (hthreads ▸ hpc')

/-- What all steps but two do to the receiving window. -/
def Kept (r r' : RecvWindow) : Prop :=
  r'.headSeq = r.headSeq ∧ r'.curAck = r.curAck ∧ r'.recvSegments = r.recvSegments

theorem wakeReaders_frame (s : Tunnel) (env : Env) :
    (s.wakeReaders env).state = s.state ∧ (s.wakeReaders env).threads = s.threads ∧
      Kept s.recv (s.wakeReaders env).recv := by
  unfold wakeReaders
  split <;> exact ⟨rfl, rfl, rfl, rfl, rfl⟩

theorem closeTunnel_frame (s : Tunnel) (sendFin : Bool) (env : Env) :
    (s.closeTunnel sendFin env).state = s.state ∧
      (s.closeTunnel sendFin env).threads = s.threads ∧
      Kept s.recv (s.closeTunnel sendFin env).recv := by
  unfold closeTunnel wakeReaders insertCtrl
  split_ifs <;> exact ⟨rfl, rfl, rfl, rfl, rfl⟩

/-- A thread that waits has no packet in hand. -/
theorem fed_waiting {pc : ThreadPc} (hpc : pc ≠ .openWait) (hpkt : pc.pkt? = none) : pc.Fed P where
  notOpening := hpc
  pkt := by simp [hpkt]
  data := by
    rintro pkt rfl
    cases hpkt

/-- A thread that has its packet from another one. -/
theorem fed_handling {pc : ThreadPc} {pkt : TunnelPkt} (hpkt : P pkt) (hpc : pc ≠ .openWait)
    (he : pc.pkt? = some pkt) (hdata : pc = .handleData pkt → pkt.pktType = .data) : pc.Fed P where
  notOpening := hpc
  pkt := fun _ he' => Option.some.inj (he.symm.trans he') ▸ hpkt
  data := by
    rintro pkt' rfl
    obtain rfl := Option.some.inj he
    exact hdata rfl

theorem Proceeds.done {err : TSError} (hnull : t.state ≠ .null) (hopening : t.state ≠ .opening)
    (hthreads : t.threads = s.threads) (hr : R t.recv) : Proceeds P R s (.done err, t) :=
  ⟨nofun, hnull, hopening, hthreads, hr⟩

theorem Proceeds.goto {pc : ThreadPc} (hpc : pc.Fed P) (hnull : t.state ≠ .null)
    (hopening : t.state ≠ .opening) (hthreads : t.threads = s.threads) (hr : R t.recv) :
    Proceeds P R s (.goto pc, t) :=
  ⟨fun _ he => Next.goto.inj he ▸ hpc, hnull, hopening, hthreads, hr⟩

theorem Fed.done (h : s.Fed P) (err : TSError) : Proceeds P (Kept s.recv) s (.done err, s) :=
  .done h.notNull h.notOpening rfl ⟨rfl, rfl, rfl⟩

theorem Fed.goto (h : s.Fed P) {pc : ThreadPc} (hpc : pc.Fed P) :
    Proceeds P (Kept s.recv) s (.goto pc, s) :=
  .goto hpc h.notNull h.notOpening rfl ⟨rfl, rfl, rfl⟩

theorem proceeds_openCall (h : s.Fed P) (env : Env) :
    Proceeds P (Kept s.recv) s (s.openCall env) := by
  unfold openCall
  split
  · exact h.goto (fed_waiting nofun rfl)
  · rw [if_pos h.notNull]
    exact h.goto (fed_waiting nofun rfl)

theorem proceeds_waitForOpenEnd (h : s.Fed P) (err : TSError) :
    Proceeds P (Kept s.recv) s (s.waitForOpenEnd err) := by
  unfold waitForOpenEnd
  split_ifs <;> exact h.goto (fed_waiting nofun rfl)

theorem proceeds_waitForOpenCall (h : s.Fed P) :
    Proceeds P (Kept s.recv) s s.waitForOpenCall := by
  unfold waitForOpenCall
  split_ifs
  · exact h.goto (fed_waiting nofun rfl)
  · exact h.goto (fed_waiting nofun rfl)
  · exact h.goto (fed_waiting nofun rfl)
  · exact proceeds_waitForOpenEnd h .ok

/-- Closing for good. -/
theorem proceeds_closed (s : Tunnel) (sendFin : Bool) (env : Env) (err : TSError) :
    Proceeds P (Kept s.recv) s (.done err, { s.closeTunnel sendFin env with state := .closed }) := by
  obtain ⟨-, hthreads, hrecv⟩ := closeTunnel_frame s sendFin env
  exact .done nofun nofun hthreads hrecv

theorem proceeds_closeCall (h : s.Fed P) (env : Env) :
    Proceeds P (Kept s.recv) s (s.closeCall env) := by
  unfold closeCall
  split_ifs
  · exact h.done .ok
  · exact h.done .wrongState
  · exact proceeds_closed s false env .ok
  · obtain ⟨hstate, hthreads, hrecv⟩ := closeTunnel_frame { s with state := .closing } true env
    exact .goto (fed_waiting nofun rfl) (by simp [hstate]) (by simp [hstate]) hthreads hrecv

theorem proceeds_waitForCloseCall (h : s.Fed P) (env : Env) :
    Proceeds P (Kept s.recv) s (s.waitForCloseCall env) := by
  unfold waitForCloseCall
  split_ifs
  · exact h.done .ok
  · exact h.done .wrongState
  · exact proceeds_closed s false env .ok
  · obtain ⟨-, hthreads, hrecv⟩ := closeTunnel_frame s true env
    exact .goto (fed_waiting nofun rfl) nofun nofun hthreads hrecv

theorem proceeds_forceClose (h : s.Fed P) (env : Env) :
    Proceeds P (Kept s.recv) s (s.forceClose env) := by
  unfold forceClose
  split_ifs
  · exact h.done .ok
  · exact .done nofun nofun rfl ⟨rfl, rfl, rfl⟩
  · exact .done nofun nofun rfl ⟨rfl, rfl, rfl⟩
  · exact proceeds_closed s false env .ok
  · exact proceeds_closed s true env .ok

/-- A FIN sets the acknowledgement. -/
theorem proceeds_handleFin (h : s.Fed P) (pkt : TunnelPkt) (env : Env) :
    Proceeds P (fun r => r.headSeq = s.recv.headSeq ∧ r.curAck = pkt.seqNum + 1 ∧
      r.recvSegments = s.recv.recvSegments) s (.done .ok, s.handleFin pkt env) := by
  obtain ⟨hstate, hthreads, hhead, -, hsegments⟩ := wakeReaders_frame s env
  have hnull : (s.wakeReaders env).state ≠ .null := hstate ▸ h.notNull
  have hopening : (s.wakeReaders env).state ≠ .opening := hstate ▸ h.notOpening
  unfold handleFin
  simp only
  split
  · exact .done hnull hopening hthreads ⟨hhead, rfl, hsegments⟩
  · split
    · exact .done nofun nofun hthreads ⟨hhead, rfl, hsegments⟩
    · exact .done nofun nofun hthreads ⟨hhead, rfl, hsegments⟩
    · exact .done nofun nofun hthreads ⟨hhead, rfl, hsegments⟩
    · exact .done hnull hopening hthreads ⟨hhead, rfl, hsegments⟩

/-- A FIN that a tunnel takes notice of. -/
def TakesFin (s : Tunnel) (pkt : TunnelPkt) : Prop :=
  pkt.pktType = .fin ∧ s.state ≠ .null ∧ s.state ≠ .closed

theorem receivePacket_of_takesFin {pkt : TunnelPkt} (hfin : s.TakesFin pkt) (env : Env) :
    s.receivePacket pkt env = (.done .ok, s.handleFin pkt env) := by
  unfold receivePacket
  rw [if_neg (by simp [hfin.2]), hfin.1]

theorem proceeds_receivePacket (h : s.Fed P) {pkt : TunnelPkt} (hpkt : P pkt)
    (hno : ¬s.TakesFin pkt) (env : Env) :
    Proceeds P (Kept s.recv) s (s.receivePacket pkt env) := by
  have hkept : Kept s.recv s.recv := ⟨rfl, rfl, rfl⟩
  unfold receivePacket
  split
  · exact h.done .ok
  next hstate =>
    rw [not_or] at hstate
    cases htype : pkt.pktType with
    | fin => exact absurd ⟨htype, hstate⟩ hno
    | syn => exact h.done .ok
    | finAck =>
      simp only [handleFinAck]
      split_ifs
      · exact h.done .ok
      · exact h.done .ok
      · exact .done nofun nofun rfl hkept
    | synAck =>
      simp only
      split_ifs
      · exact .done h.notNull h.notOpening rfl hkept
      · exact h.done .ok
    | ack =>
      simp only
      split_ifs
      · exact h.goto (fed_handling hpkt nofun rfl nofun)
      · exact h.goto (fed_handling hpkt nofun rfl nofun)
      · exact h.done .ok
    | data =>
      simp only
      split_ifs
      · exact h.goto (fed_handling hpkt nofun rfl nofun)
      · exact h.done .ok
      · exact h.goto (fed_handling hpkt nofun rfl fun _ => htype)

theorem proceeds_resume (h : s.Fed P) {pc : ThreadPc} (hpc : pc.Fed P)
    (hdata : ∀ pkt, pc ≠ .handleData pkt) (env : Env) :
    Proceeds P (Kept s.recv) s (s.resume env pc) := by
  have hkept : Kept s.recv s.recv := ⟨rfl, rfl, rfl⟩
  cases pc with
  | openWait => exact absurd rfl hpc.notOpening
  | waitForOpenWait =>
    simp only [resume, waitForOpenWake]
    split
    · exact proceeds_waitForOpenEnd h _
    · exact proceeds_waitForOpenEnd h _
    · split_ifs
      · exact h.goto (fed_waiting (by simp) rfl)
      · exact proceeds_waitForOpenEnd h _
  | closeWait =>
    simp only [resume, closeWake]
    split
    · exact .done (by simp) (by simp) rfl hkept
    · exact h.done _
    · split
      · exact h.goto (fed_waiting (by simp) rfl)
      · exact h.done _
  | waitForCloseWait =>
    simp only [resume, waitForCloseWake]
    split
    · exact .done (by simp) (by simp) rfl hkept
    · exact h.done _
    · split_ifs
      · exact h.goto (fed_waiting (by simp) rfl)
      · exact h.done _
  | cancelCtrlPkt err => exact .done h.notNull h.notOpening rfl hkept
  | threeWayAck pkt pc =>
    have hpkt : P pkt := hpc.pkt pkt rfl
    cases pc with
    | testAck | testSeq =>
      simp only [resume, handleThreeWayAck]
      split_ifs
      · exact h.goto (fed_handling hpkt (by simp) rfl (by simp))
      · exact h.goto (fed_handling hpkt (by simp) rfl (by simp))
    | sync => exact .goto (fed_handling hpkt (by simp) rfl (by simp)) h.notNull h.notOpening rfl hkept
    | setState => exact .goto (fed_handling hpkt (by simp) rfl (by simp)) (by simp) (by simp) rfl hkept
    | cancelCtrlPkt => exact .goto (fed_handling hpkt (by simp) rfl (by simp)) h.notNull h.notOpening rfl hkept
    | relock =>
      simp only [resume, handleThreeWayAck]
      split_ifs with hrelock
      · exact h.goto (fed_handling hpkt (by simp) rfl fun _ => hrelock.1)
      · exact h.done _
  | handleAck pkt pc =>
    have hpkt : P pkt := hpc.pkt pkt rfl
    cases pc with
    | test =>
      simp only [resume, handleAck]
      split_ifs
      · exact h.goto (fed_handling hpkt (by simp) rfl (by simp))
      · exact h.done _
    | segments => exact .goto (fed_handling hpkt (by simp) rfl (by simp)) h.notNull h.notOpening rfl hkept
    | buffers => exact .done h.notNull h.notOpening rfl hkept
  | handleData pkt => exact absurd rfl (hdata pkt)

/-- What a step of the tunnel does to its receiving window. -/
inductive RecvStep (P : TunnelPkt → Prop) (s : Tunnel) (op : TunnelOp) (r : RecvWindow) : Prop where
  | kept (hno : ∀ pkt, op = .receivePacket pkt → ¬s.TakesFin pkt) (h : Kept s.recv r)
  | fin (pkt : TunnelPkt) (hop : op = .receivePacket pkt) (hfin : s.TakesFin pkt)
      (hhead : r.headSeq = s.recv.headSeq) (hack : r.curAck = pkt.seqNum + 1)
      (hsegments : r.recvSegments = s.recv.recvSegments)
  | data (pkt : TunnelPkt) (hop : op = .resume (.handleData pkt)) (hpkt : P pkt)
      (htype : pkt.pktType = .data) (h : r = (s.recv.handleData ⟨pkt.seqNum, pkt.data⟩).1)

theorem recvStep_of_tunnelStep (h : s.Fed P) {op : TunnelOp} {env : Env}
    (hsyn : ∀ pkt, op ≠ .handleSyn pkt) (hpkt : ∀ pkt, op = .receivePacket pkt → P pkt)
    (he : tunnelStep s (op, env) = some t) : t.Fed P ∧ RecvStep P s op t.recv := by
  cases op with
  | openCall =>
    obtain rfl := Option.some.inj he
    exact ((proceeds_openCall h env).park h).imp_right (.kept nofun)
  | waitForOpen =>
    obtain rfl := Option.some.inj he
    exact ((proceeds_waitForOpenCall h).park h).imp_right (.kept nofun)
  | close =>
    obtain rfl := Option.some.inj he
    exact ((proceeds_closeCall h env).park h).imp_right (.kept nofun)
  | waitForClose =>
    obtain rfl := Option.some.inj he
    exact ((proceeds_waitForCloseCall h env).park h).imp_right (.kept nofun)
  | forceClose =>
    obtain rfl := Option.some.inj he
    exact ((proceeds_forceClose h env).park h).imp_right (.kept nofun)
  | handleSyn pkt => exact absurd rfl (hsyn pkt)
  | receivePacket pkt =>
    obtain rfl := Option.some.inj he
    by_cases hfin : s.TakesFin pkt
    · rw [receivePacket_of_takesFin hfin]
      exact ((proceeds_handleFin h pkt env).park h).imp_right
        fun ⟨hhead, hack, hsegments⟩ => .fin pkt rfl hfin hhead hack hsegments
    · refine ((proceeds_receivePacket h (hpkt pkt rfl) hfin env).park h).imp_right (.kept ?_)
      rintro pkt' hop
      obtain rfl := TunnelOp.receivePacket.inj hop
      exact hfin
  | resume pc =>
    obtain ⟨hmem, he⟩ := Option.ite_none_right_eq_some.1 he
    obtain rfl := Option.some.inj he
    have hpc := h.threads pc hmem
    have herase : ({ s with threads := s.threads.erase pc } : Tunnel).Fed P :=
      ⟨h.notNull, h.notOpening, fun pc' hpc' => h.threads pc' (List.mem_of_mem_erase hpc')⟩
    by_cases hdata : ∃ pkt, pc = .handleData pkt
    · obtain ⟨pkt, rfl⟩ := hdata
      exact ⟨⟨h.notNull, h.notOpening, herase.threads⟩,
        .data pkt rfl (hpc.pkt pkt rfl) (hpc.data pkt rfl) rfl⟩
    · have hproceeds := proceeds_resume herase hpc (fun pkt he => hdata ⟨pkt, he⟩) env
      exact (hproceeds.park herase).imp_right (.kept nofun)

theorem Fed.mono {P' : TunnelPkt → Prop} (h : s.Fed P) (hP : ∀ pkt, P pkt → P' pkt) :
    s.Fed P' where
  notNull := h.notNull
  notOpening := h.notOpening
  threads pc hpc :=
    have hfed := h.threads pc hpc
    ⟨hfed.notOpening, fun pkt he => hP pkt (hfed.pkt pkt he), hfed.data⟩

end Tunnel

/-! ## What the receiver holds -/

/-- A packet as an honest sender numbers it. -/
def TunnelPkt.Genuine (sent : List SentPkt) (pkt : TunnelPkt) : Prop :=
  (pkt.pktType = .data ∨ pkt.pktType = .fin → pkt.sentPkt ∈ sent) ∧ pkt.seqNum < 2 ^ 63

namespace RecvWindow

/-- The window holds DATA packets that were sent. -/
def Holds (sent : List SentPkt) (r : RecvWindow) : Prop :=
  ∀ x ∈ r.recvSegments.entries, x.2.seqNum = x.1 ∧ 0 < pktLen x ∧ x.1 < 2 ^ 63 ∧
    ⟨.data, x.1, x.2.data⟩ ∈ sent

variable {sent sent' : List SentPkt} {r r' : RecvWindow}

theorem Holds.mono (h : r.Holds sent) (hsub : sent ⊆ sent') : r.Holds sent' := fun x hx =>
  have ⟨hkey, hpos, hlt, hmem⟩ := h x hx
  ⟨hkey, hpos, hlt, hsub hmem⟩

theorem Holds.congr (h : r.Holds sent) (he : r'.recvSegments = r.recvSegments) :
    r'.Holds sent := fun x hx => h x (he ▸ hx)

theorem Holds.store (h : r.Holds sent) {pkt : DataPkt} (hne : 0 < pkt.data.length)
    (hlt : pkt.seqNum < 2 ^ 63) (hmem : ⟨.data, pkt.seqNum, pkt.data⟩ ∈ sent) :
    (r.store pkt).Holds sent := by
  unfold RecvWindow.store
  split
  · exact h
  · rintro ⟨k, p⟩ hx
    rcases OrdMap.mem_insert.1 hx with ⟨rfl, rfl⟩ | ⟨-, hx⟩
    · exact ⟨rfl, hne, hlt, hmem⟩
    · exact h _ hx

theorem Holds.handleData (h : r.Holds sent) {pkt : DataPkt} (hlt : pkt.seqNum < 2 ^ 63)
    (hmem : ⟨.data, pkt.seqNum, pkt.data⟩ ∈ sent) : (r.handleData pkt).1.Holds sent := by
  have hmoved : ∀ ack, ({ r with curAck := ack } : RecvWindow).Holds sent := fun _ => h.congr rfl
  simp only [RecvWindow.handleData]
  split_ifs
  · exact h
  · exact (hmoved _).store (by omega) hlt hmem
  · exact h
  · exact h.store (by omega) hlt hmem

/-- The packets that were sent do not overlap, so neither do those that are held. -/
theorem Holds.pieces (h : r.Holds sent) {w : SendWindow} (hw : w.Stamped sent) :
    Pieces r.recvSegments.entries where
  keyed x hx := (h x hx).1
  nonempty x hx := (h x hx).2.1
  bounded x hx := (h x hx).2.2.1
  apart := by
    refine r.recvSegments.sorted.imp_of_mem fun {x y} hx hy hlt => ?_
    obtain ⟨-, hxpos, -, hxsent⟩ := h x hx
    obtain ⟨-, hypos, -, hysent⟩ := h y hy
    rcases hw.apart _ hxsent _ hysent rfl rfl with heq | hafter | hbefore
    · exact absurd (congrArg SentPkt.seqNum heq) hlt.ne
    · exact hafter
    · simp only [pktLen] at hypos hbefore
      omega

/-! ### The loop of Read -/

/-- Read takes packets away and moves on by no more than it reads. -/
theorem readLoop_frame (xs : List (Nat × DataPkt)) (n : Nat) (r : RecvWindow) :
    (∀ x ∈ (readLoop xs n r).2.2.recvSegments.entries, x ∈ r.recvSegments.entries) ∧
      (readLoop xs n r).2.2.curAck = r.curAck ∧
      (readLoop xs n r).2.2.headSeq ≤ r.headSeq + n := by
  induction xs generalizing n r with
  | nil => exact ⟨fun _ => id, rfl, Nat.le_add_right _ _⟩
  | cons x xs ih =>
    obtain ⟨k, p⟩ := x
    simp only [readLoop]
    split_ifs
    · exact ⟨fun _ => id, rfl, Nat.le_add_right _ _⟩
    · exact ⟨fun _ => id, rfl, Nat.le_add_right _ _⟩
    · exact ⟨fun _ => id, rfl, Nat.le_add_right _ _⟩
    · -- the packet is dropped
      obtain ⟨hsub, hack, hhead⟩ := ih
        (n - min n (p.data.length - u64Sub r.headSeq p.seqNum))
        { r with
          headSeq := r.headSeq + min n (p.data.length - u64Sub r.headSeq p.seqNum)
          recvSegmentsSize := u64Sub r.recvSegmentsSize p.data.length
          recvSegments := r.recvSegments.erase k }
      refine ⟨fun y hy => (OrdMap.mem_erase.1 (hsub y hy)).2, hack, hhead.trans ?_⟩
      simp only
      omega
    · refine ⟨fun _ => id, rfl, ?_⟩
      simp only
      omega

theorem read_frame {len : Nat} {result : ReadResult} {bytes : List UInt8}
    (he : r.read len = some (result, bytes, r')) :
    (∀ x ∈ r'.recvSegments.entries, x ∈ r.recvSegments.entries) ∧ r'.curAck = r.curAck ∧
      (r.headSeq ≤ r.curAck → r'.headSeq ≤ r'.curAck) := by
  simp only [RecvWindow.read] at he
  split_ifs at he
  · obtain ⟨-, rfl, rfl⟩ := by simpa using he
    exact ⟨fun _ => id, rfl, id⟩
  · obtain ⟨-, rfl, rfl⟩ := by simpa using he
    exact ⟨fun _ => id, rfl, id⟩
  · obtain ⟨hsub, hack, hhead⟩ :=
      readLoop_frame r.recvSegments.entries (min len (u64Sub r.curAck r.headSeq)) r
    rw [Option.some.inj he] at hsub hack hhead
    refine ⟨hsub, hack, fun hle => ?_⟩
    rw [u64Sub_of_le hle] at hhead
    simp only at hhead hack
    omega

end RecvWindow

namespace Session

variable {s t : Session}

/-- What is sent is apart, and the receiver has and holds nothing else. -/
structure Sound (s : Session) : Prop where
  stamped : s.sender.win.Stamped s.sent
  fed : s.receiver.Fed (TunnelPkt.Genuine s.sent)
  holds : s.receiver.recv.Holds s.sent

theorem sound_start (halfOpen : Bool) (seq rmtSeq sendCapacity recvCapacity size : Nat) :
    (start halfOpen seq rmtSeq sendCapacity recvCapacity size).Sound where
  stamped := SendWindow.stamped_opened _ _ _
  fed := by cases halfOpen <;> exact ⟨nofun, nofun, nofun⟩
  holds := by simp [start, RecvWindow.opened, RecvWindow.Holds]

/-- The receiving window in a step of the receiver. -/
theorem Sound.recvStep (h : s.Sound) {op : TunnelOp} {env : Env}
    (hstep : s.step (.receive op env) = some t) : t.sender = s.sender ∧ t.sent = s.sent ∧
      t.receiver.Fed (TunnelPkt.Genuine s.sent) ∧
      Tunnel.RecvStep (TunnelPkt.Genuine s.sent) s.receiver op t.receiver.recv := by
  obtain ⟨⟨hhonest, -⟩, hstep⟩ := Option.ite_none_right_eq_some.1 hstep
  obtain ⟨receiver, he, rfl⟩ := Option.map_eq_some_iff.1 hstep
  refine ⟨rfl, rfl, Tunnel.recvStep_of_tunnelStep h.fed ?_ ?_ he⟩
  · rintro pkt rfl
    exact hhonest
  · rintro pkt rfl
    exact hhonest

theorem Sound.step {e : SessionOp} (h : s.Sound) (hstep : s.step e = some t) : t.Sound := by
  cases e with
  | send op =>
    obtain ⟨-, hstep⟩ := Option.ite_none_right_eq_some.1 hstep
    obtain ⟨sender, he, rfl⟩ := Option.map_eq_some_iff.1 hstep
    have hsub := List.subset_append_left s.sent (s.sender.emits op).toList
    refine ⟨WriteState.stamped_writeStep h.stamped he, h.fed.mono fun pkt hpkt => ?_,
      h.holds.mono hsub⟩
    exact ⟨fun htype => hsub (hpkt.1 htype), hpkt.2⟩
  | receive op env =>
    obtain ⟨hsender, hsent, hfed, hrecv⟩ := h.recvStep hstep
    refine ⟨hsender ▸ hsent ▸ h.stamped, hsent.symm ▸ hfed, hsent.symm ▸ ?_⟩
    cases hrecv with
    | kept _ hkept => exact h.holds.congr hkept.2.2
    | fin _ _ _ _ _ hsegments => exact h.holds.congr hsegments
    | data pkt _ hpkt htype he =>
      have hmem : (⟨.data, pkt.seqNum, pkt.data⟩ : SentPkt) ∈ s.sent := by
        rw [← htype]
        exact hpkt.1 (.inl htype)
      exact he ▸ h.holds.handleData hpkt.2 hmem
  | readCheck =>
    obtain rfl := Option.some.inj hstep
    split
    · exact ⟨h.stamped, h.fed, h.holds⟩
    · exact h
  | readTurn len =>
    obtain ⟨-, hstep⟩ := Option.ite_none_left_eq_some.1 hstep
    obtain ⟨⟨result, bytes, r⟩, he, rfl⟩ := Option.map_eq_some_iff.1 hstep
    obtain ⟨hsub, -, -⟩ := RecvWindow.read_frame he
    exact ⟨h.stamped, ⟨h.fed.notNull, h.fed.notOpening, h.fed.threads⟩,
      fun x hx => h.holds x (hsub x hx)⟩

theorem sound_of_run {halfOpen : Bool} {seq rmtSeq sendCapacity recvCapacity size : Nat}
    {tr : List (Session × SessionOp)}
    (h : Run step (start halfOpen seq rmtSeq sendCapacity recvCapacity size) tr s) : s.Sound :=
  h.invariant (sound_start ..) fun _ _ _ hs he => hs.step he

end Session

end PersonalCloud.Ts2.Transport
