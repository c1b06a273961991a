import PersonalCloud.Lib.Run
import PersonalCloud.Ts2.Transport.SendStream
import PersonalCloud.Ts2.Transport.WriteBuffers

/-!
# Delivery between two open tunnels

One direction of the traffic between two tunnels: the sending window of one, the receiving
window of the other, and a network that may lose, repeat and reorder what is sent. Both
tunnels stay open and no Write is cancelled. `dataSent` and `acksSent` hold every packet
ever sent; a packet that is lost is one that is never delivered.

## Main results

* `Good.step` — every step keeps the invariant of the two windows.
* `read_prefix_written` — what Read has returned is the beginning of what was written, and
  no byte is acknowledged that the receiver does not hold.
-/

namespace PersonalCloud.Ts2.Transport

open PersonalCloud.Lib

/-! ## The system -/

structure DeliveryState where
  send : SendWindow
  writer : WriterPc
  ackTested : List Nat
  ackSegsDone : List Nat
  dataSent : List DataPkt
  recv : RecvWindow
  acksSent : List AckPkt
  written : List UInt8
  bytesRead : List UInt8

namespace DeliveryState

/-- Two tunnels just opened, the first byte numbered `seq`. -/
def opened (seq sendCapacity segmentSize recvCapacity : Nat) : DeliveryState where
  send := .opened seq sendCapacity segmentSize
  writer := .notStarted
  ackTested := []
  ackSegsDone := []
  dataSent := []
  recv := .opened seq recvCapacity
  acksSent := []
  written := []
  bytesRead := []

/-- A call of Write queues its buffer, and the first one starts the writer thread. -/
def write (s : DeliveryState) (buffer : Buffer) : DeliveryState :=
  if buffer.bytes = [] then s
  else
    match s.send.appendToBuffers buffer with
    | none => s
    | some (_, w) =>
      { s with
        send := w
        writer := if s.writer = .notStarted then .top else s.writer
        written := s.written ++ buffer.bytes }

def writerWindow (s : DeliveryState) : Option DeliveryState :=
  if s.writer = .top ∧ s.send.isAvailableWindow then some { s with writer := .ready } else none

def writerSend (s : DeliveryState) (ackNum now interval : Nat) (alloc : Bool) :
    Option DeliveryState :=
  if s.writer ≠ .ready then none
  else if !s.send.isAvailableBufferToSend then none
  else
    match s.send.sendBuffers.find? s.send.currBufferIndex with
    | none => some { s with writer := .exited }
    | some b =>
      if !alloc then some { s with writer := .exited }
      else
        let seg := s.send.nextSegment b ackNum now interval
        some { s with
          send := s.send.advance b seg
          dataSent := s.dataSent ++ [⟨seg.seqNum, seg.payload⟩]
          writer := .top }

def retry (s : DeliveryState) (key now maxRound interval : Nat) : Option DeliveryState :=
  (s.send.retrySegments.find? key).bind fun p =>
    (s.send.heap p).map fun seg =>
      { s with
        send := s.send.reschedule p now maxRound interval
        dataSent :=
          if seg.pktType = .data then s.dataSent ++ [⟨seg.seqNum, seg.payload⟩] else s.dataSent }

/-! ### Acknowledgements -/

/-- The test of `handleAck`, made with no lock held. -/
def ackTest (s : DeliveryState) (ack : AckPkt) : Option DeliveryState :=
  if ack ∈ s.acksSent then
    some { s with
      ackTested :=
        if ack.ackNum > s.send.curSeq then ack.ackNum :: s.ackTested else s.ackTested }
  else none

def ackSegments (s : DeliveryState) (latestAck : Nat) : Option DeliveryState :=
  if latestAck ∈ s.ackTested then
    some { s with
      send := s.send.ackSegments latestAck
      ackTested := s.ackTested.erase latestAck
      ackSegsDone := latestAck :: s.ackSegsDone }
  else none

def ackBuffers (s : DeliveryState) (latestAck : Nat) : Option DeliveryState :=
  if latestAck ∈ s.ackSegsDone then
    some { s with
      send := s.send.ackBuffers latestAck
      ackSegsDone := s.ackSegsDone.erase latestAck }
  else none

/-! ### The receiver -/

def deliver (s : DeliveryState) (pkt : DataPkt) : Option DeliveryState :=
  if pkt ∈ s.dataSent then
    some { s with
      recv := (s.recv.handleData pkt).1
      acksSent := s.acksSent ++ (s.recv.handleData pkt).2 }
  else none

def read (s : DeliveryState) (len : Nat) : Option DeliveryState :=
  (s.recv.read len).map fun x =>
    { s with
      recv := x.2.2
      bytesRead := s.bytesRead ++ x.2.1 }

end DeliveryState

inductive DeliveryOp where
  | write (buffer : Buffer)
  | writerWindow
  | writerSend (ackNum now interval : Nat) (alloc : Bool)
  | retry (key now maxRound interval : Nat)
  | ackTest (ack : AckPkt)
  | ackSegments (latestAck : Nat)
  | ackBuffers (latestAck : Nat)
  | deliver (pkt : DataPkt)
  | read (len : Nat)
  deriving DecidableEq, Repr

def deliveryStep (s : DeliveryState) : DeliveryOp → Option DeliveryState
  | .write buffer => some (s.write buffer)
  | .writerWindow => s.writerWindow
  | .writerSend ackNum now interval alloc => s.writerSend ackNum now interval alloc
  | .retry key now maxRound interval => s.retry key now maxRound interval
  | .ackTest ack => s.ackTest ack
  | .ackSegments latestAck => s.ackSegments latestAck
  | .ackBuffers latestAck => s.ackBuffers latestAck
  | .deliver pkt => s.deliver pkt
  | .read len => s.read len

/-! ## The invariant -/

namespace DeliveryState

/-- The pieces of the stream that were sent. -/
def Sent (s : DeliveryState) (q : Nat) (bs : List UInt8) : Prop :=
  bs ≠ [] ∧ ⟨q, bs⟩ ∈ s.dataSent

/-- The bytes from `acked` on wait for their acknowledgement, and `first` is the oldest one
that the receiver holds, or the next to come. -/
structure Good (start : Nat) (s : DeliveryState) (acked first : Nat) : Prop where
  out : s.send.Outgoing s.Sent s.written start acked
  inc : s.recv.Good s.Sent s.written start s.bytesRead first
  acks : ∀ a ∈ s.acksSent, a.ackNum ≤ s.recv.curAck ∧ SendWindow.Boundary s.Sent a.ackNum
  tested : ∀ l ∈ s.ackTested, l ≤ s.recv.curAck ∧ SendWindow.Boundary s.Sent l
  segsDone : ∀ l ∈ s.ackSegsDone, l ≤ acked

theorem good_opened (seq sendCapacity segmentSize recvCapacity : Nat) :
    (opened seq sendCapacity segmentSize recvCapacity).Good seq seq seq := by
  have hsent : (opened seq sendCapacity segmentSize recvCapacity).Sent = fun _ _ => False := by
    funext q bs
    simp [Sent, opened]
  exact ⟨hsent ▸ SendWindow.outgoing_opened [] _ _ _ rfl, RecvWindow.good_opened _ _ _ _,
    by simp [opened], by simp [opened], by simp [opened]⟩

variable {start acked first : Nat} {s t : DeliveryState}

/-- The receiver has acknowledged nothing that was not sent. -/
theorem Good.curAck_le (h : s.Good start acked first) : s.recv.curAck ≤ s.send.sentEnd := by
  rcases h.inc.acked with he | ⟨q, bs, hq, he⟩
  · exact he ▸ h.out.start_le.trans h.out.acked_le
  · exact he ▸ h.out.sent_le q bs hq

theorem Good.write (h : s.Good start acked first) (buffer : Buffer) :
    (s.write buffer).Good start acked first := by
  unfold DeliveryState.write
  split
  · exact h
  next hbuf =>
    split
    · exact h
    next i w ha =>
      obtain ⟨hout, -⟩ := h.out.appendToBuffers hbuf ha
      exact ⟨hout, h.inc.extend (fun _ _ hq => hq) _, h.acks, h.tested, h.segsDone⟩

/-- The writer thread gives up, or it cuts a segment from the buffer it is at. -/
theorem of_writerSend {ackNum now interval : Nat} {alloc : Bool}
    (he : s.writerSend ackNum now interval alloc = some t) :
    t = { s with writer := .exited } ∨
      alloc = true ∧ ∃ b seg, s.send.sendBuffers.find? s.send.currBufferIndex = some b ∧
        seg = s.send.nextSegment b ackNum now interval ∧
        t = { s with
          send := s.send.advance b seg
          dataSent := s.dataSent ++ [⟨seg.seqNum, seg.payload⟩]
          writer := .top } := by
  unfold DeliveryState.writerSend at he
  split at he
  · cases he
  split at he
  · cases he
  split at he
  · exact .inl (Option.some.inj he).symm
  next b hb =>
    split at he
    · exact .inl (Option.some.inj he).symm
    next halloc =>
      exact .inr ⟨by simpa using halloc, b, _, hb, rfl, (Option.some.inj he).symm⟩

theorem Good.writerSend {ackNum now interval : Nat} {alloc : Bool} (h : s.Good start acked first)
    (he : s.writerSend ackNum now interval alloc = some t) : t.Good start acked first := by
  obtain rfl | ⟨-, b, seg, hb, hseg, rfl⟩ := of_writerSend he
  · exact ⟨h.out, h.inc, h.acks, h.tested, h.segsDone⟩
  have hSent : ∀ q bs, bs ≠ [] ∧ ⟨q, bs⟩ ∈ s.dataSent ++ [⟨seg.seqNum, seg.payload⟩] ↔
      s.Sent q bs ∨ bs ≠ [] ∧ q = seg.seqNum ∧ bs = seg.payload := by
    simp [Sent, and_or_left]
  -- the new packet begins where everything acknowledged has ended
  have hnew : ∀ l, l ≤ s.recv.curAck → SendWindow.Boundary s.Sent l →
      SendWindow.Boundary (fun q bs => bs ≠ [] ∧
        ⟨q, bs⟩ ∈ s.dataSent ++ [⟨seg.seqNum, seg.payload⟩]) l := by
    intro l hl hb q bs hq hlt
    rcases (hSent q bs).1 hq with hq | ⟨-, rfl, rfl⟩
    · exact hb q bs hq hlt
    · have := h.curAck_le
      have : seg.seqNum = s.send.sentEnd := by rw [hseg]; rfl
      omega
  refine ⟨h.out.advance hb hseg hSent, ?_, fun a ha => ?_, fun l hl => ?_, h.segsDone⟩
  · exact List.append_nil s.written ▸ h.inc.extend (fun q bs hq => (hSent q bs).2 (.inl hq)) []
  · exact (h.acks a ha).imp_right (hnew _ (h.acks a ha).1)
  · exact (h.tested l hl).imp_right (hnew _ (h.tested l hl).1)

/-- A packet sent again was sent before. -/
theorem Good.retry {key now maxRound interval : Nat} (h : s.Good start acked first)
    (he : s.retry key now maxRound interval = some t) : t.Good start acked first := by
  obtain ⟨p, hp, he⟩ := Option.bind_eq_some_iff.1 he
  obtain ⟨seg, hseg, rfl⟩ := Option.map_eq_some_iff.1 he
  have hSent : ∀ q bs, bs ≠ [] ∧ ⟨q, bs⟩ ∈ (if seg.pktType = .data then
      s.dataSent ++ [⟨seg.seqNum, seg.payload⟩] else s.dataSent) ↔ s.Sent q bs := by
    intro q bs
    split
    · constructor
      · rintro ⟨hne, hmem⟩
        rcases List.mem_append.1 hmem with hmem | hmem
        · exact ⟨hne, hmem⟩
        · obtain ⟨rfl, rfl⟩ : q = seg.seqNum ∧ bs = seg.payload := by simpa using hmem
          exact (h.out.payload p seg hseg).2 hne
      · exact fun ⟨hne, hmem⟩ => ⟨hne, List.mem_append_left _ hmem⟩
    · rfl
  have hsame : DeliveryState.Sent { s with
      send := s.send.reschedule p now maxRound interval
      dataSent := if seg.pktType = .data then
        s.dataSent ++ [⟨seg.seqNum, seg.payload⟩] else s.dataSent } = s.Sent := by
    funext q bs
    exact propext (hSent q bs)
  obtain ⟨hout, -⟩ := h.out.reschedule hp now maxRound interval
  exact ⟨hsame ▸ hout, hsame ▸ h.inc, hsame ▸ h.acks, hsame ▸ h.tested, h.segsDone⟩

theorem Good.ackTest {ack : AckPkt} (h : s.Good start acked first)
    (he : s.ackTest ack = some t) : t.Good start acked first := by
  obtain ⟨hack, he⟩ := Option.ite_none_right_eq_some.1 he
  obtain rfl := Option.some.inj he
  refine ⟨h.out, h.inc, h.acks, fun l hl => ?_, h.segsDone⟩
  change l ∈ (if ack.ackNum > s.send.curSeq then ack.ackNum :: s.ackTested else s.ackTested) at hl
  split at hl
  · rcases List.mem_cons.1 hl with rfl | hl
    · exact h.acks ack hack
    · exact h.tested l hl
  · exact h.tested l hl

theorem Good.ackSegments {l : Nat} (h : s.Good start acked first)
    (he : s.ackSegments l = some t) : ∃ acked', t.Good start acked' first := by
  unfold DeliveryState.ackSegments at he
  split_ifs at he with hl
  obtain rfl := Option.some.inj he
  obtain ⟨hle, hb⟩ := h.tested l hl
  obtain ⟨acked', hacked, hl', hout⟩ := h.out.ackSegments (hle.trans h.curAck_le) hb
  refine ⟨acked', hout, h.inc, h.acks, fun k hk => h.tested k (List.mem_of_mem_erase hk), ?_⟩
  intro k hk
  rcases List.mem_cons.1 hk with rfl | hk
  · exact hl'
  · exact (h.segsDone k hk).trans hacked

theorem Good.ackBuffers {l : Nat} (h : s.Good start acked first)
    (he : s.ackBuffers l = some t) : t.Good start acked first := by
  unfold DeliveryState.ackBuffers at he
  split_ifs at he with hl
  obtain rfl := Option.some.inj he
  exact ⟨h.out.ackBuffers (h.segsDone l hl), h.inc, h.acks, h.tested,
    fun k hk => h.segsDone k (List.mem_of_mem_erase hk)⟩

theorem Good.deliver {pkt : DataPkt} (h : s.Good start acked first)
    (he : s.deliver pkt = some t) : t.Good start acked first := by
  unfold DeliveryState.deliver at he
  split_ifs at he with hpkt
  obtain rfl := Option.some.inj he
  obtain ⟨hinc, hle, hacks⟩ := h.inc.handleData h.out.cut fun hne => ⟨hne, hpkt⟩
  refine ⟨h.out, hinc, fun a ha => ?_, fun l hl => ?_, h.segsDone⟩
  · rcases List.mem_append.1 ha with ha | ha
    · exact (h.acks a ha).imp_left fun hc => hc.trans hle
    · rw [hacks a ha]
      exact ⟨Nat.le_refl _, fun _ _ hq hlt => hinc.boundary h.out.cut hq hlt⟩
  · exact (h.tested l hl).imp_left fun hc => hc.trans hle

theorem Good.read {len : Nat} (h : s.Good start acked first) (he : s.read len = some t) :
    ∃ first', first ≤ first' ∧ t.Good start acked first' := by
  obtain ⟨⟨result, bytes, r⟩, hr, rfl⟩ := Option.map_eq_some_iff.1 he
  obtain ⟨first', hle, hinc, hack⟩ := h.inc.of_read h.out.cut hr
  exact ⟨first', hle, h.out, hinc, fun a ha => hack ▸ h.acks a ha,
    fun l hl => hack ▸ h.tested l hl, h.segsDone⟩

theorem Good.step {op : DeliveryOp} (h : s.Good start acked first)
    (he : deliveryStep s op = some t) :
    ∃ acked' first', first ≤ first' ∧ t.Good start acked' first' := by
  have hsame : t.Good start acked first →
      ∃ acked' first', first ≤ first' ∧ t.Good start acked' first' :=
    fun ht => ⟨acked, first, Nat.le_refl _, ht⟩
  cases op with
  | write buffer =>
    obtain rfl := Option.some.inj he
    exact hsame (h.write buffer)
  | writerWindow =>
    simp only [deliveryStep, DeliveryState.writerWindow] at he
    split_ifs at he
    obtain rfl := Option.some.inj he
    exact hsame ⟨h.out, h.inc, h.acks, h.tested, h.segsDone⟩
  | writerSend ackNum now interval alloc => exact hsame (h.writerSend he)
  | retry key now maxRound interval => exact hsame (h.retry he)
  | ackTest ack => exact hsame (h.ackTest he)
  | ackSegments l =>
    obtain ⟨acked', ht⟩ := h.ackSegments he
    exact ⟨acked', first, Nat.le_refl _, ht⟩
  | ackBuffers l => exact hsame (h.ackBuffers he)
  | deliver pkt => exact hsame (h.deliver he)
  | read len =>
    obtain ⟨first', hle, ht⟩ := h.read he
    exact ⟨acked, first', hle, ht⟩

end DeliveryState

/-- What Read has returned is the beginning of what was written, and every byte acknowledged
was read or is held without a gap behind those that were. -/
theorem read_prefix_written {seq sendCapacity segmentSize recvCapacity : Nat}
    {tr : List (DeliveryState × DeliveryOp)} {s : DeliveryState}
    (h : Run deliveryStep (.opened seq sendCapacity segmentSize recvCapacity) tr s) :
    s.bytesRead <+: s.written ∧
      ∀ a ∈ s.acksSent, a.ackNum ≤ s.recv.headSeq + s.recv.contiguousBytes := by
  obtain ⟨acked, first, hs⟩ := h.invariant (P := fun s => ∃ acked first, s.Good seq acked first)
    ⟨_, _, DeliveryState.good_opened ..⟩ fun s op t ⟨_, _, hs⟩ he => by
      obtain ⟨acked', first', -, ht⟩ := hs.step he
      exact ⟨acked', first', ht⟩
  refine ⟨hs.inc.readAt.prefix_stream, fun a ha => ?_⟩
  have hle := (hs.acks a ha).1
  have hend := hs.inc.contiguousEnd hs.out.cut
  rw [RecvWindow.contiguousBytes]
  omega

/-- Two packets arrive in the wrong order, the first one twice, and are read in two parts. -/
def reordered : List DeliveryOp :=
  [.write ⟨0, [7, 8, 9]⟩, .writerWindow, .writerSend 1 10 5 true, .writerWindow,
    .writerSend 1 11 5 true, .deliver ⟨3, [9]⟩, .retry 15 15 8 5, .deliver ⟨1, [7, 8]⟩,
    .read 1, .deliver ⟨1, [7, 8]⟩, .ackTest ⟨4, 5⟩, .ackSegments 4, .ackBuffers 4, .read 8]

theorem read_prefix_written_reordered :
    ∃ tr s, Run deliveryStep (.opened 1 8 2 8) tr s ∧ s.bytesRead = [7, 8, 9] ∧
      s.bytesRead <+: s.written ∧
      ∀ a ∈ s.acksSent, a.ackNum ≤ s.recv.headSeq + s.recv.contiguousBytes := by
  have he : exec deliveryStep (.opened 1 8 2 8) reordered = some _ := rfl
  exact ⟨_, _, run_trace he, rfl, read_prefix_written (run_trace he)⟩

end PersonalCloud.Ts2.Transport
