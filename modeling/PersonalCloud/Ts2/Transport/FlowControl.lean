import PersonalCloud.Ts2.Transport.Delivery

/-!
# Flow control

Every packet tells the peer how much room the receiving window has, but `handleAck` does not
look at it: `isAvailableWindow` counts the bytes that are not acknowledged, and a byte is
acknowledged when it arrives, not when it is read. What the receiver holds lies between the
oldest packet not read to its end and the last byte sent, so a sender that stays within
`window_capacity` of the former keeps the receiver within its window.
-/

namespace PersonalCloud.Ts2.Transport

open PersonalCloud.Lib

namespace RecvWindow

/-- The first number of the oldest packet held, or the number of the next byte to come. -/
def oldest (r : RecvWindow) : Nat :=
  (r.recvSegments.entries.head?.map fun x => min x.1 r.curAck).getD r.curAck

variable {Sent : Nat → List UInt8 → Prop} {w : List UInt8} {s : Nat} {read : List UInt8}
  {first : Nat} {r : RecvWindow}

theorem Good.oldest_eq (h : r.Good Sent w s read first) : r.oldest = first := by
  obtain ⟨held, ahead, hs⟩ := h.split
  have hle := hs.tiles.le
  rw [oldest, hs.entries]
  cases held with
  | nil =>
    have hfirst : first = r.curAck := hs.tiles
    cases ahead with
    | nil => exact hfirst.symm
    | cons x ahead =>
      have := hs.ahead_lt x (by simp)
      simp only [List.nil_append, List.head?_cons, Option.map_some, Option.getD_some]
      omega
  | cons x held =>
    have : x.1 = first := hs.tiles.1
    simp only [List.cons_append, List.head?_cons, Option.map_some, Option.getD_some]
    omega

/-- All that is held lies behind the oldest number and before the end of what was sent. -/
theorem Good.add_size_le (h : r.Good Sent w s read first) (hcut : Cut Sent w s) {e : Nat}
    (hend : ∀ q bs, Sent q bs → q + bs.length ≤ e) (he : r.curAck ≤ e) :
    first + r.recvSegmentsSize ≤ e := by
  obtain ⟨held, ahead, hs⟩ := h.split
  have hle := hs.tiles.le
  rw [h.size]
  refine sum_len_le_of_apart (h.apart hcut) (fun x hx => ?_) (fun x hx => ?_) (hle.trans he)
  · rw [hs.entries, List.mem_append] at hx
    rcases hx with hx | hx
    · exact (hs.tiles.mem hx).1
    · exact hle.trans (hs.ahead_lt x hx).le
  · exact hend _ _ (h.sent x hx).2

/-! ## The advertised window -/

theorem advertised_add (h : r.recvSegmentsSize ≤ r.windowCapacity) :
    r.advertised + r.recvSegmentsSize = r.windowCapacity := by
  rw [advertised, u64Sub_of_le h]
  omega

@[simp] theorem windowCapacity_store (r : RecvWindow) (pkt : DataPkt) :
    (r.store pkt).windowCapacity = r.windowCapacity := by
  unfold store
  split <;> rfl

@[simp] theorem windowCapacity_handleData (r : RecvWindow) (pkt : DataPkt) :
    (r.handleData pkt).1.windowCapacity = r.windowCapacity := by
  simp only [handleData]
  split_ifs <;> simp

theorem windowSize_of_mem_handleData {pkt : DataPkt} {a : AckPkt}
    (ha : a ∈ (r.handleData pkt).2) :
    a.windowSize = (r.handleData pkt).1.advertised % 2 ^ 32 := by
  simp only [handleData] at ha ⊢
  split_ifs at ha ⊢
  · cases ha
  all_goals exact congrArg AckPkt.windowSize (List.mem_singleton.1 ha)

theorem windowCapacity_readLoop (xs : List (Nat × DataPkt)) (toRead : Nat) (r : RecvWindow) :
    (readLoop xs toRead r).2.2.windowCapacity = r.windowCapacity := by
  induction xs generalizing toRead r with
  | nil => rfl
  | cons x xs ih =>
    obtain ⟨k, p⟩ := x
    simp only [readLoop]
    split_ifs
    · rfl
    · rfl
    · rfl
    · exact ih _ _
    · rfl

theorem windowCapacity_of_read {len : Nat} {x : ReadResult × List UInt8 × RecvWindow}
    (he : r.read len = some x) : x.2.2.windowCapacity = r.windowCapacity := by
  simp only [RecvWindow.read] at he
  split_ifs at he
  · rw [← Option.some.inj he]
  · rw [← Option.some.inj he]
  · rw [← Option.some.inj he]
    exact windowCapacity_readLoop _ _ _

end RecvWindow

namespace DeliveryState

/-- The receiver holds no more than its window, and no advertised window wraps. -/
structure WithinWindow (s : DeliveryState) : Prop where
  size_le : s.recv.recvSegmentsSize ≤ s.recv.windowCapacity
  advertised : s.recv.advertised + s.recv.recvSegmentsSize = s.recv.windowCapacity
  acks : ∀ a ∈ s.acksSent, a.windowSize ≤ s.recv.windowCapacity

/-- A segment that the writer thread sends ends no further than a window behind the oldest
packet that the receiver has not read to its end. -/
def KeepsWithin (s : DeliveryState) : DeliveryOp → Prop
  | .writerSend ackNum now interval true =>
    ∀ b ∈ s.send.sendBuffers.find? s.send.currBufferIndex,
      s.send.sentEnd + (s.send.nextSegment b ackNum now interval).dataSize ≤
        s.recv.oldest + s.recv.windowCapacity
  | _ => True

instance (s : DeliveryState) : (op : DeliveryOp) → Decidable (s.KeepsWithin op)
  | .writerSend _ _ _ true => inferInstanceAs (Decidable (∀ b ∈ _, _))
  | .writerSend _ _ _ false | .write _ | .writerWindow | .retry _ _ _ _ | .ackTest _
  | .ackSegments _ | .ackBuffers _ | .deliver _ | .read _ => .isTrue trivial

variable {start acked first : Nat} {s t : DeliveryState}

/-- Only the writer thread moves the end of what is sent. -/
theorem Good.sentEnd_step {op : DeliveryOp} (h : s.Good start acked first)
    (hk : s.KeepsWithin op) (hend : s.send.sentEnd ≤ first + s.recv.windowCapacity)
    (he : deliveryStep s op = some t) : t.send.sentEnd ≤ first + s.recv.windowCapacity := by
  cases op with
  | write buffer =>
    obtain rfl := Option.some.inj he
    unfold DeliveryState.write
    split
    · exact hend
    next hbuf =>
      split
      · exact hend
      next i w ha => exact (h.out.appendToBuffers hbuf ha).2 ▸ hend
  | writerSend ackNum now interval alloc =>
    obtain rfl | ⟨rfl, b, seg, hb, rfl, rfl⟩ := of_writerSend he
    · exact hend
    · rw [← h.inc.oldest_eq]
      exact (SendWindow.sentEnd_advance ..).trans_le (hk b hb)
  | retry key now maxRound interval =>
    obtain ⟨p, hp, he⟩ := Option.bind_eq_some_iff.1 he
    obtain ⟨seg, hseg, rfl⟩ := Option.map_eq_some_iff.1 he
    exact (h.out.reschedule hp now maxRound interval).2 ▸ hend
  | ackSegments l =>
    obtain ⟨-, he⟩ := Option.ite_none_right_eq_some.1 he
    obtain rfl := Option.some.inj he
    exact (SendWindow.sentEnd_ackSegments ..).trans_le hend
  | ackBuffers l =>
    obtain ⟨-, he⟩ := Option.ite_none_right_eq_some.1 he
    obtain rfl := Option.some.inj he
    exact (SendWindow.sentEnd_ackBuffers ..).trans_le hend
  | writerWindow | ackTest | deliver =>
    obtain ⟨-, he⟩ := Option.ite_none_right_eq_some.1 he
    obtain rfl := Option.some.inj he
    exact hend
  | read len =>
    obtain ⟨x, -, rfl⟩ := Option.map_eq_some_iff.1 he
    exact hend

/-- The capacity of the receiver does not change, and what it advertises is what it has. -/
theorem recv_step {op : DeliveryOp} (he : deliveryStep s op = some t) :
    t.recv.windowCapacity = s.recv.windowCapacity ∧
      ∀ a ∈ t.acksSent, a ∈ s.acksSent ∨ a.windowSize = t.recv.advertised % 2 ^ 32 := by
  cases op with
  | write buffer =>
    obtain rfl := Option.some.inj he
    unfold DeliveryState.write
    split
    · exact ⟨rfl, fun a ha => .inl ha⟩
    · split <;> exact ⟨rfl, fun a ha => .inl ha⟩
  | writerSend ackNum now interval alloc =>
    obtain rfl | ⟨-, b, seg, -, -, rfl⟩ := of_writerSend he <;>
      exact ⟨rfl, fun a ha => .inl ha⟩
  | retry key now maxRound interval =>
    obtain ⟨p, -, he⟩ := Option.bind_eq_some_iff.1 he
    obtain ⟨seg, -, rfl⟩ := Option.map_eq_some_iff.1 he
    exact ⟨rfl, fun a ha => .inl ha⟩
  | deliver pkt =>
    obtain ⟨-, he⟩ := Option.ite_none_right_eq_some.1 he
    obtain rfl := Option.some.inj he
    refine ⟨RecvWindow.windowCapacity_handleData _ _, fun a ha => ?_⟩
    exact (List.mem_append.1 ha).imp_right RecvWindow.windowSize_of_mem_handleData
  | read len =>
    obtain ⟨x, hx, rfl⟩ := Option.map_eq_some_iff.1 he
    exact ⟨RecvWindow.windowCapacity_of_read hx, fun a ha => .inl ha⟩
  | writerWindow | ackTest | ackSegments | ackBuffers =>
    obtain ⟨-, he⟩ := Option.ite_none_right_eq_some.1 he
    obtain rfl := Option.some.inj he
    exact ⟨rfl, fun a ha => .inl ha⟩

/-- The invariant of a run in which the sender respects the receiver's window. -/
structure Paced (start : Nat) (s : DeliveryState) : Prop where
  good : ∃ acked first, s.Good start acked first ∧
    s.send.sentEnd ≤ first + s.recv.windowCapacity
  acks : ∀ a ∈ s.acksSent, a.windowSize ≤ s.recv.windowCapacity

theorem paced_opened (seq sendCapacity segmentSize recvCapacity : Nat) :
    (opened seq sendCapacity segmentSize recvCapacity).Paced seq where
  good := ⟨_, _, good_opened .., Nat.le_add_right ..⟩
  acks := by simp [opened]

theorem Paced.size_le (h : s.Paced start) : s.recv.recvSegmentsSize ≤ s.recv.windowCapacity := by
  obtain ⟨acked, first, hs, hend⟩ := h.good
  have := hs.inc.add_size_le hs.out.cut hs.out.sent_le hs.curAck_le
  omega

theorem Paced.withinWindow (h : s.Paced start) : s.WithinWindow :=
  ⟨h.size_le, RecvWindow.advertised_add h.size_le, h.acks⟩

theorem Paced.step {op : DeliveryOp} (h : s.Paced start) (hk : s.KeepsWithin op)
    (he : deliveryStep s op = some t) : t.Paced start := by
  obtain ⟨acked, first, hs, hend⟩ := h.good
  obtain ⟨acked', first', hle, ht⟩ := hs.step he
  obtain ⟨hcap, hacks⟩ := recv_step he
  have hend' := hs.sentEnd_step hk hend he
  have hgood : t.send.sentEnd ≤ first' + t.recv.windowCapacity := by omega
  refine ⟨⟨acked', first', ht, hgood⟩, fun a ha => ?_⟩
  rcases hacks a ha with ha | ha
  · exact hcap ▸ h.acks a ha
  · have := ht.inc.add_size_le ht.out.cut ht.out.sent_le ht.curAck_le
    rw [ha, RecvWindow.advertised, u64Sub_of_le (by omega)]
    exact (Nat.mod_le _ _).trans (by omega)

end DeliveryState

/-- In a run whose writer thread stays within the receiver's window, the receiver never holds
more than its capacity, and no advertised window wraps. -/
theorem withinWindow_of_keepsWithin {seq capacity segmentSize : Nat}
    {tr : List (DeliveryState × DeliveryOp)} {s : DeliveryState}
    (h : Run deliveryStep (.opened seq capacity segmentSize capacity) tr s)
    (hk : Meets DeliveryState.KeepsWithin tr) : Always DeliveryState.WithinWindow tr s := by
  have hpaced := h.always_of_meets (DeliveryState.paced_opened ..)
    (fun _ _ _ hs hc he => hs.step hc he) hk
  exact ⟨fun x hx => (hpaced.1 x hx).withinWindow, hpaced.2.withinWindow⟩

/-- A byte is sent, acknowledged and read before the next one is sent. -/
def readInTime : List DeliveryOp :=
  [.write ⟨0, [7, 8]⟩, .writerWindow, .writerSend 1 10 5 true, .deliver ⟨1, [7]⟩,
    .ackTest ⟨2, 0⟩, .ackSegments 2, .writerWindow, .read 8, .writerSend 1 11 5 true,
    .deliver ⟨2, [8]⟩]

theorem withinWindow_readInTime :
    ∃ tr s, Run deliveryStep (.opened 1 1 1 1) tr s ∧ s.recv.recvSegmentsSize = 1 ∧
      Always DeliveryState.WithinWindow tr s := by
  have he : exec deliveryStep (.opened 1 1 1 1) readInTime = some _ := rfl
  have hk : Meets DeliveryState.KeepsWithin
      (trace deliveryStep (.opened 1 1 1 1) readInTime).reverse := by
    decide +kernel
  exact ⟨_, _, run_trace he, rfl, withinWindow_of_keepsWithin (run_trace he) hk⟩

/-- Nothing is read between the two bytes. -/
def slowReader : List DeliveryOp :=
  [.write ⟨0, [7, 8]⟩, .writerWindow, .writerSend 1 10 5 true, .deliver ⟨1, [7]⟩,
    .ackTest ⟨2, 0⟩, .ackSegments 2, .writerWindow, .writerSend 1 11 5 true,
    .deliver ⟨2, [8]⟩]

/-- The receiver holds two bytes in a window of one, and advertises a window that wrapped. -/
theorem not_withinWindow_slowReader :
    ∃ tr s, Run deliveryStep (.opened 1 1 1 1) tr s ∧ tr.map Prod.snd = slowReader.reverse ∧
      s.recv.recvSegmentsSize = 2 ∧ s.recv.windowCapacity = 1 ∧
      ⟨3, 2 ^ 32 - 1⟩ ∈ s.acksSent ∧ ¬s.WithinWindow := by
  have he : exec deliveryStep (.opened 1 1 1 1) slowReader = some _ := rfl
  obtain ⟨tr, hr, hm⟩ := run_of_exec he
  refine ⟨tr, _, hr, hm, rfl, rfl, by decide, fun h => ?_⟩
  exact absurd h.size_le (by decide)

end PersonalCloud.Ts2.Transport
