import PersonalCloud.Ts2.Transport.Session

/-!
# The end of a stream

The FIN has a sequence number of its own: `handleFin` sets `curAck` to the number after it, and
Read takes one off what seems to be there once the tunnel is closing. But a Close of this end
moves nothing, so that the last byte is taken for a FIN; and a sender that gives up a Write puts
into its FIN the last acknowledgement that it heard of, which may be one that the receiver has
long left behind.

## Main results

* `Session.readDrains_iff_readable` — when a Read under a closing tunnel returns what is there.
* `Session.ackMonotone_iff_finFollows` — the receiving window never moves back exactly if no FIN
  is numbered below what is acknowledged.
-/

namespace PersonalCloud.Ts2.Transport

open PersonalCloud.Lib

namespace RecvWindow

theorem le_absorb (m : OrdMap Nat DataPkt) (n ack : Nat) : ack ≤ absorb m n ack := by
  induction n generalizing ack with
  | zero => exact Nat.le_refl _
  | succ n ih =>
    rw [absorb]
    split
    · exact Nat.le_refl _
    · exact (Nat.le_add_right _ _).trans (ih _)

theorem headSeq_handleData (r : RecvWindow) (pkt : DataPkt) :
    (r.handleData pkt).1.headSeq = r.headSeq := by
  simp only [handleData]
  split_ifs <;> simp

theorem curAck_le_handleData (r : RecvWindow) (pkt : DataPkt) :
    r.curAck ≤ (r.handleData pkt).1.curAck := by
  simp only [handleData]
  split_ifs
  · exact Nat.le_refl _
  · rw [curAck_store]
    exact (Nat.le_add_right _ _).trans (le_absorb ..)
  · exact Nat.le_refl _
  · rw [curAck_store]

end RecvWindow

namespace Session

variable {s t : Session} {halfOpen : Bool} {seq rmtSeq sendCapacity recvCapacity size : Nat}
  {tr : List (Session × SessionOp)}

/-! ## Reading after a close -/

/-- In every reachable state after a close has begun, a Read returns what is there exactly if
nothing is, or the tunnel is closing and the window lets it. -/
theorem readDrains_iff_readable
    (h : Run step (start halfOpen seq rmtSeq sendCapacity recvCapacity size) tr s) {len : Nat}
    (hclose : s.receiver.CloseStarted) (hlen : 0 < len) :
    s.receiver.ReadDrains len ↔ s.receiver.recv.unread = [] ∨
      s.receiver.state = .closing ∧ s.receiver.recv.Readable len := by
  have hs := sound_of_run h
  exact Tunnel.readDrains_iff (hs.holds.pieces hs.stamped) hclose hlen

/-- What the receiver finds around it. -/
def calm : Env where
  now := 10
  interval := 5
  alloc := true
  spawned := true
  readers := false
  wait := .ok

/-- A packet of the sender. -/
def fromSender (pktType : PktType) (seqNum : Nat) (data : List UInt8) : TunnelPkt where
  pktType := pktType
  srcVtId := 7
  seqNum := seqNum
  ackNum := 1
  windowSize := 8
  data := data

/-- One byte is written, sent and received. -/
def byteReceived : List SessionOp :=
  [.send (.write 0 [65]), .send (.append 0 true), .send (.spawn 0 true), .send (.check 0),
    .send .writerWindow, .send (.writerSend 1 10 5 true),
    .receive (.receivePacket (fromSender .data 1 [65])) calm,
    .receive (.resume (.handleData (fromSender .data 1 [65]))) calm]

/-- The sender hears of it and closes. -/
def finAfterByte : List SessionOp :=
  byteReceived ++ [.send (.receiveAck 2), .send (.ackTest 2), .send (.ackSegments 2),
    .send (.ackBuffers 2), .send (.wake 0 .ok), .send .close, .send .clearBuffers,
    .send .clearSegments, .send (.finish true), .send (.insertFin 1 11 5),
    .receive (.receivePacket (fromSender .fin 2 [])) calm]

theorem readDrains_iff_readable_finAfterByte :
    ∃ s, exec step (start false 1 1 8 8 4) finAfterByte = some s ∧
      s.receiver.recv.unread = [65] ∧
      (s.receiver.ReadDrains 16 ↔ s.receiver.recv.unread = [] ∨
        s.receiver.state = .closing ∧ s.receiver.recv.Readable 16) := by
  have he : exec step (start false 1 1 8 8 4) finAfterByte = some _ := rfl
  exact ⟨_, he, rfl, readDrains_iff_readable (run_trace he) (.inl rfl) (by decide)⟩

/-- The receiver closes instead. -/
def closeAfterByte : List SessionOp :=
  byteReceived ++ [.receive .close calm]

/-- The byte is there, and Read says that the tunnel is closed. -/
theorem not_readDrains_closeAfterByte :
    ∃ tr s, Run step (start false 1 1 8 8 4) tr s ∧ tr.map Prod.snd = closeAfterByte.reverse ∧
      s.receiver.CloseStarted ∧ s.receiver.recv.unread = [65] ∧
      s.receiver.readCall 16 = some (.closed, []) := by
  have he : exec step (start false 1 1 8 8 4) closeAfterByte = some _ := rfl
  obtain ⟨tr, hr, hm⟩ := run_of_exec he
  exact ⟨tr, _, hr, hm, .inl rfl, rfl, rfl⟩

/-! ## The acknowledgement -/

/-- The next byte to read is not beyond what is acknowledged. -/
def Ordered (s : Session) : Prop :=
  s.receiver.recv.headSeq ≤ s.receiver.recv.curAck

/-- The step does not take the acknowledgement back. -/
def NotLowered (s : Session) (e : SessionOp) : Prop :=
  ∀ t, s.step e = some t → s.receiver.recv.curAck ≤ t.receiver.recv.curAck

/-- A FIN is numbered as the last byte that is acknowledged, or higher. -/
def FinFollows (s : Session) : SessionOp → Prop
  | .receive (.receivePacket pkt) _ =>
    s.receiver.TakesFin pkt → s.receiver.recv.curAck ≤ pkt.seqNum + 1
  | _ => True

/-- A step that takes no FIN leaves the order and does not lower the acknowledgement. -/
theorem Sound.ordered_step (h : s.Sound) {e : SessionOp} (hfollows : s.FinFollows e)
    (hstep : s.step e = some t) :
    s.receiver.recv.curAck ≤ t.receiver.recv.curAck ∧ (s.Ordered → t.Ordered) := by
  cases e with
  | send op =>
    obtain ⟨-, hstep⟩ := Option.ite_none_right_eq_some.1 hstep
    obtain ⟨sender, he, rfl⟩ := Option.map_eq_some_iff.1 hstep
    exact ⟨Nat.le_refl _, id⟩
  | receive op env =>
    obtain ⟨-, -, -, hrecv⟩ := h.recvStep hstep
    unfold Ordered
    cases hrecv with
    | kept _ hkept =>
      obtain ⟨hhead, hack, -⟩ := hkept
      rw [hhead, hack]
      exact ⟨Nat.le_refl _, id⟩
    | fin pkt hop hfin hhead hack _ =>
      subst hop
      have hle := hfollows hfin
      rw [hhead, hack]
      exact ⟨hle, fun hs => hs.trans hle⟩
    | data pkt hop hpkt htype he =>
      rw [he, RecvWindow.headSeq_handleData]
      have hle := RecvWindow.curAck_le_handleData s.receiver.recv ⟨pkt.seqNum, pkt.data⟩
      exact ⟨hle, fun hs => hs.trans hle⟩
  | readCheck =>
    obtain rfl := Option.some.inj hstep
    split
    · exact ⟨Nat.le_refl _, id⟩
    · exact ⟨Nat.le_refl _, id⟩
  | readTurn len =>
    obtain ⟨-, hstep⟩ := Option.ite_none_left_eq_some.1 hstep
    obtain ⟨⟨result, bytes, r⟩, he, rfl⟩ := Option.map_eq_some_iff.1 hstep
    obtain ⟨-, hack, hhead⟩ := RecvWindow.read_frame he
    exact ⟨hack.ge, hhead⟩

/-- A FIN that is numbered lower does. -/
theorem notLowered_iff (h : s.Sound) {e : SessionOp} (hstep : s.step e = some t) :
    s.NotLowered e ↔ s.FinFollows e := by
  constructor
  · intro hlow
    unfold FinFollows
    split
    next pkt env =>
      intro hfin
      obtain ⟨-, -, -, hrecv⟩ := h.recvStep hstep
      have hle := hlow t hstep
      cases hrecv with
      | kept hno _ => exact absurd hfin (hno pkt rfl)
      | fin pkt' hop _ _ hack _ =>
        obtain rfl := TunnelOp.receivePacket.inj hop
        exact hack ▸ hle
      | data _ hop => cases hop
    · trivial
  · exact fun hfollows t ht => (h.ordered_step hfollows ht).1

/-- In every run the window is in order in every state and no step takes the acknowledgement
back, exactly if every FIN follows what is acknowledged. -/
theorem ackMonotone_iff_finFollows
    (h : Run step (start halfOpen seq rmtSeq sendCapacity recvCapacity size) tr s) :
    Always Ordered tr s ∧ Meets NotLowered tr ↔ Meets FinFollows tr := by
  have hiff : Meets NotLowered tr ↔ Meets FinFollows tr :=
    h.meets_iff_meets (I := Sound) (sound_start ..) (fun _ _ _ hs he => notLowered_iff hs he)
      fun _ _ _ hs _ he => hs.step he
  refine ⟨fun hmono => hiff.1 hmono.2, fun hfollows => ⟨?_, hiff.2 hfollows⟩⟩
  have hall := h.always_of_meets (P := fun s => s.Sound ∧ s.Ordered)
    ⟨sound_start .., Nat.le_refl _⟩
    (fun _ _ _ hs hc he => ⟨hs.1.step he, (hs.1.ordered_step hc he).2 hs.2⟩) hfollows
  exact ⟨fun x hx => (hall.1 x hx).2, hall.2.2⟩

theorem ackMonotone_iff_finFollows_finAfterByte :
    ∃ tr s, Run step (start false 1 1 8 8 4) tr s ∧ tr.map Prod.snd = finAfterByte.reverse ∧
      (Always Ordered tr s ∧ Meets NotLowered tr ↔ Meets FinFollows tr) := by
  have he : exec step (start false 1 1 8 8 4) finAfterByte = some _ := rfl
  obtain ⟨tr, hr, hm⟩ := run_of_exec he
  exact ⟨tr, _, hr, hm, ackMonotone_iff_finFollows hr⟩

/-- Two bytes are received and read, and the acknowledgement is lost. The Write runs out of time,
and the sender closes. -/
def finAfterTimeout : List SessionOp :=
  [.send (.write 0 [65, 66]), .send (.append 0 true), .send (.spawn 0 true), .send (.check 0),
    .send .writerWindow, .send (.writerSend 1 10 5 true),
    .receive (.receivePacket (fromSender .data 1 [65, 66])) calm,
    .receive (.resume (.handleData (fromSender .data 1 [65, 66]))) calm,
    .readCheck, .readTurn 2, .send (.wake 0 .timeout), .send .close, .send .clearBuffers,
    .send .clearSegments, .send (.finish true), .send (.insertFin 1 11 5),
    .receive (.receivePacket (fromSender .fin 1 [])) calm]

/-- The FIN takes the acknowledgement back behind what was read. -/
theorem not_ackMonotone_finAfterTimeout :
    ∃ tr s, Run step (start false 1 1 8 8 4) tr s ∧ tr.map Prod.snd = finAfterTimeout.reverse ∧
      ¬s.Ordered ∧ ∃ x ∈ tr, ¬x.1.NotLowered x.2 := by
  have he : exec step (start false 1 1 8 8 4) finAfterTimeout = some _ := rfl
  refine ⟨_, _, run_trace he, ?_, ?_, (_, _), List.mem_cons_self, fun hlow => ?_⟩
  · rw [List.map_reverse, map_snd_trace he]
  · change ¬3 ≤ 2
    omega
  · have hle : 3 ≤ 2 := hlow _ rfl
    omega

end Session

end PersonalCloud.Ts2.Transport
