import PersonalCloud.Lib.Tiling
import PersonalCloud.Ts2.Transport.SendWindow

/-!
# The receiving window of a tunnel

`RecvWindow` holds the DATA packets that arrived and were not read to their end. `headSeq`
numbers the next byte to read, `curAck` the first byte not received in order. A packet at
`curAck` moves it over that packet and all that follow without a gap.

`RecvWindow.Good` says how the window stands to the stream that is sent: the packets up to
`curAck` are a tiling that begins at or before `headSeq`, the others lie beyond, and what
was read is the stream up to `headSeq`. The handlers keep it for every set of sent packets
that do not overlap.
-/

namespace PersonalCloud.Ts2.Transport

open PersonalCloud.Lib

structure DataPkt where
  seqNum : Nat
  data : List UInt8
  deriving DecidableEq, Repr

structure AckPkt where
  ackNum : Nat
  windowSize : Nat
  deriving DecidableEq, Repr

structure RecvWindow where
  recvSegments : OrdMap Nat DataPkt
  windowCapacity : Nat
  recvSegmentsSize : Nat
  headSeq : Nat
  curAck : Nat
  closeInProgress : Bool

inductive ReadResult where
  | ok | closed | internal
  deriving DecidableEq, Repr

/-- The length of the packet of an entry. -/
def pktLen (x : Nat × DataPkt) : Nat :=
  x.2.data.length

namespace RecvWindow

/-- The window of a tunnel just opened, the first byte to come numbered `seq`. -/
def opened (seq windowCapacity : Nat) : RecvWindow where
  recvSegments := .empty
  windowCapacity := windowCapacity
  recvSegmentsSize := 0
  headSeq := seq
  curAck := seq
  closeInProgress := false

/-- The size of the window that is left. -/
def advertised (r : RecvWindow) : Nat :=
  u64Sub r.windowCapacity r.recvSegmentsSize

/-- The field of a packet for the size of the window has 32 bits. -/
def ackPkt (r : RecvWindow) : AckPkt :=
  ⟨r.curAck, r.advertised % 2 ^ 32⟩

/-- The loop that moves the acknowledgement over the packets that follow it, with a bound on
its rounds; `find?_absorb` says that the number of packets is enough. -/
def absorb (m : OrdMap Nat DataPkt) : Nat → Nat → Nat
  | 0, ack => ack
  | n + 1, ack =>
    match m.find? ack with
    | none => ack
    | some p => absorb m n (ack + p.data.length)

/-- Keep a packet unless there is one with its number, and acknowledge. -/
def store (r : RecvWindow) (pkt : DataPkt) : RecvWindow :=
  if (r.recvSegments.find? pkt.seqNum).isSome then r
  else
    { r with
      recvSegments := r.recvSegments.insert pkt.seqNum pkt
      recvSegmentsSize := r.recvSegmentsSize + pkt.data.length }

/-- The window after a DATA packet, and the acknowledgements sent. -/
def handleData (r : RecvWindow) (pkt : DataPkt) : RecvWindow × List AckPkt :=
  if pkt.data.length = 0 then (r, [])
  else if r.curAck = pkt.seqNum then
    let ack := absorb r.recvSegments r.recvSegments.size (r.curAck + pkt.data.length)
    let r := { r with curAck := ack }.store pkt
    (r, [r.ackPkt])
  else if r.curAck > pkt.seqNum then (r, [r.ackPkt])
  else
    let r := r.store pkt
    (r, [r.ackPkt])

/-- Copy `toRead` bytes out of the packets of the list, dropping those read to the end. -/
def readLoop : List (Nat × DataPkt) → Nat → RecvWindow → ReadResult × List UInt8 × RecvWindow
  | [], _, r => (.ok, [], r)
  | (k, p) :: xs, toRead, r =>
    if toRead = 0 then (.ok, [], r)
    else
      let offset := u64Sub r.headSeq p.seqNum
      if offset > 2 ^ 30 then (.internal, [], r)
      else if offset > p.data.length then (.internal, [], r)
      else
        let pktDataLen := p.data.length - offset
        let readSize := min toRead pktDataLen
        let bytes := (p.data.drop offset).take readSize
        let r := { r with headSeq := r.headSeq + readSize }
        if readSize = pktDataLen then
          let r := { r with
            recvSegmentsSize := u64Sub r.recvSegmentsSize p.data.length
            recvSegments := r.recvSegments.erase k }
          let rest := readLoop xs (toRead - readSize) r
          (rest.1, bytes ++ rest.2.1, rest.2.2)
        else (.ok, bytes, r)

/-- The part of Read under `segs_mutex`; `none` while there is nothing to read. -/
def read (r : RecvWindow) (len : Nat) : Option (ReadResult × List UInt8 × RecvWindow) :=
  let avail := u64Sub r.curAck r.headSeq
  if !r.closeInProgress ∧ avail = 0 then none
  else if r.closeInProgress ∧ avail ≤ 1 then some (.closed, [], r)
  else if avail > 2 ^ 30 then some (.internal, [], r)
  else some (readLoop r.recvSegments.entries (min len avail) r)

/-- The number after the last byte held without a gap from `headSeq` on. -/
def contiguousEnd (r : RecvWindow) : Nat :=
  r.recvSegments.entries.foldl
    (fun e x => if x.1 ≤ e ∧ e < x.1 + pktLen x then x.1 + pktLen x else e) r.headSeq

def contiguousBytes (r : RecvWindow) : Nat :=
  r.contiguousEnd - r.headSeq

end RecvWindow

/-! ## The packets of a stream -/

/-- The packets sent are pieces of the stream `w`, whose first byte is numbered `s`, and two
of them are the same or do not overlap. -/
structure Cut (Sent : Nat → List UInt8 → Prop) (w : List UInt8) (s : Nat) : Prop where
  piece : ∀ q bs, Sent q bs → At w s q bs
  nonempty : ∀ q bs, Sent q bs → bs ≠ []
  same : ∀ q bs bs', Sent q bs → Sent q bs' → bs = bs'
  apart : ∀ q bs q' bs', Sent q bs → Sent q' bs' → q < q' → q + bs.length ≤ q'

/-- A packet that begins where all others have ended may be sent. -/
theorem Cut.snoc {Sent Sent' : Nat → List UInt8 → Prop} {w new : List UInt8} {s e : Nat}
    (h : Cut Sent w s) (hend : ∀ q bs, Sent q bs → q + bs.length ≤ e) (hat : At w s e new)
    (hSent : ∀ q bs, Sent' q bs ↔ Sent q bs ∨ bs ≠ [] ∧ q = e ∧ bs = new) : Cut Sent' w s := by
  have hlt : ∀ q bs, Sent q bs → q < e := fun q bs hq => by
    have := hend q bs hq
    have := List.length_pos_of_ne_nil (h.nonempty q bs hq)
    omega
  constructor
  · intro q bs hq
    rcases (hSent q bs).1 hq with hq | ⟨-, rfl, rfl⟩
    · exact h.piece q bs hq
    · exact hat
  · intro q bs hq
    rcases (hSent q bs).1 hq with hq | ⟨hne, -, -⟩
    · exact h.nonempty q bs hq
    · exact hne
  · intro q bs bs' hq hq'
    rcases (hSent q bs).1 hq with hq | ⟨-, rfl, rfl⟩ <;>
      rcases (hSent _ bs').1 hq' with hq' | ⟨-, he, rfl⟩
    · exact h.same q bs bs' hq hq'
    · exact absurd he (hlt q bs hq).ne
    · exact absurd (hlt _ _ hq') (lt_irrefl _)
    · rfl
  · intro q bs q' bs' hq hq' hqq
    rcases (hSent q bs).1 hq with hq | ⟨-, rfl, rfl⟩ <;>
      rcases (hSent q' bs').1 hq' with hq' | ⟨-, rfl, rfl⟩
    · exact h.apart q bs q' bs' hq hq' hqq
    · exact hend q bs hq
    · exact absurd (hlt _ _ hq') hqq.not_gt
    · exact absurd hqq (lt_irrefl _)

namespace RecvWindow

/-- The packets up to `curAck` without a gap, and those beyond. -/
structure Split (r : RecvWindow) (held ahead : List (Nat × DataPkt)) (first : Nat) : Prop where
  entries : r.recvSegments.entries = held ++ ahead
  tiles : Tiles Prod.fst pktLen first held r.curAck
  ahead_lt : ∀ x ∈ ahead, r.curAck < x.1
  first_le : first ≤ r.headSeq
  head_le : r.headSeq ≤ r.curAck
  unread : ∀ x ∈ held, r.headSeq < x.1 + pktLen x

/-- `first` is the number of the oldest byte still held, or the next one to come. -/
structure Good (Sent : Nat → List UInt8 → Prop) (w : List UInt8) (s : Nat) (read : List UInt8)
    (first : Nat) (r : RecvWindow) : Prop where
  sent : ∀ x ∈ r.recvSegments.entries, x.2.seqNum = x.1 ∧ Sent x.1 x.2.data
  split : ∃ held ahead, r.Split held ahead first
  size : r.recvSegmentsSize = (r.recvSegments.entries.map pktLen).sum
  head : r.headSeq = s + read.length
  readAt : At w s s read
  acked : r.curAck = s ∨ ∃ q bs, Sent q bs ∧ r.curAck = q + bs.length

theorem good_opened (Sent : Nat → List UInt8 → Prop) (w : List UInt8) (s capacity : Nat) :
    (opened s capacity).Good Sent w s [] s where
  sent := by simp [opened]
  split := ⟨[], [], rfl, rfl, by simp, Nat.le_refl _, Nat.le_refl _, by simp⟩
  size := by simp [opened]
  head := by simp [opened]
  readAt := ⟨Nat.le_refl _, List.nil_prefix⟩
  acked := .inl rfl

/-- The window stays good when the stream goes on and more of it is sent. -/
theorem Good.extend {Sent Sent' : Nat → List UInt8 → Prop} {w : List UInt8} {s : Nat}
    {read : List UInt8} {first : Nat} {r : RecvWindow} (h : r.Good Sent w s read first)
    (hSent : ∀ q bs, Sent q bs → Sent' q bs) (v : List UInt8) :
    r.Good Sent' (w ++ v) s read first where
  sent := fun x hx => (h.sent x hx).imp_right (hSent _ _)
  split := h.split
  size := h.size
  head := h.head
  readAt := h.readAt.extend v
  acked := h.acked.imp_right fun ⟨q, bs, hq, he⟩ => ⟨q, bs, hSent q bs hq, he⟩

/-! ## Absorbing packets -/

theorem absorb_of_none {m : OrdMap Nat DataPkt} {ack : Nat} (h : m.find? ack = none) (n : Nat) :
    absorb m n ack = ack := by
  cases n <;> simp [absorb, h]

/-- Over a list that has every packet from `c` on, `absorb` takes the part that tiles on from
`c`, and what is left lies beyond. -/
theorem absorb_split {m : OrdMap Nat DataPkt} {ahead : List (Nat × DataPkt)} {c n : Nat}
    (hmem : ∀ x ∈ ahead, x ∈ m.entries) (hall : ∀ x ∈ m.entries, c ≤ x.1 → x ∈ ahead)
    (hapart : ahead.Pairwise fun x y => x.1 + pktLen x ≤ y.1)
    (hpos : ∀ x ∈ ahead, 0 < pktLen x) (hc : ∀ x ∈ ahead, c ≤ x.1) (hn : ahead.length ≤ n) :
    ∃ l₁ l₂, ahead = l₁ ++ l₂ ∧ Tiles Prod.fst pktLen c l₁ (absorb m n c) ∧
      ∀ x ∈ l₂, absorb m n c < x.1 := by
  induction ahead generalizing c n with
  | nil =>
    have hnone : m.find? c = none := by
      rw [OrdMap.find?_eq_none]
      exact fun v hv => nomatch hall (c, v) hv (Nat.le_refl _)
    exact ⟨[], [], rfl, (absorb_of_none hnone n).symm, by simp⟩
  | cons x l ih =>
    rw [List.pairwise_cons] at hapart
    have hxpos := hpos x (by simp)
    by_cases hx : x.1 = c
    · obtain ⟨n, rfl⟩ : ∃ k, n = k + 1 := ⟨n - 1, by simp at hn; omega⟩
      have hfind : m.find? c = some x.2 := OrdMap.find?_eq_some.2 (hx ▸ hmem x (by simp))
      have habsorb : absorb m (n + 1) c = absorb m n (c + pktLen x) := by
        simp [absorb, hfind, pktLen]
      rw [habsorb]
      obtain ⟨l₁, l₂, rfl, ht, hl⟩ := ih (fun y hy => hmem y (by simp [hy]))
        (fun y hy hcy => by
          have := hall y hy (by omega)
          rcases List.mem_cons.1 this with rfl | h
          · omega
          · exact h)
        hapart.2 (fun y hy => hpos y (by simp [hy]))
        (fun y hy => hx ▸ hapart.1 y hy) (by simpa using hn)
      exact ⟨x :: l₁, l₂, rfl, ⟨hx, ht⟩, hl⟩
    · have hlt : ∀ y ∈ x :: l, c < y.1 := by
        have hcx : c < x.1 := lt_of_le_of_ne (hc x (by simp)) (Ne.symm hx)
        intro y hy
        rcases List.mem_cons.1 hy with rfl | hy
        · exact hcx
        · have := hapart.1 y hy
          omega
      have hnone : m.find? c = none := by
        rw [OrdMap.find?_eq_none]
        exact fun v hv => (hlt _ (hall (c, v) hv (Nat.le_refl _))).ne rfl
      rw [absorb_of_none hnone]
      exact ⟨[], x :: l, rfl, rfl, hlt⟩

/-- The bound on the rounds is never what ends the loop. -/
theorem find?_absorb {m : OrdMap Nat DataPkt} (hpos : ∀ x ∈ m.entries, 0 < pktLen x)
    (c n : Nat) (hn : (m.entries.filter fun x => c ≤ x.1).length ≤ n) :
    m.find? (absorb m n c) = none := by
  induction n generalizing c with
  | zero =>
    rw [absorb, OrdMap.find?_eq_none]
    intro v hv
    have : (c, v) ∈ m.entries.filter fun x => c ≤ x.1 := by simp [hv]
    rw [List.length_eq_zero_iff.1 (Nat.le_zero.1 hn)] at this
    cases this
  | succ n ih =>
    cases hf : m.find? c with
    | none => simp [absorb, hf]
    | some p =>
      have hp := OrdMap.find?_eq_some.1 hf
      have hlt : 0 < p.data.length := hpos _ hp
      simp only [absorb, hf]
      refine ih _ (Nat.lt_succ_iff.1 (lt_of_lt_of_le ?_ hn))
      -- the packet at `c` is counted before and not after
      have hsub : (m.entries.filter fun x => c + p.data.length ≤ x.1).Sublist
          (m.entries.filter fun x => c ≤ x.1) := by
        refine List.monotone_filter_right _ fun x hx => ?_
        simp only [decide_eq_true_eq] at hx ⊢
        omega
      refine lt_of_le_of_ne hsub.length_le fun heq => ?_
      have hc : (c, p) ∈ m.entries.filter fun x => c ≤ x.1 := by simp [hp]
      rw [← hsub.eq_of_length heq, List.mem_filter] at hc
      simp only [decide_eq_true_eq] at hc
      omega

/-! ## Handling a packet -/

section Handlers

variable {Sent : Nat → List UInt8 → Prop} {w : List UInt8} {s : Nat} {read : List UInt8}
  {first : Nat} {r : RecvWindow}

theorem Good.pktLen_pos (h : r.Good Sent w s read first) (hcut : Cut Sent w s) {x : Nat × DataPkt}
    (hx : x ∈ r.recvSegments.entries) : 0 < pktLen x :=
  List.length_pos_of_ne_nil (hcut.nonempty _ _ (h.sent x hx).2)

theorem Good.apart (h : r.Good Sent w s read first) (hcut : Cut Sent w s) :
    r.recvSegments.entries.Pairwise fun x y => x.1 + pktLen x ≤ y.1 := by
  refine r.recvSegments.sorted.imp_of_mem fun hx hy hlt => ?_
  exact hcut.apart _ _ _ _ (h.sent _ hx).2 (h.sent _ hy).2 hlt

/-- No packet sent straddles the acknowledged number. -/
theorem Good.boundary (h : r.Good Sent w s read first) (hcut : Cut Sent w s) {q : Nat}
    {bs : List UInt8} (hq : Sent q bs) (hlt : q < r.curAck) : q + bs.length ≤ r.curAck := by
  rcases h.acked with he | ⟨q', bs', hq', he⟩
  · have := (hcut.piece q bs hq).1
    omega
  · rcases lt_trichotomy q q' with hqq | rfl | hqq
    · have := hcut.apart _ _ _ _ hq hq' hqq
      omega
    · rw [hcut.same _ _ _ hq hq', he]
    · have := hcut.apart _ _ _ _ hq' hq hqq
      omega

/-- There is no packet at the acknowledged number itself. -/
theorem Good.find?_curAck (h : r.Good Sent w s read first) (hcut : Cut Sent w s) :
    r.recvSegments.find? r.curAck = none := by
  obtain ⟨held, ahead, hs⟩ := h.split
  rw [OrdMap.find?_eq_none]
  intro v hv
  have hpos := h.pktLen_pos hcut hv
  rw [hs.entries, List.mem_append] at hv
  rcases hv with hv | hv
  · have := (hs.tiles.mem hv).2
    simp only at this
    omega
  · exact (hs.ahead_lt _ hv).ne rfl

theorem store_of_none {pkt : DataPkt} (h : r.recvSegments.find? pkt.seqNum = none) :
    r.store pkt = { r with
      recvSegments := r.recvSegments.insert pkt.seqNum pkt
      recvSegmentsSize := r.recvSegmentsSize + pkt.data.length } := by
  simp [store, h]

theorem store_of_some {pkt old : DataPkt} (h : r.recvSegments.find? pkt.seqNum = some old) :
    r.store pkt = r := by
  simp [store, h]

@[simp] theorem curAck_store (pkt : DataPkt) : (r.store pkt).curAck = r.curAck := by
  unfold store
  split <;> rfl

@[simp] theorem headSeq_store (pkt : DataPkt) : (r.store pkt).headSeq = r.headSeq := by
  unfold store
  split <;> rfl

theorem Good.mem_insert (h : r.Good Sent w s read first) {pkt : DataPkt}
    (hpkt : Sent pkt.seqNum pkt.data) :
    ∀ x ∈ (r.recvSegments.insert pkt.seqNum pkt).entries,
      x.2.seqNum = x.1 ∧ Sent x.1 x.2.data := by
  rintro ⟨k, v⟩ hx
  rcases OrdMap.mem_insert.1 hx with ⟨rfl, rfl⟩ | ⟨-, hx⟩
  · exact ⟨rfl, hpkt⟩
  · exact h.sent _ hx

/-- The expected packet is kept, and the acknowledgement moves over all that follows. -/
theorem Good.storeNext (h : r.Good Sent w s read first) (hcut : Cut Sent w s) {pkt : DataPkt}
    (hpkt : Sent pkt.seqNum pkt.data) (hseq : r.curAck = pkt.seqNum) {ack : Nat}
    (hack : ack = absorb r.recvSegments r.recvSegments.size (r.curAck + pkt.data.length)) :
    ({ r with curAck := ack }.store pkt).Good Sent w s read first ∧ r.curAck ≤ ack := by
  obtain ⟨held, ahead, hs⟩ := h.split
  have hlen : 0 < pkt.data.length := List.length_pos_of_ne_nil (hcut.nonempty _ _ hpkt)
  have hheld : ∀ x ∈ held, x.1 < r.curAck := by
    intro x hx
    have := (hs.tiles.mem hx).2
    have := h.pktLen_pos hcut (x := x) (by simp [hs.entries, hx])
    omega
  have hmem : ∀ x ∈ ahead, x ∈ r.recvSegments.entries := fun x hx => by simp [hs.entries, hx]
  have hpast : ∀ x ∈ ahead, r.curAck + pkt.data.length ≤ x.1 := by
    intro x hx
    have hlt : pkt.seqNum < x.1 := hseq ▸ hs.ahead_lt x hx
    exact hseq ▸ hcut.apart _ _ _ _ hpkt (h.sent x (hmem x hx)).2 hlt
  obtain ⟨l₁, l₂, rfl, ht, hl₂⟩ := absorb_split (m := r.recvSegments)
    (n := r.recvSegments.size) hmem
    (fun x hx hcx => by
      rw [hs.entries, List.mem_append] at hx
      refine hx.resolve_left fun hx => ?_
      have := hheld x hx
      omega)
    ((h.apart hcut).sublist (by simp [hs.entries]))
    (fun x hx => h.pktLen_pos hcut (hmem x hx)) hpast
    (by simp only [OrdMap.size, hs.entries, List.length_append]; omega)
  rw [← hack] at ht hl₂
  have hnext : Tiles Prod.fst pktLen r.curAck ((pkt.seqNum, pkt) :: l₁) ack := ⟨hseq.symm, ht⟩
  have hentries : (r.recvSegments.insert pkt.seqNum pkt).entries =
      (held ++ (pkt.seqNum, pkt) :: l₁) ++ l₂ := by
    rw [OrdMap.entries_insert pkt hs.entries (hseq ▸ hheld) (hseq ▸ hs.ahead_lt)]
    simp
  have hle : r.curAck + pkt.data.length ≤ ack := ht.le
  rw [store_of_none (by simpa [← hseq] using h.find?_curAck hcut)]
  refine ⟨⟨h.mem_insert hpkt, ⟨held ++ (pkt.seqNum, pkt) :: l₁, l₂, ?_⟩, ?_, h.head,
    h.readAt, ?_⟩, by omega⟩
  · refine ⟨hentries, tiles_append.2 ⟨_, hs.tiles, hnext⟩, hl₂, hs.first_le,
      hs.head_le.trans (by simp only; omega), ?_⟩
    intro x hx
    rcases List.mem_append.1 hx with hx | hx
    · exact hs.unread x hx
    · have hge := (hnext.mem hx).1
      have hpos : 0 < pktLen x := by
        rcases List.mem_cons.1 hx with rfl | hx
        · exact hlen
        · exact h.pktLen_pos hcut (hmem x (by simp [hx]))
      have := hs.head_le
      simp only
      omega
  · have hsize := h.size
    simp only [hs.entries, hentries, List.map_append, List.map_cons, List.sum_append,
      List.sum_cons, pktLen] at hsize ⊢
    omega
  · obtain ⟨x, hx, hend⟩ := hnext.exists_end (by simp)
    refine .inr ⟨x.1, x.2.data, ?_, hend.symm⟩
    exact (h.mem_insert hpkt x (by simp only [hentries]; simp at hx ⊢; tauto)).2

/-- A packet beyond a gap is kept for later. -/
theorem Good.storeAhead (h : r.Good Sent w s read first) (hcut : Cut Sent w s) {pkt : DataPkt}
    (hpkt : Sent pkt.seqNum pkt.data) (hseq : r.curAck < pkt.seqNum) :
    (r.store pkt).Good Sent w s read first := by
  cases hf : r.recvSegments.find? pkt.seqNum with
  | some old => rwa [store_of_some hf]
  | none =>
    obtain ⟨held, ahead, hs⟩ := h.split
    have hheld : ∀ x ∈ held, x.1 < pkt.seqNum := by
      intro x hx
      have := (hs.tiles.mem hx).2
      have := h.pktLen_pos hcut (x := x) (by simp [hs.entries, hx])
      omega
    have hentries := OrdMap.entries_insert_right pkt hs.entries hheld
    have hperm : (OrdMap.insertEntry pkt.seqNum pkt ahead).Perm ((pkt.seqNum, pkt) :: ahead) := by
      refine OrdMap.insertEntry_perm pkt fun x hx hxk => ?_
      refine OrdMap.find?_eq_none.1 hf x.2 ?_
      rw [hs.entries, ← hxk]
      exact List.mem_append_right _ hx
    rw [store_of_none hf]
    refine ⟨h.mem_insert hpkt, ⟨held, _, hentries, hs.tiles, ?_, hs.first_le, hs.head_le,
      hs.unread⟩, ?_, h.head, h.readAt, h.acked⟩
    · intro x hx
      rcases List.mem_cons.1 (hperm.subset hx) with rfl | hx
      · exact hseq
      · exact hs.ahead_lt x hx
    · have hsize := h.size
      have hsum := (hperm.map pktLen).sum_eq
      simp only [hs.entries, hentries, List.map_append, List.map_cons, List.sum_append,
        List.sum_cons, pktLen] at hsize hsum ⊢
      omega

/-- A packet of the stream, new or old, leaves the window good, and what is acknowledged is
the acknowledged number of the window. -/
theorem Good.handleData (h : r.Good Sent w s read first) (hcut : Cut Sent w s) {pkt : DataPkt}
    (hpkt : pkt.data ≠ [] → Sent pkt.seqNum pkt.data) :
    (r.handleData pkt).1.Good Sent w s read first ∧ r.curAck ≤ (r.handleData pkt).1.curAck ∧
      ∀ a ∈ (r.handleData pkt).2, a.ackNum = (r.handleData pkt).1.curAck := by
  simp only [RecvWindow.handleData]
  split_ifs with hlen hnext hold
  · exact ⟨h, Nat.le_refl _, by simp⟩
  · have hsent := hpkt (List.length_eq_zero_iff.not.1 hlen)
    obtain ⟨hgood, hle⟩ := h.storeNext hcut hsent hnext rfl
    exact ⟨hgood, by simpa using hle, by simp [ackPkt]⟩
  · exact ⟨h, Nat.le_refl _, by simp [ackPkt]⟩
  · have hsent := hpkt (List.length_eq_zero_iff.not.1 hlen)
    exact ⟨h.storeAhead hcut hsent (by omega), by simp, by simp [ackPkt]⟩

/-! ## Reading -/

/-- While there is something to read, the packet in front holds the next byte. -/
theorem Good.front (h : r.Good Sent w s read first) {k : Nat} {p : DataPkt}
    {xs : List (Nat × DataPkt)} (hxs : r.recvSegments.entries = (k, p) :: xs)
    (hlt : r.headSeq < r.curAck) :
    ∃ held ahead, xs = held ++ ahead ∧ r.Split ((k, p) :: held) ahead first := by
  obtain ⟨held, ahead, hs⟩ := h.split
  cases held with
  | nil =>
    have hfirst : first = r.curAck := hs.tiles
    have := hs.first_le
    omega
  | cons y held =>
    obtain ⟨rfl, rfl⟩ : y = (k, p) ∧ held ++ ahead = xs := by simpa [hs.entries] using hxs
    exact ⟨held, ahead, rfl, hs⟩

/-- Reading `n` bytes of the packet in front. -/
theorem Good.readAt_append (h : r.Good Sent w s read first) (hcut : Cut Sent w s) {k n : Nat}
    {p : DataPkt} (hp : Sent k p.data) (hk : k ≤ r.headSeq)
    (hn : r.headSeq - k + n ≤ p.data.length) :
    At w s s (read ++ (p.data.drop (r.headSeq - k)).take n) ∧
      r.headSeq + n = s + (read ++ (p.data.drop (r.headSeq - k)).take n).length := by
  constructor
  · have hpiece := ((hcut.piece k p.data hp).drop (r.headSeq - k)).take n
    rw [Nat.add_sub_cancel' hk, h.head] at hpiece
    rw [h.head]
    exact h.readAt.append hpiece
  · have := h.head
    simp only [List.length_append, List.length_take, List.length_drop]
    omega

/-- Reading out of the packets in front keeps the window good. -/
theorem Good.readLoop (h : r.Good Sent w s read first) (hcut : Cut Sent w s)
    {xs : List (Nat × DataPkt)} {toRead : Nat} (hxs : r.recvSegments.entries = xs)
    (hread : r.headSeq + toRead ≤ r.curAck) :
    ∃ first', first ≤ first' ∧
      (readLoop xs toRead r).2.2.Good Sent w s (read ++ (readLoop xs toRead r).2.1) first' ∧
      (readLoop xs toRead r).2.2.curAck = r.curAck := by
  induction xs generalizing r read first toRead with
  | nil => exact ⟨first, Nat.le_refl _, by simpa [RecvWindow.readLoop] using h, rfl⟩
  | cons x xs ih =>
    obtain ⟨k, p⟩ := x
    have hsame : ∃ first', first ≤ first' ∧ r.Good Sent w s (read ++ []) first' ∧
        r.curAck = r.curAck := ⟨first, Nat.le_refl _, by simpa using h, rfl⟩
    by_cases hzero : toRead = 0
    · simpa [RecvWindow.readLoop, hzero] using hsame
    obtain ⟨held, ahead, rfl, hs⟩ := h.front hxs (by omega)
    obtain ⟨hk, htiles⟩ : k = first ∧ Tiles Prod.fst pktLen (first + p.data.length) held _ :=
      hs.tiles
    have hp : p.seqNum = k ∧ Sent k p.data := h.sent (k, p) (by simp [hxs])
    have hfirst := hs.first_le
    have hunread : r.headSeq < k + p.data.length := hs.unread (k, p) (by simp)
    have hoff : u64Sub r.headSeq p.seqNum = r.headSeq - k := by
      rw [hp.1, u64Sub_of_le]
      omega
    have hheld : ∀ x ∈ held, k + p.data.length < x.1 + pktLen x := by
      intro x hx
      have := (htiles.mem hx).1
      have := h.pktLen_pos hcut (x := x) (by simp [hxs, hx])
      omega
    simp only [RecvWindow.readLoop, hzero, if_false, hoff]
    split_ifs with hgap hover hwhole
    · exact hsame
    · exact hsame
    · -- the packet is read to its end and dropped
      have hle := htiles.le
      rw [hwhole]
      obtain ⟨hat, hhead⟩ := h.readAt_append hcut (n := p.data.length - (r.headSeq - k)) hp.2
        (by omega) (by omega)
      have hnext : r.headSeq + (p.data.length - (r.headSeq - k)) = k + p.data.length := by omega
      have hentries := OrdMap.entries_erase_head hxs
      have hgood : RecvWindow.Good Sent w s
          (read ++ (p.data.drop (r.headSeq - k)).take (p.data.length - (r.headSeq - k)))
          (k + p.data.length)
          { r with
            headSeq := r.headSeq + (p.data.length - (r.headSeq - k))
            recvSegmentsSize := u64Sub r.recvSegmentsSize p.data.length
            recvSegments := r.recvSegments.erase k } := by
        refine ⟨?_, ⟨held, ahead, hentries, ?_, hs.ahead_lt, ?_, ?_, ?_⟩, ?_, hhead, hat, h.acked⟩
        · intro x hx
          rw [hentries] at hx
          exact h.sent x (by rw [hxs]; exact List.mem_cons_of_mem _ hx)
        · exact hk ▸ htiles
        · exact hnext.ge
        · simp only
          omega
        · simpa only [hnext] using hheld
        · have hsize := h.size
          simp only [hxs, hentries, List.map_cons, List.sum_cons, pktLen] at hsize ⊢
          rw [u64Sub_of_le (by omega)]
          omega
      have hrest : r.headSeq + (p.data.length - (r.headSeq - k)) +
          (toRead - (p.data.length - (r.headSeq - k))) ≤ r.curAck := by
        omega
      obtain ⟨first', hle', hgood', hack⟩ := ih hgood hentries hrest
      exact ⟨first', by omega, by simpa [List.append_assoc] using hgood', hack⟩
    · -- part of the packet stays
      have hn : min toRead (p.data.length - (r.headSeq - k)) = toRead := by omega
      rw [hn]
      obtain ⟨hat, hhead⟩ := h.readAt_append hcut (n := toRead) hp.2 (by omega) (by omega)
      refine ⟨first, Nat.le_refl _, ⟨h.sent, ⟨_, _, hs.entries, hs.tiles, hs.ahead_lt, ?_, hread,
        ?_⟩, h.size, hhead, hat, h.acked⟩, rfl⟩
      · simp only
        omega
      · intro x hx
        rcases List.mem_cons.1 hx with rfl | hx
        · simp only [pktLen]
          omega
        · have := hheld x hx
          simp only
          omega

/-- Whatever Read returns, it is the next part of the stream. -/
theorem Good.of_read {result : ReadResult} {bytes : List UInt8} {r' : RecvWindow} {len : Nat}
    (h : r.Good Sent w s read first) (hcut : Cut Sent w s)
    (he : r.read len = some (result, bytes, r')) :
    ∃ first', first ≤ first' ∧ r'.Good Sent w s (read ++ bytes) first' ∧
      r'.curAck = r.curAck := by
  obtain ⟨held, ahead, hs⟩ := h.split
  simp only [RecvWindow.read, u64Sub_of_le hs.head_le] at he
  split_ifs at he
  · obtain ⟨-, rfl, rfl⟩ := by simpa using he
    exact ⟨first, Nat.le_refl _, by simpa using h, rfl⟩
  · obtain ⟨-, rfl, rfl⟩ := by simpa using he
    exact ⟨first, Nat.le_refl _, by simpa using h, rfl⟩
  · have havail : r.headSeq + min len (r.curAck - r.headSeq) ≤ r.curAck := by
      have := hs.head_le
      omega
    have hloop := h.readLoop hcut rfl havail
    rw [Option.some.inj he] at hloop
    exact hloop

/-! ## What is held without a gap -/

theorem foldl_contiguous_of_tiles {held : List (Nat × DataPkt)} {e b : Nat}
    (ht : Tiles Prod.fst pktLen e held b) (hpos : ∀ x ∈ held, 0 < pktLen x) :
    held.foldl (fun e x => if x.1 ≤ e ∧ e < x.1 + pktLen x then x.1 + pktLen x else e) e = b := by
  induction held generalizing e with
  | nil => exact ht
  | cons x held ih =>
    obtain ⟨rfl, ht⟩ := ht
    have := hpos x (by simp)
    rw [List.foldl_cons, if_pos (by omega)]
    exact ih ht fun y hy => hpos y (by simp [hy])

theorem foldl_contiguous_of_lt {ahead : List (Nat × DataPkt)} {e : Nat}
    (hlt : ∀ x ∈ ahead, e < x.1) :
    ahead.foldl (fun e x => if x.1 ≤ e ∧ e < x.1 + pktLen x then x.1 + pktLen x else e) e = e := by
  induction ahead with
  | nil => rfl
  | cons x ahead ih =>
    have := hlt x (by simp)
    rw [List.foldl_cons, if_neg (by omega)]
    exact ih fun y hy => hlt y (by simp [hy])

/-- What is acknowledged is what is held without a gap. -/
theorem Good.contiguousEnd (h : r.Good Sent w s read first) (hcut : Cut Sent w s) :
    r.contiguousEnd = r.curAck := by
  obtain ⟨held, ahead, hs⟩ := h.split
  simp only [RecvWindow.contiguousEnd, hs.entries, List.foldl_append]
  suffices hheld : held.foldl
      (fun e x => if x.1 ≤ e ∧ e < x.1 + pktLen x then x.1 + pktLen x else e) r.headSeq =
      r.curAck by
    rw [hheld]
    exact foldl_contiguous_of_lt hs.ahead_lt
  cases held with
  | nil =>
    have hfirst : first = r.curAck := hs.tiles
    have := hs.first_le
    have := hs.head_le
    simp only [List.foldl_nil]
    omega
  | cons x held =>
    obtain ⟨hk, ht⟩ := hs.tiles
    have hfirst := hs.first_le
    have := hs.unread x (by simp)
    rw [List.foldl_cons, if_pos (by omega), hk]
    exact foldl_contiguous_of_tiles ht fun y hy => h.pktLen_pos hcut (by simp [hs.entries, hy])

end Handlers

end RecvWindow

end PersonalCloud.Ts2.Transport
