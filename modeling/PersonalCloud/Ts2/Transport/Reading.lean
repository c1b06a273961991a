import PersonalCloud.Ts2.Transport.Tunnel

/-!
# What Read returns

Read takes `curAck - headSeq` for the number of bytes it may return and, once the tunnel is
closing, takes one off for the FIN. `RecvWindow.unread` is what the window really holds for the
reader: the bytes of the packets that follow one another from `headSeq` on. `readLoop_spec` says
what the loop over the packets does with a number of bytes to read, whatever `curAck` is, and
`Tunnel.readDrains_iff` when a Read under a closing tunnel returns what is there.
-/

namespace PersonalCloud.Ts2.Transport

open PersonalCloud.Lib

def ReadResult.toTSError : ReadResult → TSError
  | .ok => .ok
  | .closed => .closed
  | .internal => .internal

theorem ReadResult.toTSError_eq_ok {result : ReadResult} : result.toTSError = .ok ↔ result = .ok := by
  cases result <;> simp [toTSError]

/-! ## The bytes that are there -/

/-- The bytes held without a gap from a position on. -/
def unreadFrom : Nat → List (Nat × DataPkt) → List UInt8
  | _, [] => []
  | pos, (k, p) :: xs =>
    if k ≤ pos ∧ pos < k + p.data.length then
      p.data.drop (pos - k) ++ unreadFrom (k + p.data.length) xs
    else unreadFrom pos xs

/-- Packets as an honest sender cuts them, none numbered anywhere near `2 ^ 64`. -/
structure Pieces (xs : List (Nat × DataPkt)) : Prop where
  keyed : ∀ x ∈ xs, x.2.seqNum = x.1
  nonempty : ∀ x ∈ xs, 0 < pktLen x
  bounded : ∀ x ∈ xs, x.1 < 2 ^ 63
  apart : xs.Pairwise fun x y => x.1 + pktLen x ≤ y.1

/-- A packet that begins at or before the position reaches up to it, and is not too far away
for the loop of Read. -/
def Reaches (pos : Nat) (x : Nat × DataPkt) : Prop :=
  x.1 ≤ pos → pos ≤ x.1 + pktLen x ∧ pos - x.1 ≤ 2 ^ 30

theorem Pieces.tail {x : Nat × DataPkt} {xs : List (Nat × DataPkt)} (h : Pieces (x :: xs)) :
    Pieces xs where
  keyed := fun y hy => h.keyed y (by simp [hy])
  nonempty := fun y hy => h.nonempty y (by simp [hy])
  bounded := fun y hy => h.bounded y (by simp [hy])
  apart := (List.pairwise_cons.1 h.apart).2

/-- Nothing is held at a position that all packets lie beyond. -/
theorem unreadFrom_of_lt {pos : Nat} {xs : List (Nat × DataPkt)} (h : ∀ x ∈ xs, pos < x.1) :
    unreadFrom pos xs = [] := by
  induction xs with
  | nil => rfl
  | cons x xs ih =>
    have hx := h x (by simp)
    rw [unreadFrom, if_neg (by omega)]
    exact ih fun y hy => h y (by simp [hy])

namespace RecvWindow

def unread (r : RecvWindow) : List UInt8 :=
  unreadFrom r.headSeq r.recvSegments.entries

/-- What Read takes for the number of bytes to read. -/
def available (r : RecvWindow) : Nat := u64Sub r.curAck r.headSeq

/-! ## The loop of Read -/

section Loop

variable {xs : List (Nat × DataPkt)} {n : Nat} {r : RecvWindow}

theorem u64Sub_far {pos k : Nat} (hlt : pos < k) (hk : k < 2 ^ 63) : u64Sub pos k > 2 ^ 30 := by
  unfold u64Sub
  rw [if_neg (by omega)]
  omega

/-- The loop returns the first `n` of the bytes that are there. It ends in an error if there
are fewer and a packet lies beyond them. -/
theorem readLoop_spec (h : Pieces xs) (hreach : ∀ x ∈ xs, Reaches r.headSeq x) :
    (readLoop xs n r).2.1 = (unreadFrom r.headSeq xs).take n ∧
      ((readLoop xs n r).1 = .ok ↔ n ≤ (unreadFrom r.headSeq xs).length ∨
        ∀ x ∈ xs, x.1 < r.headSeq + (unreadFrom r.headSeq xs).length) := by
  induction xs generalizing n r with
  | nil => simp [readLoop, unreadFrom]
  | cons x xs ih =>
    obtain ⟨k, p⟩ := x
    by_cases hzero : n = 0
    · simp [readLoop, hzero]
    have hkey : p.seqNum = k := h.keyed (k, p) (by simp)
    have hlen : 0 < p.data.length := h.nonempty (k, p) (by simp)
    have hrest : ∀ x ∈ xs, k + p.data.length ≤ x.1 := (List.pairwise_cons.1 h.apart).1
    by_cases hle : k ≤ r.headSeq
    · obtain ⟨hend, hnear⟩ := hreach (k, p) (by simp) hle
      have hend : r.headSeq ≤ k + p.data.length := hend
      have hoff : u64Sub r.headSeq p.seqNum = r.headSeq - k := by rw [hkey, u64Sub_of_le hle]
      have hunread : unreadFrom r.headSeq ((k, p) :: xs) =
          p.data.drop (r.headSeq - k) ++ unreadFrom (k + p.data.length) xs := by
        rw [unreadFrom]
        split
        · rfl
        · -- the packet ends at the position
          have hpos : r.headSeq = k + p.data.length := by omega
          have hdrop : p.data.drop (r.headSeq - k) = [] := List.drop_eq_nil_of_le (by omega)
          rw [hdrop, List.nil_append, hpos]
      simp only [readLoop, hzero, if_false, hoff, if_neg (Nat.not_lt.2 hnear), hunread]
      rw [if_neg (by omega)]
      split
      next hwhole =>
        -- the packet is read to its end
        have hnext : r.headSeq + min n (p.data.length - (r.headSeq - k)) = k + p.data.length := by
          omega
        obtain ⟨hbytes, hok⟩ := ih (n := n - min n (p.data.length - (r.headSeq - k)))
          (r := { r with
            headSeq := r.headSeq + min n (p.data.length - (r.headSeq - k))
            recvSegmentsSize := u64Sub r.recvSegmentsSize p.data.length
            recvSegments := r.recvSegments.erase k }) h.tail fun y hy hyle => by
              have hyk := hrest y hy
              simp only [hnext] at hyle ⊢
              omega
        simp only [hnext] at hbytes hok
        simp only [hnext, hbytes, hok, List.length_append, List.length_drop, List.forall_mem_cons]
        constructor
        · rw [hwhole, List.take_append, List.length_drop]
          congr 1
          rw [List.take_of_length_le (by rw [List.length_drop]),
            List.take_of_length_le (by rw [List.length_drop]; omega)]
        · have hsum : r.headSeq + (p.data.length - (r.headSeq - k) +
              (unreadFrom (k + p.data.length) xs).length) =
              k + p.data.length + (unreadFrom (k + p.data.length) xs).length := by omega
          rw [hsum]
          constructor
          · exact Or.imp (fun hn => by omega) fun hall => ⟨by omega, hall⟩
          · exact Or.imp (fun hn => by omega) And.right
      next hpart =>
        have hmin : min n (p.data.length - (r.headSeq - k)) = n := by omega
        have hn : n ≤ (p.data.drop (r.headSeq - k)).length := by
          rw [List.length_drop]
          omega
        rw [hmin, List.take_append_of_le_length hn]
        refine ⟨rfl, iff_of_true rfl (.inl ?_)⟩
        rw [List.length_append]
        omega
    · have hlt : ∀ x ∈ (k, p) :: xs, r.headSeq < x.1 := by
        rintro x hx
        rcases List.mem_cons.1 hx with rfl | hx
        · simp only
          omega
        · have := hrest x hx
          omega
      have hfar : u64Sub r.headSeq p.seqNum > 2 ^ 30 := by
        rw [hkey]
        exact u64Sub_far (by omega) (h.bounded (k, p) (by simp))
      simp only [readLoop, hzero, if_false, if_pos hfar, unreadFrom_of_lt hlt]
      refine ⟨by simp, iff_of_false (by simp) ?_⟩
      rintro (hn | hall)
      · simp at hn
        exact hzero hn
      · have := hall (k, p) (by simp)
        simp at this
        omega

/-- A packet that the loop cannot go over stands in front of those it could. -/
theorem readLoop_eq_internal (h : Pieces xs) (hn : 0 < n)
    (hreach : ¬∀ x ∈ xs, Reaches r.headSeq x) : (readLoop xs n r).1 = .internal := by
  cases xs with
  | nil => exact absurd (by simp) hreach
  | cons x xs =>
    obtain ⟨k, p⟩ := x
    have hkey : p.seqNum = k := h.keyed (k, p) (by simp)
    have hlen : 0 < p.data.length := h.nonempty (k, p) (by simp)
    have hrest : ∀ x ∈ xs, k + p.data.length ≤ x.1 := (List.pairwise_cons.1 h.apart).1
    by_cases hfront : Reaches r.headSeq (k, p)
    · -- what lies behind a packet that reaches the position reaches it too
      refine absurd (List.forall_mem_cons.2 ⟨hfront, fun x hx hle => ?_⟩) hreach
      have hxk := hrest x hx
      have hend := (hfront (by simp only; omega)).1
      simp only [pktLen] at hend
      omega
    · rw [Reaches, Classical.not_imp] at hfront
      obtain ⟨hle, hfront⟩ := hfront
      simp only [pktLen] at hle hfront
      have hoff : u64Sub r.headSeq p.seqNum = r.headSeq - k := by rw [hkey, u64Sub_of_le hle]
      rw [readLoop, if_neg (by omega)]
      simp only [hoff]
      split_ifs with hfar hover
      · rfl
      · rfl
      · omega
      · omega

end Loop

/-- What a Read that has passed the test of the state returns; `none` while it waits. -/
def readReply (r : RecvWindow) (len : Nat) : Option (TSError × List UInt8) :=
  (r.read len).map fun x => (x.1.toTSError, x.2.1)

end RecvWindow

/-- A reply of Read is `closed` only when nothing is unread; while something is, it brings some
of it, from the front. -/
structure Drains (unread : List UInt8) (reply : Option (TSError × List UInt8)) : Prop where
  closed : ∀ bytes, reply = some (.closed, bytes) → unread = []
  some : unread ≠ [] → ∃ bytes, reply = some (.ok, bytes) ∧ bytes ≠ [] ∧ bytes <+: unread

theorem Drains.of_nil (reply : Option (TSError × List UInt8)) : Drains [] reply where
  closed := fun _ _ => rfl
  some := fun h => absurd rfl h

namespace RecvWindow

variable {r : RecvWindow} {len : Nat}

/-- The window lets a Read of `len` bytes have some of those it holds: what Read takes to be
there is in the range it accepts, no packet in front is in the way, and the read does not go
beyond what is held unless nothing lies there. -/
structure Readable (r : RecvWindow) (len : Nat) : Prop where
  two_le : 2 ≤ r.available
  le : r.available ≤ 2 ^ 30
  reaches : ∀ x ∈ r.recvSegments.entries, Reaches r.headSeq x
  inside : min len r.available ≤ r.unread.length ∨
    ∀ x ∈ r.recvSegments.entries, x.1 < r.headSeq + r.unread.length

/-- Once two bytes seem to be there, Read goes through its loop. -/
theorem drains_readReply_iff (hpieces : Pieces r.recvSegments.entries) (hlen : 0 < len)
    (hne : r.unread ≠ []) (htwo : 2 ≤ r.available) :
    Drains r.unread (r.readReply len) ↔ r.Readable len := by
  have hpos : 0 < min len r.available := by omega
  have hread : r.read len =
      if r.available > 2 ^ 30 then some (.internal, [], r)
      else some (readLoop r.recvSegments.entries (min len r.available) r) := by
    unfold available at htwo ⊢
    unfold read
    rw [if_neg (by omega), if_neg (by omega)]
  have hreply : Drains r.unread (r.readReply len) ↔
      ∃ bytes, r.readReply len = some (.ok, bytes) ∧ bytes ≠ [] ∧ bytes <+: r.unread := by
    refine ⟨fun h => h.some hne, fun ⟨bytes, he, hbytes⟩ => ⟨?_, fun _ => ⟨bytes, he, hbytes⟩⟩⟩
    intro bytes' he'
    rw [he] at he'
    cases he'
  rw [hreply, readReply, hread]
  by_cases hbig : r.available > 2 ^ 30
  · rw [if_pos hbig]
    exact iff_of_false (by simp [ReadResult.toTSError]) fun h => absurd h.le (by omega)
  by_cases hreach : ∀ x ∈ r.recvSegments.entries, Reaches r.headSeq x
  · obtain ⟨hbytes, hok⟩ := readLoop_spec (n := min len r.available) hpieces hreach
    rw [if_neg hbig]
    have htake : (r.unread.take (min len r.available)) ≠ [] := by
      simp only [ne_eq, List.take_eq_nil_iff, not_or]
      exact ⟨by omega, hne⟩
    constructor
    · rintro ⟨bytes, he, -, -⟩
      rw [Option.map_some, Option.some.injEq, Prod.mk.injEq, ReadResult.toTSError_eq_ok] at he
      exact ⟨htwo, by omega, hreach, hok.1 he.1⟩
    · intro h
      have hres := hok.2 h.inside
      refine ⟨_, ?_, htake, List.take_prefix ..⟩
      rw [Option.map_some, hres, hbytes]
      rfl
  · have hres := readLoop_eq_internal hpieces hpos hreach
    rw [if_neg hbig]
    exact iff_of_false (by simp [hres, ReadResult.toTSError]) fun h => hreach h.reaches

end RecvWindow

/-! ## Read under a closing tunnel -/

namespace Tunnel

/-- The test that Read makes under the tunnel mutex. -/
def readCheck (s : Tunnel) : TSError :=
  if s.state ≠ .opened ∧ s.state ≠ .closing then .wrongState
  else if s.state = .closing ∧ (s.recv.recvSegments.size = 0 ∨ s.recv.available ≤ 1) then .closed
  else .ok

/-- What a call of Read returns; `none` if it waits. -/
def readCall (s : Tunnel) (len : Nat) : Option (TSError × List UInt8) :=
  if s.readCheck ≠ .ok then some (s.readCheck, []) else s.recv.readReply len

/-- Close has begun: a FIN was received, or this end called Close, WaitForClose or
ForceClose. -/
def CloseStarted (s : Tunnel) : Prop :=
  s.state = .closing ∨ s.state = .closeWait ∨ s.state = .closed

/-- A Read that is called now, and one that was let in before and takes its turn now, return
what is there before they report that the tunnel is closed. -/
structure ReadDrains (s : Tunnel) (len : Nat) : Prop where
  call : Drains s.recv.unread (s.readCall len)
  turn : Drains s.recv.unread (s.recv.readReply len)

theorem readDrains_iff {s : Tunnel} {len : Nat} (hpieces : Pieces s.recv.recvSegments.entries)
    (hclose : s.CloseStarted) (hlen : 0 < len) :
    s.ReadDrains len ↔ s.recv.unread = [] ∨ s.state = .closing ∧ s.recv.Readable len := by
  by_cases hne : s.recv.unread = []
  · refine iff_of_true ⟨?_, ?_⟩ (.inl hne)
    · rw [hne]
      exact .of_nil _
    · rw [hne]
      exact .of_nil _
  have hsize : s.recv.recvSegments.size ≠ 0 := by
    intro h
    rw [OrdMap.size, List.length_eq_zero_iff] at h
    exact hne (by rw [RecvWindow.unread, h]; rfl)
  simp only [hne, false_or]
  constructor
  · intro h
    obtain ⟨bytes, he, -, -⟩ := h.call.some hne
    unfold readCall at he
    split at he
    next hcheck =>
      rw [Option.some.injEq, Prod.mk.injEq] at he
      exact absurd he.1 hcheck
    next hcheck =>
      rw [not_not, readCheck] at hcheck
      split_ifs at hcheck with hstate havail
      have hclosing : s.state = .closing := by
        rcases hclose with h | h | h <;> simp_all
      have htwo : 2 ≤ s.recv.available := by
        by_contra hlt
        exact havail ⟨hclosing, .inr (by omega)⟩
      refine ⟨hclosing, (RecvWindow.drains_readReply_iff hpieces hlen hne htwo).1 ?_⟩
      exact h.turn
  · rintro ⟨hclosing, hreadable⟩
    have htwo := hreadable.two_le
    have hturn := (RecvWindow.drains_readReply_iff hpieces hlen hne htwo).2 hreadable
    have hcheck : s.readCheck = .ok := by
      rw [readCheck, if_neg (by simp [hclosing]), if_neg]
      rintro ⟨-, h | h⟩
      · exact hsize h
      · omega
    refine ⟨?_, hturn⟩
    rw [readCall, if_neg (by simp [hcheck])]
    exact hturn

end Tunnel

end PersonalCloud.Ts2.Transport
