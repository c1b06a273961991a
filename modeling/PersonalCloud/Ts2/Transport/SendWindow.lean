import PersonalCloud.Lib.OrdMap
import Mathlib.Logic.Function.Basic
import Mathlib.Tactic.Ring

/-!
# The sending window of a tunnel

`SendWindow` holds the buffers that calls of Write wait on, the segments cut from them and
sent, and the schedule of retransmissions. A segment is one object that two maps point to:
`sendSegments` by its sequence number and `retrySegments` by the time it is to be sent
again. The objects are cells of `heap`, so that a pointer left behind in one map is seen as
such, and a freed cell is `none`.

Sequence numbers and sizes are natural numbers: a tunnel never counts up to `2 ^ 64` bytes.
Subtractions are written with `u64Sub`, which wraps as the code's do. The round-trip
estimate is kept in floating point by the code; here the interval it leads to is an
argument of the operations that use it. Which threads a condition variable wakes is left to
the systems built from these operations.
-/

namespace PersonalCloud.Ts2.Transport

open PersonalCloud.Lib

/-- Subtraction of 64-bit counters, which wraps below zero. -/
def u64Sub (a b : Nat) : Nat :=
  if b ≤ a then a - b else a + 2 ^ 64 - b

theorem u64Sub_of_le {a b : Nat} (h : b ≤ a) : u64Sub a b = a - b :=
  if_pos h

inductive PktType where
  | syn | synAck | ack | data | fin | finAck
  deriving DecidableEq, Repr

/-- The memory a call of Write sends from. -/
structure Buffer where
  owner : Nat
  bytes : List UInt8
  deriving DecidableEq, Repr

/-- A pointer into a buffer. -/
structure DataRef where
  buffer : Buffer
  offset : Nat
  deriving DecidableEq, Repr

def DataRef.read (d : DataRef) (size : Nat) : List UInt8 :=
  (d.buffer.bytes.drop d.offset).take size

/-- A packet that waits for its acknowledgement. -/
structure SendSegment where
  pktType : PktType
  seqNum : Nat
  ackNum : Nat
  data : Option DataRef
  dataSize : Nat
  sendTimestamp : Nat
  retryRound : Nat
  retryInterval : Nat
  headSeqIndex : Nat
  deriving DecidableEq, Repr

namespace SendSegment

/-- The time the segment is to be sent again. Times are 64-bit and wrap. -/
def retryKey (seg : SendSegment) : Nat :=
  (seg.sendTimestamp + seg.retryInterval) % 2 ^ 64

/-- The segment after one more transmission, with its interval doubled up to a bound. -/
def backOff (seg : SendSegment) (now maxRound interval : Nat) : SendSegment :=
  let round := min (seg.retryRound * 2) maxRound
  { seg with
    retryRound := round
    retryInterval := round * interval
    sendTimestamp := now }

def payload (seg : SendSegment) : List UInt8 :=
  match seg.data with
  | none => []
  | some d => d.read seg.dataSize

end SendSegment

/-- The segment of a SYN, a SYN_ACK or a FIN. -/
def ctrlSegment (pktType : PktType) (seqNum ackNum now interval : Nat) : SendSegment where
  pktType := pktType
  seqNum := seqNum
  ackNum := ackNum
  data := none
  dataSize := 0
  sendTimestamp := now
  retryRound := 1
  retryInterval := interval
  headSeqIndex := seqNum

/-- A buffer of a Write call in progress. -/
structure SendBuffer where
  buffer : Buffer
  headSeq : Nat
  sendAborted : Bool
  deriving DecidableEq, Repr

def SendBuffer.size (b : SendBuffer) : Nat :=
  b.buffer.bytes.length

abbrev SegPtr := Nat

structure SendWindow where
  heap : SegPtr → Option SendSegment
  nextPtr : SegPtr
  sendSegments : OrdMap Nat SegPtr
  retrySegments : OrdMap Nat SegPtr
  sendBuffers : OrdMap Nat SendBuffer
  sendSegmentsSize : Nat
  sendBuffersSize : Nat
  windowCapacity : Nat
  segmentSize : Nat
  curSeq : Nat
  currBufferIndex : Nat
  currBufferOffset : Nat
  nextBufferIndex : Nat

namespace SendWindow

/-- The window of a tunnel just opened, its next byte to send numbered `seq`. -/
def opened (seq windowCapacity segmentSize : Nat) : SendWindow where
  heap := fun _ => none
  nextPtr := 0
  sendSegments := .empty
  retrySegments := .empty
  sendBuffers := .empty
  sendSegmentsSize := 0
  sendBuffersSize := 0
  windowCapacity := windowCapacity
  segmentSize := segmentSize
  curSeq := seq
  currBufferIndex := seq
  currBufferOffset := 0
  nextBufferIndex := seq

def isAvailableWindow (w : SendWindow) : Bool :=
  u64Sub w.windowCapacity w.sendSegmentsSize ≥ w.segmentSize

def isAvailableBufferToSend (w : SendWindow) : Bool :=
  w.nextBufferIndex > w.currBufferIndex + w.currBufferOffset

/-! ## Buffers -/

/-- Queue a buffer behind the others; `none` when its index is taken. -/
def appendToBuffers (w : SendWindow) (buffer : Buffer) : Option (Nat × SendWindow) :=
  if (w.sendBuffers.find? w.nextBufferIndex).isSome then none
  else some (w.nextBufferIndex,
    { w with
      sendBuffers := w.sendBuffers.insert w.nextBufferIndex
        { buffer := buffer, headSeq := w.nextBufferIndex, sendAborted := false }
      -- with everything queued already sent, this buffer is the one to send next
      currBufferIndex :=
        if w.sendSegmentsSize = w.sendBuffersSize then w.nextBufferIndex else w.currBufferIndex
      sendBuffersSize := w.sendBuffersSize + buffer.bytes.length
      nextBufferIndex := w.nextBufferIndex + buffer.bytes.length })

theorem of_appendToBuffers {w w' : SendWindow} {buffer : Buffer} {i : Nat}
    (h : w.appendToBuffers buffer = some (i, w')) :
    w.sendBuffers.find? w.nextBufferIndex = none ∧ i = w.nextBufferIndex ∧
      w' = { w with
        sendBuffers := w.sendBuffers.insert w.nextBufferIndex ⟨buffer, w.nextBufferIndex, false⟩
        currBufferIndex :=
          if w.sendSegmentsSize = w.sendBuffersSize then w.nextBufferIndex
          else w.currBufferIndex
        sendBuffersSize := w.sendBuffersSize + buffer.bytes.length
        nextBufferIndex := w.nextBufferIndex + buffer.bytes.length } := by
  unfold appendToBuffers at h
  split at h
  · cases h
  next hnone =>
    obtain ⟨rfl, rfl⟩ := Prod.mk.inj (Option.some.inj h)
    exact ⟨by simpa using hnone, rfl, rfl⟩

/-- The leading buffers that an acknowledgement covers. -/
def ackedBuffers (w : SendWindow) (latestAck : Nat) : List (Nat × SendBuffer) :=
  w.sendBuffers.entries.takeWhile fun x => latestAck ≥ x.2.headSeq + x.2.size

def ackBuffers (w : SendWindow) (latestAck : Nat) : SendWindow :=
  (w.ackedBuffers latestAck).foldl
    (fun w x =>
      { w with
        sendBuffersSize := u64Sub w.sendBuffersSize x.2.size
        sendBuffers := w.sendBuffers.erase x.1 }) w

/-- The first part of Clear: the buffers stay, for their callers to find them aborted. -/
def abortBuffers (w : SendWindow) : SendWindow :=
  { w with sendBuffers := w.sendBuffers.mapVal fun b => { b with sendAborted := true } }

/-! ## Segments -/

def insertSegments (w : SendWindow) (seg : SendSegment) : SendWindow :=
  { w with
    heap := Function.update w.heap w.nextPtr (some seg)
    nextPtr := w.nextPtr + 1
    sendSegments := w.sendSegments.insert seg.seqNum w.nextPtr
    sendSegmentsSize :=
      if seg.pktType = .data then w.sendSegmentsSize + seg.dataSize else w.sendSegmentsSize
    retrySegments := w.retrySegments.insert seg.retryKey w.nextPtr }

/-- Take an entry of `sendSegments` out of both maps and free it. The key to erase from
`retrySegments` is computed from the segment. -/
def dropEntry (w : SendWindow) (x : Nat × SegPtr) : SendWindow :=
  match w.heap x.2 with
  | none => w
  | some seg =>
    { w with
      retrySegments := w.retrySegments.erase seg.retryKey
      sendSegments := w.sendSegments.erase x.1
      heap := Function.update w.heap x.2 none }

def dropEntries (w : SendWindow) (xs : List (Nat × SegPtr)) : SendWindow :=
  xs.foldl dropEntry w

/-- The entries of `sendSegments` whose segment has the property. -/
def entriesWith (w : SendWindow) (p : SendSegment → Bool) : List (Nat × SegPtr) :=
  w.sendSegments.entries.filter fun x => (w.heap x.2).any p

/-- The leading segments that an acknowledgement covers. -/
def ackedSegments (w : SendWindow) (latestAck : Nat) : List (Nat × SegPtr) :=
  w.sendSegments.entries.takeWhile fun x =>
    (w.heap x.2).any fun seg => latestAck ≥ seg.seqNum + seg.dataSize

/-- The sizes of the segments of a list of entries. -/
def sizesOf (w : SendWindow) (xs : List (Nat × SegPtr)) : List Nat :=
  xs.map fun x => ((w.heap x.2).map SendSegment.dataSize).getD 0

def ackSegments (w : SendWindow) (latestAck : Nat) : SendWindow :=
  { w.dropEntries (w.ackedSegments latestAck) with
    curSeq := latestAck
    sendSegmentsSize :=
      (w.sizesOf (w.ackedSegments latestAck)).foldl u64Sub w.sendSegmentsSize }

/-- The segment `writerThread` cuts next from the buffer it is at. -/
def nextSegment (w : SendWindow) (b : SendBuffer) (ackNum now interval : Nat) : SendSegment where
  pktType := .data
  seqNum := w.currBufferIndex + w.currBufferOffset
  ackNum := ackNum
  data := some ⟨b.buffer, w.currBufferOffset⟩
  dataSize := min (min (u64Sub b.size w.currBufferOffset) (2 ^ 32 - 1)) w.segmentSize
  sendTimestamp := now
  retryRound := 1
  retryInterval := interval
  headSeqIndex := w.currBufferIndex

/-- Insert the segment and move on in the buffer, or to where the next one will be. -/
def advance (w : SendWindow) (b : SendBuffer) (seg : SendSegment) : SendWindow :=
  let w := w.insertSegments seg
  if w.currBufferOffset + seg.dataSize = b.size then
    { w with currBufferOffset := 0, currBufferIndex := w.currBufferIndex + b.size }
  else { w with currBufferOffset := w.currBufferOffset + seg.dataSize }

def cancelCtrlPktFromSegments (w : SendWindow) : SendWindow :=
  w.dropEntries (w.entriesWith fun seg => seg.pktType ≠ .data)

def cancelSegments (w : SendWindow) (index : Nat) : SendWindow :=
  w.dropEntries (w.entriesWith fun seg => seg.headSeqIndex = index)

def cancelFromBuffers (w : SendWindow) (index : Nat) : SendWindow :=
  let w := w.cancelSegments index
  { w with sendBuffers := w.sendBuffers.erase index }

/-- The second part of Clear. -/
def clearSegments (w : SendWindow) : SendWindow :=
  w.dropEntries w.sendSegments.entries

/-- Clear, where no other section comes between its two parts. -/
def clear (w : SendWindow) : SendWindow :=
  w.abortBuffers.clearSegments

/-- The numbers and the window size that end a handshake. -/
def sync (w : SendWindow) (ackNum windowSize : Nat) : SendWindow :=
  { w with
    windowCapacity := windowSize
    nextBufferIndex := ackNum
    currBufferIndex := ackNum
    curSeq := ackNum }

/-- What `retryThread` does with an entry that is due: back off, and move the entry to its
new key. -/
def reschedule (w : SendWindow) (ptr : SegPtr) (now maxRound interval : Nat) : SendWindow :=
  match w.heap ptr with
  | none => w
  | some seg =>
    let seg' := seg.backOff now maxRound interval
    { w with
      heap := Function.update w.heap ptr (some seg')
      retrySegments := (w.retrySegments.insert seg'.retryKey ptr).erase seg.retryKey }

/-! ## Dropping entries -/

theorem dropEntry_of_live {w : SendWindow} {x : Nat × SegPtr} {seg : SendSegment}
    (h : w.heap x.2 = some seg) :
    w.dropEntry x = { w with
      retrySegments := w.retrySegments.erase seg.retryKey
      sendSegments := w.sendSegments.erase x.1
      heap := Function.update w.heap x.2 none } := by
  simp [dropEntry, h]

theorem find?_sendSegments_dropEntry (w : SendWindow) {x : Nat × SegPtr} {q : Nat}
    (hq : q ≠ x.1) : (w.dropEntry x).sendSegments.find? q = w.sendSegments.find? q := by
  unfold dropEntry
  split
  · rfl
  · exact OrdMap.find?_erase_of_ne _ hq

/-- What dropping one entry of `sendSegments` preserves, dropping several preserves. -/
theorem dropEntries_induction {P : SendWindow → Prop}
    (hP : ∀ w x, P w → w.sendSegments.find? x.1 = some x.2 → P (w.dropEntry x))
    {w : SendWindow} {xs : List (Nat × SegPtr)} (hxs : xs.Sublist w.sendSegments.entries)
    (h : P w) : P (w.dropEntries xs) := by
  have hkeys : xs.Pairwise fun a b => a.1 ≠ b.1 :=
    (w.sendSegments.sorted.sublist hxs).imp fun hlt => hlt.ne
  have hfind : ∀ x ∈ xs, w.sendSegments.find? x.1 = some x.2 := fun x hx =>
    OrdMap.find?_eq_some.2 (hxs.subset hx)
  clear hxs
  induction xs generalizing w with
  | nil => exact h
  | cons x xs ih =>
    rw [List.pairwise_cons] at hkeys
    refine ih (hP w x h (hfind x (by simp))) hkeys.2 fun y hy => ?_
    rw [find?_sendSegments_dropEntry w (hkeys.1 y hy).symm]
    exact hfind y (List.mem_cons_of_mem _ hy)

theorem ackedSegments_sublist (w : SendWindow) (latestAck : Nat) :
    (w.ackedSegments latestAck).Sublist w.sendSegments.entries :=
  (List.takeWhile_prefix _).sublist

theorem entriesWith_sublist (w : SendWindow) (p : SendSegment → Bool) :
    (w.entriesWith p).Sublist w.sendSegments.entries :=
  List.filter_sublist

/-! ## Fresh pointers -/

/-- Pointers not yet handed out lead nowhere. -/
def HeapFresh (w : SendWindow) : Prop :=
  ∀ p, w.nextPtr ≤ p → w.heap p = none

theorem HeapFresh.lt {w : SendWindow} (h : w.HeapFresh) {p : SegPtr} {seg : SendSegment}
    (hp : w.heap p = some seg) : p < w.nextPtr := by
  by_contra hn
  simp [h p (not_lt.1 hn)] at hp

theorem heapFresh_opened (seq capacity size : Nat) :
    (opened seq capacity size).HeapFresh :=
  fun _ _ => rfl

theorem HeapFresh.dropEntry {w : SendWindow} (h : w.HeapFresh) (x : Nat × SegPtr) :
    (w.dropEntry x).HeapFresh := by
  unfold SendWindow.dropEntry
  split
  · exact h
  · intro p hp
    by_cases hx : p = x.2
    · simp [hx]
    · simpa [Function.update_of_ne hx] using h p hp

theorem HeapFresh.dropEntries {w : SendWindow} (h : w.HeapFresh) {xs : List (Nat × SegPtr)}
    (hxs : xs.Sublist w.sendSegments.entries) : (w.dropEntries xs).HeapFresh :=
  dropEntries_induction (fun _ x h _ => h.dropEntry x) hxs h

theorem HeapFresh.insertSegments {w : SendWindow} (h : w.HeapFresh) (seg : SendSegment) :
    (w.insertSegments seg).HeapFresh := by
  intro p hp
  have hlt : w.nextPtr < p := hp
  simpa [SendWindow.insertSegments, Function.update_of_ne hlt.ne'] using h p hlt.le

theorem HeapFresh.reschedule {w : SendWindow} (h : w.HeapFresh) (p : SegPtr)
    (now maxRound interval : Nat) : (w.reschedule p now maxRound interval).HeapFresh := by
  unfold SendWindow.reschedule
  split
  · exact h
  next seg hseg =>
    intro p' hp'
    have hlt : p < w.nextPtr := h.lt hseg
    have hne : p' ≠ p := (hlt.trans_le hp').ne'
    simpa [Function.update_of_ne hne] using h p' hp'

theorem HeapFresh.heap_insertSegments {w : SendWindow} (h : w.HeapFresh) {p : SegPtr}
    {seg : SendSegment} (hp : w.heap p = some seg) (new : SendSegment) :
    p ≠ w.nextPtr ∧ (w.insertSegments new).heap p = some seg := by
  have hne := (h.lt hp).ne
  exact ⟨hne, by simpa [SendWindow.insertSegments, Function.update_of_ne hne] using hp⟩

@[simp] theorem heap_insertSegments_nextPtr (w : SendWindow) (seg : SendSegment) :
    (w.insertSegments seg).heap w.nextPtr = some seg := by
  simp [insertSegments]

/-! ## Pointers and keys -/

/-- Every entry of the two maps leads to a segment that belongs under its key. -/
structure Linked (w : SendWindow) : Prop where
  fresh : w.HeapFresh
  live : ∀ q p, w.sendSegments.find? q = some p → ∃ seg, w.heap p = some seg ∧ seg.seqNum = q
  keyed : ∀ k p, w.retrySegments.find? k = some p → ∃ seg, w.heap p = some seg ∧ seg.retryKey = k

theorem linked_opened (seq capacity size : Nat) : (opened seq capacity size).Linked where
  fresh := heapFresh_opened _ _ _
  live := by simp [opened]
  keyed := by simp [opened]

/-- What is left of the two maps and the heap after an entry is dropped. -/
theorem Linked.find?_dropEntry {w : SendWindow} (h : w.Linked) {x : Nat × SegPtr}
    (hx : w.sendSegments.find? x.1 = some x.2) :
    (∀ q p, (w.dropEntry x).sendSegments.find? q = some p →
      w.sendSegments.find? q = some p ∧ q ≠ x.1 ∧ (w.dropEntry x).heap p = w.heap p) ∧
    (∀ k p, (w.dropEntry x).retrySegments.find? k = some p →
      w.retrySegments.find? k = some p ∧ p ≠ x.2 ∧ (w.dropEntry x).heap p = w.heap p) := by
  obtain ⟨seg, hseg, hq⟩ := h.live _ _ hx
  rw [dropEntry_of_live hseg]
  constructor
  · intro q p hp
    obtain ⟨hne, hp⟩ : q ≠ x.1 ∧ w.sendSegments.find? q = some p := by
      simpa [OrdMap.find?_erase] using hp
    have hpne : p ≠ x.2 := by
      rintro rfl
      obtain ⟨seg', hseg', rfl⟩ := h.live _ _ hp
      exact hne (by rw [← hq, Option.some.inj (hseg.symm.trans hseg')])
    exact ⟨hp, hne, Function.update_of_ne hpne ..⟩
  · intro k p hp
    obtain ⟨hne, hp⟩ : k ≠ seg.retryKey ∧ w.retrySegments.find? k = some p := by
      simpa [OrdMap.find?_erase] using hp
    have hpne : p ≠ x.2 := by
      rintro rfl
      obtain ⟨seg', hseg', rfl⟩ := h.keyed _ _ hp
      exact hne (by rw [Option.some.inj (hseg.symm.trans hseg')])
    exact ⟨hp, hpne, Function.update_of_ne hpne ..⟩

theorem Linked.dropEntry {w : SendWindow} (h : w.Linked) {x : Nat × SegPtr}
    (hx : w.sendSegments.find? x.1 = some x.2) : (w.dropEntry x).Linked := by
  obtain ⟨hsend, hretry⟩ := h.find?_dropEntry hx
  refine ⟨h.fresh.dropEntry x, ?_, ?_⟩
  · intro q p hp
    obtain ⟨hp, -, hheap⟩ := hsend q p hp
    rw [hheap]
    exact h.live q p hp
  · intro k p hp
    obtain ⟨hp, -, hheap⟩ := hretry k p hp
    rw [hheap]
    exact h.keyed k p hp

theorem Linked.dropEntries {w : SendWindow} (h : w.Linked) {xs : List (Nat × SegPtr)}
    (hxs : xs.Sublist w.sendSegments.entries) : (w.dropEntries xs).Linked :=
  dropEntries_induction (fun _ _ h hx => h.dropEntry hx) hxs h

/-- The entries left are those not dropped, and their segments are as before. -/
theorem Linked.find?_dropEntries {w : SendWindow} (h : w.Linked) {xs : List (Nat × SegPtr)}
    (hxs : xs.Sublist w.sendSegments.entries) {q : Nat} {p : SegPtr}
    (hp : (w.dropEntries xs).sendSegments.find? q = some p) :
    w.sendSegments.find? q = some p ∧ (q, p) ∉ xs ∧ (w.dropEntries xs).heap p = w.heap p := by
  have hkeys : xs.Pairwise fun a b => a.1 ≠ b.1 :=
    (w.sendSegments.sorted.sublist hxs).imp fun hlt => hlt.ne
  have hfind : ∀ x ∈ xs, w.sendSegments.find? x.1 = some x.2 := fun x hx =>
    OrdMap.find?_eq_some.2 (hxs.subset hx)
  clear hxs
  induction xs generalizing w with
  | nil => exact ⟨hp, by simp, rfl⟩
  | cons x xs ih =>
    rw [List.pairwise_cons] at hkeys
    have hx := hfind x (by simp)
    obtain ⟨hp', hmem, hheap⟩ := ih (h.dropEntry hx) hp hkeys.2 fun y hy => by
      rw [find?_sendSegments_dropEntry w (hkeys.1 y hy).symm]
      exact hfind y (List.mem_cons_of_mem _ hy)
    obtain ⟨hp', hne, hheap'⟩ := (h.find?_dropEntry hx).1 q p hp'
    refine ⟨hp', ?_, hheap.trans hheap'⟩
    rw [List.mem_cons, not_or]
    exact ⟨fun he => hne (congrArg Prod.fst he), hmem⟩

theorem Linked.insertSegments {w : SendWindow} (h : w.Linked) (seg : SendSegment) :
    (w.insertSegments seg).Linked := by
  refine ⟨h.fresh.insertSegments seg, ?_, ?_⟩
  · intro q p hp
    by_cases hq : q = seg.seqNum
    · obtain rfl : w.nextPtr = p := by simpa [SendWindow.insertSegments, hq] using hp
      exact ⟨seg, by simp, hq.symm⟩
    · obtain ⟨seg', hseg', hq'⟩ := h.live q p
        (by simpa [SendWindow.insertSegments, OrdMap.find?_insert, hq] using hp)
      exact ⟨seg', (h.fresh.heap_insertSegments hseg' seg).2, hq'⟩
  · intro k p hp
    by_cases hk : k = seg.retryKey
    · obtain rfl : w.nextPtr = p := by simpa [SendWindow.insertSegments, hk] using hp
      exact ⟨seg, by simp, hk.symm⟩
    · obtain ⟨seg', hseg', hk'⟩ := h.keyed k p
        (by simpa [SendWindow.insertSegments, OrdMap.find?_insert, hk] using hp)
      exact ⟨seg', (h.fresh.heap_insertSegments hseg' seg).2, hk'⟩

/-- Rescheduling changes one segment, in its times only. -/
theorem heap_reschedule (w : SendWindow) (p p₁ : SegPtr) (now maxRound interval : Nat) :
    (w.reschedule p now maxRound interval).heap p₁ =
      (w.heap p₁).map fun seg => if p₁ = p then seg.backOff now maxRound interval else seg := by
  unfold reschedule
  by_cases hpp : p₁ = p
  · subst hpp
    split <;> simp_all
  · split <;> simp [Function.update_of_ne, hpp]

@[simp] theorem sendSegments_reschedule (w : SendWindow) (p : SegPtr)
    (now maxRound interval : Nat) :
    (w.reschedule p now maxRound interval).sendSegments = w.sendSegments := by
  unfold reschedule
  split <;> rfl

/-- The entry that is moved is under its new key, and the others are where they were. -/
theorem Linked.find?_reschedule {w : SendWindow} (h : w.Linked) {k k₁ : Nat} {p p₁ : SegPtr}
    {seg : SendSegment} {now maxRound interval : Nat} (hk : w.retrySegments.find? k = some p)
    (hseg : w.heap p = some seg)
    (hp₁ : (w.reschedule p now maxRound interval).retrySegments.find? k₁ = some p₁) :
    k₁ = (seg.backOff now maxRound interval).retryKey ∧ p₁ = p ∨
      k₁ ≠ k ∧ w.retrySegments.find? k₁ = some p₁ := by
  obtain ⟨seg', hseg', rfl⟩ := h.keyed k p hk
  obtain rfl := Option.some.inj (hseg.symm.trans hseg')
  simp only [SendWindow.reschedule, hseg, OrdMap.find?_erase, OrdMap.find?_insert] at hp₁
  split_ifs at hp₁ with h₁ h₂
  · exact .inl ⟨h₂, (Option.some.inj hp₁).symm⟩
  · exact .inr ⟨h₁, hp₁⟩

theorem Linked.reschedule {w : SendWindow} (h : w.Linked) {k : Nat} {p : SegPtr}
    (hk : w.retrySegments.find? k = some p) (now maxRound interval : Nat) :
    (w.reschedule p now maxRound interval).Linked := by
  obtain ⟨seg, hseg, hkey⟩ := h.keyed k p hk
  refine ⟨h.fresh.reschedule p now maxRound interval, ?_, ?_⟩
  · intro q p₁ hp₁
    obtain ⟨seg₁, hseg₁, hq⟩ := h.live q p₁ (by simpa using hp₁)
    refine ⟨_, by rw [heap_reschedule, hseg₁, Option.map_some], ?_⟩
    split
    · exact hq
    · exact hq
  · intro k₁ p₁ hp₁
    rcases h.find?_reschedule hk hseg hp₁ with ⟨rfl, rfl⟩ | ⟨hne, hp₁⟩
    · exact ⟨_, by rw [heap_reschedule, hseg, Option.map_some, if_pos rfl], rfl⟩
    · obtain ⟨seg₁, hseg₁, hk₁⟩ := h.keyed k₁ p₁ hp₁
      have hpp : p₁ ≠ p := by
        rintro rfl
        obtain rfl := Option.some.inj (hseg.symm.trans hseg₁)
        exact hne (hk₁.symm.trans hkey)
      exact ⟨seg₁, by simp [heap_reschedule, hseg₁, hpp], hk₁⟩

end SendWindow

end PersonalCloud.Ts2.Transport
