import PersonalCloud.Ts2.Transport.SendWindow

/-!
# Who the sending window points at

A segment that carries data points into the buffer of a call of Write. `Owned` says that
every such segment still in use has its buffer in `sendBuffers`, where the call can find
it. The operations keep `Owned`, except that a new segment must not take the place of one
that carries data, and an acknowledgement must not take away a buffer that still has
segments.
-/

namespace PersonalCloud.Ts2.Transport

open PersonalCloud.Lib

namespace SendWindow

structure Owned (w : SendWindow) : Prop extends Linked w where
  listed : ∀ k p seg d, w.retrySegments.find? k = some p → w.heap p = some seg →
    seg.data = some d → w.sendSegments.find? seg.seqNum = some p
  backed : ∀ q p seg d, w.sendSegments.find? q = some p → w.heap p = some seg →
    seg.data = some d → ∃ b, w.sendBuffers.find? seg.headSeqIndex = some b ∧ b.buffer = d.buffer

theorem owned_opened (seq capacity size : Nat) : (opened seq capacity size).Owned where
  toLinked := linked_opened _ _ _
  listed := by simp [opened]
  backed := by simp [opened]

/-- No segment in `sendSegments` carries data of the buffer at `index`. -/
def NoneSent (w : SendWindow) (index : Nat) : Prop :=
  ∀ q p seg, w.sendSegments.find? q = some p → w.heap p = some seg → seg.data.isSome →
    seg.headSeqIndex ≠ index

/-- The place of a segment with this number is not held by one that carries data. -/
def PlaceFree (w : SendWindow) (seqNum : Nat) : Prop :=
  ∀ p seg, w.sendSegments.find? seqNum = some p → w.heap p = some seg → seg.data = none

/-! ## Dropping segments -/

@[simp] theorem sendBuffers_dropEntry (w : SendWindow) (x : Nat × SegPtr) :
    (w.dropEntry x).sendBuffers = w.sendBuffers := by
  unfold dropEntry
  split <;> rfl

@[simp] theorem sendBuffers_dropEntries (w : SendWindow) (xs : List (Nat × SegPtr)) :
    (w.dropEntries xs).sendBuffers = w.sendBuffers := by
  induction xs generalizing w with
  | nil => rfl
  | cons x xs ih =>
    change ((w.dropEntry x).dropEntries xs).sendBuffers = _
    rw [ih, sendBuffers_dropEntry]

theorem Owned.dropEntry {w : SendWindow} (h : w.Owned) {x : Nat × SegPtr}
    (hx : w.sendSegments.find? x.1 = some x.2) : (w.dropEntry x).Owned := by
  obtain ⟨hsend, hretry⟩ := h.find?_dropEntry hx
  refine ⟨h.toLinked.dropEntry hx, ?_, ?_⟩
  · intro k p seg d hp hseg hd
    obtain ⟨hp, hne, hheap⟩ := hretry k p hp
    rw [hheap] at hseg
    have hs := h.listed k p seg d hp hseg hd
    rw [find?_sendSegments_dropEntry w, hs]
    intro hq
    exact hne (Option.some.inj (hs.symm.trans (hq ▸ hx)))
  · intro q p seg d hp hseg hd
    obtain ⟨hp, -, hheap⟩ := hsend q p hp
    rw [hheap] at hseg
    rw [sendBuffers_dropEntry]
    exact h.backed q p seg d hp hseg hd

theorem Owned.dropEntries {w : SendWindow} (h : w.Owned) {xs : List (Nat × SegPtr)}
    (hxs : xs.Sublist w.sendSegments.entries) : (w.dropEntries xs).Owned :=
  dropEntries_induction (fun _ _ h hx => h.dropEntry hx) hxs h

theorem Owned.ackSegments {w : SendWindow} (h : w.Owned) (latestAck : Nat) :
    (w.ackSegments latestAck).Owned := by
  have h' := h.dropEntries (w.ackedSegments_sublist latestAck)
  exact ⟨⟨h'.fresh, h'.live, h'.keyed⟩, h'.listed, h'.backed⟩

theorem Owned.clearSegments {w : SendWindow} (h : w.Owned) : w.clearSegments.Owned :=
  h.dropEntries (.refl _)

theorem Owned.cancelSegments {w : SendWindow} (h : w.Owned) (index : Nat) :
    (w.cancelSegments index).Owned :=
  h.dropEntries (w.entriesWith_sublist _)

theorem Owned.noneSent_cancelSegments {w : SendWindow} (h : w.Owned) (index : Nat) :
    (w.cancelSegments index).NoneSent index := by
  intro q p seg hp hseg _ hi
  obtain ⟨hp, hmem, hheap⟩ := h.find?_dropEntries (w.entriesWith_sublist _) hp
  rw [SendWindow.cancelSegments, hheap] at hseg
  refine hmem (List.mem_filter.2 ⟨OrdMap.find?_eq_some.1 hp, ?_⟩)
  simp [hseg, hi]

/-! ## Buffers -/

/-- A buffer may leave once none of its segments is in `sendSegments`. -/
theorem Owned.eraseBuffer {w : SendWindow} (h : w.Owned) {index size : Nat}
    (hi : w.NoneSent index) :
    { w with sendBuffers := w.sendBuffers.erase index, sendBuffersSize := size }.Owned := by
  refine ⟨⟨h.fresh, h.live, h.keyed⟩, h.listed, ?_⟩
  intro q p seg d hp hseg hd
  have hne : seg.headSeqIndex ≠ index := hi q p seg hp hseg (by simp [hd])
  rw [OrdMap.find?_erase_of_ne _ hne]
  exact h.backed q p seg d hp hseg hd

theorem Owned.cancelFromBuffers {w : SendWindow} (h : w.Owned) (index : Nat) :
    (w.cancelFromBuffers index).Owned :=
  (h.cancelSegments index).eraseBuffer (h.noneSent_cancelSegments index)

@[simp] theorem sendBuffers_cancelFromBuffers (w : SendWindow) (index : Nat) :
    (w.cancelFromBuffers index).sendBuffers = w.sendBuffers.erase index := by
  simp [SendWindow.cancelFromBuffers, SendWindow.cancelSegments]

theorem Owned.ackBuffers {w : SendWindow} (h : w.Owned) {latestAck : Nat}
    (hd : ∀ x ∈ w.ackedBuffers latestAck, w.NoneSent x.1) : (w.ackBuffers latestAck).Owned := by
  unfold SendWindow.ackBuffers
  generalize w.ackedBuffers latestAck = xs at hd
  induction xs generalizing w with
  | nil => exact h
  | cons x xs ih =>
    refine ih (h.eraseBuffer (hd x (by simp))) fun y hy => ?_
    exact hd y (List.mem_cons_of_mem _ hy)

/-- The buffers left by an acknowledgement were there before. -/
theorem find?_ackBuffers {w : SendWindow} {latestAck i : Nat} {b : SendBuffer}
    (hb : (w.ackBuffers latestAck).sendBuffers.find? i = some b) :
    w.sendBuffers.find? i = some b := by
  unfold SendWindow.ackBuffers at hb
  generalize w.ackedBuffers latestAck = xs at hb
  induction xs generalizing w with
  | nil => exact hb
  | cons x xs ih =>
    have h' : (w.sendBuffers.erase x.1).find? i = some b := ih hb
    rw [OrdMap.find?_erase] at h'
    split_ifs at h'
    exact h'

theorem Owned.abortBuffers {w : SendWindow} (h : w.Owned) : w.abortBuffers.Owned := by
  refine ⟨⟨h.fresh, h.live, h.keyed⟩, h.listed, ?_⟩
  intro q p seg d hp hseg hd
  obtain ⟨b, hb, hbd⟩ := h.backed q p seg d hp hseg hd
  exact ⟨{ b with sendAborted := true }, by simp [SendWindow.abortBuffers, OrdMap.find?_mapVal, hb],
    hbd⟩

theorem Owned.appendToBuffers {w w' : SendWindow} (h : w.Owned) {buffer : Buffer} {i : Nat}
    (ha : w.appendToBuffers buffer = some (i, w')) : w'.Owned := by
  obtain ⟨hnone, -, rfl⟩ := of_appendToBuffers ha
  refine ⟨⟨h.fresh, h.live, h.keyed⟩, h.listed, ?_⟩
  intro q p seg d hp hseg hd
  obtain ⟨b, hb, hbd⟩ := h.backed q p seg d hp hseg hd
  have hne : seg.headSeqIndex ≠ w.nextBufferIndex := by
    intro he
    rw [he] at hb
    simp [hb] at hnone
  exact ⟨b, by simp [OrdMap.find?_insert, hne, hb], hbd⟩

/-! ## New and moved segments -/

/-- A segment may be inserted where none that carries data stands, if the buffer it points
into is queued. -/
theorem Owned.insertSegments {w : SendWindow} (h : w.Owned) {seg : SendSegment}
    (hfree : w.PlaceFree seg.seqNum)
    (hback : ∀ d, seg.data = some d →
      ∃ b, w.sendBuffers.find? seg.headSeqIndex = some b ∧ b.buffer = d.buffer) :
    (w.insertSegments seg).Owned := by
  refine ⟨h.toLinked.insertSegments seg, ?_, ?_⟩
  · intro k p seg' d hp hseg' hd
    by_cases hk : k = seg.retryKey
    · obtain rfl : w.nextPtr = p := by simpa [SendWindow.insertSegments, hk] using hp
      obtain rfl : seg = seg' := by simpa using hseg'
      simp [SendWindow.insertSegments]
    · have hp : w.retrySegments.find? k = some p := by
        simpa [SendWindow.insertSegments, OrdMap.find?_insert, hk] using hp
      obtain ⟨seg₁, hseg₁, -⟩ := h.keyed k p hp
      obtain rfl := Option.some.inj ((h.fresh.heap_insertSegments hseg₁ seg).2.symm.trans hseg')
      have hs := h.listed k p _ d hp hseg₁ hd
      have hne : seg₁.seqNum ≠ seg.seqNum := by
        intro he
        simp [hfree p seg₁ (he ▸ hs) hseg₁] at hd
      simpa [SendWindow.insertSegments, OrdMap.find?_insert, hne] using hs
  · intro q p seg' d hp hseg' hd
    by_cases hq : q = seg.seqNum
    · obtain rfl : w.nextPtr = p := by simpa [SendWindow.insertSegments, hq] using hp
      obtain rfl : seg = seg' := by simpa using hseg'
      exact hback d hd
    · have hp : w.sendSegments.find? q = some p := by
        simpa [SendWindow.insertSegments, OrdMap.find?_insert, hq] using hp
      obtain ⟨seg₁, hseg₁, -⟩ := h.live q p hp
      obtain rfl := Option.some.inj ((h.fresh.heap_insertSegments hseg₁ seg).2.symm.trans hseg')
      exact h.backed q p seg₁ d hp hseg₁ hd

theorem sendBuffers_advance (w : SendWindow) (b : SendBuffer) (seg : SendSegment) :
    (w.advance b seg).sendBuffers = w.sendBuffers := by
  simp only [advance]
  split <;> rfl

theorem Owned.advance {w : SendWindow} (h : w.Owned) {b : SendBuffer} {ackNum now interval : Nat}
    (hb : w.sendBuffers.find? w.currBufferIndex = some b)
    (hfree : w.PlaceFree (w.currBufferIndex + w.currBufferOffset)) :
    (w.advance b (w.nextSegment b ackNum now interval)).Owned := by
  have hback : ∀ d, (w.nextSegment b ackNum now interval).data = some d →
      ∃ b, w.sendBuffers.find? w.currBufferIndex = some b ∧ b.buffer = d.buffer := by
    rintro d hd
    exact ⟨b, hb, congrArg DataRef.buffer (Option.some.inj hd)⟩
  have h' : (w.insertSegments (w.nextSegment b ackNum now interval)).Owned :=
    h.insertSegments hfree hback
  simp only [SendWindow.advance]
  split
  all_goals exact ⟨⟨h'.fresh, h'.live, h'.keyed⟩, h'.listed, h'.backed⟩

@[simp] theorem sendBuffers_reschedule (w : SendWindow) (p : SegPtr)
    (now maxRound interval : Nat) :
    (w.reschedule p now maxRound interval).sendBuffers = w.sendBuffers := by
  unfold reschedule
  split <;> rfl

theorem Owned.reschedule {w : SendWindow} (h : w.Owned) {k : Nat} {p : SegPtr}
    (hk : w.retrySegments.find? k = some p) (now maxRound interval : Nat) :
    (w.reschedule p now maxRound interval).Owned := by
  -- neither the number of a segment changes, nor what it points at
  have hheap : ∀ {p₁ seg₁}, (w.reschedule p now maxRound interval).heap p₁ = some seg₁ →
      ∃ seg₂, w.heap p₁ = some seg₂ ∧ seg₁.seqNum = seg₂.seqNum ∧ seg₁.data = seg₂.data ∧
        seg₁.headSeqIndex = seg₂.headSeqIndex := by
    intro p₁ seg₁ hp₁
    rw [heap_reschedule] at hp₁
    obtain ⟨seg₂, hseg₂, rfl⟩ := Option.map_eq_some_iff.1 hp₁
    refine ⟨seg₂, hseg₂, ?_⟩
    split <;> exact ⟨rfl, rfl, rfl⟩
  obtain ⟨seg, hseg, -⟩ := h.keyed k p hk
  refine ⟨h.toLinked.reschedule hk now maxRound interval, ?_, ?_⟩
  · intro k₁ p₁ seg₁ d hp₁ hseg₁ hd₁
    obtain ⟨seg₂, hseg₂, hq₂, hd₂, -⟩ := hheap hseg₁
    rw [sendSegments_reschedule, hq₂]
    rw [hd₂] at hd₁
    rcases h.find?_reschedule hk hseg hp₁ with ⟨-, rfl⟩ | ⟨-, hp₁⟩
    · exact h.listed k p₁ seg₂ d hk hseg₂ hd₁
    · exact h.listed k₁ p₁ seg₂ d hp₁ hseg₂ hd₁
  · intro q p₁ seg₁ d hp₁ hseg₁ hd₁
    obtain ⟨seg₂, hseg₂, -, hd₂, hi₂⟩ := hheap hseg₁
    rw [sendBuffers_reschedule, hi₂]
    exact h.backed q p₁ seg₂ d (by simpa using hp₁) hseg₂ (hd₂ ▸ hd₁)

end SendWindow

end PersonalCloud.Ts2.Transport
