import PersonalCloud.Lib.Run
import PersonalCloud.Ts2.Transport.SendStream

/-!
# The counters of a sending window

A sending window counts the bytes in its segments and in its buffers, and keeps the place of the
writer as the index of a buffer and an offset into it. `SendWindow.Tallied` says that the counts
are right and that the writer finds its buffer. Appending, cutting segments and acknowledgements
of bytes that were sent keep this; `cancelFromBuffers` and `Clear` take segments and buffers out
of the maps and leave the counters and the place of the writer as they were.

The critical sections of `segs_mutex` and `buffers_mutex` are events of their own, so the
sections of different threads may come between the two of `handleAck` or of `Clear`.
-/

namespace PersonalCloud.Ts2.Transport

open PersonalCloud.Lib

namespace SendWindow

/-- The bytes of the segment of an entry if it is a DATA segment. -/
def dataSizeOf (w : SendWindow) (x : Nat × SegPtr) : Nat :=
  (w.heap x.2).elim 0 fun seg => if seg.pktType = .data then seg.dataSize else 0

/-- The counters are the sums they stand for, and there is a buffer where the writer looks for
one. -/
structure Tallied (w : SendWindow) : Prop where
  segments : w.sendSegmentsSize = (w.sendSegments.entries.map w.dataSizeOf).sum
  buffers : w.sendBuffersSize = (w.sendBuffers.entries.map bufSize).sum
  current : w.isAvailableBufferToSend → (w.sendBuffers.find? w.currBufferIndex).isSome

end SendWindow

/-! ## The system -/

/-- A sending window, and the acknowledgements whose segments are taken away and whose buffers
are not yet. -/
structure SendState where
  win : SendWindow
  acksDone : List Nat

inductive SendOp where
  | append (buffer : Buffer)
  | writerSend (ackNum now interval : Nat)
  | retry (key now maxRound interval : Nat)
  | ackSegments (latestAck : Nat)
  | ackBuffers (latestAck : Nat)
  | cancel (index : Nat)
  | clearBuffers
  | clearSegments
  deriving DecidableEq, Repr

namespace SendState

def opened (seq windowCapacity segmentSize : Nat) : SendState where
  win := .opened seq windowCapacity segmentSize
  acksDone := []

/-- Write does not queue an empty buffer. The test of `handleAck` is made without a lock, so an
acknowledgement may get past it that is not new any more. -/
def step (s : SendState) : SendOp → Option SendState
  | .append buffer =>
    if buffer.bytes = [] then none
    else (s.win.appendToBuffers buffer).map fun x => { s with win := x.2 }
  | .writerSend ackNum now interval =>
    if s.win.isAvailableWindow ∧ s.win.isAvailableBufferToSend then
      (s.win.sendBuffers.find? s.win.currBufferIndex).map fun b =>
        { s with win := s.win.advance b (s.win.nextSegment b ackNum now interval) }
    else none
  | .retry key now maxRound interval =>
    (s.win.retrySegments.find? key).map fun p =>
      { s with win := s.win.reschedule p now maxRound interval }
  | .ackSegments latestAck =>
    some { win := s.win.ackSegments latestAck, acksDone := latestAck :: s.acksDone }
  | .ackBuffers latestAck =>
    if latestAck ∈ s.acksDone then
      some { win := s.win.ackBuffers latestAck, acksDone := s.acksDone.erase latestAck }
    else none
  | .cancel index => some { s with win := s.win.cancelFromBuffers index }
  | .clearBuffers => some { s with win := s.win.abortBuffers }
  | .clearSegments => some { s with win := s.win.clearSegments }

/-- An acknowledgement is of bytes that were sent, a Write that is given up finds all of its
buffer acknowledged, and so does `Clear` all that was sent. -/
def KeepsTally (s : SendState) : SendOp → Prop
  | .ackSegments latestAck => latestAck ≤ s.win.sentEnd
  | .cancel index =>
    s.win.sendBuffers.find? index = none ∧
      s.win.entriesWith (fun seg => seg.headSeqIndex = index) = []
  | .clearSegments => s.win.sendSegments.entries = []
  | _ => True

end SendState

/-! ## The ledger -/

namespace SendWindow

/-- The buffers tile the numbers from `head` on, the segments those from `acked` on, and no
segment reaches over the end of a buffer. -/
structure Ledger (head acked : Nat) (w : SendWindow) : Prop extends Linked w where
  data : ∀ p seg, w.heap p = some seg → seg.pktType = .data
  segments : Tiles Prod.fst w.segSize acked w.sendSegments.entries w.sentEnd
  segmentsSize : acked + w.sendSegmentsSize = w.sentEnd
  buffers : Tiles Prod.fst bufSize head w.sendBuffers.entries w.nextBufferIndex
  buffersSize : head + w.sendBuffersSize = w.nextBufferIndex
  head_le : head ≤ acked
  indexed : ∀ i b, w.sendBuffers.find? i = some b → b.headSeq = i ∧ 0 < b.size
  sentEnd_le : w.sentEnd ≤ w.nextBufferIndex
  cursor : w.currBufferOffset = 0 ∧ w.currBufferIndex = w.nextBufferIndex ∨
    ∃ b, w.sendBuffers.find? w.currBufferIndex = some b ∧ w.currBufferOffset < b.size
  whole : ∀ x ∈ w.sendSegments.entries, ∀ y ∈ w.sendBuffers.entries,
    x.1 < y.1 + bufSize y → x.1 + w.segSize x ≤ y.1 + bufSize y

variable {w w' : SendWindow} {head acked : Nat}

theorem ledger_opened (seq capacity size : Nat) : (opened seq capacity size).Ledger seq seq where
  toLinked := linked_opened _ _ _
  data := nofun
  segments := rfl
  segmentsSize := rfl
  buffers := rfl
  buffersSize := rfl
  head_le := Nat.le_refl _
  indexed := by simp [opened]
  sentEnd_le := Nat.le_refl _
  cursor := .inl ⟨rfl, rfl⟩
  whole := by simp [opened]

theorem Ledger.tallied (h : w.Ledger head acked) : w.Tallied where
  segments := by
    have hsum := h.segments.add_sum
    have hsize := h.segmentsSize
    have hdata : w.sendSegments.entries.map w.dataSizeOf =
        w.sendSegments.entries.map w.segSize := by
      refine List.map_congr_left fun x hx => ?_
      obtain ⟨seg, hseg, -⟩ := h.live x.1 x.2 (OrdMap.find?_eq_some.2 hx)
      simp [dataSizeOf, segSize, hseg, h.data _ _ hseg]
    rw [hdata]
    omega
  buffers := by
    have hsum := h.buffers.add_sum
    have hsize := h.buffersSize
    omega
  current := by
    intro havail
    rcases h.cursor with ⟨hoff, hidx⟩ | ⟨b, hb, -⟩
    · simp [isAvailableBufferToSend, hoff, hidx] at havail
    · simp [hb]

theorem Ledger.key_lt (h : w.Ledger head acked) :
    ∀ x ∈ w.sendBuffers.entries, x.1 < w.nextBufferIndex := by
  rintro ⟨k, v⟩ hx
  have := (h.buffers.mem hx).2
  have := (h.indexed k v (OrdMap.find?_eq_some.2 hx)).2
  simp only [bufSize] at *
  omega

/-- With as many bytes in segments as in buffers everything is sent, so the writer is where the
next buffer will be. -/
theorem Ledger.currBufferIndex_eq (h : w.Ledger head acked)
    (heq : w.sendSegmentsSize = w.sendBuffersSize) : w.currBufferIndex = w.nextBufferIndex := by
  rcases h.cursor with ⟨-, hidx⟩ | ⟨b, hb, hlt⟩
  · exact hidx
  · have hend := (h.buffers.mem (OrdMap.find?_eq_some.1 hb)).2
    have := h.segmentsSize
    have := h.buffersSize
    have := h.head_le
    simp only [bufSize, sentEnd] at *
    omega

theorem Ledger.appendToBuffers (h : w.Ledger head acked) {buffer : Buffer} {i : Nat}
    (hbuf : buffer.bytes ≠ []) (ha : w.appendToBuffers buffer = some (i, w')) :
    w'.Ledger head acked ∧ w'.sentEnd = w.sentEnd ∧ w'.sendBuffers.entries =
      w.sendBuffers.entries ++ [(w.nextBufferIndex, ⟨buffer, w.nextBufferIndex, false⟩)] := by
  obtain ⟨-, -, rfl⟩ := of_appendToBuffers ha
  have hpos := List.length_pos_of_ne_nil hbuf
  have hindex : (if w.sendSegmentsSize = w.sendBuffersSize then w.nextBufferIndex
      else w.currBufferIndex) = w.currBufferIndex := by
    split
    next heq => exact (h.currBufferIndex_eq heq).symm
    · rfl
  simp only [hindex]
  have hentries : (w.sendBuffers.insert w.nextBufferIndex
      ⟨buffer, w.nextBufferIndex, false⟩).entries =
      w.sendBuffers.entries ++ [(w.nextBufferIndex, ⟨buffer, w.nextBufferIndex, false⟩)] :=
    OrdMap.entries_insert _ (List.append_nil _).symm h.key_lt (by simp)
  have hsent : w.sentEnd ≤ w.nextBufferIndex := h.sentEnd_le
  refine ⟨⟨⟨h.fresh, h.live, h.keyed⟩, h.data, h.segments, h.segmentsSize, ?_, ?_, h.head_le,
    ?_, ?_, ?_, ?_⟩, rfl, hentries⟩
  · rw [hentries]
    exact tiles_concat.2 ⟨h.buffers, rfl⟩
  · have := h.buffersSize
    simp only
    omega
  · intro j v hv
    simp only [OrdMap.find?_insert] at hv
    split_ifs at hv with hj
    · obtain rfl := Option.some.inj hv
      exact ⟨hj.symm, hpos⟩
    · exact h.indexed j v hv
  · simp only [sentEnd] at *
    omega
  · -- the writer stays in its buffer, or finds the new one
    refine .inr ?_
    rcases h.cursor with ⟨hoff, hidx⟩ | ⟨b, hb, hlt⟩
    · exact ⟨⟨buffer, w.nextBufferIndex, false⟩, by simp [hidx], hoff.trans_lt hpos⟩
    · have hne := (h.key_lt _ (OrdMap.find?_eq_some.1 hb)).ne
      exact ⟨b, (OrdMap.find?_insert_of_ne _ _ hne).trans hb, hlt⟩
  · intro x hx y hy hlt
    rw [hentries, List.mem_append, List.mem_singleton] at hy
    rcases hy with hy | rfl
    · exact h.whole x hx y hy hlt
    · have hend := (h.segments.mem hx).2
      change _ ≤ w.nextBufferIndex + _
      exact (hend.trans hsent).trans (Nat.le_add_right _ _)

theorem Ledger.advance (h : w.Ledger head acked) {b : SendBuffer}
    (hb : w.sendBuffers.find? w.currBufferIndex = some b) {ackNum now interval : Nat}
    {seg : SendSegment} (hseg : seg = w.nextSegment b ackNum now interval) :
    (w.advance b seg).Ledger head acked ∧ w.sentEnd ≤ (w.advance b seg).sentEnd ∧
      (w.advance b seg).sendBuffers = w.sendBuffers := by
  have hmem := OrdMap.find?_eq_some.1 hb
  have hend : w.currBufferIndex + b.size ≤ w.nextBufferIndex := (h.buffers.mem hmem).2
  have hoff : w.currBufferOffset < b.size := by
    rcases h.cursor with ⟨-, hidx⟩ | ⟨b', hb', hlt⟩
    · exact absurd (h.key_lt _ hmem) (by simp [hidx])
    · exact Option.some.inj (hb'.symm.trans hb) ▸ hlt
  have hsize : w.currBufferOffset + seg.dataSize ≤ b.size := by
    rw [hseg]
    simp only [nextSegment, u64Sub_of_le hoff.le]
    omega
  have hseq : seg.seqNum = w.sentEnd := by rw [hseg]; rfl
  have htype : seg.pktType = .data := by rw [hseg]; rfl
  have hlinked := h.toLinked.insertSegments seg
  have htiles := h.toLinked.tiles_insertSegments h.segments hseq
  have hsent := sentEnd_advance w b seg
  have hdata : ∀ p seg', (w.insertSegments seg).heap p = some seg' → seg'.pktType = .data := by
    intro p seg' hp
    by_cases hpp : p = w.nextPtr
    · obtain rfl : seg = seg' := by simpa [hpp] using hp
      exact htype
    · refine h.data p seg' ?_
      simpa [SendWindow.insertSegments, Function.update_of_ne hpp] using hp
  have hwhole : ∀ x ∈ (w.insertSegments seg).sendSegments.entries,
      ∀ y ∈ w.sendBuffers.entries, x.1 < y.1 + bufSize y →
        x.1 + (w.insertSegments seg).segSize x ≤ y.1 + bufSize y := by
    rintro ⟨k, p⟩ hx y hy hlt
    have hx : k = seg.seqNum ∧ p = w.nextPtr ∨ k ≠ seg.seqNum ∧ (k, p) ∈ w.sendSegments.entries :=
      OrdMap.mem_insert.1 hx
    rcases hx with ⟨rfl, rfl⟩ | ⟨-, hx⟩
    · -- the new segment ends in the buffer it is cut from
      have hnew : (w.insertSegments seg).segSize (seg.seqNum, w.nextPtr) = seg.dataSize := by
        simp [segSize]
      rw [hnew]
      rcases h.buffers.eq_or_apart hmem hy with rfl | hafter | hbefore
      · simp only [hseq, sentEnd, bufSize]
        omega
      · simp only [hseq, sentEnd, bufSize] at *
        omega
      · simp only [hseq, sentEnd, bufSize] at *
        omega
    · obtain ⟨old, hold, -⟩ := h.live k p (OrdMap.find?_eq_some.2 hx)
      have hkeep : (w.insertSegments seg).segSize (k, p) = w.segSize (k, p) := by
        simp only [segSize, hold, (h.fresh.heap_insertSegments hold seg).2]
      rw [hkeep]
      exact h.whole _ hx y hy hlt
  have hcursor : (w.advance b seg).currBufferOffset = 0 ∧
        (w.advance b seg).currBufferIndex = w.nextBufferIndex ∨
      ∃ b', w.sendBuffers.find? (w.advance b seg).currBufferIndex = some b' ∧
        (w.advance b seg).currBufferOffset < b'.size := by
    unfold SendWindow.advance
    by_cases hfull : w.currBufferOffset + seg.dataSize = b.size
    · simp only [SendWindow.insertSegments, hfull, if_true]
      rcases h.buffers.follow hmem with hlast | ⟨⟨k, v⟩, hv, hnext⟩
      · exact .inl ⟨trivial, hlast⟩
      · obtain rfl : k = w.currBufferIndex + b.size := hnext
        have hv := OrdMap.find?_eq_some.2 hv
        exact .inr ⟨v, hv, (h.indexed _ v hv).2⟩
    · simp only [SendWindow.insertSegments, hfull, if_false]
      exact .inr ⟨b, hb, by omega⟩
  obtain ⟨index, offset, he, -⟩ := frame_advance w b seg
  rw [he] at hsent hcursor ⊢
  refine ⟨⟨⟨hlinked.fresh, hlinked.live, hlinked.keyed⟩, hdata, hsent ▸ htiles, ?_, h.buffers,
    h.buffersSize, h.head_le, h.indexed, ?_, hcursor, hwhole⟩, ?_, rfl⟩
  · have := h.segmentsSize
    rw [hsent]
    simp only [SendWindow.insertSegments, htype, if_true]
    omega
  · rw [hsent]
    simp only [sentEnd, SendWindow.insertSegments]
    omega
  · rw [hsent]
    omega

theorem Ledger.reschedule (h : w.Ledger head acked) {k : Nat} {p : SegPtr}
    (hk : w.retrySegments.find? k = some p) (now maxRound interval : Nat) :
    (w.reschedule p now maxRound interval).Ledger head acked ∧
      (w.reschedule p now maxRound interval).sentEnd = w.sentEnd ∧
      (w.reschedule p now maxRound interval).sendBuffers = w.sendBuffers := by
  obtain ⟨seg, hseg, -⟩ := h.keyed k p hk
  have hlinked := h.toLinked.reschedule hk now maxRound interval
  have hsize : ∀ x, w.segSize x = (w.reschedule p now maxRound interval).segSize x :=
    fun x => (segSize_reschedule w p x now maxRound interval).symm
  have htiles := h.segments.congr fun x _ => hsize x
  have hdata : ∀ p₁ seg₁, (w.reschedule p now maxRound interval).heap p₁ = some seg₁ →
      seg₁.pktType = .data := by
    intro p₁ seg₁ hp₁
    rw [heap_reschedule] at hp₁
    obtain ⟨seg₂, hseg₂, rfl⟩ := Option.map_eq_some_iff.1 hp₁
    split
    · exact h.data p₁ seg₂ hseg₂
    · exact h.data p₁ seg₂ hseg₂
  have hwhole := h.whole
  simp only [hsize] at hwhole
  simp only [SendWindow.reschedule, hseg] at hlinked htiles hdata hwhole ⊢
  exact ⟨⟨hlinked, hdata, htiles, h.segmentsSize, h.buffers, h.buffersSize, h.head_le, h.indexed,
    h.sentEnd_le, h.cursor, hwhole⟩, rfl, trivial⟩

/-- An acknowledgement of bytes that were sent takes the segments away up to the last one that
ends at its number or before. The buffers that it covers end there too. -/
theorem Ledger.ackSegments (h : w.Ledger head acked) {n : Nat} (hn : n ≤ w.sentEnd) :
    ∃ acked', acked ≤ acked' ∧ (w.ackSegments n).Ledger head acked' ∧
      (w.ackSegments n).sendBuffers = w.sendBuffers ∧
      ∀ y ∈ w.sendBuffers.entries, y.1 + bufSize y ≤ n → y.1 + bufSize y ≤ acked' := by
  obtain ⟨c, hdropped, hleft, hfront⟩ := h.toLinked.tiles_ackedSegments h.segments n
  have hlinked := h.toLinked.dropEntries (w.ackedSegments_sublist n)
  have hdata : ∀ p seg, (w.dropEntries (w.ackedSegments n)).heap p = some seg →
      seg.pktType = .data := fun p seg hp => h.data p seg (heap_dropEntries hp)
  have hwhole : ∀ x ∈ (w.dropEntries (w.ackedSegments n)).sendSegments.entries,
      ∀ y ∈ w.sendBuffers.entries, x.1 < y.1 + bufSize y →
        x.1 + (w.dropEntries (w.ackedSegments n)).segSize x ≤ y.1 + bufSize y := by
    intro x hx y hy hlt
    obtain ⟨hold, -, hheap⟩ := h.toLinked.find?_dropEntries (w.ackedSegments_sublist n)
      (OrdMap.find?_eq_some.2 hx)
    have hkeep : (w.dropEntries (w.ackedSegments n)).segSize x = w.segSize x := by
      simp [segSize, hheap]
    rw [hkeep]
    exact h.whole x (OrdMap.find?_eq_some.1 hold) y hy hlt
  have hcovered : ∀ y ∈ w.sendBuffers.entries, y.1 + bufSize y ≤ n → y.1 + bufSize y ≤ c := by
    intro y hy hle
    rcases hfront with rfl | ⟨x, hx, rfl, hlt⟩
    · exact hle.trans hn
    · by_contra hgt
      have := h.whole x hx y hy (by omega)
      omega
  have hsum := hdropped.add_sum
  have hc := hleft.le
  have hsize := h.segmentsSize
  have hfold : (w.sizesOf (w.ackedSegments n)).foldl u64Sub w.sendSegmentsSize =
      w.sendSegmentsSize - ((w.ackedSegments n).map w.segSize).sum :=
    foldl_u64Sub (by change ((w.ackedSegments n).map w.segSize).sum ≤ _; omega)
  obtain ⟨heap, send, retry, he⟩ := frame_dropEntries w (w.ackedSegments n)
  rw [he] at hlinked hleft hdata hwhole
  simp only [SendWindow.ackSegments, he, hfold]
  refine ⟨c, hdropped.le, ⟨⟨hlinked.fresh, hlinked.live, hlinked.keyed⟩, hdata, hleft, ?_,
    h.buffers, h.buffersSize, h.head_le.trans hdropped.le, h.indexed, h.sentEnd_le, h.cursor,
    hwhole⟩, trivial, hcovered⟩
  simp only [sentEnd] at *
  omega

/-- An acknowledgement takes the buffers away that it covers, when their segments are gone. -/
theorem Ledger.ackBuffers (h : w.Ledger head acked) {n : Nat}
    (hn : ∀ y ∈ w.sendBuffers.entries, y.1 + bufSize y ≤ n → y.1 + bufSize y ≤ acked) :
    ∃ head', (w.ackBuffers n).Ledger head' acked ∧
      ∀ y ∈ (w.ackBuffers n).sendBuffers.entries, y ∈ w.sendBuffers.entries := by
  obtain ⟨c, left, hsplit, hdropped, hleft, hc, m, hm, he⟩ :=
    tiles_ackBuffers (fun i v hv => (h.indexed i v hv).1) h.buffers h.buffersSize n
  have hmem : ∀ y ∈ m.entries, y ∈ w.sendBuffers.entries := fun y hy => by
    rw [hsplit]
    exact List.mem_append_right _ (hm ▸ hy)
  have hsub : ∀ i v, m.find? i = some v → w.sendBuffers.find? i = some v := fun i v hv =>
    OrdMap.find?_eq_some.2 (hmem _ (OrdMap.find?_eq_some.1 hv))
  have hcacked : c ≤ acked := by
    rcases hc with rfl | hcn
    · exact h.head_le
    · by_cases hnil : w.ackedBuffers n = []
      · rw [hnil] at hdropped
        exact hdropped ▸ h.head_le
      · obtain ⟨y, hy, hend⟩ := hdropped.exists_end hnil
        have := hn y (hsplit ▸ List.mem_append_left _ hy) (hend ▸ hcn)
        omega
  have hle := hleft.le
  have hacked := h.segments.le
  rw [he]
  refine ⟨c, ⟨⟨h.fresh, h.live, h.keyed⟩, h.data, h.segments, h.segmentsSize, hm ▸ hleft, ?_,
    hcacked, fun i v hv => h.indexed i v (hsub i v hv), h.sentEnd_le, ?_,
    fun x hx y hy => h.whole x hx y (hmem y hy)⟩, hmem⟩
  · simp only
    omega
  · -- the buffer being sent ends beyond what is acknowledged
    refine h.cursor.imp_right fun ⟨v, hv, hlt⟩ => ⟨v, ?_, hlt⟩
    rw [OrdMap.find?_eq_some, hm]
    rw [OrdMap.find?_eq_some, hsplit, List.mem_append] at hv
    refine hv.resolve_left fun hv => ?_
    have := (hdropped.mem hv).2
    simp only [bufSize, sentEnd] at *
    omega

theorem Ledger.abortBuffers (h : w.Ledger head acked) : w.abortBuffers.Ledger head acked where
  toLinked := ⟨h.fresh, h.live, h.keyed⟩
  data := h.data
  segments := h.segments
  segmentsSize := h.segmentsSize
  buffers := tiles_map.2 h.buffers
  buffersSize := h.buffersSize
  head_le := h.head_le
  indexed := by
    intro i b hb
    rw [SendWindow.abortBuffers, OrdMap.find?_mapVal, Option.map_eq_some_iff] at hb
    obtain ⟨b, hb, rfl⟩ := hb
    exact h.indexed i b hb
  sentEnd_le := h.sentEnd_le
  cursor := by
    refine h.cursor.imp_right fun ⟨b, hb, hlt⟩ => ⟨{ b with sendAborted := true }, ?_, hlt⟩
    exact (OrdMap.find?_mapVal ..).trans (congrArg _ hb)
  whole := by
    rintro x hx ⟨i, b⟩ hy
    obtain ⟨b, hb, rfl⟩ := OrdMap.mem_mapVal.1 hy
    exact h.whole x hx (i, b) hb

/-- A Write that is given up takes nothing away when its buffer is gone and its segments are. -/
theorem cancelFromBuffers_eq {index : Nat} (hnone : w.sendBuffers.find? index = none)
    (hnil : w.entriesWith (fun seg => seg.headSeqIndex = index) = []) :
    w.cancelFromBuffers index = w := by
  simp only [cancelFromBuffers, cancelSegments, hnil]
  exact congrArg (fun m => { w with sendBuffers := m }) (OrdMap.erase_of_find?_eq_none hnone)

end SendWindow

/-! ## Runs -/

namespace SendState

/-- What the first section of `handleAck` took away is what the second one will. -/
structure Balanced (head acked : Nat) (s : SendState) : Prop where
  ledger : s.win.Ledger head acked
  sent : ∀ n ∈ s.acksDone, n ≤ s.win.sentEnd
  covered : ∀ n ∈ s.acksDone, ∀ y ∈ s.win.sendBuffers.entries,
    y.1 + bufSize y ≤ n → y.1 + bufSize y ≤ acked

variable {s t : SendState} {head acked : Nat}

/-- A step that leaves the acknowledgements, and the buffers but for ones that are not sent. -/
theorem Balanced.setWin (h : s.Balanced head acked) {w : SendWindow} (hw : w.Ledger head acked)
    (hle : s.win.sentEnd ≤ w.sentEnd)
    (hold : ∀ y ∈ w.sendBuffers.entries,
      y.1 + bufSize y ≤ s.win.sentEnd → ∃ x ∈ s.win.sendBuffers.entries, x.1 = y.1 ∧
        bufSize x = bufSize y) : ({ s with win := w } : SendState).Balanced head acked where
  ledger := hw
  sent n hn := (h.sent n hn).trans hle
  covered n hn y hy hend := by
    obtain ⟨x, hx, hkey, hsize⟩ := hold y hy (hend.trans (h.sent n hn))
    rw [← hkey, ← hsize] at hend ⊢
    exact h.covered n hn x hx hend

theorem balanced_opened (seq capacity size : Nat) : (opened seq capacity size).Balanced seq seq where
  ledger := SendWindow.ledger_opened _ _ _
  sent := nofun
  covered := nofun

theorem Balanced.step {op : SendOp} (h : s.Balanced head acked) (hk : s.KeepsTally op)
    (hstep : s.step op = some t) : ∃ head acked, t.Balanced head acked := by
  cases op with
  | append buffer =>
    obtain ⟨hbuf, hstep⟩ := Option.ite_none_left_eq_some.1 hstep
    obtain ⟨⟨i, w⟩, ha, rfl⟩ := Option.map_eq_some_iff.1 hstep
    obtain ⟨hw, hsent, hentries⟩ := h.ledger.appendToBuffers hbuf ha
    refine ⟨_, _, h.setWin hw hsent.ge fun y hy hend => ?_⟩
    rw [hentries, List.mem_append, List.mem_singleton] at hy
    rcases hy with hy | rfl
    · exact ⟨y, hy, rfl, rfl⟩
    · -- the new buffer ends beyond what is sent
      have hpos := List.length_pos_of_ne_nil hbuf
      have := h.ledger.sentEnd_le
      simp only [bufSize, SendBuffer.size] at hend
      omega
  | writerSend ackNum now interval =>
    obtain ⟨-, hstep⟩ := Option.ite_none_right_eq_some.1 hstep
    obtain ⟨b, hb, rfl⟩ := Option.map_eq_some_iff.1 hstep
    obtain ⟨hw, hsent, hbuffers⟩ := h.ledger.advance hb rfl
    exact ⟨_, _, h.setWin hw hsent fun y hy _ => ⟨y, hbuffers ▸ hy, rfl, rfl⟩⟩
  | retry key now maxRound interval =>
    obtain ⟨p, hp, rfl⟩ := Option.map_eq_some_iff.1 hstep
    obtain ⟨hw, hsent, hbuffers⟩ := h.ledger.reschedule hp now maxRound interval
    exact ⟨_, _, h.setWin hw hsent.ge fun y hy _ => ⟨y, hbuffers ▸ hy, rfl, rfl⟩⟩
  | ackSegments latestAck =>
    obtain rfl := Option.some.inj hstep
    obtain ⟨acked', hle, hw, hbuffers, hcovered⟩ := h.ledger.ackSegments hk
    refine ⟨head, acked', hw, fun n hn => ?_, fun n hn y hy hend => ?_⟩
    · change n ≤ (s.win.ackSegments latestAck).sentEnd
      rw [SendWindow.sentEnd_ackSegments]
      rcases List.mem_cons.1 hn with rfl | hn
      · exact hk
      · exact h.sent n hn
    · have hold : y ∈ s.win.sendBuffers.entries := hbuffers ▸ hy
      rcases List.mem_cons.1 hn with rfl | hn
      · exact hcovered y hold hend
      · exact (h.covered n hn y hold hend).trans hle
  | ackBuffers latestAck =>
    obtain ⟨hmem, hstep⟩ := Option.ite_none_right_eq_some.1 hstep
    obtain rfl := Option.some.inj hstep
    obtain ⟨head', hw, hsub⟩ := h.ledger.ackBuffers (h.covered latestAck hmem)
    refine ⟨head', acked, hw, fun n hn => ?_, fun n hn y hy => ?_⟩
    · change n ≤ (s.win.ackBuffers latestAck).sentEnd
      rw [SendWindow.sentEnd_ackBuffers]
      exact h.sent n (List.mem_of_mem_erase hn)
    · exact h.covered n (List.mem_of_mem_erase hn) y (hsub y hy)
  | cancel index =>
    obtain rfl := Option.some.inj hstep
    have he := SendWindow.cancelFromBuffers_eq hk.1 hk.2
    exact ⟨_, _, h.setWin (he.symm ▸ h.ledger) (by rw [he])
      fun y hy _ => ⟨y, by rwa [he] at hy, rfl, rfl⟩⟩
  | clearBuffers =>
    obtain rfl := Option.some.inj hstep
    refine ⟨_, _, h.setWin h.ledger.abortBuffers (Nat.le_refl _) ?_⟩
    rintro ⟨i, b⟩ hy -
    obtain ⟨b, hb, rfl⟩ := OrdMap.mem_mapVal.1 hy
    exact ⟨(i, b), hb, rfl, rfl⟩
  | clearSegments =>
    obtain rfl := Option.some.inj hstep
    have he : s.win.clearSegments = s.win := by
      rw [SendWindow.clearSegments, hk]
      rfl
    exact ⟨_, _, h.setWin (he.symm ▸ h.ledger) (by rw [he])
      fun y hy _ => ⟨y, by rwa [he] at hy, rfl, rfl⟩⟩

/-- In every run whose steps all keep the tally, the counters are right in every state and the
writer finds its buffer. -/
theorem tallied_of_keepsTally {seq capacity size : Nat} {tr : List (SendState × SendOp)}
    (h : Run step (opened seq capacity size) tr s) (hk : Meets KeepsTally tr) :
    Always (fun s => s.win.Tallied) tr s := by
  have hbal := h.always_of_meets (P := fun s => ∃ head acked, s.Balanced head acked)
    ⟨_, _, balanced_opened ..⟩ (fun _ _ _ ⟨_, _, hs⟩ hc he => hs.step hc he) hk
  refine ⟨fun x hx => ?_, ?_⟩
  · obtain ⟨_, _, hx⟩ := hbal.1 x hx
    exact hx.ledger.tallied
  · obtain ⟨_, _, hs⟩ := hbal.2
    exact hs.ledger.tallied

/-- Four bytes are written, sent in two segments and acknowledged one after the other. -/
def ackedInTwo : List SendOp :=
  [.append ⟨0, [65, 66, 67, 68]⟩, .writerSend 1 10 5, .writerSend 1 10 5, .ackSegments 3,
    .ackBuffers 3, .ackSegments 5, .ackBuffers 5]

theorem tallied_of_keepsTally_ackedInTwo :
    ∃ tr s, Run step (opened 1 8 2) tr s ∧ s.win.sendBuffers.entries = [] ∧
      Always (fun s => s.win.Tallied) tr s := by
  have he : exec step (opened 1 8 2) ackedInTwo = some _ := rfl
  have hk : Meets KeepsTally (trace step (opened 1 8 2) ackedInTwo).reverse :=
    meets_trace rfl trivial <| meets_trace rfl trivial <| meets_trace rfl trivial <|
      meets_trace rfl (by change 3 ≤ 5; omega) <| meets_trace rfl trivial <|
      meets_trace rfl (by change 5 ≤ 5; omega) <| meets_trace rfl trivial <| meets_nil _
  exact ⟨_, _, run_trace he, rfl, tallied_of_keepsTally (run_trace he) hk⟩

/-- A Write of four bytes runs out of time when the first two of them are sent. -/
def cancelledHalfway : List SendOp :=
  [.append ⟨0, [65, 66, 67, 68]⟩, .writerSend 1 10 5, .cancel 1]

/-- Both counters still count what is gone, and the writer looks for the buffer in vain. -/
theorem not_tallied_cancelledHalfway :
    ∃ tr s, Run step (opened 1 8 2) tr s ∧ tr.map Prod.snd = cancelledHalfway.reverse ∧
      s.win.sendSegmentsSize ≠ (s.win.sendSegments.entries.map s.win.dataSizeOf).sum ∧
      s.win.sendBuffersSize ≠ (s.win.sendBuffers.entries.map bufSize).sum ∧
      s.win.isAvailableBufferToSend ∧ s.win.sendBuffers.find? s.win.currBufferIndex = none := by
  have he : exec step (opened 1 8 2) cancelledHalfway = some _ := rfl
  obtain ⟨tr, hr, hm⟩ := run_of_exec he
  exact ⟨tr, _, hr, hm, by decide, by decide, rfl, rfl⟩

end SendState

end PersonalCloud.Ts2.Transport
