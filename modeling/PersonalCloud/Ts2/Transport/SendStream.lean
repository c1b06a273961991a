import PersonalCloud.Ts2.Transport.RecvWindow

/-!
# The stream that a sending window cuts

While writes are neither cancelled nor aborted, `sendBuffers` and `sendSegments` are two
tilings of the end of the stream that the calls of Write make up: the buffers reach from a
number at or before the first unacknowledged byte to the end of what was written, the
segments from the first unacknowledged byte to `sentEnd`. `Outgoing` says this of a window
and of the packets sent so far, and the operations of the sender keep it.
-/

namespace PersonalCloud.Ts2.Transport

open PersonalCloud.Lib

/-- The length of the buffer of an entry. -/
def bufSize (x : Nat × SendBuffer) : Nat :=
  x.2.size

namespace SendWindow

/-- The number of the next byte to send. -/
def sentEnd (w : SendWindow) : Nat :=
  w.currBufferIndex + w.currBufferOffset

/-- The length of the segment of an entry. -/
def segSize (w : SendWindow) (x : Nat × SegPtr) : Nat :=
  ((w.heap x.2).map SendSegment.dataSize).getD 0

/-- A stream `stream` with first byte `start` is being sent, and acknowledged up to `acked`. -/
structure Outgoing (Sent : Nat → List UInt8 → Prop) (stream : List UInt8) (start acked : Nat)
    (w : SendWindow) : Prop extends Linked w where
  start_le : start ≤ acked
  segments : Tiles Prod.fst w.segSize acked w.sendSegments.entries w.sentEnd
  segmentsSize : acked + w.sendSegmentsSize = w.sentEnd
  buffers : ∃ b, b ≤ acked ∧ Tiles Prod.fst bufSize b w.sendBuffers.entries w.nextBufferIndex ∧
    b + w.sendBuffersSize = w.nextBufferIndex
  pieces : ∀ i b, w.sendBuffers.find? i = some b →
    b.headSeq = i ∧ 0 < b.size ∧ At stream start i b.buffer.bytes
  next : w.nextBufferIndex = start + stream.length
  sentEnd_le : w.sentEnd ≤ w.nextBufferIndex
  cursor : w.currBufferOffset = 0 ∨
    ∃ b, w.sendBuffers.find? w.currBufferIndex = some b ∧ w.currBufferOffset < b.size
  payload : ∀ p seg, w.heap p = some seg → seg.payload.length = seg.dataSize ∧
    (seg.payload ≠ [] → Sent seg.seqNum seg.payload)
  cut : Cut Sent stream start
  sent_le : ∀ q bs, Sent q bs → q + bs.length ≤ w.sentEnd

theorem outgoing_opened (stream : List UInt8) (start capacity size : Nat) (hs : stream = []) :
    (opened start capacity size).Outgoing (fun _ _ => False) stream start start where
  toLinked := linked_opened _ _ _
  start_le := Nat.le_refl _
  segments := rfl
  segmentsSize := rfl
  buffers := ⟨start, Nat.le_refl _, rfl, rfl⟩
  pieces := by simp [opened]
  next := by simp [hs, opened]
  sentEnd_le := Nat.le_refl _
  cursor := .inl rfl
  payload := nofun
  cut := ⟨nofun, nofun, nofun, nofun⟩
  sent_le := nofun

section Operations

variable {Sent : Nat → List UInt8 → Prop} {stream : List UInt8} {start acked : Nat}
  {w w' : SendWindow}

theorem Outgoing.acked_le (h : w.Outgoing Sent stream start acked) : acked ≤ w.sentEnd :=
  h.segments.le

/-! ## Writing -/

/-- A buffer that is queued continues the stream. -/
theorem Outgoing.appendToBuffers (h : w.Outgoing Sent stream start acked) {buffer : Buffer}
    {i : Nat} (hbuf : buffer.bytes ≠ []) (ha : w.appendToBuffers buffer = some (i, w')) :
    w'.Outgoing Sent (stream ++ buffer.bytes) start acked ∧ w'.sentEnd = w.sentEnd := by
  obtain ⟨b, hb, htiles, hsize⟩ := h.buffers
  obtain ⟨-, -, rfl⟩ := of_appendToBuffers ha
  have hlt : ∀ x ∈ w.sendBuffers.entries, x.1 < w.nextBufferIndex := by
    rintro ⟨k, v⟩ hx
    have := (htiles.mem hx).2
    have := (h.pieces k v (OrdMap.find?_eq_some.2 hx)).2.1
    simp only [bufSize] at *
    omega
  -- when the sizes are the same, everything is sent and the index already stands there
  have hcursor : w.sendSegmentsSize = w.sendBuffersSize →
      w.currBufferOffset = 0 ∧ w.currBufferIndex = w.nextBufferIndex := by
    intro heq
    have := h.segmentsSize
    have := h.sentEnd_le
    have hend : w.currBufferIndex + w.currBufferOffset = w.nextBufferIndex := by
      simp only [sentEnd] at *
      omega
    rcases h.cursor with hz | ⟨b', hb', hlt'⟩
    · exact ⟨hz, by omega⟩
    · have := (htiles.mem (OrdMap.find?_eq_some.1 hb')).2
      simp only [bufSize] at this
      omega
  have hindex : (if w.sendSegmentsSize = w.sendBuffersSize then w.nextBufferIndex
      else w.currBufferIndex) = w.currBufferIndex := by
    split
    next heq => exact (hcursor heq).2.symm
    · rfl
  simp only [hindex]
  have hentries : (w.sendBuffers.insert w.nextBufferIndex
      ⟨buffer, w.nextBufferIndex, false⟩).entries =
      w.sendBuffers.entries ++ [(w.nextBufferIndex, ⟨buffer, w.nextBufferIndex, false⟩)] :=
    OrdMap.entries_insert _ (List.append_nil _).symm hlt (by simp)
  refine ⟨⟨⟨h.fresh, h.live, h.keyed⟩, h.start_le, h.segments, h.segmentsSize,
    ⟨b, hb, ?_, ?_⟩, ?_, ?_, ?_, ?_, h.payload, ?_, h.sent_le⟩, rfl⟩
  · rw [hentries]
    exact tiles_concat.2 ⟨htiles, rfl⟩
  · simp only
    omega
  · intro j v hv
    simp only [OrdMap.find?_insert] at hv
    split_ifs at hv with hj
    · obtain rfl := Option.some.inj hv
      refine ⟨hj.symm, List.length_pos_of_ne_nil hbuf, ?_⟩
      rw [hj, h.next]
      exact at_end ..
    · obtain ⟨h₁, h₂, h₃⟩ := h.pieces j v hv
      exact ⟨h₁, h₂, h₃.extend _⟩
  · have := h.next
    simp only [List.length_append]
    omega
  · have := h.sentEnd_le
    simp only [sentEnd] at *
    omega
  · refine h.cursor.imp_right fun ⟨b', hb', hlt'⟩ => ⟨b', ?_, hlt'⟩
    have hne := (hlt _ (OrdMap.find?_eq_some.1 hb')).ne
    exact (OrdMap.find?_insert_of_ne _ _ hne).trans hb'
  · exact ⟨fun q bs hq => (h.cut.piece q bs hq).extend _, h.cut.nonempty, h.cut.same,
      h.cut.apart⟩

/-! ## Acknowledgements -/

/-- No packet sent straddles the number. -/
def Boundary (Sent : Nat → List UInt8 → Prop) (l : Nat) : Prop :=
  ∀ q bs, Sent q bs → q < l → q + bs.length ≤ l

/-- Dropping the first entries of `sendSegments` leaves the others. -/
theorem Linked.entries_dropEntries (h : w.Linked) {xs ys : List (Nat × SegPtr)}
    (hxs : w.sendSegments.entries = xs ++ ys) :
    (w.dropEntries xs).sendSegments.entries = ys := by
  induction xs generalizing w with
  | nil => exact hxs
  | cons x xs ih =>
    have hx : w.sendSegments.find? x.1 = some x.2 := OrdMap.find?_eq_some.2 (by simp [hxs])
    obtain ⟨seg, hseg, -⟩ := h.live _ _ hx
    refine ih (h.dropEntry hx) ?_
    rw [dropEntry_of_live hseg]
    exact OrdMap.entries_erase_head hxs

theorem heap_dropEntries {p : SegPtr} {seg : SendSegment} {xs : List (Nat × SegPtr)}
    (hp : (w.dropEntries xs).heap p = some seg) : w.heap p = some seg := by
  induction xs generalizing w with
  | nil => exact hp
  | cons x xs ih =>
    have hp := ih hp
    unfold dropEntry at hp
    split at hp
    · exact hp
    · by_cases hx : p = x.2
      · simp [hx] at hp
      · simpa [Function.update_of_ne hx] using hp

/-- Dropping entries changes the two maps and the heap only. -/
theorem frame_dropEntries (w : SendWindow) (xs : List (Nat × SegPtr)) :
    ∃ heap send retry, w.dropEntries xs =
      { w with heap := heap, sendSegments := send, retrySegments := retry } := by
  induction xs generalizing w with
  | nil => exact ⟨_, _, _, rfl⟩
  | cons x xs ih =>
    obtain ⟨heap, send, retry, he⟩ := ih (w.dropEntry x)
    refine ⟨heap, send, retry, he.trans ?_⟩
    unfold dropEntry
    split <;> rfl

theorem foldl_u64Sub {l : List Nat} {n : Nat} (h : l.sum ≤ n) : l.foldl u64Sub n = n - l.sum := by
  induction l generalizing n with
  | nil => rfl
  | cons a l ih =>
    rw [List.sum_cons] at h
    rw [List.foldl_cons, List.sum_cons, u64Sub_of_le (by omega), ih (by omega)]
    omega

/-- The segments that an acknowledgement covers tile the front of the range, and those that stay
tile the rest, the first of them ending beyond the number. -/
theorem Linked.tiles_ackedSegments (h : w.Linked) {a e : Nat}
    (htiles : Tiles Prod.fst w.segSize a w.sendSegments.entries e) (l : Nat) :
    ∃ c, Tiles Prod.fst w.segSize a (w.ackedSegments l) c ∧
      Tiles Prod.fst (w.dropEntries (w.ackedSegments l)).segSize c
        (w.dropEntries (w.ackedSegments l)).sendSegments.entries e ∧
      (c = e ∨ ∃ x ∈ w.sendSegments.entries, x.1 = c ∧ l < x.1 + w.segSize x) := by
  obtain ⟨c, hdropped, hleft, -, hfront⟩ := htiles.takeWhile
    (p := fun x => (w.heap x.2).any fun seg => l ≥ seg.seqNum + seg.dataSize) (l := l)
    fun x hx => by
      obtain ⟨seg, hseg, hk⟩ := h.live x.1 x.2 (OrdMap.find?_eq_some.2 hx)
      simp [hseg, hk, segSize]
  refine ⟨c, hdropped, ?_, hfront⟩
  have hentries : (w.dropEntries (w.ackedSegments l)).sendSegments.entries = _ :=
    h.entries_dropEntries List.takeWhile_append_dropWhile.symm
  rw [hentries]
  refine hleft.congr fun x hx => ?_
  obtain ⟨-, -, hheap⟩ := h.find?_dropEntries (w.ackedSegments_sublist l)
    (OrdMap.find?_eq_some.2 (hentries ▸ hx))
  simp [segSize, hheap]

/-- The segments that an acknowledgement covers tile the stream up to its number or beyond,
and those that stay tile the rest. -/
theorem Outgoing.tiles_ackedSegments (h : w.Outgoing Sent stream start acked) {l : Nat}
    (hl : l ≤ w.sentEnd) (hb : Boundary Sent l) :
    ∃ c, l ≤ c ∧ Tiles Prod.fst w.segSize acked (w.ackedSegments l) c ∧
      Tiles Prod.fst (w.dropEntries (w.ackedSegments l)).segSize c
        (w.dropEntries (w.ackedSegments l)).sendSegments.entries w.sentEnd := by
  obtain ⟨c, hdropped, hleft, hfront⟩ := h.toLinked.tiles_ackedSegments h.segments l
  refine ⟨c, ?_, hdropped, hleft⟩
  -- no segment straddles the number
  rcases hfront with rfl | ⟨x, hx, rfl, hlt⟩
  · exact hl
  · obtain ⟨seg, hseg, hk⟩ := h.live x.1 x.2 (OrdMap.find?_eq_some.2 hx)
    have hsize : w.segSize x = seg.dataSize := by simp [segSize, hseg]
    by_contra hlt'
    obtain ⟨hlen, hsent⟩ := h.payload _ _ hseg
    have hne : seg.payload ≠ [] := List.ne_nil_of_length_pos (by omega)
    have := hb _ _ (hsent hne) (by omega)
    omega

/-- An acknowledgement takes away the segments up to its number. -/
theorem Outgoing.ackSegments (h : w.Outgoing Sent stream start acked) {l : Nat}
    (hl : l ≤ w.sentEnd) (hb : Boundary Sent l) :
    ∃ acked', acked ≤ acked' ∧ l ≤ acked' ∧
      (w.ackSegments l).Outgoing Sent stream start acked' := by
  obtain ⟨c, hlc, hdropped, hleft⟩ := h.tiles_ackedSegments hl hb
  have hlinked := h.toLinked.dropEntries (w.ackedSegments_sublist l)
  have hpayload : ∀ p seg, (w.dropEntries (w.ackedSegments l)).heap p = some seg →
      seg.payload.length = seg.dataSize ∧ (seg.payload ≠ [] → Sent seg.seqNum seg.payload) :=
    fun p seg hp => h.payload p seg (heap_dropEntries hp)
  have hsum := hdropped.add_sum
  have hc := hleft.le
  have hsize := h.segmentsSize
  have hfold : (w.sizesOf (w.ackedSegments l)).foldl u64Sub w.sendSegmentsSize =
      w.sendSegmentsSize - ((w.ackedSegments l).map w.segSize).sum :=
    foldl_u64Sub (by change ((w.ackedSegments l).map w.segSize).sum ≤ _; omega)
  obtain ⟨heap, send, retry, he⟩ := frame_dropEntries w (w.ackedSegments l)
  rw [he] at hlinked hleft hpayload
  simp only [SendWindow.ackSegments, he, hfold]
  refine ⟨c, hdropped.le, hlc, ⟨hlinked.fresh, hlinked.live, hlinked.keyed⟩,
    h.start_le.trans hdropped.le, hleft, ?_, ?_, h.pieces, h.next, h.sentEnd_le, h.cursor,
    hpayload, h.cut, h.sent_le⟩
  · simp only [sentEnd] at *
    omega
  · obtain ⟨b, hb, hbuffers⟩ := h.buffers
    exact ⟨b, hb.trans hdropped.le, hbuffers⟩

theorem foldl_ackBuffers (xs : List (Nat × SendBuffer)) (w : SendWindow) :
    xs.foldl (fun w x => { w with
        sendBuffersSize := u64Sub w.sendBuffersSize x.2.size
        sendBuffers := w.sendBuffers.erase x.1 }) w =
      { w with
        sendBuffersSize := (xs.map bufSize).foldl u64Sub w.sendBuffersSize
        sendBuffers := xs.foldl (fun m x => m.erase x.1) w.sendBuffers } := by
  induction xs generalizing w with
  | nil => rfl
  | cons x xs ih => exact ih _

theorem entries_foldl_erase {m : OrdMap Nat SendBuffer} {xs ys : List (Nat × SendBuffer)}
    (hxs : m.entries = xs ++ ys) : (xs.foldl (fun m x => m.erase x.1) m).entries = ys := by
  induction xs generalizing m with
  | nil => exact hxs
  | cons x xs ih => exact ih (OrdMap.entries_erase_head hxs)

/-- The buffers that an acknowledgement covers tile the front of the range, and those that stay
tile the rest. -/
theorem tiles_ackBuffers {a e : Nat}
    (hkeyed : ∀ i b, w.sendBuffers.find? i = some b → b.headSeq = i)
    (htiles : Tiles Prod.fst bufSize a w.sendBuffers.entries e)
    (hsize : a + w.sendBuffersSize = e) (l : Nat) :
    ∃ c left, w.sendBuffers.entries = w.ackedBuffers l ++ left ∧
      Tiles Prod.fst bufSize a (w.ackedBuffers l) c ∧ Tiles Prod.fst bufSize c left e ∧
      (c = a ∨ c ≤ l) ∧ ∃ m, m.entries = left ∧
        w.ackBuffers l = { w with sendBuffers := m, sendBuffersSize := e - c } := by
  obtain ⟨c, hdropped, hleft, hc, -⟩ := htiles.takeWhile
    (p := fun x => l ≥ x.2.headSeq + x.2.size) (l := l) fun x hx => by
      rw [hkeyed x.1 x.2 (OrdMap.find?_eq_some.2 hx)]
      rfl
  have hsplit := (List.takeWhile_append_dropWhile (p := fun x : Nat × SendBuffer =>
    l ≥ x.2.headSeq + x.2.size) (l := w.sendBuffers.entries)).symm
  refine ⟨c, _, hsplit, hdropped, hleft, hc, _, entries_foldl_erase hsplit, ?_⟩
  have hsum : a + ((w.ackedBuffers l).map bufSize).sum = c := hdropped.add_sum
  have := hleft.le
  rw [SendWindow.ackBuffers, foldl_ackBuffers, foldl_u64Sub (by omega)]
  have he : w.sendBuffersSize - ((w.ackedBuffers l).map bufSize).sum = e - c := by omega
  rw [he]
  rfl

/-- An acknowledgement takes away the buffers up to its number, when their segments are gone. -/
theorem Outgoing.ackBuffers (h : w.Outgoing Sent stream start acked) {l : Nat} (hl : l ≤ acked) :
    (w.ackBuffers l).Outgoing Sent stream start acked := by
  obtain ⟨b, hb, htiles, hsize⟩ := h.buffers
  obtain ⟨c, left, hsplit, hdropped, hleft, hc, m, hm, he⟩ :=
    tiles_ackBuffers (fun i v hv => (h.pieces i v hv).1) htiles hsize l
  have hsub : ∀ i v, m.find? i = some v → w.sendBuffers.find? i = some v := by
    intro i v hv
    rw [OrdMap.find?_eq_some, hm] at hv
    rw [OrdMap.find?_eq_some, hsplit]
    exact List.mem_append_right _ hv
  have := hleft.le
  rw [he]
  refine ⟨⟨h.fresh, h.live, h.keyed⟩, h.start_le, h.segments, h.segmentsSize,
    ⟨c, by omega, hm ▸ hleft, ?_⟩, fun i v hv => h.pieces i v (hsub i v hv), h.next, h.sentEnd_le,
    ?_, h.payload, h.cut, h.sent_le⟩
  · simp only
    omega
  · -- the buffer being sent ends beyond the number
    refine h.cursor.imp_right fun ⟨v, hv, hlt⟩ => ⟨v, ?_, hlt⟩
    rw [OrdMap.find?_eq_some, hm]
    rw [OrdMap.find?_eq_some, hsplit, List.mem_append] at hv
    refine hv.resolve_left fun hv => ?_
    have := (hdropped.mem hv).2
    have := h.acked_le
    simp only [bufSize, sentEnd] at *
    omega

theorem sentEnd_ackSegments (w : SendWindow) (l : Nat) :
    (w.ackSegments l).sentEnd = w.sentEnd := by
  obtain ⟨heap, send, retry, he⟩ := frame_dropEntries w (w.ackedSegments l)
  simp only [SendWindow.ackSegments, he, sentEnd]

theorem sentEnd_ackBuffers (w : SendWindow) (l : Nat) : (w.ackBuffers l).sentEnd = w.sentEnd := by
  rw [SendWindow.ackBuffers, foldl_ackBuffers]
  rfl

/-! ## Sending -/

/-- A segment inserted at the end prolongs the tiling. An empty one that stands there is
replaced. -/
theorem Linked.tiles_insertSegments (h : w.Linked) {a : Nat}
    (hsegments : Tiles Prod.fst w.segSize a w.sendSegments.entries w.sentEnd)
    {seg : SendSegment} (hseq : seg.seqNum = w.sentEnd) :
    Tiles Prod.fst (w.insertSegments seg).segSize a
      (w.insertSegments seg).sendSegments.entries (w.sentEnd + seg.dataSize) := by
  have hold : ∀ x ∈ w.sendSegments.entries, w.segSize x = (w.insertSegments seg).segSize x := by
    rintro ⟨k, p⟩ hx
    obtain ⟨seg', hseg', -⟩ := h.live k p (OrdMap.find?_eq_some.2 hx)
    simp only [segSize, hseg', (h.fresh.heap_insertSegments hseg' seg).2]
  have hnew : (w.insertSegments seg).segSize (w.sentEnd, w.nextPtr) = seg.dataSize := by
    simp [segSize]
  have htiles := hsegments.congr hold
  have hle : ∀ x ∈ w.sendSegments.entries, x.1 ≤ w.sentEnd := fun x hx => by
    have := (hsegments.mem hx).2
    omega
  have hentries : (w.insertSegments seg).sendSegments = w.sendSegments.insert w.sentEnd w.nextPtr :=
    by rw [← hseq]; rfl
  rw [hentries]
  cases hf : w.sendSegments.find? w.sentEnd with
  | none =>
    have hlt : ∀ x ∈ w.sendSegments.entries, x.1 < w.sentEnd := fun x hx =>
      lt_of_le_of_ne (hle x hx) fun he => OrdMap.find?_eq_none.1 hf x.2 (he ▸ hx)
    rw [OrdMap.entries_insert _ (List.append_nil _).symm hlt (by simp)]
    exact tiles_concat.2 ⟨htiles, by simp only [hnew]⟩
  | some p =>
    obtain ⟨l₁, l₂, hl⟩ := List.append_of_mem (OrdMap.find?_eq_some.1 hf)
    obtain rfl : l₂ = [] := by
      refine List.eq_nil_iff_forall_not_mem.2 fun x hx => ?_
      have hs := w.sendSegments.sorted
      rw [hl, List.pairwise_append, List.pairwise_cons] at hs
      exact absurd (hs.2.1.1 x hx) (hle x (by simp [hl, hx])).not_gt
    rw [OrdMap.entries_insert_last _ hl]
    rw [hl, tiles_concat] at htiles
    exact tiles_concat.2 ⟨htiles.1, by simp only [hnew]⟩

/-- The segment that is cut next, as a piece of its buffer. -/
theorem Outgoing.nextSegment_fits (h : w.Outgoing Sent stream start acked) {b : SendBuffer}
    (hb : w.sendBuffers.find? w.currBufferIndex = some b) (ackNum now interval : Nat) :
    (w.nextSegment b ackNum now interval).payload.length =
        (w.nextSegment b ackNum now interval).dataSize ∧
      At stream start w.sentEnd (w.nextSegment b ackNum now interval).payload ∧
      w.currBufferOffset + (w.nextSegment b ackNum now interval).dataSize ≤ b.size ∧
      w.currBufferIndex + b.size ≤ w.nextBufferIndex := by
  obtain ⟨-, -, hat⟩ := h.pieces _ _ hb
  have hoff : w.currBufferOffset ≤ b.size := by
    rcases h.cursor with hz | ⟨b', hb', hlt⟩
    · omega
    · obtain rfl := Option.some.inj (hb.symm.trans hb')
      omega
  obtain ⟨_, _, htiles, _⟩ := h.buffers
  have hend := (htiles.mem (OrdMap.find?_eq_some.1 hb)).2
  have hsize : (w.nextSegment b ackNum now interval).dataSize ≤ b.size - w.currBufferOffset := by
    simp only [nextSegment, u64Sub_of_le hoff]
    omega
  refine ⟨?_, (hat.drop _).take _, by omega, hend⟩
  change ((b.buffer.bytes.drop _).take (w.nextSegment b ackNum now interval).dataSize).length = _
  rw [List.length_take, List.length_drop]
  exact min_eq_left hsize

theorem sentEnd_advance (w : SendWindow) (b : SendBuffer) (seg : SendSegment) :
    (w.advance b seg).sentEnd = w.sentEnd + seg.dataSize := by
  simp only [SendWindow.advance]
  split
  next he =>
    simp only [sentEnd, insertSegments] at *
    omega
  · exact (Nat.add_assoc ..).symm

/-- Moving on in the buffer changes the cursor only. -/
theorem frame_advance (w : SendWindow) (b : SendBuffer) (seg : SendSegment) :
    ∃ index offset, w.advance b seg =
      { w.insertSegments seg with currBufferIndex := index, currBufferOffset := offset } ∧
      (offset = 0 ∨ index = w.currBufferIndex ∧ offset = w.currBufferOffset + seg.dataSize ∧
        offset ≠ b.size) := by
  simp only [SendWindow.advance]
  split
  · exact ⟨_, _, rfl, .inl rfl⟩
  next hne => exact ⟨_, _, rfl, .inr ⟨rfl, rfl, hne⟩⟩

/-- The segment cut from a buffer prolongs what is sent. -/
theorem Outgoing.advance (h : w.Outgoing Sent stream start acked) {b : SendBuffer}
    (hb : w.sendBuffers.find? w.currBufferIndex = some b) {ackNum now interval : Nat}
    {seg : SendSegment} (hseg : seg = w.nextSegment b ackNum now interval)
    {Sent' : Nat → List UInt8 → Prop}
    (hSent : ∀ q bs, Sent' q bs ↔ Sent q bs ∨ bs ≠ [] ∧ q = seg.seqNum ∧ bs = seg.payload) :
    (w.advance b seg).Outgoing Sent' stream start acked := by
  obtain ⟨hlen, hat, hfit, hend⟩ := h.nextSegment_fits hb ackNum now interval
  rw [← hseg] at hlen hat hfit
  have hseq : seg.seqNum = w.sentEnd := by rw [hseg]; rfl
  have htype : seg.pktType = .data := by rw [hseg]; rfl
  have hlinked := h.toLinked.insertSegments seg
  have htiles := h.toLinked.tiles_insertSegments h.segments hseq
  have hsent := sentEnd_advance w b seg
  have hpayload : ∀ p seg', (w.insertSegments seg).heap p = some seg' →
      seg'.payload.length = seg'.dataSize ∧
        (seg'.payload ≠ [] → Sent' seg'.seqNum seg'.payload) := by
    intro p seg' hp
    by_cases hpp : p = w.nextPtr
    · obtain rfl : seg = seg' := by simpa [hpp] using hp
      exact ⟨hlen, fun hne => (hSent ..).2 (.inr ⟨hne, rfl, rfl⟩)⟩
    · have hp : w.heap p = some seg' := by
        simpa [SendWindow.insertSegments, Function.update_of_ne hpp] using hp
      exact (h.payload p seg' hp).imp_right fun hs hne => (hSent ..).2 (.inl (hs hne))
  have hsent_le : ∀ q bs, Sent' q bs → q + bs.length ≤ w.sentEnd + seg.dataSize := by
    intro q bs hq
    rcases (hSent q bs).1 hq with hq | ⟨-, rfl, rfl⟩
    · have := h.sent_le q bs hq
      omega
    · omega
  obtain ⟨index, offset, he, hcursor⟩ := frame_advance w b seg
  rw [he] at hsent ⊢
  refine ⟨⟨hlinked.fresh, hlinked.live, hlinked.keyed⟩, h.start_le, hsent ▸ htiles, ?_,
    h.buffers, h.pieces, h.next, ?_, ?_, hpayload, h.cut.snoc h.sent_le hat (hseq ▸ hSent),
    fun q bs hq => hsent ▸ hsent_le q bs hq⟩
  · have := h.segmentsSize
    rw [hsent]
    simp only [SendWindow.insertSegments, htype, if_true]
    omega
  · rw [hsent]
    simp only [sentEnd, SendWindow.insertSegments]
    omega
  · rcases hcursor with hc | ⟨hi, ho, hne⟩
    · exact .inl hc
    · refine .inr ⟨b, ?_, ?_⟩
      · rw [← hb, hi]
        rfl
      · simp only
        omega

/-- Backing off leaves the sizes. -/
theorem segSize_reschedule (w : SendWindow) (p : SegPtr) (x : Nat × SegPtr)
    (now maxRound interval : Nat) :
    (w.reschedule p now maxRound interval).segSize x = w.segSize x := by
  rw [segSize, segSize, heap_reschedule, Option.map_map]
  congr 2
  funext seg
  simp only [Function.comp]
  split <;> rfl

/-- Sending a segment again changes nothing that matters to the stream. -/
theorem Outgoing.reschedule (h : w.Outgoing Sent stream start acked) {k : Nat} {p : SegPtr}
    (hk : w.retrySegments.find? k = some p) (now maxRound interval : Nat) :
    (w.reschedule p now maxRound interval).Outgoing Sent stream start acked ∧
      (w.reschedule p now maxRound interval).sentEnd = w.sentEnd := by
  obtain ⟨seg, hseg, -⟩ := h.keyed k p hk
  have hlinked := h.toLinked.reschedule hk now maxRound interval
  have htiles := h.segments.congr fun x _ => (segSize_reschedule w p x now maxRound interval).symm
  have hpayload : ∀ p₁ seg₁, (w.reschedule p now maxRound interval).heap p₁ = some seg₁ →
      seg₁.payload.length = seg₁.dataSize ∧ (seg₁.payload ≠ [] → Sent seg₁.seqNum seg₁.payload) := by
    intro p₁ seg₁ hp₁
    rw [heap_reschedule] at hp₁
    obtain ⟨seg₂, hseg₂, rfl⟩ := Option.map_eq_some_iff.1 hp₁
    split
    · exact h.payload p₁ seg₂ hseg₂
    · exact h.payload p₁ seg₂ hseg₂
  simp only [SendWindow.reschedule, hseg] at hlinked htiles hpayload ⊢
  exact ⟨⟨hlinked, h.start_le, htiles, h.segmentsSize, h.buffers, h.pieces, h.next, h.sentEnd_le,
    h.cursor, hpayload, h.cut, h.sent_le⟩, rfl⟩

end Operations

end SendWindow

end PersonalCloud.Ts2.Transport
