import PersonalCloud.Ts2.Transport.WriteBuffers

/-!
# When Write returns, its buffer is free

A call can return too early in three ways, all excluded by `KeepsBuffers`: a segment is
inserted over one that carries data, an acknowledgement takes away a buffer that still has
segments, or a wait ends with no reason while the buffer is still queued. The first one
happens in a normal Close: the writer sends between Clear and the insertion of the FIN,
which has the same sequence number.

## Main results

* `WriteState.Good` — every buffer in use belongs to a call in progress.
* `buffersReleased_of_keepsBuffers` — in a run whose steps all meet `KeepsBuffers`, a call
  that has returned has no segment and no queued packet left.
-/

namespace PersonalCloud.Ts2.Transport

open PersonalCloud.Lib

namespace SendWindow

/-- No segment in `sendSegments` carries data. -/
def NoData (w : SendWindow) : Prop :=
  ∀ q p seg, w.sendSegments.find? q = some p → w.heap p = some seg → seg.data = none

theorem NoData.dropEntries {w : SendWindow} (hn : w.NoData) (h : w.Owned)
    {xs : List (Nat × SegPtr)} (hxs : xs.Sublist w.sendSegments.entries) :
    (w.dropEntries xs).NoData := by
  intro q p seg hp hseg
  obtain ⟨hp, -, hheap⟩ := h.find?_dropEntries hxs hp
  exact hn q p seg hp (hheap ▸ hseg)

theorem NoData.insertSegments {w : SendWindow} (hn : w.NoData)
    {seg : SendSegment} (hseg : seg.data = none) : (w.insertSegments seg).NoData := by
  intro q p seg' hp hp'
  by_cases hpp : p = w.nextPtr
  · obtain rfl : seg = seg' := by simpa [SendWindow.insertSegments, hpp] using hp'
    exact hseg
  · have hq : q ≠ seg.seqNum := by
      rintro rfl
      exact hpp (by simpa [SendWindow.insertSegments, eq_comm] using hp)
    refine hn q p seg' ?_ ?_
    · simpa [SendWindow.insertSegments, OrdMap.find?_insert, hq] using hp
    · simpa [SendWindow.insertSegments, Function.update_of_ne hpp] using hp'

theorem NoData.reschedule {w : SendWindow} (hn : w.NoData) (p : SegPtr)
    (now maxRound interval : Nat) : (w.reschedule p now maxRound interval).NoData := by
  unfold SendWindow.reschedule
  split
  · exact hn
  next seg hseg =>
    intro q p' seg' hp' hseg'
    by_cases hpp : p' = p
    · subst hpp
      obtain rfl : seg.backOff now maxRound interval = seg' := by simpa using hseg'
      exact hn q p' seg hp' hseg
    · exact hn q p' seg' hp' (by simpa [Function.update_of_ne hpp] using hseg')

end SendWindow

namespace WriteState

/-- Every buffer that is queued, sent or on its way belongs to a call in progress. -/
structure Good (s : WriteState) : Prop where
  owned : s.win.Owned
  inProgress : ∀ i b, s.win.sendBuffers.find? i = some b →
    (s.calls b.buffer.owner).index? = some i
  queued : ∀ d ∈ s.queued, (s.calls d.buffer.owner).index?.isSome
  unsent : s.writer = .notStarted → s.queued = [] ∧ s.win.NoData
  writerStarted : s.isWriterStarted = false → s.isWriterStop = false → s.writer = .notStarted

theorem good_opened (seq capacity size : Nat) : (opened seq capacity size).Good where
  owned := SendWindow.owned_opened _ _ _
  inProgress := by simp [opened, SendWindow.opened]
  queued := by simp [opened]
  unsent := fun _ => ⟨rfl, by simp [SendWindow.NoData, opened, SendWindow.opened]⟩
  writerStarted := fun _ _ => rfl

/-- No segment of either map and no queued packet points into the buffer of a call that has
returned. -/
def BuffersReleased (s : WriteState) : Prop :=
  ∀ c, (s.calls c).isReturned →
    (∀ q p seg d, s.win.sendSegments.find? q = some p → s.win.heap p = some seg →
      seg.data = some d → d.buffer.owner ≠ c) ∧
    (∀ k p seg d, s.win.retrySegments.find? k = some p → s.win.heap p = some seg →
      seg.data = some d → d.buffer.owner ≠ c) ∧
    ∀ d ∈ s.queued, d.buffer.owner ≠ c

theorem index?_eq_none {pc : WritePc} (h : pc.isReturned) : pc.index? = none := by
  cases pc <;> first | rfl | simp [WritePc.isReturned] at h

theorem Good.buffersReleased {s : WriteState} (h : s.Good) : s.BuffersReleased := by
  intro c hc
  have hnone := index?_eq_none hc
  have hsend : ∀ q p seg d, s.win.sendSegments.find? q = some p → s.win.heap p = some seg →
      seg.data = some d → d.buffer.owner ≠ c := by
    rintro q p seg d hp hseg hd rfl
    obtain ⟨b, hb, hbd⟩ := h.owned.backed q p seg d hp hseg hd
    have := h.inProgress _ b hb
    simp [hbd, hnone] at this
  refine ⟨hsend, ?_, ?_⟩
  · intro k p seg d hp hseg hd
    exact hsend _ p seg d (h.owned.listed k p seg d hp hseg hd) hseg hd
  · rintro d hd rfl
    have := h.queued d hd
    simp [hnone] at this

/-! ## Steps of the callers -/

/-- A call that queues no buffer and gives none up. -/
theorem Good.setCall {s : WriteState} (h : s.Good) {c : Nat} {pc : WritePc}
    (hi : pc.index? = (s.calls c).index?) : (s.setCall c pc).Good := by
  have hidx : ∀ c', ((s.setCall c pc).calls c').index? = (s.calls c').index? := by
    intro c'
    by_cases hc : c' = c
    · simp [WriteState.setCall, hc, hi]
    · simp [WriteState.setCall, Function.update_of_ne hc]
  refine ⟨h.owned, ?_, ?_, h.unsent, h.writerStarted⟩
  · intro i b hb
    rw [hidx]
    exact h.inProgress i b hb
  · intro d hd
    rw [hidx]
    exact h.queued d hd

theorem Good.write {s s' : WriteState} (h : s.Good) {c : Nat} {bytes : List UInt8}
    (he : s.write c bytes = some s') : s'.Good := by
  unfold WriteState.write at he
  split_ifs at he with hidle
  all_goals
    obtain rfl := Option.some.inj he
    exact h.setCall (by simp [hidle.2, WritePc.index?])

theorem Good.append {s s' : WriteState} (h : s.Good) {c : Nat} {alloc : Bool}
    (he : s.append c alloc = some s') : s'.Good := by
  unfold WriteState.append at he
  split at he
  case h_2 => cases he
  next bytes hc =>
    split at he
    · obtain rfl := Option.some.inj he
      exact h.setCall (by simp [hc, WritePc.index?])
    next i w ha =>
      split_ifs at he
      · obtain rfl := Option.some.inj he
        have howned := h.owned.appendToBuffers ha
        obtain ⟨hnone, rfl, rfl⟩ := SendWindow.of_appendToBuffers ha
        have hne : ∀ {c'}, (s.calls c').index?.isSome → c' ≠ c := by
          rintro c' hsome rfl
          simp [hc, WritePc.index?] at hsome
        refine ⟨howned, ?_, ?_, h.unsent, h.writerStarted⟩
        · intro i b hb
          by_cases hi : i = s.win.nextBufferIndex
          · obtain rfl : _ = b := by simpa [WriteState.setCall, hi] using hb
            simp [WriteState.setCall, hi, WritePc.index?]
          · have hc' := h.inProgress i b
              (by simpa [WriteState.setCall, OrdMap.find?_insert, hi] using hb)
            have hbc : b.buffer.owner ≠ c := hne (by simp [hc'])
            simpa [WriteState.setCall, Function.update_of_ne hbc] using hc'
        · intro d hd
          have hc' := h.queued d hd
          simpa [WriteState.setCall, Function.update_of_ne (hne hc')] using hc'
      · obtain rfl := Option.some.inj he
        exact h.setCall (by simp [hc, WritePc.index?])

/-- A call may return once its buffer is out of the window and nothing of it is queued. -/
theorem Good.release {s : WriteState} (h : s.Good) {c i : Nat} {w : SendWindow}
    {queued : List DataRef} {err : WriteResult} (hc : (s.calls c).index? = some i)
    (hw : w.Owned)
    (hbuf : ∀ j b, w.sendBuffers.find? j = some b → j ≠ i ∧ s.win.sendBuffers.find? j = some b)
    (hqueued : queued = []) (hdata : s.writer = .notStarted → w.NoData) :
    ({ s with win := w, queued := queued }.setCall c (.returned err)).Good := by
  refine ⟨hw, ?_, ?_, fun hns => ⟨hqueued, hdata hns⟩, h.writerStarted⟩
  · intro j b hb
    obtain ⟨hj, hbj⟩ := hbuf j b hb
    have hcj := h.inProgress j b hbj
    have hne : b.buffer.owner ≠ c := by
      intro heq
      exact hj (Option.some.inj (hcj.symm.trans (heq ▸ hc)))
    simpa [WriteState.setCall, Function.update_of_ne hne] using hcj
  · simp [WriteState.setCall, hqueued]

theorem find?_cancelFromBuffers {w : SendWindow} {i j : Nat} {b : SendBuffer}
    (hb : (w.cancelFromBuffers i).sendBuffers.find? j = some b) :
    j ≠ i ∧ w.sendBuffers.find? j = some b := by
  simpa [OrdMap.find?_erase] using hb

theorem noData_cancelFromBuffers {w : SendWindow} (hn : w.NoData) (h : w.Owned) (i : Nat) :
    (w.cancelFromBuffers i).NoData :=
  hn.dropEntries h (w.entriesWith_sublist _)

/-- Write cleans up as it should if it reports success only without its buffer. -/
theorem Good.cleanup {s : WriteState} (h : s.Good) {c i : Nat} {err : WriteResult}
    (hc : (s.calls c).index? = some i)
    (hok : err = .ok → s.win.sendBuffers.find? i = none) : (s.cleanup c i err).Good := by
  by_cases herr : err = .ok
  · subst herr
    refine h.release hc ?_ ?_ rfl ?_
    · exact h.owned
    · rintro j b hb
      refine ⟨?_, hb⟩
      rintro rfl
      exact absurd (hok rfl) (by simp_all)
    · exact fun hns => (h.unsent hns).2
  · simp only [WriteState.cleanup, ne_eq, herr, not_false_eq_true, if_true]
    exact h.release hc (h.owned.cancelFromBuffers i) (fun _ _ => find?_cancelFromBuffers) rfl
      fun hns => noData_cancelFromBuffers (h.unsent hns).2 h.owned i

/-- Before the writer is started a call can give its buffer up at once. -/
theorem Good.giveUp {s : WriteState} (h : s.Good) {c i : Nat} {err : WriteResult}
    (hc : (s.calls c).index? = some i) (hns : s.writer = .notStarted) :
    ({ s with win := s.win.cancelFromBuffers i }.setCall c (.returned err)).Good :=
  h.release hc (h.owned.cancelFromBuffers i) (fun _ _ => find?_cancelFromBuffers)
    (h.unsent hns).1 fun _ => noData_cancelFromBuffers (h.unsent hns).2 h.owned i

theorem Good.spawn {s s' : WriteState} (h : s.Good) {c : Nat} {spawned : Bool}
    (he : s.spawn c spawned = some s') : s'.Good := by
  unfold WriteState.spawn at he
  split at he
  case h_2 => cases he
  next i hh hc =>
    have hidx : (s.calls c).index? = some i := by simp [hc, WritePc.index?]
    have hns : (!s.isWriterStarted && !s.isWriterStop) = true → s.writer = .notStarted := by
      simp only [Bool.and_eq_true, Bool.not_eq_true', and_imp]
      exact h.writerStarted
    split_ifs at he with hw hstate hspawned
    · obtain rfl := Option.some.inj he
      exact h.giveUp hidx (hns hw)
    · obtain rfl := Option.some.inj he
      exact h.giveUp hidx (hns hw)
    · obtain rfl := Option.some.inj he
      have h' : (s.setCall c (.ready i)).Good := h.setCall hidx.symm
      exact ⟨h'.owned, h'.inProgress, h'.queued, nofun, nofun⟩
    · obtain rfl := Option.some.inj he
      exact h.setCall hidx.symm

theorem Good.check {s s' : WriteState} (h : s.Good) {c : Nat} (he : s.check c = some s') :
    s'.Good := by
  unfold WriteState.check at he
  split at he
  case h_2 => cases he
  next i hc =>
    have hidx : (s.calls c).index? = some i := by simp [hc, WritePc.index?]
    split at he
    next hnone =>
      obtain rfl := Option.some.inj he
      exact h.cleanup hidx fun _ => hnone
    next b hb =>
      split_ifs at he
      · obtain rfl := Option.some.inj he
        exact h.cleanup hidx nofun
      · obtain rfl := Option.some.inj he
        exact h.setCall hidx.symm

/-- A wait may end with no error only when the buffer is gone or marked aborted. -/
theorem Good.wake {s s' : WriteState} (h : s.Good) {c : Nat} {r : WaitResult}
    (hk : r = .ok → ∀ i b, s.calls c = .waiting i → s.win.sendBuffers.find? i = some b →
      b.sendAborted = true)
    (he : s.wake c r = some s') : s'.Good := by
  unfold WriteState.wake at he
  split at he
  case h_2 => cases he
  next i hc =>
    have hidx : (s.calls c).index? = some i := by simp [hc, WritePc.index?]
    split_ifs at he with ht ha hok
    · obtain rfl := Option.some.inj he
      exact h.cleanup hidx nofun
    · obtain rfl := Option.some.inj he
      exact h.cleanup hidx nofun
    · obtain rfl := Option.some.inj he
      refine h.cleanup hidx fun _ => ?_
      rw [Option.eq_none_iff_forall_ne_some]
      intro b hb
      simp [hb, hk hok i b hc hb] at ha
    · obtain rfl := Option.some.inj he
      exact h.cleanup hidx nofun

/-! ## Steps of the threads -/

/-- The window changes and no buffer is added; the callers stay where they are. -/
theorem Good.setWin {s s' : WriteState} (h : s.Good) (hw : s'.win.Owned)
    (hbuf : ∀ i b, s'.win.sendBuffers.find? i = some b →
      ∃ b', s.win.sendBuffers.find? i = some b' ∧ b'.buffer = b.buffer)
    (hcalls : s'.calls = s.calls)
    (hqueued : ∀ d ∈ s'.queued, d ∈ s.queued ∨ (s.calls d.buffer.owner).index?.isSome)
    (hunsent : s'.writer = .notStarted → s'.queued = [] ∧ s'.win.NoData)
    (hstarted : s'.isWriterStarted = false → s'.isWriterStop = false →
      s'.writer = .notStarted) : s'.Good := by
  refine ⟨hw, ?_, ?_, hunsent, hstarted⟩
  · intro i b hb
    obtain ⟨b', hb', hbb⟩ := hbuf i b hb
    rw [hcalls, ← hbb]
    exact h.inProgress i b' hb'
  · intro d hd
    rw [hcalls]
    exact (hqueued d hd).elim (h.queued d) id

/-- A running writer goes on or stops. -/
theorem Good.setWriter {s : WriteState} (h : s.Good) {pc : WriterPc} {stop : Bool}
    (hs : s.writer ≠ .notStarted) (hpc : pc ≠ .notStarted)
    (hstop : s.isWriterStop = true → stop = true) :
    { s with writer := pc, isWriterStop := stop }.Good := by
  refine ⟨h.owned, h.inProgress, h.queued, fun hns => absurd hns hpc, fun hstart hns => ?_⟩
  have hrun : s.isWriterStop = false := by
    by_contra hc
    simp [hstop (by simpa using hc)] at hns
  exact absurd (h.writerStarted hstart hrun) hs

theorem Good.writerWindow {s s' : WriteState} (h : s.Good) (he : s.writerWindow = some s') :
    s'.Good := by
  unfold WriteState.writerWindow at he
  split_ifs at he with htop
  · obtain rfl := Option.some.inj he
    exact h.setWriter (by simp_all) nofun fun _ => rfl
  · obtain rfl := Option.some.inj he
    exact h.setWriter (by simp_all) nofun id

theorem Good.writerSend {s s' : WriteState} (h : s.Good) {ackNum now interval : Nat}
    {alloc : Bool}
    (hk : s.isWriterStop = false →
      s.win.PlaceFree (s.win.currBufferIndex + s.win.currBufferOffset))
    (he : s.writerSend ackNum now interval alloc = some s') : s'.Good := by
  unfold WriteState.writerSend at he
  have hs : s.writer = .ready → s.writer ≠ .notStarted := by simp_all
  split_ifs at he with hready hstop _ halloc
  · obtain rfl := Option.some.inj he
    exact h.setWriter (hs (not_not.1 hready)) nofun fun _ => rfl
  · have hexit : s.writerExit = s' := by
      split at he <;> exact Option.some.inj he
    subst hexit
    exact h.setWriter (hs (not_not.1 hready)) nofun fun _ => rfl
  split at he
  · obtain rfl := Option.some.inj he
    exact h.setWriter (hs (not_not.1 hready)) nofun fun _ => rfl
  next b hb =>
    obtain rfl := Option.some.inj he
    refine h.setWin (h.owned.advance hb (hk (by simpa using hstop))) ?_ rfl ?_ nofun ?_
    · intro i b' hb'
      exact ⟨b', by simpa [SendWindow.sendBuffers_advance] using hb', rfl⟩
    · intro d hd
      rcases List.mem_append.1 hd with hd | hd
      · exact .inl hd
      · right
        obtain rfl := List.mem_singleton.1 hd
        simp [h.inProgress _ b hb]
    · exact fun hstart hns => absurd (h.writerStarted hstart hns) (hs (not_not.1 hready))

theorem Good.retry {s s' : WriteState} (h : s.Good) {key now maxRound interval : Nat}
    (he : s.retry key now maxRound interval = some s') : s'.Good := by
  unfold WriteState.retry at he
  split_ifs at he
  obtain ⟨p, hp, he⟩ := Option.bind_eq_some_iff.1 he
  obtain ⟨seg, hseg, rfl⟩ := Option.map_eq_some_iff.1 he
  have hback : ∀ d, seg.data = some d → s.win.sendSegments.find? seg.seqNum = some p ∧
      (s.calls d.buffer.owner).index?.isSome := by
    intro d hd
    have hs := h.owned.listed key p seg d hp hseg hd
    obtain ⟨b, hb, hbd⟩ := h.owned.backed _ p seg d hs hseg hd
    exact ⟨hs, by simp [← hbd, h.inProgress _ b hb]⟩
  refine h.setWin (h.owned.reschedule hp now maxRound interval) ?_ rfl ?_ ?_ h.writerStarted
  · intro i b hb
    exact ⟨b, by simpa using hb, rfl⟩
  · intro d hd
    dsimp only at hd
    split_ifs at hd
    · rcases List.mem_append.1 hd with hd | hd
      · exact .inl hd
      · exact .inr (hback d (by simpa using hd)).2
    · exact .inl hd
  · intro hns
    obtain ⟨hq, hn⟩ := h.unsent hns
    refine ⟨?_, hn.reschedule p now maxRound interval⟩
    have hdata : seg.data = none := by
      rw [Option.eq_none_iff_forall_ne_some]
      intro d hd
      simp [hn _ p seg (hback d hd).1 hseg] at hd
    simp [hq, hdata]

theorem Good.stopWorkerThreads {s : WriteState} (h : s.Good) : s.stopWorkerThreads.Good := by
  refine ⟨h.owned, h.inProgress, h.queued, h.unsent, fun _ hstop => ?_⟩
  cases hstart : s.isWriterStarted with
  | true => simp [WriteState.stopWorkerThreads, hstart] at hstop
  | false => exact h.writerStarted hstart (by simpa [WriteState.stopWorkerThreads, hstart] using hstop)

theorem Good.ackSegments {s s' : WriteState} (h : s.Good) {latestAck : Nat}
    (he : s.ackSegments latestAck = some s') : s'.Good := by
  unfold WriteState.ackSegments at he
  split_ifs at he
  obtain rfl := Option.some.inj he
  refine h.setWin (h.owned.ackSegments latestAck) ?_ rfl (fun _ hd => .inl hd) ?_ h.writerStarted
  · intro i b hb
    exact ⟨b, by simpa [SendWindow.ackSegments] using hb, rfl⟩
  · intro hns
    obtain ⟨hq, hn⟩ := h.unsent hns
    exact ⟨hq, hn.dropEntries h.owned (s.win.ackedSegments_sublist latestAck)⟩

@[simp] theorem heap_ackBuffers (w : SendWindow) (latestAck : Nat) :
    (w.ackBuffers latestAck).heap = w.heap ∧
      (w.ackBuffers latestAck).sendSegments = w.sendSegments := by
  unfold SendWindow.ackBuffers
  generalize w.ackedBuffers latestAck = xs
  induction xs generalizing w with
  | nil => exact ⟨rfl, rfl⟩
  | cons x xs ih => exact ih _

theorem Good.ackBuffers {s s' : WriteState} (h : s.Good) {latestAck : Nat}
    (hk : ∀ x ∈ s.win.ackedBuffers latestAck, s.win.NoneSent x.1)
    (he : s.ackBuffers latestAck = some s') : s'.Good := by
  unfold WriteState.ackBuffers at he
  split_ifs at he
  obtain rfl := Option.some.inj he
  refine h.setWin (h.owned.ackBuffers hk) ?_ rfl (fun _ hd => .inl hd) ?_ h.writerStarted
  · intro i b hb
    exact ⟨b, SendWindow.find?_ackBuffers hb, rfl⟩
  · intro hns
    obtain ⟨hq, hn⟩ := h.unsent hns
    refine ⟨hq, ?_⟩
    simpa [SendWindow.NoData] using hn

theorem Good.clearBuffers {s s' : WriteState} (h : s.Good) (he : s.clearBuffers = some s') :
    s'.Good := by
  unfold WriteState.clearBuffers at he
  split at he
  case h_2 => cases he
  next kind _ =>
    obtain rfl := Option.some.inj he
    refine h.setWin h.owned.abortBuffers ?_ rfl (fun _ hd => .inl hd) h.unsent h.writerStarted
    intro i b hb
    obtain ⟨b', hb', rfl⟩ : ∃ b', s.win.sendBuffers.find? i = some b' ∧ _ = b := by
      simpa [SendWindow.abortBuffers, OrdMap.find?_mapVal] using hb
    exact ⟨b', hb', rfl⟩

theorem Good.clearSegments {s s' : WriteState} (h : s.Good) (he : s.clearSegments = some s') :
    s'.Good := by
  unfold WriteState.clearSegments at he
  split at he
  case h_2 => cases he
  next kind _ =>
    obtain rfl := Option.some.inj he
    refine h.setWin h.owned.clearSegments ?_ rfl (fun _ hd => .inl hd) ?_ h.writerStarted
    · intro i b hb
      exact ⟨b, by simpa [SendWindow.clearSegments] using hb, rfl⟩
    · intro hns
      obtain ⟨hq, hn⟩ := h.unsent hns
      exact ⟨hq, hn.dropEntries h.owned (.refl _)⟩

theorem Good.insertFin {s s' : WriteState} (h : s.Good) {ackNum now interval : Nat}
    (hk : ∀ kind seqNum, s.holder = some (kind, .insertFin seqNum) → s.win.PlaceFree seqNum)
    (he : s.insertFin ackNum now interval = some s') : s'.Good := by
  unfold WriteState.insertFin at he
  split at he
  case h_2 => cases he
  next kind seqNum hh =>
    obtain rfl := Option.some.inj he
    have hw : (s.win.insertSegments (ctrlSegment .fin seqNum ackNum now interval)).Owned :=
      h.owned.insertSegments (hk kind seqNum hh) nofun
    refine h.setWin hw ?_ rfl (fun _ hd => .inl hd) ?_ h.writerStarted
    · intro i b hb
      exact ⟨b, hb, rfl⟩
    · intro hns
      obtain ⟨hq, hn⟩ := h.unsent hns
      exact ⟨hq, hn.insertSegments rfl⟩

/-- What the other closing steps change is nothing to the callers. -/
theorem Good.setState {s : WriteState} (h : s.Good) (state : VtunnelState)
    (holder : Option (CloseKind × CloseStage)) (closers : Nat) :
    { s with state := state, holder := holder, closers := closers }.Good :=
  ⟨h.owned, h.inProgress, h.queued, h.unsent, h.writerStarted⟩

theorem Good.finish {s s' : WriteState} (h : s.Good) {alloc : Bool}
    (he : s.finish alloc = some s') : s'.Good := by
  unfold WriteState.finish at he
  split at he
  · split_ifs at he
    all_goals
      obtain rfl := Option.some.inj he
      exact h.setState ..
  case h_5 => cases he
  all_goals
    obtain rfl := Option.some.inj he
    exact h.setState ..

end WriteState

/-! ## Runs -/

/-- The step keeps the callers' buffers safe: a segment takes the place of none that
carries data, an acknowledgement takes a buffer only with its segments gone, and a wait does
not end without a reason. -/
def KeepsBuffers (s : WriteState) : WriteOp → Prop
  | .writerSend .. => s.isWriterStop = false →
    s.win.PlaceFree (s.win.currBufferIndex + s.win.currBufferOffset)
  | .insertFin .. => ∀ kind seqNum, s.holder = some (kind, .insertFin seqNum) →
    s.win.PlaceFree seqNum
  | .ackBuffers latestAck => ∀ x ∈ s.win.ackedBuffers latestAck, s.win.NoneSent x.1
  | .wake c r => r = .ok → ∀ i b, s.calls c = .waiting i →
    s.win.sendBuffers.find? i = some b → b.sendAborted = true
  | _ => True

theorem good_writeStep {s s' : WriteState} {op : WriteOp} (h : s.Good)
    (hk : KeepsBuffers s op) (he : writeStep s op = some s') : s'.Good := by
  cases op with
  | write c bytes => exact h.write he
  | append c alloc => exact h.append he
  | spawn c spawned => exact h.spawn he
  | check c => exact h.check he
  | wake c r => exact h.wake hk he
  | writerWindow => exact h.writerWindow he
  | writerSend ackNum now interval alloc => exact h.writerSend hk he
  | retry key now maxRound interval => exact h.retry he
  | ackSegments latestAck => exact h.ackSegments he
  | ackBuffers latestAck => exact h.ackBuffers hk he
  | clearBuffers => exact h.clearBuffers he
  | clearSegments => exact h.clearSegments he
  | finish alloc => exact h.finish he
  | insertFin ackNum now interval => exact h.insertFin hk he
  | receiveAck latestAck =>
    simp only [writeStep, WriteState.receiveAck, Option.ite_none_right_eq_some] at he
    obtain rfl := Option.some.inj he.2
    exact ⟨h.owned, h.inProgress, h.queued, h.unsent, h.writerStarted⟩
  | ackTest latestAck =>
    simp only [writeStep, WriteState.ackTest, Option.ite_none_right_eq_some] at he
    obtain rfl := Option.some.inj he.2
    exact ⟨h.owned, h.inProgress, h.queued, h.unsent, h.writerStarted⟩
  | close =>
    simp only [writeStep, WriteState.close] at he
    split_ifs at he
    · obtain rfl := Option.some.inj he
      exact h.setState ..
    · obtain rfl := Option.some.inj he
      exact h.stopWorkerThreads.setState ..
  | handleFin =>
    simp only [writeStep, WriteState.handleFin, Option.ite_none_right_eq_some] at he
    obtain rfl := Option.some.inj he.2
    exact h.setState ..
  | handleFinAck =>
    simp only [writeStep, WriteState.handleFinAck, Option.ite_none_right_eq_some] at he
    obtain rfl := Option.some.inj he.2
    exact h.stopWorkerThreads.setState ..
  | closeTimeout =>
    simp only [writeStep, WriteState.closeTimeout, Option.ite_none_right_eq_some] at he
    obtain rfl := Option.some.inj he.2
    exact h.setState ..
  | transmit i =>
    obtain rfl := Option.some.inj he
    refine h.setWin h.owned (fun i b hb => ⟨b, hb, rfl⟩) rfl ?_ ?_ h.writerStarted
    · exact fun d hd => .inl ((List.eraseIdx_sublist ..).subset hd)
    · exact fun hns => ⟨by simp [(h.unsent hns).1], (h.unsent hns).2⟩

/-- In every run of an open tunnel whose steps all keep the buffers safe, a call of Write
that has returned has no segment in either map and no queued packet. -/
theorem buffersReleased_of_keepsBuffers {seq capacity size : Nat} {s : WriteState}
    {tr : List (WriteState × WriteOp)}
    (h : Run writeStep (WriteState.opened seq capacity size) tr s) (hk : Meets KeepsBuffers tr) :
    Always WriteState.BuffersReleased tr s := by
  have hgood := h.always_of_meets (WriteState.good_opened _ _ _)
    (fun _ _ _ hs hc he => good_writeStep hs hc he) hk
  exact ⟨fun x hx => (hgood.1 x hx).buffersReleased, hgood.2.buffersReleased⟩

/-- A call sends one byte and returns when it is acknowledged. -/
def ackedWrite : List WriteOp :=
  [.write 0 [65], .append 0 true, .spawn 0 true, .check 0, .writerWindow,
    .writerSend 1 10 5 true, .transmit 0, .receiveAck 2, .ackTest 2, .ackSegments 2,
    .ackBuffers 2, .wake 0 .ok]

theorem buffersReleased_ackedWrite :
    ∃ tr s, Run writeStep (WriteState.opened 1 8 4) tr s ∧ s.calls 0 = .returned .ok ∧
      Always WriteState.BuffersReleased tr s := by
  have he : exec writeStep (WriteState.opened 1 8 4) ackedWrite = some _ := rfl
  have hk : Meets KeepsBuffers (trace writeStep (WriteState.opened 1 8 4) ackedWrite).reverse := by
    refine meets_trace rfl trivial <| meets_trace rfl trivial <| meets_trace rfl trivial <|
      meets_trace rfl trivial <| meets_trace rfl trivial <| meets_trace rfl ?_ <|
      meets_trace rfl trivial <| meets_trace rfl trivial <| meets_trace rfl trivial <|
      meets_trace rfl trivial <| meets_trace rfl ?_ <| meets_trace rfl ?_ <| meets_nil _
    · exact fun _ p seg hp => nomatch hp
    · exact fun x _ q p seg hp => nomatch hp
    · rintro - i b hi hb
      obtain rfl : 1 = i := WritePc.waiting.inj hi
      exact nomatch hb
  exact ⟨_, _, run_trace he, rfl, buffersReleased_of_keepsBuffers (run_trace he) hk⟩

/-- A call has queued its buffer when another thread closes the tunnel. The writer sends
after Clear and before the FIN is inserted, and the call finds its buffer aborted. -/
def closeDuringWrite : List WriteOp :=
  [.write 0 [65], .append 0 true, .spawn 0 true, .check 0, .writerWindow, .close,
    .clearBuffers, .clearSegments, .writerSend 1 10 5 true, .finish true, .insertFin 1 11 5,
    .wake 0 .ok]

/-- The call has returned, and the retry thread still holds a segment of its buffer. -/
theorem not_buffersReleased_closeDuringWrite :
    ∃ tr s, Run writeStep (WriteState.opened 1 8 4) tr s ∧
      tr.map Prod.snd = closeDuringWrite.reverse ∧ s.calls 0 = .returned .closed ∧
      ¬s.BuffersReleased := by
  have he : exec writeStep (WriteState.opened 1 8 4) closeDuringWrite = some _ := rfl
  obtain ⟨tr, hr, hm⟩ := run_of_exec he
  refine ⟨tr, _, hr, hm, rfl, fun h => ?_⟩
  exact (h 0 rfl).2.1 15 0 _ ⟨⟨0, [65]⟩, 0⟩ rfl rfl rfl rfl

end PersonalCloud.Ts2.Transport
