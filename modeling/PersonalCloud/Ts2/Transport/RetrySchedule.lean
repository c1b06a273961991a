import PersonalCloud.Ts2.Transport.SendWindow
import PersonalCloud.Lib.Run

/-!
# The retransmission schedule

Every unacknowledged segment should wait in `retrySegments` under its next transmission
time, and nothing else should. All operations compute that key again from the segment, so
the two maps stay in step until an entry is written over one that belongs to another
segment, or `reschedule` erases the key it has just written. `scheduled_iff` says that
these clashes of keys are the only way to lose an entry.
-/

namespace PersonalCloud.Ts2.Transport

open PersonalCloud.Lib

namespace SendWindow

/-- The entries of the two maps correspond one to one. -/
structure Scheduled (w : SendWindow) : Prop where
  pending : ∀ q p, w.sendSegments.find? q = some p →
    ∃ seg, w.heap p = some seg ∧ seg.seqNum = q ∧ w.retrySegments.find? seg.retryKey = some p
  nothingElse : ∀ k p, w.retrySegments.find? k = some p →
    ∃ seg, w.heap p = some seg ∧ seg.retryKey = k ∧ w.sendSegments.find? seg.seqNum = some p

/-! ## Segments that leave -/

theorem Scheduled.dropEntry {w : SendWindow} (h : w.Scheduled) {x : Nat × SegPtr}
    (hx : w.sendSegments.find? x.1 = some x.2) : (w.dropEntry x).Scheduled := by
  obtain ⟨seg, hseg, hq, hr⟩ := h.pending _ _ hx
  rw [dropEntry_of_live hseg]
  constructor
  · intro q p hp
    obtain ⟨hne, hp⟩ : q ≠ x.1 ∧ w.sendSegments.find? q = some p := by
      simpa [OrdMap.find?_erase] using hp
    obtain ⟨seg', hseg', rfl, hr'⟩ := h.pending _ _ hp
    have hpne : p ≠ x.2 := by
      rintro rfl
      exact hne (by rw [← hq, Option.some.inj (hseg.symm.trans hseg')])
    refine ⟨seg', by simp [Function.update_of_ne hpne, hseg'], rfl, ?_⟩
    have hkne : seg'.retryKey ≠ seg.retryKey := fun hk =>
      hpne (Option.some.inj (hr'.symm.trans (hk ▸ hr)))
    simpa [OrdMap.find?_erase_of_ne _ hkne] using hr'
  · intro k p hp
    obtain ⟨hne, hp⟩ : k ≠ seg.retryKey ∧ w.retrySegments.find? k = some p := by
      simpa [OrdMap.find?_erase] using hp
    obtain ⟨seg', hseg', rfl, hs⟩ := h.nothingElse _ _ hp
    have hpne : p ≠ x.2 := by
      rintro rfl
      exact hne (by rw [Option.some.inj (hseg.symm.trans hseg')])
    refine ⟨seg', by simp [Function.update_of_ne hpne, hseg'], rfl, ?_⟩
    have hqne : seg'.seqNum ≠ x.1 := fun hk => hpne (Option.some.inj (hs.symm.trans (hk ▸ hx)))
    simpa [OrdMap.find?_erase_of_ne _ hqne] using hs

theorem Scheduled.dropEntries {w : SendWindow} (h : w.Scheduled) {xs : List (Nat × SegPtr)}
    (hxs : xs.Sublist w.sendSegments.entries) : (w.dropEntries xs).Scheduled :=
  dropEntries_induction (fun _ _ h hx => h.dropEntry hx) hxs h

/-! ## Segments that come and move -/

/-- Where the schedule is kept, a new segment took two free keys, or both keys of the segment
it replaced. -/
theorem keysFree_of_scheduled_insertSegments {w : SendWindow} {seg : SendSegment}
    (h : w.Scheduled) (hf : w.HeapFresh) (h' : (w.insertSegments seg).Scheduled) :
    w.retrySegments.find? seg.retryKey = w.sendSegments.find? seg.seqNum := by
  have hheap := fun {p seg'} (hp : w.heap p = some seg') => hf.heap_insertSegments hp seg
  cases hk : w.retrySegments.find? seg.retryKey with
  | some p =>
    obtain ⟨seg₁, hseg₁, hkey, hs⟩ := h.nothingElse _ _ hk
    by_cases hq : seg₁.seqNum = seg.seqNum
    · rw [← hq, hs]
    · -- the entry of that segment in `retrySegments` is overwritten
      obtain ⟨seg₂, hseg₂, -, hr⟩ := h'.pending seg₁.seqNum p
        (by simpa [insertSegments, OrdMap.find?_insert, hq] using hs)
      obtain rfl : seg₁ = seg₂ := Option.some.inj ((hheap hseg₁).2.symm.trans hseg₂)
      have : w.nextPtr = p := by simpa [insertSegments, hkey] using hr
      exact absurd this.symm (hheap hseg₁).1
  | none =>
    cases hs : w.sendSegments.find? seg.seqNum with
    | none => rfl
    | some p =>
      -- a segment with that number leaves `sendSegments` and stays in `retrySegments`
      obtain ⟨seg₁, hseg₁, hq, hr⟩ := h.pending _ _ hs
      have hkne : seg₁.retryKey ≠ seg.retryKey := by
        rintro he
        simp [← he, hr] at hk
      obtain ⟨seg₂, hseg₂, -, hs'⟩ := h'.nothingElse seg₁.retryKey p
        (by simpa [insertSegments, OrdMap.find?_insert, hkne] using hr)
      obtain rfl : seg₁ = seg₂ := Option.some.inj ((hheap hseg₁).2.symm.trans hseg₂)
      have : w.nextPtr = p := by simpa [insertSegments, hq] using hs'
      exact absurd this.symm (hheap hseg₁).1

theorem Scheduled.insertSegments {w : SendWindow} {seg : SendSegment} (h : w.Scheduled)
    (hf : w.HeapFresh)
    (hk : w.retrySegments.find? seg.retryKey = w.sendSegments.find? seg.seqNum) :
    (w.insertSegments seg).Scheduled := by
  have hheap := fun {p seg'} (hp : w.heap p = some seg') => hf.heap_insertSegments hp seg
  constructor
  · intro q p hp
    by_cases hq : q = seg.seqNum
    · obtain rfl : w.nextPtr = p := by simpa [SendWindow.insertSegments, hq] using hp
      exact ⟨seg, by simp [SendWindow.insertSegments], hq.symm, by simp [SendWindow.insertSegments]⟩
    · have hp : w.sendSegments.find? q = some p := by
        simpa [SendWindow.insertSegments, OrdMap.find?_insert, hq] using hp
      obtain ⟨seg₁, hseg₁, rfl, hr⟩ := h.pending _ _ hp
      refine ⟨seg₁, (hheap hseg₁).2, rfl, ?_⟩
      have hkne : seg₁.retryKey ≠ seg.retryKey := by
        intro he
        rw [he, hk] at hr
        obtain ⟨seg₂, hseg₂, hq', -⟩ := h.pending _ _ hr
        rw [Option.some.inj (hseg₁.symm.trans hseg₂)] at hq
        exact hq hq'
      simpa [SendWindow.insertSegments, OrdMap.find?_insert, hkne] using hr
  · intro k p hp
    by_cases hkk : k = seg.retryKey
    · obtain rfl : w.nextPtr = p := by simpa [SendWindow.insertSegments, hkk] using hp
      exact ⟨seg, by simp [SendWindow.insertSegments], hkk.symm, by simp [SendWindow.insertSegments]⟩
    · have hp : w.retrySegments.find? k = some p := by
        simpa [SendWindow.insertSegments, OrdMap.find?_insert, hkk] using hp
      obtain ⟨seg₁, hseg₁, rfl, hs⟩ := h.nothingElse _ _ hp
      refine ⟨seg₁, (hheap hseg₁).2, rfl, ?_⟩
      have hqne : seg₁.seqNum ≠ seg.seqNum := by
        intro he
        rw [he, ← hk] at hs
        obtain ⟨seg₂, hseg₂, hk', -⟩ := h.nothingElse _ _ hs
        rw [Option.some.inj (hseg₁.symm.trans hseg₂)] at hkk
        exact hkk hk'
      simpa [SendWindow.insertSegments, OrdMap.find?_insert, hqne] using hs

/-- A new segment keeps the schedule if its two keys are both free, or both held by the
segment it replaces. -/
theorem scheduled_insertSegments_iff {w : SendWindow} {seg : SendSegment} (h : w.Scheduled)
    (hf : w.HeapFresh) : (w.insertSegments seg).Scheduled ↔
      w.retrySegments.find? seg.retryKey = w.sendSegments.find? seg.seqNum :=
  ⟨keysFree_of_scheduled_insertSegments h hf, h.insertSegments hf⟩

@[simp] theorem seqNum_backOff (seg : SendSegment) (now maxRound interval : Nat) :
    (seg.backOff now maxRound interval).seqNum = seg.seqNum := rfl

section Reschedule

variable {w : SendWindow} {p : SegPtr} {seg : SendSegment} {now maxRound interval : Nat}

theorem reschedule_eq (hp : w.heap p = some seg) :
    w.reschedule p now maxRound interval =
      { w with
        heap := Function.update w.heap p (some (seg.backOff now maxRound interval))
        retrySegments := (w.retrySegments.insert
          (seg.backOff now maxRound interval).retryKey p).erase seg.retryKey } := by
  simp [reschedule, hp]

/-- The entry did not move to a key that was taken, its own old key included. -/
theorem keyFree_of_scheduled_reschedule (h : w.Scheduled)
    (hk : w.retrySegments.find? seg.retryKey = some p) (hp : w.heap p = some seg)
    (h' : (w.reschedule p now maxRound interval).Scheduled) :
    w.retrySegments.find? (seg.backOff now maxRound interval).retryKey = none := by
  obtain ⟨seg₀, hseg₀, -, hs⟩ := h.nothingElse _ _ hk
  obtain rfl : seg = seg₀ := Option.some.inj (hp.symm.trans hseg₀)
  rw [reschedule_eq hp] at h'
  generalize hb : seg.backOff now maxRound interval = seg' at h' ⊢
  by_contra hne
  obtain ⟨p₂, hp₂⟩ := Option.ne_none_iff_exists'.1 hne
  by_cases hkk : seg'.retryKey = seg.retryKey
  · -- the new key is the old one, which is erased
    obtain ⟨seg₂, hseg₂, -, hr⟩ := h'.pending _ _ hs
    obtain rfl : seg' = seg₂ := by simpa using hseg₂
    simp [hkk] at hr
  · -- the entry of another segment is overwritten
    obtain ⟨seg₂, hseg₂, hk₂, hs₂⟩ := h.nothingElse _ _ hp₂
    have hpne : p₂ ≠ p := by
      rintro rfl
      obtain rfl := Option.some.inj (hp.symm.trans hseg₂)
      exact hkk hk₂.symm
    obtain ⟨seg₃, hseg₃, -, hr⟩ := h'.pending _ _ hs₂
    obtain rfl : seg₂ = seg₃ := by
      simpa [Function.update_of_ne hpne, hseg₂] using hseg₃
    have : p = p₂ := by simpa [hk₂, OrdMap.find?_erase, hkk] using hr
    exact hpne this.symm

theorem Scheduled.reschedule (h : w.Scheduled)
    (hk : w.retrySegments.find? seg.retryKey = some p) (hp : w.heap p = some seg)
    (hfree : w.retrySegments.find? (seg.backOff now maxRound interval).retryKey = none) :
    (w.reschedule p now maxRound interval).Scheduled := by
  obtain ⟨seg₀, hseg₀, -, hs⟩ := h.nothingElse _ _ hk
  obtain rfl : seg = seg₀ := Option.some.inj (hp.symm.trans hseg₀)
  rw [reschedule_eq hp]
  generalize hb : seg.backOff now maxRound interval = seg' at hfree ⊢
  have hq : seg'.seqNum = seg.seqNum := by simp [← hb]
  have hkk : seg'.retryKey ≠ seg.retryKey := by
    intro he
    simp [he, hk] at hfree
  constructor
  · intro q p₁ hp₁
    obtain ⟨seg₁, hseg₁, rfl, hr⟩ := h.pending _ _ hp₁
    by_cases hpp : p₁ = p
    · subst hpp
      obtain rfl := Option.some.inj (hp.symm.trans hseg₁)
      exact ⟨seg', by simp, hq, by simp [OrdMap.find?_erase, hkk]⟩
    · refine ⟨seg₁, by simp [Function.update_of_ne hpp, hseg₁], rfl, ?_⟩
      have h₁ : seg₁.retryKey ≠ seg.retryKey := by
        intro he
        exact hpp (Option.some.inj (hr.symm.trans (he ▸ hk)))
      have h₂ : seg₁.retryKey ≠ seg'.retryKey := by
        intro he
        simp [← he, hr] at hfree
      simpa [OrdMap.find?_erase, OrdMap.find?_insert, h₁, h₂] using hr
  · intro k₁ p₁ hp₁
    by_cases hk₁ : k₁ = seg'.retryKey
    · subst hk₁
      obtain rfl : p = p₁ := by simpa [OrdMap.find?_erase, hkk] using hp₁
      exact ⟨seg', by simp, rfl, by simpa [hq] using hs⟩
    · obtain ⟨hne, hp₁⟩ : k₁ ≠ seg.retryKey ∧ w.retrySegments.find? k₁ = some p₁ := by
        simpa [OrdMap.find?_erase, OrdMap.find?_insert, hk₁] using hp₁
      obtain ⟨seg₁, hseg₁, rfl, hs₁⟩ := h.nothingElse _ _ hp₁
      have hpp : p₁ ≠ p := by
        rintro rfl
        obtain rfl := Option.some.inj (hp.symm.trans hseg₁)
        exact hne rfl
      exact ⟨seg₁, by simp [Function.update_of_ne hpp, hseg₁], rfl, hs₁⟩

/-- An entry may move to a free key only; its own old key is not free. -/
theorem scheduled_reschedule_iff {k : Nat} (h : w.Scheduled)
    (hk : w.retrySegments.find? k = some p) (hp : w.heap p = some seg) :
    (w.reschedule p now maxRound interval).Scheduled ↔
      w.retrySegments.find? (seg.backOff now maxRound interval).retryKey = none := by
  obtain ⟨seg₀, hseg₀, rfl, -⟩ := h.nothingElse _ _ hk
  obtain rfl : seg = seg₀ := Option.some.inj (hp.symm.trans hseg₀)
  exact ⟨keyFree_of_scheduled_reschedule h hk hp, h.reschedule hk hp⟩

end Reschedule

end SendWindow

/-! ## Runs -/

/-- The operations on the two maps. Each runs under `segs_mutex`, the round of `retryThread`
over the entries that are due as one event for each of them. -/
inductive ScheduleOp where
  | insertSegments (seg : SendSegment)
  | handleAck (latestAck : Nat)
  | retry (key now maxRound interval : Nat)
  | cancelCtrlPktFromSegments
  | cancelFromBuffers (index : Nat)
  | clear

def scheduleStep (w : SendWindow) : ScheduleOp → Option SendWindow
  | .insertSegments seg => some (w.insertSegments seg)
  | .handleAck latestAck => some (w.ackSegments latestAck)
  | .retry key now maxRound interval =>
    (w.retrySegments.find? key).map fun ptr => w.reschedule ptr now maxRound interval
  | .cancelCtrlPktFromSegments => some w.cancelCtrlPktFromSegments
  | .cancelFromBuffers index => some (w.cancelFromBuffers index)
  | .clear => some w.abortBuffers.clearSegments

/-- The keys the operation writes to are free, or held by the segment that is replaced in
both maps. -/
def KeysFree (w : SendWindow) : ScheduleOp → Prop
  | .insertSegments seg =>
    w.retrySegments.find? seg.retryKey = w.sendSegments.find? seg.seqNum
  | .retry key now maxRound interval =>
    ∀ p seg, w.retrySegments.find? key = some p → w.heap p = some seg →
      w.retrySegments.find? (seg.backOff now maxRound interval).retryKey = none
  | _ => True

theorem heapFresh_scheduleStep {w w' : SendWindow} {op : ScheduleOp} (h : w.HeapFresh)
    (he : scheduleStep w op = some w') : w'.HeapFresh := by
  cases op with
  | insertSegments seg =>
    obtain rfl := Option.some.inj he
    exact h.insertSegments seg
  | handleAck latestAck =>
    obtain rfl := Option.some.inj he
    exact h.dropEntries (w.ackedSegments_sublist latestAck)
  | retry key now maxRound interval =>
    obtain ⟨p, -, rfl⟩ := Option.map_eq_some_iff.1 he
    exact h.reschedule p now maxRound interval
  | cancelCtrlPktFromSegments =>
    obtain rfl := Option.some.inj he
    exact h.dropEntries (w.entriesWith_sublist _)
  | cancelFromBuffers index =>
    obtain rfl := Option.some.inj he
    exact h.dropEntries (w.entriesWith_sublist _)
  | clear =>
    obtain rfl := Option.some.inj he
    exact SendWindow.HeapFresh.dropEntries (w := w.abortBuffers) h (.refl _)

theorem scheduled_scheduleStep_iff {w w' : SendWindow} {op : ScheduleOp} (hf : w.HeapFresh)
    (h : w.Scheduled) (he : scheduleStep w op = some w') : w'.Scheduled ↔ KeysFree w op := by
  cases op with
  | insertSegments seg =>
    obtain rfl := Option.some.inj he
    exact SendWindow.scheduled_insertSegments_iff h hf
  | handleAck latestAck =>
    obtain rfl := Option.some.inj he
    have h' := h.dropEntries (w.ackedSegments_sublist latestAck)
    exact iff_of_true ⟨h'.pending, h'.nothingElse⟩ trivial
  | retry key now maxRound interval =>
    obtain ⟨p, hp, rfl⟩ := Option.map_eq_some_iff.1 he
    obtain ⟨seg, hseg, -, -⟩ := h.nothingElse _ _ hp
    rw [SendWindow.scheduled_reschedule_iff h hp hseg]
    constructor
    · rintro hk p' seg' hp' hseg'
      obtain rfl := Option.some.inj (hp.symm.trans hp')
      obtain rfl := Option.some.inj (hseg.symm.trans hseg')
      exact hk
    · intro hk
      exact hk p seg hp hseg
  | cancelCtrlPktFromSegments =>
    obtain rfl := Option.some.inj he
    exact iff_of_true (h.dropEntries (w.entriesWith_sublist _)) trivial
  | cancelFromBuffers index =>
    obtain rfl := Option.some.inj he
    have h' : (w.cancelSegments index).Scheduled := h.dropEntries (w.entriesWith_sublist _)
    exact iff_of_true ⟨h'.pending, h'.nothingElse⟩ trivial
  | clear =>
    obtain rfl := Option.some.inj he
    have h' : w.abortBuffers.Scheduled := ⟨h.pending, h.nothingElse⟩
    exact iff_of_true (h'.dropEntries (.refl _)) trivial

theorem scheduled_opened (seq capacity size : Nat) :
    (SendWindow.opened seq capacity size).Scheduled := by
  constructor <;> simp [SendWindow.opened]

/-- In a run of operations on a fresh window the two maps stay in one-to-one correspondence
exactly when every operation finds the keys it writes to free. -/
theorem scheduled_iff {seq capacity size : Nat} {w : SendWindow}
    {tr : List (SendWindow × ScheduleOp)}
    (h : Run scheduleStep (SendWindow.opened seq capacity size) tr w) :
    Always SendWindow.Scheduled tr w ↔ Meets KeysFree tr :=
  h.always_iff_meets (SendWindow.heapFresh_opened _ _ _) (fun _ _ _ hI he => heapFresh_scheduleStep hI he)
    (scheduled_opened _ _ _) fun _ _ _ hI hs he => scheduled_scheduleStep_iff hI hs he

/-- The byte numbered `seqNum`, of a buffer numbered from 1, sent at time `now`. -/
def dataSegment (seqNum now interval : Nat) : SendSegment where
  pktType := .data
  seqNum := seqNum
  ackNum := 0
  data := some ⟨⟨0, [65, 66]⟩, seqNum - 1⟩
  dataSize := 1
  sendTimestamp := now
  retryRound := 1
  retryInterval := interval
  headSeqIndex := 1

/-- Two segments are sent, the first one is sent again and acknowledged. -/
theorem scheduled_iff_retry :
    ∃ tr w, Run scheduleStep (SendWindow.opened 1 8 4) tr w ∧ tr.length = 4 ∧
      (Always SendWindow.Scheduled tr w ↔ Meets KeysFree tr) := by
  have he : exec scheduleStep (SendWindow.opened 1 8 4)
      [.insertSegments (dataSegment 1 10 5), .insertSegments (dataSegment 2 11 5),
        .retry 15 15 8 5, .handleAck 2] = some _ := rfl
  obtain ⟨tr, hr, hm⟩ := run_of_exec he
  exact ⟨tr, _, hr, by simpa using congrArg List.length hm, scheduled_iff hr⟩

/-- Two segments are sent at the same clock reading. -/
def sameInstant : List ScheduleOp :=
  [.insertSegments (dataSegment 1 10 5), .insertSegments (dataSegment 2 10 5)]

/-- The first segment waits for its acknowledgement with no retransmission to come. -/
theorem not_scheduled_sameInstant :
    ∃ tr w, Run scheduleStep (SendWindow.opened 1 8 4) tr w ∧
      tr.map Prod.snd = sameInstant.reverse ∧ ¬w.Scheduled ∧
      w.sendSegments.find? 1 = some 0 ∧ ∀ k, w.retrySegments.find? k ≠ some 0 := by
  have he : exec scheduleStep (SendWindow.opened 1 8 4) sameInstant = some _ := rfl
  obtain ⟨tr, hr, hm⟩ := run_of_exec he
  have hlost : ∀ k, OrdMap.find? ⟨[(15, 1)], by simp⟩ k ≠ some 0 := by
    intro k hk
    simpa using OrdMap.find?_eq_some.1 hk
  refine ⟨tr, _, hr, by simpa using hm, ?_, by decide, hlost⟩
  intro h
  obtain ⟨seg, -, -, hk⟩ := h.pending 1 0 (by decide)
  exact hlost _ hk

end PersonalCloud.Ts2.Transport
