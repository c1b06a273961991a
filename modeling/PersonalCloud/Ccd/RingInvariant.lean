import PersonalCloud.Ccd.EventDelivery

/-!
# The stated invariant of the event ring

The ring should hold exactly the events that its slowest queue has not read. Whoever moves or
removes the oldest cursor restores that by a cleanup. An event that drops the last queue is
enqueued all the same, and then stays in a ring without readers.

## Main results

* `EventManager.ringExact_addEvent` — adding an event keeps the invariant exactly when a queue is
  left that can read the event.
* `EventManager.ringExact_iff` — what that means for runs.
-/

namespace PersonalCloud.Ccd

open PersonalCloud.Lib

variable {Event : Type*} {r : EventRing Event} {q : EventQueue Event} {event : Event}
  {count : Nat}

/-! ## The slots -/

namespace EventRing

/-- The slots from `popIndex` up to `pushIndex` hold events, the others are null, and nothing
went wrong so far. -/
structure Tidy (r : EventRing Event) : Prop where
  slots : ∀ i < EVENT_MANAGER_PB_MAX_EVENTS,
    (r.buffer i).isSome ↔ Ring.dist EVENT_MANAGER_PB_MAX_EVENTS r.popIndex i < r.numQueued
  faults : r.faults = []

theorem tidy_new : (new : EventRing Event).Tidy where
  slots i _ := by simp [new, numQueued]
  faults := rfl

theorem Tidy.dequeue (h : r.Tidy) (hr : r.Bounded) (hpos : 0 < r.numQueued) : r.dequeue.Tidy where
  slots i hi := by
    rw [numQueued_dequeue hr hpos]
    change (Function.update r.buffer r.popIndex none i).isSome = true ↔
      Ring.dist _ ((r.popIndex + 1) % EVENT_MANAGER_PB_MAX_EVENTS) i < r.numQueued - 1
    by_cases hpop : i = r.popIndex
    · subst hpop
      have hbehind : Ring.dist EVENT_MANAGER_PB_MAX_EVENTS
          ((r.popIndex + 1) % EVENT_MANAGER_PB_MAX_EVENTS) r.popIndex =
            EVENT_MANAGER_PB_MAX_EVENTS - 1 :=
        (Ring.dist_eq_pred (Ring.wrap_lt _ _ max_events_pos) hr.pop).2 rfl
      have hlt := r.numQueued_lt
      simp [hbehind]
      omega
    · have hdist : 0 < Ring.dist EVENT_MANAGER_PB_MAX_EVENTS r.popIndex i :=
        Nat.pos_of_ne_zero fun h0 => hpop ((Ring.dist_eq_zero hr.pop hi).1 h0).symm
      rw [Function.update_of_ne hpop, h.slots i hi, Ring.next_dist hr.pop hi hdist]
      omega
  faults := by
    have hne : r.pushIndex ≠ r.popIndex := by
      intro heq
      rw [numQueued, heq] at hpos
      exact absurd (Ring.dist_self hr.pop) (Nat.pos_iff_ne_zero.1 hpos)
    simp [EventRing.dequeue, hne, h.faults]

theorem numQueued_enqueue (hr : r.Bounded) (hfits : r.numQueued + 1 < EVENT_MANAGER_PB_MAX_EVENTS)
    (event : Event) : (r.enqueue event).numQueued = r.numQueued + 1 :=
  Ring.dist_next hr.pop hr.push hfits

theorem Tidy.enqueue (h : r.Tidy) (hr : r.Bounded)
    (hfits : r.numQueued + 1 < EVENT_MANAGER_PB_MAX_EVENTS) (event : Event) :
    (r.enqueue event).Tidy where
  slots i hi := by
    rw [numQueued_enqueue hr hfits]
    change (Function.update r.buffer r.pushIndex (some event) i).isSome = true ↔
      Ring.dist _ r.popIndex i < r.numQueued + 1
    by_cases hpush : i = r.pushIndex
    · subst hpush
      simp [numQueued, Ring.dist]
    · have hdist : Ring.dist EVENT_MANAGER_PB_MAX_EVENTS r.popIndex i ≠ r.numQueued := by
        intro heq
        refine hpush ?_
        rw [← Ring.wrap_dist hr.pop hi, heq]
        exact Ring.wrap_dist hr.pop hr.push
      rw [Function.update_of_ne hpush, h.slots i hi]
      omega
  faults := by
    have hfull : NEXT_RING_IDX r.pushIndex ≠ r.popIndex := by
      intro heq
      have := (Ring.dist_eq_pred hr.pop hr.push).2 heq.symm
      have : r.numQueued = EVENT_MANAGER_PB_MAX_EVENTS - 1 := this
      omega
    have hfree : r.buffer r.pushIndex = none := by
      rw [← Option.not_isSome_iff_eq_none, h.slots _ hr.push]
      exact Nat.lt_irrefl _
    simp [EventRing.enqueue, hfull, hfree, h.faults]

theorem Tidy.trimTo (h : r.Tidy) (hr : r.Bounded) (count : Nat) : (r.trimTo count).Tidy := by
  suffices (r.trimTo count).Bounded ∧ (r.trimTo count).Tidy from this.2
  refine trimTo_induction (P := fun s => s.Bounded ∧ s.Tidy) ⟨hr, h⟩ ?_
  rintro s ⟨hs, ht⟩ hgt
  exact ⟨hs.dequeue, ht.dequeue hs (by omega)⟩

end EventRing

/-! ## The slowest queue -/

theorem EventQueue.isOldest_iff (hr : r.Bounded) (hq : q.currPos < EVENT_MANAGER_PB_MAX_EVENTS) :
    q.isOldest r ↔ q.numQueued r = r.numQueued := by
  rw [EventQueue.isOldest, beq_iff_eq]
  exact (Ring.dist_left_inj hq hr.pop hr.push).symm

theorem largestQueue_attained (r : EventRing Event) (queues : List (EventQueue Event)) :
    EventManager.largestQueue r queues = 0 ∨
      ∃ q ∈ queues, q.numQueued r = EventManager.largestQueue r queues := by
  suffices ∀ n, queues.foldl (fun largest q =>
      if q.numQueued r > largest then q.numQueued r else largest) n = n ∨
      ∃ q ∈ queues, q.numQueued r = queues.foldl (fun largest q =>
        if q.numQueued r > largest then q.numQueued r else largest) n from this 0
  induction queues with
  | nil => simp
  | cons p queues ih =>
    intro n
    rw [List.foldl_cons]
    rcases ih (if p.numQueued r > n then p.numQueued r else n) with h | ⟨q, hq, h⟩
    · rw [h]
      split_ifs
      · exact .inr ⟨p, List.mem_cons_self, rfl⟩
      · exact .inl rfl
    · exact .inr ⟨q, List.mem_cons_of_mem p hq, h⟩

namespace EventManager

variable {s t : EventManager Event}

/-- The ring holds as many events as the queue with the most unread ones, and none without a
queue. -/
structure Slowest (s : EventManager Event) : Prop where
  bound : ∀ q ∈ s.queues, q.numQueued s.eventRing ≤ s.eventRing.numQueued
  attained : s.eventRing.numQueued = 0 ∨
    ∃ q ∈ s.queues, q.numQueued s.eventRing = s.eventRing.numQueued

structure RingExact (s : EventManager Event) : Prop where
  tidy : s.eventRing.Tidy
  slowest : s.Slowest

theorem ringExact_start (nextHandle : UInt64) :
    (start nextHandle : EventManager Event).RingExact where
  tidy := EventRing.tidy_new
  slowest := ⟨by simp [start], .inl (by simp [start, EventRing.new, EventRing.numQueued])⟩

/-- Cleaning up restores the invariant as long as no queue is behind the ring. -/
theorem ringExact_privCleanup (hs : s.Valid) (ht : s.eventRing.Tidy)
    (hbound : ∀ q ∈ s.queues, q.numQueued s.eventRing ≤ s.eventRing.numQueued) :
    s.privCleanup.RingExact := by
  have hnum (q : EventQueue Event) :
      q.numQueued s.privCleanup.eventRing = q.numQueued s.eventRing := by
    unfold EventQueue.numQueued privCleanup
    rw [EventRing.pushIndex_trimTo]
  have hring : s.privCleanup.eventRing.numQueued = largestQueue s.eventRing s.queues := by
    unfold privCleanup
    rw [EventRing.numQueued_trimTo hs.bounded]
    refine Nat.min_eq_left ?_
    rcases largestQueue_attained s.eventRing s.queues with h | ⟨q, hq, h⟩
    · exact h ▸ Nat.zero_le _
    · exact h ▸ hbound q hq
  have htidy : s.privCleanup.eventRing.Tidy := ht.trimTo hs.bounded _
  refine ⟨htidy, fun q hq => ?_, ?_⟩
  · rw [hnum, hring]
    exact numQueued_le_largestQueue hq
  · rw [hring]
    simp only [hnum]
    exact largestQueue_attained s.eventRing s.queues

theorem RingExact.wakeBlockedThreads (h : s.RingExact) : s.wakeBlockedThreads.RingExact :=
  ⟨h.tidy, h.slowest.bound, h.slowest.attained⟩

/-- Fewer queues keep the invariant if a cleanup follows, or if a slowest queue is among them. -/
theorem RingExact.with_queues (h : s.RingExact) {queues : List (EventQueue Event)}
    {doCleanup : Bool} (hvalid : Valid { s with queues := queues })
    (hbound : ∀ q ∈ queues, q.numQueued s.eventRing ≤ s.eventRing.numQueued)
    (hkeep : doCleanup = false → s.eventRing.numQueued = 0 ∨
      ∃ q ∈ queues, q.numQueued s.eventRing = s.eventRing.numQueued) :
    RingExact (if doCleanup then { s with queues := queues }.privCleanup
      else { s with queues := queues }) := by
  cases doCleanup with
  | true => exact ringExact_privCleanup hvalid h.tidy hbound
  | false => exact ⟨h.tidy, hbound, hkeep rfl⟩

theorem RingExact.quit (h : s.RingExact) (hs : s.Valid) : s.quit.RingExact where
  tidy := h.tidy.trimTo hs.bounded 0
  slowest := by
    refine ⟨by simp [EventManager.quit], .inl ?_⟩
    have hclear := EventRing.numQueued_trimTo hs.bounded 0
    rwa [Nat.zero_min] at hclear

theorem RingExact.createQueue (h : s.RingExact) (hs : s.Valid) : s.createQueue.2.RingExact := by
  unfold EventManager.createQueue
  split_ifs
  · exact h
  · refine ⟨h.tidy, fun q hq => ?_, ?_⟩
    · rcases List.mem_append.1 hq with hq | hq
      · exact h.slowest.bound q hq
      · obtain rfl := List.mem_singleton.1 hq
        have hzero : Ring.dist EVENT_MANAGER_PB_MAX_EVENTS s.eventRing.pushIndex
            s.eventRing.pushIndex = 0 := Ring.dist_self hs.bounded.push
        exact Nat.le_trans (Nat.le_of_eq hzero) (Nat.zero_le _)
    · refine h.slowest.attained.imp_right ?_
      rintro ⟨q, hq, hnum⟩
      exact ⟨q, List.mem_append_left _ hq, hnum⟩

/-- A queue that is not the oldest leaves a slowest one behind. -/
theorem RingExact.attained_erase (h : s.RingExact) (hs : s.Valid) {i : Nat}
    (hq : s.queues[i]? = some q) (hold : q.isOldest s.eventRing = false) :
    ∃ p ∈ s.queues.eraseIdx i, p.numQueued s.eventRing = s.eventRing.numQueued := by
  have hmem := List.mem_of_getElem? hq
  have hne : q.numQueued s.eventRing ≠ s.eventRing.numQueued := by
    rw [← (EventQueue.isOldest_iff hs.bounded (hs.follows q hmem).pos).ne, hold]
    simp
  rcases h.slowest.attained with hzero | ⟨p, hp, hnum⟩
  · have := h.slowest.bound q hmem
    omega
  · obtain ⟨j, hj, rfl⟩ := List.getElem_of_mem hp
    refine ⟨_, List.mem_eraseIdx_iff_getElem?.2 ⟨j, ?_, List.getElem?_eq_getElem hj⟩, hnum⟩
    rintro rfl
    rw [List.getElem?_eq_getElem hj, Option.some.injEq] at hq
    exact hne (hq ▸ hnum)

theorem RingExact.destroyQueue (h : s.RingExact) (hs : s.Valid) (handle : UInt64) :
    (s.destroyQueue handle).2.RingExact := by
  have hvalid := hs.destroyQueue handle
  unfold EventManager.destroyQueue at hvalid ⊢
  simp only at hvalid ⊢
  split_ifs with hrun
  · exact h
  split
  · exact h
  next q hq =>
  obtain ⟨hi, -⟩ := List.getElem?_eq_some_iff.1 hq
  have hperm := swapRemove_perm_eraseIdx hi
  have hsub : swapRemove s.queues (s.findQueue handle) ⊆ s.queues := fun q hq =>
    List.mem_of_mem_eraseIdx (hperm.subset hq)
  refine RingExact.wakeBlockedThreads ?_
  refine h.with_queues (hs.with_queues hsub) (fun p hp => h.slowest.bound p (hsub hp)) ?_
  intro hold
  obtain ⟨p, hp, hnum⟩ := h.attained_erase hs hq hold
  exact .inr ⟨p, hperm.symm.subset hp, hnum⟩

theorem numQueued_getLoop_le (hs : s.Valid) (hq : q ∈ s.queues)
    (hpos : 0 < q.numQueued s.eventRing) (maxToGet : Nat) :
    (q.getLoop s.eventRing maxToGet).numQueued s.eventRing ≤ q.numQueued s.eventRing := by
  have hread := getLoop_reads s.eventRing q maxToGet
  obtain ⟨xs, -, hlen, hgiven⟩ := (hs.follows q hq).window
  obtain ⟨ys, -, hlen', hgiven'⟩ :=
    ((hs.follows q hq).getLoop hs.bounded hpos maxToGet).window
  rw [hread.born, ← hgiven] at hgiven'
  have htotal := congrArg List.length hgiven'
  have hgrows := hread.given.length_le
  simp only [List.length_append, List.length_map] at htotal
  omega

theorem RingExact.getEventsAgain (h : s.RingExact) (hs : s.Valid) (call : GetCall)
    (expired : Bool) : (s.getEventsAgain call expired).2.RingExact := by
  unfold EventManager.getEventsAgain
  simp only
  split
  · exact h
  next q hq =>
  generalize (if call.maxToGet = 0 then EVENT_MANAGER_PB_MAX_EVENTS else call.maxToGet) = maxToGet
  have hmem := List.mem_of_getElem? hq
  by_cases hpos : q.numQueued s.eventRing > 0
  · rw [if_pos hpos]
    have hfollows := (hs.follows q hmem).getLoop hs.bounded hpos maxToGet
    refine h.with_queues (hs.set _ hfollows) (fun p hp => ?_) fun hold => ?_
    · rcases List.mem_or_eq_of_mem_set hp with hp | rfl
      · exact h.slowest.bound p hp
      · exact Nat.le_trans (numQueued_getLoop_le hs hmem hpos maxToGet) (h.slowest.bound q hmem)
    · obtain ⟨p, hp, hnum⟩ := h.attained_erase hs hq hold
      refine .inr ⟨p, ?_, hnum⟩
      obtain ⟨j, hj, hget⟩ := List.mem_eraseIdx_iff_getElem?.1 hp
      exact List.mem_of_getElem? ((List.getElem?_set_ne (Ne.symm hj)).trans hget)
  · rw [if_neg hpos]
    split_ifs
    · exact h
    · exact ⟨h.tidy, h.slowest.bound, h.slowest.attained⟩

/-! ### Adding an event -/

theorem RingExact.dropFullQueues (h : s.RingExact) (hs : s.Valid) :
    s.dropFullQueues.RingExact := by
  have hperm := dropFull_zero_perm
    ((s.eventRing.pushIndex + 1) % EVENT_MANAGER_PB_MAX_EVENTS) s.queues
  have hsub := dropFull_zero_subset
    ((s.eventRing.pushIndex + 1) % EVENT_MANAGER_PB_MAX_EVENTS) s.queues
  have hfst := fst_dropFull
    ((s.eventRing.pushIndex + 1) % EVENT_MANAGER_PB_MAX_EVENTS) 0 s.queues
  unfold EventManager.dropFullQueues
  refine h.with_queues (hs.with_queues hsub) (fun q hq => h.slowest.bound q (hsub hq)) ?_
  intro hnone
  -- nothing was dropped
  rw [hfst, List.drop_zero, List.any_eq_false] at hnone
  refine h.slowest.attained.imp_right ?_
  rintro ⟨q, hq, hnum⟩
  refine ⟨q, hperm.symm.subset (List.mem_filter.2 ⟨hq, ?_⟩), hnum⟩
  simpa using hnone q hq

/-- Some queue is left to read an added event. -/
def KeepsReader (s : EventManager Event) : ManagerEvent Event → Prop
  | .addEvent _ => s.queues ≠ [] → ∃ q ∈ s.queues, (q.unread s.eventRing).length ≠ 1023
  | _ => True

/-- The enqueued event is in the ring, so somebody must be there to read it. -/
theorem ringExact_enqueue (h : s.RingExact) (hs : s.Valid)
    (hfull : ∀ q ∈ s.queues, q.numQueued s.eventRing ≠ EVENT_MANAGER_PB_MAX_EVENTS - 1)
    (event : Event) (history : List Event) :
    RingExact { s with eventRing := s.eventRing.enqueue event, history := history } ↔
      s.queues ≠ [] := by
  have hfits : s.eventRing.numQueued + 1 < EVENT_MANAGER_PB_MAX_EVENTS := by
    have hlt := s.eventRing.numQueued_lt
    rcases h.slowest.attained with hzero | ⟨q, hq, hnum⟩
    · rw [hzero]
      decide
    · have := hfull q hq
      omega
  have hring := EventRing.numQueued_enqueue hs.bounded hfits event
  have hnum (q : EventQueue Event) (hq : q ∈ s.queues) :
      q.numQueued (s.eventRing.enqueue event) = q.numQueued s.eventRing + 1 := by
    have := h.slowest.bound q hq
    exact Ring.dist_next (hs.follows q hq).pos hs.bounded.push
      (Nat.lt_of_le_of_lt (Nat.succ_le_succ this) hfits)
  constructor
  · rintro hexact hnil
    rcases hexact.slowest.attained with hzero | ⟨q, hq, -⟩
    · exact absurd (hring ▸ hzero) (Nat.succ_ne_zero _)
    · exact absurd hq (by simp [hnil])
  · intro hne
    refine ⟨h.tidy.enqueue hs.bounded hfits event, fun q hq => ?_, .inr ?_⟩
    · rw [hnum q hq, hring]
      exact Nat.succ_le_succ (h.slowest.bound q hq)
    · rcases h.slowest.attained with hzero | ⟨q, hq, hq'⟩
      · obtain ⟨q, hq⟩ := List.exists_mem_of_ne_nil _ hne
        refine ⟨q, hq, ?_⟩
        have := h.slowest.bound q hq
        rw [hnum q hq, hring]
        omega
      · exact ⟨q, hq, by rw [hnum q hq, hring, hq']⟩

theorem ringExact_addEvent (h : s.RingExact) (hs : s.Valid) (event : Event) :
    (s.addEvent event).RingExact ↔ s.KeepsReader (.addEvent event) := by
  unfold KeepsReader
  by_cases hnil : s.queues = []
  · have hadd : s.addEvent event = { s with history := s.history ++ [event] } := by
      unfold addEvent
      simp [hnil]
    rw [hadd]
    exact iff_of_true ⟨h.tidy, h.slowest.bound, h.slowest.attained⟩ fun hne => absurd hnil hne
  have hrun : s.isRunning = true := by
    by_contra hstop
    exact hnil (hs.stopped (by simpa using hstop))
  have hadd : s.addEvent event = wakeBlockedThreads { s.dropFullQueues with
      eventRing := s.dropFullQueues.eventRing.enqueue event
      history := s.history ++ [event] } := by
    unfold addEvent
    simp [hrun, hnil]
  have hwake (t : EventManager Event) : t.wakeBlockedThreads.RingExact ↔ t.RingExact :=
    ⟨fun h => ⟨h.tidy, h.slowest.bound, h.slowest.attained⟩, RingExact.wakeBlockedThreads⟩
  have hreader : s.dropFullQueues.queues ≠ [] ↔
      ∃ q ∈ s.queues, (q.unread s.eventRing).length ≠ 1023 := by
    have hmem (q : EventQueue Event) : q ∈ s.dropFullQueues.queues ↔
        q ∈ s.queues ∧ (q.unread s.eventRing).length ≠ 1023 := by
      rw [(queues_dropFullQueues hs).mem_iff, List.mem_filter, EventQueue.length_unread,
        decide_eq_true_eq]
      rfl
    simp only [← hmem]
    exact ⟨List.exists_mem_of_ne_nil _, fun ⟨_, hq⟩ => List.ne_nil_of_mem hq⟩
  rw [hadd, hwake, ringExact_enqueue (h.dropFullQueues hs) hs.dropFullQueues
    (fun q hq => (numQueued_of_dropFullQueues hs hq).2), hreader]
  exact ⟨fun hq _ => hq, fun hq => hq hnil⟩

theorem ringExact_step (h : s.RingExact) (hs : s.Valid) {e : ManagerEvent Event}
    (hstep : s.step e = some t) : t.RingExact ↔ s.KeepsReader e := by
  cases e with
  | addEvent event =>
    obtain rfl := Option.some.inj hstep
    exact ringExact_addEvent h hs event
  | createQueue =>
    obtain rfl := Option.some.inj hstep
    exact iff_of_true (h.createQueue hs) trivial
  | destroyQueue handle =>
    obtain rfl := Option.some.inj hstep
    exact iff_of_true (h.destroyQueue hs handle) trivial
  | getEvents call expired =>
    obtain rfl := Option.some.inj hstep
    refine iff_of_true ?_ trivial
    unfold getEvents
    split_ifs
    · exact h
    · exact h
    · exact h.getEventsAgain hs call expired
  | resume call expired waitFailed =>
    obtain ⟨-, hstep⟩ := Option.ite_none_right_eq_some.1 hstep
    obtain rfl := Option.some.inj hstep
    refine iff_of_true ?_ trivial
    have hs' : Valid { s with blocked := s.blocked.erase call } :=
      ⟨hs.bounded, hs.stopped, hs.follows⟩
    have h' : RingExact { s with blocked := s.blocked.erase call } :=
      ⟨h.tidy, h.slowest.bound, h.slowest.attained⟩
    unfold resume
    simp only
    split_ifs
    · exact h'
    · exact h'
    · exact h'.getEventsAgain hs' call expired
  | quit =>
    obtain rfl := Option.some.inj hstep
    exact iff_of_true (h.quit hs) trivial

variable {nextHandle : UInt64} {tr : List (EventManager Event × ManagerEvent Event)}

/-- In a run the ring is exact after every operation if and only if no added event drops the
last queue. -/
theorem ringExact_iff (h : Run EventManager.step (start nextHandle) tr s) :
    Always RingExact tr s ↔ Meets KeepsReader tr :=
  h.always_iff_meets (valid_start nextHandle) (fun _ _ _ hs hstep => hs.step hstep)
    (ringExact_start nextHandle) fun _ _ _ hs hexact hstep => ringExact_step hexact hs hstep

theorem ringExact_iff_twoQueues : ∃ s : EventManager Nat,
    exec EventManager.step (start 1) twoQueues = some s ∧
      (Always RingExact (trace EventManager.step (start 1) twoQueues).reverse s ↔
        Meets KeepsReader (trace EventManager.step (start 1) twoQueues).reverse) :=
  ⟨_, rfl, ringExact_iff (run_trace rfl)⟩

/-! ### A ring without readers -/

/-- The state of one queue that has `n` events to read, and never read any. -/
structure Waits (n : Nat) (s : EventManager Nat) : Prop where
  isRunning : s.isRunning = true
  history : s.history.length = n
  queue : ∃ q, s.queues = [q] ∧ q.born = 0 ∧ q.given = []

theorem Waits.length_unread {n : Nat} {s : EventManager Nat} (h : Waits n s) (hs : s.Valid)
    {q : EventQueue Nat} (hq : q ∈ s.queues) : (q.unread s.eventRing).length = n := by
  obtain ⟨p, hp, hborn, hgiven⟩ := h.queue
  obtain rfl : q = p := by simpa [hp] using hq
  have hlaw := congrArg List.length (hs.follows q hq).given_append_unread
  simpa [hborn, hgiven, h.history] using hlaw

theorem history_addEvent (s : EventManager Event) (event : Event) :
    (s.addEvent event).history = s.history ++ [event] := by
  unfold addEvent
  simp only
  split_ifs <;> rfl

theorem isRunning_addEvent (s : EventManager Event) (event : Event) :
    (s.addEvent event).isRunning = s.isRunning := by
  unfold addEvent
  simp only
  split_ifs
  · rfl
  · rfl
  · exact isRunning_dropFullQueues s

theorem Waits.addEvent {n : Nat} {s : EventManager Nat} (h : Waits n s) (hs : s.Valid)
    (hn : n < 1023) : Waits (n + 1) (s.addEvent 0) where
  isRunning := by rw [isRunning_addEvent, h.isRunning]
  history := by rw [history_addEvent, List.length_append, h.history, List.length_singleton]
  queue := by
    obtain ⟨q, hq, hborn, hgiven⟩ := h.queue
    have hlen := h.length_unread hs (q := q) (by simp [hq])
    have hperm := queues_addEvent hs 0
    have hkeep : (q.unread s.eventRing).length ≠ 1023 := by omega
    rw [hq, List.filter_cons_of_pos (by simpa using hkeep), List.filter_nil] at hperm
    exact ⟨q, List.perm_singleton.1 hperm, hborn, hgiven⟩

/-- One queue is created and never read; all further events are added events. -/
def neverRead (n : Nat) : List (ManagerEvent Nat) := .createQueue :: .replicate n (.addEvent 0)

theorem exec_neverRead {n : Nat} (hn : n ≤ 1023) :
    ∃ s, exec EventManager.step (start 1) (neverRead n) = some s ∧ s.Valid ∧ s.RingExact ∧
      Waits n s := by
  induction n with
  | zero =>
    refine ⟨_, rfl, (valid_start 1).createQueue,
      (ringExact_start 1).createQueue (valid_start 1), rfl, rfl, ?_⟩
    exact ⟨_, rfl, rfl, rfl⟩
  | succ n ih =>
    obtain ⟨s, hs, hvalid, hexact, hwaits⟩ := ih (by omega)
    have hsplit : neverRead (n + 1) = neverRead n ++ [.addEvent 0] := by
      rw [neverRead, neverRead, List.replicate_succ', List.cons_append]
    refine ⟨s.addEvent 0, ?_, hvalid.addEvent 0, ?_, hwaits.addEvent hvalid (by omega)⟩
    · rw [hsplit, exec_append, hs]
      rfl
    · refine (ringExact_addEvent hexact hvalid 0).2 fun _ => ?_
      obtain ⟨q, hq, -⟩ := hwaits.queue
      have hmem : q ∈ s.queues := by simp [hq]
      exact ⟨q, hmem, by rw [hwaits.length_unread hvalid hmem]; omega⟩

/-- The event that drops the only queue stays in the ring. -/
theorem not_ringExact_neverRead : ∃ s : EventManager Nat,
    exec EventManager.step (start 1) (neverRead 1024) = some s ∧ ¬s.RingExact := by
  obtain ⟨s, hs, hvalid, hexact, hwaits⟩ := exec_neverRead (n := 1023) (Nat.le_refl _)
  have hsplit : neverRead 1024 = neverRead 1023 ++ [.addEvent 0] := by
    rw [neverRead, neverRead, List.replicate_succ' (n := 1023), List.cons_append]
  refine ⟨s.addEvent 0, ?_, ?_⟩
  · rw [hsplit, exec_append, hs]
    rfl
  · rw [ringExact_addEvent hexact hvalid]
    obtain ⟨q, hq, -⟩ := hwaits.queue
    intro hkeep
    obtain ⟨p, hp, hne⟩ := hkeep (by simp [hq])
    exact hne (hwaits.length_unread hvalid hp)

end EventManager

end PersonalCloud.Ccd
