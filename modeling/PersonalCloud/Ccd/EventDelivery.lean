import PersonalCloud.Ccd.EventManager

/-!
# Every queue sees every event once and in order

A queue follows the history if the events from its cursor up to `pushIndex` are in their
slots, and together with those it handed out are the events added since it was created. A slot
is cleared only behind the slowest queue and written only in front of all of them, so every
queue goes on following, wherever `popIndex` may be.

## Main results

* `EventQueue.Follows` and its rules, one for each way the ring or the queue moves.
* `EventManager.delivers_in_order` — the law of the queues, and how a step changes their list.
-/

namespace PersonalCloud.Ccd

open PersonalCloud.Lib

variable {Event : Type*} {r : EventRing Event} {q : EventQueue Event} {history : List Event}
  {event : Event} {count : Nat}

theorem max_events_pos : 0 < EVENT_MANAGER_PB_MAX_EVENTS := by decide

/-! ## The ring -/

namespace EventRing

structure Bounded (r : EventRing Event) : Prop where
  pop : r.popIndex < EVENT_MANAGER_PB_MAX_EVENTS
  push : r.pushIndex < EVENT_MANAGER_PB_MAX_EVENTS

theorem bounded_new : (new : EventRing Event).Bounded := ⟨max_events_pos, max_events_pos⟩

theorem Bounded.enqueue (h : r.Bounded) (event : Event) : (r.enqueue event).Bounded :=
  ⟨h.pop, Ring.wrap_lt _ _ max_events_pos⟩

theorem Bounded.dequeue (h : r.Bounded) : r.dequeue.Bounded :=
  ⟨Ring.wrap_lt _ _ max_events_pos, h.push⟩

@[simp] theorem pushIndex_dequeue (r : EventRing Event) : r.dequeue.pushIndex = r.pushIndex := rfl

theorem numQueued_lt (r : EventRing Event) : r.numQueued < EVENT_MANAGER_PB_MAX_EVENTS :=
  Ring.dist_lt _ _ max_events_pos

theorem numQueued_dequeue (h : r.Bounded) (hpos : 0 < r.numQueued) :
    r.dequeue.numQueued = r.numQueued - 1 :=
  Ring.next_dist h.pop h.push hpos

theorem trimLoop_induction {P : EventRing Event → Prop} (fuel : Nat) (h : P r)
    (hstep : ∀ r, P r → count < r.numQueued → P r.dequeue) : P (trimLoop count fuel r) := by
  induction fuel generalizing r with
  | zero => exact h
  | succ fuel ih =>
    unfold trimLoop
    split_ifs with hgt
    · exact ih (hstep r h hgt)
    · exact h

/-- What every single removal keeps, trimming keeps. -/
theorem trimTo_induction {P : EventRing Event → Prop} (h : P r)
    (hstep : ∀ r, P r → count < r.numQueued → P r.dequeue) : P (r.trimTo count) := by
  unfold trimTo
  exact trimLoop_induction _ h hstep

theorem Bounded.trimTo (h : r.Bounded) (count : Nat) : (r.trimTo count).Bounded :=
  trimTo_induction h fun _ hr _ => hr.dequeue

theorem pushIndex_trimTo (r : EventRing Event) (count : Nat) :
    (r.trimTo count).pushIndex = r.pushIndex :=
  trimTo_induction (P := fun s => s.pushIndex = r.pushIndex) rfl fun _ hr _ => hr

theorem numQueued_trimLoop (h : r.Bounded) {fuel : Nat} (hfuel : r.numQueued ≤ fuel) :
    (trimLoop count fuel r).numQueued = min count r.numQueued := by
  induction fuel generalizing r with
  | zero =>
    have hzero : r.numQueued = 0 := by omega
    simp [trimLoop, hzero]
  | succ fuel ih =>
    unfold trimLoop
    split_ifs with hgt
    · have hdeq := numQueued_dequeue h (by omega)
      rw [ih h.dequeue (by omega), hdeq]
      omega
    · omega

theorem numQueued_trimTo (h : r.Bounded) (count : Nat) :
    (r.trimTo count).numQueued = min count r.numQueued := by
  unfold trimTo
  exact numQueued_trimLoop h (Nat.le_of_lt (numQueued_lt r))

end EventRing

/-! ## Following the history -/

namespace EventQueue

/-- The queue handed out the first events added since it was created, and the ring holds the
others from its cursor on. -/
structure Follows (q : EventQueue Event) (r : EventRing Event) (history : List Event) :
    Prop where
  pos : q.currPos < EVENT_MANAGER_PB_MAX_EVENTS
  born : q.born ≤ history.length
  window : ∃ xs : List Event,
    Ring.Holds EVENT_MANAGER_PB_MAX_EVENTS r.buffer q.currPos xs ∧
      q.numQueued r = xs.length ∧ q.given ++ xs.map some = (history.drop q.born).map some

theorem numQueued_lt (q : EventQueue Event) (r : EventRing Event) :
    q.numQueued r < EVENT_MANAGER_PB_MAX_EVENTS :=
  Ring.dist_lt _ _ max_events_pos

/-- A queue is full exactly when its cursor is right behind `pushIndex`. -/
theorem currPos_eq_full (hr : r.Bounded) (hq : q.currPos < EVENT_MANAGER_PB_MAX_EVENTS) :
    q.currPos = (r.pushIndex + 1) % EVENT_MANAGER_PB_MAX_EVENTS ↔
      q.numQueued r = EVENT_MANAGER_PB_MAX_EVENTS - 1 :=
  (Ring.dist_eq_pred hq hr.push).symm

theorem Follows.given_append_unread (h : q.Follows r history) :
    q.given ++ q.unread r = (history.drop q.born).map some := by
  obtain ⟨xs, hxs, hlen, hgiven⟩ := h.window
  rw [unread, hlen, hxs.contents_eq, hgiven]

theorem length_unread (q : EventQueue Event) (r : EventRing Event) :
    (q.unread r).length = q.numQueued r :=
  Ring.length_contents _ _ _ _

/-- Enqueueing gives the new event to every queue that is not full. -/
theorem Follows.enqueue (h : q.Follows r history) (hr : r.Bounded)
    (hfull : q.numQueued r ≠ EVENT_MANAGER_PB_MAX_EVENTS - 1) :
    q.Follows (r.enqueue event) (history ++ [event]) := by
  obtain ⟨xs, hxs, hlen, hgiven⟩ := h.window
  have hlt := q.numQueued_lt r
  have hfits : xs.length + 1 < EVENT_MANAGER_PB_MAX_EVENTS := by omega
  refine ⟨h.pos, ?_, xs ++ [event], hxs.append h.pos hr.push hlen hfits, ?_, ?_⟩
  · have := h.born
    simp only [List.length_append, List.length_singleton]
    omega
  · have hnext : q.numQueued (r.enqueue event) = q.numQueued r + 1 :=
      Ring.dist_next h.pos hr.push (by rw [← hlen] at hfits; exact hfits)
    rw [hnext, hlen, List.length_append, List.length_singleton]
  · rw [List.map_append, ← List.append_assoc, hgiven, List.drop_append_of_le_length h.born,
      List.map_append]

/-- Removing the ring's oldest event takes nothing from a queue that holds fewer events than
the ring. -/
theorem Follows.dequeue (h : q.Follows r history) (hr : r.Bounded)
    (hlt : q.numQueued r < r.numQueued) : q.Follows r.dequeue history := by
  obtain ⟨xs, hxs, hlen, hgiven⟩ := h.window
  refine ⟨h.pos, h.born, xs, hxs.update h.pos hr.pop ?_ none, hlen, hgiven⟩
  rw [← hlen]
  exact Ring.dist_le_of_lt h.pos hr.pop hr.push hlt

theorem Follows.trimTo (h : q.Follows r history) (hr : r.Bounded)
    (hle : q.numQueued r ≤ count) : q.Follows (r.trimTo count) history := by
  suffices (r.trimTo count).Bounded ∧ q.Follows (r.trimTo count) history ∧
      q.numQueued (r.trimTo count) ≤ count from this.2.1
  refine EventRing.trimTo_induction
    (P := fun s => s.Bounded ∧ q.Follows s history ∧ q.numQueued s ≤ count) ⟨hr, h, hle⟩ ?_
  rintro s ⟨hs, hfollows, hcount⟩ hgt
  exact ⟨hs.dequeue, hfollows.dequeue hs (by omega), hcount⟩

/-- Handing out events moves them from the ring's side to the queue's. -/
theorem Follows.getLoop (h : q.Follows r history) (hr : r.Bounded) (hpos : 0 < q.numQueued r)
    (maxToGet : Nat) : (q.getLoop r maxToGet).Follows r history := by
  induction maxToGet generalizing q with
  | zero => exact h
  | succ maxToGet ih =>
    obtain ⟨xs, hxs, hlen, hgiven⟩ := h.window
    obtain ⟨x, xs, rfl⟩ := List.exists_cons_of_length_pos (hlen ▸ hpos)
    have hpeek : q.peek r = some x := hxs.head h.pos
    set q' : EventQueue Event := { q with given := q.given ++ [q.peek r] }.advance with hq'
    have hnext : q'.numQueued r = q.numQueued r - 1 := Ring.next_dist h.pos hr.push hpos
    have hfollows : q'.Follows r history := by
      refine ⟨Ring.wrap_lt _ _ max_events_pos, h.born, xs, hxs.tail, ?_, ?_⟩
      · rw [hnext, hlen, List.length_cons, Nat.add_sub_cancel]
      · change (q.given ++ [q.peek r]) ++ xs.map some = (history.drop q.born).map some
        rw [← hgiven, hpeek]
        simp
    unfold EventQueue.getLoop
    simp only [← hq']
    split_ifs with hzero
    · exact hfollows
    · exact ih hfollows (Nat.pos_of_ne_zero hzero)

end EventQueue

/-! ## Removing queues -/

section Removal

variable {α : Type*} {l : List α} {i : Nat}

/-- The elements before the removed one stay where they are. -/
theorem swapRemove_eq (hi : i < l.length) :
    ∃ rest, swapRemove l i = l.take i ++ rest ∧ rest.Perm (l.drop (i + 1)) := by
  have hne : l ≠ [] := List.ne_nil_of_length_pos (by omega)
  obtain ⟨l, x, rfl⟩ : ∃ l' x, l = l' ++ [x] := ⟨_, _, (List.dropLast_append_getLast hne).symm⟩
  unfold swapRemove
  simp only [List.length_append, List.length_singleton, Nat.add_sub_cancel] at hi ⊢
  split_ifs with hlt
  · refine ⟨x :: l.drop (i + 1), ?_, ?_⟩
    · rw [List.getLast?_concat]
      simp only
      rw [List.set_append_left i x hlt, List.dropLast_concat, List.set_eq_take_append_cons_drop,
        if_pos hlt, List.take_append_of_le_length (Nat.le_of_lt hlt)]
    · rw [List.drop_append_of_le_length (by omega)]
      exact (List.perm_append_singleton x _).symm
  · obtain rfl : i = l.length := by omega
    exact ⟨[], by simp, by simp⟩

theorem swapRemove_perm_eraseIdx (hi : i < l.length) :
    (swapRemove l i).Perm (l.eraseIdx i) := by
  obtain ⟨rest, hrest, hperm⟩ := swapRemove_eq hi
  rw [hrest, List.eraseIdx_eq_take_drop_succ]
  exact hperm.append_left _

theorem eraseIdx_findIdx (p : α → Bool) (l : List α) :
    l.eraseIdx (l.findIdx p) = l.eraseP p := by
  induction l with
  | nil => rfl
  | cons x l ih =>
    cases hx : p x with
    | true => simp [List.findIdx_cons, hx]
    | false => simp [List.findIdx_cons, hx, ih]

end Removal

/-- The queues that stay are those whose cursor is elsewhere. -/
theorem dropFull_perm (full i : Nat) (queues : List (EventQueue Event)) :
    (dropFull full i queues).2.Perm
      (queues.take i ++ (queues.drop i).filter fun q => q.currPos ≠ full) := by
  fun_induction dropFull full i queues with
  | case1 i queues hi hfull ih =>
    obtain ⟨rest, hrest, hperm⟩ := swapRemove_eq hi
    have htake : (queues.take i).length = i := by
      rw [List.length_take]
      omega
    rw [hrest, List.take_left' htake, List.drop_left' htake] at ih
    rw [List.drop_eq_getElem_cons hi, List.filter_cons_of_neg (by simpa using hfull), hrest]
    exact ih.trans ((hperm.filter _).append_left _)
  | case2 i queues hi hfull ih =>
    rw [List.drop_eq_getElem_cons hi, List.filter_cons_of_pos (by simpa using hfull)]
    rw [List.take_succ_eq_append_getElem hi, List.append_assoc] at ih
    exact ih
  | case3 i queues hi =>
    have hle := Nat.le_of_not_lt hi
    simp [List.drop_eq_nil_of_le hle, List.take_of_length_le hle]

theorem dropFull_zero_perm (full : Nat) (queues : List (EventQueue Event)) :
    (dropFull full 0 queues).2.Perm (queues.filter fun q => q.currPos ≠ full) := by
  simpa using dropFull_perm full 0 queues

theorem dropFull_zero_subset (full : Nat) (queues : List (EventQueue Event)) :
    (dropFull full 0 queues).2 ⊆ queues :=
  fun _ hq => List.mem_of_mem_filter ((dropFull_zero_perm full queues).subset hq)

theorem fst_dropFull (full i : Nat) (queues : List (EventQueue Event)) :
    (dropFull full i queues).1 = (queues.drop i).any fun q => q.currPos = full := by
  fun_induction dropFull full i queues with
  | case1 i queues hi hfull ih =>
    rw [List.drop_eq_getElem_cons hi, List.any_cons]
    simp [hfull]
  | case2 i queues hi hfull ih =>
    rw [List.drop_eq_getElem_cons hi, List.any_cons, ih]
    simp [hfull]
  | case3 i queues hi => simp [List.drop_eq_nil_of_le (Nat.le_of_not_lt hi)]

/-! ## The module -/

theorem numQueued_le_largestQueue {queues : List (EventQueue Event)} (hq : q ∈ queues) :
    q.numQueued r ≤ EventManager.largestQueue r queues := by
  suffices ∀ n, n ≤ queues.foldl (fun largest q =>
      if q.numQueued r > largest then q.numQueued r else largest) n ∧
      ∀ q ∈ queues, q.numQueued r ≤ queues.foldl (fun largest q =>
        if q.numQueued r > largest then q.numQueued r else largest) n from (this 0).2 q hq
  clear hq
  induction queues with
  | nil => simp
  | cons p queues ih =>
    intro n
    rw [List.foldl_cons]
    have hp := ih (if p.numQueued r > n then p.numQueued r else n)
    refine ⟨?_, List.forall_mem_cons.2 ⟨?_, hp.2⟩⟩
    · refine Nat.le_trans ?_ hp.1
      split_ifs <;> omega
    · refine Nat.le_trans ?_ hp.1
      split_ifs <;> omega

namespace EventManager

variable {s t : EventManager Event}

/-- What every section leaves behind: all queues follow the history. -/
structure Valid (s : EventManager Event) : Prop where
  bounded : s.eventRing.Bounded
  stopped : s.isRunning = false → s.queues = []
  follows : ∀ q ∈ s.queues, q.Follows s.eventRing s.history

theorem valid_start (nextHandle : UInt64) : (start nextHandle : EventManager Event).Valid where
  bounded := EventRing.bounded_new
  stopped _ := rfl
  follows := by simp [start]

theorem Valid.privCleanup (h : s.Valid) : s.privCleanup.Valid where
  bounded := h.bounded.trimTo _
  stopped := h.stopped
  follows q hq := (h.follows q hq).trimTo h.bounded (numQueued_le_largestQueue hq)

/-- Fewer queues are no harder to serve. -/
theorem Valid.with_queues (h : s.Valid) {queues : List (EventQueue Event)}
    (hsub : queues ⊆ s.queues) : Valid { s with queues := queues } where
  bounded := h.bounded
  stopped hrun := List.eq_nil_of_subset_nil (h.stopped hrun ▸ hsub)
  follows q hq := h.follows q (hsub hq)

theorem Valid.wakeBlockedThreads (h : s.Valid) : s.wakeBlockedThreads.Valid :=
  ⟨h.bounded, h.stopped, h.follows⟩

/-- One queue may be replaced by another that follows the history. -/
theorem Valid.set (h : s.Valid) (i : Nat) (hq : q.Follows s.eventRing s.history) :
    Valid { s with queues := s.queues.set i q } where
  bounded := h.bounded
  stopped hrun := by simp [h.stopped hrun]
  follows p hp := by
    rcases List.mem_or_eq_of_mem_set hp with hp | rfl
    · exact h.follows p hp
    · exact hq

theorem Valid.quit (h : s.Valid) : s.quit.Valid where
  bounded := h.bounded.trimTo 0
  stopped _ := rfl
  follows := by simp [EventManager.quit]

/-! ### Adding an event -/

/-- The queues that are not full stay. -/
theorem queues_dropFullQueues (h : s.Valid) :
    s.dropFullQueues.queues.Perm
      (s.queues.filter fun q => q.numQueued s.eventRing ≠ EVENT_MANAGER_PB_MAX_EVENTS - 1) := by
  have hqueues : s.dropFullQueues.queues =
      (dropFull ((s.eventRing.pushIndex + 1) % EVENT_MANAGER_PB_MAX_EVENTS) 0 s.queues).2 := by
    unfold dropFullQueues
    simp only
    split_ifs <;> rfl
  rw [hqueues]
  refine (dropFull_zero_perm _ s.queues).trans (.of_eq (List.filter_congr fun q hq => ?_))
  simp [EventQueue.currPos_eq_full h.bounded (h.follows q hq).pos]

theorem pushIndex_dropFullQueues (s : EventManager Event) :
    s.dropFullQueues.eventRing.pushIndex = s.eventRing.pushIndex := by
  unfold dropFullQueues
  simp only
  split_ifs
  · exact EventRing.pushIndex_trimTo _ _
  · rfl

theorem Valid.dropFullQueues (h : s.Valid) : s.dropFullQueues.Valid := by
  have hs := h.with_queues (dropFull_zero_subset
    ((s.eventRing.pushIndex + 1) % EVENT_MANAGER_PB_MAX_EVENTS) s.queues)
  unfold EventManager.dropFullQueues
  simp only
  split_ifs
  · exact hs.privCleanup
  · exact hs

theorem numQueued_of_dropFullQueues (h : s.Valid) (hq : q ∈ s.dropFullQueues.queues) :
    q ∈ s.queues ∧
      q.numQueued s.dropFullQueues.eventRing ≠ EVENT_MANAGER_PB_MAX_EVENTS - 1 := by
  have hmem := (queues_dropFullQueues h).subset hq
  rw [List.mem_filter, decide_eq_true_eq] at hmem
  rw [EventQueue.numQueued, pushIndex_dropFullQueues]
  exact hmem

theorem history_dropFullQueues (s : EventManager Event) : s.dropFullQueues.history = s.history := by
  unfold dropFullQueues
  simp only
  split_ifs <;> rfl

theorem isRunning_dropFullQueues (s : EventManager Event) :
    s.dropFullQueues.isRunning = s.isRunning := by
  unfold dropFullQueues
  simp only
  split_ifs <;> rfl

theorem Valid.addEvent (h : s.Valid) (event : Event) : (s.addEvent event).Valid := by
  have hnone (hqueues : s.queues = []) : Valid { s with history := s.history ++ [event] } :=
    ⟨h.bounded, h.stopped, by simp [hqueues]⟩
  unfold EventManager.addEvent
  simp only
  split_ifs with hrun hlen
  · exact hnone (h.stopped (by simpa using hrun))
  · exact hnone (List.eq_nil_of_length_eq_zero hlen)
  · have hd := h.dropFullQueues
    refine ⟨hd.bounded.enqueue event, hd.stopped, fun q hq => ?_⟩
    have hfollows := hd.follows q hq
    rw [history_dropFullQueues] at hfollows
    exact hfollows.enqueue hd.bounded (numQueued_of_dropFullQueues h hq).2

/-! ### The other operations -/

theorem Valid.createQueue (h : s.Valid) : s.createQueue.2.Valid := by
  unfold EventManager.createQueue
  split_ifs with hrun
  · exact h
  · refine ⟨h.bounded, fun hstop => absurd hstop (by simpa using hrun), fun q hq => ?_⟩
    rcases List.mem_append.1 hq with hq | hq
    · exact h.follows q hq
    · obtain rfl := List.mem_singleton.1 hq
      refine ⟨h.bounded.push, Nat.le_refl _, [], .nil max_events_pos, ?_, by simp⟩
      exact Ring.dist_self h.bounded.push

theorem Valid.destroyQueue (h : s.Valid) (handle : UInt64) : (s.destroyQueue handle).2.Valid := by
  unfold EventManager.destroyQueue
  simp only
  split_ifs with hrun
  · exact h
  split
  · exact h
  · next q hq =>
    obtain ⟨hi, -⟩ := List.getElem?_eq_some_iff.1 hq
    have hsub : swapRemove s.queues (s.findQueue handle) ⊆ s.queues := fun q hq =>
      List.mem_of_mem_eraseIdx ((swapRemove_perm_eraseIdx hi).subset hq)
    have hs := h.with_queues hsub
    split_ifs
    · exact hs.privCleanup.wakeBlockedThreads
    · exact hs.wakeBlockedThreads

theorem Valid.getEventsAgain (h : s.Valid) (call : GetCall) (expired : Bool) :
    (s.getEventsAgain call expired).2.Valid := by
  unfold EventManager.getEventsAgain
  simp only
  split
  · exact h
  next q hq =>
  have hget (maxToGet : Nat) (hpos : q.numQueued s.eventRing > 0) :=
    h.set (s.findQueue call.queueHandle)
      ((h.follows q (List.mem_of_getElem? hq)).getLoop h.bounded hpos maxToGet)
  generalize (if call.maxToGet = 0 then EVENT_MANAGER_PB_MAX_EVENTS else call.maxToGet) = maxToGet
  split_ifs with hpos holdest
  · exact (hget maxToGet hpos).privCleanup
  · exact hget maxToGet hpos
  · exact h
  · exact ⟨h.bounded, h.stopped, h.follows⟩

theorem Valid.getEvents (h : s.Valid) (call : GetCall) (expired : Bool) :
    (s.getEvents call expired).2.Valid := by
  unfold EventManager.getEvents
  split_ifs
  · exact h
  · exact h
  · exact h.getEventsAgain call expired

theorem Valid.resume (h : s.Valid) (call : GetCall) (expired waitFailed : Bool) :
    (s.resume call expired waitFailed).2.Valid := by
  have hs : Valid { s with blocked := s.blocked.erase call } := ⟨h.bounded, h.stopped, h.follows⟩
  unfold EventManager.resume
  simp only
  split_ifs
  · exact hs
  · exact hs
  · exact hs.getEventsAgain call expired

theorem Valid.step (h : s.Valid) {e : ManagerEvent Event} (hstep : s.step e = some t) :
    t.Valid := by
  cases e with
  | addEvent event =>
    obtain rfl := Option.some.inj hstep
    exact h.addEvent event
  | createQueue =>
    obtain rfl := Option.some.inj hstep
    exact h.createQueue
  | destroyQueue handle =>
    obtain rfl := Option.some.inj hstep
    exact h.destroyQueue handle
  | getEvents call expired =>
    obtain rfl := Option.some.inj hstep
    exact h.getEvents call expired
  | resume call expired waitFailed =>
    obtain ⟨-, hstep⟩ := Option.ite_none_right_eq_some.1 hstep
    obtain rfl := Option.some.inj hstep
    exact h.resume call expired waitFailed
  | quit =>
    obtain rfl := Option.some.inj hstep
    exact h.quit

/-! ### The law of the queues -/

/-- What each queue handed out, and then what it still holds, are the events added since it was
created. -/
def DeliversInOrder (s : EventManager Event) : Prop :=
  ∀ q ∈ s.queues, q.given ++ q.unread s.eventRing = (s.history.drop q.born).map some

/-- Handing out events adds to what a queue gave, and changes neither its handle nor what it is
due. -/
structure Reads (q q' : EventQueue Event) : Prop where
  handle : q'.handle = q.handle
  born : q'.born = q.born
  given : q.given <+: q'.given

/-- How an operation changes the list of queues. All queues it does not name stay as they are;
their places in the list may change. -/
def QueuesAfter (s t : EventManager Event) : ManagerEvent Event → Prop
  | .addEvent _ => t.queues.Perm (s.queues.filter fun q => (q.unread s.eventRing).length ≠ 1023)
  | .createQueue => t.queues = s.queues ∨
      ∃ q, t.queues = s.queues ++ [q] ∧ q.born = s.history.length ∧ q.given = []
  | .destroyQueue handle => t.queues = s.queues ∨
      t.queues.Perm (s.queues.eraseP fun q => q.handle == handle)
  | .getEvents call _ | .resume call _ _ => t.queues = s.queues ∨
      ∃ i q q', s.queues[i]? = some q ∧ q.handle = call.queueHandle ∧
        t.queues = s.queues.set i q' ∧ Reads q q'
  | .quit => t.queues = []

theorem getLoop_reads (r : EventRing Event) (q : EventQueue Event) (maxToGet : Nat) :
    Reads q (q.getLoop r maxToGet) := by
  induction maxToGet generalizing q with
  | zero => exact ⟨rfl, rfl, List.prefix_rfl⟩
  | succ maxToGet ih =>
    have hone : Reads q { q with given := q.given ++ [q.peek r] }.advance :=
      ⟨rfl, rfl, List.prefix_append _ _⟩
    unfold EventQueue.getLoop
    simp only
    split_ifs
    · exact hone
    · have hrest := ih { q with given := q.given ++ [q.peek r] }.advance
      exact ⟨hrest.handle, hrest.born, hone.given.trans hrest.given⟩

theorem queues_addEvent (h : s.Valid) (event : Event) :
    (s.addEvent event).queues.Perm
      (s.queues.filter fun q => (q.unread s.eventRing).length ≠ 1023) := by
  simp only [EventQueue.length_unread]
  unfold addEvent
  simp only
  split_ifs with hrun hlen
  · simp [h.stopped (by simpa using hrun)]
  · simp [List.eq_nil_of_length_eq_zero hlen]
  · exact queues_dropFullQueues h

theorem queues_destroyQueue (s : EventManager Event) (handle : UInt64) :
    (s.destroyQueue handle).2.queues = s.queues ∨
      (s.destroyQueue handle).2.queues.Perm (s.queues.eraseP fun q => q.handle == handle) := by
  unfold destroyQueue
  simp only
  split_ifs
  · exact .inl rfl
  split
  · exact .inl rfl
  · next q hq =>
    obtain ⟨hi, -⟩ := List.getElem?_eq_some_iff.1 hq
    have hperm := swapRemove_perm_eraseIdx hi
    rw [findQueue, eraseIdx_findIdx] at hperm
    refine .inr ?_
    split_ifs <;> exact hperm

theorem handle_of_findQueue {handle : UInt64} (hq : s.queues[s.findQueue handle]? = some q) :
    q.handle = handle := by
  rw [findQueue] at hq
  obtain ⟨hi, rfl⟩ := List.getElem?_eq_some_iff.1 hq
  have hfound :=
    @List.findIdx_getElem _ (fun q : EventQueue Event => q.handle == handle) s.queues hi
  simpa using hfound

theorem queues_getEventsAgain (s : EventManager Event) (call : GetCall) (expired : Bool) :
    (s.getEventsAgain call expired).2.queues = s.queues ∨
      ∃ i q q', s.queues[i]? = some q ∧ q.handle = call.queueHandle ∧
        (s.getEventsAgain call expired).2.queues = s.queues.set i q' ∧ Reads q q' := by
  unfold getEventsAgain
  simp only
  split
  · exact .inl rfl
  next q hq =>
  have hhandle := handle_of_findQueue hq
  generalize (if call.maxToGet = 0 then EVENT_MANAGER_PB_MAX_EVENTS else call.maxToGet) = maxToGet
  have hread := getLoop_reads s.eventRing q maxToGet
  split_ifs
  · exact .inr ⟨_, q, _, hq, hhandle, rfl, hread⟩
  · exact .inr ⟨_, q, _, hq, hhandle, rfl, hread⟩
  · exact .inl rfl
  · exact .inl rfl

theorem queues_step (h : s.Valid) {e : ManagerEvent Event} (hstep : s.step e = some t) :
    s.QueuesAfter t e := by
  cases e with
  | addEvent event =>
    obtain rfl := Option.some.inj hstep
    exact queues_addEvent h event
  | createQueue =>
    obtain rfl := Option.some.inj hstep
    simp only [QueuesAfter, createQueue]
    split_ifs
    · exact .inl rfl
    · exact .inr ⟨_, rfl, rfl, rfl⟩
  | destroyQueue handle =>
    obtain rfl := Option.some.inj hstep
    exact queues_destroyQueue s handle
  | getEvents call expired =>
    obtain rfl := Option.some.inj hstep
    simp only [QueuesAfter, getEvents]
    split_ifs
    · exact .inl rfl
    · exact .inl rfl
    · exact queues_getEventsAgain s call expired
  | resume call expired waitFailed =>
    obtain ⟨-, hstep⟩ := Option.ite_none_right_eq_some.1 hstep
    obtain rfl := Option.some.inj hstep
    simp only [QueuesAfter, resume]
    split_ifs
    · exact .inl rfl
    · exact .inl rfl
    · exact queues_getEventsAgain { s with blocked := s.blocked.erase call } call expired
  | quit =>
    obtain rfl := Option.some.inj hstep
    rfl

variable {nextHandle : UInt64} {tr : List (EventManager Event × ManagerEvent Event)}

theorem valid_of_run (h : Run EventManager.step (start nextHandle) tr s) : s.Valid :=
  h.invariant (valid_start nextHandle) fun _ _ _ hs hstep => hs.step hstep

/-- In every reachable state the queues deliver in order, and every operation changes the list
of queues as `QueuesAfter` says. -/
theorem delivers_in_order (h : Run EventManager.step (start nextHandle) tr s) :
    s.DeliversInOrder ∧ ∀ e t, s.step e = some t → s.QueuesAfter t e := by
  have hs := valid_of_run h
  exact ⟨fun q hq => (hs.follows q hq).given_append_unread, fun e t hstep => queues_step hs hstep⟩

/-- Two queues, one of which reads one of the two events. -/
def twoQueues : List (ManagerEvent Nat) :=
  [.createQueue, .addEvent 7, .createQueue, .addEvent 8, .getEvents ⟨1, 1, 0⟩ false]

theorem delivers_in_order_twoQueues : ∃ s : EventManager Nat,
    exec EventManager.step (start 1) twoQueues = some s ∧
      s.DeliversInOrder ∧ ∀ e t, s.step e = some t → s.QueuesAfter t e := by
  have he : exec EventManager.step (start 1 : EventManager Nat) twoQueues = some _ := rfl
  exact ⟨_, rfl, delivers_in_order (run_trace he)⟩

end EventManager

end PersonalCloud.Ccd
