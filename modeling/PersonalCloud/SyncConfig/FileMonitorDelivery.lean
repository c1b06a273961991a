import Mathlib.Data.List.Range
import PersonalCloud.SyncConfig.FileMonitorDelayQ

/-!
# What the delay queue delivers

The entries handled so far and those in the queue are, in this order, all that were enqueued, and
the thread works on the first of the latter. Between looking a callback up and starting it the
thread holds no mutex, and nothing keeps `RemoveMonitor` from returning there.

## Main results

* `FileMonitorDelayQ.delivered_of_waits` — all is delivered as wanted in a run in which
  `RemoveMonitor` does not return there.
* `FileMonitorDelayQ.late_callback` — a run in which it does.
-/

namespace PersonalCloud.SyncConfig

namespace FileMonitorDelayQ

open PersonalCloud.Lib

variable {α : Type} {s t : FileMonitorDelayQ α} {delayAmount : ℕ}

/-! ## Registered monitors -/

/-- The monitor was given out, and if it is still registered it is the one that its handle
stands for. -/
def Known (s : FileMonitorDelayQ α) (handle monitor : ℕ) : Prop :=
  monitor < s.nextMonitor ∧
    (monitor ∈ s.monitors → (s.getHandleMap handle).map (fun h => h.monitor) = some monitor)

def Removed (s : FileMonitorDelayQ α) (monitor : ℕ) : Prop :=
  monitor < s.nextMonitor ∧ monitor ∉ s.monitors

/-- No monitor comes back, and none is registered once the thread is told to stop. -/
structure Registry (s : FileMonitorDelayQ α) : Prop where
  nodup : s.monitors.Nodup
  fresh : ∀ m ∈ s.monitors, m < s.nextMonitor
  gone : ∀ m ∈ s.gone, s.Removed m
  leaving : ∀ ms, s.api = .removing ms ∨ s.api = .joining ms → ∀ m ∈ ms, s.Removed m
  closing : s.api = .unlisting ∨ s.api = .stopping → s.initCount = 0
  joining : ∀ ms, s.api = .joining ms → s.threadRunning = false
  stopped : s.threadRunning = false → s.handleMap = [] ∧ s.initCount = 0

theorem known_of_getHandleMap (hs : s.Registry) {handle : ℕ} {h : FileMonitorHandleMap}
    (hget : s.getHandleMap handle = some h) : s.Known handle h.monitor := by
  refine ⟨hs.fresh _ (List.mem_map_of_mem (List.mem_of_find?_eq_some hget)), fun _ => ?_⟩
  rw [hget, Option.map_some]

/-! ### Adding a monitor -/

section AddMonitor

variable {handle : ℕ}

/-- The state behind a successful `AddMonitor`. -/
def addMonitor (s : FileMonitorDelayQ α) (handle : ℕ) : FileMonitorDelayQ α :=
  { s with
    handleMap := s.handleMap ++ [⟨handle, s.nextMonitor⟩]
    nextMonitor := s.nextMonitor + 1 }

theorem mem_monitors_addMonitor {m : ℕ} :
    m ∈ (s.addMonitor handle).monitors ↔ m ∈ s.monitors ∨ m = s.nextMonitor := by
  simp [monitors, addMonitor]

theorem mem_of_mem_addMonitor {m : ℕ} (hlt : m < s.nextMonitor)
    (hm : m ∈ (s.addMonitor handle).monitors) : m ∈ s.monitors := by
  rcases mem_monitors_addMonitor.1 hm with hm | rfl
  · exact hm
  · exact absurd hlt (Nat.lt_irrefl _)

theorem Known.addMonitor {h m : ℕ} (hk : s.Known h m) : (s.addMonitor handle).Known h m := by
  obtain ⟨hlt, hfound⟩ := hk
  refine ⟨Nat.lt_succ_of_lt hlt, fun hm => ?_⟩
  obtain ⟨x, hx, hxm⟩ := Option.map_eq_some_iff.1 (hfound (mem_of_mem_addMonitor hlt hm))
  have hget : (s.addMonitor handle).getHandleMap h = some x := by
    change (s.handleMap ++ _).find? _ = some x
    rw [List.find?_append, show s.handleMap.find? _ = some x from hx, Option.some_or]
  rw [hget, Option.map_some, hxm]

theorem Removed.addMonitor {m : ℕ} (hm : s.Removed m) : (s.addMonitor handle).Removed m :=
  ⟨Nat.lt_succ_of_lt hm.1, fun hmem => hm.2 (mem_of_mem_addMonitor hm.1 hmem)⟩

theorem Registry.addMonitor (hs : s.Registry) (hinit : s.initCount ≠ 0) :
    (s.addMonitor handle).Registry where
  nodup := by
    have hnew : s.nextMonitor ∉ s.monitors := fun hm => Nat.lt_irrefl _ (hs.fresh _ hm)
    change (List.map _ (s.handleMap ++ _)).Nodup
    rw [List.map_append, List.map_singleton]
    exact hs.nodup.append (List.nodup_singleton _) (by simpa using hnew)
  fresh m hm := by
    rcases mem_monitors_addMonitor.1 hm with hm | rfl
    · exact Nat.lt_succ_of_lt (hs.fresh m hm)
    · exact Nat.lt_succ_self _
  gone m hm := (hs.gone m hm).addMonitor
  leaving ms hms m hm := (hs.leaving ms hms m hm).addMonitor
  closing := hs.closing
  joining := hs.joining
  stopped hrun := absurd (hs.stopped hrun).2 hinit

end AddMonitor

/-! ### Removing monitors -/

section RemoveMonitor

variable {handle : ℕ}

theorem mem_of_mem_removeMonitor {m : ℕ} (hm : m ∈ (s.removeMonitor handle).monitors) :
    m ∈ s.monitors := by
  obtain ⟨x, hx, rfl⟩ := List.mem_map.1 hm
  exact List.mem_map_of_mem (List.mem_filter.1 hx).1

/-- A monitor has one entry in the map, so the removed ones are not among those that stay. -/
theorem handle_ne_of_mem (hs : s.Registry) {x : FileMonitorHandleMap} (hx : x ∈ s.handleMap)
    (hm : x.monitor ∈ (s.removeMonitor handle).monitors) : x.handle ≠ handle := by
  obtain ⟨y, hy, hyx⟩ := List.mem_map.1 hm
  obtain ⟨hy, hne⟩ := List.mem_filter.1 hy
  have hyx : y = x := List.inj_on_of_nodup_map hs.nodup hy hx hyx
  exact hyx ▸ of_decide_eq_true hne

theorem Known.removeMonitor (hs : s.Registry) {h m : ℕ} (hk : s.Known h m) :
    (s.removeMonitor handle).Known h m := by
  obtain ⟨hlt, hfound⟩ := hk
  refine ⟨hlt, fun hm => ?_⟩
  obtain ⟨x, hx, rfl⟩ := Option.map_eq_some_iff.1 (hfound (mem_of_mem_removeMonitor hm))
  have hne := handle_ne_of_mem hs (List.mem_of_find?_eq_some hx) hm
  have hxh : x.handle = h := by simpa using List.find?_some hx
  have hget : (s.removeMonitor handle).getHandleMap h = some x := by
    change (s.handleMap.filter _).find? _ = some x
    rw [List.find?_filter, ← show s.handleMap.find? _ = some x from hx]
    congr 1
    funext y
    by_cases hy : y.handle = h
    · simp [hy, ← hxh, hne]
    · simp [hy]
  rw [hget, Option.map_some]

theorem Removed.removeMonitor {m : ℕ} (hm : s.Removed m) : (s.removeMonitor handle).Removed m :=
  ⟨hm.1, fun hmem => hm.2 (mem_of_mem_removeMonitor hmem)⟩

theorem Registry.removeMonitor (hs : s.Registry) : (s.removeMonitor handle).Registry where
  nodup := hs.nodup.sublist (List.filter_sublist.map _)
  fresh m hm := hs.fresh m (mem_of_mem_removeMonitor hm)
  gone m hm := (hs.gone m hm).removeMonitor
  leaving ms hms m hm := by
    obtain rfl : _ = ms := by simpa [FileMonitorDelayQ.removeMonitor] using hms
    obtain ⟨x, hx, rfl⟩ := List.mem_map.1 hm
    obtain ⟨hx, heq⟩ := List.mem_filter.1 hx
    refine ⟨hs.fresh _ (List.mem_map_of_mem hx), fun hmem => ?_⟩
    exact handle_ne_of_mem hs hx hmem (of_decide_eq_true heq)
  closing h := by simp [FileMonitorDelayQ.removeMonitor] at h
  joining ms h := by simp [FileMonitorDelayQ.removeMonitor] at h
  stopped hrun := by
    obtain ⟨hmap, hinit⟩ := hs.stopped hrun
    exact ⟨by simp [FileMonitorDelayQ.removeMonitor, hmap], hinit⟩

end RemoveMonitor

/-! ## The entries -/

/-- What `fileMonitorCallback` has read so far is right. -/
def EnqueueingSound (s : FileMonitorDelayQ α) : Prop :=
  match s.enqueueing with
  | .idle => True
  | .found handle monitor _ => s.Known handle monitor
  | .stamped handle monitor _ timeQueued => s.Known handle monitor ∧ timeQueued ≤ s.now

structure Queued (s : FileMonitorDelayQ α) : Prop where
  known : ∀ entry ∈ s.delayQ, s.Known entry.handle entry.monitor
  since : ∀ entry ∈ s.delayQ, entry.timeQueued ≤ s.now
  target : s.EnqueueingSound
  numbered : s.enqueued.map (fun entry => entry.seq) = List.range s.enqueued.length

/-- The handled entries and the queue are all that was enqueued, and callbacks were started for
the first `n` entries only. -/
def Serving (s : FileMonitorDelayQ α) (n : ℕ) : Prop :=
  s.enqueued = s.handled.map (fun h => h.entry) ++ s.delayQ ∧ ∀ c ∈ s.calls, c.entry.seq < n

/-- The callback of the monitor was started for the entry. -/
def Called (s : FileMonitorDelayQ α) (entry : DelayQEntry α) : Prop :=
  (entry.seq, entry.monitor) ∈ s.calls.map fun c => (c.entry.seq, c.monitor)

theorem front_seq (hq : s.Queued) {n : ℕ} (hserv : s.Serving n) {front : DelayQEntry α}
    (hhead : s.delayQ.head? = some front) : front.seq = s.handled.length := by
  obtain ⟨rest, hrest⟩ := List.head?_eq_some_iff.1 hhead
  have hseq := congrArg (fun l => l[s.handled.length]?) hq.numbered
  rw [hserv.1, hrest] at hseq
  simpa using hseq

/-! ## The thread -/

structure LookedUp (delayAmount : ℕ) (s : FileMonitorDelayQ α) (currTime : ℕ)
    (callback : Option ℕ) (front : DelayQEntry α) : Prop where
  head : s.delayQ.head? = some front
  time : currTime ≤ s.now
  waited : front.timeQueued + delayAmount ≤ s.now
  chosen : front.monitor ∈ s.monitors → callback = some front.monitor
  present : ∀ m, callback = some m → m ∉ s.gone

structure Calling (s : FileMonitorDelayQ α) (currTime : ℕ) (front : DelayQEntry α) : Prop where
  head : s.delayQ.head? = some front
  time : currTime ≤ s.now
  called : front.monitor ∈ s.monitors → s.Called front

/-- What the thread relies on at each point where it does not hold the mutex. -/
def LoopSound (delayAmount : ℕ) (s : FileMonitorDelayQ α) : Prop :=
  match s.loop with
  | .starting | .waiting => s.Serving s.handled.length
  | .lookedUp currTime callback =>
    s.Serving s.handled.length ∧ ∃ front, s.LookedUp delayAmount currTime callback front
  | .calling currTime => s.Serving (s.handled.length + 1) ∧ ∃ front, s.Calling currTime front
  | .exited => s.threadRunning = false

structure History (delayAmount : ℕ) (s : FileMonitorDelayQ α) : Prop where
  order : (s.calls.map fun c => c.entry.seq).Pairwise (· < ·)
  delayed : ∀ c ∈ s.calls, c.entry.timeQueued + delayAmount ≤ c.time
  notLate : ∀ c ∈ s.calls, c.late = false
  once : ∀ h ∈ s.handled, h.registered = true → s.Called h.entry

structure Inv (delayAmount : ℕ) (s : FileMonitorDelayQ α) : Prop where
  registry : s.Registry
  queued : s.Queued
  loop : s.LoopSound delayAmount
  history : s.History delayAmount

theorem inv_init (initCount : ℕ) : (init initCount : FileMonitorDelayQ α).Inv delayAmount where
  registry := by constructor <;> simp [init, monitors]
  queued := by constructor <;> simp [init, EnqueueingSound]
  loop := ⟨rfl, by simp [init]⟩
  history := by constructor <;> simp [init]

/-! ### What the other steps leave alone -/

/-- What the thread may rely on while it does not hold the mutex. -/
structure Rely (s t : FileMonitorDelayQ α) : Prop where
  now : s.now ≤ t.now
  known : ∀ handle m, s.Known handle m → t.Known handle m
  registered : ∀ m < s.nextMonitor, m ∈ t.monitors → m ∈ s.monitors
  loop : t.loop = s.loop
  calls : t.calls = s.calls
  handled : t.handled = s.handled
  entries : ∃ more, t.delayQ = s.delayQ ++ more ∧ t.enqueued = s.enqueued ++ more
  running : s.threadRunning = false → t.threadRunning = false
  gone : ∀ currTime m, s.loop = .lookedUp currTime (some m) → m ∉ s.gone → m ∉ t.gone

theorem Rely.refl (s : FileMonitorDelayQ α) : s.Rely s where
  now := Nat.le_refl _
  known _ _ h := h
  registered _ _ h := h
  loop := rfl
  calls := rfl
  handled := rfl
  entries := ⟨[], by simp⟩
  running h := h
  gone _ _ _ h := h

theorem Rely.head (h : s.Rely t) {front : DelayQEntry α} (hhead : s.delayQ.head? = some front) :
    t.delayQ.head? = some front := by
  obtain ⟨more, hq, -⟩ := h.entries
  rw [hq, List.head?_append, hhead, Option.some_or]

theorem Rely.serving (h : s.Rely t) {n : ℕ} (hserv : s.Serving n) : t.Serving n := by
  obtain ⟨more, hq, hen⟩ := h.entries
  refine ⟨?_, h.calls ▸ hserv.2⟩
  rw [hq, hen, h.handled, hserv.1, List.append_assoc]

theorem Rely.mem_of_head (h : s.Rely t) (hq : s.Queued) {front : DelayQEntry α}
    (hhead : s.delayQ.head? = some front) (hm : front.monitor ∈ t.monitors) :
    front.monitor ∈ s.monitors :=
  h.registered _ (hq.known front (List.mem_of_head? hhead)).1 hm

theorem Rely.lookedUp (h : s.Rely t) (hq : s.Queued) {currTime : ℕ} {callback : Option ℕ}
    {front : DelayQEntry α} (hloop : s.loop = .lookedUp currTime callback)
    (hs : s.LookedUp delayAmount currTime callback front) :
    t.LookedUp delayAmount currTime callback front where
  head := h.head hs.head
  time := Nat.le_trans hs.time h.now
  waited := Nat.le_trans hs.waited h.now
  chosen hm := hs.chosen (h.mem_of_head hq hs.head hm)
  present m hm := h.gone currTime m (hm ▸ hloop) (hs.present m hm)

theorem Rely.calling (h : s.Rely t) (hq : s.Queued) {currTime : ℕ} {front : DelayQEntry α}
    (hs : s.Calling currTime front) : t.Calling currTime front where
  head := h.head hs.head
  time := Nat.le_trans hs.time h.now
  called hm := by
    unfold Called
    rw [h.calls]
    exact hs.called (h.mem_of_head hq hs.head hm)

theorem Rely.loopSound (h : s.Rely t) (hq : s.Queued) (hs : s.LoopSound delayAmount) :
    t.LoopSound delayAmount := by
  unfold LoopSound at hs ⊢
  rw [h.loop, h.handled]
  cases hloop : s.loop with
  | starting =>
    rw [hloop] at hs
    exact h.serving hs
  | waiting =>
    rw [hloop] at hs
    exact h.serving hs
  | lookedUp currTime callback =>
    rw [hloop] at hs
    obtain ⟨hserv, front, hfront⟩ := hs
    exact ⟨h.serving hserv, front, h.lookedUp hq hloop hfront⟩
  | calling currTime =>
    rw [hloop] at hs
    obtain ⟨hserv, front, hfront⟩ := hs
    exact ⟨h.serving hserv, front, h.calling hq hfront⟩
  | exited =>
    rw [hloop] at hs
    exact h.running hs

theorem Rely.history (h : s.Rely t) (hs : s.History delayAmount) : t.History delayAmount where
  order := h.calls ▸ hs.order
  delayed := h.calls ▸ hs.delayed
  notLate := h.calls ▸ hs.notLate
  once := by
    unfold Called
    rw [h.calls, h.handled]
    exact hs.once

theorem Rely.enqueueingSound (h : s.Rely t) (heq : t.enqueueing = s.enqueueing)
    (hs : s.EnqueueingSound) : t.EnqueueingSound := by
  unfold EnqueueingSound at hs ⊢
  rw [heq]
  cases henq : s.enqueueing with
  | idle => trivial
  | found handle monitor event =>
    rw [henq] at hs
    exact h.known _ _ hs
  | stamped handle monitor event timeQueued =>
    rw [henq] at hs
    exact ⟨h.known _ _ hs.1, Nat.le_trans hs.2 h.now⟩

theorem Rely.queued (h : s.Rely t) (hq : t.delayQ = s.delayQ) (hen : t.enqueued = s.enqueued)
    (henq : t.EnqueueingSound) (hs : s.Queued) : t.Queued where
  known := by
    rw [hq]
    exact fun entry he => h.known _ _ (hs.known entry he)
  since := by
    rw [hq]
    exact fun entry he => Nat.le_trans (hs.since entry he) h.now
  target := henq
  numbered := hen ▸ hs.numbered

/-! ### The steps of the callers -/

theorem Inv.of_rely (hs : s.Inv delayAmount) (h : s.Rely t) (hreg : t.Registry)
    (hq : t.delayQ = s.delayQ) (hen : t.enqueued = s.enqueued) (henq : t.EnqueueingSound) :
    t.Inv delayAmount where
  registry := hreg
  queued := h.queued hq hen henq hs.queued
  loop := h.loopSound hs.queued hs.loop
  history := h.history hs.history

theorem Inv.of_rely_of_idle (hs : s.Inv delayAmount) (h : s.Rely t) (hreg : t.Registry)
    (hq : t.delayQ = s.delayQ) (hen : t.enqueued = s.enqueued)
    (henq : t.enqueueing = s.enqueueing) : t.Inv delayAmount :=
  hs.of_rely h hreg hq hen (h.enqueueingSound henq hs.queued.target)

theorem Inv.tick (hs : s.Inv delayAmount) (time : ℕ) :
    Inv delayAmount { s with now := s.now + time } := by
  have hrely : s.Rely { s with now := s.now + time } :=
    { Rely.refl s with now := Nat.le_add_right _ _ }
  exact hs.of_rely_of_idle hrely { hs.registry with } rfl rfl rfl

theorem Inv.fileEvent (hs : s.Inv delayAmount) {handle : ℕ} {h : FileMonitorHandleMap} (event : α)
    (hget : s.getHandleMap handle = some h) :
    Inv delayAmount { s with enqueueing := .found handle h.monitor event } :=
  hs.of_rely { Rely.refl s with } { hs.registry with } rfl rfl
    (known_of_getHandleMap hs.registry hget)

theorem Inv.stamp (hs : s.Inv delayAmount) {handle monitor : ℕ} {event : α}
    (henq : s.enqueueing = .found handle monitor event) :
    Inv delayAmount { s with enqueueing := .stamped handle monitor event s.now } := by
  have hknown : s.Known handle monitor := by
    have htarget := hs.queued.target
    unfold EnqueueingSound at htarget
    rwa [henq] at htarget
  exact hs.of_rely { Rely.refl s with } { hs.registry with } rfl rfl ⟨hknown, Nat.le_refl _⟩

theorem Inv.enqueue (hs : s.Inv delayAmount) {entry : DelayQEntry α}
    (henq : s.enqueueing = .stamped entry.handle entry.monitor entry.event entry.timeQueued)
    (hseq : entry.seq = s.enqueued.length) :
    Inv delayAmount { s with
      delayQ := s.delayQ ++ [entry]
      enqueueing := .idle
      enqueued := s.enqueued ++ [entry] } := by
  have htarget : s.Known entry.handle entry.monitor ∧ entry.timeQueued ≤ s.now := by
    have htarget := hs.queued.target
    unfold EnqueueingSound at htarget
    rwa [henq] at htarget
  have hrely : s.Rely { s with
      delayQ := s.delayQ ++ [entry]
      enqueueing := .idle
      enqueued := s.enqueued ++ [entry] } :=
    { Rely.refl s with entries := ⟨[entry], rfl, rfl⟩ }
  refine ⟨{ hs.registry with }, ⟨?_, ?_, trivial, ?_⟩, hrely.loopSound hs.queued hs.loop,
    hrely.history hs.history⟩
  · rintro e he
    rcases List.mem_append.1 he with he | he
    · exact hs.queued.known e he
    · exact List.mem_singleton.1 he ▸ htarget.1
  · rintro e he
    rcases List.mem_append.1 he with he | he
    · exact hs.queued.since e he
    · exact List.mem_singleton.1 he ▸ htarget.2
  · change (s.enqueued ++ [entry]).map _ = List.range (s.enqueued ++ [entry]).length
    rw [List.map_append, hs.queued.numbered, List.length_append, List.map_singleton, hseq]
    exact List.range_succ.symm

theorem Inv.addMonitor (hs : s.Inv delayAmount) (handle : ℕ) (hinit : s.initCount ≠ 0) :
    (s.addMonitor handle).Inv delayAmount := by
  have hrely : s.Rely (s.addMonitor handle) :=
    { Rely.refl s with
      known := fun _ _ h => h.addMonitor
      registered := fun _ hlt hm => mem_of_mem_addMonitor hlt hm }
  exact hs.of_rely_of_idle hrely (hs.registry.addMonitor hinit) rfl rfl rfl

theorem Inv.removeMonitor (hs : s.Inv delayAmount) (handle : ℕ) :
    (s.removeMonitor handle).Inv delayAmount := by
  have hrely : s.Rely (s.removeMonitor handle) :=
    { Rely.refl s with
      known := fun _ _ h => h.removeMonitor hs.registry
      registered := fun _ _ hm => mem_of_mem_removeMonitor hm }
  exact hs.of_rely_of_idle hrely hs.registry.removeMonitor rfl rfl rfl

/-- Only here is a monitor gone for good while the thread runs. -/
theorem Inv.removeReturn (hs : s.Inv delayAmount) {ms : List ℕ} (hapi : s.api = .removing ms)
    (hwaits : ∀ currTime m, s.loop = .lookedUp currTime (some m) → m ∉ ms) :
    Inv delayAmount { s with api := .idle, gone := s.gone ++ ms } := by
  have hrely : s.Rely { s with api := .idle, gone := s.gone ++ ms } :=
    { Rely.refl s with
      gone := fun currTime m hloop hm hmem =>
        (List.mem_append.1 hmem).elim hm (hwaits currTime m hloop) }
  refine hs.of_rely_of_idle hrely ?_ rfl rfl rfl
  refine { hs.registry with gone := ?_, leaving := ?_, closing := ?_, joining := ?_ }
  · rintro m hm
    rcases List.mem_append.1 hm with hm | hm
    · exact hs.registry.gone m hm
    · exact hs.registry.leaving ms (.inl hapi) m hm
  all_goals simp

theorem Inv.shutdown (hs : s.Inv delayAmount) (hinit : s.initCount ≠ 0) {initCount : ℕ}
    {api : ApiCall} (hapi : api = .idle ∨ api = .unlisting ∧ initCount = 0) :
    Inv delayAmount { s with initCount := initCount, api := api } := by
  refine hs.of_rely_of_idle { Rely.refl s with } ?_ rfl rfl rfl
  refine { hs.registry with leaving := ?_, closing := ?_, joining := ?_, stopped := ?_ }
  · rcases hapi with rfl | ⟨rfl, -⟩ <;> simp
  · rcases hapi with rfl | ⟨rfl, hzero⟩
    · simp
    · exact fun _ => hzero
  · rcases hapi with rfl | ⟨rfl, -⟩ <;> simp
  · exact fun hrun => absurd (hs.registry.stopped hrun).2 hinit

theorem Inv.unlist (hs : s.Inv delayAmount) (hapi : s.api = .unlisting) :
    Inv delayAmount { s with listed := false, api := .stopping } := by
  refine hs.of_rely_of_idle { Rely.refl s with } ?_ rfl rfl rfl
  exact { hs.registry with
    leaving := by simp
    closing := fun _ => hs.registry.closing (.inl hapi)
    joining := by simp }

theorem Inv.stop (hs : s.Inv delayAmount) (hapi : s.api = .stopping) :
    Inv delayAmount
      { s with threadRunning := false, handleMap := [], api := .joining s.monitors } := by
  have hrely : s.Rely
      { s with threadRunning := false, handleMap := [], api := .joining s.monitors } :=
    { Rely.refl s with
      known := fun _ _ h => ⟨h.1, fun hm => absurd hm List.not_mem_nil⟩
      registered := fun _ _ hm => absurd hm List.not_mem_nil
      running := fun _ => rfl }
  refine hs.of_rely_of_idle hrely ?_ rfl rfl rfl
  refine ⟨List.nodup_nil, fun _ hm => absurd hm List.not_mem_nil, ?_, ?_, by simp,
    fun _ _ => rfl, fun _ => ⟨rfl, hs.registry.closing (.inr hapi)⟩⟩
  · exact fun m hm => ⟨(hs.registry.gone m hm).1, List.not_mem_nil⟩
  · rintro ms hms m hm
    obtain rfl : s.monitors = ms := by simpa using hms
    exact ⟨hs.registry.fresh m hm, List.not_mem_nil⟩

/-- The thread has exited by then. -/
theorem Inv.shutdownReturn (hs : s.Inv delayAmount) {ms : List ℕ} (hapi : s.api = .joining ms)
    (hloop : s.loop = .exited) :
    Inv delayAmount { s with delayQ := [], api := .idle, gone := s.gone ++ ms } where
  registry := by
    refine { hs.registry with gone := ?_, leaving := ?_, closing := ?_, joining := ?_ }
    · rintro m hm
      rcases List.mem_append.1 hm with hm | hm
      · exact hs.registry.gone m hm
      · exact hs.registry.leaving ms (.inr hapi) m hm
    all_goals simp
  queued := ⟨by simp, by simp, hs.queued.target, hs.queued.numbered⟩
  loop := by
    unfold LoopSound
    rw [show ({ s with delayQ := [], api := .idle, gone := s.gone ++ ms } :
      FileMonitorDelayQ α).loop = .exited from hloop]
    exact hs.registry.joining ms hapi
  history := { hs.history with }

/-! ### The steps of the thread -/

theorem exists_loop_serve (delayAmount : ℕ) (s : FileMonitorDelayQ α) (currTime : ℕ) :
    ∃ loop, s.serve delayAmount currTime = { s with loop := loop } := by
  unfold serve
  split_ifs
  exacts [⟨_, rfl⟩, ⟨_, rfl⟩, ⟨_, rfl⟩]

theorem hasWork_eq_true {currTime : ℕ} :
    s.hasWork delayAmount currTime = true ↔
      ∃ front, s.delayQ.head? = some front ∧ delayAmount ≤ currTime - front.timeQueued := by
  unfold hasWork
  cases s.delayQ.head? with
  | none => simp
  | some front => simp

theorem loopSound_lookUp (hreg : s.Registry) (hq : s.Queued) (hserv : s.Serving s.handled.length)
    {currTime : ℕ} (hle : currTime ≤ s.now) (hwork : s.hasWork delayAmount currTime = true) :
    (s.lookUp currTime).LoopSound delayAmount := by
  obtain ⟨front, hhead, hwait⟩ := hasWork_eq_true.1 hwork
  have hmem : front ∈ s.delayQ := List.mem_of_head? hhead
  have hsince := hq.since front hmem
  refine ⟨hserv, front, hhead, hle, show _ ≤ s.now by omega, fun hm => ?_, fun m hm => ?_⟩
  · rw [hhead]
    exact (hq.known front hmem).2 hm
  · rw [hhead, Option.bind_some] at hm
    obtain ⟨h, hget, rfl⟩ := Option.map_eq_some_iff.1 hm
    have hregistered : h.monitor ∈ s.monitors :=
      List.mem_map_of_mem (List.mem_of_find?_eq_some hget)
    exact fun hgone => (hreg.gone _ hgone).2 hregistered

theorem loopSound_serve (hreg : s.Registry) (hq : s.Queued) (hserv : s.Serving s.handled.length)
    {currTime : ℕ} (hle : currTime ≤ s.now) :
    (s.serve delayAmount currTime).LoopSound delayAmount := by
  unfold serve
  split_ifs with hwork hnow
  · exact loopSound_lookUp hreg hq hserv hle hwork
  · exact loopSound_lookUp hreg hq hserv (Nat.le_refl _) hnow
  · exact hserv

theorem inv_serve (hreg : s.Registry) (hq : s.Queued) (hhist : s.History delayAmount)
    (hserv : s.Serving s.handled.length) {currTime : ℕ} (hle : currTime ≤ s.now) :
    (s.serve delayAmount currTime).Inv delayAmount := by
  have hloop : (s.serve delayAmount currTime).LoopSound delayAmount :=
    loopSound_serve hreg hq hserv hle
  obtain ⟨loop, heq⟩ := exists_loop_serve delayAmount s currTime
  rw [heq] at hloop ⊢
  exact ⟨{ hreg with }, { hq with }, hloop, { hhist with }⟩

theorem inv_exit (hreg : s.Registry) (hq : s.Queued) (hhist : s.History delayAmount)
    (hrun : ¬s.threadRunning = true) : s.exit.Inv delayAmount where
  registry := { hreg with }
  queued := ⟨by simp [exit], by simp [exit], hq.target, hq.numbered⟩
  loop := by simpa [exit, LoopSound] using hrun
  history := { hhist with }

theorem Inv.wake_starting (hs : s.Inv delayAmount) (hloop : s.loop = .starting) :
    (s.serve delayAmount s.now).Inv delayAmount := by
  have hserv := hs.loop
  unfold LoopSound at hserv
  rw [hloop] at hserv
  exact inv_serve hs.registry hs.queued hs.history hserv (Nat.le_refl _)

theorem Inv.wake_waiting (hs : s.Inv delayAmount) (hloop : s.loop = .waiting) :
    (if s.threadRunning then s.serve delayAmount s.now else s.exit).Inv delayAmount := by
  have hserv := hs.loop
  unfold LoopSound at hserv
  rw [hloop] at hserv
  split_ifs with hrun
  · exact inv_serve hs.registry hs.queued hs.history hserv (Nat.le_refl _)
  · exact inv_exit hs.registry hs.queued hs.history hrun

/-- The first entry is the next one in order, and its callback is started. -/
theorem Inv.start (hs : s.Inv delayAmount) {currTime monitor : ℕ} {entry : DelayQEntry α}
    {rest : List (DelayQEntry α)} (hloop : s.loop = .lookedUp currTime (some monitor))
    (hqueue : s.delayQ = entry :: rest) :
    Inv delayAmount { s with
      loop := .calling currTime
      calls := s.calls ++ [⟨entry, monitor, s.now, monitor ∈ s.gone⟩] } := by
  have hsound := hs.loop
  unfold LoopSound at hsound
  rw [hloop] at hsound
  obtain ⟨hserv, front, hfront⟩ := hsound
  obtain rfl : front = entry := by simpa [hqueue] using hfront.head.symm
  have hseq : front.seq = s.handled.length := front_seq hs.queued hserv hfront.head
  refine ⟨{ hs.registry with }, { hs.queued with }, ⟨⟨hserv.1, fun c hc => ?_⟩, front, hfront.head,
    hfront.time, fun hm => ?_⟩, ?_, fun c hc => ?_, fun c hc => ?_, fun h hh hr => ?_⟩
  · change c.entry.seq < s.handled.length + 1
    rcases List.mem_append.1 hc with hc | hc
    · exact Nat.lt_succ_of_lt (hserv.2 c hc)
    · rw [List.mem_singleton.1 hc]
      exact hseq ▸ Nat.lt_succ_self _
  · have hchosen : monitor = front.monitor := by simpa using hfront.chosen hm
    simp [Called, hchosen]
  · rw [List.map_append, List.map_singleton, List.pairwise_append]
    refine ⟨hs.history.order, List.pairwise_singleton _ _, ?_⟩
    rintro i hi j hj
    obtain ⟨c, hc, rfl⟩ := List.mem_map.1 hi
    rw [List.mem_singleton.1 hj, hseq]
    exact hserv.2 c hc
  · rcases List.mem_append.1 hc with hc | hc
    · exact hs.history.delayed c hc
    · rw [List.mem_singleton.1 hc]
      exact hfront.waited
  · rcases List.mem_append.1 hc with hc | hc
    · exact hs.history.notLate c hc
    · rw [List.mem_singleton.1 hc]
      exact decide_eq_false (hfront.present monitor rfl)
  · have hcalled := hs.history.once h hh hr
    unfold Called at hcalled ⊢
    rw [List.map_append]
    exact List.mem_append_left _ hcalled

theorem popFront_cons {front : DelayQEntry α} {rest : List (DelayQEntry α)}
    (hqueue : s.delayQ = front :: rest) :
    s.popFront = { s with
      delayQ := rest
      handled := s.handled ++ [⟨front, front.monitor ∈ s.monitors⟩] } := by
  unfold popFront
  rw [hqueue]

/-- The first entry becomes the last one that was handled. -/
theorem Inv.afterCallback (hs : s.Inv delayAmount) (hserv : s.Serving (s.handled.length + 1))
    {currTime : ℕ} {front : DelayQEntry α} (hcalling : s.Calling currTime front) :
    (s.afterCallback delayAmount currTime).Inv delayAmount := by
  obtain ⟨rest, hqueue⟩ := List.head?_eq_some_iff.1 hcalling.head
  have hpop := popFront_cons hqueue
  have hserved : s.popFront.Serving s.popFront.handled.length := by
    rw [hpop]
    refine ⟨?_, by simpa using hserv.2⟩
    simp [hserv.1, hqueue]
  have hregistry : s.popFront.Registry := by
    rw [hpop]
    exact { hs.registry with }
  have hqueued : s.popFront.Queued := by
    rw [hpop]
    refine ⟨fun e he => ?_, fun e he => ?_, hs.queued.target, hs.queued.numbered⟩
    · exact hs.queued.known e (hqueue ▸ List.mem_cons_of_mem _ he)
    · exact hs.queued.since e (hqueue ▸ List.mem_cons_of_mem _ he)
  have hhistory : s.popFront.History delayAmount := by
    rw [hpop]
    refine { hs.history with once := fun h hh hr => ?_ }
    rcases List.mem_append.1 hh with hh | hh
    · exact hs.history.once h hh hr
    · obtain rfl := List.mem_singleton.1 hh
      exact hcalling.called (of_decide_eq_true hr)
  have hle : currTime ≤ s.popFront.now := by
    rw [hpop]
    exact hcalling.time
  unfold FileMonitorDelayQ.afterCallback
  split_ifs with hrun
  · exact inv_serve hregistry hqueued hhistory hserved hle
  · exact inv_exit hregistry hqueued hhistory hrun

theorem Inv.pop_lookedUp (hs : s.Inv delayAmount) {currTime : ℕ}
    (hloop : s.loop = .lookedUp currTime none) :
    (s.afterCallback delayAmount currTime).Inv delayAmount := by
  have hsound := hs.loop
  unfold LoopSound at hsound
  rw [hloop] at hsound
  obtain ⟨hserv, front, hfront⟩ := hsound
  have hcalling : s.Calling currTime front :=
    ⟨hfront.head, hfront.time, fun hm => absurd (hfront.chosen hm) (by simp)⟩
  exact hs.afterCallback ⟨hserv.1, fun c hc => Nat.lt_succ_of_lt (hserv.2 c hc)⟩ hcalling

theorem Inv.pop_calling (hs : s.Inv delayAmount) {currTime : ℕ}
    (hloop : s.loop = .calling currTime) :
    (s.afterCallback delayAmount currTime).Inv delayAmount := by
  have hsound := hs.loop
  unfold LoopSound at hsound
  rw [hloop] at hsound
  obtain ⟨hserv, front, hfront⟩ := hsound
  exact hs.afterCallback hserv hfront

/-! ### Runs -/

theorem inv_step (e : Event α) (hs : s.Inv delayAmount) (hc : s.WaitsForStart e)
    (he : step delayAmount s e = some t) : t.Inv delayAmount := by
  cases e with
  | tick time =>
    obtain rfl := Option.some.inj he
    exact hs.tick time
  | fileEvent handle event =>
    simp only [step] at he
    split at he
    · rw [if_pos rfl] at he
      split at he
      · rename_i h hget
        split_ifs at he
        · obtain rfl := Option.some.inj he
          exact hs.fileEvent event hget
        · obtain rfl := Option.some.inj he
          exact hs
      · obtain rfl := Option.some.inj he
        exact hs
    · simp at he
  | stamp =>
    simp only [step] at he
    split at he
    · rename_i henq
      obtain rfl := Option.some.inj he
      exact hs.stamp henq
    · cases he
  | enqueue =>
    simp only [step] at he
    split at he
    · rename_i henq
      obtain rfl := Option.some.inj he
      exact hs.enqueue henq rfl
    · cases he
  | addMonitor handle =>
    simp only [step] at he
    split_ifs at he with hidle hinit
    · obtain rfl := Option.some.inj he
      exact hs
    · obtain rfl := Option.some.inj he
      exact hs.addMonitor handle hinit
  | removeMonitor handle =>
    simp only [step] at he
    split_ifs at he with hidle hinit
    · obtain rfl := Option.some.inj he
      exact hs
    · obtain rfl := Option.some.inj he
      exact hs.removeMonitor handle
  | removeReturn =>
    simp only [step] at he
    split at he
    · rename_i ms hapi
      obtain rfl := Option.some.inj he
      refine hs.removeReturn hapi fun currTime m hloop => ?_
      have hwaits := hc rfl m (by simp [awaited, hloop])
      simpa only [removing, hapi] using hwaits
    · cases he
  | shutdown =>
    simp only [step] at he
    split_ifs at he with hidle hinit hone
    · obtain rfl := Option.some.inj he
      exact hs
    · obtain rfl := Option.some.inj he
      exact hs.shutdown hinit (.inr ⟨rfl, rfl⟩)
    · obtain rfl := Option.some.inj he
      exact hs.shutdown hinit (.inl hidle)
  | unlist =>
    simp only [step] at he
    split_ifs at he with hlist
    obtain rfl := Option.some.inj he
    exact hs.unlist hlist.1
  | stop =>
    simp only [step] at he
    split_ifs at he with hapi
    obtain rfl := Option.some.inj he
    exact hs.stop hapi
  | shutdownReturn =>
    simp only [step] at he
    split at he
    · rename_i ms hapi
      split_ifs at he with hloop
      obtain rfl := Option.some.inj he
      exact hs.shutdownReturn hapi hloop
    · cases he
  | wake =>
    simp only [step] at he
    split at he
    · rename_i hloop
      obtain rfl := Option.some.inj he
      exact hs.wake_starting hloop
    · rename_i hloop
      have hwake := hs.wake_waiting hloop
      split_ifs at he hwake
      · exact Option.some.inj he ▸ hwake
      · exact Option.some.inj he ▸ hwake
    · cases he
  | start =>
    simp only [step] at he
    split at he
    · rename_i hloop hqueue
      obtain rfl := Option.some.inj he
      exact hs.start hloop hqueue
    · cases he
  | pop =>
    simp only [step] at he
    split at he
    · rename_i hloop
      obtain rfl := Option.some.inj he
      exact hs.pop_lookedUp hloop
    · rename_i hloop
      obtain rfl := Option.some.inj he
      exact hs.pop_calling hloop
    · cases he

/-- The numbers of the started entries increase, so none is started twice. -/
theorem History.count_eq_one (hs : s.History delayAmount) {entry : DelayQEntry α}
    (hcalled : s.Called entry) :
    (s.calls.map fun c => (c.entry.seq, c.monitor)).count (entry.seq, entry.monitor) = 1 := by
  refine List.count_eq_one_of_mem ?_ hcalled
  have hseqs : ((s.calls.map fun c => (c.entry.seq, c.monitor)).map Prod.fst).Nodup := by
    rw [List.map_map]
    exact hs.order.imp fun h => Nat.ne_of_lt h
  exact hseqs.of_map _

theorem Inv.serving (hs : s.Inv delayAmount) (hrun : s.threadRunning = true) :
    ∃ n, s.Serving n := by
  have hsound := hs.loop
  unfold LoopSound at hsound
  cases hloop : s.loop with
  | starting => exact ⟨_, by simpa only [hloop] using hsound⟩
  | waiting => exact ⟨_, by simpa only [hloop] using hsound⟩
  | lookedUp currTime callback =>
    rw [hloop] at hsound
    exact ⟨_, hsound.1⟩
  | calling currTime =>
    rw [hloop] at hsound
    exact ⟨_, hsound.1⟩
  | exited =>
    rw [hloop] at hsound
    exact absurd hrun (by simp [show s.threadRunning = false from hsound])

theorem Inv.delivered (hs : s.Inv delayAmount) : s.Delivered delayAmount where
  order := hs.history.order
  delayed := hs.history.delayed
  notLate := hs.history.notLate
  once h hh hr := hs.history.count_eq_one (hs.history.once h hh hr)
  kept entry he hm := by
    cases hrun : s.threadRunning with
    | false =>
      have hnone : s.monitors = [] := by simp [monitors, (hs.registry.stopped hrun).1]
      exact absurd (hnone ▸ hm) List.not_mem_nil
    | true =>
      obtain ⟨n, hflow, -⟩ := hs.serving hrun
      rw [hflow, List.mem_append, List.mem_map] at he
      exact he.symm

/-- Events are delivered once, in order and after the delay, and never after removal, in each
run in which `RemoveMonitor` does not return before a callback that was looked up is started. -/
theorem delivered_of_waits (initCount : ℕ) {tr : List (FileMonitorDelayQ α × Event α)}
    (h : Run (step delayAmount) (init initCount) tr s) (hc : Meets WaitsForStart tr) :
    Always (Delivered delayAmount) tr s := by
  have hinv : Always (Inv delayAmount) tr s :=
    h.always_of_meets (inv_init initCount) (fun s e t hs hc he => inv_step e hs hc he) hc
  exact ⟨fun x hx => (hinv.1 x hx).delivered, hinv.2.delivered⟩

/-- The event is handled before the monitor is removed. -/
theorem delivered_of_waits_handled :
    ∃ tr s, Run (step 2) (init 1 : FileMonitorDelayQ Unit) tr s ∧ s.calls.length = 1 ∧
      Always (Delivered 2) tr s := by
  have he : exec (step 2) (init 1 : FileMonitorDelayQ Unit) [.addMonitor 5, .fileEvent 5 (),
      .stamp, .enqueue, .tick 2, .wake, .start, .pop, .removeMonitor 5, .removeReturn] =
    some _ := rfl
  have hrun := run_trace he
  exact ⟨_, _, hrun, rfl, delivered_of_waits 1 hrun (by decide +kernel)⟩

/-- The monitor is removed between the look-up and the start of its callback. -/
theorem late_callback :
    ∃ tr s, Run (step 2) (init 1 : FileMonitorDelayQ Unit) tr s ∧
      tr.map Prod.snd = [.start, .removeReturn, .removeMonitor 5, .wake, .tick 2, .enqueue, .stamp,
        .fileEvent 5 (), .addMonitor 5] ∧
      ¬Always (Delivered 2) tr s := by
  have he : exec (step 2) (init 1 : FileMonitorDelayQ Unit) [.addMonitor 5, .fileEvent 5 (),
      .stamp, .enqueue, .tick 2, .wake, .removeMonitor 5, .removeReturn, .start] = some _ := rfl
  refine ⟨_, _, run_trace he, rfl, fun h => absurd h.2.notLate ?_⟩
  decide

end FileMonitorDelayQ

end PersonalCloud.SyncConfig
