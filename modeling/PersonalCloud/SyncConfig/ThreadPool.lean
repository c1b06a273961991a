import Mathlib.Data.List.Nodup
import PersonalCloud.Lib.Run

/-!
# The sync thread pool

Threads wait on a semaphore of their own for a task. A task is handed to a thread that is not in
use, which runs it without the mutex of the pool and takes the mutex again to clear its slot. A
thread leaves its loop when it is asked to exit, or when the pool is destroyed.

Each section under the mutex is one step, and so is each thing a thread does without it. Tasks are
numbered in the order in which they are accepted.

## Main results

* `runsOnce_iff_meets` — every accepted task is called exactly once as long as no thread is asked
  to exit that has a task and has not entered its loop yet.
-/

namespace PersonalCloud.SyncConfig

open PersonalCloud.Lib

/-- Where a thread is in `threadRoutine`: before its first lock, in `VPLSem_Wait`, behind it, in
the task, about to take the mutex again, or out of the loop. -/
inductive Phase where
  | spawned
  | waiting
  | woken
  | running (task : ℕ)
  | returned
  | left
deriving DecidableEq, Repr

/-- `PoolThread` with its `PoolThreadCtx`. The semaphore counts to 1. -/
structure PoolThread where
  dedicatedNotification : Option ℕ
  inUse : Bool
  task : Option ℕ
  startTaskSem : Bool
  exitThread : Bool
  phase : Phase
deriving DecidableEq, Repr

namespace PoolThread

/-- A thread that was just started. -/
def new (dedicatedNotification : Option ℕ) : PoolThread :=
  ⟨dedicatedNotification, false, none, false, false, .spawned⟩

/-- The thread is in the vector of its kind: it removes itself when it leaves. -/
def Listed (t : PoolThread) : Prop :=
  t.phase ≠ .left

instance : DecidablePred Listed := fun t => inferInstanceAs (Decidable (t.phase ≠ .left))

/-- Hand a task to the thread. -/
def give (task : ℕ) (t : PoolThread) : PoolThread :=
  { t with inUse := true, task := some task, startTaskSem := true }

def askToExit (t : PoolThread) : PoolThread :=
  { t with exitThread := true, startTaskSem := true }

/-- The next thing that the thread does: `threadPool` is `NULL` for it once the pool is
destroyed. -/
def run (destroyed : Bool) (t : PoolThread) : Option PoolThread :=
  match t.phase with
  | .spawned =>
    some { t with phase := if destroyed || t.exitThread then .left else .waiting }
  | .waiting =>
    if t.startTaskSem then some { t with startTaskSem := false, phase := .woken } else none
  | .woken =>
    some { t with phase := match t.task with
      | some task => .running task
      | none => .returned }
  | .running _ => some { t with phase := .returned }
  | .returned =>
    some { t with
      inUse := false
      task := none
      phase := if destroyed || t.exitThread then .left else .waiting }
  | .left => none

/-- The task that the thread calls next. -/
def calls (t : PoolThread) : Option ℕ :=
  if t.phase = .woken then t.task else none

end PoolThread

/-- The pool with all threads that were ever started, and which tasks were called. -/
structure ThreadPool where
  threads : List PoolThread
  shutdown : Bool
  destroyed : Bool
  accepted : ℕ
  executed : List ℕ
deriving DecidableEq, Repr

namespace ThreadPool

/-! ## The operations -/

def empty : ThreadPool :=
  ⟨[], false, false, 0, []⟩

/-- `AddGeneralThreads`, with the number of threads that could be started. -/
def addGeneralThreads (numThreads : ℕ) (s : ThreadPool) : ThreadPool :=
  if s.shutdown then s
  else { s with threads := s.threads ++ List.replicate numThreads (.new none) }

def dedicatedThread (handle : ℕ) (s : ThreadPool) : Option ℕ :=
  s.threads.findIdx? fun t => t.Listed ∧ t.dedicatedNotification = some handle

/-- `RegisterForTaskCompleteNotificationAndAddDedicatedThread`. -/
def addDedicatedThread (handle : ℕ) (s : ThreadPool) : ThreadPool :=
  if s.shutdown || (s.dedicatedThread handle).isSome then s
  else { s with threads := s.threads ++ [.new (some handle)] }

/-- `UnregisterForTaskCompleteNotification` of a dedicated thread. -/
def unregister (handle : ℕ) (s : ThreadPool) : ThreadPool :=
  if s.shutdown then s
  else match s.dedicatedThread handle with
  | none => s
  | some i => { s with threads := s.threads.modify i PoolThread.askToExit }

/-- Success: the task gets the next number. -/
def accept (i : ℕ) (s : ThreadPool) : ThreadPool :=
  { s with
    threads := s.threads.modify i (PoolThread.give s.accepted)
    accepted := s.accepted + 1 }

def addGeneralPoolTask (s : ThreadPool) : ThreadPool :=
  match s.threads.findIdx? fun t =>
    t.Listed ∧ t.dedicatedNotification = none ∧ t.inUse = false ∧ t.exitThread = false with
  | none => s
  | some i => s.accept i

def addTask (s : ThreadPool) : ThreadPool :=
  if s.shutdown then s else s.addGeneralPoolTask

def addTaskDedicatedThread (handle : ℕ) (s : ThreadPool) : ThreadPool :=
  if s.shutdown then s
  else match s.dedicatedThread handle with
  | none => s.addGeneralPoolTask
  | some i =>
    if s.threads[i]?.any PoolThread.exitThread then s
    else if s.threads[i]?.any PoolThread.inUse then s.addGeneralPoolTask
    else s.accept i

def checkAndPrepareShutdown (s : ThreadPool) : ThreadPool :=
  { s with
    threads := s.threads.map fun t => if t.Listed then t.askToExit else t
    shutdown := true }

inductive Event where
  | addGeneralThreads (numThreads : ℕ)
  | addDedicatedThread (handle : ℕ)
  | unregister (handle : ℕ)
  | addTask
  | addTaskDedicatedThread (handle : ℕ)
  | checkAndPrepareShutdown
  | destroy
  | run (i : ℕ)
deriving DecidableEq, Repr

/-- A step. The destructor first calls `CheckAndPrepareShutdown`, which is a step of its own, and
nobody calls a pool that is destroyed. -/
def step (s : ThreadPool) : Event → Option ThreadPool
  | .run i => do
    let t ← s.threads[i]?
    let t' ← t.run s.destroyed
    some { s with threads := s.threads.set i t', executed := t.calls.toList ++ s.executed }
  | e =>
    if s.destroyed then none
    else match e with
    | .addGeneralThreads numThreads => some (s.addGeneralThreads numThreads)
    | .addDedicatedThread handle => some (s.addDedicatedThread handle)
    | .unregister handle => some (s.unregister handle)
    | .addTask => some s.addTask
    | .addTaskDedicatedThread handle => some (s.addTaskDedicatedThread handle)
    | .checkAndPrepareShutdown => some s.checkAndPrepareShutdown
    | .destroy => if s.shutdown then some { s with destroyed := true } else none
    | .run _ => none

end ThreadPool

namespace PoolThread

/-- The task of the thread was not called yet. -/
def Uncalled (t : PoolThread) : Prop :=
  t.phase = .spawned ∨ t.phase = .waiting ∨ t.phase = .woken

/-- The thread gets to calling its task: if it still has to enter its loop, then it will. -/
def GoesOn (destroyed : Bool) (t : PoolThread) : Prop :=
  t.phase = .spawned ∧ t.exitThread = false ∧ destroyed = false ∨
    t.phase = .waiting ∨ t.phase = .woken

end PoolThread

namespace ThreadPool

/-- No task is called twice, a thread that runs a task has no other, and each accepted task was
called or is on a thread that gets to calling it. -/
structure RunsOnce (s : ThreadPool) : Prop where
  nodup : s.executed.Nodup
  one_task : ∀ (i : ℕ) (t : PoolThread) (k : ℕ), s.threads[i]? = some t →
    t.phase = .running k → t.task = some k
  goesOn : ∀ k < s.accepted, k ∈ s.executed ∨
    ∃ (i : ℕ) (t : PoolThread), s.threads[i]? = some t ∧ t.task = some k ∧ t.GoesOn s.destroyed

/-- The threads that an event asks to exit. -/
def Asks (s : ThreadPool) (i : ℕ) (t : PoolThread) : Event → Prop
  | .unregister handle => s.shutdown = false ∧ s.dedicatedThread handle = some i
  | .checkAndPrepareShutdown => t.Listed
  | _ => False

instance (s : ThreadPool) (i : ℕ) (t : PoolThread) : DecidablePred (s.Asks i t)
  | .unregister _ => inferInstanceAs (Decidable (_ ∧ _))
  | .checkAndPrepareShutdown => inferInstanceAs (Decidable t.Listed)
  | .addGeneralThreads _ | .addDedicatedThread _ | .addTask | .addTaskDedicatedThread _
  | .destroy | .run _ => .isFalse id

/-- No thread is asked to exit that has a task and has not entered its loop. -/
def Regular (s : ThreadPool) (e : Event) : Prop :=
  ∀ i < s.threads.length, ∀ t ∈ s.threads[i]?, s.Asks i t e → t.phase = .spawned → t.task = none

instance (s : ThreadPool) : DecidablePred s.Regular := fun _ =>
  inferInstanceAs (Decidable (∀ i < s.threads.length, ∀ t ∈ s.threads[i]?, _ → _ → _))

/-! ## What a step can do -/

variable {s s' : ThreadPool} {e : Event} {i j k : ℕ} {t u : PoolThread}

/-- A task is only handed to a thread that is not in use and not asked to exit. -/
theorem addGeneralPoolTask_cases (s : ThreadPool) : s.addGeneralPoolTask = s ∨
    ∃ i t, s.threads[i]? = some t ∧ t.Listed ∧ t.inUse = false ∧ t.exitThread = false ∧
      s.addGeneralPoolTask = s.accept i := by
  unfold addGeneralPoolTask
  split
  · exact .inl rfl
  · rename_i i hi
    obtain ⟨hlt, hp, -⟩ := List.findIdx?_eq_some_iff_getElem.1 hi
    simp only [decide_eq_true_eq] at hp
    exact .inr ⟨i, _, List.getElem?_eq_getElem hlt, hp.1, hp.2.2.1, hp.2.2.2, rfl⟩

theorem listed_of_dedicatedThread {handle : ℕ} (h : s.dedicatedThread handle = some i) :
    ∃ t, s.threads[i]? = some t ∧ t.Listed := by
  obtain ⟨hlt, hp, -⟩ := List.findIdx?_eq_some_iff_getElem.1 h
  simp only [decide_eq_true_eq] at hp
  exact ⟨_, List.getElem?_eq_getElem hlt, hp.1⟩

theorem addTaskDedicatedThread_cases (handle : ℕ) (h : s.shutdown = false) :
    s.addTaskDedicatedThread handle = s ∨
      ∃ i t, s.threads[i]? = some t ∧ t.Listed ∧ t.inUse = false ∧ t.exitThread = false ∧
        s.addTaskDedicatedThread handle = s.accept i := by
  unfold addTaskDedicatedThread
  rw [if_neg (by simp [h])]
  split
  · exact addGeneralPoolTask_cases s
  · rename_i i hi
    obtain ⟨t, ht, hl⟩ := listed_of_dedicatedThread hi
    simp only [ht, Option.any_some]
    split_ifs with hexit huse
    · exact .inl rfl
    · exact addGeneralPoolTask_cases s
    · exact .inr ⟨i, t, ht, hl, by simpa using huse, by simpa using hexit, rfl⟩

/-- The five kinds of steps. -/
inductive Change (s : ThreadPool) (e : Event) : ThreadPool → Prop where
  | spawn (new : List PoolThread) (hnew : ∀ t ∈ new, ∃ handle, t = .new handle)
      (hs : s.shutdown = false ∨ new = []) (he : ∀ i t, ¬ s.Asks i t e) :
      Change s e { s with threads := s.threads ++ new }
  | hand (i : ℕ) (t : PoolThread) (ht : s.threads[i]? = some t) (hl : t.Listed)
      (huse : t.inUse = false) (hexit : t.exitThread = false) (he : ∀ i t, ¬ s.Asks i t e) :
      Change s e (s.accept i)
  | ask (threads : List PoolThread) (shutdown : Bool)
      (ht : ∀ j : ℕ, threads[j]? =
        (s.threads[j]?).map fun t => if s.Asks j t e then t.askToExit else t)
      (hs : shutdown = s.shutdown ∨
        shutdown = true ∧ ∀ j t, PoolThread.Listed t → s.Asks j t e) :
      Change s e { s with threads, shutdown }
  | destroy (hs : s.shutdown = true) (he : ∀ i t, ¬ s.Asks i t e) :
      Change s e { s with destroyed := true }
  | run (i : ℕ) (t t' : PoolThread) (ht : s.threads[i]? = some t)
      (hr : t.run s.destroyed = some t') (he : ∀ i t, ¬ s.Asks i t e) :
      Change s e
        { s with threads := s.threads.set i t', executed := t.calls.toList ++ s.executed }

theorem Change.same (he : ∀ i t, ¬ s.Asks i t e) : Change s e s := by
  have h := Change.spawn (s := s) (e := e) [] (by simp) (.inr rfl) he
  rwa [List.append_nil] at h

theorem change_of_cases (he : ∀ i t, ¬ s.Asks i t e) (h : s' = s ∨
    ∃ i t, s.threads[i]? = some t ∧ t.Listed ∧ t.inUse = false ∧ t.exitThread = false ∧
      s' = s.accept i) : Change s e s' := by
  rcases h with rfl | ⟨i, t, ht, hl, huse, hexit, rfl⟩
  · exact .same he
  · exact .hand i t ht hl huse hexit he

theorem change_unregister (handle : ℕ) :
    Change s (.unregister handle) (s.unregister handle) := by
  unfold unregister
  split_ifs with hs
  · exact .same fun i t h => by simp [Asks, hs] at h
  · split
    · rename_i hnone
      exact .same fun i t h => by simp [Asks, hnone] at h
    · rename_i i hi
      refine .ask _ s.shutdown (fun j => ?_) (.inl rfl)
      rw [List.getElem?_modify]
      cases s.threads[j]? with
      | none => rfl
      | some t => simp [Asks, hs, hi]

theorem change_checkAndPrepareShutdown :
    Change s .checkAndPrepareShutdown s.checkAndPrepareShutdown :=
  .ask _ true (fun j => by rw [List.getElem?_map]; rfl) (.inr ⟨rfl, fun _ _ hl => hl⟩)

theorem change_of_step (h : s.step e = some s') : Change s e s' := by
  cases e with
  | run i =>
    obtain ⟨t, ht, t', hr, h⟩ := by simpa [step, Option.bind_eq_some_iff] using h
    exact h ▸ .run i t t' ht hr fun _ _ => id
  | addGeneralThreads numThreads =>
    obtain ⟨-, rfl⟩ := by simpa [step] using h
    unfold addGeneralThreads
    split_ifs with hs
    · exact .same fun _ _ => id
    · refine .spawn _ (fun t ht => ⟨none, List.eq_of_mem_replicate ht⟩) (.inl (by simpa using hs))
        fun _ _ => id
  | addDedicatedThread handle =>
    obtain ⟨-, rfl⟩ := by simpa [step] using h
    unfold addDedicatedThread
    split_ifs with hs
    · exact .same fun _ _ => id
    · rw [Bool.not_eq_true, Bool.or_eq_false_iff] at hs
      exact .spawn _ (fun t ht => ⟨_, List.mem_singleton.1 ht⟩) (.inl hs.1) fun _ _ => id
  | unregister handle =>
    obtain ⟨-, rfl⟩ := by simpa [step] using h
    exact change_unregister handle
  | addTask =>
    obtain ⟨-, rfl⟩ := by simpa [step] using h
    unfold addTask
    split_ifs with hs
    · exact .same fun _ _ => id
    · exact change_of_cases (fun _ _ => id) (addGeneralPoolTask_cases s)
  | addTaskDedicatedThread handle =>
    obtain ⟨-, rfl⟩ := by simpa [step] using h
    by_cases hs : s.shutdown
    · rw [addTaskDedicatedThread, if_pos hs]
      exact .same fun _ _ => id
    · exact change_of_cases (fun _ _ => id)
        (addTaskDedicatedThread_cases handle (by simpa using hs))
  | checkAndPrepareShutdown =>
    obtain ⟨-, rfl⟩ := by simpa [step] using h
    exact change_checkAndPrepareShutdown
  | destroy =>
    obtain ⟨-, hs, rfl⟩ := by simpa [step] using h
    exact .destroy hs fun _ _ => id

end ThreadPool

/-! ## One thread -/

/-- What is true of a thread whatever happens: its slot is in use exactly when it holds a task,
and its semaphore was posted for a task that it has yet to see or to make it exit. -/
structure PoolThread.Valid (shutdown : Bool) (t : PoolThread) : Prop where
  inUse_eq : t.inUse = t.task.isSome
  exit_of_shutdown : shutdown = true → t.Listed → t.exitThread = true
  sem_of_task : t.task.isSome → t.phase = .spawned ∨ t.phase = .waiting → t.startTaskSem = true
  why_sem : t.startTaskSem = true →
    t.task.isSome ∧ (t.phase = .spawned ∨ t.phase = .waiting) ∨ t.exitThread = true
  why_awake : t.phase = .woken ∨ t.phase = .returned → t.task.isSome ∨ t.exitThread = true
  running : ∀ k, t.phase = .running k → t.task = some k

namespace PoolThread

variable {shutdown destroyed : Bool} {t t' : PoolThread} {k : ℕ}

theorem valid_new (handle : Option ℕ) : (new handle).Valid false := by
  constructor <;> simp [new]

/-- A thread that is free waits, or is on its way to waiting. -/
theorem Valid.uncalled_of_free (h : t.Valid shutdown) (hl : t.Listed) (huse : t.inUse = false)
    (hexit : t.exitThread = false) : t.phase = .spawned ∨ t.phase = .waiting := by
  have htask : t.task = none := by simpa using h.inUse_eq.symm.trans huse
  have hawake := h.why_awake
  simp only [htask, Option.isSome_none, Bool.false_eq_true, hexit, or_self, imp_false,
    not_or] at hawake
  cases hp : t.phase with
  | spawned => exact .inl rfl
  | waiting => exact .inr rfl
  | woken => exact absurd hp hawake.1
  | running k =>
    have := h.running k hp
    simp [htask] at this
  | returned => exact absurd hp hawake.2
  | left => exact absurd hp hl

theorem Valid.give (h : t.Valid shutdown) (hl : t.Listed) (huse : t.inUse = false)
    (hexit : t.exitThread = false) : (t.give k).Valid shutdown := by
  have hphase := h.uncalled_of_free hl huse hexit
  refine ⟨rfl, h.exit_of_shutdown, fun _ _ => rfl, fun _ => .inl ⟨rfl, hphase⟩,
    fun _ => .inl rfl, fun j hj => ?_⟩
  rcases hphase with hp | hp <;> cases hp.symm.trans hj

theorem Valid.askToExit (h : t.Valid shutdown) (b : Bool) : t.askToExit.Valid b :=
  ⟨h.inUse_eq, fun _ _ => rfl, fun _ _ => rfl, fun _ => .inr rfl, fun _ => .inr rfl, h.running⟩

theorem Valid.of_not_listed (h : t.Valid shutdown) (hl : ¬ t.Listed) (b : Bool) : t.Valid b :=
  ⟨h.inUse_eq, fun _ hl' => absurd hl' hl, h.sem_of_task, h.why_sem, h.why_awake, h.running⟩

theorem Valid.run (h : t.Valid shutdown) (hd : destroyed = true → shutdown = true)
    (hr : t.run destroyed = some t') : t'.Valid shutdown := by
  unfold PoolThread.run at hr
  split at hr
  · rename_i hp
    cases hr
    by_cases hleave : destroyed || t.exitThread
    · -- the pool is destroyed only after a shutdown, so the thread was asked to exit
      have hexit : t.exitThread = true := by
        rcases Bool.or_eq_true_iff.1 hleave with hde | hexit
        · exact h.exit_of_shutdown (hd hde) (by simp [Listed, hp])
        · exact hexit
      constructor <;> simp [h.inUse_eq, hexit, Listed]
    · have hl : t.Listed := by simp [Listed, hp]
      have hexit := h.exit_of_shutdown
      have hsem := h.sem_of_task
      have hwhy := h.why_sem
      constructor <;> simp_all [h.inUse_eq, Listed]
  · rename_i hp
    split_ifs at hr with hs
    cases hr
    have hwhy := h.why_sem hs
    have hexit := h.exit_of_shutdown
    constructor <;> simp_all [h.inUse_eq, Listed]
  · rename_i hp
    cases hr
    have hawake := h.why_awake (.inl hp)
    have hexit := h.exit_of_shutdown
    have hwhy := h.why_sem
    cases htask : t.task <;> constructor <;> simp_all [h.inUse_eq, Listed]
  · rename_i k hp
    cases hr
    have htask := h.running k hp
    have hexit := h.exit_of_shutdown
    have hwhy := h.why_sem
    constructor <;> simp_all [h.inUse_eq, Listed]
  · rename_i hp
    cases hr
    have hexit := h.exit_of_shutdown
    have hwhy := h.why_sem
    by_cases hleave : destroyed || t.exitThread <;> constructor <;> simp_all [Listed]
  · cases hr

end PoolThread

/-! ## The pool -/

namespace ThreadPool

variable {s s' : ThreadPool} {e : Event} {i j k : ℕ} {t u t' : PoolThread}

/-- What holds in every run: tasks are on one thread each and are called at most once. -/
structure Valid (s : ThreadPool) : Prop where
  thread : ∀ (i : ℕ) (t : PoolThread), s.threads[i]? = some t → t.Valid s.shutdown
  distinct : ∀ (i j : ℕ) (t u : PoolThread) (k : ℕ), s.threads[i]? = some t →
    s.threads[j]? = some u → t.task = some k → u.task = some k → i = j
  accepted_of_task : ∀ (i : ℕ) (t : PoolThread) (k : ℕ), s.threads[i]? = some t →
    t.task = some k → k < s.accepted
  uncalled : ∀ (i : ℕ) (t : PoolThread) (k : ℕ), s.threads[i]? = some t →
    t.task = some k → t.Uncalled → k ∉ s.executed
  nodup : s.executed.Nodup
  accepted_of_executed : ∀ k ∈ s.executed, k < s.accepted
  shutdown_of_destroyed : s.destroyed = true → s.shutdown = true

theorem getElem?_set_of_some {l : List PoolThread} (h : l[i]? = some t) (t' : PoolThread)
    (j : ℕ) : (l.set i t')[j]? = if j = i then some t' else l[j]? := by
  obtain ⟨hlt, -⟩ := List.getElem?_eq_some_iff.1 h
  rw [List.getElem?_set]
  split_ifs <;> first | rfl | omega

theorem getElem?_append_new {l new : List PoolThread}
    (hnew : ∀ t ∈ new, ∃ handle, t = .new handle) (h : (l ++ new)[i]? = some t) :
    l[i]? = some t ∨ t ∈ new ∧ ∃ handle, t = .new handle := by
  rw [List.getElem?_append] at h
  split_ifs at h
  · exact .inl h
  · have hmem := List.mem_of_getElem? h
    exact .inr ⟨hmem, hnew t hmem⟩

theorem getElem?_accept (h : (s.accept i).threads[j]? = some u) :
    ∃ t, s.threads[j]? = some t ∧ u = if i = j then t.give s.accepted else t := by
  simp only [accept, List.getElem?_modify] at h
  obtain ⟨t, ht, rfl⟩ := Option.map_eq_some_iff.1 h
  exact ⟨t, ht, rfl⟩

/-- What a thread does next keeps its task or clears it. -/
theorem task_run {destroyed : Bool} (hr : t.run destroyed = some t') (h : t'.task = some k) :
    t.task = some k := by
  unfold PoolThread.run at hr
  split at hr
  · cases hr
    exact h
  · split_ifs at hr
    cases hr
    exact h
  · cases hr
    exact h
  · cases hr
    exact h
  · cases hr
    cases h
  · cases hr

/-- A thread whose task was called by its last step has it no longer to call. -/
theorem uncalled_run {destroyed : Bool} (hr : t.run destroyed = some t') (hu : t'.Uncalled)
    (h : t'.task = some k) : t.calls = none ∧ t.Uncalled := by
  unfold PoolThread.run at hr
  split at hr
  · rename_i hp
    exact ⟨by simp [PoolThread.calls, hp], .inl hp⟩
  · rename_i hp
    exact ⟨by simp [PoolThread.calls, hp], .inr (.inl hp)⟩
  · rename_i hp
    cases hr
    dsimp only at h
    simp [PoolThread.Uncalled, h] at hu
  · cases hr
    simp [PoolThread.Uncalled] at hu
  · cases hr
    cases h
  · cases hr

theorem calls_eq_some (h : t.calls = some k) : t.phase = .woken ∧ t.task = some k := by
  unfold PoolThread.calls at h
  split_ifs at h with hp
  exact ⟨hp, h⟩

theorem Valid.spawn {new : List PoolThread} (h : s.Valid)
    (hnew : ∀ t ∈ new, ∃ handle, t = .new handle) (hs : s.shutdown = false ∨ new = []) :
    Valid { s with threads := s.threads ++ new } := by
  have hold : ∀ (i : ℕ) (t : PoolThread) (k : ℕ), (s.threads ++ new)[i]? = some t →
      t.task = some k → s.threads[i]? = some t := by
    intro i t k ht hk
    rcases getElem?_append_new hnew ht with ht | ⟨-, handle, rfl⟩
    · exact ht
    · cases hk
  refine ⟨fun i t ht => ?_, fun i j t u k ht hu hk hk' => ?_, fun i t k ht hk => ?_,
    fun i t k ht hk => ?_, h.nodup, h.accepted_of_executed, h.shutdown_of_destroyed⟩
  · rcases getElem?_append_new hnew ht with ht | ⟨hmem, handle, rfl⟩
    · exact h.thread i t ht
    · rcases hs with hs | rfl
      · rw [hs]
        exact PoolThread.valid_new handle
      · cases hmem
  · exact h.distinct i j t u k (hold i t k ht hk) (hold j u k hu hk') hk hk'
  · exact h.accepted_of_task i t k (hold i t k ht hk) hk
  · exact h.uncalled i t k (hold i t k ht hk) hk

theorem Valid.hand (h : s.Valid) (ht : s.threads[i]? = some t) (hl : t.Listed)
    (huse : t.inUse = false) (hexit : t.exitThread = false) : (s.accept i).Valid := by
  -- only the thread that was given the task has the new number
  have hnum : ∀ (j : ℕ) (u : PoolThread) (k : ℕ), (s.accept i).threads[j]? = some u →
      u.task = some k → j = i ∧ k = s.accepted ∨
        j ≠ i ∧ k < s.accepted ∧ s.threads[j]? = some u := by
    intro j u k hu hk
    obtain ⟨u₀, hu₀, rfl⟩ := getElem?_accept hu
    split_ifs at hk hu ⊢ with hij
    · exact .inl ⟨hij.symm, (Option.some.inj hk).symm⟩
    · exact .inr ⟨Ne.symm hij, h.accepted_of_task j u₀ k hu₀ hk, hu₀⟩
  refine ⟨fun j u hu => ?_, fun j j' u u' k hu hu' hk hk' => ?_, fun j u k hu hk => ?_,
    fun j u k hu hk hun => ?_, h.nodup, fun k hk => ?_, h.shutdown_of_destroyed⟩
  · obtain ⟨u₀, hu₀, rfl⟩ := getElem?_accept hu
    split_ifs with hij
    · obtain rfl : t = u₀ := Option.some.inj (ht.symm.trans (hij ▸ hu₀))
      exact (h.thread i t ht).give hl huse hexit
    · exact h.thread j u₀ hu₀
  · rcases hnum j u k hu hk with ⟨rfl, hka⟩ | ⟨-, hlt, hold⟩ <;>
      rcases hnum j' u' k hu' hk' with ⟨rfl, hka'⟩ | ⟨-, hlt', hold'⟩
    · rfl
    · omega
    · omega
    · exact h.distinct j j' u u' k hold hold' hk hk'
  · rcases hnum j u k hu hk with ⟨-, rfl⟩ | ⟨-, hlt, -⟩
    · exact Nat.lt_succ_self _
    · exact Nat.lt_succ_of_lt hlt
  · rcases hnum j u k hu hk with ⟨-, rfl⟩ | ⟨-, -, hold⟩
    · exact fun hmem => Nat.lt_irrefl _ (h.accepted_of_executed _ hmem)
    · exact h.uncalled j u k hold hk hun
  · exact Nat.lt_succ_of_lt (h.accepted_of_executed k hk)

theorem getElem?_ask {threads : List PoolThread}
    (ht : ∀ j : ℕ, threads[j]? =
      (s.threads[j]?).map fun t => if s.Asks j t e then t.askToExit else t)
    (h : threads[j]? = some u) :
    ∃ t, s.threads[j]? = some t ∧ u.task = t.task ∧ u.phase = t.phase ∧
      (s.Asks j t e ∧ u = t.askToExit ∨ ¬ s.Asks j t e ∧ u = t) := by
  rw [ht] at h
  obtain ⟨t, ht, rfl⟩ := Option.map_eq_some_iff.1 h
  refine ⟨t, ht, ?_⟩
  split_ifs with ha
  · exact ⟨rfl, rfl, .inl ⟨ha, rfl⟩⟩
  · exact ⟨rfl, rfl, .inr ⟨ha, rfl⟩⟩

theorem Valid.ask {threads : List PoolThread} {shutdown : Bool} (h : s.Valid)
    (ht : ∀ j : ℕ, threads[j]? =
      (s.threads[j]?).map fun t => if s.Asks j t e then t.askToExit else t)
    (hs : shutdown = s.shutdown ∨
      shutdown = true ∧ ∀ j t, PoolThread.Listed t → s.Asks j t e) :
    Valid { s with threads, shutdown } := by
  refine ⟨fun j u hu => ?_, fun j j' u u' k hu hu' hk hk' => ?_, fun j u k hu hk => ?_,
    fun j u k hu hk hun => ?_, h.nodup, h.accepted_of_executed,
    fun hd => ?_⟩
  · obtain ⟨t, ht, -, -, ⟨-, rfl⟩ | ⟨ha, rfl⟩⟩ := getElem?_ask ht hu
    · exact (h.thread j t ht).askToExit shutdown
    · rcases hs with rfl | ⟨-, hs⟩
      · exact h.thread j u ht
      · exact (h.thread j u ht).of_not_listed (fun hl => ha (hs j u hl)) shutdown
  · obtain ⟨t, ht₁, htask, -⟩ := getElem?_ask ht hu
    obtain ⟨t', ht₂, htask', -⟩ := getElem?_ask ht hu'
    exact h.distinct j j' t t' k ht₁ ht₂ (htask ▸ hk) (htask' ▸ hk')
  · obtain ⟨t, ht₁, htask, -⟩ := getElem?_ask ht hu
    exact h.accepted_of_task j t k ht₁ (htask ▸ hk)
  · obtain ⟨t, ht₁, htask, hphase, -⟩ := getElem?_ask ht hu
    refine h.uncalled j t k ht₁ (htask ▸ hk) ?_
    rwa [PoolThread.Uncalled, hphase] at hun
  · rcases hs with rfl | ⟨rfl, -⟩
    · exact h.shutdown_of_destroyed hd
    · rfl

theorem Valid.destroy (h : s.Valid) (hs : s.shutdown = true) :
    Valid { s with destroyed := true } :=
  ⟨h.thread, h.distinct, h.accepted_of_task, h.uncalled, h.nodup, h.accepted_of_executed,
    fun _ => hs⟩

theorem Valid.run (h : s.Valid) (ht : s.threads[i]? = some t)
    (hr : t.run s.destroyed = some t') :
    Valid
      { s with threads := s.threads.set i t', executed := t.calls.toList ++ s.executed } := by
  have hset := getElem?_set_of_some ht t'
  -- every task in a slot was in the slot of the same thread
  have hold : ∀ (j : ℕ) (u : PoolThread) (k : ℕ), (s.threads.set i t')[j]? = some u →
      u.task = some k → ∃ v, s.threads[j]? = some v ∧ v.task = some k ∧
        (j = i ∧ u = t' ∨ j ≠ i ∧ u = v) := by
    intro j u k hu hk
    rw [hset] at hu
    split_ifs at hu with hj
    · obtain rfl := Option.some.inj hu
      subst hj
      exact ⟨t, ht, task_run hr hk, .inl ⟨rfl, rfl⟩⟩
    · exact ⟨u, hu, hk, .inr ⟨hj, rfl⟩⟩
  refine ⟨fun j u hu => ?_, fun j j' u u' k hu hu' hk hk' => ?_, fun j u k hu hk => ?_,
    fun j u k hu hk hun => ?_, ?_, fun k hk => ?_, h.shutdown_of_destroyed⟩
  · simp only [hset] at hu
    split_ifs at hu
    · obtain rfl := Option.some.inj hu
      exact (h.thread i t ht).run h.shutdown_of_destroyed hr
    · exact h.thread j u hu
  · obtain ⟨v, hv, hvk, -⟩ := hold j u k hu hk
    obtain ⟨v', hv', hvk', -⟩ := hold j' u' k hu' hk'
    exact h.distinct j j' v v' k hv hv' hvk hvk'
  · obtain ⟨v, hv, hvk, -⟩ := hold j u k hu hk
    exact h.accepted_of_task j v k hv hvk
  · obtain ⟨v, hv, hvk, ⟨rfl, rfl⟩ | ⟨hj, rfl⟩⟩ := hold j u k hu hk
    · obtain rfl : t = v := Option.some.inj (ht.symm.trans hv)
      obtain ⟨hcalls, hun⟩ := uncalled_run hr hun hk
      simpa [hcalls] using h.uncalled j t k hv hvk hun
    · rw [List.mem_append, not_or]
      refine ⟨fun hmem => hj ?_, h.uncalled j u k hv hvk hun⟩
      have htk := (calls_eq_some (Option.mem_toList.1 hmem)).2
      exact h.distinct j i u t k hv ht hvk htk
  · cases hcalls : t.calls with
    | none => exact h.nodup
    | some k =>
      obtain ⟨hp, htk⟩ := calls_eq_some hcalls
      exact List.nodup_cons.2 ⟨h.uncalled i t k ht htk (.inr (.inr hp)), h.nodup⟩
  · rcases List.mem_append.1 hk with hk | hk
    · exact h.accepted_of_task i t k ht (calls_eq_some (Option.mem_toList.1 hk)).2
    · exact h.accepted_of_executed k hk

theorem Valid.step (h : s.Valid) (hstep : s.step e = some s') : s'.Valid := by
  cases change_of_step hstep with
  | spawn new hnew hs => exact h.spawn hnew hs
  | hand i t ht hl huse hexit => exact h.hand ht hl huse hexit
  | ask threads shutdown ht hs => exact h.ask ht hs
  | destroy hs => exact h.destroy hs
  | run i t t' ht hr => exact h.run ht hr

theorem valid_empty : empty.Valid := by
  constructor <;> simp [empty]

/-! ## Tasks that are not lost -/

theorem Valid.runsOnce_iff (h : s.Valid) : s.RunsOnce ↔ ∀ k < s.accepted, k ∈ s.executed ∨
    ∃ (i : ℕ) (t : PoolThread), s.threads[i]? = some t ∧ t.task = some k ∧
      t.GoesOn s.destroyed :=
  ⟨RunsOnce.goesOn, fun hg => ⟨h.nodup, fun i t k ht hp => (h.thread i t ht).running k hp, hg⟩⟩

/-- A thread that is asked to exit in its loop still calls its task. -/
theorem goesOn_askToExit {destroyed : Bool} (h : t.GoesOn destroyed) (hp : t.phase ≠ .spawned) :
    t.askToExit.GoesOn destroyed :=
  .inr (h.resolve_left fun ⟨hs, _⟩ => hp hs)

theorem runsOnce_ask_iff {threads : List PoolThread} {shutdown : Bool} (h : s.Valid)
    (hP : s.RunsOnce)
    (ht : ∀ j : ℕ, threads[j]? =
      (s.threads[j]?).map fun t => if s.Asks j t e then t.askToExit else t)
    (hs : shutdown = s.shutdown ∨
      shutdown = true ∧ ∀ j t, PoolThread.Listed t → s.Asks j t e) :
    RunsOnce { s with threads, shutdown } ↔ s.Regular e := by
  rw [(h.ask ht hs).runsOnce_iff]
  constructor
  · intro hg i _ t hti hask hp
    rw [Option.mem_def] at hti
    by_contra htask
    obtain ⟨k, hk⟩ := Option.ne_none_iff_exists'.1 htask
    have hun := h.uncalled i t k hti hk (.inl hp)
    obtain ⟨j, u, hu, huk, hgo⟩ := (hg k (h.accepted_of_task i t k hti hk)).resolve_left hun
    obtain ⟨t₁, ht₁, htask₁, hphase₁, hor⟩ := getElem?_ask ht hu
    -- the task is on no other thread, and this one leaves instead of entering its loop
    obtain rfl := h.distinct i j t t₁ k hti ht₁ hk (htask₁ ▸ huk)
    obtain rfl : t = t₁ := Option.some.inj (hti.symm.trans ht₁)
    rcases hor with ⟨-, rfl⟩ | ⟨hno, -⟩
    · simp [PoolThread.GoesOn, PoolThread.askToExit, hp] at hgo
    · exact hno hask
  · intro hreg k hk
    rcases hP.goesOn k hk with hmem | ⟨i, t, hti, htk, hgo⟩
    · exact .inl hmem
    · refine .inr ⟨i, _, by rw [ht, hti]; rfl, ?_⟩
      dsimp only
      split_ifs with hask
      · obtain ⟨hlt, -⟩ := List.getElem?_eq_some_iff.1 hti
        refine ⟨htk, goesOn_askToExit hgo fun hp => ?_⟩
        cases htk.symm.trans (hreg i hlt t hti hask hp)
      · exact ⟨htk, hgo⟩

theorem runsOnce_spawn {new : List PoolThread} (hP : s.RunsOnce) (h : Valid
    { s with threads := s.threads ++ new }) :
    RunsOnce { s with threads := s.threads ++ new } := by
  refine h.runsOnce_iff.2 fun k hk => (hP.goesOn k hk).imp_right ?_
  rintro ⟨i, t, ht, htk, hgo⟩
  obtain ⟨hlt, -⟩ := List.getElem?_eq_some_iff.1 ht
  exact ⟨i, t, by rw [List.getElem?_append_left hlt, ht], htk, hgo⟩

theorem runsOnce_hand (h : s.Valid) (hP : s.RunsOnce) (ht : s.threads[i]? = some t)
    (hl : t.Listed) (huse : t.inUse = false) (hexit : t.exitThread = false) :
    (s.accept i).RunsOnce := by
  have hv := h.thread i t ht
  have hget : ∀ j : ℕ, (s.accept i).threads[j]? =
      (s.threads[j]?).map fun u => if i = j then u.give s.accepted else u :=
    fun j => List.getElem?_modify _ _ _ _
  refine (h.hand ht hl huse hexit).runsOnce_iff.2 fun k hk => ?_
  rcases Nat.lt_succ_iff_lt_or_eq.1 hk with hk | rfl
  · rcases hP.goesOn k hk with hmem | ⟨j, u, hu, huk, hgo⟩
    · exact .inl hmem
    · have hij : i ≠ j := by
        rintro rfl
        obtain rfl : t = u := Option.some.inj (ht.symm.trans hu)
        simpa [huk, huse] using hv.inUse_eq
      exact .inr ⟨j, u, by simp [hget, hu, hij], huk, hgo⟩
  · refine .inr ⟨i, t.give s.accepted, by simp [hget, ht], rfl, ?_⟩
    rcases hv.uncalled_of_free hl huse hexit with hp | hp
    · have hdes : s.destroyed = false := by
        by_contra hd
        have hsh := h.shutdown_of_destroyed (by simpa using hd)
        simpa [hexit] using hv.exit_of_shutdown hsh hl
      exact .inl ⟨hp, hexit, hdes⟩
    · exact .inr (.inl hp)

theorem runsOnce_destroy (h : s.Valid) (hP : s.RunsOnce) (hs : s.shutdown = true) :
    RunsOnce { s with destroyed := true } := by
  refine (h.destroy hs).runsOnce_iff.2 fun k hk => (hP.goesOn k hk).imp_right ?_
  rintro ⟨i, t, ht, htk, hgo⟩
  refine ⟨i, t, ht, htk, .inr (hgo.resolve_left ?_)⟩
  rintro ⟨hp, hexit, -⟩
  simpa [hexit] using (h.thread i t ht).exit_of_shutdown hs (by simp [PoolThread.Listed, hp])

/-- How far a thread that goes on is from its task. -/
def distance (t : PoolThread) : ℕ :=
  match t.phase with
  | .spawned => 2
  | .waiting => 1
  | _ => 0

/-- The own steps of a thread that goes on: it calls its task or comes nearer to it. -/
theorem goesOn_run {destroyed : Bool} (hg : t.GoesOn destroyed) (hk : t.task = some k)
    (hr : t.run destroyed = some t') :
    t.calls = some k ∨
      t'.task = some k ∧ t'.GoesOn destroyed ∧ distance t' < distance t := by
  rcases hg with ⟨hp, hexit, hd⟩ | hp | hp
  · simp only [PoolThread.run, hp, hexit, hd] at hr
    cases hr
    exact .inr ⟨hk, .inr (.inl rfl), by simp [distance, hp]⟩
  · simp only [PoolThread.run, hp] at hr
    split_ifs at hr
    cases hr
    exact .inr ⟨hk, .inr (.inr rfl), by simp [distance, hp]⟩
  · exact .inl (by simp [PoolThread.calls, hp, hk])

/-- A thread that goes on is not blocked. -/
theorem exists_run (h : t.Valid s.shutdown) (hk : t.task = some k) (hg : t.GoesOn s.destroyed) :
    ∃ t', t.run s.destroyed = some t' := by
  rcases hg with ⟨hp, -⟩ | hp | hp
  · exact ⟨_, by rw [PoolThread.run, hp]⟩
  · have hsem := h.sem_of_task (by simp [hk]) (.inr hp)
    exact ⟨_, by rw [PoolThread.run, hp]; exact if_pos hsem⟩
  · exact ⟨_, by rw [PoolThread.run, hp]⟩

theorem runsOnce_run (h : s.Valid) (hP : s.RunsOnce) (ht : s.threads[i]? = some t)
    (hr : t.run s.destroyed = some t') : RunsOnce
      { s with threads := s.threads.set i t', executed := t.calls.toList ++ s.executed } := by
  refine (h.run ht hr).runsOnce_iff.2 fun k hk => ?_
  have hset := getElem?_set_of_some ht t'
  rcases hP.goesOn k hk with hmem | ⟨j, u, hu, huk, hgo⟩
  · exact .inl (List.mem_append_right _ hmem)
  · by_cases hj : j = i
    · subst hj
      obtain rfl : t = u := Option.some.inj (ht.symm.trans hu)
      rcases goesOn_run hgo huk hr with hcalls | ⟨htk, hgo, -⟩
      · exact .inl (by simp [hcalls])
      · exact .inr ⟨j, t', by simp [hset], htk, hgo⟩
    · exact .inr ⟨j, u, by simp [hset, hj, hu], huk, hgo⟩

theorem runsOnce_step_iff (h : s.Valid) (hP : s.RunsOnce) (hstep : s.step e = some s') :
    s'.RunsOnce ↔ s.Regular e := by
  have hreg : (∀ i t, ¬ s.Asks i t e) → s.Regular e :=
    fun he i _ t _ hask => absurd hask (he i t)
  have hv := h.step hstep
  cases change_of_step hstep with
  | spawn new hnew hs he => exact iff_of_true (runsOnce_spawn hP hv) (hreg he)
  | hand i t ht hl huse hexit he =>
    exact iff_of_true (runsOnce_hand h hP ht hl huse hexit) (hreg he)
  | ask threads shutdown ht hs => exact runsOnce_ask_iff h hP ht hs
  | destroy hs he => exact iff_of_true (runsOnce_destroy h hP hs) (hreg he)
  | run i t t' ht hr he => exact iff_of_true (runsOnce_run h hP ht hr) (hreg he)

/-! ## Runs of the pool -/

theorem step_run (ht : s.threads[i]? = some t) (hr : t.run s.destroyed = some t') :
    s.step (.run i) = some
      { s with threads := s.threads.set i t', executed := t.calls.toList ++ s.executed } := by
  simp [step, ht, hr]

/-- A thread that goes on calls its task by its own next steps. -/
theorem exists_exec_of_goesOn (h : s.Valid) (ht : s.threads[i]? = some t) (hk : t.task = some k)
    (hg : t.GoesOn s.destroyed) : ∃ n s', exec step s (List.replicate n (.run i)) = some s' ∧
      k ∈ s'.executed := by
  induction hd : distance t using Nat.strongRecOn generalizing s t with
  | _ d ih =>
    obtain ⟨t', hr⟩ := exists_run (h.thread i t ht) hk hg
    have hstep := step_run ht hr
    rcases goesOn_run hg hk hr with hcalls | ⟨hk', hg', hlt⟩
    · exact ⟨1, _, by rw [List.replicate_one, exec, hstep]; rfl, by simp [hcalls]⟩
    · have ht' : (s.threads.set i t')[i]? = some t' := by
        rw [getElem?_set_of_some ht, if_pos rfl]
      obtain ⟨n, s', he, hmem⟩ := ih _ (hd ▸ hlt) (h.step hstep) ht' hk' hg' rfl
      exact ⟨n + 1, s', by rw [List.replicate_succ, exec, hstep]; exact he, hmem⟩

/-- In every run, the accepted tasks are called exactly once as long as all steps are regular. A
task that was not called then is on a thread whose own next steps call it. -/
theorem runsOnce_iff_meets {tr : List (ThreadPool × Event)} {s : ThreadPool}
    (h : Run step empty tr s) :
    (Always RunsOnce tr s ↔ Meets Regular tr) ∧
      (RunsOnce s → ∀ k < s.accepted, k ∉ s.executed → ∃ i n s',
        exec step s (List.replicate n (.run i)) = some s' ∧ k ∈ s'.executed) := by
  constructor
  · refine h.always_iff_meets valid_empty (fun s e t hv he => hv.step he) ?_
      fun s e t hv hP he => runsOnce_step_iff hv hP he
    exact valid_empty.runsOnce_iff.2 fun k hk => absurd hk (Nat.not_lt_zero k)
  · intro hP k hk hmem
    have hv : s.Valid := h.invariant valid_empty fun s e t hv he => hv.step he
    obtain ⟨i, t, ht, htk, hg⟩ := (hP.goesOn k hk).resolve_left hmem
    exact ⟨i, exists_exec_of_goesOn hv ht htk hg⟩

/-- A task that is handed to a thread in its loop, and a shutdown before the thread sees it. -/
theorem runsOnce_iff_meets_waiting :
    ∃ tr s, Run step empty tr s ∧
      tr.map Prod.snd = [.run 0, .run 0, .run 0, .run 0, .checkAndPrepareShutdown, .addTask,
        .run 0, .addGeneralThreads 1] ∧
      Always RunsOnce tr s ∧ s.executed = [0] := by
  have he : exec step empty [.addGeneralThreads 1, .run 0, .addTask, .checkAndPrepareShutdown,
      .run 0, .run 0, .run 0, .run 0] = some _ := rfl
  have hrun := run_trace he
  exact ⟨_, _, hrun, rfl, (runsOnce_iff_meets hrun).1.2 (by decide +kernel), rfl⟩

/-- The thread has not taken its first lock when it is given a task and asked to exit. -/
theorem not_runsOnce_spawned :
    ∃ tr s, Run step empty tr s ∧
      tr.map Prod.snd =
        [.run 0, .checkAndPrepareShutdown, .addTask, .addGeneralThreads 1] ∧
      s.accepted = 1 ∧ s.executed = [] ∧ (∀ t ∈ s.threads, t.phase = .left) ∧
      ¬ Always RunsOnce tr s := by
  have he : exec step empty [.addGeneralThreads 1, .addTask, .checkAndPrepareShutdown, .run 0] =
    some ⟨[⟨none, true, some 0, true, true, .left⟩], true, false, 1, []⟩ := rfl
  refine ⟨_, _, run_trace he, rfl, rfl, rfl, by decide, fun h => ?_⟩
  rcases h.2.goesOn 0 (by decide) with hmem | ⟨i, t, ht, -, hg⟩
  · cases hmem
  · rw [List.mem_singleton.1 (List.mem_of_getElem? ht)] at hg
    simp [PoolThread.GoesOn] at hg

end ThreadPool

end PersonalCloud.SyncConfig
