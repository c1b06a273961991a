import PersonalCloud.StorageNode.OplockExclusive
import PersonalCloud.StorageNode.Requests

/-!
# Waiting for locks

A request that is parked gets no answer until the file requeues it, so whoever removes the
last lock that refuses it has to wake it. Range locks are dropped one at a time or by origin
or object, and each way wakes the waiters whose range meets the freed one. Dropped oplocks
wake all the waiters. But an object may also trade its oplock for a weaker one, and
`setOplock` then changes the mode in place and wakes nobody: a read that waited for the write
cache to go stays parked although nothing refuses it any more. `neverStranded_iff` says that
this is the only way.

## Main results

* `VssFile.LocksHold.handle`, `VssFile.LocksHold.removeObject` — who waits for a range lock
  is refused by one that is held.
* `neverStranded_iff` — a run strands no request exactly when no object gives up the write
  cache in place while a read waits.
-/

namespace PersonalCloud.StorageNode

open PersonalCloud.Lib

/-- Whether the oplock stands in the way of the request. -/
def Request.refusedBy (l : Oplock) : Request → Bool
  | .readFile object _ _ _ => l.needToBreak object false
  | .writeFile object _ _ _ | .truncateFile object _ _ => l.needToBreak object true
  | .setLockRange object _ _ _ _ _ => l.needToBreak object true
  | _ => false

def Request.isRead : Request → Bool
  | .readFile .. => true
  | _ => false

/-- Trading an oplock for one with another cache mode lets the request pass exactly if it is
a read and the new mode has no write bit. -/
theorem Request.refusedBy_trade {r : Request} {l l' : Oplock} (h : r.refusedBy l)
    (ho : l'.object = l.object) (hc : l'.Caches) :
    r.refusedBy l' = false ↔
      r.isRead ∧ hasBit l'.mode VSSI_FILE_LOCK_CACHE_WRITE = false := by
  unfold Oplock.Caches at hc
  cases r <;> simp only [refusedBy, isRead, Oplock.needToBreak] at h ⊢ <;> grind

/-- Only an oplock with the write bit refuses a read. -/
theorem Request.hasBit_of_refusedBy_read {r : Request} {l : Oplock} (h : r.refusedBy l)
    (hr : r.isRead) : hasBit l.mode VSSI_FILE_LOCK_CACHE_WRITE := by
  cases r <;> simp only [refusedBy, isRead, Oplock.needToBreak] at h hr <;> grind

theorem Flock.overlaps_of_lockConflicts {l : Flock} {origin : Origin} {mode : UInt64}
    {start stop : Nat} (h : l.lockConflicts origin mode start stop) :
    VssFile.rangeOverlap l.start l.stop start stop := by
  unfold lockConflicts overlaps at h
  unfold VssFile.rangeOverlap
  grind

namespace VssFile

variable {f g : VssFile} {waiting : Context → Option Request}

/-- What decides who waits for whom. -/
def lockState (f : VssFile) : List Flock × List BrlockWait × List Oplock × List OplockWait :=
  (f.locks, f.brlockQueue, f.oplocks, f.oplockQueue)

theorem lockState_eq_iff : g.lockState = f.lockState ↔
    g.locks = f.locks ∧ g.brlockQueue = f.brlockQueue ∧ g.oplocks = f.oplocks ∧
      g.oplockQueue = f.oplockQueue := by
  simp [lockState]

section Frame

variable (f : VssFile) (object : ObjectPtr) (origin : Origin) (flags : UInt32)

@[simp] theorem lockState_checkOplockConflict (write : Bool) :
    (f.checkOplockConflict object write).2.lockState = f.lockState := rfl

@[simp] theorem lockState_addReference : (f.addReference flags).2.lockState = f.lockState := by
  unfold addReference
  split <;> rfl

@[simp] theorem lockState_addObject : (f.addObject object).lockState = f.lockState := by
  unfold addObject
  split <;> rfl

@[simp] theorem lockState_addOrigin : (f.addOrigin origin flags).lockState = f.lockState := rfl

@[simp] theorem lockState_addOpenOrigin : (f.addOpenOrigin origin).lockState = f.lockState := rfl

@[simp] theorem lockState_removeOpenOrigin :
    (f.removeOpenOrigin origin).lockState = f.lockState := rfl

@[simp] theorem lockState_dropObjectRef :
    (f.dropObjectRef object).2.lockState = f.lockState := by
  unfold dropObjectRef
  split
  · rfl
  · split <;> rfl

@[simp] theorem lockState_eraseObjectRefs :
    (f.eraseObjectRefs object).2.lockState = f.lockState := by
  unfold eraseObjectRefs
  split <;> rfl

@[simp] theorem lockState_openAgain :
    (f.openAgain object origin flags).2.lockState = f.lockState := by
  simp only [openAgain]
  split_ifs <;> simp

@[simp] theorem lockState_checkIo (mode : UInt64) (start stop : Nat) (write : Bool) :
    (f.checkIo object origin mode start stop write).2.lockState = f.lockState := by
  simp only [checkIo]
  split_ifs <;> simp

@[simp] theorem lockState_writeFile (offset length remainingSpace : Nat) :
    (f.writeFile object origin offset length remainingSpace).2.lockState = f.lockState := by
  simp only [writeFile]
  split_ifs <;> simp

end Frame

/-- Dropping a reference frees the locks of the descriptor, and then maybe the oplocks. -/
theorem removeReference_induction {P : VssFile → Prop} {object : ObjectPtr} {origin : Origin}
    (hcongr : ∀ {g g' : VssFile}, P g → g'.lockState = g.lockState → P g')
    (hremove : ∀ {g : VssFile}, P g → P (g.removeOplocks object).2)
    (h : P (f.releaseBrlocks origin)) : P (f.removeReference object origin).2 := by
  let dropped := (f.releaseBrlocks origin).dropObjectRef object
  have hdrop : P dropped.2 := hcongr h (lockState_dropObjectRef ..)
  have herase : P { dropped.2 with originFlags := dropped.2.originFlags.erase origin } :=
    hcongr hdrop rfl
  simp only [VssFile.removeReference]
  split_ifs
  · exact hcongr (hremove herase) rfl
  · exact hcongr (hremove herase) rfl
  · exact hcongr herase rfl
  · exact hcongr herase rfl

/-! ### Waiting for a range lock -/

/-- Who waits for a range lock is refused by one that is held. -/
def LocksHold (waiting : Context → Option Request) (f : VssFile) : Prop :=
  ∀ w ∈ f.brlockQueue,
    (∃ object flags, waiting w.context =
      some (.setLockRange object w.origin flags w.mode w.start w.stop)) ∧
    ∃ l ∈ f.locks, l.lockConflicts w.origin w.mode w.start w.stop

theorem LocksHold.mono {waiting' : Context → Option Request} (h : f.LocksHold waiting)
    (hw : ∀ context request, waiting context = some request → waiting' context = some request) :
    f.LocksHold waiting' := by
  intro w hm
  obtain ⟨⟨object, flags, hasks⟩, hl⟩ := h w hm
  exact ⟨⟨object, flags, hw _ _ hasks⟩, hl⟩

theorem LocksHold.congr (h : f.LocksHold waiting) (he : g.lockState = f.lockState) :
    g.LocksHold waiting := by
  rw [lockState_eq_iff] at he
  simpa [LocksHold, he] using h

/-- Locks may go if every waiter that one of them may refuse goes too. -/
theorem LocksHold.of_freed (h : f.LocksHold waiting)
    (hq : ∀ w ∈ g.brlockQueue, w ∈ f.brlockQueue)
    (hl : ∀ w ∈ g.brlockQueue, ∀ l ∈ f.locks, l ∈ g.locks ∨
      rangeOverlap l.start l.stop w.start w.stop = false) : g.LocksHold waiting := by
  intro w hw
  obtain ⟨hasks, l, hm, hc⟩ := h w (hq w hw)
  refine ⟨hasks, l, ?_, hc⟩
  rcases hl w hw l hm with hm | hno
  · exact hm
  · exact absurd (Flock.overlaps_of_lockConflicts hc) (by simp [hno])

theorem LocksHold.wakeAll (f : VssFile) : f.wakeAll.LocksHold waiting := by
  intro w hw
  exact absurd hw (by simp [VssFile.wakeAll])

theorem LocksHold.removeRangeLock (h : f.LocksHold waiting) (origin : Origin) (mode : UInt64)
    (start stop : Nat) : (f.removeRangeLock origin mode start stop).2.LocksHold waiting := by
  unfold VssFile.removeRangeLock
  split_ifs
  · refine h.of_freed ?_ ?_
    · intro w hw
      simp only [wakeRangeLock, List.mem_filter] at hw
      exact hw.1
    · intro w hw l hl
      simp only [wakeRangeLock, List.mem_filter] at hw ⊢
      -- the locks that go all have the freed range
      by_cases hm : l.isMatch origin mode start stop
      · right
        simp only [Flock.isMatch, decide_eq_true_eq] at hm
        simpa [hm] using hw.2
      · left
        simp [hl, hm]
  · exact h

theorem brlockQueue_foldl_wakeRangeLock (ls : List Flock) (f : VssFile) :
    (ls.foldl (fun g l => g.wakeRangeLock l.start l.stop) f).brlockQueue =
      f.brlockQueue.filter fun w =>
        ls.all fun l => !rangeOverlap l.start l.stop w.start w.stop := by
  induction ls generalizing f with
  | nil => simp
  | cons l ls ih =>
    rw [List.foldl_cons, ih]
    simp [wakeRangeLock, List.filter_filter, Bool.and_comm]

theorem oplockQueue_foldl_wakeRangeLock (ls : List Flock) (f : VssFile) :
    (ls.foldl (fun g l => g.wakeRangeLock l.start l.stop) f).oplockQueue = f.oplockQueue := by
  induction ls generalizing f with
  | nil => rfl
  | cons l ls ih => exact ih (f.wakeRangeLock l.start l.stop)

theorem LocksHold.releaseBrlocks (h : f.LocksHold waiting) (origin : Origin) :
    (f.releaseBrlocks origin).LocksHold waiting := by
  have hq : (f.releaseBrlocks origin).brlockQueue = f.brlockQueue.filter fun w =>
      (f.locks.filter fun l => l.origin = origin).all fun l =>
        !rangeOverlap l.start l.stop w.start w.stop := by
    simp only [VssFile.releaseBrlocks, brlockQueue_foldl_wakeRangeLock]
  refine h.of_freed ?_ ?_
  · intro w hw
    rw [hq] at hw
    exact List.mem_of_mem_filter hw
  · intro w hw l hl
    rw [hq, List.mem_filter] at hw
    rw [locks_releaseBrlocks]
    by_cases ho : l.origin = origin
    · right
      have hall := List.all_eq_true.1 hw.2 l (by simp [hl, ho])
      simpa using hall
    · left
      simp [hl, ho]

theorem LocksHold.removeOplocks (h : f.LocksHold waiting) (object : ObjectPtr) :
    (f.removeOplocks object).2.LocksHold waiting := by
  unfold VssFile.removeOplocks
  split_ifs <;> exact h

theorem LocksHold.removeReference (h : f.LocksHold waiting) (object : ObjectPtr)
    (origin : Origin) : (f.removeReference object origin).2.LocksHold waiting :=
  removeReference_induction (fun h => h.congr) (fun h => h.removeOplocks object)
    (h.releaseBrlocks origin)

theorem LocksHold.addRangeLock (h : f.LocksHold waiting) (object : ObjectPtr) (origin : Origin)
    (mode : UInt64) (start stop : Nat) :
    (f.addRangeLock object origin mode start stop).2.LocksHold waiting := by
  unfold VssFile.addRangeLock
  split_ifs
  · exact h
  · exact h.of_freed (fun w hw => hw) (fun w _ l hl => .inl (List.mem_cons_of_mem _ hl))

theorem LocksHold.setLockRange (h : f.LocksHold waiting) (object : ObjectPtr) (origin : Origin)
    (flags : UInt32) (mode : UInt64) (start stop : Nat) :
    (f.setLockRange object origin flags mode start stop).2.LocksHold waiting := by
  rw [snd_setLockRange]
  split_ifs
  · exact h
  · exact h
  · exact h.removeRangeLock _ _ _ _
  · exact h
  · have hcheck : (f.checkOplockConflict object true).2.LocksHold waiting :=
      h.congr (lockState_checkOplockConflict ..)
    exact hcheck.addRangeLock _ _ _ _ _
  · exact h

/-- A request is told to wait for a range lock only when one refuses it. -/
theorem exists_lockConflicts_of_waitlock {object : ObjectPtr} {origin : Origin} {flags : UInt32}
    {mode : UInt64} {start stop : Nat}
    (h : (f.setLockRange object origin flags mode start stop).1 = .waitlock) :
    (f.setLockRange object origin flags mode start stop).2.lockState = f.lockState ∧
      ∃ l ∈ f.locks, l.lockConflicts origin mode start stop := by
  simp only [VssFile.setLockRange, VssFile.addRangeLock] at h ⊢
  split_ifs at h ⊢ <;> simp_all

/-- A request is told to try again only when an oplock stands in its way. -/
theorem exists_needToBreak_of_retry {object : ObjectPtr} {origin : Origin} {flags : UInt32}
    {mode : UInt64} {start stop : Nat}
    (h : (f.setLockRange object origin flags mode start stop).1 = .retry) :
    (f.setLockRange object origin flags mode start stop).2.lockState = f.lockState ∧
      ∃ l ∈ f.oplocks, l.needToBreak object true := by
  simp only [VssFile.setLockRange, VssFile.addRangeLock] at h ⊢
  split_ifs at h ⊢
  simp_all [VssFile.checkOplockConflict, lockState]

theorem LocksHold.setOplock (h : f.LocksHold waiting) (object : ObjectPtr) (mode : UInt64) :
    (f.setOplock object mode).2.LocksHold waiting := by
  simp only [VssFile.setOplock]
  split_ifs
  · exact h
  · exact h.removeOplocks object
  · exact h
  · exact h
  · exact h

theorem LocksHold.orWaitOplock {r : Status × VssFile} (h : f.LocksHold waiting)
    (hr : r.2.lockState = f.lockState) (context : Context) (object : ObjectPtr) (write : Bool) :
    (orWaitOplock r context object write).2.LocksHold waiting := by
  have hsame : r.2.LocksHold waiting := h.congr hr
  unfold VssFile.orWaitOplock
  split_ifs
  · exact hsame
  · exact hsame

theorem LocksHold.waitBrlock (h : f.LocksHold waiting) {context : Context} {object : ObjectPtr}
    {origin : Origin} {flags : UInt32} {mode : UInt64} {start stop : Nat}
    (hw : waiting context = some (.setLockRange object origin flags mode start stop))
    (hl : ∃ l ∈ f.locks, l.lockConflicts origin mode start stop) :
    (f.waitBrlock context origin mode start stop).LocksHold waiting := by
  intro w hm
  rcases List.mem_append.1 hm with hm | hm
  · exact h w hm
  · obtain rfl := List.mem_singleton.1 hm
    exact ⟨⟨object, flags, hw⟩, hl⟩

theorem LocksHold.handle (h : f.LocksHold waiting) {context : Context} {request : Request}
    (hw : waiting context = some request) (remainingSpace : Nat) :
    (f.handle context remainingSpace request).2.LocksHold waiting := by
  cases request with
  | openFile object origin flags => exact h.congr (lockState_openAgain ..)
  | readFile object origin offset length =>
    simp only [VssFile.handle]
    split_ifs
    · exact h
    · exact h
    · exact h.orWaitOplock (lockState_checkIo ..) _ _ _
  | writeFile object origin offset length =>
    simp only [VssFile.handle]
    split_ifs
    · exact h
    · exact h
    · exact h.orWaitOplock (lockState_writeFile ..) _ _ _
  | truncateFile object origin offset =>
    simp only [VssFile.handle]
    split_ifs
    · exact h
    · exact h
    · exact h.orWaitOplock (lockState_checkIo ..) _ _ _
  | setLock object mode => exact h.setOplock object mode
  | getLock object => exact h
  | setLockRange object origin flags mode start stop =>
    simp only [VssFile.handle]
    split_ifs with h₀ hretry hwait
    · exact h
    · exact h.setLockRange object origin flags mode start stop
    · obtain ⟨hs, hl⟩ := exists_lockConflicts_of_waitlock hwait
      refine (h.congr hs).waitBrlock hw ?_
      rwa [(lockState_eq_iff.1 hs).1]
    · exact h.setLockRange object origin flags mode start stop
  | releaseFile object origin =>
    simp only [VssFile.handle]
    split_ifs
    · exact h
    · exact h.releaseBrlocks origin
  | closeFile object origin =>
    simp only [VssFile.handle, VssFile.closeFile]
    split_ifs
    · exact h
    · exact LocksHold.removeReference (f := f.removeOpenOrigin origin) h object origin
    · exact h

theorem LocksHold.removeObject (h : f.LocksHold waiting) (object : ObjectPtr) :
    (f.removeObject object).2.LocksHold waiting := by
  simp only [VssFile.removeObject]
  split_ifs with hremoved
  · exact LocksHold.wakeAll _
  · -- nothing was removed, so the object had no range lock
    simp only [Bool.or_eq_true, not_or, Bool.not_eq_true] at hremoved
    refine LocksHold.congr (h.removeOplocks object) ?_
    rw [lockState_eraseObjectRefs, lockState_eq_iff]
    refine ⟨?_, rfl, rfl, rfl⟩
    have hnone := hremoved.1.2
    simp only [VssFile.removeBrlocks, List.any_eq_false, decide_eq_true_eq] at hnone ⊢
    exact List.filter_eq_self.2 (by simpa using hnone)

/-! ### Waiting for an oplock -/

/-- Who waits for an oplock is refused by one that is held. -/
def OplocksHold (waiting : Context → Option Request) (f : VssFile) : Prop :=
  ∀ w ∈ f.oplockQueue, ∃ request, waiting w.context = some request ∧
    ∃ l ∈ f.oplocks, request.refusedBy l

theorem OplocksHold.mono {waiting' : Context → Option Request} (h : f.OplocksHold waiting)
    (hw : ∀ context request, waiting context = some request → waiting' context = some request) :
    f.OplocksHold waiting' := by
  intro w hm
  obtain ⟨request, hreq, hl⟩ := h w hm
  exact ⟨request, hw _ _ hreq, hl⟩

theorem OplocksHold.congr (h : f.OplocksHold waiting) (he : g.lockState = f.lockState) :
    g.OplocksHold waiting := by
  rw [lockState_eq_iff] at he
  simpa [OplocksHold, he] using h

theorem OplocksHold.of_nil (h : f.oplockQueue = []) : f.OplocksHold waiting := by
  simp [OplocksHold, h]

theorem OplocksHold.removeOplocks (h : f.OplocksHold waiting) (object : ObjectPtr) :
    (f.removeOplocks object).2.OplocksHold waiting := by
  unfold VssFile.removeOplocks
  split_ifs
  · exact .of_nil rfl
  · exact h

theorem oplockQueue_setLockRange (f : VssFile) (object : ObjectPtr) (origin : Origin)
    (flags : UInt32) (mode : UInt64) (start stop : Nat) :
    (f.setLockRange object origin flags mode start stop).2.oplockQueue = f.oplockQueue := by
  have hremove : (f.removeRangeLock origin mode start stop).2.oplockQueue = f.oplockQueue := by
    unfold VssFile.removeRangeLock
    split <;> rfl
  have hadd : ((f.checkOplockConflict object true).2.addRangeLock object origin mode start
      stop).2.oplockQueue = f.oplockQueue := by
    unfold VssFile.addRangeLock
    split <;> rfl
  rw [snd_setLockRange]
  split_ifs
  · rfl
  · rfl
  · exact hremove
  · rfl
  · exact hadd
  · rfl

theorem OplocksHold.releaseBrlocks (h : f.OplocksHold waiting) (origin : Origin) :
    (f.releaseBrlocks origin).OplocksHold waiting := by
  have hq : (f.releaseBrlocks origin).oplockQueue = f.oplockQueue := by
    simp only [VssFile.releaseBrlocks, oplockQueue_foldl_wakeRangeLock]
  simpa [OplocksHold, hq] using h

theorem OplocksHold.removeReference (h : f.OplocksHold waiting) (object : ObjectPtr)
    (origin : Origin) : (f.removeReference object origin).2.OplocksHold waiting :=
  removeReference_induction (fun h => h.congr) (fun h => h.removeOplocks object)
    (h.releaseBrlocks origin)

theorem OplocksHold.waitOplock (h : f.OplocksHold waiting) {context : Context}
    {request : Request} (hw : waiting context = some request)
    (hl : ∃ l ∈ f.oplocks, request.refusedBy l) (object : ObjectPtr) (write : Bool) :
    (f.waitOplock context object write).OplocksHold waiting := by
  intro w hm
  rcases List.mem_append.1 hm with hm | hm
  · exact h w hm
  · obtain rfl := List.mem_singleton.1 hm
    exact ⟨request, hw, hl⟩

theorem OplocksHold.removeObject (h : f.OplocksHold waiting) (object : ObjectPtr) :
    (f.removeObject object).2.OplocksHold waiting := by
  simp only [VssFile.removeObject]
  split_ifs
  · exact .of_nil rfl
  · have hbr : ((f.removeOplocks object).2.removeBrlocks object).2.OplocksHold waiting :=
      h.removeOplocks object
    exact hbr.congr (lockState_eraseObjectRefs ..)

theorem exists_needToBreak_of_checkIo {object : ObjectPtr} {origin : Origin} {mode : UInt64}
    {start stop : Nat} {write : Bool}
    (h : (f.checkIo object origin mode start stop write).1 = .retry) :
    ∃ l ∈ f.oplocks, l.needToBreak object write := by
  simp only [VssFile.checkIo] at h
  split_ifs at h with hlock hbreak
  simpa [VssFile.checkOplockConflict] using hbreak

theorem exists_needToBreak_of_writeFile {object : ObjectPtr} {origin : Origin}
    {offset length remainingSpace : Nat}
    (h : (f.writeFile object origin offset length remainingSpace).1 = .vssi .retry) :
    ∃ l ∈ f.oplocks, l.needToBreak object true := by
  simp only [VssFile.writeFile] at h
  split_ifs at h with hlock hspace hbreak
  · exact absurd h (by simp)
  · simpa [VssFile.checkOplockConflict] using hbreak
  · exact absurd h (by simp)

theorem OplocksHold.orWaitOplock {r : Status × VssFile} {context : Context} {request : Request}
    {object : ObjectPtr} {write : Bool} (h : f.OplocksHold waiting)
    (hr : r.2.lockState = f.lockState) (hw : waiting context = some request)
    (hl : r.1 = .vssi .retry → ∃ l ∈ f.oplocks, request.refusedBy l) :
    (orWaitOplock r context object write).2.OplocksHold waiting := by
  have hsame : r.2.OplocksHold waiting := h.congr hr
  unfold VssFile.orWaitOplock
  split_ifs with hretry
  · refine hsame.waitOplock hw ?_ object write
    rw [(lockState_eq_iff.1 hr).2.2.1]
    exact hl hretry
  · exact hsame

/-- The request is an oplock request that `setOplock` grants. -/
structure GrantsOplock (f : VssFile) (object : ObjectPtr) (mode : UInt64) : Prop where
  mask : ¬hasBit mode (~~~(VSSI_FILE_LOCK_CACHE_READ ||| VSSI_FILE_LOCK_CACHE_WRITE))
  nonzero : mode ≠ VSSI_FILE_LOCK_NONE
  locks : f.locks = []
  oplocks : f.NoneToBreak object mode

/-- A request other than a granted oplock request leaves no waiter behind. -/
theorem OplocksHold.handle (h : f.OplocksHold waiting) {context : Context} {request : Request}
    (hw : waiting context = some request) (remainingSpace : Nat)
    (hg : ∀ object mode, request = .setLock object mode → ¬f.GrantsOplock object mode) :
    (f.handle context remainingSpace request).2.OplocksHold waiting := by
  cases request with
  | openFile object origin flags => exact h.congr (lockState_openAgain ..)
  | readFile object origin offset length =>
    simp only [VssFile.handle]
    split_ifs
    · exact h
    · exact h
    · refine h.orWaitOplock (lockState_checkIo ..) hw fun hretry => ?_
      exact exists_needToBreak_of_checkIo (Status.vssi.inj hretry)
  | writeFile object origin offset length =>
    simp only [VssFile.handle]
    split_ifs
    · exact h
    · exact h
    · exact h.orWaitOplock (lockState_writeFile ..) hw exists_needToBreak_of_writeFile
  | truncateFile object origin offset =>
    simp only [VssFile.handle]
    split_ifs
    · exact h
    · exact h
    · refine h.orWaitOplock (lockState_checkIo ..) hw fun hretry => ?_
      exact exists_needToBreak_of_checkIo (Status.vssi.inj hretry)
  | setLock object mode =>
    simp only [VssFile.handle, VssFile.setOplock]
    split_ifs with hmask hnone hlocks hbreak
    · exact h
    · exact h.removeOplocks object
    · exact h
    · exact h
    · refine absurd ⟨hmask, hnone, not_not.1 hlocks, ?_⟩ (hg object mode rfl)
      simpa [NoneToBreak] using hbreak
  | getLock object => exact h
  | setLockRange object origin flags mode start stop =>
    have hkeep : (f.setLockRange object origin flags mode start stop).2.OplocksHold waiting := by
      simpa [OplocksHold, oplockQueue_setLockRange] using h
    simp only [VssFile.handle]
    split_ifs with h₀ hretry hwait
    · exact h
    · obtain ⟨hs, hl⟩ := exists_needToBreak_of_retry hretry
      refine hkeep.waitOplock hw ?_ object false
      rwa [(lockState_eq_iff.1 hs).2.2.1]
    · exact hkeep
    · exact hkeep
  | releaseFile object origin =>
    simp only [VssFile.handle]
    split_ifs
    · exact h
    · exact h.releaseBrlocks origin
  | closeFile object origin =>
    simp only [VssFile.handle, VssFile.closeFile]
    split_ifs
    · exact h
    · exact OplocksHold.removeReference (f := f.removeOpenOrigin origin) h object origin
    · exact h

/-! ### Trading an oplock -/

theorem snd_setOplock_of_grants {object : ObjectPtr} {mode : UInt64}
    (h : f.GrantsOplock object mode) :
    (f.setOplock object mode).2 = { f with oplocks := putOplock object mode f.oplocks } := by
  have hbreak : (f.oplocks.any fun l =>
      l.needToBreak object (hasBit mode VSSI_FILE_LOCK_CACHE_WRITE)) = false := by
    simpa [NoneToBreak] using h.oplocks
  simp [VssFile.setOplock, h.mask, h.nonzero, h.locks, hbreak]

/-- The object gives up the write cache, without dropping its oplock, while a read waits. -/
def StrandsRead (waiting : Context → Option Request) (f : VssFile) (object : ObjectPtr)
    (mode : UInt64) : Prop :=
  f.GrantsOplock object mode ∧ hasBit mode VSSI_FILE_LOCK_CACHE_WRITE = false ∧
    (∃ l ∈ f.oplocks, l.object = object ∧ hasBit l.mode VSSI_FILE_LOCK_CACHE_WRITE) ∧
    ∃ w ∈ f.oplockQueue, ∃ request, waiting w.context = some request ∧ request.isRead

/-- Which requests wait, and for what, decides whether a read is stranded. -/
theorem strandsRead_congr {waiting' : Context → Option Request} (h : f.OplocksHold waiting)
    (hw : ∀ context request, waiting context = some request → waiting' context = some request)
    (he : g.lockState = f.lockState) (object : ObjectPtr) (mode : UInt64) :
    g.StrandsRead waiting' object mode ↔ f.StrandsRead waiting object mode := by
  obtain ⟨hlocks, -, hoplocks, hqueue⟩ := lockState_eq_iff.1 he
  have hgrants : g.GrantsOplock object mode ↔ f.GrantsOplock object mode := by
    constructor
    · rintro ⟨hmask, hnonzero, hl, hb⟩
      exact ⟨hmask, hnonzero, hlocks ▸ hl, by simpa [NoneToBreak, hoplocks] using hb⟩
    · rintro ⟨hmask, hnonzero, hl, hb⟩
      exact ⟨hmask, hnonzero, hlocks.trans hl, by simpa [NoneToBreak, hoplocks] using hb⟩
  have hsame : ∀ w ∈ f.oplockQueue, waiting' w.context = waiting w.context := by
    intro w hm
    obtain ⟨request, hreq, -⟩ := h w hm
    rw [hreq, hw _ _ hreq]
  simp only [StrandsRead, hgrants, hoplocks, hqueue]
  grind

theorem OplocksHold.setOplock_iff {object : ObjectPtr} {mode : UInt64}
    (h : f.OplocksHold waiting) (hx : f.OplocksExclusive)
    (hg : f.GrantsOplock object mode) :
    (f.setOplock object mode).2.OplocksHold waiting ↔ ¬f.StrandsRead waiting object mode := by
  rw [snd_setOplock_of_grants hg]
  constructor
  · rintro hnew ⟨-, hweak, ⟨l, hl, rfl, hwrite⟩, w, hw, request, hreq, hread⟩
    obtain ⟨request', hreq', l', hl', href⟩ := hnew w hw
    obtain rfl : request = request' := by simpa [hreq] using hreq'
    rcases (mem_putOplock_iff hx.distinct).1 hl' with ⟨hl', hne⟩ | rfl
    · -- the oplock that could write was the only one
      exact hne (hx.alone l hl hwrite l' hl')
    · exact absurd (Request.hasBit_of_refusedBy_read href hread) (by simp [hweak])
  · intro hno w hw
    obtain ⟨request, hreq, l, hl, href⟩ := h w hw
    refine ⟨request, hreq, ?_⟩
    by_cases ho : l.object = object
    · refine ⟨⟨object, mode⟩, (mem_putOplock_iff hx.distinct).2 (.inr rfl), ?_⟩
      by_contra hpass
      rw [Bool.not_eq_true, Request.refusedBy_trade href ho.symm
        (Oplock.caches_of_mask hg.mask hg.nonzero)] at hpass
      have hwrite := Request.hasBit_of_refusedBy_read href hpass.1
      exact hno ⟨hg, hpass.2, ⟨l, hl, ho, hwrite⟩, w, hw, request, hreq, hpass.1⟩
    · exact ⟨l, (mem_putOplock_iff hx.distinct).2 (.inl ⟨hl, ho⟩), href⟩

end VssFile

/-! ## Runs -/

namespace Server

/-- Every parked request would be refused by a lock that is held. -/
structure NeverStranded (s : Server) : Prop where
  brlock : s.file.LocksHold s.waiting
  oplock : s.file.OplocksHold s.waiting

/-- The server handles an oplock request that gives up the write cache while a read waits. -/
def StrandsRead (s : Server) (e : ServerEvent) : Prop :=
  ∃ object mode, s.requested e = some (.setLock object mode) ∧
    s.file.StrandsRead s.waiting object mode

variable {s t : Server} {e : ServerEvent}

theorem Effect.neverStranded_step_iff (h : s.Effect e t) (hx : s.file.OplocksExclusive)
    (hs : s.NeverStranded) : t.NeverStranded ↔ ¬s.StrandsRead e := by
  cases h with
  | handled request context remainingSpace f hreq hbefore ht hlog hgone hc hmono =>
    have hf : f.lockState = s.file.lockState := by
      obtain ⟨requeued, rfl⟩ := hbefore
      rfl
    have hbr : f.LocksHold t.waiting := (hs.brlock.congr hf).mono hmono
    have hop : f.OplocksHold t.waiting := (hs.oplock.congr hf).mono hmono
    have hbr' : t.file.LocksHold t.waiting := ht ▸ hbr.handle hc remainingSpace
    have hiff : t.NeverStranded ↔ t.file.OplocksHold t.waiting :=
      ⟨fun h => h.oplock, fun h => ⟨hbr', h⟩⟩
    rw [hiff, ht]
    by_cases hg : ∃ object mode, request = .setLock object mode ∧ f.GrantsOplock object mode
    · obtain ⟨object, mode, rfl, hg⟩ := hg
      have hxf : f.OplocksExclusive := by
        have ho := (VssFile.lockState_eq_iff.1 hf).2.2.1
        exact hx.of_sublist (ho ▸ List.Sublist.refl _)
      refine (hop.setOplock_iff hxf hg).trans (not_congr ?_)
      rw [VssFile.strandsRead_congr hs.oplock hmono hf]
      simp [StrandsRead, hreq]
    · refine iff_of_true (hop.handle hc remainingSpace ?_) ?_
      · rintro object mode rfl hgrants
        exact hg ⟨object, mode, rfl, hgrants⟩
      · rintro ⟨object, mode, hreq', hstrands⟩
        obtain rfl : request = .setLock object mode := by simpa [hreq] using hreq'
        rw [← VssFile.strandsRead_congr hs.oplock hmono hf] at hstrands
        exact hg ⟨object, mode, rfl, hstrands.1⟩
  | expired context =>
    exact iff_of_true ⟨hs.brlock, hs.oplock⟩ (by simp [StrandsRead, requested])
  | released object =>
    refine iff_of_true ⟨?_, ?_⟩ (by simp [StrandsRead, requested])
    · exact hs.brlock.removeObject object
    · exact hs.oplock.removeObject object

/-- The two facts about oplocks that the rules of `setOplock` keep. -/
def OplocksSound (f : VssFile) : Prop :=
  f.OplocksCache ∧ f.OplocksExclusive

theorem Effect.oplocksSound (h : s.Effect e t) (hs : OplocksSound s.file) :
    OplocksSound t.file := by
  have happly : ∀ f op, OplocksSound f → OplocksSound (FileOp.apply f op) :=
    fun f op hf => ⟨hf.1.apply op, hf.2.apply hf.1 op⟩
  cases h with
  | handled request context remainingSpace f hreq hbefore ht hlog hgone hc hmono =>
    rw [ht]
    refine VssFile.handle_induction (fun g op _ => happly g op) ?_ _ _
    obtain ⟨requeued, rfl⟩ := hbefore
    exact ⟨hs.1, hs.2.of_sublist (.refl _)⟩
  | expired context => exact ⟨hs.1, hs.2.of_sublist (.refl _)⟩
  | released object => exact happly s.file (.removeObject object) hs

theorem lockState_opened (fileId : UInt32) (object : ObjectPtr) (origin : Origin)
    (flags : UInt32) : (opened fileId object origin flags).file.lockState = ([], [], [], []) := by
  simp only [opened, VssFile.opened, VssFile.lockState_addOpenOrigin,
    VssFile.lockState_addOrigin, VssFile.lockState_addObject]
  rfl

end Server

/-- In a run of the requests on a file no parked request is stranded exactly when no object
gives up the write cache in place while a read waits. -/
theorem neverStranded_iff {fileId flags : UInt32} {object : ObjectPtr} {origin : Origin}
    {s : Server} {tr : List (Server × ServerEvent)}
    (h : Run Server.step (Server.opened fileId object origin flags) tr s) :
    Always Server.NeverStranded tr s ↔ Meets (fun g e => ¬g.StrandsRead e) tr := by
  have hopened := Server.lockState_opened fileId object origin flags
  simp only [VssFile.lockState, Prod.mk.injEq] at hopened
  obtain ⟨-, hbr, hoplocks, hop⟩ := hopened
  refine h.always_iff_meets (I := fun g => Server.OplocksSound g.file) ?_ ?_ ?_ ?_
  · constructor
    · simp [VssFile.OplocksCache, hoplocks]
    · constructor <;> simp [hoplocks]
  · exact fun g e t hg he => (Server.effect_of_step he).oplocksSound hg
  · constructor
    · simp [VssFile.LocksHold, hbr]
    · simp [VssFile.OplocksHold, hop]
  · exact fun g e t hg hs he => (Server.effect_of_step he).neverStranded_step_iff hg.2 hs

def openShared : UInt32 :=
  VSSI_FILE_OPEN_READ ||| VSSI_FILE_OPEN_WRITE ||| VSSI_FILE_SHARE_READ ||| VSSI_FILE_SHARE_WRITE

/-- A read waits for a write cache that its holder gives back; it is handled again then. -/
theorem neverStranded_iff_release :
    ∃ tr s, Run Server.step (Server.opened 7 1 (2 ^ 32 + 1) openShared) tr s ∧ tr.length = 5 ∧
      (Always Server.NeverStranded tr s ↔ Meets (fun g e => ¬g.StrandsRead e) tr) := by
  have he : exec Server.step (Server.opened 7 1 (2 ^ 32 + 1) openShared)
      [.receive (.openFile 2 (2 ^ 32 + 2) openShared) 0,
        .receive (.setLock 1 VSSI_FILE_LOCK_CACHE_WRITE) 0,
        .receive (.readFile 2 (2 ^ 32 + 2) 0 100) 0,
        .receive (.setLock 1 VSSI_FILE_LOCK_NONE) 0,
        .resume 2 0] = some _ := rfl
  obtain ⟨tr, hr, hm⟩ := run_of_exec he
  exact ⟨tr, _, hr, by simpa using congrArg List.length hm, neverStranded_iff hr⟩

def downgradeWhileReadWaits : List ServerEvent :=
  [.receive (.openFile 2 (2 ^ 32 + 2) openShared) 0,
    .receive (.setLock 1 VSSI_FILE_LOCK_CACHE_WRITE) 0,
    .receive (.readFile 2 (2 ^ 32 + 2) 0 100) 0,
    .receive (.setLock 1 VSSI_FILE_LOCK_CACHE_READ) 0]

/-- The read stays parked, and no oplock refuses it any more. -/
theorem not_neverStranded_downgrade :
    ∃ tr s, Run Server.step (Server.opened 7 1 (2 ^ 32 + 1) openShared) tr s ∧
      tr.map Prod.snd = downgradeWhileReadWaits.reverse ∧ ¬s.NeverStranded := by
  have he : exec Server.step (Server.opened 7 1 (2 ^ 32 + 1) openShared)
      downgradeWhileReadWaits = some _ := rfl
  obtain ⟨tr, hr, hm⟩ := run_of_exec he
  refine ⟨tr, _, hr, by simpa using hm, fun hstranded => ?_⟩
  obtain ⟨request, hreq, l, hl, href⟩ := hstranded.oplock ⟨2, 2, false⟩ (.head _)
  obtain rfl : Request.readFile 2 (2 ^ 32 + 2) 0 100 = request := Option.some.inj hreq
  obtain rfl : l = ⟨1, VSSI_FILE_LOCK_CACHE_READ⟩ := List.mem_singleton.1 hl
  exact absurd href (by decide)

end PersonalCloud.StorageNode
