import PersonalCloud.StorageNode.RangeLocks

/-!
# Byte-range locks and oplocks on one file

A file with byte-range locks may not be cached, so the lock list and the oplock list should
never both be in use. `setOplock` looks at the whole lock list. `setLockRange` asks
`checkOplockConflict`, which passes over the oplocks of the requesting object, and so an
object that caches a file may lock a range of it. `locksSeparate_iff` says that this is the
only way to mix the two.

## Main results

* `VssFile.oplocks_apply` — an operation drops oplocks, or puts one with a cache mode.
* `locksSeparate_iff` — a run keeps one of the two lists empty exactly when no object asks
  for a range lock while it holds all the oplocks.
-/

namespace PersonalCloud.StorageNode

open PersonalCloud.Lib

theorem eq_zero_of_and_eq_zero {m a b : UInt64} (h : m &&& ~~~(a ||| b) = 0)
    (ha : m &&& a = 0) (hb : m &&& b = 0) : m = 0 := by
  rw [← UInt64.toBitVec_inj] at *
  ext i hi
  have h := congrArg (fun v : BitVec 64 => v[i]) h
  have ha := congrArg (fun v : BitVec 64 => v[i]) ha
  have hb := congrArg (fun v : BitVec 64 => v[i]) hb
  simp at h ha hb ⊢
  grind

def Oplock.Caches (l : Oplock) : Prop :=
  hasBit l.mode VSSI_FILE_LOCK_CACHE_READ ∨ hasBit l.mode VSSI_FILE_LOCK_CACHE_WRITE

/-- A mode that passes the check of `setOplock` and is not zero has a cache bit. -/
theorem Oplock.caches_of_mask {l : Oplock}
    (hm : ¬hasBit l.mode (~~~(VSSI_FILE_LOCK_CACHE_READ ||| VSSI_FILE_LOCK_CACHE_WRITE)))
    (h0 : l.mode ≠ VSSI_FILE_LOCK_NONE) : l.Caches := by
  by_contra hn
  simp only [Oplock.Caches, hasBit, not_or, bne_iff_ne, not_not] at hm hn
  exact h0 (eq_zero_of_and_eq_zero hm hn.1 hn.2)

/-- A write request conflicts with every caching oplock of another object. -/
theorem Oplock.Caches.needToBreak_eq_false {l : Oplock} (h : l.Caches) {object : ObjectPtr} :
    l.needToBreak object true = false ↔ l.object = object := by
  unfold Oplock.Caches at h
  simp only [Oplock.needToBreak]
  grind

namespace VssFile

theorem mem_setFirstMode {object : ObjectPtr} {mode : UInt64} {ls : List Oplock} {l : Oplock}
    (h : l ∈ setFirstMode object mode ls) : l.mode = mode ∨ l ∈ ls := by
  induction ls with
  | nil => simp [setFirstMode] at h
  | cons l' ls ih =>
    unfold setFirstMode at h
    split_ifs at h with ho
    · rcases List.mem_cons.1 h with rfl | h
      · exact .inl rfl
      · exact .inr (List.mem_cons_of_mem _ h)
    · rcases List.mem_cons.1 h with rfl | h
      · exact .inr (List.mem_cons_self ..)
      · exact (ih h).imp_right (List.mem_cons_of_mem _)

theorem mem_putOplock {object : ObjectPtr} {mode : UInt64} {ls : List Oplock} {l : Oplock}
    (h : l ∈ putOplock object mode ls) : l.mode = mode ∨ l ∈ ls := by
  unfold putOplock at h
  split_ifs at h
  · exact mem_setFirstMode h
  · exact (List.mem_cons.1 h).imp_left (congrArg Oplock.mode)

/-- Every operation drops oplocks, or puts one while no range is locked. -/
theorem oplocks_apply (f : VssFile) (op : FileOp) :
    (op.apply f).oplocks.Sublist f.oplocks ∨
      ∃ object mode, op = .setOplock object mode ∧ f.locks = [] ∧
        (⟨object, mode⟩ : Oplock).Caches ∧
        (op.apply f).oplocks = putOplock object mode f.oplocks := by
  cases op with
  | setOplock object mode =>
    simp only [FileOp.apply, setOplock]
    split_ifs with hmask hnone hlocks hbreak
    · exact .inl (.refl _)
    · left
      simp
    · exact .inl (.refl _)
    · exact .inl (.refl _)
    · right
      exact ⟨object, mode, rfl, not_not.1 hlocks, Oplock.caches_of_mask hmask hnone, rfl⟩
  | removeReference object origin => exact .inl (oplocks_removeReference ..)
  | _ =>
    left
    simp [FileOp.apply, addOrigin, addOpenOrigin, removeOpenOrigin, waitOplock, waitBrlock]

/-- Every oplock has a cache bit. -/
def OplocksCache (f : VssFile) : Prop :=
  ∀ l ∈ f.oplocks, l.Caches

theorem OplocksCache.apply {f : VssFile} (h : f.OplocksCache) (op : FileOp) :
    (op.apply f).OplocksCache := by
  intro l hl
  rcases f.oplocks_apply op with hsub | ⟨object, mode, -, -, hc, ho⟩
  · exact h l (hsub.subset hl)
  · rw [ho] at hl
    rcases mem_putOplock hl with rfl | hl
    · exact hc
    · exact h l hl

/-- Range locks and oplocks are not mixed. -/
def LocksSeparate (f : VssFile) : Prop :=
  f.locks = [] ∨ f.oplocks = []

/-- The operation asks for a lock on a range of a file that the same object, and no other,
caches. -/
def LocksOwnCached (f : VssFile) : FileOp → Prop
  | .setLockRange object _ flags _ start stop =>
    start ≤ stop ∧ hasFlag flags VSSI_RANGE_UNLOCK = false ∧
      hasFlag flags VSSI_RANGE_LOCK = true ∧
      f.oplocks ≠ [] ∧ ∀ l ∈ f.oplocks, l.object = object
  | _ => False

/-- On a file that is cached, and so has no range locks, the request to lock a range is
granted exactly if it comes from the object that caches the file. -/
theorem grants_iff_locksOwnCached {f : VssFile} {object : ObjectPtr} {origin : Origin}
    {flags : UInt32} {mode : UInt64} {start stop : Nat} (hc : f.OplocksCache)
    (hs : f.LocksSeparate) (ho : f.oplocks ≠ []) :
    f.Grants object origin flags mode start stop ↔
      f.LocksOwnCached (.setLockRange object origin flags mode start stop) := by
  have hl : f.locks = [] := hs.resolve_right ho
  constructor
  · intro hg
    refine ⟨hg.range, hg.unlock, hg.lock, ho, fun l hl => ?_⟩
    exact (hc l hl).needToBreak_eq_false.1 (hg.oplocks l hl)
  · rintro ⟨hrange, hunlock, hlock, -, hown⟩
    refine ⟨hrange, hunlock, hlock, fun l hl => ?_, by simp [hl]⟩
    exact (hc l hl).needToBreak_eq_false.2 (hown l hl)

theorem locksSeparate_apply_iff {f : VssFile} {op : FileOp} (hc : f.OplocksCache)
    (hs : f.LocksSeparate) : (op.apply f).LocksSeparate ↔ ¬f.LocksOwnCached op := by
  by_cases ho : f.oplocks = []
  · -- nothing is cached: an oplock is put only while no range is locked
    refine iff_of_true ?_ ?_
    · rcases f.oplocks_apply op with hsub | ⟨object, mode, rfl, hl, -, -⟩
      · exact .inr (List.sublist_nil.1 (ho ▸ hsub))
      · exact .inl (by simpa [FileOp.apply] using hl)
    · cases op <;> simp [LocksOwnCached, ho]
  · have hl : f.locks = [] := hs.resolve_right ho
    rcases f.locks_apply op with hsub | ⟨object, origin, flags, mode, start, stop, rfl, hg, hl'⟩
    · refine iff_of_true (.inl (List.sublist_nil.1 (hl ▸ hsub))) ?_
      intro hown
      cases op with
      | setLockRange object origin flags mode start stop =>
        have hg : f.Grants object origin flags mode start stop :=
          (grants_iff_locksOwnCached hc hs ho).2 hown
        rw [FileOp.apply, locks_setLockRange_of_grants hg, hl] at hsub
        exact absurd hsub (by simp)
      | _ => exact hown
    · refine iff_of_false ?_ (not_not.2 ((grants_iff_locksOwnCached hc hs ho).1 hg))
      rw [LocksSeparate, hl']
      simp [FileOp.apply, ho]

end VssFile

/-- In a run of operations on a newly opened file range locks and oplocks are never mixed
exactly when no object asks for a range lock on a file that it alone caches. -/
theorem locksSeparate_iff {fileId flags : UInt32} {f : VssFile}
    {tr : List (VssFile × FileOp)} (h : Run fileStep (VssFile.new fileId flags) tr f) :
    Always VssFile.LocksSeparate tr f ↔ Meets (fun g op => ¬g.LocksOwnCached op) tr := by
  refine h.always_iff_meets (I := VssFile.OplocksCache) ?_ ?_ (.inl rfl) ?_
  · intro l hl
    exact absurd hl (by simp [VssFile.new])
  · rintro g op t hg he
    obtain rfl : op.apply g = t := by simpa [fileStep] using he
    exact hg.apply op
  · rintro g op t hc hs he
    obtain rfl : op.apply g = t := by simpa [fileStep] using he
    exact VssFile.locksSeparate_apply_iff hc hs

/-- An object caches the file, gives the oplock back and then locks a range. -/
theorem locksSeparate_iff_release :
    ∃ tr f, Run fileStep (VssFile.new 0 0) tr f ∧ tr.length = 3 ∧
      (Always VssFile.LocksSeparate tr f ↔ Meets (fun g op => ¬g.LocksOwnCached op) tr) := by
  have he : exec fileStep (VssFile.new 0 0)
      [.setOplock 1 VSSI_FILE_LOCK_CACHE_WRITE, .setOplock 1 VSSI_FILE_LOCK_NONE,
        .setLockRange 1 7 VSSI_RANGE_LOCK VSSI_FILE_LOCK_WRITE_EXCL 0 10] = some _ := rfl
  obtain ⟨tr, hr, hm⟩ := run_of_exec he
  exact ⟨tr, _, hr, by simpa using congrArg List.length hm, locksSeparate_iff hr⟩

def lockWhileCaching : List FileOp :=
  [.setOplock 1 VSSI_FILE_LOCK_CACHE_READ,
    .setLockRange 1 7 VSSI_RANGE_LOCK VSSI_FILE_LOCK_READ_SHARED 0 10]

/-- The object that caches the file gets a range lock on it. -/
theorem not_locksSeparate_lockWhileCaching :
    ∃ tr f, Run fileStep (VssFile.new 0 0) tr f ∧
      tr.map Prod.snd = lockWhileCaching.reverse ∧ ¬f.LocksSeparate := by
  have he : exec fileStep (VssFile.new 0 0) lockWhileCaching = some _ := rfl
  obtain ⟨tr, hr, hm⟩ := run_of_exec he
  refine ⟨tr, _, hr, by simpa using hm, ?_⟩
  rintro (h | h) <;> cases h

end PersonalCloud.StorageNode
