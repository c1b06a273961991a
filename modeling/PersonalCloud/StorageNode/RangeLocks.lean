import PersonalCloud.StorageNode.VssFile

/-!
# Byte-range lock compatibility

Two locks that share a byte should both be shared read locks, or a read lock laid over an
earlier write lock of the same origin. The mode word comes from the client as it is, and
`lockConflicts` lets a request overlay a write lock of its own origin as soon as it has the
read bit, also when it has the write bit too. `locksCompatible_iff` says that this is the
only way in which a file loses the rule.

## Main results

* `VssFile.locks_apply` — an operation drops locks, or sets one that was granted.
* `locksCompatible_iff` — a run keeps all locks compatible exactly when none of its
  requests is laid over a write lock of its origin with both mode bits.
-/

namespace PersonalCloud.StorageNode

open PersonalCloud.Lib

def ReadOnly (mode : UInt64) : Prop :=
  hasBit mode VSSI_FILE_LOCK_READ_SHARED ∧ ¬hasBit mode VSSI_FILE_LOCK_WRITE_EXCL

namespace Flock

/-- Some byte of the range is covered by the lock. -/
def SharesByte (l : Flock) (start2 stop2 : Nat) : Prop :=
  ∃ x, l.start ≤ x ∧ x < l.stop ∧ start2 ≤ x ∧ x < stop2

/-- What the lock rules allow for a lock set over an older one. -/
def Compatible (newer older : Flock) : Prop :=
  older.SharesByte newer.start newer.stop →
    ReadOnly newer.mode ∧ ReadOnly older.mode ∨
    newer.origin = older.origin ∧ ReadOnly newer.mode ∧
      hasBit older.mode VSSI_FILE_LOCK_WRITE_EXCL

theorem SharesByte.overlaps {l : Flock} {start2 stop2 : Nat} (h : l.SharesByte start2 stop2) :
    l.overlaps start2 stop2 := by
  obtain ⟨x, h₁, h₂, h₃, h₄⟩ := h
  have hne : ¬(start2 ≥ l.stop ∨ l.start ≥ stop2) := by omega
  simp [Flock.overlaps, hne]

/-- The two ways for a lock that shares a byte with a request not to conflict with it. -/
theorem lockConflicts_eq_false {l : Flock} {origin : Origin} {mode : UInt64} {start stop : Nat}
    (h : l.SharesByte start stop) :
    l.lockConflicts origin mode start stop = false ↔
      l.origin = origin ∧ hasBit l.mode VSSI_FILE_LOCK_WRITE_EXCL ∧
        hasBit mode VSSI_FILE_LOCK_READ_SHARED ∨
      ReadOnly mode ∧ ReadOnly l.mode := by
  simp only [lockConflicts, h.overlaps, ReadOnly]
  by_cases ho : l.origin = origin <;>
    cases hasBit l.mode VSSI_FILE_LOCK_WRITE_EXCL <;>
    cases hasBit mode VSSI_FILE_LOCK_READ_SHARED <;>
    cases hasBit mode VSSI_FILE_LOCK_WRITE_EXCL <;>
    cases hasBit l.mode VSSI_FILE_LOCK_READ_SHARED <;> simp [ho]

end Flock

namespace VssFile

/-- The request sets a lock: it asks for one on a proper range, and neither the oplocks nor
the locks held conflict with it. -/
structure Grants (f : VssFile) (object : ObjectPtr) (origin : Origin) (flags : UInt32)
    (mode : UInt64) (start stop : Nat) : Prop where
  range : start ≤ stop
  unlock : hasFlag flags VSSI_RANGE_UNLOCK = false
  lock : hasFlag flags VSSI_RANGE_LOCK = true
  oplocks : ∀ l ∈ f.oplocks, l.needToBreak object true = false
  locks : ∀ l ∈ f.locks, l.lockConflicts origin mode start stop = false

section

variable {f : VssFile} {object : ObjectPtr} {origin : Origin} {flags : UInt32}
  {mode : UInt64} {start stop : Nat}

theorem locks_setLockRange_of_grants (h : f.Grants object origin flags mode start stop) :
    (f.setLockRange object origin flags mode start stop).2.locks =
      ⟨object, origin, mode, start, stop⟩ :: f.locks := by
  have hop : (f.checkOplockConflict object true).1 = false := by
    simpa [checkOplockConflict] using h.oplocks
  have hlk : (f.locks.any fun l => l.lockConflicts origin mode start stop) = false := by
    simpa using h.locks
  simp [snd_setLockRange, h.range.not_gt, h.unlock, h.lock, hop, locks_addRangeLock, hlk]

/-- A request that sets no lock can still drop the one it names. -/
theorem locks_setLockRange_of_not_grants (h : ¬f.Grants object origin flags mode start stop) :
    (f.setLockRange object origin flags mode start stop).2.locks.Sublist f.locks := by
  rw [snd_setLockRange]
  split_ifs with hrange _ hunlock hlock hop
  · exact .refl _
  · exact .refl _
  · simp
  · exact .refl _
  · rw [locks_addRangeLock, if_pos]
    · exact .refl _
    · by_contra hlk
      refine h ⟨not_lt.1 hrange, by simpa using hunlock, hlock, ?_, ?_⟩
      · simpa [checkOplockConflict] using hop
      · simpa using hlk
  · exact .refl _

end

/-- Every operation drops locks, or is a request that sets one in front. -/
theorem locks_apply (f : VssFile) (op : FileOp) :
    (op.apply f).locks.Sublist f.locks ∨
      ∃ object origin flags mode start stop,
        op = .setLockRange object origin flags mode start stop ∧
        f.Grants object origin flags mode start stop ∧
        (op.apply f).locks = ⟨object, origin, mode, start, stop⟩ :: f.locks := by
  cases op with
  | setLockRange object origin flags mode start stop =>
    by_cases h : f.Grants object origin flags mode start stop
    · exact .inr ⟨_, _, _, _, _, _, rfl, h, locks_setLockRange_of_grants h⟩
    · exact .inl (locks_setLockRange_of_not_grants h)
  | _ =>
    left
    simp [FileOp.apply, addOrigin, addOpenOrigin, removeOpenOrigin, waitOplock, waitBrlock]

/-- Any two held locks are compatible, the later one being the one further in front. -/
def LocksCompatible (f : VssFile) : Prop :=
  f.locks.Pairwise Flock.Compatible

theorem locksCompatible_new (fileId flags : UInt32) : (new fileId flags).LocksCompatible :=
  List.Pairwise.nil

/-- The operation sets a lock with both mode bits over a byte of a write lock of its own
origin. -/
def LaysWriteOverWrite (f : VssFile) : FileOp → Prop
  | .setLockRange object origin flags mode start stop =>
    f.Grants object origin flags mode start stop ∧
      hasBit mode VSSI_FILE_LOCK_READ_SHARED ∧ hasBit mode VSSI_FILE_LOCK_WRITE_EXCL ∧
      ∃ l ∈ f.locks, l.origin = origin ∧ hasBit l.mode VSSI_FILE_LOCK_WRITE_EXCL ∧
        l.SharesByte start stop
  | _ => False

/-- A granted lock is compatible with an older one unless it is a write lock over a write
lock. -/
theorem Grants.compatible_iff {f : VssFile} {object : ObjectPtr} {origin : Origin}
    {flags : UInt32} {mode : UInt64} {start stop : Nat}
    (h : f.Grants object origin flags mode start stop) {l : Flock} (hl : l ∈ f.locks) :
    Flock.Compatible ⟨object, origin, mode, start, stop⟩ l ↔
      ¬(hasBit mode VSSI_FILE_LOCK_READ_SHARED ∧ hasBit mode VSSI_FILE_LOCK_WRITE_EXCL ∧
        l.origin = origin ∧ hasBit l.mode VSSI_FILE_LOCK_WRITE_EXCL ∧
        l.SharesByte start stop) := by
  by_cases hs : l.SharesByte start stop
  · have hc := (Flock.lockConflicts_eq_false hs).1 (h.locks l hl)
    simp only [Flock.Compatible, hs, forall_const, ReadOnly] at hc ⊢
    grind
  · simp [Flock.Compatible, hs]

theorem locksCompatible_apply_iff {f : VssFile} {op : FileOp} (h : f.LocksCompatible) :
    (op.apply f).LocksCompatible ↔ ¬f.LaysWriteOverWrite op := by
  rcases f.locks_apply op with hsub | ⟨object, origin, flags, mode, start, stop, rfl, hg, hl⟩
  · refine iff_of_true (h.sublist hsub) ?_
    rintro hw
    cases op with
    | setLockRange object origin flags mode start stop =>
      have hlen := hsub.length_le
      rw [FileOp.apply, locks_setLockRange_of_grants hw.1, List.length_cons] at hlen
      omega
    | _ => exact hw
  · rw [LocksCompatible, hl, List.pairwise_cons]
    simp only [LaysWriteOverWrite, hg, true_and]
    constructor
    · rintro ⟨hc, -⟩ ⟨hr, hw, l, hlm, ho, hlw, hs⟩
      exact (hg.compatible_iff hlm).1 (hc l hlm) ⟨hr, hw, ho, hlw, hs⟩
    · intro hn
      refine ⟨fun l hlm => (hg.compatible_iff hlm).2 ?_, h⟩
      rintro ⟨hr, hw, ho, hlw, hs⟩
      exact hn ⟨hr, hw, l, hlm, ho, hlw, hs⟩

end VssFile

/-- In a run of operations on a newly opened file the locks stay compatible exactly when no
operation lays a lock with both mode bits over a write lock of its origin. -/
theorem locksCompatible_iff {fileId flags : UInt32} {f : VssFile}
    {tr : List (VssFile × FileOp)} (h : Run fileStep (VssFile.new fileId flags) tr f) :
    Always VssFile.LocksCompatible tr f ↔ Meets (fun g op => ¬g.LaysWriteOverWrite op) tr := by
  refine h.always_iff_meets (I := fun _ => True) trivial (fun _ _ _ _ _ => trivial)
    (VssFile.locksCompatible_new _ _) ?_
  rintro g op t - hg he
  obtain rfl : op.apply g = t := by simpa [fileStep] using he
  exact VssFile.locksCompatible_apply_iff hg

/-- Two descriptors of an object lock ranges that meet, both for reading. -/
theorem locksCompatible_iff_readers :
    ∃ tr f, Run fileStep (VssFile.new 0 0) tr f ∧ tr.length = 2 ∧
      (Always VssFile.LocksCompatible tr f ↔
        Meets (fun g op => ¬g.LaysWriteOverWrite op) tr) := by
  have he : exec fileStep (VssFile.new 0 0)
      [.setLockRange 1 7 VSSI_RANGE_LOCK VSSI_FILE_LOCK_READ_SHARED 0 10,
        .setLockRange 1 8 VSSI_RANGE_LOCK VSSI_FILE_LOCK_READ_SHARED 5 15] = some _ := rfl
  obtain ⟨tr, hr, hm⟩ := run_of_exec he
  exact ⟨tr, _, hr, by simpa using congrArg List.length hm, locksCompatible_iff hr⟩

/-- The mode of both requests carries the read and the write bit. -/
def writeOverWrite : List FileOp :=
  [.setLockRange 1 7 VSSI_RANGE_LOCK 3 0 10, .setLockRange 1 7 VSSI_RANGE_LOCK 3 0 10]

/-- The same descriptor gets the same write lock twice. -/
theorem locks_writeOverWrite :
    ∃ tr f, Run fileStep (VssFile.new 0 0) tr f ∧
      tr.map Prod.snd = writeOverWrite.reverse ∧ ¬f.LocksCompatible ∧
      ∃ l, f.locks = [l, l] ∧ hasBit l.mode VSSI_FILE_LOCK_WRITE_EXCL ∧
        l.SharesByte l.start l.stop := by
  have he : exec fileStep (VssFile.new 0 0) writeOverWrite = some _ := rfl
  obtain ⟨tr, hr, hm⟩ := run_of_exec he
  have hs : (⟨1, 7, 3, 0, 10⟩ : Flock).SharesByte 0 10 := ⟨0, by decide⟩
  refine ⟨tr, _, hr, by simpa using hm, ?_, ⟨1, 7, 3, 0, 10⟩, rfl, rfl, hs⟩
  intro hc
  have hp := (List.pairwise_cons.1 hc).1 ⟨1, 7, 3, 0, 10⟩ (List.mem_cons_self ..)
  rcases hp hs with h | h
  · exact absurd h.1.2 (by decide)
  · exact absurd h.2.1.2 (by decide)

end PersonalCloud.StorageNode
