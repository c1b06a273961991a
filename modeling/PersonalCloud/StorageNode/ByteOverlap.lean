import PersonalCloud.StorageNode.RangeLocks
import PersonalCloud.StorageNode.Requests

/-!
# Range conflicts and the bytes of the ranges

A range ends at the first byte not covered, so a range that starts where it ends has no byte.
`Flock.overlaps` and `rangeOverlap` compare the ends of two ranges and take no notice of that: an
empty range inside another one conflicts with it.

## Main results

* `Flock.overlaps_iff` — the two tests are one, and this is what they say.
* `VssFile.conflictsExact_iff` — they mean a common byte exactly when there is no empty range
  inside another one.
-/

namespace PersonalCloud.StorageNode

namespace Flock

/-- One of the two ranges is empty, and inside the other one. -/
def EmptyInside (l : Flock) (start2 stop2 : Nat) : Prop :=
  l.start = l.stop ∧ start2 < l.start ∧ l.start < stop2 ∨
    start2 = stop2 ∧ l.start < start2 ∧ start2 < l.stop

variable {l : Flock} {start2 stop2 : Nat}

theorem overlaps_iff : l.overlaps start2 stop2 ↔ start2 < l.stop ∧ l.start < stop2 := by
  simp [overlaps]

theorem rangeOverlap_eq_overlaps :
    VssFile.rangeOverlap l.start l.stop start2 stop2 = l.overlaps start2 stop2 := by
  simp [VssFile.rangeOverlap, overlaps, or_comm]

theorem sharesByte_iff : l.SharesByte start2 stop2 ↔ max l.start start2 < min l.stop stop2 := by
  constructor
  · rintro ⟨x, h₁, h₂, h₃, h₄⟩
    omega
  · exact fun h => ⟨max l.start start2, by omega, by omega, by omega, by omega⟩

/-- Only an empty range meets another one without a common byte. -/
theorem overlaps_iff_sharesByte_iff (hl : l.start ≤ l.stop) (h : start2 ≤ stop2) :
    (l.overlaps start2 stop2 ↔ l.SharesByte start2 stop2) ↔ ¬l.EmptyInside start2 stop2 := by
  rw [overlaps_iff, sharesByte_iff, EmptyInside]
  constructor
  · intro hexact
    omega
  · intro hno
    constructor <;> intro _ <;> omega

theorem overlaps_of_ioConflicts {origin : Origin} {mode : UInt64}
    (h : l.ioConflicts origin mode start2 stop2) : l.overlaps start2 stop2 := by
  by_contra hno
  simp [ioConflicts, hno] at h

end Flock

namespace VssFile

variable {f : VssFile} {start stop : Nat}

/-- For a range, a conflict with a lock of the file is a common byte: the tests say so, and a
read, a write or a lock that is refused has a byte in common with a lock it conflicts with. -/
structure ConflictsExact (f : VssFile) (start stop : Nat) : Prop where
  overlaps : ∀ l ∈ f.locks, l.overlaps start stop ↔ l.SharesByte start stop
  rangeOverlap : ∀ l ∈ f.locks,
    rangeOverlap l.start l.stop start stop ↔ l.SharesByte start stop
  io : ∀ origin mode, f.checkLockConflict origin mode start stop →
    ∃ l ∈ f.locks, l.ioConflicts origin mode start stop ∧ l.SharesByte start stop
  lock : ∀ object origin flags mode,
    ((f.setLockRange object origin flags mode start stop).1 = .locked ∨
      (f.setLockRange object origin flags mode start stop).1 = .waitlock) →
    ∃ l ∈ f.locks, l.lockConflicts origin mode start stop ∧ l.SharesByte start stop

theorem exists_lockConflicts_of_refused {object : ObjectPtr} {origin : Origin} {flags : UInt32}
    {mode : UInt64} (h : (f.setLockRange object origin flags mode start stop).1 = .locked ∨
      (f.setLockRange object origin flags mode start stop).1 = .waitlock) :
    ∃ l ∈ f.locks, l.lockConflicts origin mode start stop := by
  by_contra hno
  have hadd : ((f.checkOplockConflict object true).2.addRangeLock object origin mode start
      stop).1 = true := by
    unfold addRangeLock
    rw [locks_checkOplockConflict, if_neg (by simpa using hno)]
  simp only [setLockRange, hadd, if_true] at h
  split_ifs at h <;> simp at h

/-- The tests mean a common byte exactly if neither the range is empty and inside a lock, nor a
lock of the file empty and inside the range. -/
theorem conflictsExact_iff (hlocks : ∀ l ∈ f.locks, l.start ≤ l.stop) (hrange : start ≤ stop) :
    f.ConflictsExact start stop ↔ ∀ l ∈ f.locks, ¬l.EmptyInside start stop := by
  constructor
  · intro h l hl
    exact (Flock.overlaps_iff_sharesByte_iff (hlocks l hl) hrange).1 (h.overlaps l hl)
  · intro h
    have hexact : ∀ l ∈ f.locks, l.overlaps start stop ↔ l.SharesByte start stop := fun l hl =>
      (Flock.overlaps_iff_sharesByte_iff (hlocks l hl) hrange).2 (h l hl)
    refine ⟨hexact, fun l hl => ?_, fun origin mode hc => ?_, fun object origin flags mode hr => ?_⟩
    · rw [Flock.rangeOverlap_eq_overlaps]
      exact hexact l hl
    · obtain ⟨l, hl, hc⟩ := List.any_eq_true.1 hc
      exact ⟨l, hl, hc, (hexact l hl).1 (Flock.overlaps_of_ioConflicts hc)⟩
    · obtain ⟨l, hl, hc⟩ := exists_lockConflicts_of_refused hr
      have hoverlaps : l.overlaps start stop := by
        by_contra hno
        simp [Flock.lockConflicts, hno] at hc
      exact ⟨l, hl, hc, (hexact l hl).1 hoverlaps⟩

/-- A file with a write lock of another descriptor on the bytes from `start` up to `stop`. -/
def withLock (start stop : Nat) : VssFile :=
  { new 0 0 with locks := [⟨1, 7, VSSI_FILE_LOCK_WRITE_EXCL, start, stop⟩] }

theorem conflictsExact_ten_bytes :
    (withLock 0 10).ConflictsExact 5 15 ↔ ∀ l ∈ (withLock 0 10).locks, ¬l.EmptyInside 5 15 :=
  conflictsExact_iff (by simp [withLock]) (by decide)

/-- A lock on no byte keeps another descriptor from reading the bytes around it. -/
theorem not_conflictsExact_empty :
    ((withLock 5 5).readFile 2 8 3 5).1 = .locked ∧ ¬(withLock 5 5).ConflictsExact 3 8 := by
  refine ⟨by decide, fun h => ?_⟩
  obtain ⟨l, hl, -, x, h₁, h₂, -⟩ := h.io 8 VSSI_FILE_LOCK_READ_SHARED (by decide)
  obtain rfl := List.mem_singleton.1 hl
  exact absurd (h₁.trans_lt h₂) (by decide)

end VssFile

end PersonalCloud.StorageNode
