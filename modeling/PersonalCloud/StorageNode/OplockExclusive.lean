import PersonalCloud.StorageNode.LockSeparation

/-!
# Exclusive oplocks

An oplock with the write cache bit lets its object keep changed data to itself, so no other
object may cache the file meanwhile. `setOplock` asks each held oplock whether it conflicts
with the request, and looks only at the write bit of the requested mode; it then changes the
mode of the object's own oplock in place. Every held mode has a cache bit
(`OplocksCache`), which makes that test enough.

## Main results

* `VssFile.OplocksExclusive.apply` — every operation keeps the oplocks exclusive.
* `oplocks_exclusive` — so does every run.
-/

namespace PersonalCloud.StorageNode

open PersonalCloud.Lib

/-- An oplock that does not stand in the way of another object's request cannot write, and
is no oplock at all if the request is a write. -/
theorem Oplock.object_eq_of_not_needToBreak {l : Oplock} {object : ObjectPtr} {write : Bool}
    (hc : l.Caches) (h : l.needToBreak object write = false)
    (hw : write = true ∨ hasBit l.mode VSSI_FILE_LOCK_CACHE_WRITE = true) :
    l.object = object := by
  unfold Oplock.Caches at hc
  simp only [Oplock.needToBreak] at h
  grind

namespace VssFile

/-! ### Putting an oplock -/

theorem map_object_setFirstMode (object : ObjectPtr) (mode : UInt64) (ls : List Oplock) :
    (setFirstMode object mode ls).map Oplock.object = ls.map Oplock.object := by
  fun_induction setFirstMode object mode ls <;> simp_all

/-- The objects that hold an oplock after putting one. -/
theorem map_object_putOplock (object : ObjectPtr) (mode : UInt64) (ls : List Oplock) :
    (putOplock object mode ls).map Oplock.object =
      if object ∈ ls.map Oplock.object then ls.map Oplock.object
      else object :: ls.map Oplock.object := by
  have hany : (ls.any fun l => l.object = object) = true ↔ object ∈ ls.map Oplock.object := by
    simp
  simp only [putOplock, ← hany]
  split_ifs
  · exact map_object_setFirstMode object mode ls
  · rfl

theorem nodup_putOplock {object : ObjectPtr} {mode : UInt64} {ls : List Oplock}
    (h : (ls.map Oplock.object).Nodup) :
    ((putOplock object mode ls).map Oplock.object).Nodup := by
  rw [map_object_putOplock]
  split_ifs with ho
  · exact h
  · exact List.nodup_cons.2 ⟨ho, h⟩

/-- Where each object has one oplock, the put one replaces it. -/
theorem mem_setFirstMode_iff {object : ObjectPtr} {mode : UInt64} {ls : List Oplock}
    (h : (ls.map Oplock.object).Nodup) {l : Oplock} :
    l ∈ setFirstMode object mode ls ↔
      (l ∈ ls ∧ l.object ≠ object) ∨
        (l = ⟨object, mode⟩ ∧ object ∈ ls.map Oplock.object) := by
  fun_induction setFirstMode object mode ls <;> grind

theorem mem_putOplock_iff {object : ObjectPtr} {mode : UInt64} {ls : List Oplock}
    (h : (ls.map Oplock.object).Nodup) {l : Oplock} :
    l ∈ putOplock object mode ls ↔ (l ∈ ls ∧ l.object ≠ object) ∨ l = ⟨object, mode⟩ := by
  unfold putOplock
  split_ifs with ho
  · rw [mem_setFirstMode_iff h]
    grind
  · grind

/-! ### Exclusion -/

/-- Each object has at most one oplock, and where an oplock has the write cache bit no other
object has any. -/
structure OplocksExclusive (f : VssFile) : Prop where
  distinct : (f.oplocks.map Oplock.object).Nodup
  alone : ∀ l ∈ f.oplocks, hasBit l.mode VSSI_FILE_LOCK_CACHE_WRITE →
    ∀ l' ∈ f.oplocks, l'.object = l.object

theorem OplocksExclusive.of_sublist {f g : VssFile} (h : f.OplocksExclusive)
    (hs : g.oplocks.Sublist f.oplocks) : g.OplocksExclusive where
  distinct := h.distinct.sublist (hs.map _)
  alone l hl hw l' hl' := h.alone l (hs.subset hl) hw l' (hs.subset hl')

/-- The oplocks that `setOplock` looks at before it puts one for the object. -/
def NoneToBreak (f : VssFile) (object : ObjectPtr) (mode : UInt64) : Prop :=
  ∀ l ∈ f.oplocks, l.needToBreak object (hasBit mode VSSI_FILE_LOCK_CACHE_WRITE) = false

theorem OplocksExclusive.of_putOplock {f g : VssFile} {object : ObjectPtr} {mode : UInt64}
    (h : f.OplocksExclusive) (hc : f.OplocksCache) (hb : f.NoneToBreak object mode)
    (hg : g.oplocks = putOplock object mode f.oplocks) : g.OplocksExclusive where
  distinct := hg ▸ nodup_putOplock h.distinct
  alone l hl hw l' hl' := by
    rw [hg, mem_putOplock_iff h.distinct] at hl hl'
    rcases hl with ⟨hl, ho⟩ | rfl
    · -- a held oplock that can write would have refused the request
      exact absurd (Oplock.object_eq_of_not_needToBreak (hc l hl) (hb l hl) (.inr hw)) ho
    · rcases hl' with ⟨hl', -⟩ | rfl
      · -- a request to write is refused by every held oplock of another object
        exact Oplock.object_eq_of_not_needToBreak (hc l' hl') (hb l' hl') (.inl hw)
      · rfl

/-- A `setOplock` that does more than drop oplocks has found none to break. -/
theorem noneToBreak_of_setOplock {f : VssFile} {object : ObjectPtr} {mode : UInt64}
    (h : ¬(f.setOplock object mode).2.oplocks.Sublist f.oplocks) :
    f.NoneToBreak object mode := by
  simp only [setOplock] at h
  split_ifs at h with hmask hnone hlocks hbreak
  · exact absurd (.refl _) h
  · exact absurd (by simp) h
  · exact absurd (.refl _) h
  · exact absurd (.refl _) h
  · simpa [NoneToBreak] using hbreak

theorem OplocksExclusive.apply {f : VssFile} (h : f.OplocksExclusive) (hc : f.OplocksCache)
    (op : FileOp) : (op.apply f).OplocksExclusive := by
  by_cases hs : (op.apply f).oplocks.Sublist f.oplocks
  · exact h.of_sublist hs
  · obtain ⟨object, mode, rfl, -, -, ho⟩ := (f.oplocks_apply op).resolve_left hs
    exact h.of_putOplock hc (noneToBreak_of_setOplock hs) ho

end VssFile

/-- After any operations on a newly opened file each object has at most one oplock, and an
object with the write cache bit is the only one that has an oplock. -/
theorem oplocks_exclusive {fileId flags : UInt32} {f : VssFile} {tr : List (VssFile × FileOp)}
    (h : Run fileStep (VssFile.new fileId flags) tr f) : f.OplocksExclusive := by
  have hboth : f.OplocksCache ∧ f.OplocksExclusive := by
    refine h.invariant (P := fun g => g.OplocksCache ∧ g.OplocksExclusive) ?_ ?_
    · constructor
      · intro l hl
        exact absurd hl (by simp [VssFile.new])
      · exact ⟨by simp [VssFile.new], by simp [VssFile.new]⟩
    · rintro g op t ⟨hc, hx⟩ he
      obtain rfl : op.apply g = t := by simpa [fileStep] using he
      exact ⟨hc.apply op, hx.apply hc op⟩
  exact hboth.2

/-- Two objects share the file; one gives its oplock back, and the other may then write. -/
theorem oplocks_exclusive_upgrade :
    ∃ tr f, Run fileStep (VssFile.new 0 0) tr f ∧ tr.length = 4 ∧
      f.oplocks = [⟨1, VSSI_FILE_LOCK_CACHE_WRITE⟩] ∧ f.OplocksExclusive := by
  have he : exec fileStep (VssFile.new 0 0)
      [.setOplock 1 VSSI_FILE_LOCK_CACHE_READ, .setOplock 2 VSSI_FILE_LOCK_CACHE_READ,
        .removeObject 2, .setOplock 1 VSSI_FILE_LOCK_CACHE_WRITE] = some _ := rfl
  obtain ⟨tr, hr, hm⟩ := run_of_exec he
  exact ⟨tr, _, hr, by simpa using congrArg List.length hm, rfl, oplocks_exclusive hr⟩

end PersonalCloud.StorageNode
