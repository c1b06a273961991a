import Mathlib.Algebra.Order.Ring.Int
import Mathlib.Data.List.TakeDrop
import Mathlib.Tactic.SplitIfs

/-!
# The comparison of two files

Before a conflict is resolved, `isFileContentsEqual` compares the local file with a copy of the
downloaded one, chunk by chunk. A read may deliver less than a chunk, nothing, or an error.

## Main results

* `judgedRight_iff` — files that are judged equal have the same contents, unless some read on
  both files fails alike or delivers nothing before their end.
-/

namespace PersonalCloud.SyncConfig.ContentsEqual

/-- What a read does: it fails, or delivers up to so many bytes. -/
inductive ReadBehaviour where
  | fails (rc : ℕ)
  | gives (n : ℕ)
deriving DecidableEq, Repr

/-- `VPLFS_TYPE_…`, as far as it is looked at. -/
inductive FileType where
  | file
  | other
deriving DecidableEq, Repr

/-- A file, and what the calls on it do. The contents do not change on the way. -/
structure File where
  stat : Option FileType
  content : List UInt8
  opens : Bool
  reads : ℕ → ReadBehaviour

/-- Whether the two buffers are there. -/
structure Env where
  malloc1 : Bool
  malloc2 : Bool

def chunkTempBufferSize : ℕ := 4096

/-- `VPLFile_Read`, as the `k`-th read on the file and from the position `pos`: what it returns,
and the bytes in the buffer. -/
def File.read (f : File) (k pos : ℕ) : ℤ × List UInt8 :=
  match f.reads k with
  | .fails rc => (-(rc : ℤ) - 1, [])
  | .gives n =>
    let bytes := (f.content.drop pos).take (min n chunkTempBufferSize)
    (bytes.length, bytes)

/-- The loop, from the `k`-th round on. The result says whether the code after the loop is
reached, and what `bytesCompared` is then. -/
def compareChunks (file1 file2 : File) : ℕ → ℕ → ℕ → Option (Bool × ℕ)
  | 0, _, _ => none
  | fuel + 1, k, bytesCompared =>
    if bytesCompared < file1.content.length then
      let bytesReadF1 := file1.read k bytesCompared
      let bytesReadF2 := file2.read k bytesCompared
      if bytesReadF1.1 ≠ bytesReadF2.1 then some (false, bytesCompared)
      else if 0 < bytesReadF1.1 then
        if bytesReadF1.2 ≠ bytesReadF2.2 then some (false, bytesCompared)
        else compareChunks file1 file2 fuel (k + 1) (bytesCompared + bytesReadF1.1.toNat)
      -- the same end or error on both sides leaves the loop
      else some (true, bytesCompared)
    else some (true, bytesCompared)

/-- What is returned, and how many bytes were compared. -/
def isFileContentsEqual (env : Env) (file1 file2 : File) : Option (Bool × ℕ) :=
  if file1.stat ≠ some .file then some (false, 0)
  else if file2.stat ≠ some .file then some (false, 0)
  else if file1.content.length ≠ file2.content.length then some (false, 0)
  else if ¬ env.malloc1 then some (false, 0)
  else if ¬ env.malloc2 then some (false, 0)
  else if ¬ file1.opens then some (false, 0)
  else if ¬ file2.opens then some (false, 0)
  else compareChunks file1 file2 (file1.content.length + 1) 0 0

/-! ## What is promised -/

/-- The comparison ends, and if it finds the files equal, then both were read in full and are
the same. -/
def JudgedRight (env : Env) (file1 file2 : File) : Prop :=
  ∃ equal bytesCompared, isFileContentsEqual env file1 file2 = some (equal, bytesCompared) ∧
    (equal = true → bytesCompared = file1.content.length ∧
      bytesCompared = file2.content.length ∧ file1.content = file2.content)

/-- The chunks of the files are looked at. -/
structure Comparable (env : Env) (file1 file2 : File) : Prop where
  stat1 : file1.stat = some .file
  stat2 : file2.stat = some .file
  size : file1.content.length = file2.content.length
  malloc1 : env.malloc1 = true
  malloc2 : env.malloc2 = true
  opens1 : file1.opens = true
  opens2 : file2.opens = true

/-- The first `k` reads delivered the same bytes on both sides, `pos` in all. -/
inductive Agree (file1 file2 : File) : ℕ → ℕ → Prop where
  | start : Agree file1 file2 0 0
  | round {k pos : ℕ} : Agree file1 file2 k pos → pos < file1.content.length →
      file1.read k pos = file2.read k pos → 0 < (file1.read k pos).1 →
      Agree file1 file2 (k + 1) (pos + (file1.read k pos).1.toNat)

/-- After some reads that agree, the next ones return the same error on both sides, or nothing,
although the files go on. -/
def EndsEarly (file1 file2 : File) : Prop :=
  ∃ k pos, Agree file1 file2 k pos ∧ pos < file1.content.length ∧
    (file1.read k pos).1 = (file2.read k pos).1 ∧ (file1.read k pos).1 ≤ 0

variable {env : Env} {file1 file2 f : File} {fuel k pos n : ℕ} {equal : Bool}

/-- What a read that delivers something leaves in the buffer. -/
theorem read_of_pos (h : 0 < (f.read k pos).1) :
    (f.read k pos).2 = (f.content.drop pos).take (f.read k pos).1.toNat ∧
      pos + (f.read k pos).1.toNat ≤ f.content.length := by
  unfold File.read at h ⊢
  split at h
  · simp only at h
    omega
  · simp only [Int.toNat_natCast, List.length_take, List.length_drop] at h ⊢
    refine ⟨?_, by omega⟩
    rw [List.take_eq_take_iff]
    simp

/-- Where the reads agree, so do the contents. -/
theorem Agree.take_eq (h : Agree file1 file2 k pos) :
    pos ≤ file1.content.length ∧ (pos ≤ file2.content.length) ∧
      file1.content.take pos = file2.content.take pos := by
  induction h with
  | start => simp
  | @round k pos _ hlt heq hpos ih =>
    obtain ⟨-, -, ih⟩ := ih
    obtain ⟨hbytes1, hle1⟩ := read_of_pos hpos
    obtain ⟨hbytes2, hle2⟩ := read_of_pos (heq ▸ hpos)
    rw [← heq] at hbytes2 hle2
    refine ⟨hle1, hle2, ?_⟩
    rw [List.take_add, List.take_add, ih, ← hbytes1, ← hbytes2, heq]

/-- One round in which the reads agree. -/
theorem compareChunks_succ (hlt : pos < file1.content.length)
    (heq : file1.read k pos = file2.read k pos) (hpos : 0 < (file1.read k pos).1) :
    compareChunks file1 file2 (fuel + 1) k pos =
      compareChunks file1 file2 fuel (k + 1) (pos + (file1.read k pos).1.toNat) := by
  rw [compareChunks, if_pos hlt, if_neg (by simp [heq]), if_pos hpos, if_neg (by simp [heq])]

/-- The loop does the reads that agree. -/
theorem Agree.compareChunks_eq (h : Agree file1 file2 k pos) (fuel : ℕ) :
    compareChunks file1 file2 (fuel + k) 0 0 = compareChunks file1 file2 fuel k pos := by
  induction h generalizing fuel with
  | start => rfl
  | @round k pos _ hlt heq hpos ih =>
    rw [← Nat.add_assoc, Nat.add_right_comm, ih, compareChunks_succ hlt heq hpos]

theorem Agree.le (h : Agree file1 file2 k pos) : k ≤ pos := by
  induction h with
  | start => exact le_rfl
  | round _ _ _ hpos ih => omega

/-- The loop ends, since a round that goes on has read something. -/
theorem exists_compareChunks_eq (h : Agree file1 file2 k pos)
    (hfuel : file1.content.length < fuel + pos) :
    ∃ equal n, compareChunks file1 file2 fuel k pos = some (equal, n) ∧
      (equal = true → ∃ l, Agree file1 file2 l n ∧
        (file1.content.length ≤ n ∨ n < file1.content.length ∧
          (file1.read l n).1 = (file2.read l n).1 ∧ (file1.read l n).1 ≤ 0)) := by
  induction fuel generalizing k pos with
  | zero =>
    have hle := h.take_eq.1
    omega
  | succ fuel ih =>
    by_cases hlt : pos < file1.content.length
    · by_cases hret : (file1.read k pos).1 = (file2.read k pos).1
      · by_cases hpos : 0 < (file1.read k pos).1
        · by_cases hbytes : (file1.read k pos).2 = (file2.read k pos).2
          · have heq := Prod.ext hret hbytes
            rw [compareChunks_succ hlt heq hpos]
            exact ih (.round h hlt heq hpos) (by omega)
          · refine ⟨false, pos, ?_, by simp⟩
            rw [compareChunks, if_pos hlt, if_neg (by simp [hret]), if_pos hpos, if_pos hbytes]
        · refine ⟨true, pos, ?_, fun _ => ⟨k, h, .inr ⟨hlt, hret, not_lt.1 hpos⟩⟩⟩
          rw [compareChunks, if_pos hlt, if_neg (by simp [hret]), if_neg hpos]
      · refine ⟨false, pos, ?_, by simp⟩
        rw [compareChunks, if_pos hlt, if_pos hret]
    · refine ⟨true, pos, ?_, fun _ => ⟨k, h, .inl (not_lt.1 hlt)⟩⟩
      rw [compareChunks, if_neg hlt]

/-- Files that are not both there and of one size are judged different. -/
theorem isFileContentsEqual_of_not_comparable (h : ¬ Comparable env file1 file2) :
    isFileContentsEqual env file1 file2 = some (false, 0) := by
  unfold isFileContentsEqual
  split_ifs with h1 h2 h3 h4 h5 h6 h7
  any_goals rfl
  exact absurd ⟨not_not.1 h1, not_not.1 h2, not_not.1 h3, h4, h5, h6, h7⟩ h

theorem Comparable.isFileContentsEqual_eq (h : Comparable env file1 file2) :
    isFileContentsEqual env file1 file2 =
      compareChunks file1 file2 (file1.content.length + 1) 0 0 := by
  simp [isFileContentsEqual, h.stat1, h.stat2, h.size, h.malloc1, h.malloc2, h.opens1, h.opens2]

/-- The comparison ends, and files that it finds to be equal were read in full and are the
same, exactly if the loop is not left early by reads that end alike. -/
theorem judgedRight_iff (env : Env) (file1 file2 : File) :
    JudgedRight env file1 file2 ↔
      ¬ (Comparable env file1 file2 ∧ EndsEarly file1 file2) := by
  by_cases hc : Comparable env file1 file2
  · rw [JudgedRight, hc.isFileContentsEqual_eq]
    constructor
    · rintro ⟨equal, n, hrun, hright⟩ ⟨-, k, pos, hagree, hlt, hret, hle⟩
      have hk := hagree.le
      obtain ⟨left, hleft⟩ : ∃ left, file1.content.length + 1 = left + 1 + k :=
        ⟨file1.content.length - k, by omega⟩
      rw [hleft, hagree.compareChunks_eq, compareChunks, if_pos hlt, if_neg (by simp [hret]),
        if_neg hle.not_gt] at hrun
      obtain ⟨rfl, rfl⟩ := Prod.mk.inj (Option.some.inj hrun)
      exact hlt.ne (hright rfl).1
    · intro hnot
      have hfuel : file1.content.length < file1.content.length + 1 + 0 := Nat.lt_succ_self _
      obtain ⟨equal, n, hrun, hequal⟩ :=
        exists_compareChunks_eq (.start : Agree file1 file2 0 0) hfuel
      refine ⟨equal, n, hrun, fun h => ?_⟩
      obtain ⟨l, hagree, hle | hearly⟩ := hequal h
      · obtain ⟨hle1, hle2, htake⟩ := hagree.take_eq
        have hn : n = file1.content.length := le_antisymm hle1 hle
        have hn2 : n = file2.content.length := hn.trans hc.size
        refine ⟨hn, hn2, ?_⟩
        rwa [List.take_of_length_le hle, List.take_of_length_le hn2.ge] at htake
      · exact absurd ⟨hc, l, n, hagree, hearly⟩ hnot
  · refine iff_of_true ⟨false, 0, isFileContentsEqual_of_not_comparable hc, by simp⟩ ?_
    exact fun h => hc h.1

/-- Two files of one byte, both of which cannot be read. -/
theorem not_judgedRight_both_fail :
    ¬ JudgedRight ⟨true, true⟩ ⟨some .file, [1], true, fun _ => .fails 4⟩
      ⟨some .file, [2], true, fun _ => .fails 4⟩ := by
  rintro ⟨equal, n, hrun, hright⟩
  have heq : isFileContentsEqual ⟨true, true⟩ ⟨some .file, [1], true, fun _ => .fails 4⟩
      ⟨some .file, [2], true, fun _ => .fails 4⟩ = some (true, 0) := by decide
  obtain ⟨rfl, rfl⟩ := Prod.mk.inj (Option.some.inj (heq.symm.trans hrun))
  exact absurd (hright rfl).1 (by decide)

end PersonalCloud.SyncConfig.ContentsEqual
