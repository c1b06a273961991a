import PersonalCloud.StorageNode.Requests

/-!
# The access mode of an open file

Writes and removals of an open file are checked against one word, `accessMode`, which should
be the union of the flags that the open descriptors asked for. An open adds its flags to the
word and a release computes it anew, but a close only takes the descriptor out of the map.

## Main results

* `Server.modeExact_step` — a step keeps the word right exactly when it leaves no flag in it
  that nobody asks for.
* `Server.modeExact_iff` — the same for runs.
-/

namespace PersonalCloud.StorageNode

open PersonalCloud.Lib

/-! ## Unions of flags -/

/-- The bitwise or of the flags in a map. -/
def orFlags (m : OrdMap Origin UInt32) : UInt32 := m.entries.foldl (fun a x => a ||| x.2) 0

theorem hasFlag_iff {a flag : UInt32} :
    hasFlag a flag ↔ ∃ i, a.toBitVec.getLsbD i ∧ flag.toBitVec.getLsbD i := by
  have hzero : a &&& flag = 0 ↔ ∀ i, ¬(a.toBitVec.getLsbD i ∧ flag.toBitVec.getLsbD i) := by
    rw [← UInt32.toBitVec_inj, UInt32.toBitVec_and, UInt32.toBitVec_zero]
    constructor
    · rintro h i ⟨ha, hf⟩
      have hbit : (a.toBitVec &&& flag.toBitVec).getLsbD i = true := by
        rw [BitVec.getLsbD_and, ha, hf, Bool.and_true]
      rw [h, BitVec.getLsbD_zero] at hbit
      cases hbit
    · intro h
      refine BitVec.eq_of_getLsbD_eq fun i _ => ?_
      rw [BitVec.getLsbD_and, BitVec.getLsbD_zero, Bool.eq_false_iff, ne_eq, Bool.and_eq_true]
      exact h i
  rw [hasFlag, bne_iff_ne, ne_eq, hzero]
  exact Classical.not_forall_not

theorem hasFlag_or (a b flag : UInt32) :
    hasFlag (a ||| b) flag = (hasFlag a flag || hasFlag b flag) := by
  rw [Bool.eq_iff_iff, Bool.or_eq_true]
  simp only [hasFlag_iff, UInt32.toBitVec_or, BitVec.getLsbD_or, Bool.or_eq_true, or_and_right]
  exact exists_or

@[simp] theorem hasFlag_zero (flag : UInt32) : hasFlag 0 flag = false := by
  simp [hasFlag]

/-- A word of flags is known by the questions it answers. -/
theorem eq_of_hasFlag {a b : UInt32} (h : ∀ flag, hasFlag a flag = hasFlag b flag) : a = b := by
  have hsub {a b : UInt32} (h : ∀ flag, hasFlag a flag = hasFlag b flag) (i : Nat)
      (ha : a.toBitVec.getLsbD i) : b.toBitVec.getLsbD i := by
    by_contra hb
    have hi : i < 32 := by
      by_contra hge
      rw [BitVec.getLsbD_of_ge _ _ (Nat.le_of_not_lt hge)] at ha
      cases ha
    have hflag : hasFlag a (~~~b) := hasFlag_iff.2 ⟨i, ha, by simp_all⟩
    rw [h, hasFlag, UInt32.and_not_self] at hflag
    cases hflag
  rw [← UInt32.toBitVec_inj]
  refine BitVec.eq_of_getLsbD_eq fun i _ => ?_
  rw [Bool.eq_iff_iff]
  exact ⟨hsub h i, hsub (fun flag => (h flag).symm) i⟩

theorem hasFlag_foldl (l : List (Origin × UInt32)) (a flag : UInt32) :
    hasFlag (l.foldl (fun a x => a ||| x.2) a) flag =
      (hasFlag a flag || l.any fun x => hasFlag x.2 flag) := by
  induction l generalizing a with
  | nil => simp
  | cons x l ih => simp [ih, hasFlag_or, Bool.or_assoc]

theorem hasFlag_orFlags {m : OrdMap Origin UInt32} {flag : UInt32} :
    hasFlag (orFlags m) flag ↔ ∃ x ∈ m.entries, hasFlag x.2 flag := by
  simp [orFlags, hasFlag_foldl]

variable {m : OrdMap Origin UInt32} {origin : Origin} {flags old : UInt32}

theorem orFlags_insert (m : OrdMap Origin UInt32) (origin : Origin) (flags : UInt32) :
    orFlags (m.insert origin flags) = flags ||| orFlags (m.erase origin) := by
  refine eq_of_hasFlag fun flag => ?_
  rw [hasFlag_or, Bool.eq_iff_iff, Bool.or_eq_true]
  simp only [hasFlag_orFlags, Prod.exists, OrdMap.mem_insert, OrdMap.mem_erase]
  constructor
  · rintro ⟨k, v, ⟨rfl, rfl⟩ | hne, hv⟩
    · exact .inl hv
    · exact .inr ⟨k, v, hne, hv⟩
  · rintro (hv | ⟨k, v, hne, hv⟩)
    · exact ⟨origin, flags, .inl ⟨rfl, rfl⟩, hv⟩
    · exact ⟨k, v, .inr hne, hv⟩

theorem orFlags_of_find? (h : m.find? origin = some old) :
    orFlags m = old ||| orFlags (m.erase origin) := by
  rw [OrdMap.find?_eq_some] at h
  refine eq_of_hasFlag fun flag => ?_
  rw [hasFlag_or, Bool.eq_iff_iff, Bool.or_eq_true]
  simp only [hasFlag_orFlags, Prod.exists, OrdMap.mem_erase]
  constructor
  · rintro ⟨k, v, hmem, hv⟩
    by_cases hk : k = origin
    · subst hk
      exact .inl (OrdMap.eq_of_mem hmem h ▸ hv)
    · exact .inr ⟨k, v, ⟨hk, hmem⟩, hv⟩
  · rintro (hv | ⟨k, v, ⟨-, hmem⟩, hv⟩)
    · exact ⟨origin, old, h, hv⟩
    · exact ⟨k, v, hmem, hv⟩

theorem erase_eq_self (h : m.find? origin = none) : m.erase origin = m := by
  refine OrdMap.ext (List.filter_eq_self.2 fun x hx => ?_)
  rw [OrdMap.find?_eq_none] at h
  exact decide_eq_true fun hk => h x.2 (hk ▸ hx)

/-! ## The mode of a file -/

namespace VssFile

variable {f : VssFile}

/-- A write is answered with an error unless this holds. -/
def writeAllowed (f : VssFile) : Bool := hasFlag f.accessMode VSSI_FILE_OPEN_WRITE

/-- What a removal of the open file is refused without, unless it makes room for a rename. -/
def removeAllowed (f : VssFile) : Bool := hasFlag f.accessMode VSSI_FILE_OPEN_DELETE

/-- Some open descriptor asked for the flag. -/
def Asked (f : VssFile) (flag : UInt32) : Prop := ∃ x ∈ f.originFlags.entries, hasFlag x.2 flag

/-- While a descriptor is open, the mode is the union of the flags of the open descriptors, and
allows a write or a removal only if one of them asked for it. -/
structure ModeExact (f : VssFile) : Prop where
  mode : f.originFlags.entries ≠ [] → f.accessMode = orFlags f.originFlags
  write : f.originFlags.entries ≠ [] → f.writeAllowed → f.Asked VSSI_FILE_OPEN_WRITE
  remove : f.originFlags.entries ≠ [] → f.removeAllowed → f.Asked VSSI_FILE_OPEN_DELETE

theorem modeExact_iff : f.ModeExact ↔
    (f.originFlags.entries ≠ [] → f.accessMode = orFlags f.originFlags) := by
  refine ⟨ModeExact.mode, fun h => ⟨h, fun hne hw => ?_, fun hne hr => ?_⟩⟩
  · rw [writeAllowed, h hne, hasFlag_orFlags] at hw
    exact hw
  · rw [removeAllowed, h hne, hasFlag_orFlags] at hr
    exact hr

/-! ### What the operations do to the map and the word -/

def modes (f : VssFile) : OrdMap Origin UInt32 × UInt32 := (f.originFlags, f.accessMode)

/-- Only the map and the word matter. -/
theorem modeExact_congr {g : VssFile} (h : g.modes = f.modes) : g.ModeExact ↔ f.ModeExact := by
  obtain ⟨hflags, hmode⟩ := Prod.mk.inj h
  rw [modeExact_iff, modeExact_iff, hflags, hmode]

theorem ModeExact.of_modes {g : VssFile} (h : f.ModeExact) (hmodes : g.modes = f.modes) :
    g.ModeExact :=
  (modeExact_congr hmodes).2 h

section Frame

variable (f : VssFile) (object : ObjectPtr) (origin : Origin) (context : Context)
  (start stop : Nat) (mode : UInt64) (flags : UInt32) (write : Bool)

@[simp] theorem modes_releaseBrlocks : (f.releaseBrlocks origin).modes = f.modes := by
  unfold releaseBrlocks
  suffices ∀ (ls : List Flock) (g : VssFile),
      (ls.foldl (fun g l => g.wakeRangeLock l.start l.stop) g).modes = g.modes from this _ _
  intro ls
  induction ls with
  | nil => exact fun g => rfl
  | cons l ls ih => exact fun g => ih _

@[simp] theorem modes_removeRangeLock :
    (f.removeRangeLock origin mode start stop).2.modes = f.modes := by
  unfold removeRangeLock
  split <;> rfl

@[simp] theorem modes_addRangeLock :
    (f.addRangeLock object origin mode start stop).2.modes = f.modes := by
  unfold addRangeLock
  split <;> rfl

@[simp] theorem modes_removeOplocks : (f.removeOplocks object).2.modes = f.modes := by
  unfold removeOplocks
  split <;> rfl

@[simp] theorem modes_checkOplockConflict :
    (f.checkOplockConflict object write).2.modes = f.modes := rfl

@[simp] theorem modes_setLockRange :
    (f.setLockRange object origin flags mode start stop).2.modes = f.modes := by
  rw [snd_setLockRange]
  split_ifs <;> simp

@[simp] theorem modes_setOplock : (f.setOplock object mode).2.modes = f.modes := by
  unfold setOplock
  split_ifs
  all_goals first | rfl | exact modes_removeOplocks f object

@[simp] theorem modes_checkIo :
    (f.checkIo object origin mode start stop write).2.modes = f.modes := by
  unfold checkIo
  split_ifs <;> rfl

@[simp] theorem modes_addObject : (f.addObject object).modes = f.modes := by
  unfold addObject
  split <;> rfl

@[simp] theorem modes_dropObjectRef : (f.dropObjectRef object).2.modes = f.modes := by
  unfold dropObjectRef
  split
  · rfl
  · split <;> rfl

@[simp] theorem modes_eraseObjectRefs : (f.eraseObjectRefs object).2.modes = f.modes := by
  unfold eraseObjectRefs
  split <;> rfl

/-- The descriptors of a dead object stay in the map. -/
theorem modes_removeObject : (f.removeObject object).2.modes = f.modes := by
  have hrefs : ((f.removeOplocks object).2.removeBrlocks object).2.modes = f.modes :=
    modes_removeOplocks f object
  unfold removeObject
  simp only
  split_ifs
  · exact (modes_eraseObjectRefs _ object).trans hrefs
  · exact (modes_eraseObjectRefs _ object).trans hrefs

theorem modes_orWaitOplock {r : Status × VssFile} (h : r.2.modes = f.modes) :
    (orWaitOplock r context object write).2.modes = f.modes := by
  unfold orWaitOplock
  split_ifs <;> exact h

theorem modes_releaseOrigin : (f.releaseOrigin origin).modes =
    (f.originFlags.erase origin,
      if (f.originFlags.erase origin).size = 0 then
        VSSI_FILE_ACCESS_MODES ||| VSSI_FILE_SHARING_MODES
      else orFlags (f.originFlags.erase origin)) := by
  have hflags : (f.releaseBrlocks origin).originFlags = f.originFlags :=
    congrArg Prod.fst (modes_releaseBrlocks f origin)
  unfold releaseOrigin
  simp only [modes, hflags]
  rfl

/-- A close leaves the word as it is. -/
theorem modes_removeReference : (f.removeReference object origin).2.modes =
    (f.originFlags.erase origin, f.accessMode) := by
  have hdrop : ((f.releaseBrlocks origin).dropObjectRef object).2.modes = f.modes :=
    (modes_dropObjectRef _ object).trans (modes_releaseBrlocks f origin)
  obtain ⟨hflags, hmode⟩ := Prod.mk.inj hdrop
  set g := ((f.releaseBrlocks origin).dropObjectRef object).2
  have herase : ({ g with originFlags := g.originFlags.erase origin } : VssFile).modes =
      (f.originFlags.erase origin, f.accessMode) := by
    rw [modes, hflags, hmode]
  unfold removeReference
  simp only
  split_ifs
  · exact (modes_removeOplocks _ object).trans herase
  · exact (modes_removeOplocks _ object).trans herase
  · exact herase
  · exact herase

theorem modes_openAgain : (f.openAgain object origin flags).2.modes =
    if (f.addReference flags).1 = .success then
      (f.originFlags.insert origin flags, f.accessMode ||| flags)
    else f.modes := by
  unfold openAgain
  simp only
  have hadd : (f.addReference flags).2.modes = f.modes := by
    unfold addReference
    split <;> rfl
  split_ifs
  · obtain ⟨hflags, hmode⟩ := Prod.mk.inj ((modes_addObject _ object).trans hadd)
    simp only [modes, addOpenOrigin, addOrigin, hflags, hmode]
  · exact hadd

end Frame

theorem modeExact_opened (fileId : UInt32) (object : ObjectPtr) (origin : Origin)
    (flags : UInt32) : (opened fileId object origin flags).ModeExact := by
  have hmodes : (opened fileId object origin flags).modes =
      (OrdMap.empty.insert origin flags, flags ||| flags) := by
    obtain ⟨hflags, hmode⟩ := Prod.mk.inj (modes_addObject (new fileId flags) object)
    simp only [opened, modes, addOpenOrigin, addOrigin, hflags, hmode]
    rfl
  obtain ⟨hflags, hmode⟩ := Prod.mk.inj hmodes
  rw [modeExact_iff, hflags, hmode]
  intro _
  rw [orFlags_insert, UInt32.or_self]
  exact (UInt32.or_zero).symm

/-! ### When the word stays right -/

/-- Every flag of the first word is in the second. -/
def Within (flags asked : UInt32) : Prop := flags ||| asked = asked

/-- The request takes no descriptor's flags out of the map that nobody else asks for, and adds
none to a word that an emptied map left behind. -/
def KeepsMode (f : VssFile) : Request → Prop
  | .openFile _ origin flags => (f.addReference flags).1 = .success →
      if f.originFlags.entries = [] then Within f.accessMode flags
      else ∀ old, f.originFlags.find? origin = some old →
        Within old (flags ||| orFlags (f.originFlags.erase origin))
  | .closeFile _ origin => origin % 2 ^ 32 ≠ 0 → f.validateOrigin origin = true →
      ∀ old, f.originFlags.find? origin = some old →
        (f.originFlags.erase origin).entries ≠ [] →
          Within old (orFlags (f.originFlags.erase origin))
  | _ => True

theorem fst_addReference (f : VssFile) (flags : UInt32) : (f.addReference flags).1 =
    if f.originFlags.entries.any fun x => checkModeConflict x.2 flags then .access
    else .success := by
  unfold addReference
  split <;> rfl

theorem keepsMode_requeued (f : VssFile) (requeued : List Context) (request : Request) :
    KeepsMode { f with requeued := requeued } request ↔ f.KeepsMode request := by
  cases request with
  | openFile object origin flags => simp only [KeepsMode, fst_addReference]
  | _ => rfl

theorem orFlags_of_entries_eq_nil {m : OrdMap Origin UInt32} (h : m.entries = []) :
    orFlags m = 0 := by
  rw [orFlags, h, List.foldl_nil]

theorem entries_insert_ne_nil (m : OrdMap Origin UInt32) (origin : Origin) (flags : UInt32) :
    (m.insert origin flags).entries ≠ [] :=
  List.ne_nil_of_mem (OrdMap.mem_insert.2 (.inl ⟨rfl, rfl⟩))

theorem modeExact_openAgain (h : f.ModeExact) (object : ObjectPtr) (origin : Origin)
    (flags : UInt32) :
    (f.openAgain object origin flags).2.ModeExact ↔
      f.KeepsMode (.openFile object origin flags) := by
  have hmodes := modes_openAgain f object origin flags
  unfold KeepsMode
  split_ifs at hmodes with hadded
  swap
  · rw [modeExact_congr hmodes]
    exact iff_of_true h fun hsuccess => absurd hsuccess hadded
  obtain ⟨hflags, hmode⟩ := Prod.mk.inj hmodes
  rw [modeExact_iff, hflags, hmode, orFlags_insert]
  simp only [entries_insert_ne_nil, hadded, ne_eq, not_false_eq_true, forall_const]
  split_ifs with hempty
  · have herase : (f.originFlags.erase origin).entries = [] := by simp [OrdMap.erase, hempty]
    rw [orFlags_of_entries_eq_nil herase, UInt32.or_zero]
    rfl
  · rw [h.mode hempty]
    cases hfind : f.originFlags.find? origin with
    | none =>
      rw [erase_eq_self hfind]
      exact iff_of_true (UInt32.or_comm _ _) (by simp)
    | some old =>
      rw [orFlags_of_find? hfind]
      simp only [Option.some.injEq, forall_eq', Within]
      rw [UInt32.or_assoc, UInt32.or_comm (orFlags _) flags]

theorem modeExact_releaseOrigin (f : VssFile) (origin : Origin) :
    (f.releaseOrigin origin).ModeExact := by
  obtain ⟨hflags, hmode⟩ := Prod.mk.inj (modes_releaseOrigin f origin)
  rw [modeExact_iff, hflags, hmode]
  intro hne
  rw [if_neg]
  rwa [OrdMap.size, List.length_eq_zero_iff]

theorem modeExact_removeReference (h : f.ModeExact) (object : ObjectPtr) (origin : Origin) :
    (f.removeReference object origin).2.ModeExact ↔
      ∀ old, f.originFlags.find? origin = some old →
        (f.originFlags.erase origin).entries ≠ [] →
          Within old (orFlags (f.originFlags.erase origin)) := by
  obtain ⟨hflags, hmode⟩ := Prod.mk.inj (modes_removeReference f object origin)
  rw [modeExact_iff, hflags, hmode]
  cases hfind : f.originFlags.find? origin with
  | none =>
    rw [erase_eq_self hfind]
    exact iff_of_true h.mode (by simp)
  | some old =>
    simp only [Option.some.injEq, forall_eq', Within]
    refine forall_congr' fun hne => ?_
    have hne' : f.originFlags.entries ≠ [] := by
      intro hnil
      exact hne (by simp [OrdMap.erase, hnil])
    rw [h.mode hne', orFlags_of_find? hfind]

theorem modeExact_handle (h : f.ModeExact) (context : Context) (remainingSpace : Nat)
    (request : Request) :
    (f.handle context remainingSpace request).2.ModeExact ↔ f.KeepsMode request := by
  have hsame (hmodes : (f.handle context remainingSpace request).2.modes = f.modes)
      (hkeep : f.KeepsMode request) :
      (f.handle context remainingSpace request).2.ModeExact ↔ f.KeepsMode request :=
    iff_of_true (h.of_modes hmodes) hkeep
  cases request with
  | openFile object origin flags => exact modeExact_openAgain h object origin flags
  | readFile object origin offset length =>
    refine hsame ?_ trivial
    simp only [VssFile.handle]
    split_ifs
    · rfl
    · rfl
    · exact modes_orWaitOplock f object context false (modes_checkIo ..)
  | writeFile object origin offset length =>
    refine hsame ?_ trivial
    simp only [VssFile.handle]
    split_ifs
    · rfl
    · rfl
    · refine modes_orWaitOplock f object context true ?_
      simp only [VssFile.writeFile]
      split_ifs <;> rfl
  | truncateFile object origin offset =>
    refine hsame ?_ trivial
    simp only [VssFile.handle]
    split_ifs
    · rfl
    · rfl
    · exact modes_orWaitOplock f object context true (modes_checkIo ..)
  | setLock object mode => exact hsame (modes_setOplock f object mode) trivial
  | getLock object => exact hsame rfl trivial
  | setLockRange object origin flags mode start stop =>
    refine hsame ?_ trivial
    have hset := modes_setLockRange f object origin start stop mode flags
    simp only [VssFile.handle]
    split_ifs
    · rfl
    · exact hset
    · exact hset
    · exact hset
  | releaseFile object origin =>
    refine iff_of_true ?_ trivial
    simp only [VssFile.handle]
    split_ifs
    · exact h
    · exact modeExact_releaseOrigin f origin
  | closeFile object origin =>
    simp only [VssFile.handle, VssFile.closeFile, KeepsMode]
    split_ifs with hzero hvalid
    · exact iff_of_true h fun hne => absurd hzero hne
    · have hremoved : (f.removeOpenOrigin origin).ModeExact := h.of_modes rfl
      refine (modeExact_removeReference hremoved object origin).trans ?_
      exact ⟨fun hkeep _ _ => hkeep, fun hkeep => hkeep hzero hvalid⟩
    · exact iff_of_true h fun _ hv => absurd hv hvalid

end VssFile

/-! ## Runs -/

namespace Server

/-- The condition on the request that an event has the server handle. -/
def KeepsMode (s : Server) (e : ServerEvent) : Prop :=
  ∀ request, s.requested e = some request → s.file.KeepsMode request

theorem modeExact_step {s t : Server} {e : ServerEvent} (h : s.file.ModeExact)
    (hstep : s.step e = some t) : t.file.ModeExact ↔ s.KeepsMode e := by
  cases effect_of_step hstep with
  | handled request context remainingSpace f hrequested before file =>
    obtain ⟨requeued, rfl⟩ := before
    have hbefore : VssFile.ModeExact { s.file with requeued := requeued } := h.of_modes rfl
    rw [file, KeepsMode, hrequested]
    refine (VssFile.modeExact_handle hbefore context remainingSpace request).trans ?_
    simp only [Option.some.injEq, forall_eq']
    exact VssFile.keepsMode_requeued s.file requeued request
  | expired context =>
    exact iff_of_true (h.of_modes rfl) (by simp [KeepsMode, requested])
  | released object =>
    refine iff_of_true ?_ (by simp [KeepsMode, requested])
    exact h.of_modes (VssFile.modes_removeObject s.file object)

variable {fileId flags : UInt32} {object : ObjectPtr} {origin : Origin} {s : Server}
  {tr : List (Server × ServerEvent)}

/-- The mode is exact in every state of a file's life if and only if all requests keep it so. -/
theorem modeExact_iff_meets (h : Run step (opened fileId object origin flags) tr s) :
    Always (fun s => s.file.ModeExact) tr s ↔ Meets KeepsMode tr :=
  h.always_iff_meets (I := fun _ => True) trivial (fun _ _ _ _ _ => trivial)
    (VssFile.modeExact_opened fileId object origin flags)
    fun _ _ _ _ hexact hstep => modeExact_step hexact hstep

/-- A writer opens the file beside a reader, and closes it. -/
def writerCloses : List ServerEvent :=
  [.receive (.openFile 2 12 (VSSI_FILE_OPEN_WRITE ||| VSSI_FILE_SHARE_READ |||
      VSSI_FILE_SHARE_WRITE)) 0,
    .receive (.closeFile 2 12) 0]

/-- The file that the reader opened. -/
def openedByReader : Server :=
  opened 1 1 11 (VSSI_FILE_OPEN_READ ||| VSSI_FILE_SHARE_READ ||| VSSI_FILE_SHARE_WRITE)

theorem modeExact_iff_meets_writerCloses : ∃ s, exec step openedByReader writerCloses = some s ∧
    (Always (fun s => s.file.ModeExact) (trace step openedByReader writerCloses).reverse s ↔
      Meets KeepsMode (trace step openedByReader writerCloses).reverse) :=
  ⟨_, rfl, modeExact_iff_meets (run_trace rfl)⟩

/-- Only the reader is left, and writes are still allowed. -/
theorem not_modeExact_writerCloses : ∃ s, exec step openedByReader writerCloses = some s ∧
    s.file.originFlags.entries.map Prod.fst = [11] ∧ s.file.writeAllowed = true ∧
      ¬s.file.ModeExact := by
  refine ⟨_, rfl, by decide +kernel, by decide +kernel, ?_⟩
  intro hexact
  have hmode := hexact.mode (by decide +kernel)
  revert hmode
  decide +kernel

end Server

end PersonalCloud.StorageNode
