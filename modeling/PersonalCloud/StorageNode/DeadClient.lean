import PersonalCloud.StorageNode.LockWaits

/-!
# Clients that die

When a client's object on the dataset is closed, `removeObject` takes what the object holds
on the file: its oplocks, its range locks, and its share of the reference count. The open
modes are kept by origin, though, and nothing there is keyed by the object, so the origins
the client still had open stay in `originFlags` and `openOrigins` for as long as another
client keeps the file open, and go on refusing opens.

An origin belongs to one object, which made it from its own handle. `owner` says to which.
What the opens in force ought to be is the fold `inForce` of the log of opens; leaving an
object out of the log says what they would be without it.

## Main results

* `mem_inForce_without` — an object leaves the opens of the others alone.
* `Server.Accounts.next` — the reference counts are those of the open origins.
* `forgetsTheDead_iff` — a run leaves no trace of closed objects exactly when every object
  had closed its files on a file that others keep open.
-/

namespace PersonalCloud.StorageNode

open PersonalCloud.Lib

/-! ## The opens in force -/

def OpenEvent.object : OpenEvent → ObjectPtr
  | .opened object _ _ | .released object _ | .objectReleased object => object

/-- The opens that a log, newest first, leaves in force, with who made them. -/
def inForce : List OpenEvent → OrdMap Origin (ObjectPtr × UInt32)
  | [] => .empty
  | .opened object origin flags :: log => (inForce log).insert origin (object, flags)
  | .released _ origin :: log => (inForce log).erase origin
  | .objectReleased object :: log => (inForce log).filter fun x => x.2.1 ≠ object

/-- The log as it would be if the object had done nothing. -/
def without (object : ObjectPtr) (log : List OpenEvent) : List OpenEvent :=
  log.filter fun e => e.object ≠ object

/-- How an open request fares against the opens in force. -/
def openVerdict (opens : OrdMap Origin (ObjectPtr × UInt32)) (flags : UInt32) : VssiResult :=
  if opens.entries.any fun x => VssFile.checkModeConflict x.2.2 flags then .access else .success

section Log

variable {owner : Origin → ObjectPtr}

/-- The event is about an origin of the object that it names. -/
def OpenEvent.OwnedBy (owner : Origin → ObjectPtr) : OpenEvent → Prop
  | .opened object origin _ | .released object origin => owner origin = object
  | .objectReleased _ => True

theorem owner_of_mem_inForce {log : List OpenEvent} (h : ∀ e ∈ log, e.OwnedBy owner)
    {origin : Origin} {object : ObjectPtr} {flags : UInt32}
    (hm : (origin, object, flags) ∈ (inForce log).entries) : owner origin = object := by
  induction log with
  | nil => simp [inForce] at hm
  | cons e log ih =>
    rw [List.forall_mem_cons] at h
    have ih := ih h.2
    cases e with
    | opened object' origin' flags' =>
      have ho : owner origin' = object' := h.1
      simp only [inForce, OrdMap.mem_insert, Prod.mk.injEq] at hm
      rcases hm with ⟨rfl, rfl, rfl⟩ | ⟨-, hm⟩
      · exact ho
      · exact ih hm
    | released object' origin' =>
      simp only [inForce, OrdMap.mem_erase] at hm
      exact ih hm.2
    | objectReleased object' =>
      simp only [inForce, OrdMap.mem_filter] at hm
      exact ih hm.1

/-- What an object does touches its own opens only. -/
theorem mem_inForce_without {log : List OpenEvent} (h : ∀ e ∈ log, e.OwnedBy owner)
    (object : ObjectPtr) {x : Origin × ObjectPtr × UInt32} :
    x ∈ (inForce (without object log)).entries ↔
      x ∈ (inForce log).entries ∧ x.2.1 ≠ object := by
  obtain ⟨origin, object', flags⟩ := x
  induction log with
  | nil => simp [without, inForce]
  | cons e log ih =>
    have hlog := h
    rw [List.forall_mem_cons] at h
    have ih := ih h.2
    have hown := h.1
    simp only [without] at ih ⊢
    by_cases he : e.object = object
    · rw [List.filter_cons_of_neg (by simp [he]), ih]
      -- the event is about an open of the object itself
      cases e with
      | opened object₁ origin₁ flags₁ =>
        simp only [OpenEvent.object, OpenEvent.OwnedBy] at he hown
        have := @owner_of_mem_inForce owner log h.2 origin object' flags
        simp only [inForce, OrdMap.mem_insert]
        grind
      | released object₁ origin₁ =>
        simp only [OpenEvent.object, OpenEvent.OwnedBy] at he hown
        have := @owner_of_mem_inForce owner log h.2 origin object' flags
        simp only [inForce, OrdMap.mem_erase]
        grind
      | objectReleased object₁ =>
        simp only [OpenEvent.object] at he
        simp only [inForce, OrdMap.mem_filter]
        grind
    · rw [List.filter_cons_of_pos (by simpa using he)]
      cases e with
      | opened object₁ origin₁ flags₁ =>
        simp only [OpenEvent.object] at he
        simp only [inForce, OrdMap.mem_insert, ih]
        grind
      | released object₁ origin₁ =>
        simp only [inForce, OrdMap.mem_erase, ih]
        grind
      | objectReleased object₁ =>
        simp only [inForce, OrdMap.mem_filter, ih]
        grind

end Log

/-! ## References and open origins -/

def Request.origin? : Request → Option Origin
  | .openFile _ origin _ | .readFile _ origin _ _ | .writeFile _ origin _ _
  | .truncateFile _ origin _ | .setLockRange _ origin _ _ _ _ | .releaseFile _ origin
  | .closeFile _ origin => some origin
  | .setLock .. | .getLock .. => none

/-- The requests that open the file or take an open back. -/
def Request.opens : Request → Bool
  | .openFile .. | .releaseFile .. | .closeFile .. => true
  | _ => false

namespace VssFile

variable {f g : VssFile} {owner : Origin → ObjectPtr}

/-- What opens and closes of the file change. -/
def openState (f : VssFile) :
    Int × OrdMap ObjectPtr Int × OrdMap Origin UInt32 × List Origin :=
  (f.refcount, f.objectRefs, f.originFlags, f.openOrigins)

theorem openState_eq_iff : g.openState = f.openState ↔
    g.refcount = f.refcount ∧ g.objectRefs = f.objectRefs ∧ g.originFlags = f.originFlags ∧
      g.openOrigins = f.openOrigins := by
  simp [openState]

section Frame

variable (f : VssFile) (object : ObjectPtr) (origin : Origin)

theorem openState_foldl_wakeRangeLock (ls : List Flock) (f : VssFile) :
    (ls.foldl (fun g l => g.wakeRangeLock l.start l.stop) f).openState = f.openState := by
  induction ls generalizing f with
  | nil => rfl
  | cons l ls ih => exact ih (f.wakeRangeLock l.start l.stop)

@[simp] theorem openState_releaseBrlocks : (f.releaseBrlocks origin).openState = f.openState :=
  openState_foldl_wakeRangeLock ..

@[simp] theorem openState_removeOplocks :
    (f.removeOplocks object).2.openState = f.openState := by
  unfold removeOplocks
  split <;> rfl

@[simp] theorem openState_removeRangeLock (mode : UInt64) (start stop : Nat) :
    (f.removeRangeLock origin mode start stop).2.openState = f.openState := by
  unfold removeRangeLock
  split <;> rfl

@[simp] theorem openState_addRangeLock (mode : UInt64) (start stop : Nat) :
    (f.addRangeLock object origin mode start stop).2.openState = f.openState := by
  unfold addRangeLock
  split <;> rfl

@[simp] theorem openState_checkOplockConflict (write : Bool) :
    (f.checkOplockConflict object write).2.openState = f.openState := rfl

@[simp] theorem openState_setLockRange (flags : UInt32) (mode : UInt64) (start stop : Nat) :
    (f.setLockRange object origin flags mode start stop).2.openState = f.openState := by
  rw [snd_setLockRange]
  split_ifs <;> simp

@[simp] theorem openState_setOplock (mode : UInt64) :
    (f.setOplock object mode).2.openState = f.openState := by
  simp only [setOplock]
  split_ifs
  · rfl
  · simp
  · rfl
  · rfl
  · rfl

@[simp] theorem openState_checkIo (mode : UInt64) (start stop : Nat) (write : Bool) :
    (f.checkIo object origin mode start stop write).2.openState = f.openState := by
  simp only [checkIo]
  split_ifs <;> simp

@[simp] theorem openState_writeFile (offset length remainingSpace : Nat) :
    (f.writeFile object origin offset length remainingSpace).2.openState = f.openState := by
  simp only [writeFile]
  split_ifs <;> simp

theorem openState_orWaitOplock (r : Status × VssFile) (context : Context) (write : Bool) :
    (orWaitOplock r context object write).2.openState = r.2.openState := by
  unfold orWaitOplock
  split_ifs <;> rfl

theorem addObject_eq : f.addObject object =
    { f with objectRefs := f.objectRefs.insert object ((f.objectRefs.find? object).getD 0 + 1) } := by
  unfold addObject
  split <;> simp [*]

theorem fst_openAgain (flags : UInt32) :
    (f.openAgain object origin flags).1 = (f.addReference flags).1 := by
  simp only [openAgain]
  split_ifs with h
  · exact h.symm
  · rfl

theorem openState_openAgain (flags : UInt32) (h : (f.addReference flags).1 = .success) :
    (f.openAgain object origin flags).2.openState =
      (f.refcount + 1,
        f.objectRefs.insert object ((f.objectRefs.find? object).getD 0 + 1),
        f.originFlags.insert origin flags, f.openOrigins ++ [origin]) := by
  simp only [openAgain, h, if_pos, addObject_eq]
  unfold addReference at h ⊢
  split_ifs at h ⊢
  rfl

theorem openState_openAgain_of_refused (flags : UInt32) (h : (f.addReference flags).1 ≠ .success) :
    (f.openAgain object origin flags).2.openState = f.openState := by
  simp only [openAgain, h, if_false]
  unfold addReference at h ⊢
  split_ifs at h ⊢ <;> simp_all

/-- The references that are left when the object drops one. -/
def dropRef (refs : OrdMap ObjectPtr Int) (object : ObjectPtr) : OrdMap ObjectPtr Int :=
  match refs.find? object with
  | none => refs
  | some n => if n - 1 = 0 then refs.erase object else refs.insert object (n - 1)

theorem find?_dropRef {refs : OrdMap ObjectPtr Int} {object : ObjectPtr} {n : Int}
    (h : refs.find? object = some n) (j : ObjectPtr) :
    (dropRef refs object).find? j =
      if j = object then (if n - 1 = 0 then none else some (n - 1)) else refs.find? j := by
  simp only [dropRef, h]
  split_ifs with hn hj hj
  · rw [hj, OrdMap.find?_erase_self]
  · rw [OrdMap.find?_erase_of_ne _ hj]
  · rw [hj, OrdMap.find?_insert_self]
  · rw [OrdMap.find?_insert_of_ne _ _ hj]

theorem total_dropRef {refs : OrdMap ObjectPtr Int} {object : ObjectPtr} {n : Int}
    (h : refs.find? object = some n) : (dropRef refs object).total = refs.total - 1 := by
  simp only [dropRef, h]
  split_ifs
  · rw [OrdMap.total_erase, h, Option.getD_some]
    omega
  · rw [OrdMap.total_insert, OrdMap.total_erase, h, Option.getD_some]
    omega

theorem openState_dropObjectRef : (f.dropObjectRef object).2.openState =
    (f.refcount, dropRef f.objectRefs object, f.originFlags, f.openOrigins) := by
  cases h : f.objectRefs.find? object with
  | none => simp [dropObjectRef, dropRef, h, openState]
  | some n => by_cases hn : n - 1 = 0 <;> simp [dropObjectRef, dropRef, h, hn, openState]

theorem openState_removeReference : (f.removeReference object origin).2.openState =
    (if f.refcount = 0 then 0 else f.refcount - 1, dropRef f.objectRefs object,
      f.originFlags.erase origin, f.openOrigins) := by
  have hdrop := openState_dropObjectRef (f.releaseBrlocks origin) object
  obtain ⟨h₁, h₂, h₃, h₄⟩ := openState_eq_iff.1 (openState_releaseBrlocks f origin)
  rw [h₁, h₂, h₃, h₄] at hdrop
  simp only [openState, Prod.mk.injEq] at hdrop
  obtain ⟨d₁, d₂, d₃, d₄⟩ := hdrop
  have hoplocks : ∀ g : VssFile, (g.removeOplocks object).2.refcount = g.refcount ∧
      (g.removeOplocks object).2.objectRefs = g.objectRefs ∧
      (g.removeOplocks object).2.originFlags = g.originFlags ∧
      (g.removeOplocks object).2.openOrigins = g.openOrigins :=
    fun g => openState_eq_iff.1 (openState_removeOplocks g object)
  simp only [removeReference, openState]
  split_ifs <;> simp_all

end Frame

/-- The reference counts are those of the open origins. -/
structure Accounts (owner : Origin → ObjectPtr) (f : VssFile) : Prop where
  refs : ∀ object, (f.objectRefs.find? object).getD 0 =
    (f.openOrigins.countP fun origin => owner origin = object : Nat)
  positive : ∀ object n, f.objectRefs.find? object = some n → 0 < n
  refcount : f.refcount = f.objectRefs.total
  flags : ∀ x ∈ f.originFlags.entries, x.1 ∈ f.openOrigins

theorem Accounts.congr (h : f.Accounts owner) (he : g.openState = f.openState) :
    g.Accounts owner := by
  obtain ⟨h₁, h₂, h₃, h₄⟩ := openState_eq_iff.1 he
  obtain ⟨hrefs, hpos, hcount, hflags⟩ := h
  exact ⟨by simpa [h₂, h₄] using hrefs, by simpa [h₂] using hpos, by rw [h₁, h₂, hcount],
    by simpa [h₃, h₄] using hflags⟩

theorem Accounts.find?_eq_none_iff (h : f.Accounts owner) {object : ObjectPtr} :
    f.objectRefs.find? object = none ↔ ∀ origin ∈ f.openOrigins, owner origin ≠ object := by
  have hrefs := h.refs object
  have hpos := h.positive object
  have hzero : (f.openOrigins.countP fun origin => owner origin = object) = 0 ↔
      ∀ origin ∈ f.openOrigins, owner origin ≠ object := by
    simp [List.countP_eq_zero]
  rw [← hzero]
  cases hf : f.objectRefs.find? object with
  | none =>
    simp only [hf, Option.getD_none] at hrefs
    simp only [true_iff]
    omega
  | some n =>
    have := hpos n hf
    simp only [hf, Option.getD_some] at hrefs
    simp only [reduceCtorEq, false_iff]
    omega

theorem Accounts.openAgain (h : f.Accounts owner) (origin : Origin) (flags : UInt32) :
    (f.openAgain (owner origin) origin flags).2.Accounts owner := by
  by_cases hadd : (f.addReference flags).1 = .success
  · have he := openState_openAgain f (owner origin) origin flags hadd
    simp only [openState, Prod.mk.injEq] at he
    obtain ⟨h₁, h₂, h₃, h₄⟩ := he
    have hrefs := h.refs
    constructor
    · intro object
      rw [h₂, h₄, OrdMap.find?_insert, List.countP_append]
      by_cases ho : object = owner origin
      · simp [ho, hrefs]
      · simp [ho, hrefs, Ne.symm ho]
    · intro object n hn
      rw [h₂, OrdMap.find?_insert] at hn
      split_ifs at hn with ho
      · have := hrefs (owner origin)
        obtain rfl := Option.some.inj hn
        omega
      · exact h.positive object n hn
    · rw [h₁, h₂, h.refcount, OrdMap.total_insert, OrdMap.total_erase]
      omega
    · intro x hx
      obtain ⟨o, m⟩ := x
      rw [h₃, OrdMap.mem_insert] at hx
      rw [h₄, List.mem_append, List.mem_singleton]
      rcases hx with ⟨rfl, -⟩ | ⟨-, hx⟩
      · exact .inr rfl
      · exact .inl (h.flags _ hx)
  · exact h.congr (openState_openAgain_of_refused f _ _ flags hadd)

theorem Accounts.releaseOrigin (h : f.Accounts owner) (origin : Origin) :
    (f.releaseOrigin origin).Accounts owner := by
  obtain ⟨h₁, h₂, h₃, h₄⟩ := openState_eq_iff.1 (openState_releaseBrlocks f origin)
  refine ⟨?_, ?_, ?_, ?_⟩
  · simpa [VssFile.releaseOrigin, h₂, h₄] using h.refs
  · simpa [VssFile.releaseOrigin, h₂] using h.positive
  · simpa [VssFile.releaseOrigin, h₁, h₂] using h.refcount
  · rintro ⟨o, m⟩ hx
    have hx : (o, m) ∈ (f.originFlags.erase origin).entries := by
      simpa [VssFile.releaseOrigin, h₃] using hx
    simpa [VssFile.releaseOrigin, h₄] using h.flags _ (OrdMap.mem_erase.1 hx).2

theorem openState_closeFile (object : ObjectPtr) {origin : Origin}
    (h : f.validateOrigin origin = true) : (f.closeFile object origin).2.openState =
      (if f.refcount = 0 then 0 else f.refcount - 1, dropRef f.objectRefs object,
        f.originFlags.erase origin, f.openOrigins.erase origin) := by
  simp only [VssFile.closeFile, h, if_true]
  exact openState_removeReference (f.removeOpenOrigin origin) object origin

/-- A close takes one open of the origin's object back. -/
theorem Accounts.closeFile (h : f.Accounts owner) (hr : 0 < f.refcount) {origin : Origin}
    (h0 : origin ≠ 0) : (f.closeFile (owner origin) origin).2.Accounts owner := by
  by_cases hvalid : f.validateOrigin origin = true
  · have hmem : origin ∈ f.openOrigins := by simpa [validateOrigin, h0] using hvalid
    obtain ⟨n, hn⟩ : ∃ n, f.objectRefs.find? (owner origin) = some n := by
      refine Option.ne_none_iff_exists'.1 fun hnone => ?_
      exact h.find?_eq_none_iff.1 hnone origin hmem rfl
    have he := openState_closeFile (owner origin) hvalid
    simp only [openState, Prod.mk.injEq] at he
    obtain ⟨h₁, h₂, h₃, h₄⟩ := he
    constructor
    · intro object
      have hrefs := h.refs object
      have hcount := (List.perm_cons_erase hmem).countP_eq fun o => decide (owner o = object)
      rw [List.countP_cons] at hcount
      rw [h₂, h₄, find?_dropRef hn]
      by_cases ho : object = owner origin
      · rw [ho, hn] at hrefs
        simp only [ho, decide_true, if_true, Option.getD_some] at hcount hrefs ⊢
        split_ifs <;> simp <;> omega
      · simp only [Ne.symm ho, ho, decide_false, if_false] at hcount ⊢
        rw [hrefs]
        simp [hcount]
    · intro object m hm
      have := h.positive (owner origin) n hn
      rw [h₂, find?_dropRef hn] at hm
      split_ifs at hm with ho hz
      · obtain rfl := Option.some.inj hm
        omega
      · exact h.positive object m hm
    · rw [h₁, h₂, total_dropRef hn, if_neg hr.ne', h.refcount]
    · rintro ⟨o, m⟩ hx
      rw [h₃, OrdMap.mem_erase] at hx
      rw [h₄]
      exact (List.mem_erase_of_ne hx.1).2 (h.flags _ hx.2)
  · simpa [VssFile.closeFile, hvalid] using h

/-! ### What a handler does to the opens -/

/-- The object and the origin go together. -/
def UsesOwnOrigin (owner : Origin → ObjectPtr) (request : Request) : Prop :=
  ∀ origin ∈ request.origin?, owner origin = request.object

/-- The requests that are not about opens leave them alone. -/
theorem openState_handle (f : VssFile) (context : Context) (remainingSpace : Nat)
    {request : Request} (h : request.opens = false) :
    (f.handle context remainingSpace request).2.openState = f.openState ∧
      request.logged (f.handle context remainingSpace request).1 = [] := by
  cases request with
  | openFile | releaseFile | closeFile => simp [Request.opens] at h
  | readFile object origin offset length =>
    refine ⟨?_, rfl⟩
    simp only [VssFile.handle]
    split_ifs
    · rfl
    · rfl
    · rw [openState_orWaitOplock]
      exact openState_checkIo ..
  | writeFile object origin offset length =>
    refine ⟨?_, rfl⟩
    simp only [VssFile.handle]
    split_ifs
    · rfl
    · rfl
    · rw [openState_orWaitOplock, openState_writeFile]
  | truncateFile object origin offset =>
    refine ⟨?_, rfl⟩
    simp only [VssFile.handle]
    split_ifs
    · rfl
    · rfl
    · rw [openState_orWaitOplock]
      exact openState_checkIo ..
  | setLock object mode => exact ⟨openState_setOplock .., rfl⟩
  | getLock object => exact ⟨rfl, rfl⟩
  | setLockRange object origin flags mode start stop =>
    have hset := openState_setLockRange f object origin flags mode start stop
    refine ⟨?_, rfl⟩
    simp only [VssFile.handle]
    split_ifs
    · rfl
    · exact hset
    · exact hset
    · exact hset

theorem Accounts.handle (h : f.Accounts owner) (hr : 0 < f.refcount) {request : Request}
    (ho : UsesOwnOrigin owner request) (context : Context) (remainingSpace : Nat) :
    (f.handle context remainingSpace request).2.Accounts owner := by
  cases request with
  | openFile object origin flags =>
    obtain rfl : owner origin = object := ho origin rfl
    exact h.openAgain origin flags
  | releaseFile object origin =>
    simp only [VssFile.handle]
    split_ifs
    · exact h
    · exact h.releaseOrigin origin
  | closeFile object origin =>
    obtain rfl : owner origin = object := ho origin rfl
    simp only [VssFile.handle]
    split_ifs with h0
    · exact h
    · exact h.closeFile hr (by rintro rfl; simp at h0)
  | _ => exact h.congr (openState_handle f context remainingSpace rfl).1

/-- The open modes on the file are those of the opens in force. -/
def Recorded (f : VssFile) (log : List OpenEvent) : Prop :=
  ∀ origin flags, (origin, flags) ∈ f.originFlags.entries ↔
    ∃ object, (origin, object, flags) ∈ (inForce log).entries

theorem Recorded.congr {log : List OpenEvent} (h : f.Recorded log)
    (he : g.openState = f.openState) : g.Recorded log := by
  simpa [Recorded, (openState_eq_iff.1 he).2.2.1] using h

/-- An open request is judged by the opens in force. -/
theorem Recorded.fst_addReference {log : List OpenEvent} (h : f.Recorded log)
    (flags : UInt32) : (f.addReference flags).1 = openVerdict (inForce log) flags := by
  have hany : (f.originFlags.entries.any fun x => checkModeConflict x.2 flags) =
      (inForce log).entries.any fun x => checkModeConflict x.2.2 flags := by
    rw [Bool.eq_iff_iff]
    simp only [List.any_eq_true, Prod.exists]
    constructor
    · rintro ⟨origin, m, hm, hc⟩
      obtain ⟨object, ho⟩ := (h origin m).1 hm
      exact ⟨origin, object, m, ho, hc⟩
    · rintro ⟨origin, object, m, hm, hc⟩
      exact ⟨origin, m, (h origin m).2 ⟨object, hm⟩, hc⟩
  simp only [addReference, openVerdict, hany]
  split_ifs <;> rfl

theorem Recorded.opened {log : List OpenEvent} (h : f.Recorded log) {origin : Origin}
    {flags : UInt32} (object : ObjectPtr)
    (he : g.originFlags = f.originFlags.insert origin flags) :
    g.Recorded (.opened object origin flags :: log) := by
  intro o m
  simp only [he, inForce, OrdMap.mem_insert, h o m, Prod.mk.injEq]
  grind

theorem Recorded.released {log : List OpenEvent} (h : f.Recorded log) {origin : Origin}
    (object : ObjectPtr) (he : g.originFlags = f.originFlags.erase origin) :
    g.Recorded (.released object origin :: log) := by
  intro o m
  simp only [he, inForce, OrdMap.mem_erase, h o m]
  grind

theorem Recorded.handle_of_not_opens {log : List OpenEvent} (h : f.Recorded log)
    (context : Context) (remainingSpace : Nat) {request : Request}
    (ho : request.opens = false) :
    (f.handle context remainingSpace request).2.Recorded
      (request.logged (f.handle context remainingSpace request).1 ++ log) := by
  obtain ⟨he, hl⟩ := openState_handle f context remainingSpace ho
  rw [hl]
  exact h.congr he

theorem Recorded.handle {log : List OpenEvent} (h : f.Recorded log) (context : Context)
    (remainingSpace : Nat) (request : Request) :
    (f.handle context remainingSpace request).2.Recorded
      (request.logged (f.handle context remainingSpace request).1 ++ log) := by
  cases request with
  | openFile object origin flags =>
    by_cases hadd : (f.addReference flags).1 = .success
    · have he := openState_openAgain f object origin flags hadd
      simp only [openState, Prod.mk.injEq] at he
      simp only [VssFile.handle, Request.logged, fst_openAgain, hadd, if_true]
      exact h.opened object he.2.2.1
    · simp only [VssFile.handle, Request.logged, fst_openAgain, hadd, Option.some.injEq,
        Status.vssi.injEq, if_false]
      exact h.congr (openState_openAgain_of_refused f object origin flags hadd)
  | releaseFile object origin =>
    simp only [VssFile.handle]
    split_ifs
    · exact h
    · refine h.released object ?_
      have hbr := (openState_eq_iff.1 (openState_releaseBrlocks f origin)).2.2.1
      simp only [VssFile.releaseOrigin, hbr]
  | closeFile object origin =>
    simp only [VssFile.handle]
    split_ifs
    · exact h
    · by_cases hvalid : f.validateOrigin origin = true
      · have he := openState_closeFile object hvalid
        simp only [openState, Prod.mk.injEq] at he
        have hs : (f.closeFile object origin).1 = .success := by simp [VssFile.closeFile, hvalid]
        simp only [Request.logged, hs, if_true]
        exact h.released object he.2.2.1
      · have hs : f.closeFile object origin = (.invalid, f) := by
          simp [VssFile.closeFile, hvalid]
        simpa [Request.logged, hs] using h
  | _ => exact h.handle_of_not_opens context remainingSpace rfl

/-! ### Locks and oplocks by object -/

theorem object_of_mem_locks_handle {context : Context} {remainingSpace : Nat}
    {request : Request} {l : Flock}
    (h : l ∈ (f.handle context remainingSpace request).2.locks) :
    l ∈ f.locks ∨ l.object = request.object := by
  refine handle_induction (P := fun g => ∀ l ∈ g.locks, l ∈ f.locks ∨ l.object = request.object)
    ?_ (fun l hl => .inl hl) context remainingSpace l h
  intro g op ho hg l hl
  rcases g.locks_apply op with hsub | ⟨object, origin, flags, mode, start, stop, rfl, -, hcons⟩
  · exact hg l (hsub.subset hl)
  · rw [hcons] at hl
    rcases List.mem_cons.1 hl with rfl | hl
    · exact .inr (ho object rfl)
    · exact hg l hl

theorem object_of_mem_oplocks_handle {context : Context} {remainingSpace : Nat}
    {request : Request} {l : Oplock}
    (h : l ∈ (f.handle context remainingSpace request).2.oplocks) :
    l.object ∈ f.oplocks.map Oplock.object ∨ l.object = request.object := by
  refine handle_induction
    (P := fun g => ∀ l ∈ g.oplocks,
      l.object ∈ f.oplocks.map Oplock.object ∨ l.object = request.object)
    ?_ (fun l hl => .inl (List.mem_map_of_mem hl)) context remainingSpace l h
  intro g op ho hg l hl
  rcases g.oplocks_apply op with hsub | ⟨object, mode, rfl, -, -, hput⟩
  · exact hg l (hsub.subset hl)
  · have hl := List.mem_map_of_mem (f := Oplock.object) hl
    rw [hput, map_object_putOplock] at hl
    have hmem : l.object ∈ g.oplocks.map Oplock.object ∨ l.object = object := by
      split_ifs at hl
      · exact .inl hl
      · exact (List.mem_cons.1 hl).symm
    rcases hmem with hmem | rfl
    · obtain ⟨l', hl', heq⟩ := List.mem_map.1 hmem
      exact heq ▸ hg l' hl'
    · exact .inr (ho _ rfl)

theorem openState_removeObject (f : VssFile) (object : ObjectPtr) :
    (f.removeObject object).2.openState =
      match f.objectRefs.find? object with
      | none => f.openState
      | some n => (f.refcount - n, f.objectRefs.erase object, f.originFlags, f.openOrigins) := by
  have hbr : ((f.removeOplocks object).2.removeBrlocks object).2.openState = f.openState :=
    openState_removeOplocks f object
  obtain ⟨h₁, h₂, h₃, h₄⟩ := openState_eq_iff.1 hbr
  have hwake : ∀ g : VssFile, g.wakeAll.openState = g.openState := fun _ => rfl
  simp only [removeObject, eraseObjectRefs, h₂]
  cases f.objectRefs.find? object with
  | none => split_ifs <;> simp [hwake, hbr]
  | some n => simp [openState, wakeAll, h₁, h₃, h₄]

theorem openOrigins_removeObject (f : VssFile) (object : ObjectPtr) :
    (f.removeObject object).2.openOrigins = f.openOrigins := by
  have h := f.openState_removeObject object
  cases hf : f.objectRefs.find? object <;> simp_all [openState]

/-- Only a request of the origin's object opens an origin. -/
theorem owner_of_mem_openOrigins_handle {context : Context} {remainingSpace : Nat}
    {request : Request} (ho : UsesOwnOrigin owner request) {origin : Origin}
    (h : origin ∈ (f.handle context remainingSpace request).2.openOrigins) :
    origin ∈ f.openOrigins ∨ owner origin = request.object := by
  by_cases hopens : request.opens = false
  · have he := openState_eq_iff.1 (openState_handle f context remainingSpace hopens).1
    exact .inl (he.2.2.2 ▸ h)
  cases request with
  | openFile object origin' flags =>
    by_cases hadd : (f.addReference flags).1 = .success
    · have he := openState_openAgain f object origin' flags hadd
      simp only [openState, Prod.mk.injEq] at he
      rw [VssFile.handle, he.2.2.2] at h
      rcases List.mem_append.1 h with h | h
      · exact .inl h
      · exact .inr (List.mem_singleton.1 h ▸ ho origin' rfl)
    · have he := openState_eq_iff.1 (openState_openAgain_of_refused f object origin' flags hadd)
      rw [VssFile.handle, he.2.2.2] at h
      exact .inl h
  | releaseFile object origin' =>
    have he := openState_eq_iff.1 (openState_releaseBrlocks f origin')
    simp only [VssFile.handle] at h
    split_ifs at h
    · exact .inl h
    · exact .inl (he.2.2.2 ▸ h)
  | closeFile object origin' =>
    simp only [VssFile.handle] at h
    split_ifs at h
    · exact .inl h
    · by_cases hvalid : f.validateOrigin origin' = true
      · have he := openState_closeFile object hvalid
        simp only [openState, Prod.mk.injEq] at he
        rw [he.2.2.2] at h
        exact .inl (List.mem_of_mem_erase h)
      · simp only [VssFile.closeFile, hvalid] at h
        exact .inl h
  | _ => exact absurd rfl hopens

end VssFile

/-! ## Runs -/

namespace Server

variable {s t : Server} {e : ServerEvent} {owner : Origin → ObjectPtr}

/-- The request that is handled uses its origin for the object the origin belongs to. -/
def UsesOwnOrigins (owner : Origin → ObjectPtr) (s : Server) (e : ServerEvent) : Prop :=
  ∀ request ∈ s.requested e, VssFile.UsesOwnOrigin owner request

instance (owner : Origin → ObjectPtr) (s : Server) (e : ServerEvent) :
    Decidable (s.UsesOwnOrigins owner e) :=
  inferInstanceAs (Decidable (∀ request ∈ s.requested e, ∀ origin ∈ request.origin?,
    owner origin = request.object))

/-- An object that is closed has closed the file before. -/
def ClosedBefore (owner : Origin → ObjectPtr) (s : Server) (e : ServerEvent) : Prop :=
  ∀ object, e = .objectRelease object → ∀ origin ∈ s.file.openOrigins, owner origin ≠ object

/-- Nothing on the file stems from the object, and opens fare as if it had never been there. -/
structure Forgets (owner : Origin → ObjectPtr) (s : Server) (object : ObjectPtr) : Prop where
  locks : ∀ l ∈ s.file.locks, l.object ≠ object
  oplocks : ∀ l ∈ s.file.oplocks, l.object ≠ object
  flags : ∀ x ∈ s.file.originFlags.entries, owner x.1 ≠ object
  origins : ∀ origin ∈ s.file.openOrigins, owner origin ≠ object
  refs : s.file.objectRefs.find? object = none
  refcount : s.file.refcount = s.file.objectRefs.total
  verdict : ∀ flags, (s.file.addReference flags).1 =
    openVerdict (inForce (without object s.log)) flags

def ForgetsTheDead (owner : Origin → ObjectPtr) (s : Server) : Prop :=
  ∀ object ∈ s.gone, s.Forgets owner object

/-- What holds as long as no object is closed that has the file open. -/
structure Sound (owner : Origin → ObjectPtr) (s : Server) : Prop where
  accounts : s.file.Accounts owner
  referenced : 0 < s.file.refcount
  owned : ∀ e ∈ s.log, e.OwnedBy owner
  recorded : s.file.Recorded s.log

theorem Sound.forgets (h : s.Sound owner) {object : ObjectPtr}
    (hl : ∀ l ∈ s.file.locks, l.object ≠ object) (ho : ∀ l ∈ s.file.oplocks, l.object ≠ object)
    (horigins : ∀ origin ∈ s.file.openOrigins, owner origin ≠ object) :
    s.Forgets owner object where
  locks := hl
  oplocks := ho
  flags x hx := horigins x.1 (h.accounts.flags x hx)
  origins := horigins
  refs := h.accounts.find?_eq_none_iff.2 horigins
  refcount := h.accounts.refcount
  verdict flags := by
    -- no open in force is the object's, so leaving it out of the log changes nothing
    rw [h.recorded.fst_addReference flags]
    have hsame : ∀ x, x ∈ (inForce (without object s.log)).entries ↔
        x ∈ (inForce s.log).entries := by
      rintro ⟨origin, object', flags'⟩
      rw [mem_inForce_without h.owned]
      refine and_iff_left_of_imp fun hx => ?_
      have hflags := (h.recorded origin flags').2 ⟨object', hx⟩
      have howner := owner_of_mem_inForce h.owned hx
      exact howner ▸ horigins origin (h.accounts.flags _ hflags)
    have hany : ((inForce s.log).entries.any fun x => VssFile.checkModeConflict x.2.2 flags) =
        (inForce (without object s.log)).entries.any
          fun x => VssFile.checkModeConflict x.2.2 flags := by
      rw [Bool.eq_iff_iff]
      simp only [List.any_eq_true, hsame]
    simp only [openVerdict, hany]

theorem ownedBy_of_mem_logged {request : Request} {status : Option Status}
    (ho : VssFile.UsesOwnOrigin owner request) {event : OpenEvent}
    (h : event ∈ request.logged status) : event.OwnedBy owner := by
  cases request with
  | openFile object origin flags =>
    simp only [Request.logged] at h
    split_ifs at h
    · exact List.mem_singleton.1 h ▸ ho origin rfl
    · cases h
  | releaseFile object origin =>
    simp only [Request.logged] at h
    split_ifs at h
    · exact List.mem_singleton.1 h ▸ ho origin rfl
    · cases h
  | closeFile object origin =>
    simp only [Request.logged] at h
    split_ifs at h
    · exact List.mem_singleton.1 h ▸ ho origin rfl
    · cases h
  | _ => cases h

/-- Where an object closed its files before it was closed, nothing of the books changes. -/
theorem Effect.sound (h : s.Effect e t) (hs : s.Sound owner) (ho : s.UsesOwnOrigins owner e)
    (hc : s.ClosedBefore owner e) (hr : t.file.referenced) : t.Sound owner := by
  have hr : 0 < t.file.refcount := by simpa [VssFile.referenced] using hr
  cases h with
  | handled request context remainingSpace f hreq hbefore hfile hlog hgone hctx hmono =>
    have hf : f.openState = s.file.openState := by
      obtain ⟨requeued, rfl⟩ := hbefore
      rfl
    have hown := ho request hreq
    have hrf : 0 < f.refcount := (VssFile.openState_eq_iff.1 hf).1 ▸ hs.referenced
    refine ⟨?_, hr, ?_, ?_⟩
    · rw [hfile]
      exact (hs.accounts.congr hf).handle hrf hown context remainingSpace
    · rw [hlog]
      intro event hm
      rcases List.mem_append.1 hm with hm | hm
      · exact ownedBy_of_mem_logged hown hm
      · exact hs.owned event hm
    · rw [hfile, hlog]
      exact (hs.recorded.congr hf).handle context remainingSpace request
  | expired context => exact ⟨hs.accounts.congr rfl, hr, hs.owned, hs.recorded.congr rfl⟩
  | released object =>
    have hno := hc object rfl
    have he : (s.file.removeObject object).2.openState = s.file.openState := by
      simp [VssFile.openState_removeObject, hs.accounts.find?_eq_none_iff.2 hno]
    refine ⟨hs.accounts.congr he, hr, List.forall_mem_cons.2 ⟨trivial, hs.owned⟩, ?_⟩
    intro origin flags
    refine (hs.recorded.congr he origin flags).trans ?_
    simp only [inForce, OrdMap.mem_filter, decide_eq_true_eq]
    refine exists_congr fun object' => (and_iff_left_of_imp fun hm => ?_).symm
    -- an open in force has its origin open, which is not one of the object's
    have hflags := (hs.recorded origin flags).2 ⟨object', hm⟩
    exact owner_of_mem_inForce hs.owned hm ▸ hno origin (hs.accounts.flags _ hflags)

theorem Effect.forgetsTheDead_step_iff (h : s.Effect e t) (hs : s.Sound owner)
    (hf : s.ForgetsTheDead owner) (ho : s.UsesOwnOrigins owner e) (hr : t.file.referenced) :
    t.ForgetsTheDead owner ↔ s.ClosedBefore owner e := by
  constructor
  · rintro ht object rfl origin hm
    cases h with
    | handled request context remainingSpace f hreq => cases hreq
    | released =>
      refine (ht object (.head _)).origins origin ?_
      rwa [VssFile.openOrigins_removeObject]
  · intro hc
    have ht := h.sound hs ho hc hr
    cases h with
    | handled request context remainingSpace f hreq hbefore hfile hlog hgone hctx hmono =>
      intro object hobject
      rw [hgone, List.mem_filter] at hobject
      have hne : object ≠ request.object := by simpa using hobject.2
      have hfo := hf object hobject.1
      obtain ⟨requeued, rfl⟩ := hbefore
      refine ht.forgets ?_ ?_ ?_
      · rw [hfile]
        intro l hl heq
        rcases VssFile.object_of_mem_locks_handle hl with hl | hl
        · exact hfo.locks l hl heq
        · exact hne (heq.symm.trans hl)
      · rw [hfile]
        intro l hl heq
        rcases VssFile.object_of_mem_oplocks_handle hl with hl | hl
        · obtain ⟨l', hl', heq'⟩ := List.mem_map.1 hl
          exact hfo.oplocks l' hl' (heq'.trans heq)
        · exact hne (heq.symm.trans hl)
      · rw [hfile]
        intro origin hm heq
        rcases VssFile.owner_of_mem_openOrigins_handle (ho request hreq) hm with hm | hm
        · exact hfo.origins origin hm heq
        · exact hne (heq.symm.trans hm)
    | expired context =>
      intro object hobject
      have hfo := hf object hobject
      exact ht.forgets hfo.locks hfo.oplocks hfo.origins
    | released object =>
      intro object' hobject
      refine ht.forgets ?_ ?_ ?_
      · intro l hl
        rw [VssFile.locks_removeObject, List.mem_filter, decide_eq_true_eq] at hl
        rcases List.mem_cons.1 hobject with rfl | hobject
        · exact hl.2
        · exact (hf object' hobject).locks l hl.1
      · intro l hl
        rw [VssFile.oplocks_removeObject, List.mem_filter, decide_eq_true_eq] at hl
        rcases List.mem_cons.1 hobject with rfl | hobject
        · exact hl.2
        · exact (hf object' hobject).oplocks l hl.1
      · rw [VssFile.openOrigins_removeObject]
        rcases List.mem_cons.1 hobject with rfl | hobject
        · exact hc object' rfl
        · exact (hf object' hobject).origins

theorem sound_opened {fileId flags : UInt32} {object : ObjectPtr} {origin : Origin}
    (ho : owner origin = object) : (opened fileId object origin flags).Sound owner := by
  have he : (opened fileId object origin flags).file.openState =
      (1, OrdMap.empty.insert object 1, OrdMap.empty.insert origin flags, [origin]) := by
    simp only [opened, VssFile.opened, VssFile.addObject_eq]
    rfl
  simp only [VssFile.openState, Prod.mk.injEq] at he
  obtain ⟨h₁, h₂, h₃, h₄⟩ := he
  refine ⟨⟨?_, ?_, ?_, ?_⟩, ?_, ?_, ?_⟩
  · intro object'
    rw [h₂, h₄, OrdMap.find?_insert]
    by_cases hobject : object' = object
    · simp [hobject, ho]
    · simp [hobject, ho, Ne.symm hobject]
  · intro object' n hn
    rw [h₂, OrdMap.find?_insert] at hn
    split_ifs at hn
    · obtain rfl := Option.some.inj hn
      exact Int.one_pos
    · cases hn
  · rw [h₁, h₂, OrdMap.total_insert, OrdMap.total_erase]
    rfl
  · rintro ⟨o, m⟩ hx
    have hom : o = origin ∧ m = flags := by simpa [h₃] using hx
    simp [h₄, hom.1]
  · rw [h₁]
    exact Int.one_pos
  · simpa [opened, OpenEvent.OwnedBy] using ho
  · intro o m
    rw [h₃]
    simp [opened, inForce]

end Server

/-- In a run whose requests use each origin for the object it belongs to, nothing is left of
the objects that were closed, and opens fare as if those had never been there, exactly when
every object that was closed had closed the file before. -/
theorem forgetsTheDead_iff {owner : Origin → ObjectPtr} {fileId flags : UInt32}
    {object : ObjectPtr} {origin : Origin} (ho : owner origin = object) {s : Server}
    {tr : List (Server × ServerEvent)}
    (h : Run Server.step (Server.opened fileId object origin flags) tr s)
    (hown : Meets (Server.UsesOwnOrigins owner) tr) :
    Always (Server.ForgetsTheDead owner) tr s ↔ Meets (Server.ClosedBefore owner) tr := by
  refine h.always_iff_meets_of_meets (I := Server.Sound owner) (Server.sound_opened ho) ?_ ?_ ?_
    hown
  · intro object hobject
    cases hobject
  · intro s e t hs hf ha he
    exact (Server.effect_of_step he).forgetsTheDead_step_iff hs hf ha (Server.referenced_of_step he)
  · intro s e t hs hf ht ha he
    have hr := Server.referenced_of_step he
    have heff := Server.effect_of_step he
    exact heff.sound hs ha ((heff.forgetsTheDead_step_iff hs hf ha hr).1 ht) hr

/-- The handle in the low half of an origin, which client libraries make it from, read as the
address of the object. -/
def lowHalf (origin : Origin) : ObjectPtr := origin % 2 ^ 32

def closeBeforeDying : List ServerEvent :=
  [.receive (.openFile 2 (2 ^ 32 + 2) openShared) 0,
    .receive (.setLock 2 VSSI_FILE_LOCK_CACHE_READ) 0,
    .receive (.closeFile 2 (2 ^ 32 + 2)) 0,
    .objectRelease 2]

/-- A client opens the file, caches it, closes it and dies. -/
theorem forgetsTheDead_iff_closed :
    ∃ tr s, Run Server.step (Server.opened 7 1 (2 ^ 32 + 1) openShared) tr s ∧ tr.length = 4 ∧
      (Always (Server.ForgetsTheDead lowHalf) tr s ↔ Meets (Server.ClosedBefore lowHalf) tr) := by
  have he : exec Server.step (Server.opened 7 1 (2 ^ 32 + 1) openShared) closeBeforeDying =
      some _ := rfl
  have hown : Meets (Server.UsesOwnOrigins lowHalf)
      (trace Server.step (Server.opened 7 1 (2 ^ 32 + 1) openShared) closeBeforeDying).reverse := by
    decide
  have ho : lowHalf (2 ^ 32 + 1) = 1 := by decide
  exact ⟨_, _, run_trace he, rfl, forgetsTheDead_iff ho (run_trace he) hown⟩

def openForReading : UInt32 :=
  VSSI_FILE_OPEN_READ ||| VSSI_FILE_SHARE_READ ||| VSSI_FILE_SHARE_WRITE

def openForWriting : UInt32 :=
  VSSI_FILE_OPEN_WRITE ||| VSSI_FILE_SHARE_READ ||| VSSI_FILE_SHARE_WRITE

def openWithoutWriters : UInt32 := VSSI_FILE_OPEN_READ ||| VSSI_FILE_SHARE_READ

def dieWithFileOpen : List ServerEvent :=
  [.receive (.openFile 2 (2 ^ 32 + 2) openForWriting) 0, .objectRelease 2]

/-- The origin of the dead client stays, and an open that shares with readers only is refused
because of it. -/
theorem not_forgetsTheDead_dieWithFileOpen :
    ∃ tr s, Run Server.step (Server.opened 7 1 (2 ^ 32 + 1) openForReading) tr s ∧
      Meets (Server.UsesOwnOrigins lowHalf) tr ∧ tr.map Prod.snd = dieWithFileOpen.reverse ∧
      ¬s.ForgetsTheDead lowHalf ∧
      (s.file.addReference openWithoutWriters).1 = .access ∧
      openVerdict (inForce (without 2 s.log)) openWithoutWriters = .success := by
  have he : exec Server.step (Server.opened 7 1 (2 ^ 32 + 1) openForReading) dieWithFileOpen =
      some _ := rfl
  have hown : Meets (Server.UsesOwnOrigins lowHalf)
      (trace Server.step (Server.opened 7 1 (2 ^ 32 + 1) openForReading)
        dieWithFileOpen).reverse := by
    decide
  refine ⟨_, _, run_trace he, hown, rfl, fun hforgets => ?_, by decide, by decide⟩
  exact (hforgets 2 (.head _)).origins (2 ^ 32 + 2) (.tail _ (.head _)) rfl

end PersonalCloud.StorageNode
