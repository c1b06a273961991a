import PersonalCloud.StorageNode.Statements

/-!
# Renames and removals that fail

`renameComponent` and `removeIw` make several statements and, for an open file, edits to its
handle. A statement that fails makes the call fail, and what was done before it stays done: the
rows of a component that is gone, a destination that was removed to make room, the names of a
handle.

## Main results

* `ManagedDataset.unchanged_iff_early` — when a call that fails has changed nothing.
-/

namespace PersonalCloud.StorageNode

open PersonalCloud.Lib

def VSSI_RENAME_REPLACE_EXISTING : UInt32 := 0x1

inductive ComponentStatus where
  | success | busy | notfound | invalid | badcmd | isdir | fexists | badpath
  deriving DecidableEq, Repr

/-- A dataset with its tables and the state of its database. -/
structure ManagedDataset where
  tables : Tables
  version : Nat
  openHandles : OrdMap ContentPath FileId
  fileIdToHandle : OrdMap FileId OpenFile
  invalid : Bool
  tranIsOpen : Bool

/-- The error as its class makes it, and whether the dataset is invalid from now on. -/
def dbErrClassify (invalid : Bool) (e : Option DbError) : Option DbError × Bool :=
  let invalid := invalid || e = some .recovery
  (if invalid then some .access else e, invalid)

/-- The answer of a query, classified. -/
def classified {α : Type} (invalid : Bool) : Except DbError α → Except DbError α × Bool
  | .ok a => (if invalid then .error .access else .ok a, invalid)
  | .error e =>
    let invalid := invalid || e = .recovery
    (.error (if invalid then .access else e), invalid)

namespace ManagedDataset

variable (c : Collation) (replies : Replies) (s : ManagedDataset)

/-- A transaction begins unless one is open. A failed `BeginTransaction` is only logged. -/
def miniTransStart (reply : Reply) : ManagedDataset :=
  let r := dbErrClassify s.invalid reply.error?
  { s with
    invalid := if s.tranIsOpen then s.invalid else r.2
    tranIsOpen := s.tranIsOpen || r.1.isNone }

def miniTransEnd (triggerCommit : Bool) : ManagedDataset :=
  { s with version := if triggerCommit then s.version + 1 else s.version }

/-! ## Removing -/

/-- The handle of the file with this content. -/
def handleAt (path : ContentPath) : Option (FileId × OpenFile) :=
  (s.openHandles.find? path).bind fun id => (s.fileIdToHandle.find? id).map fun h => (id, h)

/-- Whether a component may be removed, and its handle if it is an open file. A query that fails
allows it. -/
def removeAllowed (component : Component) (renameTarget : Bool) :
    Bool × Option (FileId × OpenFile) × Bool :=
  match classified s.invalid
    (s.tables.getComponentType c component fun i => replies (.allowedType i)) with
  | (.error _, invalid) => (true, none, invalid)
  | (.ok true, invalid) =>
    match classified invalid (s.tables.listComponents c component
      (fun i => replies (.allowedList i)) (replies .allowedNames)) with
    | (.error _, invalid) => (true, none, invalid)
    | (.ok names, invalid) => (names.isEmpty, none, invalid)
  | (.ok false, invalid) =>
    match classified invalid (s.tables.getComponentPath c component
      (fun i => replies (.allowedPath i)) (replies .allowedContent)) with
    | (.error _, invalid) => (true, none, invalid)
    | (.ok path, invalid) =>
      match s.handleAt path with
      | none => (true, none, invalid)
      | some (id, h) =>
        (if renameTarget then h.file.refcount = 1
          else hasFlag h.file.accessMode VSSI_FILE_OPEN_DELETE, some (id, h), invalid)

/-- What `removeIw` finds before it changes anything: why it ends here, or the handle to mark. -/
def removeChecks (component : Component) (renameTarget : Bool) :
    Except ComponentStatus (Option (FileId × OpenFile)) × ManagedDataset :=
  let r := s.removeAllowed c replies component renameTarget
  if !r.1 then (.error .busy, { s with invalid := r.2.2 })
  else
    match classified r.2.2 (s.tables.getComponentInfo c component
      (fun i => replies (.infoPath i)) (replies .infoContent)) with
    | (.error _, invalid) => (.error .notfound, { s with invalid := invalid })
    | (.ok info, invalid) =>
      (.ok (if info.directory then none else r.2.1), { s with invalid := invalid })

/-- Let go of the name of an open file, and mark it for deletion at its last close. -/
def markDeleted : Option (FileId × OpenFile) → ManagedDataset
  | none => s
  | some (id, h) => { s with
      openHandles := match h.filename with
        | none => s.openHandles
        | some filename => s.openHandles.erase filename
      fileIdToHandle := s.fileIdToHandle.insert id h.setDeletePending }

/-- What `delete_component` asks before it deletes: the error, if any. -/
def deleteQueries (component : Component) : Option DbError × Bool :=
  match classified s.invalid
    (s.tables.getComponentType c component fun i => replies (.deleteType i)) with
  | (.error e, invalid) => (some e, invalid)
  | (.ok true, invalid) => (none, invalid)
  | (.ok false, invalid) =>
    match classified invalid (s.tables.getComponentPath c component
      (fun i => replies (.deletePath i)) (replies .deletePathContent)) with
    | (.error e, invalid) => (some e, invalid)
    | (.ok _, invalid) => dbErrClassify invalid (replies .refCount).error?

def deleteComponent (component : Component) (time : Nat) : ComponentStatus × ManagedDataset :=
  let s := s.miniTransStart (replies .beginDelete)
  match s.deleteQueries c replies component with
  | (some .unknownComponent, invalid) => (.success, { s with invalid := invalid })
  | (some _, invalid) => (.invalid, { s with invalid := invalid })
  | (none, invalid) =>
    let r := s.tables.deleteComponent c replies component (s.version + 1) time
    let e := dbErrClassify invalid r.1
    let s := { s with tables := r.2, invalid := e.2 }
    match e.1 with
    | none => (.success, s.miniTransEnd true)
    | some .unknownComponent => (.success, s)
    | some _ => (.badcmd, s)

def removeIw (componentIn : Component) (renameTarget : Bool) (time : Nat) :
    ComponentStatus × ManagedDataset :=
  let component := normalizePath componentIn
  match s.removeChecks c replies component renameTarget with
  | (.error status, s) => (status, s)
  | (.ok opened, s) => (s.markDeleted opened).deleteComponent c replies component time

/-! ## Renaming -/

/-- Two names are the same to the dataset. -/
def sameName (a b : Component) : Bool :=
  if c.caseInsensitive then c.same a b else a = b

/-- One of the two names is a directory on the path to the other. -/
def intersects (source destination : Component) : Bool :=
  (sameName c (destination.take source.length) source ∧
    destination[source.length]? = some slash) ∨
  (sameName c (source.take destination.length) destination ∧
    source[destination.length]? = some slash)

def componentIsDirectory (name : Component) (replies : Nat → Reply) : Bool × ManagedDataset :=
  let r := classified s.invalid (s.tables.getComponentType c name replies)
  (match r.1 with
    | .ok directory => directory
    | .error _ => false, { s with invalid := r.2 })

/-- What `renameComponent` finds before it changes anything. -/
inductive RenamePlan where
  | reject (status : ComponentStatus)
  /-- The destination is a file that has to go first. -/
  | replace
  | move
  deriving DecidableEq, Repr

def renameChecks (source destination : Component) (flags : UInt32) :
    RenamePlan × ManagedDataset :=
  if !s.tables.testExistComponent c source fun i => replies (.testSource i) then
    (.reject .notfound, s)
  else if intersects c source destination then (.reject .invalid, s)
  else if sameName c source destination then (.move, s)
  else if s.tables.testExistComponent c destination fun i => replies (.testDestination i) then
    let r := s.componentIsDirectory c destination fun i => replies (.destinationType i)
    if r.1 then (.reject .isdir, r.2)
    else if hasFlag flags VSSI_RENAME_REPLACE_EXISTING then (.replace, r.2)
    else (.reject .fexists, r.2)
  else
    match parentOf destination with
    | none => (.move, s)
    | some dir =>
      let r := s.componentIsDirectory c dir fun i => replies (.directoryType i)
      if r.1 then (.move, r.2) else (.reject .badpath, r.2)

/-- The open files of the source have its new name from now on. -/
def renameHandles (source destination : Component) : ManagedDataset :=
  let fold (name : Component) := if c.caseInsensitive then c.upper name else name
  { s with
    fileIdToHandle := s.openHandles.entries.foldl (fun handles x =>
      match handles.find? x.2 with
      | none => handles
      | some h =>
        if fold source = h.component then
          handles.insert x.2 { h with component := fold destination }
        else handles) s.fileIdToHandle }

/-- The part behind the label `do_rename`. -/
def doRename (source destination : Component) (time : Nat) : ComponentStatus × ManagedDataset :=
  let s := s.miniTransStart (replies .beginMove)
  let r := s.tables.moveComponent c replies source destination (s.version + 1) time
  let s := { s with tables := r.2 }.miniTransEnd r.1.isNone
  let e := dbErrClassify s.invalid r.1
  let s := { s with invalid := e.2 }
  if e.1.isSome then (.badcmd, s)
  else
    match classified s.invalid
      (s.tables.getComponentType c destination fun i => replies (.movedType i)) with
    | (.error _, invalid) => (.badcmd, { s with invalid := invalid })
    | (.ok true, invalid) => (.success, { s with invalid := invalid })
    | (.ok false, invalid) =>
      (.success, { s with invalid := invalid }.renameHandles c source destination)

def renameComponent (source destination : Component) (time : Nat) (flags : UInt32) :
    ComponentStatus × ManagedDataset :=
  match s.renameChecks c replies source destination flags with
  | (.reject status, s) => (status, s)
  | (.replace, s) =>
    let r := s.removeIw c replies destination true time
    if r.1 ≠ .success then r else r.2.doRename c replies source destination time
  | (.move, s) => s.doRename c replies source destination time

/-! ## What stays -/

/-- The name and the mark of an open file. -/
def handleNames (id : FileId) : Option (Component × Bool) :=
  (s.fileIdToHandle.find? id).map fun h => (h.component, h.deletePending)

/-- The component tree and the open files are the same. -/
structure Same (s t : ManagedDataset) : Prop where
  tables : t.tables = s.tables
  openHandles : t.openHandles = s.openHandles
  handleNames : t.handleNames = s.handleNames

/-- A call that fails leaves everything as it was. -/
def Unchanged (s : ManagedDataset) (r : ComponentStatus × ManagedDataset) : Prop :=
  r.1 ≠ .success → Same s r.2

variable {c replies s} {component source destination : Component} {t u : ManagedDataset}
  {time : Nat}

theorem same_congr (h : Same s t) : Same t u ↔ Same s u := by
  constructor <;> rintro ⟨hd, ho, hf⟩
  · exact ⟨hd.trans h.tables, ho.trans h.openHandles, hf.trans h.handleNames⟩
  · exact ⟨hd.trans h.tables.symm, ho.trans h.openHandles.symm, hf.trans h.handleNames.symm⟩

theorem unchanged_congr {r : ComponentStatus × ManagedDataset} (h : Same s t) :
    Unchanged t r ↔ Unchanged s r :=
  forall_congr' fun _ => same_congr h

theorem dbErrClassify_eq_none {invalid : Bool} {e : Option DbError} :
    (dbErrClassify invalid e).1 = none ↔ invalid = false ∧ e = none := by
  cases invalid <;> rcases e with _ | e <;> simp [dbErrClassify]
  cases e <;> simp

theorem dbErrClassify_snd {invalid : Bool} {e : Option DbError}
    (h : (dbErrClassify invalid e).1 = none) : (dbErrClassify invalid e).2 = false := by
  obtain ⟨rfl, rfl⟩ := dbErrClassify_eq_none.1 h
  rfl

/-- Only an error that is one to begin with gets to be that of a missing component. -/
theorem dbErrClassify_ne_unknown {e : DbError} (he : e ≠ .unknownComponent) :
    ∃ e', (dbErrClassify false (some e)).1 = some e' ∧ e' ≠ .unknownComponent := by
  cases e with
  | unknownComponent => exact absurd rfl he
  | unknownContent | isDirectory | notDirectory | wrongComponentType | badRequest | user
  | recovery | access => exact ⟨_, rfl, nofun⟩

theorem classified_eq_ok {α : Type} {invalid i : Bool} {q : Except DbError α} {a : α}
    (h : classified invalid q = (.ok a, i)) : q = .ok a ∧ invalid = false ∧ i = false := by
  cases q <;> cases invalid <;> cases i <;> simp_all [classified]

theorem classified_ne_unknown {α : Type} {invalid i : Bool} {q : Except DbError α} {e : DbError}
    (hq : q ≠ .error .unknownComponent) (h : classified invalid q = (.error e, i)) :
    e ≠ .unknownComponent := by
  rintro rfl
  cases q with
  | ok a => cases invalid <;> simp [classified] at h
  | error e =>
    have hfst := congrArg Prod.fst h
    simp only [classified] at hfst
    split at hfst
    · cases hfst
    · cases hfst
      exact hq rfl

/-- An invalid dataset stays so. -/
theorem classified_snd {α : Type} {invalid : Bool} {q : Except DbError α}
    (h : (classified invalid q).2 = false) : invalid = false := by
  cases q <;> simp_all [classified]

/-! ### Deleting -/

/-- The queries of `deleteComponent` succeed, and then the statements of the database do. -/
def DeletePasses (c : Collation) (replies : Replies) (s : ManagedDataset) (component : Component)
    (time : Nat) : Prop :=
  ((s.miniTransStart (replies .beginDelete)).deleteQueries c replies component).1 = none ∧
    match s.tables.planDelete c replies (normalizePath component) with
    | .error e => e = .unknownComponent
    | .ok plan => plan.Succeeds replies (s.version + 1) time s.tables

/-- No statement of the deletion has an effect before the first one that fails. -/
def DeleteIdle (c : Collation) (replies : Replies) (s : ManagedDataset) (component : Component)
    (time : Nat) : Prop :=
  ((s.miniTransStart (replies .beginDelete)).deleteQueries c replies component).1 = none →
    ∀ plan, s.tables.planDelete c replies (normalizePath component) = .ok plan →
      Batch.Idle (Step.failure replies) Step.apply (plan.writes (s.version + 1) time) s.tables

theorem deleteQueries_ne {comp : ComponentAttrs} {found : Nat → Reply}
    (h : s.tables.getComponentByPath c (normalizePath component) found = .ok comp) :
    (s.deleteQueries c replies component).1 ≠ some .unknownComponent := by
  have htype : s.tables.getComponentType c component (fun i => replies (.deleteType i)) ≠
      .error .unknownComponent :=
    ((Tables.foundAgain_getComponentByPath h _).map ComponentAttrs.directory).ne
  unfold deleteQueries
  split
  next he => exact fun h => classified_ne_unknown htype he (Option.some.inj h)
  · exact nofun
  · split
    next he =>
      exact fun h' => classified_ne_unknown (Tables.getComponentPath_ne h _ _) he
        (Option.some.inj h')
    next invalid _ =>
      cases replies .refCount <;> cases invalid <;> exact nofun

theorem deleteQueries_snd (h : (s.deleteQueries c replies component).1 = none) :
    (s.deleteQueries c replies component).2 = false := by
  unfold deleteQueries at h ⊢
  split
  next he =>
    rw [he] at h
    cases h
  next he => exact (classified_eq_ok he).2.2
  next he =>
    rw [he] at h
    simp only at h
    split
    next he' =>
      rw [he'] at h
      cases h
    next he' =>
      rw [he'] at h
      exact dbErrClassify_snd h

/-- What comes of a deletion. -/
structure Deleted (c : Collation) (replies : Replies) (s : ManagedDataset) (component : Component)
    (time : Nat) (x : ComponentStatus × ManagedDataset) : Prop where
  success : x.1 = .success ↔ DeletePasses c replies s component time
  tables : x.2.tables = s.tables ↔ DeleteIdle c replies s component time
  openHandles : x.2.openHandles = s.openHandles
  fileIdToHandle : x.2.fileIdToHandle = s.fileIdToHandle
  tranIsOpen : x.2.tranIsOpen = (s.miniTransStart (replies .beginDelete)).tranIsOpen
  valid : x.1 = .success → x.2.invalid = false
  removed : x.1 = .success → ∀ plan,
    s.tables.planDelete c replies (normalizePath component) = .ok plan →
      x.2.tables.Alike (plan.removed s.tables)
  kept : x.1 = .success → ∀ e,
    s.tables.planDelete c replies (normalizePath component) = .error e →
      x.2.tables = s.tables ∧ x.2.version = s.version

/-- The part of a deletion behind its queries. -/
theorem deleted_of_queries {x : ComponentStatus × ManagedDataset}
    {r : Option DbError × Tables} (hr : r = s.tables.deleteComponent c replies component
      (s.version + 1) time)
    (hq : ((s.miniTransStart (replies .beginDelete)).deleteQueries c replies component).1 = none)
    (hstatus : x.1 = .success ↔ Tolerated r.1) (htables : x.2.tables = r.2)
    (hopen : x.2.openHandles = s.openHandles) (hfiles : x.2.fileIdToHandle = s.fileIdToHandle)
    (htran : x.2.tranIsOpen = (s.miniTransStart (replies .beginDelete)).tranIsOpen)
    (hvalid : x.1 = .success → x.2.invalid = false)
    (hversion : r.1 = some .unknownComponent → x.2.version = s.version) :
    Deleted c replies s component time x := by
  cases hplan : s.tables.planDelete c replies (normalizePath component) with
  | error e =>
    have he : r = (some e, s.tables) := by rw [hr, Tables.deleteComponent, hplan]
    subst he
    have hnot : ∀ plan, s.tables.planDelete c replies (normalizePath component) ≠ .ok plan := by
      simp [hplan]
    refine ⟨?_, ?_, hopen, hfiles, htran, hvalid, fun _ plan h => absurd h (hnot plan),
      fun h e' _ => ⟨htables, hversion ?_⟩⟩
    · rw [hstatus, DeletePasses, and_iff_right hq, hplan]
      simp [Tolerated]
    · exact iff_of_true htables fun _ plan h => absurd h (hnot plan)
    · exact (hstatus.1 h).resolve_left (Option.some_ne_none e)
  | ok plan =>
    obtain ⟨hsuccess, halike⟩ := Tables.deleteComponent_spec (s.version + 1) time hplan
    rw [← hr] at hsuccess halike
    have hidle := Tables.deleteComponent_eq_self_iff (s.version + 1) time hplan
    rw [← hr] at hidle
    have hnot : ∀ e, s.tables.planDelete c replies (normalizePath component) ≠ .error e := by
      simp [hplan]
    refine ⟨?_, ?_, hopen, hfiles, htran, hvalid, fun h plan' hplan' => ?_,
      fun _ e h => absurd h (hnot e)⟩
    · rw [hstatus, DeletePasses, and_iff_right hq, hplan]
      exact hsuccess
    · rw [htables, hidle, DeleteIdle]
      refine ⟨fun h _ plan' hplan' => ?_, fun h => h hq plan hplan⟩
      rw [hplan] at hplan'
      cases hplan'
      exact h
    · rw [hplan] at hplan'
      cases hplan'
      rw [htables]
      exact halike (hsuccess.1 (hstatus.1 h))

theorem deleted_of_failed_queries {e : DbError} {invalid : Bool}
    (hq : (s.miniTransStart (replies .beginDelete)).deleteQueries c replies component =
      (some e, invalid)) (hne : e ≠ .unknownComponent) :
    Deleted c replies s component time (s.deleteComponent c replies component time) := by
  have hfails : s.deleteComponent c replies component time = (.invalid,
      { s.miniTransStart (replies .beginDelete) with invalid := invalid }) := by
    unfold deleteComponent
    simp only [hq]
  have hsome : ((s.miniTransStart (replies .beginDelete)).deleteQueries c replies component).1 ≠
      none := by
    rw [hq]
    exact Option.some_ne_none e
  rw [hfails]
  exact ⟨iff_of_false nofun fun h => hsome h.1, iff_of_true rfl fun h => absurd h hsome, rfl, rfl,
    rfl, nofun, nofun, nofun⟩

theorem deleted_deleteComponent {comp : ComponentAttrs} {found : Nat → Reply}
    (h : s.tables.getComponentByPath c (normalizePath component) found = .ok comp) (time : Nat) :
    Deleted c replies s component time (s.deleteComponent c replies component time) := by
  have hunknown : ((s.miniTransStart (replies .beginDelete)).deleteQueries c replies component).1 ≠
      some .unknownComponent := deleteQueries_ne h
  cases hq : (s.miniTransStart (replies .beginDelete)).deleteQueries c replies component with
  | mk e invalid =>
    cases e with
    | some e =>
      rw [hq] at hunknown
      exact deleted_of_failed_queries hq fun he => hunknown (congrArg some he)
    | none =>
      have hnone := congrArg Prod.fst hq
      have hinvalid : invalid = false := by
        have hsnd := deleteQueries_snd hnone
        rwa [hq] at hsnd
      subst hinvalid
      unfold deleteComponent
      simp only [hq]
      have htables : (s.miniTransStart (replies .beginDelete)).tables = s.tables := rfl
      have hversion : (s.miniTransStart (replies .beginDelete)).version = s.version := rfl
      rw [htables, hversion]
      generalize hr : s.tables.deleteComponent c replies component (s.version + 1) time = r
      obtain ⟨e, t⟩ := r
      rcases e with _ | e
      · exact deleted_of_queries hr.symm hnone (iff_of_true rfl (.inl rfl)) rfl rfl rfl rfl
          (fun _ => rfl) nofun
      · by_cases he : e = .unknownComponent
        · subst he
          exact deleted_of_queries hr.symm hnone (iff_of_true rfl (.inr rfl)) rfl rfl rfl rfl
            (fun _ => rfl) fun _ => rfl
        · obtain ⟨e', he', hne⟩ := dbErrClassify_ne_unknown he
          rw [he']
          split
          next h => cases h
          next h => exact absurd (Option.some.inj h) hne
          · refine deleted_of_queries hr.symm hnone (iff_of_false nofun ?_) rfl rfl rfl rfl
              nofun ?_
            · rintro (h | h)
              · cases h
              · exact he (Option.some.inj h)
            · exact fun h => absurd (Option.some.inj h) he

/-! ### The condition for a removal -/

/-- Marking the file changes something. -/
def Marks (s : ManagedDataset) (opened : Option (FileId × OpenFile)) : Prop :=
  ¬Same s (s.markDeleted opened)

/-- A removal is refused, or it succeeds, or nothing that it does before it fails has an effect. -/
def RemoveEarly (c : Collation) (replies : Replies) (s : ManagedDataset) (component : Component)
    (renameTarget : Bool) (time : Nat) : Prop :=
  match (s.removeChecks c replies component renameTarget).1 with
  | .error _ => True
  | .ok opened =>
    DeletePasses c replies s component time ∨
      ¬s.Marks opened ∧ DeleteIdle c replies s component time

/-- A removal succeeds. -/
def Removes (c : Collation) (replies : Replies) (s : ManagedDataset) (component : Component)
    (renameTarget : Bool) (time : Nat) : Prop :=
  (s.removeChecks c replies component renameTarget).1.isOk ∧
    DeletePasses c replies s component time

theorem removeAllowed_snd {renameTarget : Bool}
    (h : (s.removeAllowed c replies component renameTarget).2.2 = false) : s.invalid = false := by
  unfold removeAllowed at h
  split at h
  next he => exact classified_snd ((congrArg Prod.snd he).trans h)
  next he => exact (classified_eq_ok he).2.1
  next he => exact (classified_eq_ok he).2.1

theorem same_removeChecks (c : Collation) (replies : Replies) (s : ManagedDataset)
    (component : Component) (renameTarget : Bool) :
    Same s (s.removeChecks c replies component renameTarget).2 ∧
      (s.removeChecks c replies component renameTarget).1 ≠ .error .success := by
  unfold removeChecks
  simp only
  split
  · exact ⟨⟨rfl, rfl, rfl⟩, nofun⟩
  · split <;> exact ⟨⟨rfl, rfl, rfl⟩, nofun⟩

/-- Checks that let a component pass find it, and leave the dataset as it was. -/
theorem of_removeChecks {renameTarget : Bool} {opened : Option (FileId × OpenFile)}
    (h : s.removeChecks c replies component renameTarget = (.ok opened, t)) :
    t = s ∧ ∃ comp, s.tables.getComponentByPath c (normalizePath component)
      (fun i => replies (.infoPath i)) = .ok comp := by
  unfold removeChecks at h
  simp only at h
  split at h
  · cases h
  · split at h
    · cases h
    next info invalid hinfo =>
      obtain ⟨hfound, hbefore, rfl⟩ := classified_eq_ok hinfo
      cases h
      refine ⟨?_, ?_⟩
      · rw [← removeAllowed_snd hbefore]
      · unfold Tables.getComponentInfo at hfound
        split at hfound
        · cases hfound
        next comp hcomp => exact ⟨comp, hcomp⟩

theorem deletePasses_markDeleted (opened : Option (FileId × OpenFile)) :
    DeletePasses c replies (s.markDeleted opened) component time ↔
      DeletePasses c replies s component time := by
  cases opened <;> exact Iff.rfl

theorem deleteIdle_markDeleted (opened : Option (FileId × OpenFile)) :
    DeleteIdle c replies (s.markDeleted opened) component time ↔
      DeleteIdle c replies s component time := by
  cases opened <;> exact Iff.rfl

theorem tables_markDeleted (opened : Option (FileId × OpenFile)) :
    (s.markDeleted opened).tables = s.tables := by
  cases opened <;> rfl

/-- The names of the open files after a deletion are those that marking has left. -/
theorem Deleted.same_iff {x : ComponentStatus × ManagedDataset}
    {opened : Option (FileId × OpenFile)}
    (h : Deleted c replies (s.markDeleted opened) component time x) :
    Same s x.2 ↔ ¬s.Marks opened ∧ x.2.tables = s.tables := by
  have hnames : x.2.handleNames = (s.markDeleted opened).handleNames := by
    funext id
    rw [handleNames, h.fileIdToHandle, handleNames]
  rw [Marks, not_not]
  constructor
  · rintro ⟨htables, hopen, hfiles⟩
    exact ⟨⟨tables_markDeleted opened, h.openHandles ▸ hopen, hnames ▸ hfiles⟩, htables⟩
  · rintro ⟨⟨-, hopen, hfiles⟩, htables⟩
    exact ⟨htables, h.openHandles.trans hopen, hnames.trans hfiles⟩

theorem removeIw_cases (c : Collation) (replies : Replies) (s : ManagedDataset)
    (component : Component) (renameTarget : Bool) (time : Nat) :
    (∃ status t,
        s.removeChecks c replies (normalizePath component) renameTarget = (.error status, t) ∧
        status ≠ .success ∧ Same s t ∧
        s.removeIw c replies component renameTarget time = (status, t)) ∨
      ∃ opened,
        s.removeChecks c replies (normalizePath component) renameTarget = (.ok opened, s) ∧
        Deleted c replies (s.markDeleted opened) (normalizePath component) time
          (s.removeIw c replies component renameTarget time) := by
  obtain ⟨hsame, hstatus⟩ := same_removeChecks c replies s (normalizePath component) renameTarget
  cases hc : s.removeChecks c replies (normalizePath component) renameTarget with
  | mk r t =>
    rw [hc] at hsame hstatus
    cases r with
    | error status =>
      refine .inl ⟨status, t, rfl, fun h => hstatus (congrArg _ h), hsame, ?_⟩
      simp only [removeIw, hc]
    | ok opened =>
      obtain ⟨rfl, comp, hcomp⟩ := of_removeChecks hc
      refine .inr ⟨opened, rfl, ?_⟩
      simp only [removeIw, hc]
      rw [← tables_markDeleted opened] at hcomp
      exact deleted_deleteComponent hcomp time

theorem removeIw_eq_success_iff {renameTarget : Bool} :
    (s.removeIw c replies component renameTarget time).1 = .success ↔
      Removes c replies s (normalizePath component) renameTarget time := by
  rw [Removes]
  obtain ⟨status, t, hc, hstatus, -, he⟩ | ⟨opened, hc, hdel⟩ :=
    removeIw_cases c replies s component renameTarget time
  · rw [he, hc]
    exact iff_of_false hstatus fun h => absurd h.1 nofun
  · rw [hdel.success, deletePasses_markDeleted, hc]
    exact (and_iff_right rfl).symm

theorem removeIw_unchanged_iff {renameTarget : Bool} :
    Unchanged s (s.removeIw c replies component renameTarget time) ↔
      RemoveEarly c replies s (normalizePath component) renameTarget time := by
  rw [RemoveEarly]
  obtain ⟨status, t, hc, -, hsame, he⟩ | ⟨opened, hc, hdel⟩ :=
    removeIw_cases c replies s component renameTarget time
  · rw [he, hc]
    exact iff_of_true (fun _ => hsame) trivial
  · rw [hc]
    simp only
    rw [Unchanged, ← or_iff_not_imp_left, hdel.success, deletePasses_markDeleted, hdel.same_iff,
      ← deleteIdle_markDeleted opened, ← hdel.tables, tables_markDeleted]

/-! ### Moving -/

/-- Every statement of a move succeeds, and then the component is found at its new name. -/
def MovePasses (c : Collation) (replies : Replies) (s : ManagedDataset)
    (source destination : Component) : Prop :=
  (s.miniTransStart (replies .beginMove)).invalid = false ∧
    ∃ plan, s.tables.planMove c replies source destination = .ok plan ∧
      plan.Succeeds replies c (normalizePath destination) s.tables ∧
      ((plan.moved c (normalizePath destination) s.tables).getComponentType c destination
        fun i => replies (.movedType i)).isOk

/-- No statement of the move has an effect before the first one that fails. -/
def MoveIdle (c : Collation) (replies : Replies) (s : ManagedDataset)
    (source destination : Component) (time : Nat) : Prop :=
  ∀ plan, s.tables.planMove c replies source destination = .ok plan →
    Batch.Idle (Step.failure replies) Step.apply
      (plan.writes c (normalizePath destination) (s.version + 1) time) s.tables

/-- The tables are those that the database has made, and the open files have new names only after
a move that succeeds. -/
theorem doRename_frame (c : Collation) (replies : Replies) (s : ManagedDataset)
    (source destination : Component) (time : Nat) :
    (s.doRename c replies source destination time).2.tables =
        (s.tables.moveComponent c replies source destination (s.version + 1) time).2 ∧
      ((s.doRename c replies source destination time).1 ≠ .success →
        (s.doRename c replies source destination time).2.openHandles = s.openHandles ∧
          (s.doRename c replies source destination time).2.fileIdToHandle = s.fileIdToHandle) := by
  unfold doRename
  simp only
  split
  · exact ⟨rfl, fun _ => ⟨rfl, rfl⟩⟩
  · split
    · exact ⟨rfl, fun _ => ⟨rfl, rfl⟩⟩
    · exact ⟨rfl, fun h => absurd rfl h⟩
    · exact ⟨rfl, fun h => absurd rfl h⟩

theorem doRename_eq_success_iff (time : Nat) :
    (s.doRename c replies source destination time).1 = .success ↔
      MovePasses c replies s source destination := by
  have hmoved : ∀ plan, s.tables.planMove c replies source destination = .ok plan →
      (s.tables.moveComponent c replies source destination (s.version + 1) time).1 = none →
      (s.tables.moveComponent c replies source destination (s.version + 1) time).2.getComponentType
          c destination (fun i => replies (.movedType i)) =
        (plan.moved c (normalizePath destination) s.tables).getComponentType c destination
          fun i => replies (.movedType i) := fun plan hplan hnone => by
    rw [(Tables.moveComponent_alike hplan hnone).getComponentType]
  have hmove : (s.tables.moveComponent c replies source destination (s.version + 1) time).1 =
      none ↔ ∃ plan, s.tables.planMove c replies source destination = .ok plan ∧
        plan.Succeeds replies c (normalizePath destination) s.tables := by
    cases hplan : s.tables.planMove c replies source destination with
    | error e => simp [Tables.moveComponent, hplan]
    | ok plan => simp [Tables.moveComponent_fst_iff hplan]
  unfold doRename
  simp only
  have htables : (s.miniTransStart (replies .beginMove)).tables = s.tables := rfl
  have hversion : (s.miniTransStart (replies .beginMove)).version = s.version := rfl
  rw [htables, hversion, MovePasses]
  generalize s.tables.moveComponent c replies source destination (s.version + 1) time = r at *
  split
  next hsome =>
    refine iff_of_false (by simp) ?_
    rintro ⟨hvalid, plan, hplan, hsucceeds, -⟩
    have hnone := dbErrClassify_eq_none.2 ⟨hvalid, hmove.2 ⟨plan, hplan, hsucceeds⟩⟩
    rw [miniTransEnd, hnone] at hsome
    cases hsome
  next hnone =>
    have hclass := Option.not_isSome_iff_eq_none.1 hnone
    obtain ⟨hvalid, hr⟩ := dbErrClassify_eq_none.1 hclass
    obtain ⟨plan, hplan, hsucceeds⟩ := hmove.1 hr
    have hinvalid := dbErrClassify_snd hclass
    have hbegins : (s.miniTransStart (replies .beginMove)).invalid = false := hvalid
    have htype := hmoved plan hplan hr
    have hiff : ((s.miniTransStart (replies .beginMove)).invalid = false ∧
        ∃ plan, s.tables.planMove c replies source destination = .ok plan ∧
          plan.Succeeds replies c (normalizePath destination) s.tables ∧
          ((plan.moved c (normalizePath destination) s.tables).getComponentType c destination
            fun i => replies (.movedType i)).isOk) ↔
        (r.2.getComponentType c destination fun i => replies (.movedType i)).isOk := by
      rw [htype]
      constructor
      · rintro ⟨-, plan', hplan', -, hok⟩
        rw [hplan] at hplan'
        cases hplan'
        exact hok
      · exact fun hok => ⟨hbegins, plan, hplan, hsucceeds, hok⟩
    rw [hiff]
    simp only [miniTransEnd] at hinvalid ⊢
    rw [hinvalid]
    cases r.2.getComponentType c destination fun i => replies (.movedType i) with
    | error e => simp [classified, Except.isOk, Except.toBool]
    | ok directory => cases directory <;> exact iff_of_true rfl rfl

theorem doRename_tables_iff : (s.doRename c replies source destination time).2.tables = s.tables ↔
    MoveIdle c replies s source destination time := by
  rw [(doRename_frame c replies s source destination time).1, MoveIdle]
  cases hplan : s.tables.planMove c replies source destination with
  | error e =>
    refine iff_of_true ?_ nofun
    rw [Tables.moveComponent, hplan]
  | ok plan =>
    rw [Tables.moveComponent_eq_self_iff hplan]
    constructor
    · rintro h plan' hplan'
      cases hplan'
      exact h
    · exact fun h => h plan rfl

/-- Nothing is different after a move that fails exactly if the tables are not. -/
theorem doRename_unchanged_iff (hopen : t.openHandles = s.openHandles)
    (hfiles : t.handleNames = s.handleNames) (htables : t.tables = s.tables) :
    Unchanged s (t.doRename c replies source destination time) ↔
      MovePasses c replies t source destination ∨ MoveIdle c replies t source destination time := by
  rw [← doRename_eq_success_iff time, ← doRename_tables_iff, Unchanged,
    ← or_iff_not_imp_left, htables]
  by_cases hsuccess : (t.doRename c replies source destination time).1 = .success
  · simp [hsuccess]
  · obtain ⟨hopen', hfiles'⟩ := (doRename_frame c replies t source destination time).2 hsuccess
    have hnames : (t.doRename c replies source destination time).2.handleNames = t.handleNames := by
      funext id
      rw [handleNames, hfiles', handleNames]
    rw [or_iff_right hsuccess, or_iff_right hsuccess]
    exact ⟨Same.tables, fun h => ⟨h, hopen'.trans hopen, hnames.trans hfiles⟩⟩

/-! ### The condition for a rename -/

/-- The dataset when the destination is out of the way: without its rows, if there were any. -/
def madeRoom (c : Collation) (replies : Replies) (s : ManagedDataset) (component : Component) :
    ManagedDataset :=
  { s.miniTransStart (replies .beginDelete) with
    tables := match s.tables.planDelete c replies (normalizePath component) with
      | .ok plan => plan.removed s.tables
      | .error _ => s.tables }

/-- A removal that succeeds does nothing: there is no row to delete, and no file to mark. -/
def RemovesNothing (c : Collation) (replies : Replies) (s : ManagedDataset) (component : Component)
    (renameTarget : Bool) : Prop :=
  (∀ plan, s.tables.planDelete c replies (normalizePath component) ≠ .ok plan) ∧
    ∀ opened, (s.removeChecks c replies component renameTarget).1 = .ok opened → ¬s.Marks opened

/-- A rename is refused, or it succeeds, or nothing that it does before it fails has an effect:
no statement of the move, and no removal of the destination before. -/
def RenameEarly (c : Collation) (replies : Replies) (s : ManagedDataset)
    (source destination : Component) (time : Nat) (flags : UInt32) : Prop :=
  match s.renameChecks c replies source destination flags with
  | (.reject _, _) => True
  | (.move, t) => MovePasses c replies t source destination ∨
      MoveIdle c replies t source destination time
  | (.replace, t) =>
    RemoveEarly c replies t (normalizePath destination) true time ∧
      (Removes c replies t (normalizePath destination) true time →
        MovePasses c replies (t.madeRoom c replies (normalizePath destination)) source destination ∨
          RemovesNothing c replies t (normalizePath destination) true ∧
            MoveIdle c replies t source destination time)

theorem same_renameChecks (c : Collation) (replies : Replies) (s : ManagedDataset)
    (source destination : Component) (flags : UInt32) :
    Same s (s.renameChecks c replies source destination flags).2 := by
  unfold renameChecks
  simp only
  split
  · exact ⟨rfl, rfl, rfl⟩
  · split
    · exact ⟨rfl, rfl, rfl⟩
    · split
      · exact ⟨rfl, rfl, rfl⟩
      · split
        · split
          · exact ⟨rfl, rfl, rfl⟩
          · split <;> exact ⟨rfl, rfl, rfl⟩
        · split
          · exact ⟨rfl, rfl, rfl⟩
          · split <;> exact ⟨rfl, rfl, rfl⟩

theorem invalid_of_deleteQueries (h : (s.deleteQueries c replies component).1 = none) :
    s.invalid = false := by
  unfold deleteQueries at h
  split at h
  · cases h
  next he => exact (classified_eq_ok he).2.1
  next he => exact (classified_eq_ok he).2.1

/-- Whether a move succeeds does not depend on the times and versions of the rows. -/
theorem movePasses_congr (htables : t.tables.Alike u.tables) (hinvalid : t.invalid = u.invalid)
    (htran : t.tranIsOpen = u.tranIsOpen) :
    MovePasses c replies t source destination ↔ MovePasses c replies u source destination := by
  rw [MovePasses, MovePasses, miniTransStart, miniTransStart, hinvalid, htran, htables.planMove]
  refine and_congr_right fun _ => exists_congr fun plan => and_congr_right fun _ => ?_
  rw [htables.succeeds_iff, MovePlan.moved, MovePlan.moved,
    (htables.foldl_apply _).getComponentType]

/-- A move after a removal that succeeded works on the tables without the destination. -/
theorem movePasses_after_removal {x : ComponentStatus × ManagedDataset}
    {opened : Option (FileId × OpenFile)}
    (hdel : Deleted c replies (s.markDeleted opened) (normalizePath destination) time x)
    (hsuccess : x.1 = .success)
    (hroom : x.2.tables.Alike (s.madeRoom c replies (normalizePath destination)).tables) :
    MovePasses c replies x.2 source destination ↔
      MovePasses c replies (s.madeRoom c replies (normalizePath destination)) source
        destination := by
  have hpasses := (deletePasses_markDeleted opened).1 (hdel.success.1 hsuccess)
  have hvalid := invalid_of_deleteQueries hpasses.1
  have htran : x.2.tranIsOpen = (s.miniTransStart (replies .beginDelete)).tranIsOpen := by
    rw [hdel.tranIsOpen]
    cases opened <;> rfl
  exact movePasses_congr hroom ((hdel.valid hsuccess).trans hvalid.symm) htran

/-- If rows were deleted, the move has to succeed: the component does not come back. -/
theorem doRename_after_deletion {opened : Option (FileId × OpenFile)} {plan : DeletePlan}
    (hplan : s.tables.planDelete c replies (normalizePath (normalizePath destination)) = .ok plan)
    {x : ComponentStatus × ManagedDataset}
    (hdel : Deleted c replies (s.markDeleted opened) (normalizePath destination) time x)
    (hsuccess : x.1 = .success) :
    Unchanged s (x.2.doRename c replies source destination time) ↔
      MovePasses c replies (s.madeRoom c replies (normalizePath destination)) source
        destination := by
  have halike := hdel.removed hsuccess plan (by rw [tables_markDeleted, hplan])
  rw [tables_markDeleted] at halike
  rw [← movePasses_after_removal hdel hsuccess (by simpa only [madeRoom, hplan] using halike),
    ← doRename_eq_success_iff time]
  refine ⟨fun h => by_contra fun hfails => ?_, fun h hne => absurd h hne⟩
  have hgone : plan.comp.id ∉ x.2.tables.components.map ComponentRow.id := fun hmem =>
    Tables.notMem_removed plan s.tables
      ((halike.finds (.component plan.comp.id .delete)).1 hmem)
  have hstays : plan.comp.id ∉ (x.2.tables.moveComponent c replies source destination
      (x.2.version + 1) time).2.components.map ComponentRow.id :=
    Tables.notMem_moveComponent hgone
  rw [← (doRename_frame c replies x.2 source destination time).1, (h hfails).tables] at hstays
  exact hstays (Tables.id_mem_of_planDelete hplan)

/-- If there was no row to delete, the move has to succeed or to do nothing, and in that case no
open file may have been marked. -/
theorem doRename_without_deletion {opened : Option (FileId × OpenFile)} {e : DbError}
    (hplan : s.tables.planDelete c replies (normalizePath (normalizePath destination)) = .error e)
    {x : ComponentStatus × ManagedDataset}
    (hdel : Deleted c replies (s.markDeleted opened) (normalizePath destination) time x)
    (hsuccess : x.1 = .success) :
    Unchanged s (x.2.doRename c replies source destination time) ↔
      MovePasses c replies (s.madeRoom c replies (normalizePath destination)) source destination ∨
        ¬s.Marks opened ∧ MoveIdle c replies s source destination time := by
  obtain ⟨htables, hversion⟩ := hdel.kept hsuccess e (by rw [tables_markDeleted, hplan])
  rw [tables_markDeleted] at htables
  have hversion : x.2.version = s.version := by
    rw [hversion]
    cases opened <;> rfl
  have hidle : MoveIdle c replies x.2 source destination time ↔
      MoveIdle c replies s source destination time := by
    rw [MoveIdle, MoveIdle, htables, hversion]
  have hnames : x.2.handleNames = (s.markDeleted opened).handleNames := by
    funext id
    rw [handleNames, hdel.fileIdToHandle, handleNames]
  rw [← movePasses_after_removal hdel hsuccess
    (by simpa only [madeRoom, hplan] using htables ▸ Tables.Alike.refl _), ← hidle]
  by_cases hmarks : s.Marks opened
  · rw [or_iff_left fun h => h.1 hmarks, ← doRename_eq_success_iff time]
    refine ⟨fun h => by_contra fun hfails => hmarks ?_, fun h hne => absurd h hne⟩
    -- the file stays marked
    obtain ⟨hopen, hfiles⟩ := (doRename_frame c replies x.2 source destination time).2 hfails
    have hsame := h hfails
    refine ⟨tables_markDeleted opened, ?_, ?_⟩
    · rw [← hdel.openHandles, ← hopen, hsame.openHandles]
    · rw [← hnames, ← hsame.handleNames]
      funext id
      rw [handleNames, handleNames, hfiles]
  · have hsame := not_not.1 hmarks
    rw [and_iff_right hmarks]
    exact doRename_unchanged_iff (hdel.openHandles.trans hsame.openHandles)
      (hnames.trans hsame.handleNames) htables

/-- A move after a removal that succeeded. -/
theorem doRename_after_removal {opened : Option (FileId × OpenFile)}
    (hc : s.removeChecks c replies (normalizePath destination) true = (.ok opened, s))
    {x : ComponentStatus × ManagedDataset}
    (hdel : Deleted c replies (s.markDeleted opened) (normalizePath destination) time x)
    (hsuccess : x.1 = .success) :
    Unchanged s (x.2.doRename c replies source destination time) ↔
      MovePasses c replies (s.madeRoom c replies (normalizePath destination)) source destination ∨
        RemovesNothing c replies s (normalizePath destination) true ∧
          MoveIdle c replies s source destination time := by
  cases hplan : s.tables.planDelete c replies (normalizePath (normalizePath destination)) with
  | ok plan =>
    have hnothing : ¬RemovesNothing c replies s (normalizePath destination) true :=
      fun h => h.1 plan hplan
    rw [or_iff_left fun h => hnothing h.1]
    exact doRename_after_deletion hplan hdel hsuccess
  | error e =>
    have hnothing : RemovesNothing c replies s (normalizePath destination) true ↔
        ¬s.Marks opened := by
      rw [RemovesNothing, hc]
      refine ⟨fun h => h.2 opened rfl, fun h => ⟨fun plan he => ?_, fun opened' he => ?_⟩⟩
      · rw [hplan] at he
        cases he
      · cases he
        exact h
    rw [hnothing]
    exact doRename_without_deletion hplan hdel hsuccess

/-- A call that fails has changed nothing exactly if it failed early. -/
theorem unchanged_iff_early (c : Collation) (replies : Replies) (s : ManagedDataset) :
    (∀ component renameTarget time,
      Unchanged s (s.removeIw c replies component renameTarget time) ↔
        RemoveEarly c replies s (normalizePath component) renameTarget time) ∧
    ∀ source destination time flags,
      Unchanged s (s.renameComponent c replies source destination time flags) ↔
        RenameEarly c replies s source destination time flags := by
  refine ⟨fun component renameTarget time => removeIw_unchanged_iff,
    fun source destination time flags => ?_⟩
  have hsame := same_renameChecks c replies s source destination flags
  rw [renameComponent, RenameEarly]
  cases hc : s.renameChecks c replies source destination flags with
  | mk plan t =>
    rw [hc] at hsame
    cases plan with
    | reject status => exact iff_of_true (fun _ => hsame) trivial
    | move =>
      simp only
      rw [← unchanged_congr hsame]
      exact doRename_unchanged_iff rfl rfl rfl
    | replace =>
      simp only
      rw [← unchanged_congr hsame, ← removeIw_unchanged_iff, ← removeIw_eq_success_iff]
      by_cases hsuccess : (t.removeIw c replies destination true time).1 = .success
      · rw [if_neg (not_not.2 hsuccess)]
        obtain ⟨status, u, -, hstatus, -, he⟩ | ⟨opened, hc', hdel⟩ :=
          removeIw_cases c replies t destination true time
        · rw [he] at hsuccess
          exact absurd hsuccess hstatus
        · rw [doRename_after_removal hc' hdel hsuccess]
          exact ⟨fun h => ⟨fun hne => absurd hsuccess hne, fun _ => h⟩, fun h => h.2 hsuccess⟩
      · rw [if_pos hsuccess]
        exact (and_iff_left fun h => absurd h hsuccess).symm

/-- Names of which the case matters. -/
def plainNames : Collation where
  caseInsensitive := false
  upper := id
  same a b := a = b

/-- A row of version 1, with no time. -/
def firstRow (id parent : Nat) (name : Component) (directory : Bool) : ComponentRow where
  id := id
  name := name
  upname := name
  parent := parent
  directory := directory
  mtime := 0
  version := 1

/-- A root with the files `a` and `b`. -/
def twoFiles : ManagedDataset where
  tables := {
    components := [firstRow 1 0 [] true, firstRow 2 1 [0x61] false, firstRow 3 1 [0x62] false]
    contents := [⟨2, some 20, 1⟩, ⟨3, some 30, 1⟩]
    ids := by decide
    compids := by decide }
  version := 1
  openHandles := .empty
  fileIdToHandle := .empty
  invalid := false
  tranIsOpen := false

/-- The database fails the one statement that gives the row its new name. -/
def nameStays : Replies := fun x => if x = .moveName then .fails else .done

/-- The file that was to be replaced is gone although the rename failed. -/
theorem replaced_although_failed :
    (twoFiles.renameComponent plainNames nameStays [0x61] [0x62] 7
        VSSI_RENAME_REPLACE_EXISTING).1 = .badcmd ∧
      ¬Unchanged twoFiles (twoFiles.renameComponent plainNames nameStays [0x61] [0x62] 7
        VSSI_RENAME_REPLACE_EXISTING) := by
  have hfails : (twoFiles.renameComponent plainNames nameStays [0x61] [0x62] 7
      VSSI_RENAME_REPLACE_EXISTING).1 = .badcmd := by decide
  refine ⟨hfails, fun h => ?_⟩
  have hsame := (h (by rw [hfails]; decide)).tables
  have hgone : 3 ∉ (twoFiles.renameComponent plainNames nameStays [0x61] [0x62] 7
      VSSI_RENAME_REPLACE_EXISTING).2.tables.components.map ComponentRow.id := by decide
  rw [hsame] at hgone
  exact absurd hgone (by decide)

end ManagedDataset

end PersonalCloud.StorageNode
