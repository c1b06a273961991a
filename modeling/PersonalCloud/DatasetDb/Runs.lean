import PersonalCloud.DatasetDb.Collations
import PersonalCloud.DatasetDb.Copying

/-!
# Datasets over whole sessions

The operations may come in any order, in transactions or outside of them, and any of them may fail.
What the header assumes of the names is assumed of each call, for the tables that it is called with,
and also what it does not say: that a name that goes into a pattern has no letters with a meaning
there. A call that fails leaves the tables as they are then, and comes to nothing only when its
transaction is rolled back.

## Main definitions

* `call` — what an operation does to the tables.
* `Legal` — the assumptions.

## Main results

* `call_spec` — a call keeps the invariant, and the dataset changes as the operation says.
* `session_refines` — after any session the dataset is what the calls in effect say.
-/

namespace PersonalCloud.DatasetDb

open PersonalCloud.Lib PersonalCloud.Lib.PathText PersonalCloud.Lib.PathTree ComponentTree Tables

variable {α : Type} [DecidableEq α]

def call (c : Collation α) (t : Tables α) : Operation α → Call α (Tables α)
  | .testAndCreate name type version time => t.testAndCreateComponent c name type version time
  | .setVersion name version time type => t.setComponentVersion c name version time type
  | .setPath name path version time => t.setComponentPath c name path version time
  | .setSize name size version time => t.setComponentSize c name size version time
  | .setMetadata name type value => t.setComponentMetadata c name type value
  | .delete name version time => t.deleteComponent c name version time
  | .trash name version index time => t.trashComponent c name version index time
  | .deleteTrash version index => t.deleteTrash version index
  | .restore trashVersion index name version time =>
    t.restoreTrash c trashVersion index name version time
  | .move oldName newName version time => t.moveComponent c oldName newName version time
  | .copy oldName newName version time => t.copyComponent c oldName newName version time

/-- Names are canonical, and the name that something is put at "does not exist as a visible
component". The patterns have a name unescaped, so that it has to be literal. -/
def Legal (c : Collation α) (Literal : α → Prop) (t : Tables α) : Operation α → Prop
  | .testAndCreate name .. => Canonical c.slash name
  | .setVersion name .. => Canonical c.slash name
  | .setPath name .. => Canonical c.slash name
  | .setSize name .. => Canonical c.slash name
  | .setMetadata name .. => Canonical c.slash name
  | .delete name .. => Canonical c.slash name ∧ ∀ a ∈ name, Literal a
  | .trash name .. => Canonical c.slash name ∧ ∀ a ∈ name, Literal a
  | .deleteTrash .. => True
  | .restore _ _ name .. => Canonical c.slash name ∧ t.getComponentByName c name = none
  | .move oldName newName .. =>
    (Canonical c.slash oldName ∧ ∀ a ∈ oldName, Literal a) ∧ Canonical c.slash newName ∧
      (t.getComponentByName c newName = none ∨ c.upperName newName = c.upperName oldName)
  | .copy oldName newName .. =>
    (Canonical c.slash oldName ∧ ∀ a ∈ oldName, Literal a) ∧ Canonical c.slash newName ∧
      t.getComponentByName c newName = none

instance (c : Collation α) (Literal : α → Prop) [DecidablePred Literal] (t : Tables α)
    (o : Operation α) : Decidable (Legal c Literal t o) := by
  cases o <;> unfold Legal <;> infer_instance

variable {c : Collation α} {Literal : α → Prop} {t t' : Tables α} {o : Operation α}

theorem Tables.Changes.call_spec {tree : ComponentTree α} (h : Changes c t t' tree) {d : Dataset α}
    (hd : { t.abs c with tree := tree } = d) : Consistent c t' ∧ t'.abs c = d :=
  ⟨h.consistent, h.abs_eq.trans hd⟩

/-- One case for each operation. -/
theorem call_spec (hc : c.Lawful Literal) (ht : Consistent c t) (hlegal : Legal c Literal t o)
    (h : call c t o = .ok t') : Consistent c t' ∧ t'.abs c = (t.abs c).apply c o := by
  have hfree : ∀ {name}, Canonical c.slash name → t.getComponentByName c name = none →
      t.tree c none (c.pathOf name) = none := fun hname =>
    (ht.names.getComponentByName_eq_none_iff (hc.canonical_upperName.2 hname)).1
  cases o with
  | testAndCreate name type version time =>
    refine (testAndCreateComponent_spec hc ht hlegal h).call_spec ?_
    rw [Dataset.apply, show (t.abs c).tree = t.tree c none from rfl]
    split_ifs
    · rfl
    · rfl
  | setVersion name version time type =>
    exact (setComponentVersion_spec hc ht hlegal h).call_spec rfl
  | setPath name path version time => exact (setComponentPath_spec hc ht hlegal h).call_spec rfl
  | setSize name size version time => exact (setComponentSize_spec ht h).call_spec rfl
  | setMetadata name type value => exact (setComponentMetadata_spec hc ht hlegal h).call_spec rfl
  | delete name version time =>
    exact (deleteComponent_spec hc ht hlegal.1 hlegal.2 h).call_spec rfl
  | trash name version index time => exact trashComponent_spec hc ht hlegal.1 hlegal.2 h
  | deleteTrash version index => exact deleteTrash_spec ht h
  | restore trashVersion index name version time =>
    obtain ⟨hname, hnone⟩ := hlegal
    obtain ⟨hconsistent, kept, hkept, habs⟩ := restoreTrash_spec hc ht hname (hfree hname hnone) h
    refine ⟨hconsistent, habs.trans ?_⟩
    rw [Dataset.apply, hkept, Option.getD_some]
    rfl
  | move oldName newName version time =>
    obtain ⟨⟨hold, hlit⟩, hnew, htarget⟩ := hlegal
    exact (moveComponent_spec hc ht hold hlit hnew
      (htarget.imp (hfree hnew) (congrArg (parts c.slash))) h).call_spec rfl
  | copy oldName newName version time =>
    obtain ⟨⟨hold, hlit⟩, hnew, hnone⟩ := hlegal
    exact (copyComponent_spec hc ht hold hlit hnew (hfree hnew hnone) h).call_spec rfl

/-! ## Calls that succeed one after the other -/

/-- The tables are reached by legal calls, newest first, from those of a new dataset. -/
def Reached (c : Collation α) (Literal : α → Prop) : Tables α → List (Operation α) → Prop :=
  Session.Reached (call c) (Legal c Literal) Tables.empty

variable {os : List (Operation α)}

theorem Reached.consistent (hc : c.Lawful Literal) (h : Reached c Literal t os) :
    Consistent c t := by
  refine h.invariant consistent_empty fun t o t' ht ho hcall => ?_
  exact (call_spec hc ht ho hcall).1

/-- The dataset is what the operations make of an empty one. -/
theorem Reached.abs_eq (hc : c.Lawful Literal) (h : Reached c Literal t os) :
    t.abs c = Dataset.after c os := by
  induction os generalizing t with
  | nil => rw [h.eq_of_nil, abs_empty]; rfl
  | cons o os ih =>
    obtain ⟨s, (hs : Reached c Literal s os), ho, hcall⟩ := h.of_cons
    rw [(call_spec hc (hs.consistent hc) ho hcall).2, ih hs]
    rfl

/-! ## Sessions -/

/-- A session on a new dataset, with legal calls, and a rollback after each that fails. -/
def InUse (c : Collation α) (Literal : α → Prop) (s : Session (Tables α) (Operation α)) : Prop :=
  ∃ tr, Run (Session.step (call c)) (.new Tables.empty) tr s ∧ Meets Session.Careful tr ∧
    Meets (fun s x => x.Meets (Legal c Literal) s.state) tr

variable {s : Session (Tables α) (Operation α)}

theorem InUse.reached (h : InUse c Literal s) (hclean : s.failed = false) :
    Reached c Literal s.state s.calls := by
  obtain ⟨tr, hrun, hcareful, hlegal⟩ := h
  exact Session.exists_run hrun hcareful hlegal hclean

/-- A file is made and its directory moved into itself, which fails. Then the directory is copied
and put into the trash, the copy moved and the directory restored below it. -/
def someCommands : List (Command (Operation CodePoint)) :=
  [.start, .call (.testAndCreate [0x61, 0x2f, 0x62] .file 1 10),
    .call (.setPath [0x41, 0x2f, 0x62] [1] 2 11), .call (.setSize [0x61, 0x2f, 0x62] 7 2 11),
    .commit, .start, .call (.setVersion [0x66] 3 12 .directory),
    .call (.move [0x61] [0x41, 0x2f, 0x63] 3 12), .rollback,
    .call (.copy [0x61] [0x63] 3 12), .start, .call (.trash [0x61] 4 0 13),
    .call (.move [0x43] [0x64] 5 14), .call (.restore 4 0 [0x64, 0x2f, 0x65] 6 15), .commit]

def someSession : Session (Tables CodePoint) (Operation CodePoint) :=
  (exec (Session.step (call caseInsensitive)) (.new Tables.empty) someCommands).getD
    (.new Tables.empty)

theorem exec_someCommands :
    exec (Session.step (call caseInsensitive)) (.new Tables.empty) someCommands =
      some someSession := by
  decide +kernel

theorem inUse_someSession : InUse caseInsensitive (fun a => IsLiteral a) someSession :=
  ⟨_, run_trace exec_someCommands, by decide +kernel, by decide +kernel⟩

/-- With `[a]` goes what is in `a`, and what is in it stays. -/
example :
    ((exec (Session.step (call caseSensitive)) (.new Tables.empty)
      [.call (.testAndCreate [0x5b, 0x61, 0x5d, 0x2f, 0x62] .file 1 10),
        .call (.testAndCreate [0x61, 0x2f, 0x78] .file 2 11),
        .call (.delete [0x5b, 0x61, 0x5d] 3 12)]).map fun s => s.state.component.map (·.name)) =
      some [[], [0x5b, 0x61, 0x5d, 0x2f, 0x62], [0x61]] := by
  decide +kernel

end PersonalCloud.DatasetDb
