import PersonalCloud.Lib.Batch
import PersonalCloud.Lib.Table
import PersonalCloud.StorageNode.ComponentNames

/-!
# The database, statement by statement

The database of a dataset has a row for each component, with the id of its directory, and a row
for the content of each file. An operation makes its queries first and then a batch of writes. The
first statement that fails ends it, and nothing takes the writes before it back: the
mini-transaction around the operation only decides whether the dataset's version moves on.

## Main definitions

* `Tables` — the rows.
* `Replies` — which statements fail, each named by the place in the code that makes it.
* `Tables.deleteComponent`, `Tables.moveComponent` — the operations.

## Main results

* `Tables.run_eq_self_iff` — the writes of one operation leave the tables as they were exactly if
  none of them has an effect before the first one that fails.
* `Tables.Alike` — tables that no query can tell apart.
-/

namespace PersonalCloud.StorageNode

open PersonalCloud.Lib

/-- `breaks` is an error after which the database has to be recovered. -/
inductive Reply where
  | done | fails | breaks
  deriving DecidableEq, Repr

/-- The places where statements are made. A path is looked up name by name, the root first. -/
inductive Statement where
  | testSource (i : Nat) | testDestination (i : Nat)
  | destinationType (i : Nat) | directoryType (i : Nat)
  | allowedType (i : Nat) | allowedPath (i : Nat) | allowedContent
  | allowedList (i : Nat) | allowedNames
  | infoPath (i : Nat) | infoContent
  | beginDelete | deleteType (i : Nat) | deletePath (i : Nat) | deletePathContent | refCount
  | deleteOnPath (i : Nat) | deleteName | deleteNames
  | deleteContent | deleteRow | deleteMTime
  | deleteVersion (i : Nat) | deleteContentVersion (i : Nat)
  | beginMove | moveOld (i : Nat) | moveSource (i : Nat) | moveDestination (i : Nat) | moveNew
  | moveParent | moveName
  | sourceVersion (i : Nat) | sourceContentVersion (i : Nat) | sourceMTime
  | destinationVersion (i : Nat) | destinationContentVersion (i : Nat) | destinationMTime
  | movedVersion | movedContentVersion | movedType (i : Nat)
  deriving DecidableEq, Repr

abbrev Replies := Statement → Reply

/-- `user` is any other error of the class that needs no recovery, and `access` what every error
turns into once the dataset is invalid. -/
inductive DbError where
  | unknownComponent | unknownContent | isDirectory | notDirectory | wrongComponentType
  | badRequest | user | recovery | access
  deriving DecidableEq, Repr

def Reply.error? : Reply → Option DbError
  | .done => none
  | .fails => some .user
  | .breaks => some .recovery

/-- How names are compared: `utf8_upper` folds a name, and `utf8_casencmp` tells whether two names
are the same. The database always folds, the dataset only if case does not matter to it. -/
structure Collation where
  caseInsensitive : Bool
  upper : Component → Component
  same : Component → Component → Bool

/-! ## Tables -/

structure ComponentRow where
  id : Nat
  name : Component
  upname : Component
  parent : Nat
  directory : Bool
  mtime : Nat
  version : Nat
  deriving DecidableEq, Repr

/-- The content of a file. The location is none if the text is empty; all rows are of revision 0,
the only one that the code writes. -/
structure ContentRow where
  compid : Nat
  location : Option ContentPath
  version : Nat
  deriving DecidableEq, Repr

@[ext]
structure Tables where
  components : List ComponentRow
  contents : List ContentRow
  ids : Table.Keyed ComponentRow.id components
  compids : Table.Keyed ContentRow.compid contents

/-- What the callers read of a row. -/
structure ComponentAttrs where
  id : Nat
  directory : Bool
  deriving DecidableEq, Repr

def ComponentRow.attrs (r : ComponentRow) : ComponentAttrs where
  id := r.id
  directory := r.directory

/-! ## Names -/

def getDirName (path : Component) : Component := (parentOf path).getD []

def getBaseName (path : Component) : Component :=
  (path.reverse.takeWhile fun b => b ≠ slash).reverse

def splitComponentPath (path : Component) : List Component :=
  [] :: if path = [] then [] else path.splitOn slash

def lostAndFound : Component :=
  [0x6c, 0x6f, 0x73, 0x74, 0x2b, 0x66, 0x6f, 0x75, 0x6e, 0x64]

/-! ## Queries -/

/-- The components on a path: `back` is the last one. -/
structure Trail where
  above : List ComponentAttrs
  back : ComponentAttrs
  deriving DecidableEq, Repr

namespace Trail

def comps (trail : Trail) : List ComponentAttrs := trail.above ++ [trail.back]

def push (trail : Trail) (comp : ComponentAttrs) : Trail where
  above := trail.comps
  back := comp

end Trail

/-- A query whose statement fails. -/
def Reply.query {α : Type} (reply : Reply) (answer : Except DbError α) : Except DbError α :=
  match reply.error? with
  | some e => .error e
  | none => answer

namespace Tables

variable (t : Tables) (c : Collation)

def getComponentByNameParent (name : Component) (parent : Nat) (reply : Reply) :
    Except DbError ComponentAttrs :=
  reply.query
    (match t.components.find? fun r => r.upname = c.upper name ∧ r.parent = parent with
    | none => .error .unknownComponent
    | some r => .ok r.attrs)

/-- The loop over the names behind the root. -/
def descend (replies : Nat → Reply) : List Component → Trail → Except DbError Trail
  | [], trail => .ok trail
  | name :: names, trail =>
    match t.getComponentByNameParent c name trail.back.id (replies 0) with
    | .error e => .error e
    | .ok comp => descend (fun i => replies (i + 1)) names (trail.push comp)

def getComponentsOnPath (path : Component) (replies : Nat → Reply) : Except DbError Trail :=
  match t.getComponentByNameParent c [] 0 (replies 0) with
  | .error e => .error e
  | .ok root =>
    t.descend c (fun i => replies (i + 1)) (splitComponentPath path).tail ⟨[], root⟩

def getComponentByPath (path : Component) (replies : Nat → Reply) :
    Except DbError ComponentAttrs :=
  (t.getComponentsOnPath c path replies).map Trail.back

def testExistComponent (path : Component) (replies : Nat → Reply) : Bool :=
  (t.getComponentByPath c (normalizePath path) replies).toBool

/-- Whether the component is a directory. -/
def getComponentType (path : Component) (replies : Nat → Reply) : Except DbError Bool :=
  (t.getComponentByPath c (normalizePath path) replies).map ComponentAttrs.directory

def getContentByCompIdRev (compid : Nat) (reply : Reply) : Except DbError ContentRow :=
  reply.query
    (match t.contents.find? fun r => r.compid = compid with
    | none => .error .unknownContent
    | some content => .ok content)

def getComponentPath (path : Component) (replies : Nat → Reply) (content : Reply) :
    Except DbError ContentPath :=
  match t.getComponentByPath c (normalizePath path) replies with
  | .error e => .error e
  | .ok comp =>
    if comp.directory then .error .isDirectory
    else
      match t.getContentByCompIdRev comp.id content with
      | .error e => .error e
      | .ok content =>
        match content.location with
        | none => .error .unknownContent
        | some location => .ok location

def listComponentsByParent (parent : Nat) (reply : Reply) : Except DbError (List Component) :=
  reply.query (.ok ((t.components.filter fun r => r.parent = parent).map ComponentRow.name))

def listComponents (path : Component) (replies : Nat → Reply) (names : Reply) :
    Except DbError (List Component) :=
  match t.getComponentByPath c (normalizePath path) replies with
  | .error e => .error e
  | .ok comp =>
    if comp.directory then t.listComponentsByParent comp.id names else .error .notDirectory

def getComponentInfo (path : Component) (replies : Nat → Reply) (content : Reply) :
    Except DbError ComponentAttrs :=
  match t.getComponentByPath c (normalizePath path) replies with
  | .error e => .error e
  | .ok comp =>
    if comp.directory then .ok comp
    else (t.getContentByCompIdRev comp.id content).map fun _ => comp

end Tables

/-! ## Writes -/

/-- What becomes of the row of a component. -/
inductive ComponentEdit where
  | delete | parent (parent : Nat) | name (name upname : Component)
  | mtime (mtime : Nat) | version (version : Nat)
  deriving DecidableEq, Repr

inductive ContentEdit where
  | delete | version (version : Nat)
  deriving DecidableEq, Repr

def ComponentEdit.apply : ComponentEdit → ComponentRow → Option ComponentRow
  | .delete, _ => none
  | .parent p, r => some { r with parent := p }
  | .name n upname, r => some { r with name := n, upname := upname }
  | .mtime time, r => some { r with mtime := time }
  | .version v, r => some { r with version := v }

def ContentEdit.apply : ContentEdit → ContentRow → Option ContentRow
  | .delete, _ => none
  | .version v, r => some { r with version := v }

theorem ComponentEdit.keepsKey (edit : ComponentEdit) :
    Table.KeepsKey ComponentRow.id edit.apply := by
  intro r r' hr
  cases edit with
  | delete => cases hr
  | parent | name | mtime | version =>
    cases hr
    rfl

theorem ContentEdit.keepsKey (edit : ContentEdit) :
    Table.KeepsKey ContentRow.compid edit.apply := by
  intro r r' hr
  cases edit with
  | delete => cases hr
  | version =>
    cases hr
    rfl

/-- A statement about the one row of a component or of its content. -/
inductive Write where
  | component (id : Nat) (edit : ComponentEdit)
  | content (compid : Nat) (edit : ContentEdit)
  deriving DecidableEq, Repr

def setComponentParentById (id parent : Nat) : Write := .component id (.parent parent)

def setComponentNameById (c : Collation) (id : Nat) (name : Component) : Write :=
  .component id (.name name (c.upper name))

def setComponentMTimeById (id mtime : Nat) : Write := .component id (.mtime mtime)

def setComponentVersionById (id version : Nat) : Write := .component id (.version version)

def deleteComponentById (id : Nat) : Write := .component id .delete

def setContentVersionByCompIdRev (compid version : Nat) : Write :=
  .content compid (.version version)

def deleteContentByCompId (compid : Nat) : Write := .content compid .delete

namespace Write

def Finds (t : Tables) : Write → Prop
  | .component id _ => id ∈ t.components.map ComponentRow.id
  | .content compid _ => compid ∈ t.contents.map ContentRow.compid

instance (t : Tables) : DecidablePred (Finds t) := fun w => by
  cases w <;> exact inferInstanceAs (Decidable (_ ∈ _))

/-- The error of a statement that changes no row. -/
def missing : Write → DbError
  | .component .. => .unknownComponent
  | .content .. => .unknownContent

def apply : Write → Tables → Tables
  | .component id edit, t => { t with
      components := Table.edit ComponentRow.id id edit.apply t.components
      ids := t.ids.edit edit.keepsKey }
  | .content compid edit, t => { t with
      contents := Table.edit ContentRow.compid compid edit.apply t.contents
      compids := t.compids.edit edit.keepsKey }

end Write

/-- A statement at its place in the code. -/
abbrev Step := Statement × Write

def Step.failure (replies : Replies) (x : Step) (t : Tables) : Option DbError :=
  match (replies x.1).error? with
  | some e => some e
  | none => if x.2.Finds t then none else some x.2.missing

def Step.apply (x : Step) (t : Tables) : Tables := x.2.apply t

/-- `place` and `content` are where the two setters of the loop stand. -/
def setComponentsVersion (place content : Nat → Statement) (version : Nat)
    (comps : List ComponentAttrs) : List Step :=
  comps.zipIdx.flatMap fun x =>
    (place x.2, setComponentVersionById x.1.id version) ::
      if x.1.directory then []
      else [(content x.2, setContentVersionByCompIdRev x.1.id version)]

/-! ## Operations -/

/-- What the queries of `DeleteComponent` have found. -/
structure DeletePlan where
  comp : ComponentAttrs
  comps : Trail
  deriving DecidableEq, Repr

/-- What the queries of `MoveComponent` have found. `renames` is whether the two paths differ. -/
structure MovePlan where
  comp : ComponentAttrs
  src : Trail
  dest : Trail
  renames : Bool
  deriving DecidableEq, Repr

namespace DeletePlan

variable (plan : DeletePlan)

def removal : List Step :=
  (if plan.comp.directory then [] else [(.deleteContent, deleteContentByCompId plan.comp.id)]) ++
    [(.deleteRow, deleteComponentById plan.comp.id)]

def updates (version time : Nat) : List Step :=
  (.deleteMTime, setComponentMTimeById plan.comps.back.id time) ::
    setComponentsVersion .deleteVersion .deleteContentVersion version plan.comps.comps

def writes (version time : Nat) : List Step := plan.removal ++ plan.updates version time

end DeletePlan

namespace MovePlan

variable (plan : MovePlan)

def relocation (c : Collation) (newPath : Component) : List Step :=
  (if plan.renames then [(.moveParent, setComponentParentById plan.comp.id plan.dest.back.id)]
    else []) ++
    [(.moveName, setComponentNameById c plan.comp.id (getBaseName newPath))]

def updates (version time : Nat) : List Step :=
  setComponentsVersion .sourceVersion .sourceContentVersion version plan.src.comps ++
    (.sourceMTime, setComponentMTimeById plan.src.back.id time) ::
    setComponentsVersion .destinationVersion .destinationContentVersion version plan.dest.comps ++
    (.destinationMTime, setComponentMTimeById plan.dest.back.id time) ::
    (.movedVersion, setComponentVersionById plan.comp.id version) ::
    if plan.comp.directory then []
    else [(.movedContentVersion, setContentVersionByCompIdRev plan.comp.id version)]

def writes (c : Collation) (newPath : Component) (version time : Nat) : List Step :=
  plan.relocation c newPath ++ plan.updates version time

end MovePlan

namespace Tables

variable (t : Tables) (c : Collation) (replies : Replies)

/-- `DeleteComponent` of a normalized path, up to its first write. A list of the children that
fails counts as empty. -/
def planDelete (path : Component) : Except DbError DeletePlan :=
  if c.same path lostAndFound then .error .badRequest
  else
    match t.getComponentsOnPath c (getDirName path) fun i => replies (.deleteOnPath i) with
    | .error e => .error e
    | .ok comps =>
      match t.getComponentByNameParent c (getBaseName path) comps.back.id (replies .deleteName) with
      | .error e => .error e
      | .ok comp =>
        if comp.directory ∧
            (t.listComponentsByParent comp.id (replies .deleteNames)).toOption.getD [] ≠ [] then
          .error .badRequest
        else .ok ⟨comp, comps⟩

/-- How an operation ends, and what it has made of the tables. -/
def deleteComponent (path : Component) (version time : Nat) : Option DbError × Tables :=
  match t.planDelete c replies (normalizePath path) with
  | .error e => (some e, t)
  | .ok plan => Batch.run (Step.failure replies) Step.apply (plan.writes version time) t

/-- `MoveComponent` up to its first write. The folded paths are compared as they were given. -/
def planMove (_oldPath _newPath : Component) : Except DbError MovePlan :=
  let oldPath := normalizePath _oldPath
  let newPath := normalizePath _newPath
  let names := splitComponentPath newPath
  if c.same oldPath lostAndFound then .error .badRequest
  else if (names.length = 3 ∨ names.length = 4) ∧ c.same (names.getD 1 []) lostAndFound then
    .error .badRequest
  else
    match t.getComponentByPath c oldPath fun i => replies (.moveOld i) with
    | .error e => .error e
    | .ok comp =>
      match t.getComponentsOnPath c (getDirName oldPath) fun i => replies (.moveSource i) with
      | .error e => .error e
      | .ok src =>
        match t.getComponentsOnPath c (getDirName newPath)
          fun i => replies (.moveDestination i) with
        | .error e => .error e
        | .ok dest =>
          if c.upper _newPath = c.upper _oldPath then .ok ⟨comp, src, dest, false⟩
          else if !dest.back.directory then .error .wrongComponentType
          else
            match t.getComponentByNameParent c (getBaseName newPath) dest.back.id
              (replies .moveNew) with
            | .ok _ => .error .badRequest
            | .error .unknownComponent => .ok ⟨comp, src, dest, true⟩
            | .error e => .error e

def moveComponent (oldPath newPath : Component) (version time : Nat) : Option DbError × Tables :=
  match t.planMove c replies oldPath newPath with
  | .error e => (some e, t)
  | .ok plan =>
    Batch.run (Step.failure replies) Step.apply
      (plan.writes c (normalizePath newPath) version time) t

end Tables

/-! ## Writes of one operation -/

/-- The value that is written is that of the column of `goal`. -/
def ComponentEdit.From (goal : ComponentRow) : ComponentEdit → Prop
  | .delete => True
  | .parent p => p = goal.parent
  | .name n upname => n = goal.name ∧ upname = goal.upname
  | .mtime time => time = goal.mtime
  | .version v => v = goal.version

def ContentEdit.From (goal : ComponentRow) : ContentEdit → Prop
  | .delete => True
  | .version v => v = goal.version

def Write.From (goal : ComponentRow) : Write → Prop
  | .component _ edit => edit.From goal
  | .content _ edit => edit.From goal

/-- The write deletes no row. -/
def Write.Keeps : Write → Prop
  | .component _ edit => edit ≠ .delete
  | .content _ edit => edit ≠ .delete

/-- The write only sets times and versions. -/
def Write.IsStamp : Write → Prop
  | .component _ (.mtime _) | .component _ (.version _) | .content _ (.version _) => True
  | _ => False

section Writes

variable {goal : ComponentRow} {w w' : Write} {t u : Tables} {c : Collation} {replies : Replies}
  {ws : List Step}

theorem ComponentEdit.bind_comm {e e' : ComponentEdit} (h : e.From goal) (h' : e'.From goal)
    (r : ComponentRow) : (e.apply r).bind e'.apply = (e'.apply r).bind e.apply := by
  cases e <;> cases e' <;> simp_all [From, apply]

theorem ContentEdit.bind_comm {e e' : ContentEdit} (h : e.From goal) (h' : e'.From goal)
    (r : ContentRow) : (e.apply r).bind e'.apply = (e'.apply r).bind e.apply := by
  cases e <;> cases e' <;> simp_all [From, apply]

theorem Write.apply_comm (h : w.From goal) (h' : w'.From goal) (t : Tables) :
    w.apply (w'.apply t) = w'.apply (w.apply t) := by
  cases w with
  | component id e =>
    cases w' with
    | component id' e' =>
      refine Tables.ext (Table.edit_comm e.keepsKey e'.keepsKey fun _ => ?_) rfl
      exact ComponentEdit.bind_comm h h'
    | content => rfl
  | content id e =>
    cases w' with
    | component => rfl
    | content id' e' =>
      refine Tables.ext rfl (Table.edit_comm e.keepsKey e'.keepsKey fun _ => ?_)
      exact ContentEdit.bind_comm h h'

theorem Write.apply_apply (w : Write) (t : Tables) : w.apply (w.apply t) = w.apply t := by
  cases w with
  | component id e =>
    refine Tables.ext (Table.edit_edit e.keepsKey fun r => ?_) rfl
    cases e <;> rfl
  | content id e =>
    refine Tables.ext rfl (Table.edit_edit e.keepsKey fun r => ?_)
    cases e <;> rfl

/-- What the writes of one operation have done shows unless each of them found its row so. -/
theorem run_eq_self_iff (h : ∀ x ∈ ws, x.2.From goal) :
    (Batch.run (Step.failure replies) Step.apply ws t).2 = t ↔
      Batch.Idle (Step.failure replies) Step.apply ws t :=
  Batch.run_snd_eq_iff (fun x _ => x.2.apply_apply) fun x hx y hy =>
    Write.apply_comm (h x hx) (h y hy)

theorem Write.IsStamp.keeps (h : w.IsStamp) : w.Keeps := by
  cases w with
  | component id e =>
    rintro rfl
    cases h
  | content id e =>
    rintro rfl
    cases h

theorem Write.Keeps.finds_apply (h : w.Keeps) : w'.Finds (w.apply t) ↔ w'.Finds t := by
  have hids : (w.apply t).components.map ComponentRow.id = t.components.map ComponentRow.id := by
    cases w with
    | component id e =>
      refine Table.map_edit e.keepsKey fun r => ?_
      cases e with
      | delete => cases h rfl
      | parent | name | mtime | version => rfl
    | content => rfl
  have hcompids : (w.apply t).contents.map ContentRow.compid =
      t.contents.map ContentRow.compid := by
    cases w with
    | component => rfl
    | content id e =>
      refine Table.map_edit e.keepsKey fun r => ?_
      cases e with
      | delete => cases h rfl
      | version => rfl
  cases w' with
  | component => rw [Finds, Finds, hids]
  | content => rw [Finds, Finds, hcompids]

theorem Step.failure_congr {x : Step} (h : x.2.Finds t ↔ x.2.Finds u) :
    x.failure replies t = x.failure replies u := by
  simp only [failure, h]

/-- The first write that fails is the first that would on its own. -/
theorem run_fst_of_keeps (h : ∀ x ∈ ws, x.2.Keeps) :
    (Batch.run (Step.failure replies) Step.apply ws t).1 =
      ws.findSome? fun x => x.failure replies t :=
  Batch.run_fst (List.pairwise_of_forall_mem_list fun x hx _ _ _ =>
    Step.failure_congr (h x hx).finds_apply)

/-- No write adds a row. -/
theorem Write.notMem_apply {id : Nat} (w : Write) (h : id ∉ t.components.map ComponentRow.id) :
    id ∉ (w.apply t).components.map ComponentRow.id := by
  cases w with
  | component id' e => exact fun hmem => h (Table.mem_of_mem_edit e.keepsKey hmem)
  | content => exact h

end Writes

/-! ## Tables that no query can tell apart -/

/-- The row without the columns that no query looks at. -/
def ComponentRow.shape (r : ComponentRow) : ComponentRow := { r with mtime := 0, version := 0 }

def ContentRow.shape (r : ContentRow) : ContentRow := { r with version := 0 }

namespace Tables

structure Alike (t u : Tables) : Prop where
  components : t.components.map ComponentRow.shape = u.components.map ComponentRow.shape
  contents : t.contents.map ContentRow.shape = u.contents.map ContentRow.shape

variable {t u v : Tables} {c : Collation} {replies : Replies}

theorem Alike.refl (t : Tables) : t.Alike t := ⟨rfl, rfl⟩

theorem Alike.trans (h : t.Alike u) (h' : u.Alike v) : t.Alike v :=
  ⟨h.components.trans h'.components, h.contents.trans h'.contents⟩

theorem Alike.symm (h : t.Alike u) : u.Alike t := ⟨h.components.symm, h.contents.symm⟩

theorem Alike.getComponentByNameParent (h : t.Alike u) :
    t.getComponentByNameParent c = u.getComponentByNameParent c := by
  funext name parent reply
  have hfind : ∀ t : Tables,
      (t.components.find? fun r => r.upname = c.upper name ∧ r.parent = parent).map
          ComponentRow.attrs =
        ((t.components.map ComponentRow.shape).find? fun r =>
          r.upname = c.upper name ∧ r.parent = parent).map ComponentRow.attrs := by
    intro t
    rw [List.find?_map, Option.map_map]
    rfl
  have hattrs : (t.components.find? fun r => r.upname = c.upper name ∧ r.parent = parent).map
        ComponentRow.attrs =
      (u.components.find? fun r => r.upname = c.upper name ∧ r.parent = parent).map
        ComponentRow.attrs := by
    rw [hfind, hfind, h.components]
  unfold Tables.getComponentByNameParent
  congr 1
  cases ht : t.components.find? fun r => r.upname = c.upper name ∧ r.parent = parent with
  | none =>
    rw [ht] at hattrs
    rw [Option.map_eq_none_iff.1 hattrs.symm]
  | some r =>
    rw [ht] at hattrs
    obtain ⟨r', hr', he⟩ := Option.map_eq_some_iff.1 hattrs.symm
    rw [hr']
    exact congrArg Except.ok he.symm

theorem Alike.descend (h : t.Alike u) (replies : Nat → Reply) (names : List Component)
    (trail : Trail) : t.descend c replies names trail = u.descend c replies names trail := by
  induction names generalizing replies trail with
  | nil => rfl
  | cons name names ih =>
    rw [Tables.descend, Tables.descend, h.getComponentByNameParent]
    cases u.getComponentByNameParent c name trail.back.id (replies 0) with
    | error e => rfl
    | ok comp => exact ih _ _

theorem Alike.getComponentsOnPath (h : t.Alike u) :
    t.getComponentsOnPath c = u.getComponentsOnPath c := by
  funext path replies
  rw [Tables.getComponentsOnPath, Tables.getComponentsOnPath, h.getComponentByNameParent]
  cases u.getComponentByNameParent c [] 0 (replies 0) with
  | error e => rfl
  | ok root => exact h.descend _ _ _

theorem Alike.getComponentByPath (h : t.Alike u) :
    t.getComponentByPath c = u.getComponentByPath c := by
  funext path replies
  rw [Tables.getComponentByPath, Tables.getComponentByPath, h.getComponentsOnPath]

theorem Alike.getComponentType (h : t.Alike u) :
    t.getComponentType c = u.getComponentType c := by
  funext path replies
  rw [Tables.getComponentType, Tables.getComponentType, h.getComponentByPath]

theorem Alike.planMove (h : t.Alike u) : t.planMove c replies = u.planMove c replies := by
  funext oldPath newPath
  rw [Tables.planMove, Tables.planMove, h.getComponentByPath, h.getComponentsOnPath,
    h.getComponentByNameParent]

theorem Alike.finds (h : t.Alike u) (w : Write) : w.Finds t ↔ w.Finds u := by
  have hids := congrArg (List.map ComponentRow.id) h.components
  have hcompids := congrArg (List.map ContentRow.compid) h.contents
  rw [List.map_map, List.map_map] at hids hcompids
  cases w with
  | component id e => exact iff_of_eq (congrArg (id ∈ ·) hids)
  | content id e => exact iff_of_eq (congrArg (id ∈ ·) hcompids)

/-- Writes make alike tables of alike ones. -/
theorem Alike.apply (h : t.Alike u) (w : Write) : (w.apply t).Alike (w.apply u) := by
  cases w with
  | component id e =>
    refine ⟨?_, h.contents⟩
    have hedit : ∀ rows : List ComponentRow,
        (Table.edit ComponentRow.id id e.apply rows).map ComponentRow.shape =
          (rows.map ComponentRow.shape).filterMap fun r =>
            (if r.id = id then e.apply r else some r).map ComponentRow.shape := by
      intro rows
      rw [Table.edit, List.map_filterMap, List.filterMap_map]
      refine List.filterMap_congr fun r _ => ?_
      simp only [Function.comp_apply]
      by_cases hr : r.id = id
      · have hshape : r.shape.id = id := hr
        rw [if_pos hr, if_pos hshape]
        cases e <;> rfl
      · have hshape : r.shape.id ≠ id := hr
        rw [if_neg hr, if_neg hshape]
        rfl
    exact (hedit _).trans ((congrArg _ h.components).trans (hedit _).symm)
  | content id e =>
    refine ⟨h.components, ?_⟩
    have hedit : ∀ rows : List ContentRow,
        (Table.edit ContentRow.compid id e.apply rows).map ContentRow.shape =
          (rows.map ContentRow.shape).filterMap fun r =>
            (if r.compid = id then e.apply r else some r).map ContentRow.shape := by
      intro rows
      rw [Table.edit, List.map_filterMap, List.filterMap_map]
      refine List.filterMap_congr fun r _ => ?_
      simp only [Function.comp_apply]
      by_cases hr : r.compid = id
      · have hshape : r.shape.compid = id := hr
        rw [if_pos hr, if_pos hshape]
        cases e <;> rfl
      · have hshape : r.shape.compid ≠ id := hr
        rw [if_neg hr, if_neg hshape]
        rfl
    exact (hedit _).trans ((congrArg _ h.contents).trans (hedit _).symm)

theorem Alike.foldl_apply (h : t.Alike u) (ws : List Step) :
    (ws.foldl (fun t x => x.apply t) t).Alike (ws.foldl (fun t x => x.apply t) u) := by
  induction ws generalizing t u with
  | nil => exact h
  | cons x ws ih => exact ih (h.apply x.2)

theorem alike_apply_of_isStamp {w : Write} (h : w.IsStamp) (t : Tables) : (w.apply t).Alike t := by
  cases w with
  | component id e =>
    refine ⟨?_, rfl⟩
    change (Table.edit ComponentRow.id id e.apply t.components).map ComponentRow.shape = _
    rw [Table.edit, List.map_filterMap, ← List.filterMap_eq_map]
    refine List.filterMap_congr fun r _ => ?_
    split
    · cases e with
      | mtime | version => rfl
      | delete | parent | name => cases h
    · rfl
  | content id e =>
    refine ⟨rfl, ?_⟩
    change (Table.edit ContentRow.compid id e.apply t.contents).map ContentRow.shape = _
    rw [Table.edit, List.map_filterMap, ← List.filterMap_eq_map]
    refine List.filterMap_congr fun r _ => ?_
    split
    · cases e with
      | version => rfl
      | delete => cases h
    · rfl

theorem alike_run {ws : List Step} (h : ∀ x ∈ ws, x.2.IsStamp) (t : Tables) :
    (Batch.run (Step.failure replies) Step.apply ws t).2.Alike t :=
  Batch.run_snd_induction (P := fun u => u.Alike t)
    (fun x hx u hu => (alike_apply_of_isStamp (h x hx) u).trans hu) (.refl t)

end Tables

/-! ## Plans -/

theorem of_mem_setComponentsVersion {place content : Nat → Statement} {version : Nat}
    {comps : List ComponentAttrs} {x : Step}
    (h : x ∈ setComponentsVersion place content version comps) :
    ∃ id, x.2 = setComponentVersionById id version ∨
      x.2 = setContentVersionByCompIdRev id version := by
  obtain ⟨⟨comp, i⟩, -, hx⟩ := List.mem_flatMap.1 h
  rcases List.mem_cons.1 hx with rfl | hx
  · exact ⟨comp.id, .inl rfl⟩
  · split at hx
    · cases hx
    · rw [List.mem_singleton.1 hx]
      exact ⟨comp.id, .inr rfl⟩

/-- The values that an operation writes. -/
def goal (c : Collation) (newPath : Component) (parent version time : Nat) : ComponentRow where
  id := 0
  name := getBaseName newPath
  upname := c.upper (getBaseName newPath)
  parent := parent
  directory := false
  mtime := time
  version := version

namespace DeletePlan

variable (plan : DeletePlan) (version time : Nat)

/-- The tables without the rows of the component. -/
def removed (t : Tables) : Tables := plan.removal.foldl (fun t x => x.apply t) t

theorem mem_removal {x : Step} (h : x ∈ plan.removal) :
    x = (.deleteContent, deleteContentByCompId plan.comp.id) ∨
      x = (.deleteRow, deleteComponentById plan.comp.id) := by
  rcases List.mem_append.1 h with hx | hx
  · split at hx
    · cases hx
    · exact .inl (List.mem_singleton.1 hx)
  · exact .inr (List.mem_singleton.1 hx)

theorem isStamp_updates : ∀ x ∈ plan.updates version time, x.2.IsStamp := by
  intro x hx
  rcases List.mem_cons.1 hx with rfl | hx
  · trivial
  · obtain ⟨id, he | he⟩ := of_mem_setComponentsVersion hx <;> rw [he] <;> trivial

theorem from_writes (c : Collation) (path : Component) :
    ∀ x ∈ plan.writes version time, x.2.From (goal c path 0 version time) := by
  intro x hx
  rcases List.mem_append.1 hx with hx | hx
  · rcases plan.mem_removal hx with rfl | rfl <;> trivial
  · rcases List.mem_cons.1 hx with rfl | hx
    · rfl
    · obtain ⟨id, he | he⟩ := of_mem_setComponentsVersion hx <;> rw [he] <;> rfl

end DeletePlan

namespace MovePlan

variable (plan : MovePlan) (c : Collation) (newPath : Component) (version time : Nat)

/-- The tables with the component at its new place. -/
def moved (t : Tables) : Tables := (plan.relocation c newPath).foldl (fun t x => x.apply t) t

theorem mem_relocation {x : Step} (h : x ∈ plan.relocation c newPath) :
    x = (.moveParent, setComponentParentById plan.comp.id plan.dest.back.id) ∨
      x = (.moveName, setComponentNameById c plan.comp.id (getBaseName newPath)) := by
  rcases List.mem_append.1 h with hx | hx
  · split at hx
    · exact .inl (List.mem_singleton.1 hx)
    · cases hx
  · exact .inr (List.mem_singleton.1 hx)

theorem of_mem_updates {x : Step} (h : x ∈ plan.updates version time) :
    ∃ id, x.2 = setComponentVersionById id version ∨
      x.2 = setContentVersionByCompIdRev id version ∨ x.2 = setComponentMTimeById id time := by
  simp only [updates, List.mem_append, List.mem_cons] at h
  rcases h with (h | rfl | h) | rfl | rfl | h
  · exact (of_mem_setComponentsVersion h).imp fun id hx => hx.imp_right .inl
  · exact ⟨_, .inr (.inr rfl)⟩
  · exact (of_mem_setComponentsVersion h).imp fun id hx => hx.imp_right .inl
  · exact ⟨_, .inr (.inr rfl)⟩
  · exact ⟨_, .inl rfl⟩
  · split at h
    · cases h
    · rw [List.mem_singleton.1 h]
      exact ⟨_, .inr (.inl rfl)⟩

theorem isStamp_updates : ∀ x ∈ plan.updates version time, x.2.IsStamp := by
  intro x hx
  obtain ⟨id, he | he | he⟩ := plan.of_mem_updates version time hx <;> rw [he] <;> trivial

theorem keeps_writes : ∀ x ∈ plan.writes c newPath version time, x.2.Keeps := by
  intro x hx
  rcases List.mem_append.1 hx with hx | hx
  · rcases plan.mem_relocation c newPath hx with rfl | rfl <;> exact nofun
  · exact (plan.isStamp_updates version time x hx).keeps

theorem from_writes : ∀ x ∈ plan.writes c newPath version time,
    x.2.From (goal c newPath plan.dest.back.id version time) := by
  intro x hx
  rcases List.mem_append.1 hx with hx | hx
  · rcases plan.mem_relocation c newPath hx with rfl | rfl
    · rfl
    · exact ⟨rfl, rfl⟩
  · obtain ⟨id, he | he | he⟩ := plan.of_mem_updates version time hx <;> rw [he] <;> rfl

end MovePlan

/-! ## What the operations do -/

/-- What is not an error for a removal. -/
def Tolerated (e : Option DbError) : Prop := e = none ∨ e = some .unknownComponent

instance : DecidablePred Tolerated := fun _ => inferInstanceAs (Decidable (_ ∨ _))

/-- The rows of the component go, and no update fails up to one that finds no component. -/
def DeletePlan.Succeeds (plan : DeletePlan) (replies : Replies) (version time : Nat) (t : Tables) :
    Prop :=
  (∀ x ∈ plan.removal, x.failure replies t = none) ∧
    Tolerated ((plan.updates version time).findSome? fun x => x.failure replies (plan.removed t))

/-- No write fails, whatever it writes. -/
def MovePlan.Succeeds (plan : MovePlan) (replies : Replies) (c : Collation) (newPath : Component)
    (t : Tables) : Prop :=
  ∀ version time, ∀ x ∈ plan.writes c newPath version time, x.failure replies t = none

/-- A write of no value in the place of this one. -/
def Step.blank (x : Step) : Step :=
  (x.1, match x.2 with
    | .component id (.mtime _) => setComponentMTimeById id 0
    | .component id (.version _) => setComponentVersionById id 0
    | .content compid (.version _) => setContentVersionByCompIdRev compid 0
    | w => w)

theorem Step.failure_blank (x : Step) (replies : Replies) (t : Tables) :
    x.blank.failure replies t = x.failure replies t := by
  obtain ⟨place, w⟩ := x
  cases w with
  | component id e => cases e <;> rfl
  | content id e => cases e <;> rfl

theorem blank_setComponentsVersion (place content : Nat → Statement) (version : Nat)
    (comps : List ComponentAttrs) :
    (setComponentsVersion place content version comps).map Step.blank =
      setComponentsVersion place content 0 comps := by
  rw [setComponentsVersion, List.map_flatMap]
  refine List.flatMap_congr fun x _ => ?_
  rw [List.map_cons]
  split <;> rfl

/-- Whether a write fails does not depend on what it writes. -/
theorem MovePlan.succeeds_iff (plan : MovePlan) {replies : Replies} {c : Collation}
    {newPath : Component} {t : Tables} (version time : Nat) :
    plan.Succeeds replies c newPath t ↔
      ∀ x ∈ plan.writes c newPath version time, x.failure replies t = none := by
  have hblank : ∀ v v', (plan.writes c newPath v v').map Step.blank =
      (plan.writes c newPath 0 0).map Step.blank := by
    intro v v'
    simp only [writes, updates, List.map_append, List.map_cons, blank_setComponentsVersion]
    split <;> rfl
  have hall : ∀ v v', (∀ x ∈ plan.writes c newPath v v', x.failure replies t = none) ↔
      ∀ x ∈ (plan.writes c newPath 0 0).map Step.blank, x.failure replies t = none := by
    intro v v'
    rw [← hblank v v', List.forall_mem_map]
    exact forall₂_congr fun x _ => by rw [x.failure_blank]
  exact ⟨fun h => h version time, fun h v v' => (hall v v').2 ((hall version time).1 h)⟩

namespace Tables

variable {t u : Tables} {c : Collation} {replies : Replies} {path oldPath newPath : Component}
  {version time : Nat}

theorem id_mem_of_getComponentByNameParent {name : Component} {parent : Nat} {reply : Reply}
    {comp : ComponentAttrs} (h : t.getComponentByNameParent c name parent reply = .ok comp) :
    comp.id ∈ t.components.map ComponentRow.id := by
  unfold getComponentByNameParent Reply.query at h
  split at h
  · cases h
  · split at h
    · cases h
    next r hr =>
      cases h
      exact List.mem_map_of_mem (List.mem_of_find?_eq_some hr)

theorem id_mem_of_planDelete {plan : DeletePlan} (h : t.planDelete c replies path = .ok plan) :
    plan.comp.id ∈ t.components.map ComponentRow.id := by
  unfold planDelete at h
  split at h
  · cases h
  · split at h
    · cases h
    · split at h
      · cases h
      next comp hcomp =>
        split at h
        · cases h
        · cases h
          exact id_mem_of_getComponentByNameParent hcomp

section Delete

variable {plan : DeletePlan}

theorem failure_removal (hid : plan.comp.id ∈ t.components.map ComponentRow.id) {x : Step}
    (hx : x ∈ plan.removal) : x.failure replies t ≠ some .unknownComponent := by
  unfold Step.failure
  rcases plan.mem_removal hx with rfl | rfl
  · cases replies .deleteContent with
    | done =>
      simp only [Reply.error?]
      split <;> exact nofun
    | fails | breaks => exact nofun
  · cases replies .deleteRow with
    | done =>
      simp only [Reply.error?]
      rw [if_pos (show Write.Finds t (deleteComponentById plan.comp.id) from hid)]
      exact nofun
    | fails | breaks => exact nofun

/-- The row of the content goes first, the other one is still there then. -/
theorem run_removal_fst : (Batch.run (Step.failure replies) Step.apply plan.removal t).1 =
    plan.removal.findSome? fun x => x.failure replies t := by
  refine Batch.run_fst ?_
  rw [DeletePlan.removal]
  split
  · exact List.pairwise_singleton _ _
  · refine List.pairwise_pair.2 fun s => Step.failure_congr ?_
    exact Iff.rfl

/-- A removal succeeds exactly if its statements do, and then the rows are gone. -/
theorem deleteComponent_spec (version time : Nat)
    (h : t.planDelete c replies (normalizePath path) = .ok plan) :
    (Tolerated (t.deleteComponent c replies path version time).1 ↔
        plan.Succeeds replies version time t) ∧
      (plan.Succeeds replies version time t →
        (t.deleteComponent c replies path version time).2.Alike (plan.removed t)) := by
  rw [deleteComponent, h]
  simp only
  rw [DeletePlan.writes, Batch.run_append, DeletePlan.Succeeds]
  have hfirst : (Batch.run (Step.failure replies) Step.apply plan.removal t).1 =
      plan.removal.findSome? fun x => x.failure replies t := run_removal_fst
  cases hrun : Batch.run (Step.failure replies) Step.apply plan.removal t with
  | mk e s =>
    rw [hrun] at hfirst
    cases e with
    | some e =>
      obtain ⟨x, hx, he⟩ := List.exists_of_findSome?_eq_some hfirst.symm
      have hnone : ¬∀ x ∈ plan.removal, x.failure replies t = none := fun hall => by
        rw [hall x hx] at he
        cases he
      refine ⟨iff_of_false ?_ fun h => hnone h.1, fun h => absurd h.1 hnone⟩
      rintro (h' | h')
      · cases h'
      · exact failure_removal (id_mem_of_planDelete h) hx (he.trans h')
    | none =>
      have hall := List.findSome?_eq_none_iff.1 hfirst.symm
      have hs : s = plan.removed t := by
        have hs := Batch.run_snd_of_none (congrArg Prod.fst hrun)
        rwa [hrun] at hs
      subst hs
      rw [and_iff_right hall, run_fst_of_keeps fun x hx =>
        (plan.isStamp_updates version time x hx).keeps]
      exact ⟨Iff.rfl, fun _ => alike_run (plan.isStamp_updates version time) _⟩

theorem deleteComponent_eq_self_iff (version time : Nat)
    (h : t.planDelete c replies (normalizePath path) = .ok plan) :
    (t.deleteComponent c replies path version time).2 = t ↔
      Batch.Idle (Step.failure replies) Step.apply (plan.writes version time) t := by
  rw [deleteComponent, h]
  exact run_eq_self_iff (plan.from_writes version time c path)

theorem notMem_removed (plan : DeletePlan) (t : Tables) :
    plan.comp.id ∉ (plan.removed t).components.map ComponentRow.id := by
  rw [DeletePlan.removed, DeletePlan.removal, List.foldl_append]
  exact Table.notMem_edit_none

end Delete

section Move

variable {plan : MovePlan}

theorem moveComponent_fst_iff (h : t.planMove c replies oldPath newPath = .ok plan) :
    (t.moveComponent c replies oldPath newPath version time).1 = none ↔
      plan.Succeeds replies c (normalizePath newPath) t := by
  rw [moveComponent, h]
  simp only
  rw [run_fst_of_keeps (plan.keeps_writes c _ version time), List.findSome?_eq_none_iff]
  exact (plan.succeeds_iff version time).symm

theorem moveComponent_alike (h : t.planMove c replies oldPath newPath = .ok plan)
    (hnone : (t.moveComponent c replies oldPath newPath version time).1 = none) :
    (t.moveComponent c replies oldPath newPath version time).2.Alike
      (plan.moved c (normalizePath newPath) t) := by
  rw [moveComponent, h] at hnone ⊢
  simp only at hnone ⊢
  rw [MovePlan.writes, Batch.run_append] at hnone ⊢
  cases hrun : Batch.run (Step.failure replies) Step.apply
    (plan.relocation c (normalizePath newPath)) t with
  | mk e s =>
    rw [hrun] at hnone
    cases e with
    | some e => cases hnone
    | none =>
      have hs := Batch.run_snd_of_none (congrArg Prod.fst hrun)
      rw [hrun] at hs
      subst hs
      exact alike_run (plan.isStamp_updates version time) _

theorem moveComponent_eq_self_iff (h : t.planMove c replies oldPath newPath = .ok plan) :
    (t.moveComponent c replies oldPath newPath version time).2 = t ↔
      Batch.Idle (Step.failure replies) Step.apply
        (plan.writes c (normalizePath newPath) version time) t := by
  rw [moveComponent, h]
  exact run_eq_self_iff (plan.from_writes c _ version time)

theorem notMem_moveComponent {id : Nat} (h : id ∉ t.components.map ComponentRow.id) :
    id ∉ (t.moveComponent c replies oldPath newPath version time).2.components.map
      ComponentRow.id := by
  unfold moveComponent
  split
  · exact h
  · refine Batch.run_snd_induction
      (P := fun s : Tables => id ∉ s.components.map ComponentRow.id) ?_ h
    exact fun x _ s hs => x.2.notMem_apply hs

/-- Moves of alike tables succeed alike. -/
theorem Alike.succeeds_iff (h : t.Alike u) :
    plan.Succeeds replies c newPath t ↔ plan.Succeeds replies c newPath u :=
  forall₄_congr fun _ _ x _ => by rw [Step.failure_congr (h.finds x.2)]

end Move

/-! ## What was found before -/

section Found

variable {t : Tables} {c : Collation} {path : Component} {replies replies' : Nat → Reply}

/-- What was found is found again unless a statement fails. -/
def FoundAgain {α : Type} (a : α) (q : Except DbError α) : Prop :=
  q = .ok a ∨ ∃ e, q = .error e ∧ e ≠ .unknownComponent

theorem FoundAgain.ne {α : Type} {a : α} {q : Except DbError α} (h : FoundAgain a q) :
    q ≠ .error .unknownComponent := by
  rintro rfl
  obtain h | ⟨e, he, hne⟩ := h
  · cases h
  · cases he
    exact hne rfl

theorem FoundAgain.map {α β : Type} {a : α} {q : Except DbError α} (h : FoundAgain a q)
    (f : α → β) : FoundAgain (f a) (q.map f) := by
  obtain rfl | ⟨e, rfl, hne⟩ := h
  · exact .inl rfl
  · exact .inr ⟨e, rfl, hne⟩

theorem foundAgain_query {α : Type} (a : α) (reply : Reply) :
    FoundAgain a (reply.query (.ok a)) := by
  cases reply with
  | done => exact .inl rfl
  | fails | breaks => exact .inr ⟨_, rfl, nofun⟩

theorem foundAgain_getComponentByNameParent {name : Component} {parent : Nat} {reply : Reply}
    (reply' : Reply) {comp : ComponentAttrs}
    (h : t.getComponentByNameParent c name parent reply = .ok comp) :
    FoundAgain comp (t.getComponentByNameParent c name parent reply') := by
  unfold getComponentByNameParent at h ⊢
  unfold Reply.query at h
  split at h
  · cases h
  · rw [h]
    exact foundAgain_query comp reply'

theorem foundAgain_descend {names : List Component} {trail trail' : Trail}
    (h : t.descend c replies names trail = .ok trail') (replies' : Nat → Reply) :
    FoundAgain trail' (t.descend c replies' names trail) := by
  induction names generalizing replies replies' trail with
  | nil =>
    cases h
    exact .inl rfl
  | cons name names ih =>
    rw [descend] at h ⊢
    split at h
    · cases h
    next comp hcomp =>
      obtain hfound | ⟨e, he, hne⟩ := foundAgain_getComponentByNameParent (replies' 0) hcomp
      · rw [hfound]
        exact ih h _
      · rw [he]
        exact .inr ⟨e, rfl, hne⟩

theorem foundAgain_getComponentByPath {comp : ComponentAttrs}
    (h : t.getComponentByPath c path replies = .ok comp) (replies' : Nat → Reply) :
    FoundAgain comp (t.getComponentByPath c path replies') := by
  unfold getComponentByPath at h ⊢
  cases htrail : t.getComponentsOnPath c path replies with
  | error e =>
    rw [htrail] at h
    cases h
  | ok trail =>
    rw [htrail] at h
    cases h
    refine FoundAgain.map ?_ Trail.back
    unfold getComponentsOnPath at htrail ⊢
    split at htrail
    · cases htrail
    next root hroot =>
      obtain hfound | ⟨e, he, hne⟩ := foundAgain_getComponentByNameParent (replies' 0) hroot
      · rw [hfound]
        exact foundAgain_descend htrail _
      · rw [he]
        exact .inr ⟨e, rfl, hne⟩

theorem getComponentPath_ne {comp : ComponentAttrs}
    (h : t.getComponentByPath c (normalizePath path) replies = .ok comp) (replies' : Nat → Reply)
    (content : Reply) :
    t.getComponentPath c path replies' content ≠ .error .unknownComponent := by
  have hne : ∀ compid, t.getContentByCompIdRev compid content ≠ .error .unknownComponent := by
    intro compid he
    unfold getContentByCompIdRev Reply.query at he
    cases content with
    | done =>
      simp only [Reply.error?] at he
      split at he <;> cases he
    | fails | breaks => cases he
  unfold getComponentPath
  obtain hfound | ⟨e, he, hunknown⟩ := foundAgain_getComponentByPath h replies'
  · rw [hfound]
    simp only
    split
    · exact nofun
    · split
      next e he =>
        exact fun h => hne _ (he.trans (congrArg Except.error (Except.error.inj h)))
      · split <;> exact nofun
  · rw [he]
    exact fun h => hunknown (Except.error.inj h)

end Found

end Tables

end PersonalCloud.StorageNode
