import PersonalCloud.Lib.PathText
import PersonalCloud.Lib.Session
import PersonalCloud.Lib.Table

/-!
# The tables of a dataset

The statements of `DatasetDB` and the operations that are made of them. An operation ends with the
first statement that fails, and what the statements before it have done stays.

Component names are as `normalizeComponentName` leaves them. The statements for the case-insensitive
mode are given; in the case-sensitive mode `upper` changes nothing, and they are the others.
SQLite's GLOB is a parameter. It is given a pattern and a text. Rows stand in the order of their
rowids, in which SQLite goes through them.

## Main definitions

* `Collation` — how names are compared.
* `Tables` — the rows of the tables.
* `Call` — what a call makes of them, also if it fails.
* `testAndCreateComponent`, `setComponentVersion`, `setComponentPath`, `setComponentSize`,
  `setComponentMetadata`, `deleteComponent`, `trashComponent`, `deleteTrash`, `restoreTrash`,
  `moveComponent`, `copyComponent` — the operations.
-/

namespace PersonalCloud.DatasetDb

open PersonalCloud.Lib

/-- How names are compared: `utf8_upper` changes each letter, and GLOB knows patterns. -/
structure Collation (α : Type*) where
  upper : α → α
  slash : α
  star : α
  glob : List α → List α → Bool

inductive ComponentType where
  | file | directory
  deriving DecidableEq, Repr

structure ComponentRow (α : Type*) where
  id : ℕ
  name : List α
  nameUpper : List α
  /-- 0 for NULL. -/
  contentId : ℕ
  ctime : ℕ
  mtime : ℕ
  trashId : Option ℕ
  type : ComponentType
  version : ℕ
  deriving DecidableEq, Repr

structure MetadataRow where
  id : ℕ
  componentId : ℕ
  type : ℤ
  value : Option (List UInt8)
  deriving DecidableEq, Repr

structure ContentRow where
  id : ℕ
  path : Option (List UInt8)
  size : Option ℕ
  deriving DecidableEq, Repr

structure TrashRow where
  id : ℕ
  version : ℕ
  index : ℕ
  dtime : ℕ
  componentId : ℕ
  size : ℕ
  deriving DecidableEq, Repr

structure Tables (α : Type*) where
  component : List (ComponentRow α)
  metadata : List MetadataRow
  content : List ContentRow
  trash : List TrashRow
  deriving DecidableEq, Repr

/-- What a call gives if it succeeds. One that fails leaves the tables that the error has. -/
abbrev Call (α : Type) := Except (Tables α)

/-- The rowid of a new row: one more than the largest. -/
def newRowid (ids : List ℕ) : ℕ :=
  ids.foldr max 0 + 1

variable {α : Type} [DecidableEq α]

/-! ## Functions of the statements -/

namespace Collation

variable (c : Collation α)

def upperName (name : List α) : List α :=
  name.map c.upper

/-- `replaceprefix`, which compares as the mode says. -/
def replaceprefix (name pre replstr : List α) : List α :=
  let commonname :=
    if pre = [] then some name
    else if c.upperName (name.take pre.length) = c.upperName pre then
      if name.length = pre.length then some []
      else if name[pre.length]? = some c.slash then some (name.drop (pre.length + 1))
      else none
    else none
  match commonname with
  | some rest => if replstr ≠ [] ∧ rest ≠ [] then replstr ++ c.slash :: rest else replstr ++ rest
  | none => name

/-- What stands before the last slash. -/
def dirname (name : List α) : List α :=
  (name.reverse.dropWhile (· ≠ c.slash)).tail.reverse

/-- What stands behind the last slash. -/
def basename (name : List α) : List α :=
  (name.reverse.takeWhile (· ≠ c.slash)).reverse

/-- The pattern for a removal. -/
def globpattern (component : List α) : List α :=
  if component = [] then [c.star] else component ++ [c.slash, c.star]

/-- The rows that a removal of a component is about. -/
def SelectsForRemoval (component : List α) (r : ComponentRow α) : Prop :=
  (r.nameUpper = c.upperName component ∨
    c.glob (c.upperName (c.globpattern component)) r.nameUpper = true) ∧ r.trashId = none

instance (component : List α) : DecidablePred (c.SelectsForRemoval component) := fun _ =>
  inferInstanceAs (Decidable ((_ ∨ _) ∧ _))

/-- The rows that a move or a copy of a component is about. -/
def SelectsForMove (component : List α) (r : ComponentRow α) : Prop :=
  (r.nameUpper = c.upperName component ∨
    c.glob (c.upperName component ++ [c.slash, c.star]) r.nameUpper = true) ∧ r.trashId = none

instance (component : List α) : DecidablePred (c.SelectsForMove component) := fun _ =>
  inferInstanceAs (Decidable ((_ ∨ _) ∧ _))

/-- The row of a component that is not in the trash. -/
def SelectsName (component : List α) (r : ComponentRow α) : Prop :=
  r.nameUpper = c.upperName component ∧ r.trashId = none

instance (component : List α) : DecidablePred (c.SelectsName component) := fun _ =>
  inferInstanceAs (Decidable (_ ∧ _))

end Collation

namespace Tables

variable (c : Collation α) (t : Tables α)

def empty : Tables α := ⟨[], [], [], []⟩

/-- `UNIQUE (name_upper, trash_id)`, where a NULL is like no other. -/
def SameName (r s : ComponentRow α) : Prop :=
  r.nameUpper = s.nameUpper ∧ r.trashId = s.trashId ∧ r.trashId ≠ none

instance : DecidableRel (SameName (α := α)) := fun _ _ =>
  inferInstanceAs (Decidable (_ ∧ _ ∧ _))

/-- `UNIQUE (component_id, type)`. -/
def MetadataUnique (rows : List MetadataRow) : Prop :=
  (rows.map fun m => (m.componentId, m.type)).Nodup

instance (rows : List MetadataRow) : Decidable (MetadataUnique rows) :=
  inferInstanceAs (Decidable (List.Nodup _))

/-- `CHECK_RV` behind a query. -/
def checkRv {β : Type} : Option β → Call α β
  | some b => .ok b
  | none => .error t

/-- An `UPDATE` of components, which has to find one. If a name is taken it is undone. -/
def updateComponents (p : ComponentRow α → Prop) [DecidablePred p]
    (f : ComponentRow α → ComponentRow α) : Call α (Tables α) :=
  match Table.updateUnique SameName p f [] t.component with
  | some rows => if ∃ r ∈ t.component, p r then .ok { t with component := rows } else .error t
  | none => .error t

/-- `DELETE` of components, and of their metadata with them. -/
def deleteComponents (p : ComponentRow α → Prop) [DecidablePred p] : Tables α :=
  { t with
    component := Table.delete p t.component
    metadata := t.metadata.filter fun m => ¬∃ r ∈ t.component, p r ∧ m.componentId = r.id }

/-! ## Components -/

def getComponentByName (name : List α) : Option (ComponentRow α) :=
  t.component.find? fun r => c.SelectsName name r

/-- An update of the one row of a component. That there are more is found out too late. -/
def updateComponentByName (name : List α) (f : ComponentRow α → ComponentRow α) :
    Call α (Tables α) :=
  let t' := { t with component := Table.update (c.SelectsName name) f t.component }
  if t.component.countP (fun r => c.SelectsName name r) = 1 then .ok t' else .error t'

def updateComponentLastModifyTime (name : List α) (time : ℕ) : Call α (Tables α) :=
  t.updateComponentByName c name fun r => { r with mtime := time }

def updateComponentContentIdByName (name : List α) (contentId : ℕ) : Call α (Tables α) :=
  t.updateComponentByName c name fun r => { r with contentId := contentId }

def updateComponentVersion (name : List α) (version : ℕ) : Call α (Tables α) :=
  t.updateComponentByName c name fun r => { r with version := version }

def updateComponentParentLastModifyTime (name : List α) (time : ℕ) : Call α (Tables α) :=
  if name = [] then .ok t else t.updateComponentLastModifyTime c (c.dirname name) time

/-- The directories on the way to a component, the root first, and the component itself if it is
to be in the list. -/
def createComponentAncestryList (component : List α) (included : Option ComponentType) :
    Option (List (List α × ComponentType)) :=
  if component = [] ∧ included = some .file then none
  else
    let root := if component = [] then [] else [([], .directory)]
    let above := ((List.range component.length).filter fun i => component[i]? = some c.slash).map
      fun pos => (component.take pos, .directory)
    some (root ++ above ++ (included.map fun type => (component, type)).toList)

def createComponent (name : List α) (version time : ℕ) (type : ComponentType) : Tables α :=
  { t with component := t.component ++ [{
      id := newRowid (t.component.map (·.id))
      name := name
      nameUpper := c.upperName name
      contentId := 0
      ctime := time
      mtime := time
      trashId := none
      type := type
      version := version }] }

def createComponentIfMissing (name : List α) (version time : ℕ) (type : ComponentType) :
    Call α (Tables α) :=
  match t.getComponentByName c name with
  | some r => if r.type = type then .ok t else .error t
  | none =>
    (t.createComponent c name version time type).updateComponentParentLastModifyTime c name time

def createComponentsIfMissing (names : List (List α × ComponentType)) (version time : ℕ) :
    Call α (Tables α) :=
  names.foldlM (fun t x => t.createComponentIfMissing c x.1 version time x.2) t

def updateComponentsVersion (names : List (List α × ComponentType)) (version : ℕ) :
    Call α (Tables α) :=
  names.foldlM (fun t x => t.updateComponentVersion c x.1 version) t

def deleteComponentByName (name : List α) : Call α (Tables α) :=
  if ∃ r ∈ t.component, c.SelectsForRemoval name r then
    .ok (t.deleteComponents (c.SelectsForRemoval name))
  else .error t

def updateComponentTrashIdByName (name : List α) (trashId : ℕ) : Call α (Tables α) :=
  t.updateComponents (c.SelectsForRemoval name) fun r => { r with trashId := some trashId }

def updateComponentNameByName (oldName newName : List α) (version : ℕ) : Call α (Tables α) :=
  if newName = oldName then .error t
  else
    t.updateComponents (c.SelectsForMove oldName) fun r => { r with
      name := c.replaceprefix r.name (c.upperName oldName) newName
      nameUpper := c.upperName (c.replaceprefix r.nameUpper (c.upperName oldName) newName)
      version := version }

/-- The rows that a copy inserts, with the rowids from `id` on. -/
def copiesFrom (oldName newName : List α) (version : ℕ) :
    ℕ → List (ComponentRow α) → List (ComponentRow α)
  | _, [] => []
  | id, r :: rows =>
    { r with
      id := id
      name := c.replaceprefix r.name (c.upperName oldName) newName
      nameUpper := c.upperName (c.replaceprefix r.nameUpper (c.upperName oldName) newName)
      version := version } :: copiesFrom oldName newName version (id + 1) rows

def copyComponentsByName (oldName newName : List α) (version : ℕ) : Call α (Tables α) :=
  let selected := t.component.filter fun r => c.SelectsForMove oldName r
  let copies := copiesFrom c oldName newName version (newRowid (t.component.map (·.id))) selected
  if c.upperName newName = c.upperName oldName ∨ selected = [] then .error t
  else .ok { t with component := t.component ++ copies }

/-! ## Metadata and content -/

/-- New rows of metadata, each given as its component, type and value. -/
def insertMetadata : List MetadataRow → List (ℕ × ℤ × Option (List UInt8)) → List MetadataRow
  | rows, [] => rows
  | rows, x :: xs =>
    insertMetadata (rows ++ [⟨newRowid (rows.map (·.id)), x.1, x.2.1, x.2.2⟩]) xs

def copyMetadataByComponentName (oldName newName : List α) : Call α (Tables α) :=
  let copies := t.metadata.flatMap fun m => t.component.flatMap fun c1 =>
    if c.SelectsForMove oldName c1 ∧ m.componentId = c1.id then
      (t.component.filter fun c2 => c2.trashId = none ∧ c2.nameUpper =
        c.upperName (c.replaceprefix c1.nameUpper (c.upperName oldName) newName)).map
          fun c2 => (c2.id, m.type, m.value)
    else []
  let rows := insertMetadata t.metadata copies
  if MetadataUnique rows then .ok { t with metadata := rows } else .error t

def createMetadataIfMissing (componentId : ℕ) (type : ℤ) : Tables α :=
  if ∃ m ∈ t.metadata, m.componentId = componentId ∧ m.type = type then t
  else { t with metadata := insertMetadata t.metadata [(componentId, type, none)] }

/-- `updateMetadataValueById`, for the row of a component and a type. -/
def updateMetadataValue (componentId : ℕ) (type : ℤ) (value : List UInt8) : Tables α :=
  let selects := fun m : MetadataRow => m.componentId = componentId ∧ m.type = type
  { t with metadata := Table.update selects (fun m => { m with value := some value }) t.metadata }

def getContentById (id : ℕ) : Option ContentRow :=
  t.content.find? fun s => s.id = id

def updateContentSizeById (id size : ℕ) : Call α (Tables α) :=
  let selects := fun s : ContentRow => s.id = id
  if ∃ s ∈ t.content, selects s then
    .ok { t with content := Table.update selects (fun s => { s with size := some size }) t.content }
  else .error t

/-- The content of a path, which is a new one if there is none. -/
def createContentIfMissing (path : List UInt8) : ℕ × Tables α :=
  match t.content.find? fun s => s.path = some path with
  | some s => (s.id, t)
  | none =>
    let id := newRowid (t.content.map (·.id))
    (id, { t with content := t.content ++ [⟨id, some path, none⟩] })

/-- `getComponentsTotalSize`. -/
def componentsTotalSize (name : List α) : ℕ :=
  let component := c.upperName (if name = [] then [] else name ++ [c.slash])
  ((t.component.filter fun r => r.trashId = none ∧
      (r.nameUpper = component ∨ c.glob (component ++ [c.star]) r.nameUpper = true)).flatMap
    fun r => (t.content.filter fun s => s.id = r.contentId).map fun s => s.size.getD 0).sum

def getComponentSize (name : List α) : Option ℕ :=
  (t.getComponentByName c name).bind fun r =>
    match r.type with
    | .directory => some (t.componentsTotalSize c name)
    | .file => if r.contentId = 0 then none else (t.getContentById r.contentId).bind (·.size)

/-! ## Trash -/

def getTrashByVersionIndex (version index : ℕ) : Option TrashRow :=
  t.trash.find? fun x => x.version = version ∧ x.index = index

/-- The id of the new record, unless there is one of that version and index. -/
def createTrash (version index time componentId size : ℕ) : Call α (ℕ × Tables α) :=
  if t.getTrashByVersionIndex version index = none then
    let id := newRowid (t.trash.map (·.id))
    .ok (id, { t with trash := t.trash ++ [⟨id, version, index, time, componentId, size⟩] })
  else .error t

/-- `ORDER BY length(name_upper) LIMIT 1`. -/
def shortest : List (ComponentRow α) → Option (ComponentRow α)
  | [] => none
  | r :: rows =>
    match shortest rows with
    | none => some r
    | some s => if s.nameUpper.length < r.nameUpper.length then some s else some r

def getRootComponentByTrashId (trashId : ℕ) : Option (ComponentRow α) :=
  shortest (t.component.filter fun r => r.trashId = some trashId)

def updateComponentVersionByTrashId (trashId version time : ℕ) : Call α (Tables α) :=
  t.updateComponents (fun r => r.trashId = some trashId) fun r =>
    { r with version := version, mtime := time }

def updateComponentNameByTrashId (trashId : ℕ) (oldName newName : List α) : Call α (Tables α) :=
  t.updateComponents (fun r => r.trashId = some trashId) fun r => { r with
    name := c.replaceprefix r.name oldName newName
    nameUpper := c.upperName (c.replaceprefix r.nameUpper oldName newName) }

/-- `updateComponentTrashIdByTrashId` with 0 for the new id. -/
def updateComponentTrashIdByTrashId (trashId time : ℕ) : Call α (Tables α) :=
  t.updateComponents (fun r => r.trashId = some trashId) fun r =>
    { r with trashId := none, mtime := time }

/-- The components that are still in the trash under this id go with the record. -/
def deleteTrashById (id : ℕ) : Call α (Tables α) :=
  if ∃ x ∈ t.trash, x.id = id then
    .ok { t.deleteComponents (fun r => r.trashId = some id) with
      trash := t.trash.filter fun x => x.id ≠ id }
  else .error t

/-! ## Operations -/

def testAndCreateComponent (name : List α) (type : ComponentType) (version time : ℕ) :
    Call α (Tables α) :=
  match t.getComponentByName c name with
  | some r => if r.type = type then .ok t else .error t
  | none => do
    let names ← t.checkRv (createComponentAncestryList c name (some type))
    let t ← t.createComponentsIfMissing c names version time
    t.updateComponentsVersion c names version

def setComponentVersion (name : List α) (version time : ℕ) (type : ComponentType) :
    Call α (Tables α) := do
  let names ← t.checkRv (createComponentAncestryList c name (some type))
  let t ← t.createComponentsIfMissing c names version time
  let t ← t.updateComponentLastModifyTime c name time
  t.updateComponentsVersion c names version

/-- The component gets a content of the path, unless its own has it. -/
def assignComponentPath (name : List α) (path : List UInt8) : Call α (Tables α) := do
  let r ← t.checkRv (t.getComponentByName c name)
  let (contentId, t') := t.createContentIfMissing path
  if r.contentId = 0 then t'.updateComponentContentIdByName c name contentId
  else
    let s ← t.checkRv (t.getContentById r.contentId)
    if s.path.getD [] ≠ path then t'.updateComponentContentIdByName c name contentId else .ok t

def setComponentPath (name : List α) (path : List UInt8) (version time : ℕ) : Call α (Tables α) :=
  if version ≠ 0 ∨ time ≠ 0 then do
    let names ← t.checkRv (createComponentAncestryList c name (some .file))
    let t ← t.createComponentsIfMissing c names version time
    let t ← t.assignComponentPath c name path
    t.updateComponentsVersion c names version
  else t.assignComponentPath c name path

def setComponentSize (name : List α) (size version time : ℕ) : Call α (Tables α) := do
  let r ← t.checkRv (t.getComponentByName c name)
  if r.type ≠ .file ∨ r.contentId = 0 then .error t
  else
    let t ← t.updateContentSizeById r.contentId size
    let names ← t.checkRv (createComponentAncestryList c name (some .file))
    let t ← t.updateComponentLastModifyTime c name time
    t.updateComponentsVersion c names version

def setComponentMetadata (name : List α) (type : ℤ) (value : List UInt8) : Call α (Tables α) := do
  let r ← t.checkRv (t.getComponentByName c name)
  let t := t.createMetadataIfMissing r.id type
  return t.updateMetadataValue r.id type value

def deleteComponent (name : List α) (version time : ℕ) : Call α (Tables α) := do
  let names ← t.checkRv (createComponentAncestryList c name none)
  let t ← t.deleteComponentByName c name
  let t ← t.updateComponentParentLastModifyTime c name time
  t.updateComponentsVersion c names version

def trashComponent (name : List α) (version index time : ℕ) : Call α (Tables α) := do
  let r ← t.checkRv (t.getComponentByName c name)
  let names ← t.checkRv (createComponentAncestryList c r.name none)
  let size ← t.checkRv (t.getComponentSize c name)
  let (trashId, t) ← t.createTrash version index time r.id size
  let t ← t.updateComponentTrashIdByName c name trashId
  let t ← t.updateComponentParentLastModifyTime c name time
  t.updateComponentsVersion c names version

def deleteTrash (version index : ℕ) : Call α (Tables α) := do
  let x ← t.checkRv (t.getTrashByVersionIndex version index)
  t.deleteTrashById x.id

def restoreTrash (trashVersion index : ℕ) (name : List α) (version time : ℕ) :
    Call α (Tables α) := do
  let x ← t.checkRv (t.getTrashByVersionIndex trashVersion index)
  let root ← t.checkRv (t.getRootComponentByTrashId x.id)
  let names ← t.checkRv (createComponentAncestryList c name none)
  let t ← t.createComponentsIfMissing c names version time
  let t ← t.updateComponentVersionByTrashId x.id version time
  let t ← t.updateComponentNameByTrashId c x.id root.name name
  let t ← t.updateComponentTrashIdByTrashId x.id time
  let t ← t.updateComponentParentLastModifyTime c name time
  let t ← t.updateComponentsVersion c names version
  t.deleteTrashById x.id

def moveComponent (oldName newName : List α) (version time : ℕ) : Call α (Tables α) :=
  if newName = oldName then .error t
  else do
    let names ← t.checkRv (createComponentAncestryList c newName none)
    let t ← t.createComponentsIfMissing c names version time
    let t ← t.updateComponentNameByName c oldName newName version
    let t ← t.updateComponentParentLastModifyTime c newName time
    let t ← t.updateComponentsVersion c names version
    let names ← t.checkRv (createComponentAncestryList c oldName none)
    let t ← t.updateComponentParentLastModifyTime c oldName time
    t.updateComponentsVersion c names version

def copyComponent (oldName newName : List α) (version time : ℕ) : Call α (Tables α) :=
  if c.upperName newName = c.upperName oldName then .error t
  else do
    let names ← t.checkRv (createComponentAncestryList c newName none)
    let t ← t.createComponentsIfMissing c names version time
    let t ← t.copyComponentsByName c oldName newName version
    let t ← t.copyMetadataByComponentName c oldName newName
    let t ← t.updateComponentParentLastModifyTime c newName time
    t.updateComponentsVersion c names version

/-- The names in a directory. -/
def listComponents (name : List α) : Option (List (List α)) :=
  (t.getComponentByName c name).bind fun r =>
    if r.type = .directory then
      some ((t.component.filter fun r => c.dirname r.nameUpper = c.upperName name ∧
        r.trashId = none ∧ r.nameUpper ≠ []).map fun r => c.basename r.name)
    else none

/-! ## Calls that succeed -/

section Success

variable {c : Collation α} {t t' : Tables α} {β γ : Type} {o : Option β} {b : β} {f : β → Call α γ}
  {x : γ}

omit [DecidableEq α] in
theorem checkRv_eq_ok_iff : t.checkRv o = .ok b ↔ o = some b := by
  cases o <;> simp [checkRv]

omit [DecidableEq α] in
theorem checkRv_bind_eq_ok_iff : t.checkRv o >>= f = .ok x ↔ ∃ b, o = some b ∧ f b = .ok x := by
  simp only [bind_eq_ok_iff, checkRv_eq_ok_iff]

theorem updateComponents_eq_ok {p : ComponentRow α → Prop} [DecidablePred p]
    {f : ComponentRow α → ComponentRow α} (h : t.updateComponents p f = .ok t') :
    (∃ r ∈ t.component, p r) ∧
      t' = { t with component := t.component.map fun r => if p r then f r else r } := by
  unfold updateComponents at h
  cases hrows : Table.updateUnique SameName p f [] t.component with
  | none => simp [hrows] at h
  | some rows =>
    obtain ⟨hfound, h⟩ := ite_error_eq_ok_iff.1 (by simpa only [hrows] using h)
    rw [Except.ok.injEq] at h
    subst h
    exact ⟨hfound, by rw [Table.updateUnique_eq_some hrows]; rfl⟩

theorem updateComponentByName_eq_ok_iff {name : List α} {f : ComponentRow α → ComponentRow α} :
    t.updateComponentByName c name f = .ok t' ↔
      t.component.countP (fun r => c.SelectsName name r) = 1 ∧
        { t with component := Table.update (c.SelectsName name) f t.component } = t' := by
  rw [updateComponentByName, ite_error_eq_ok_iff, Except.ok.injEq]

end Success

end Tables

end PersonalCloud.DatasetDb
