import PersonalCloud.DatasetDb.Tables
import PersonalCloud.Lib.PathTree

/-!
# What a dataset is

To its users a dataset is a tree of components, and a trash with a tree for each version and index
that something was removed under. Versions, modification times and the sizes of contents are left out.

A component is known by its path in upper case. How its name is spelled is part of its entry.

## Main definitions

* `Dataset` — the tree and the trash.
* `Operation`, `Dataset.apply`, `Dataset.after` — what the operations do.
-/

namespace PersonalCloud.DatasetDb

open PersonalCloud.Lib PersonalCloud.Lib.PathText PersonalCloud.Lib.PathTree

structure Entry (α : Type) where
  leaf : List α
  type : ComponentType
  ctime : ℕ
  content : Option (List UInt8)
  metadata : ℤ → Option (Option (List UInt8))

abbrev ComponentTree (α : Type) := PathTree (List α) (Entry α)

@[ext]
structure Dataset (α : Type) where
  tree : ComponentTree α
  bin : ℕ × ℕ → Option (ComponentTree α)

inductive Operation (α : Type) where
  | testAndCreate (name : List α) (type : ComponentType) (version time : ℕ)
  | setVersion (name : List α) (version time : ℕ) (type : ComponentType)
  | setPath (name : List α) (path : List UInt8) (version time : ℕ)
  | setSize (name : List α) (size version time : ℕ)
  | setMetadata (name : List α) (type : ℤ) (value : List UInt8)
  | delete (name : List α) (version time : ℕ)
  | trash (name : List α) (version index time : ℕ)
  | deleteTrash (version index : ℕ)
  | restore (trashVersion index : ℕ) (name : List α) (version time : ℕ)
  | move (oldName newName : List α) (version time : ℕ)
  | copy (oldName newName : List α) (version time : ℕ)
  deriving DecidableEq, Repr

variable {α : Type} [DecidableEq α]

namespace Collation

variable (c : Collation α)

/-- The parts of a name as they are spelled. -/
def spell (name : List α) : List (List α) :=
  parts c.slash name

/-- The path of the component that is called so. -/
def pathOf (name : List α) : List (List α) :=
  parts c.slash (c.upperName name)

end Collation

namespace Entry

def Holds (e : Entry α) : Prop := e.type = .directory

/-- A component that was just made. -/
def new (leaf : List α) (type : ComponentType) (time : ℕ) : Entry α where
  leaf := leaf
  type := type
  ctime := time
  content := none
  metadata _ := none

end Entry

namespace ComponentTree

variable (c : Collation α)

/-- A component that is made unless it is there. -/
def create (time : ℕ) (type : ComponentType) (spelled : List (List α)) (t : ComponentTree α) :
    ComponentTree α :=
  ensure (spelled.map c.upperName) (.new (spelled.getLastD []) type time) t

/-- The directories above a component are made if they are missing, the root first. -/
def createAbove (time : ℕ) (spelled : List (List α)) (t : ComponentTree α) : ComponentTree α :=
  spelled.inits.dropLast.foldl (fun t q => create c time .directory q t) t

/-- A tree whose root gets another name. -/
def relabel (leaf : List α) (s : ComponentTree α) : ComponentTree α :=
  modify [] (fun e => { e with leaf := leaf }) s

/-- The part of the tree that a copy takes. Below the root it takes everything, but of the root
only the directory. -/
def copied (path : List (List α)) (t : ComponentTree α) : ComponentTree α :=
  if path = [] then fun q => if q = [] then t [] else none else sub path t

end ComponentTree

namespace Dataset

open ComponentTree

variable (c : Collation α)

def empty : Dataset α := ⟨fun _ => none, fun _ => none⟩

/-- What an operation does if it succeeds. -/
def apply (d : Dataset α) : Operation α → Dataset α
  | .testAndCreate name type _ time =>
    if d.tree (c.pathOf name) = none then
      let tree := createAbove c time (c.spell name) d.tree
      { d with tree := create c time type (c.spell name) tree }
    else d
  | .setVersion name _ time type =>
    { d with tree := create c time type (c.spell name) (createAbove c time (c.spell name) d.tree) }
  | .setPath name path version time =>
    let tree :=
      if version ≠ 0 ∨ time ≠ 0 then
        create c time .file (c.spell name) (createAbove c time (c.spell name) d.tree)
      else d.tree
    { d with tree := modify (c.pathOf name) (fun e => { e with content := some path }) tree }
  | .setSize .. => d
  | .setMetadata name type value =>
    let set := fun e : Entry α =>
      { e with metadata := Function.update e.metadata type (some (some value)) }
    { d with tree := modify (c.pathOf name) set d.tree }
  | .delete name _ _ => { d with tree := prune (c.pathOf name) d.tree }
  | .trash name version index _ =>
    { tree := prune (c.pathOf name) d.tree
      bin := Function.update d.bin (version, index) (some (sub (c.pathOf name) d.tree)) }
  | .deleteTrash version index => { d with bin := Function.update d.bin (version, index) none }
  | .restore trashVersion index name _ time =>
    let kept := (d.bin (trashVersion, index)).getD fun _ => none
    let restored := relabel ((c.spell name).getLastD []) kept
    { tree := graft (c.pathOf name) restored (createAbove c time (c.spell name) d.tree)
      bin := Function.update d.bin (trashVersion, index) none }
  | .move oldName newName _ time =>
    let tree := createAbove c time (c.spell newName) d.tree
    let moved := relabel ((c.spell newName).getLastD []) (sub (c.pathOf oldName) tree)
    { d with tree := graft (c.pathOf newName) moved (prune (c.pathOf oldName) tree) }
  | .copy oldName newName _ time =>
    let tree := createAbove c time (c.spell newName) d.tree
    let copies := relabel ((c.spell newName).getLastD []) (copied (c.pathOf oldName) tree)
    { d with tree := graft (c.pathOf newName) copies tree }

/-- What the operations make of an empty dataset. The list has the newest first. -/
def after (os : List (Operation α)) : Dataset α :=
  os.foldr (fun o d => d.apply c o) empty

end Dataset

end PersonalCloud.DatasetDb
