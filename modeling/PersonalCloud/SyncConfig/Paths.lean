import Mathlib.Data.List.Basic

/-!
# Paths and how they are compared

A path is given as that of its parent directory and a name, both relative to the root of the
sync configuration. The tables keep the path as it is written and, where the policy is to
ignore case, once more in upper case.
-/

namespace PersonalCloud.SyncConfig

/-- `getRelPath` of an entry, and `SCRelPath::getChild` of a directory. -/
def relPath (parentPath name : String) : String :=
  if parentPath = "" then name else parentPath ++ "/" ++ name

/-- `SCRelPath::getParent`: what stands before the last separator. -/
def getParent (path : String) : String :=
  String.ofList ((path.toList.reverse.dropWhile fun ch => ch != '/').drop 1).reverse

/-- `SCRelPath::getName`: what stands behind the last separator. -/
def getName (path : String) : String :=
  String.ofList (path.toList.reverse.takeWhile fun ch => ch != '/').reverse

theorem length_relPath_lt (parentPath : String) {name : String} (h : name ≠ "") :
    parentPath.length < (relPath parentPath name).length := by
  have hpos : 0 < name.length := Nat.pos_of_ne_zero fun h0 => h (String.length_eq_zero_iff.1 h0)
  unfold relPath
  split_ifs with hp
  · simpa [hp] using hpos
  · simp only [String.length_append]
    omega

/-- The last separator of a list is found from its end. -/
theorem append_cons_inj {α : Type*} {a : α} {x x' z z' : List α} (hz : a ∉ z) (hz' : a ∉ z')
    (h : x ++ a :: z = x' ++ a :: z') : x = x' ∧ z = z' := by
  rcases List.append_eq_append_iff.1 h with ⟨l, rfl, hl⟩ | ⟨l, rfl, hl⟩
  · cases l with
    | nil => simpa using hl
    | cons b l =>
      obtain ⟨rfl, rfl⟩ := List.cons.inj hl
      simp at hz
  · cases l with
    | nil => simpa [eq_comm] using hl
    | cons b l =>
      obtain ⟨rfl, rfl⟩ := List.cons.inj hl
      simp at hz'

/-- A path determines the directory and the name, if names hold no separator. -/
theorem relPath_inj {p p' n n' : String} (hn : n ≠ "" ∧ '/' ∉ n.toList)
    (hn' : n' ≠ "" ∧ '/' ∉ n'.toList) : relPath p n = relPath p' n' ↔ p = p' ∧ n = n' := by
  refine ⟨fun h => ?_, fun ⟨hp, hn⟩ => by rw [hp, hn]⟩
  have happ : ∀ q m : String, (q ++ "/" ++ m).toList = q.toList ++ '/' :: m.toList := by
    intro q m
    simp [String.toList_append]
  unfold relPath at h
  split_ifs at h with hp hp' hp'
  · exact ⟨hp.trans hp'.symm, h⟩
  · refine absurd ?_ hn.2
    rw [h, happ]
    simp
  · refine absurd ?_ hn'.2
    rw [← h, happ]
    simp
  · have hlist := congrArg String.toList h
    rw [happ, happ] at hlist
    obtain ⟨hp, hn⟩ := append_cons_inj hn.2 hn'.2 hlist
    exact ⟨String.toList_injective hp, String.toList_injective hn⟩

/-- The columns of a row that hold its path. `NULL` is `none`. -/
structure PathColumns where
  parentPath : String
  name : String
  parentPathCi : Option String
  nameCi : Option String
deriving DecidableEq, Repr

def syncTempDir : String := ".sync_temp"

def desktopIni : String := "desktop.ini"

/-- How paths are compared. `utf8Upper` is `Util_UTF8Upper`. -/
structure CasePolicy where
  caseInsensitive : Bool
  utf8Upper : String → String

namespace CasePolicy

variable (c : CasePolicy)

/-- `convertCaseByPolicy`. -/
def convertCase (s : String) : String :=
  if c.caseInsensitive then c.utf8Upper s else s

/-- The form in which two paths are compared. -/
def fold (path : String × String) : String × String :=
  (c.convertCase path.1, c.convertCase path.2)

/-- `isValidDirEntry`: names that are neither special nor hold an unsupported character. -/
def IsValidDirEntry (entry : String) : Prop :=
  c.convertCase entry ≠ "" ∧ c.convertCase entry ≠ ".." ∧ c.convertCase entry ≠ "." ∧
    c.convertCase entry ≠ c.convertCase syncTempDir ∧
    c.convertCase entry ≠ c.convertCase desktopIni ∧
    ((c.convertCase entry).toList.any fun ch => "\\/:*?\"<>|".toList.elem ch) = false

instance : DecidablePred c.IsValidDirEntry := fun _ => inferInstanceAs (Decidable (_ ∧ _))

/-- What an insertion binds to the columns of the path. -/
def columns (parentPath name : String) : PathColumns where
  parentPath := parentPath
  name := name
  parentPathCi := if c.caseInsensitive then some (c.utf8Upper parentPath) else none
  nameCi := if c.caseInsensitive then some (c.utf8Upper name) else none

/-- The `WHERE` clause that the statements about one path share. -/
def Selects (parentPath name : String) (x : PathColumns) : Prop :=
  if c.caseInsensitive then
    x.parentPathCi = some (c.utf8Upper parentPath) ∧ x.nameCi = some (c.utf8Upper name)
  else x.parentPath = parentPath ∧ x.name = name

instance (parentPath name : String) : DecidablePred (c.Selects parentPath name) := fun _ =>
  inferInstanceAs (Decidable (if c.caseInsensitive then _ ∧ _ else _ ∧ _))

/-- The `WHERE` clause of the statements about the children of a directory. -/
def SelectsChild (path : String) (x : PathColumns) : Prop :=
  if c.caseInsensitive then x.parentPathCi = some (c.utf8Upper path) else x.parentPath = path

instance (path : String) : DecidablePred (c.SelectsChild path) := fun _ =>
  inferInstanceAs (Decidable (if c.caseInsensitive then _ else _))

/-- The columns of the folded path are those of the path. -/
def Derived (x : PathColumns) : Prop :=
  x = c.columns x.parentPath x.name

instance : DecidablePred c.Derived := fun _ => inferInstanceAs (Decidable (_ = _))

variable {c}

/-- `Util_UTF8Upper` works character by character, and `/` is its own upper case. -/
structure Lawful (c : CasePolicy) : Prop where
  upper_relPath : ∀ parentPath name,
    c.utf8Upper (relPath parentPath name) = relPath (c.utf8Upper parentPath) (c.utf8Upper name)
  upper_eq_empty : ∀ s, c.utf8Upper s = "" ↔ s = ""

theorem convertCase_relPath {parentPath name : String}
    (h : c.caseInsensitive → c.utf8Upper (relPath parentPath name) =
      relPath (c.utf8Upper parentPath) (c.utf8Upper name)) :
    c.convertCase (relPath parentPath name) =
      relPath (c.convertCase parentPath) (c.convertCase name) := by
  unfold convertCase
  split_ifs with hc
  · exact h hc
  · rfl

theorem Lawful.convertCase_relPath (h : c.Lawful) (parentPath name : String) :
    c.convertCase (relPath parentPath name) =
      relPath (c.convertCase parentPath) (c.convertCase name) :=
  CasePolicy.convertCase_relPath fun _ => h.upper_relPath parentPath name

theorem Lawful.convertCase_eq_empty (h : c.Lawful) (s : String) :
    c.convertCase s = "" ↔ s = "" := by
  by_cases hc : c.caseInsensitive <;> simp [convertCase, hc, h.upper_eq_empty]

theorem derived_columns (parentPath name : String) : c.Derived (c.columns parentPath name) :=
  rfl

/-- On rows with their derived columns, every `WHERE` clause compares folded paths. -/
theorem selects_iff {x : PathColumns} (hx : c.Derived x) (parentPath name : String) :
    c.Selects parentPath name x ↔ c.fold (x.parentPath, x.name) = c.fold (parentPath, name) := by
  rw [hx]
  by_cases h : c.caseInsensitive <;> simp [Selects, columns, fold, convertCase, h]

theorem selectsChild_iff {x : PathColumns} (hx : c.Derived x) (path : String) :
    c.SelectsChild path x ↔ c.convertCase x.parentPath = c.convertCase path := by
  rw [hx]
  by_cases h : c.caseInsensitive <;> simp [SelectsChild, columns, convertCase, h]

end CasePolicy

end PersonalCloud.SyncConfig
