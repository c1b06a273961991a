import PersonalCloud.StorageNode.Dataset

/-!
# Renaming a directory over open files

A directory may not be renamed while a file below it is open. `checkOpenConflict` decides
this by looking for an open file whose name begins with the directory's name, which is also
so for files that stand beside the directory.

## Main results

* `Dataset.checkOpenConflict_directory` — what the search finds for a directory.
* `Dataset.conflictExact_iff` — when this is the same as an open file below it.
-/

namespace PersonalCloud.StorageNode

open PersonalCloud.Lib

/-! ## Names -/

def slash : UInt8 := 0x2f

/-- The file is strictly below the directory. -/
def Below (dir name : Component) : Prop := ∃ rest, rest ≠ [] ∧ name = dir ++ slash :: rest

/-- The name begins with the directory's name, and is not below it. -/
def Beside (dir name : Component) : Prop :=
  name = dir ∨ name = dir ++ [slash] ∨ ∃ b rest, b ≠ slash ∧ name = dir ++ b :: rest

section Names

variable {dir name : Component}

theorem below_iff : Below dir name ↔ dir ++ [slash] <+: name ∧ dir.length + 1 < name.length := by
  constructor
  · rintro ⟨rest, hne, rfl⟩
    refine ⟨⟨rest, by simp⟩, ?_⟩
    have hpos := List.length_pos_iff.2 hne
    simp only [List.length_append, List.length_cons]
    omega
  · rintro ⟨⟨rest, rfl⟩, hlt⟩
    refine ⟨rest, ?_, by simp⟩
    rintro rfl
    simp at hlt

instance : Decidable (Below dir name) := decidable_of_iff _ below_iff.symm

theorem prefix_iff_below_or_beside : dir <+: name ↔ Below dir name ∨ Beside dir name := by
  constructor
  · rintro ⟨tail, rfl⟩
    rcases tail with _ | ⟨b, rest⟩
    · exact .inr (.inl (List.append_nil dir))
    by_cases hb : b = slash
    · subst hb
      by_cases hrest : rest = []
      · exact .inr (.inr (.inl (hrest ▸ rfl)))
      · exact .inl ⟨rest, hrest, rfl⟩
    · exact .inr (.inr (.inr ⟨b, rest, hb, rfl⟩))
  · rintro (⟨rest, -, rfl⟩ | rfl | rfl | ⟨b, rest, -, rfl⟩)
    · exact List.prefix_append dir _
    · exact List.prefix_refl _
    · exact List.prefix_append dir _
    · exact List.prefix_append dir _

end Names

/-! ## The search -/

namespace Dataset

/-- The open files, in the order of their paths. -/
def openFiles (d : Dataset) : List OpenFile :=
  d.openHandles.entries.filterMap fun x => d.fileIdToHandle.find? x.2

/-- The loop over the open files; `name` is the folded name of what is to be renamed. -/
def conflictAmong (name : Component) (directory : Bool) : List OpenFile → Bool
  | [] => false
  | h :: rest =>
    if directory then
      if name.isPrefixOf h.component then true else conflictAmong name directory rest
    else if name = h.component then !hasFlag h.file.accessMode VSSI_FILE_OPEN_DELETE
    else conflictAmong name directory rest

/-- `upper` folds names the way the dataset compares them: `utf8_upper` where case does not
matter, else nothing. The database may refuse to tell the type of the component. -/
def checkOpenConflict (d : Dataset) (upper : Component → Component) (component : Component)
    (refused : Bool) : Bool :=
  match if refused then none else d.database (upper component) with
  | none => false
  | some info => conflictAmong (upper component) info.directory d.openFiles

/-- Some open file is below the directory. -/
def OpenBelow (d : Dataset) (dir : Component) : Prop := ∃ h ∈ d.openFiles, Below dir h.component

/-- The answer says whether an open file is below the directory. -/
def ConflictExact (d : Dataset) (upper : Component → Component) (component : Component)
    (refused : Bool) : Prop :=
  d.checkOpenConflict upper component refused ↔ d.OpenBelow (upper component)

variable {d : Dataset} {upper : Component → Component} {component name : Component}
  {refused : Bool} {files : List OpenFile}

theorem conflictAmong_directory :
    conflictAmong name true files = true ↔ ∃ h ∈ files, name <+: h.component := by
  induction files with
  | nil => simp [conflictAmong]
  | cons h rest ih =>
    rw [conflictAmong, if_pos rfl]
    split
    case isTrue hprefix => exact iff_of_true rfl ⟨h, by simp, List.isPrefixOf_iff_prefix.1 hprefix⟩
    case isFalse hprefix =>
      rw [List.isPrefixOf_iff_prefix] at hprefix
      simp only [ih, List.mem_cons, exists_eq_or_imp, hprefix, false_or]

theorem conflictAmong_file : conflictAmong name false files = true ↔
    ∃ h, files.find? (fun h => name = h.component) = some h ∧
      hasFlag h.file.accessMode VSSI_FILE_OPEN_DELETE = false := by
  induction files with
  | nil => simp [conflictAmong]
  | cons h rest ih =>
    rw [conflictAmong, if_neg Bool.false_ne_true]
    split
    case isTrue hname => simp [hname]
    case isFalse hname => simp [hname, ih]

theorem checkOpenConflict_directory (hdir : d.database.isDirectory (upper component)) :
    d.checkOpenConflict upper component refused ↔
      refused = false ∧ ∃ h ∈ d.openFiles, upper component <+: h.component := by
  obtain ⟨info, hinfo, htype⟩ := (Option.any_eq_true _ _).1 hdir
  cases refused with
  | true => simp [checkOpenConflict]
  | false => simp [checkOpenConflict, hinfo, htype, conflictAmong_directory]

theorem checkOpenConflict_file {info : ComponentInfo}
    (hinfo : d.database (upper component) = some info) (hfile : info.directory = false) :
    d.checkOpenConflict upper component false ↔
      ∃ h, d.openFiles.find? (fun h => upper component = h.component) = some h ∧
        hasFlag h.file.accessMode VSSI_FILE_OPEN_DELETE = false := by
  simp [checkOpenConflict, hinfo, hfile, conflictAmong_file]

/-- The answer is right unless the type of the directory is not told while a file below it is
open, or a file beside it is open and none below it. -/
theorem conflictExact_iff (hdir : d.database.isDirectory (upper component)) :
    d.ConflictExact upper component refused ↔
      (refused = true → ∀ h ∈ d.openFiles, ¬Below (upper component) h.component) ∧
      (refused = false → ∀ h ∈ d.openFiles, Beside (upper component) h.component →
        ∃ h' ∈ d.openFiles, Below (upper component) h'.component) := by
  rw [ConflictExact, checkOpenConflict_directory hdir, OpenBelow]
  cases refused with
  | true => simp
  | false =>
    simp only [true_and, Bool.false_eq_true, false_imp_iff, true_imp_iff,
      prefix_iff_below_or_beside]
    constructor
    · rintro h f hf hbeside
      exact h.1 ⟨f, hf, .inr hbeside⟩
    · rintro h
      refine ⟨?_, fun ⟨f, hf, hbelow⟩ => ⟨f, hf, .inl hbelow⟩⟩
      rintro ⟨f, hf, hbelow | hbeside⟩
      · exact ⟨f, hf, hbelow⟩
      · exact h f hf hbeside

/-- Two directories, `doc` and `docs`. -/
def twoDirectories : Database := fun name =>
  if name = [0x64, 0x6f, 0x63] ∨ name = [0x64, 0x6f, 0x63, 0x73] then
    some {
      directory := true
      perm := 0
      size := 0
      path := 0
      version := 1
      mtime := 0 }
  else none

/-- After `docs/a` was opened. -/
def docsOpen : Dataset :=
  ((start twoDirectories 1).openFile 1 [0x64, 0x6f, 0x63, 0x73, 0x2f, 0x61] 1
    (VSSI_FILE_OPEN_WRITE ||| VSSI_FILE_OPEN_CREATE) 0 {
      siblings := 0
      createRefused := false
      path := 1
      contentError := none
      fileId := 7
      time := 3 }).2

theorem conflictExact_iff_docsOpen :
    docsOpen.ConflictExact id [0x64, 0x6f, 0x63, 0x73] false ↔
      (false = true → ∀ h ∈ docsOpen.openFiles, ¬Below [0x64, 0x6f, 0x63, 0x73] h.component) ∧
      (false = false → ∀ h ∈ docsOpen.openFiles, Beside [0x64, 0x6f, 0x63, 0x73] h.component →
        ∃ h' ∈ docsOpen.openFiles, Below [0x64, 0x6f, 0x63, 0x73] h'.component) :=
  have hdir : docsOpen.database.isDirectory (id [0x64, 0x6f, 0x63, 0x73]) := by decide
  conflictExact_iff hdir

/-- The directory `doc` is reported to hold the open file `docs/a`. -/
theorem not_conflictExact_docsOpen :
    ¬∀ (d : Dataset) (upper : Component → Component) (component : Component),
      d.database.isDirectory (upper component) → d.ConflictExact upper component false := by
  intro h
  have hexact := h docsOpen id [0x64, 0x6f, 0x63] (by decide)
  obtain ⟨f, hf, hbelow⟩ := hexact.1 (by decide)
  have hname : ∀ f ∈ docsOpen.openFiles, ¬Below [0x64, 0x6f, 0x63] f.component := by decide
  exact hname f hf hbelow

end Dataset

end PersonalCloud.StorageNode
