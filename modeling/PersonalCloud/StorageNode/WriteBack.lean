import PersonalCloud.StorageNode.Dataset

/-!
# Write-back of file metadata

When a handle goes, the database should hold the size and the attributes that the file had,
unless its last update failed; and an update that succeeds after a failed one should write
both. Two things stand in the way. `fileUpdateDatabase` takes the attributes as synced before
the database has accepted them, so after a refusal the next update leaves them out. And
`objectRelease` destroys files without any update.

`Tracked` says what the `vss_file` knows of its entry: `attrsOrig` is the value in the
database as long as no update of changed attributes was refused (`UpdatesSafely`).

## Main results

* `Dataset.AllTracked.step` — every event keeps all files tracked, if it updates safely.
* `writesBack_of_meets` — then nothing is lost in a run.
-/

namespace PersonalCloud.StorageNode

open PersonalCloud.Lib

/-- The entry holds the size and the attributes of the file. -/
def OpenFile.Saved (h : OpenFile) (entry : Option ComponentInfo) : Prop :=
  ∃ info, entry = some info ∧ info.perm = h.attrs ∧ info.size = h.size

instance (h : OpenFile) (entry : Option ComponentInfo) : Decidable (h.Saved entry) :=
  decidable_of_iff (∃ info ∈ entry, info.perm = h.attrs ∧ info.size = h.size) .rfl

/-- An open file after an update of the database that succeeded. -/
def OpenFile.synced (h : OpenFile) : OpenFile :=
  { h with
    attrsOrig := h.attrs
    sizeOrig := h.size
    newModifyTime := false
    isModified := false
    lastUpdateFailed := false }

/-- What an open file knows of its entry in the database. -/
structure Tracked (db : Database) (openHandles : OrdMap ContentPath FileId) (id : FileId)
    (h : OpenFile) (component : Component) (info : ComponentInfo) : Prop where
  component_eq : h.component = component
  entry_eq : db component = some info
  isFile : info.directory = false
  filename_eq : h.filename = some info.path
  handle_eq : openHandles.find? info.path = some id
  perm_eq : info.perm = h.attrsOrig
  size_eq : h.lastUpdateFailed = false → info.size = h.sizeOrig
  clean : h.isModified = false →
    h.attrs = h.attrsOrig ∧ h.size = h.sizeOrig ∧ h.lastUpdateFailed = false

/-- `h'` is `h` with other locks, or changed through its setters. -/
structure Touched (h h' : OpenFile) : Prop where
  component : h'.component = h.component
  filename : h'.filename = h.filename
  attrsOrig : h'.attrsOrig = h.attrsOrig
  sizeOrig : h'.sizeOrig = h.sizeOrig
  deletePending : h'.deletePending = h.deletePending
  lastUpdateFailed : h'.lastUpdateFailed = h.lastUpdateFailed
  clean : h'.isModified = false → h.isModified = false ∧ h'.attrs = h.attrs ∧ h'.size = h.size

namespace Touched

variable {h h' : OpenFile}

theorem refl (h : OpenFile) : Touched h h := ⟨rfl, rfl, rfl, rfl, rfl, rfl, fun hm => ⟨hm, rfl, rfl⟩⟩

theorem withFile (t : Touched h h') (file : VssFile) : Touched h { h' with file := file } :=
  ⟨t.1, t.2, t.3, t.4, t.5, t.6, t.7⟩

theorem setAttrs (t : Touched h h') (attrs : UInt32) : Touched h (h'.setAttrs attrs) :=
  ⟨t.1, t.2, t.3, t.4, t.5, t.6, fun hm => by simp [OpenFile.setAttrs] at hm⟩

theorem setSize (t : Touched h h') (size : Nat) : Touched h (h'.setSize size) :=
  ⟨t.1, t.2, t.3, t.4, t.5, t.6, fun hm => by simp [OpenFile.setSize] at hm⟩

theorem setSizeIfLarger (t : Touched h h') (size : Nat) : Touched h (h'.setSizeIfLarger size) :=
  ⟨t.1, t.2, t.3, t.4, t.5, t.6, fun hm => by simp [OpenFile.setSizeIfLarger] at hm⟩

theorem wrote (t : Touched h h') (offset written : Nat) : Touched h (h'.wrote offset written) :=
  (t.setAttrs _).setSizeIfLarger _

theorem truncated (t : Touched h h') (size : Nat) : Touched h (h'.truncated size) :=
  (t.setAttrs _).setSize _

theorem chmod (t : Touched h h') (attrs attrsMask : UInt32) : Touched h (h'.chmod attrs attrsMask) :=
  t.setAttrs _

end Touched

section Tracked

variable {db db' : Database} {openHandles openHandles' : OrdMap ContentPath FileId}
  {id id' : FileId} {h h' : OpenFile} {component component' : Component}
  {info info' : ComponentInfo}

theorem Tracked.touched (t : Tracked db openHandles id h component info) (ht : Touched h h') :
    Tracked db openHandles id h' component info where
  component_eq := ht.component.trans t.component_eq
  entry_eq := t.entry_eq
  isFile := t.isFile
  filename_eq := ht.filename.trans t.filename_eq
  handle_eq := t.handle_eq
  perm_eq := t.perm_eq.trans ht.attrsOrig.symm
  size_eq hf := (t.size_eq (ht.lastUpdateFailed ▸ hf)).trans ht.sizeOrig.symm
  clean hm := by
    obtain ⟨hm, hattrs, hsize⟩ := ht.clean hm
    have hc := t.clean hm
    exact ⟨by rw [hattrs, ht.attrsOrig, hc.1], by rw [hsize, ht.sizeOrig, hc.2.1],
      by rw [ht.lastUpdateFailed, hc.2.2]⟩

/-- Two open files of one content path are the same file. -/
theorem Tracked.id_eq_of_path (t : Tracked db openHandles id h component info)
    (t' : Tracked db openHandles id' h' component' info') (hp : info'.path = info.path) :
    id' = id := by
  have hh := t'.handle_eq
  rw [hp, t.handle_eq] at hh
  exact (Option.some.inj hh).symm

theorem Tracked.component_ne (t : Tracked db openHandles id h component info)
    (t' : Tracked db openHandles id' h' component' info') (hne : id' ≠ id) :
    component' ≠ component := by
  rintro rfl
  have he := t'.entry_eq
  rw [t.entry_eq] at he
  exact hne (t.id_eq_of_path t' (by rw [Option.some.inj he]))

/-- What happens to other entries and paths does not concern a file. -/
theorem Tracked.frame (t : Tracked db openHandles id h component info)
    (he : db' component = db component)
    (hh : openHandles'.find? info.path = openHandles.find? info.path) :
    Tracked db' openHandles' id h component info :=
  { t with entry_eq := he.trans t.entry_eq, handle_eq := hh.trans t.handle_eq }

theorem Tracked.saved (t : Tracked db openHandles id h component info)
    (ha : h.attrs = h.attrsOrig) (hs : h.size = h.sizeOrig) (hf : h.lastUpdateFailed = false) :
    h.Saved (db h.component) :=
  ⟨info, by rw [t.component_eq, t.entry_eq], by rw [t.perm_eq, ha],
    by rw [t.size_eq hf, hs]⟩

end Tracked

namespace Dataset

variable {d d' : Dataset} {id : FileId} {h h' : OpenFile}

/-- Every open file that still has its names is tracked. -/
def AllTracked (d : Dataset) : Prop :=
  ∀ id h, d.fileIdToHandle.find? id = some h → h.deletePending = false →
    ∃ component info, Tracked d.database d.openHandles id h component info

/-- Nothing was lost in the updates that succeeded and in the files that were destroyed. -/
structure WritesBack (d : Dataset) : Prop where
  updated : ∀ x ∈ d.updated, x.1.Saved x.2
  destroyed : ∀ x ∈ d.destroyed, x.1.deletePending = false → x.1.lastUpdateFailed = false →
    x.1.Saved x.2

/-- The file that an event updates in the database, with the reply it gets. -/
def updates (d : Dataset) : DatasetEvent → Option (OpenFile × DbReply)
  | .fileUpdateDatabase id reply _ => (d.fileIdToHandle.find? id).map fun h => (h, reply)
  | .closeFile id _ origin reply _ =>
    ((d.fileIdToHandle.find? id).filter fun h =>
      origin % 2 ^ 32 ≠ 0 ∧ h.file.validateOrigin origin).map fun h => (h, reply)
  | _ => none

/-- The files that hold their last reference from the object that an event releases. -/
def releases (d : Dataset) : DatasetEvent → List OpenFile
  | .objectRelease object => (d.fileIdToHandle.entries.map Prod.snd).filter fun h =>
      !(h.file.removeObject object).2.referenced
  | _ => []

/-- The database refuses no update of a file with changed attributes, and no object is
released that holds the last reference of a file with unsaved changes. -/
structure UpdatesSafely (d : Dataset) (e : DatasetEvent) : Prop where
  refusal : ∀ x ∈ d.updates e, x.2 ≠ .ok → x.1.isModified = true → x.1.deletePending = false →
    x.1.attrs = x.1.attrsOrig
  release : ∀ h ∈ d.releases e, h.deletePending = false → h.lastUpdateFailed = false →
    h.attrs = h.attrsOrig ∧ h.size = h.sizeOrig

instance (d : Dataset) (e : DatasetEvent) : Decidable (d.UpdatesSafely e) :=
  decidable_of_iff
    ((∀ x ∈ d.updates e, x.2 ≠ .ok → x.1.isModified = true → x.1.deletePending = false →
        x.1.attrs = x.1.attrsOrig) ∧
      ∀ h ∈ d.releases e, h.deletePending = false → h.lastUpdateFailed = false →
        h.attrs = h.attrsOrig ∧ h.size = h.sizeOrig)
    ⟨fun hs => ⟨hs.1, hs.2⟩, fun hs => ⟨hs.1, hs.2⟩⟩

/-! ### Setters -/

theorem AllTracked.putFile (ht : d.AllTracked) (hf : d.fileIdToHandle.find? id = some h)
    (htouch : Touched h h') : (d.putFile id h').AllTracked := by
  intro i k hk hp
  simp only [Dataset.putFile, OrdMap.find?_insert] at hk
  split_ifs at hk with hi
  · obtain rfl := Option.some.inj hk
    subst hi
    obtain ⟨component, info, t⟩ := ht i h hf (htouch.deletePending ▸ hp)
    exact ⟨component, info, t.touched htouch⟩
  · exact ht i k hk hp

theorem AllTracked.onFile (ht : d.AllTracked) (id : FileId) (context : Context)
    (remainingSpace : Nat) (request : Request) {done : OpenFile → OpenFile}
    (hdone : ∀ h, Touched h (done h)) :
    (d.onFile id context remainingSpace request done).AllTracked := by
  unfold Dataset.onFile
  split
  · exact ht
  · rename_i h hf
    refine ht.putFile hf ?_
    split_ifs
    · have := hdone { h with file := (h.file.handle context remainingSpace request).2 }
      exact ⟨this.1, this.2, this.3, this.4, this.5, this.6, this.7⟩
    · exact (Touched.refl h).withFile _

/-! ### Updates -/

variable {component : Component} {info : ComponentInfo} {reply : DbReply}
  (changeTime : Nat)

theorem fileUpdateDatabase_of_clean (hc : h.isModified = false ∨ h.deletePending = true) :
    d.fileUpdateDatabase id h reply changeTime = d := by
  unfold Dataset.fileUpdateDatabase
  rw [if_pos (by grind)]

/-- What an update of a changed file does. -/
theorem fileUpdateDatabase_cases
    (t : Tracked d.database d.openHandles id h component info) (hm : h.isModified = true)
    (hp : h.deletePending = false) (hr : reply ≠ .ok → h.attrs = h.attrsOrig) :
    d.fileUpdateDatabase id h reply changeTime =
        d.putFile id { h with
          attrsOrig := h.attrs, sizeOrig := h.size, lastUpdateFailed := true } ∧
      reply = .refusesSize ∨
    ∃ info', info'.directory = false ∧ info'.path = info.path ∧ info'.perm = h.attrs ∧
      info'.size = h.size ∧
      d.fileUpdateDatabase id h reply changeTime = { d with
        database := Function.update d.database component (some info')
        version := d.version + 1
        fileIdToHandle := d.fileIdToHandle.insert id h.synced
        updated := (h.synced, some info') :: d.updated } := by
  have hcomp := t.component_eq
  have hentry := t.entry_eq
  have hfile := t.isFile
  by_cases ha : h.attrs = h.attrsOrig
  · cases reply with
    | refusesSize =>
      left
      simp [Dataset.fileUpdateDatabase, hcomp, hm, hp, OpenFile.syncAttrs, OpenFile.syncSize, ha]
    | _ =>
      right
      refine ⟨{ info with
        size := h.size
        version := d.version + 1
        mtime := if h.newModifyTime then changeTime else info.mtime }, hfile, rfl, ?_, rfl, ?_⟩
      · rw [ha, t.perm_eq]
      · simp [Dataset.fileUpdateDatabase, hcomp, hm, hp, OpenFile.syncAttrs, OpenFile.syncSize, ha,
          Database.setComponentSize, hentry, hfile, OpenFile.synced]
  · obtain rfl : reply = .ok := by
      by_contra hne
      exact ha (hr hne)
    right
    refine ⟨{ info with
      perm := h.attrs
      size := h.size
      version := d.version + 1
      mtime := if h.newModifyTime then changeTime else info.mtime }, hfile, rfl, rfl, rfl, ?_⟩
    simp [Dataset.fileUpdateDatabase, hcomp, hm, hp, OpenFile.syncAttrs, OpenFile.syncSize, ha,
      Database.setComponentPermission, Database.setComponentSize, hentry, hfile, OpenFile.synced]

/-- What an update comes to: there is nothing to do, the size was refused, or the database has
what the file has. -/
inductive Updates (d : Dataset) (id : FileId) (h : OpenFile) : Dataset → Prop where
  | clean (hc : h.isModified = false ∨ h.deletePending = true) : Updates d id h d
  | failed {component : Component} {info : ComponentInfo}
      (t : Tracked d.database d.openHandles id h component info) (hm : h.isModified = true)
      (ha : h.attrs = h.attrsOrig) :
      Updates d id h (d.putFile id { h with
        attrsOrig := h.attrs, sizeOrig := h.size, lastUpdateFailed := true })
  | updated {component : Component} {info : ComponentInfo} {info' : ComponentInfo}
      (t : Tracked d.database d.openHandles id h component info)
      (hfile : info'.directory = false) (hpath : info'.path = info.path)
      (hperm : info'.perm = h.attrs) (hsize : info'.size = h.size) :
      Updates d id h { d with
        database := Function.update d.database component (some info')
        version := d.version + 1
        fileIdToHandle := d.fileIdToHandle.insert id h.synced
        updated := (h.synced, some info') :: d.updated }

theorem updates_fileUpdateDatabase (ht : d.AllTracked)
    (hf : d.fileIdToHandle.find? id = some h)
    (hr : reply ≠ .ok → h.isModified = true → h.deletePending = false → h.attrs = h.attrsOrig) :
    Updates d id h (d.fileUpdateDatabase id h reply changeTime) := by
  by_cases hc : h.isModified = false ∨ h.deletePending = true
  · rw [fileUpdateDatabase_of_clean changeTime hc]
    exact .clean hc
  · have hm : h.isModified = true := by grind
    have hp : h.deletePending = false := by grind
    obtain ⟨component, info, t⟩ := ht id h hf hp
    obtain ⟨heq, rfl⟩ | ⟨info', hfile, hpath, hperm, hsize, heq⟩ :=
      fileUpdateDatabase_cases changeTime t hm hp fun hne => hr hne hm hp
    · rw [heq]
      exact .failed t hm (hr (by decide) hm hp)
    · rw [heq]
      exact .updated t hfile hpath hperm hsize

theorem AllTracked.of_updates (ht : d.AllTracked) (hu : Updates d id h d') : d'.AllTracked := by
  cases hu with
  | clean => exact ht
  | @failed component info t hm ha =>
    intro i k hk hkp
    simp only [Dataset.putFile, OrdMap.find?_insert] at hk
    split_ifs at hk with hi
    · obtain rfl := Option.some.inj hk
      subst hi
      exact ⟨component, info, t.1, t.2, t.3, t.4, t.5, t.perm_eq.trans ha.symm,
        fun hf => by simp at hf, fun hc => by simp [hm] at hc⟩
    · exact ht i k hk hkp
  | @updated component info info' t hfile hpath hperm hsize =>
    intro i k hk hkp
    simp only [OrdMap.find?_insert] at hk
    split_ifs at hk with hi
    · obtain rfl := Option.some.inj hk
      subst hi
      exact ⟨component, info', t.component_eq, Function.update_self .., hfile,
        hpath ▸ t.filename_eq, hpath ▸ t.handle_eq, hperm, fun _ => hsize,
        fun _ => ⟨rfl, rfl, rfl⟩⟩
    · obtain ⟨component', info'', t'⟩ := ht i k hk hkp
      exact ⟨component', info'', t'.frame
        (Function.update_of_ne (t.component_ne t' hi) _ _) rfl⟩

theorem WritesBack.of_updates (hw : d.WritesBack) (hu : Updates d id h d') : d'.WritesBack := by
  cases hu with
  | clean => exact hw
  | failed => exact ⟨hw.updated, hw.destroyed⟩
  | @updated _ _ info' _ _ _ hperm hsize =>
    exact ⟨List.forall_mem_cons.2 ⟨⟨info', rfl, hperm, hsize⟩, hw.updated⟩, hw.destroyed⟩

/-- After an update, a file that has its names is clean, or the update failed. -/
theorem clean_of_updates (hu : Updates d id h d') (hf : d.fileIdToHandle.find? id = some h)
    (hk : d'.fileIdToHandle.find? id = some h') (hp : h'.deletePending = false)
    (hl : h'.lastUpdateFailed = false) : h'.isModified = false := by
  cases hu with
  | clean hc =>
    rw [hf] at hk
    obtain rfl := Option.some.inj hk
    grind
  | failed =>
    rw [Dataset.putFile, OrdMap.find?_insert_self] at hk
    obtain rfl := Option.some.inj hk
    cases hl
  | updated =>
    rw [OrdMap.find?_insert_self] at hk
    obtain rfl := Option.some.inj hk
    rfl

/-! ### The end of a handle -/

theorem AllTracked.destroy (ht : d.AllTracked) (hf : d.fileIdToHandle.find? id = some h)
    (htouch : Touched h h') : (d.destroy id h').AllTracked := by
  intro i k hk hkp
  have hi : i ≠ id := by
    rintro rfl
    simp [Dataset.destroy] at hk
  simp only [Dataset.destroy, OrdMap.find?_erase_of_ne _ hi] at hk
  obtain ⟨component', info', t'⟩ := ht i k hk hkp
  refine ⟨component', info', t'.frame rfl ?_⟩
  by_cases hp : h'.deletePending = true
  · simp [Dataset.destroy, hp]
  · obtain ⟨component, info, t⟩ := ht id h hf (by rw [← htouch.deletePending]; simpa using hp)
    have hne : info'.path ≠ info.path := fun he => hi (t.id_eq_of_path t' he)
    simp [Dataset.destroy, hp, htouch.filename, t.filename_eq, OrdMap.find?_erase_of_ne _ hne]

theorem WritesBack.destroy (hw : d.WritesBack)
    (hs : h.deletePending = false → h.lastUpdateFailed = false → h.Saved (d.entry h)) :
    (d.destroy id h).WritesBack :=
  ⟨hw.updated, List.forall_mem_cons.2 ⟨hs, hw.destroyed⟩⟩

theorem AllTracked.putOrDestroy (ht : d.AllTracked) (hf : d.fileIdToHandle.find? id = some h)
    (htouch : Touched h h') : (d.putOrDestroy id h').AllTracked := by
  unfold Dataset.putOrDestroy
  split_ifs
  · exact ht.putFile hf htouch
  · exact ht.destroy hf htouch

theorem WritesBack.putOrDestroy (hw : d.WritesBack) (ht : d.AllTracked)
    (hf : d.fileIdToHandle.find? id = some h) (htouch : Touched h h')
    (hc : h'.file.referenced = false → h'.deletePending = false → h'.lastUpdateFailed = false →
      h'.attrs = h'.attrsOrig ∧ h'.size = h'.sizeOrig) : (d.putOrDestroy id h').WritesBack := by
  unfold Dataset.putOrDestroy
  split_ifs with href
  · exact ⟨hw.updated, hw.destroyed⟩
  · refine hw.destroy fun hp hl => ?_
    obtain ⟨component, info, t⟩ := ht id h hf (by rw [← htouch.deletePending, hp])
    obtain ⟨ha, hs⟩ := hc (by simpa using href) hp hl
    rw [Dataset.entry, hp, if_neg Bool.false_ne_true]
    exact (t.touched htouch).saved ha hs hl

theorem AllTracked.closeFile (ht : d.AllTracked) (hw : d.WritesBack) (object : ObjectPtr)
    (origin : Origin)
    (hr : ∀ h, d.fileIdToHandle.find? id = some h → origin % 2 ^ 32 ≠ 0 →
      h.file.validateOrigin origin = true → reply ≠ .ok → h.isModified = true →
      h.deletePending = false → h.attrs = h.attrsOrig) :
    (d.closeFile id object origin reply changeTime).AllTracked ∧
      (d.closeFile id object origin reply changeTime).WritesBack := by
  unfold Dataset.closeFile
  split
  · exact ⟨ht, hw⟩
  · rename_i h hf
    split_ifs with ho hv
    · exact ⟨ht, hw⟩
    · exact ⟨ht, hw⟩
    · have hr := hr h hf ho (by simpa using hv)
      have hu := updates_fileUpdateDatabase changeTime ht hf hr
      have ht' := ht.of_updates hu
      have hw' := hw.of_updates hu
      dsimp only
      split
      · exact ⟨ht', hw'⟩
      · rename_i k hk
        have htouch := (Touched.refl k).withFile (k.file.closeFile object origin).2
        refine ⟨ht'.putOrDestroy hk htouch, hw'.putOrDestroy ht' hk htouch fun _ hp hl => ?_⟩
        obtain ⟨component, info, t⟩ := ht' id k hk hp
        have hc := t.clean (clean_of_updates hu hf hk hp hl)
        exact ⟨hc.1, hc.2.1⟩

theorem find?_putOrDestroy_of_ne {i : FileId} (hi : i ≠ id) :
    (d.putOrDestroy id h).fileIdToHandle.find? i = d.fileIdToHandle.find? i := by
  unfold Dataset.putOrDestroy
  split_ifs
  · exact OrdMap.find?_insert_of_ne _ _ hi
  · exact OrdMap.find?_erase_of_ne _ hi

/-- Release of an object, over the files that are still to be visited. -/
theorem AllTracked.removeObject (object : ObjectPtr) {l : List (FileId × OpenFile)}
    (hl : l.Pairwise fun x y => x.1 < y.1)
    (hf : ∀ x ∈ l, d.fileIdToHandle.find? x.1 = some x.2) (ht : d.AllTracked) (hw : d.WritesBack)
    (hc : ∀ x ∈ l, (x.2.file.removeObject object).2.referenced = false →
      x.2.deletePending = false → x.2.lastUpdateFailed = false →
      x.2.attrs = x.2.attrsOrig ∧ x.2.size = x.2.sizeOrig) :
    let d' := l.foldl (fun d x =>
      d.putOrDestroy x.1 { x.2 with file := (x.2.file.removeObject object).2 }) d
    d'.AllTracked ∧ d'.WritesBack := by
  induction l generalizing d with
  | nil => exact ⟨ht, hw⟩
  | cons x l ih =>
    obtain ⟨hx, hl⟩ := List.pairwise_cons.1 hl
    have htouch := (Touched.refl x.2).withFile (x.2.file.removeObject object).2
    have hfx := hf x (.head _)
    refine ih hl (fun y hy => ?_) (ht.putOrDestroy hfx htouch)
      (hw.putOrDestroy ht hfx htouch (hc x (.head _))) fun y hy => hc y (.tail _ hy)
    rw [find?_putOrDestroy_of_ne (hx y hy).ne']
    exact hf y (.tail _ hy)

theorem AllTracked.objectRelease (ht : d.AllTracked) (hw : d.WritesBack) (object : ObjectPtr)
    (hc : ∀ h ∈ d.releases (.objectRelease object), h.deletePending = false →
      h.lastUpdateFailed = false → h.attrs = h.attrsOrig ∧ h.size = h.sizeOrig) :
    (d.objectRelease object).AllTracked ∧ (d.objectRelease object).WritesBack := by
  refine AllTracked.removeObject object d.fileIdToHandle.sorted
    (fun x hx => OrdMap.find?_eq_some.2 hx) ht hw fun x hx href => hc x.2 ?_
  exact List.mem_filter.2 ⟨List.mem_map_of_mem hx, by simp [href]⟩

/-! ### Opens and removals -/

theorem Tracked.new {db : Database} {openHandles : OrdMap ContentPath FileId}
    {component : Component} {info : ComponentInfo} (file : VssFile) (isModified : Bool)
    (hentry : db component = some info) (hfile : info.directory = false)
    (hh : openHandles.find? info.path = some id) :
    Tracked db openHandles id
      (OpenFile.new file component info.path info.perm info.size isModified) component info :=
  ⟨rfl, hentry, hfile, rfl, hh, rfl, fun _ => rfl, fun _ => ⟨rfl, rfl, rfl⟩⟩

theorem AllTracked.openHandle (ht : d.AllTracked) (object : ObjectPtr)
    (hentry : d.database component = some info) (hfile : info.directory = false)
    (created truncate : Bool) (origin : Origin) (flags : UInt32) (env : OpenEnv) :
    (d.openHandle object component info created truncate origin flags env).2.AllTracked := by
  unfold Dataset.openHandle
  extract_lets readonly truncateFile
  have htruncate (h h' : OpenFile) (t : Touched h h') : Touched h (truncateFile h') := by
    unfold truncateFile
    split_ifs
    · exact t.truncated 0
    · exact t
  clear_value truncateFile
  split
  · rename_i hpath
    split_ifs
    · exact ht
    split
    · exact ht
    intro i k hk hkp
    simp only [OrdMap.find?_insert] at hk
    split_ifs at hk with hi
    · obtain rfl := Option.some.inj hk
      subst hi
      exact ⟨component, info, (Tracked.new _ _ hentry hfile
        (OrdMap.find?_insert_self ..)).touched (htruncate _ _ (.refl _))⟩
    · obtain ⟨component', info', t'⟩ := ht i k hk hkp
      have hne : info'.path ≠ info.path := fun he => by
        have := t'.handle_eq
        rw [he, hpath] at this
        cases this
      exact ⟨component', info', t'.frame rfl (OrdMap.find?_insert_of_ne _ _ hne)⟩
  · split
    · exact ht
    · rename_i h hf
      split_ifs
      · exact ht
      · exact ht
      · refine ht.putFile hf ?_
        split_ifs
        · exact htruncate _ _ ((Touched.refl h).withFile _)
        · exact (Touched.refl h).withFile _

theorem openHandle_logs (object : ObjectPtr) (created truncate : Bool) (origin : Origin)
    (flags : UInt32) (env : OpenEnv) :
    let d' := (d.openHandle object component info created truncate origin flags env).2
    d'.updated = d.updated ∧ d'.destroyed = d.destroyed := by
  unfold Dataset.openHandle
  extract_lets
  grind [Dataset.putFile]

/-- The entry of a component that an open file has. -/
theorem AllTracked.entry_eq (ht : d.AllTracked) (hf : d.fileIdToHandle.find? id = some h)
    (hp : h.deletePending = false) (hc : h.component = component) :
    ∃ info, d.database component = some info ∧ info.directory = false ∧
      d.openHandles.find? info.path = some id := by
  obtain ⟨component', info, t⟩ := ht id h hf hp
  rw [t.component_eq] at hc
  subst hc
  exact ⟨info, t.entry_eq, t.isFile, t.handle_eq⟩

/-- A component that is added or taken away, when no open file has it. -/
theorem AllTracked.update (ht : d.AllTracked) (entry : Option ComponentInfo) (version : Nat)
    (hne : ∀ i k, d.fileIdToHandle.find? i = some k → k.deletePending = false →
      k.component ≠ component) :
    { d with
      database := Function.update d.database component entry
      version := version : Dataset }.AllTracked := by
  intro i k hk hkp
  obtain ⟨component', info', t'⟩ := ht i k hk hkp
  refine ⟨component', info', t'.frame (Function.update_of_ne ?_ _ _) rfl⟩
  rintro rfl
  exact hne i k hk hkp t'.component_eq

theorem AllTracked.openFile (ht : d.AllTracked) (object : ObjectPtr) (component : Component)
    (origin : Origin) (flags attrs : UInt32) (env : OpenEnv) :
    (d.openFile object component origin flags attrs env).2.AllTracked := by
  unfold Dataset.openFile
  split
  · exact ht
  · rename_i hdir
    split
    · rename_i hentry
      split_ifs
      · exact ht
      · exact ht
      · exact ht
      · exact ht
      · refine AllTracked.openHandle (ht.update _ _ fun i k hk hkp hc => ?_) object
          (Function.update_self ..) rfl true false origin flags env
        obtain ⟨info, he, -, -⟩ := ht.entry_eq hk hkp hc
        rw [hentry] at he
        cases he
    · rename_i info hentry
      split
      · exact ht
      · exact ht.openHandle object hentry (by simpa [Database.isDirectory, hentry] using hdir)
          false _ origin flags env

theorem openFile_logs (object : ObjectPtr) (component : Component) (origin : Origin)
    (flags attrs : UInt32) (env : OpenEnv) :
    let d' := (d.openFile object component origin flags attrs env).2
    d'.updated = d.updated ∧ d'.destroyed = d.destroyed := by
  unfold Dataset.openFile
  grind [openHandle_logs]

theorem AllTracked.removeIw (ht : d.AllTracked) (component : Component) (empty refused : Bool) :
    (d.removeIw component empty refused).AllTracked := by
  unfold Dataset.removeIw
  split
  · exact ht
  · rename_i info hentry
    extract_lets erase
    have herase (d : Dataset) (ht : d.AllTracked)
        (hne : ∀ i k, d.fileIdToHandle.find? i = some k → k.deletePending = false →
          k.component ≠ component) : (erase d).AllTracked := by
      unfold erase
      split_ifs
      · exact ht
      · exact ht.update _ _ hne
    clear_value erase
    split_ifs with hdir hempty
    · refine herase d ht fun i k hk hkp hc => ?_
      obtain ⟨info', he, hfile, -⟩ := ht.entry_eq hk hkp hc
      rw [hentry] at he
      obtain rfl := Option.some.inj he
      simp [hfile] at hdir
    · exact ht
    · split
      · rename_i hnone
        refine herase d ht fun i k hk hkp hc => ?_
        obtain ⟨info', he, -, hh⟩ := ht.entry_eq hk hkp hc
        rw [hentry] at he
        obtain rfl := Option.some.inj he
        simp [hh, hk] at hnone
      · rename_i id h hsome
        obtain ⟨hpath, hf⟩ : d.openHandles.find? info.path = some id ∧
            d.fileIdToHandle.find? id = some h := by
          simp only [Option.bind_eq_some_iff, Option.map_eq_some_iff] at hsome
          grind
        split_ifs
        · -- the file that loses its names is the only one with this path
          have hne (i : FileId) (k : OpenFile) (hk : (d.fileIdToHandle.insert id
              h.setDeletePending).find? i = some k) (hkp : k.deletePending = false) :
              i ≠ id ∧ d.fileIdToHandle.find? i = some k := by
            rw [OrdMap.find?_insert] at hk
            split_ifs at hk with hi
            · obtain rfl := Option.some.inj hk
              cases hkp
            · exact ⟨hi, hk⟩
          refine herase _ (fun i k hk hkp => ?_) fun i k hk hkp hc => ?_
          · obtain ⟨hi, hk⟩ := hne i k hk hkp
            obtain ⟨component', info', t'⟩ := ht i k hk hkp
            have hp : info'.path ≠ info.path := fun he => by
              have := t'.handle_eq
              rw [he, hpath] at this
              exact hi (Option.some.inj this).symm
            exact ⟨component', info', t'.frame rfl (OrdMap.find?_erase_of_ne _ hp)⟩
          · obtain ⟨hi, hk⟩ := hne i k hk hkp
            obtain ⟨info', he, -, hh⟩ := ht.entry_eq hk hkp hc
            rw [hentry] at he
            obtain rfl := Option.some.inj he
            rw [hpath] at hh
            exact hi (Option.some.inj hh).symm
        · exact ht

theorem removeIw_logs (component : Component) (empty refused : Bool) :
    (d.removeIw component empty refused).updated = d.updated ∧
      (d.removeIw component empty refused).destroyed = d.destroyed := by
  unfold Dataset.removeIw
  grind

/-! ### Runs -/

theorem onFile_logs (context : Context) (remainingSpace : Nat) (request : Request)
    (done : OpenFile → OpenFile) :
    (d.onFile id context remainingSpace request done).updated = d.updated ∧
      (d.onFile id context remainingSpace request done).destroyed = d.destroyed := by
  unfold Dataset.onFile
  split <;> exact ⟨rfl, rfl⟩

theorem WritesBack.of_logs (hw : d.WritesBack)
    (h : d'.updated = d.updated ∧ d'.destroyed = d.destroyed) : d'.WritesBack :=
  ⟨h.1 ▸ hw.updated, h.2 ▸ hw.destroyed⟩

theorem AllTracked.step {e : DatasetEvent} (ht : d.AllTracked) (hw : d.WritesBack)
    (hc : d.UpdatesSafely e) (hs : d.step e = some d') : d'.AllTracked ∧ d'.WritesBack := by
  cases e with
  | openFile object component origin flags attrs env =>
    simp only [Dataset.step, Option.ite_none_left_eq_some, Option.some.injEq] at hs
    obtain ⟨-, rfl⟩ := hs
    exact ⟨ht.openFile _ _ _ _ _ _, hw.of_logs (openFile_logs ..)⟩
  | writeFile id context object origin offset length remainingSpace written =>
    obtain rfl := Option.some.inj hs
    refine ⟨ht.onFile _ _ _ _ fun h => ?_, hw.of_logs (onFile_logs ..)⟩
    cases written with
    | none => exact .refl h
    | some n => exact (Touched.refl h).wrote _ _
  | truncateFile id context object origin offset done =>
    obtain rfl := Option.some.inj hs
    refine ⟨ht.onFile _ _ _ _ fun h => ?_, hw.of_logs (onFile_logs ..)⟩
    cases done
    · exact .refl h
    · exact (Touched.refl h).truncated _
  | chmodFile id attrs attrsMask =>
    obtain rfl := Option.some.inj hs
    unfold Dataset.chmodFile
    split
    · exact ⟨ht, hw⟩
    · rename_i h hf
      exact ⟨ht.putFile hf ((Touched.refl h).chmod _ _), hw.of_logs ⟨rfl, rfl⟩⟩
  | lockRequest id context request =>
    simp only [Dataset.step, Option.ite_none_right_eq_some, Option.some.injEq] at hs
    obtain ⟨-, rfl⟩ := hs
    exact ⟨ht.onFile _ _ _ _ .refl, hw.of_logs (onFile_logs ..)⟩
  | fileUpdateDatabase id reply changeTime =>
    obtain rfl := Option.some.inj hs
    split
    · exact ⟨ht, hw⟩
    · rename_i h hf
      have hr := hc.refusal (h, reply) (by simp [updates, hf])
      have hu := updates_fileUpdateDatabase changeTime ht hf hr
      exact ⟨ht.of_updates hu, hw.of_updates hu⟩
  | closeFile id object origin reply changeTime =>
    obtain rfl := Option.some.inj hs
    refine ht.closeFile _ hw object origin fun h hf ho hv => ?_
    exact hc.refusal (h, reply) (by simpa [updates, hf, hv] using ho)
  | objectRelease object =>
    obtain rfl := Option.some.inj hs
    exact ht.objectRelease hw object hc.release
  | removeIw component empty refused =>
    obtain rfl := Option.some.inj hs
    exact ⟨ht.removeIw _ _ _, hw.of_logs (removeIw_logs ..)⟩

end Dataset

/-- In a run that updates safely, whatever is destroyed has its size and attributes in the
database unless its last update failed, and every update that succeeds writes both. -/
theorem writesBack_of_meets {database : Database} {version : Nat} {d : Dataset}
    {tr : List (Dataset × DatasetEvent)}
    (h : Run Dataset.step (Dataset.start database version) tr d)
    (hc : Meets Dataset.UpdatesSafely tr) : Always Dataset.WritesBack tr d := by
  have hstart : (Dataset.start database version).AllTracked ∧
      (Dataset.start database version).WritesBack := by
    refine ⟨fun id h hf => ?_, ⟨fun x hx => ?_, fun x hx => ?_⟩⟩
    · simp [Dataset.start] at hf
    · simp [Dataset.start] at hx
    · simp [Dataset.start] at hx
  have hall := h.always_of_meets (P := fun d => d.AllTracked ∧ d.WritesBack) hstart
    (fun s e t hI hc hs => hI.1.step hI.2 hc hs) hc
  exact ⟨fun x hx => (hall.1 x hx).2, hall.2.2⟩

/-- A dataset with one file, of ten bytes. -/
def oneFile : Database :=
  Function.update (fun _ => none) [0x61] (some {
    directory := false
    perm := VSSI_ATTR_ARCHIVE
    size := 10
    path := 5
    version := 1
    mtime := 0 })

def readWrite : UInt32 :=
  VSSI_FILE_OPEN_READ ||| VSSI_FILE_OPEN_WRITE ||| VSSI_FILE_SHARE_READ ||| VSSI_FILE_SHARE_WRITE

def openA : DatasetEvent :=
  .openFile 1 [0x61] (2 ^ 32 + 1) readWrite 0 ⟨0, false, 0, none, 9, 0⟩

def writeTwentyBytes : DatasetEvent :=
  .writeFile 9 0 1 (2 ^ 32 + 1) 0 20 1000 (some 20)

/-- A file is written, its update refused once, and closed. -/
theorem writesBack_of_meets_closed :
    ∃ tr d, Run Dataset.step (Dataset.start oneFile 1) tr d ∧ tr.length = 4 ∧
      Always Dataset.WritesBack tr d := by
  have he : exec Dataset.step (Dataset.start oneFile 1)
      [openA, writeTwentyBytes, .fileUpdateDatabase 9 .refusesSize 3,
        .closeFile 9 1 (2 ^ 32 + 1) .ok 4] = some _ := rfl
  have hc : Meets Dataset.UpdatesSafely (trace Dataset.step (Dataset.start oneFile 1)
      [openA, writeTwentyBytes, .fileUpdateDatabase 9 .refusesSize 3,
        .closeFile 9 1 (2 ^ 32 + 1) .ok 4]).reverse := by
    decide
  exact ⟨_, _, run_trace he, rfl, writesBack_of_meets (run_trace he) hc⟩

def disconnect : List DatasetEvent := [openA, writeTwentyBytes, .objectRelease 1]

def refuseThenUpdate : List DatasetEvent :=
  [openA, .chmodFile 9 VSSI_ATTR_READONLY VSSI_ATTR_READONLY,
    .fileUpdateDatabase 9 .refusesPermission 2, .fileUpdateDatabase 9 .ok 3]

/-- A client that writes and disconnects leaves the old size in the database; and a mode
change whose update is refused once never reaches it. -/
theorem not_writesBack_disconnect :
    (∃ tr d, Run Dataset.step (Dataset.start oneFile 1) tr d ∧
      tr.map Prod.snd = disconnect.reverse ∧ ¬d.WritesBack ∧
      ∃ x ∈ d.destroyed, x.1.deletePending = false ∧ x.1.lastUpdateFailed = false ∧
        x.1.size = 20 ∧ x.2.map ComponentInfo.size = some 10) ∧
    ∃ tr d, Run Dataset.step (Dataset.start oneFile 1) tr d ∧
      tr.map Prod.snd = refuseThenUpdate.reverse ∧ ¬d.WritesBack ∧
      ∃ x ∈ d.updated, x.1.attrs = VSSI_ATTR_ARCHIVE ||| VSSI_ATTR_READONLY ∧
        x.2.map ComponentInfo.perm = some VSSI_ATTR_ARCHIVE := by
  have hdisconnect : exec Dataset.step (Dataset.start oneFile 1) disconnect = some _ := rfl
  have hrefuse : exec Dataset.step (Dataset.start oneFile 1) refuseThenUpdate = some _ := rfl
  refine ⟨⟨_, _, run_trace hdisconnect, rfl, fun hw => ?_, _, .head _, by decide⟩,
    ⟨_, _, run_trace hrefuse, rfl, fun hw => ?_, _, .head _, by decide⟩⟩
  · exact absurd (hw.destroyed _ (.head _) rfl rfl) (by decide)
  · exact absurd (hw.updated _ (.head _)) (by decide)

end PersonalCloud.StorageNode
