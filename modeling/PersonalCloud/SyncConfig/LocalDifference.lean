import PersonalCloud.SyncConfig.LocalScan

/-!
# What a full local scan finds

The difference between the local tree and the sync history, stated without regard to any order
of visits: for each valid local entry how it differs from its row, and for each row whether
its entry has vanished.

## Main results

* `scan_logs_difference` — a scan ends, with one entry for each path in the log, and with this
  difference where names are not ambiguous, except that a directory without component id is logged
  again and a file that was never downloaded is left alone.
-/

namespace PersonalCloud.SyncConfig

open PersonalCloud.Lib

/-- No directory holds two valid names that the policy does not tell apart. -/
def Listing.Distinct (c : CasePolicy) : Listing → Prop
  | nil => True
  | file name _ rest =>
    (c.IsValidDirEntry name → c.convertCase name ∉ LocalScan.pathExists c rest) ∧ rest.Distinct c
  | dir name sub rest =>
    (c.IsValidDirEntry name → c.convertCase name ∉ LocalScan.pathExists c rest) ∧
      sub.Distinct c ∧ rest.Distinct c

instance Listing.decidableDistinct (c : CasePolicy) :
    (listing : Listing) → Decidable (listing.Distinct c)
  | nil => .isTrue trivial
  | file name _ rest =>
    have := rest.decidableDistinct c
    inferInstanceAs (Decidable ((c.IsValidDirEntry name → _) ∧ rest.Distinct c))
  | dir name sub rest =>
    have := sub.decidableDistinct c
    have := rest.decidableDistinct c
    inferInstanceAs (Decidable ((c.IsValidDirEntry name → _) ∧ sub.Distinct c ∧ rest.Distinct c))

namespace LocalScan

/-- The law of the history table, and no name with a separator. -/
structure IsHistory (c : CasePolicy) (history : List HistoryRow) : Prop where
  derived : HistoryTree.Derived c history
  keyed : Table.Keyed (fun r : HistoryRow => c.fold r.path) history
  names : ∀ r ∈ history, '/' ∉ (c.convertCase r.name).toList

section Difference

variable (c : CasePolicy) (history : List HistoryRow) (root : Listing)

/-- A directory of the local tree, reached by valid names. -/
inductive LocalDirAt : String → Listing → Prop where
  | root : LocalDirAt "" root
  | sub {dir name : String} {listing sub : Listing} : LocalDirAt dir listing →
      (name, LocalEntry.dir sub) ∈ listing.entries → c.IsValidDirEntry name →
      LocalDirAt (relPath dir name) sub

/-- A valid entry of the local tree. -/
def LocalAt (dir name : String) (entry : LocalEntry) : Prop :=
  ∃ listing, LocalDirAt c root dir listing ∧ (name, entry) ∈ listing.entries ∧
    c.IsValidDirEntry name

/-- The row stands for a path at which there is a local file. -/
def IsFileNow (r : HistoryRow) : Prop :=
  ∃ dir name mtime, LocalAt c root dir name (.file mtime) ∧ c.fold r.path = c.fold (dir, name)

/-- The entry of a row has vanished: from a directory that is still there, or with the
directory it was in. -/
inductive Vanished : HistoryRow → Prop where
  | top {r : HistoryRow} {dir : String} {listing : Listing} : r ∈ history → ¬ r.IsRoot →
      LocalDirAt c root dir listing → c.convertCase r.parentPath = c.convertCase dir →
      c.convertCase r.name ∉ pathExists c listing → Vanished r
  | under {r q : HistoryRow} : r ∈ history → ¬ r.IsRoot → Vanished q → q.isDir →
      c.convertCase r.parentPath = c.convertCase q.relPath → Vanished r
  | replaced {r q : HistoryRow} : r ∈ history → ¬ r.IsRoot → q ∈ history → q.isDir →
      IsFileNow c root q → c.convertCase r.parentPath = c.convertCase q.relPath → Vanished r

/-- The difference between the local tree and the history. -/
inductive Difference : UploadEntry → Prop where
  | create {dir name : String} {entry : LocalEntry} : LocalAt c root dir name entry →
      HistoryTree.get c dir name history = .error .rowNotFound →
      Difference (created dir name entry.isDir)
  | update {dir name : String} {mtime : UInt64} {row : HistoryRow} :
      LocalAt c root dir name (.file mtime) → HistoryTree.get c dir name history = .ok row →
      row.isDir = false → mtime ≠ row.localMtime.getD 0 →
      Difference (uploaded dir name false .update row)
  | change {dir name : String} {entry : LocalEntry} {row : HistoryRow} :
      LocalAt c root dir name entry → HistoryTree.get c dir name history = .ok row →
      row.isDir ≠ entry.isDir → Difference (changed dir name row)
  | deleteFile {row : HistoryRow} : Vanished c history root row → row.isDir = false →
      WasSynced row → Difference (fileDelete row)
  | deleteDir {row : HistoryRow} : Vanished c history root row → row.isDir →
      Difference (dirDelete row)

/-- A known directory without component id is created again. -/
def Recovered (x : UploadEntry) : Prop :=
  ∃ dir name sub row, LocalAt c root dir name (.dir sub) ∧
    HistoryTree.get c dir name history = .ok row ∧ row.isDir ∧ row.compId = none ∧
    x = uploaded dir name true .create row

/-- The change of a file that is on the server and was not downloaded yet. -/
def NeverDownloaded (x : UploadEntry) : Prop :=
  x.uploadAction = .changeFileOrDirType ∧ x.isDir = false ∧ x.revision = none

/-- What a scan leaves in the log. -/
def Wanted (x : UploadEntry) : Prop :=
  Difference c history root x ∧ ¬ NeverDownloaded x ∨ Recovered c history root x

/-- The row's directories lead, row by row, up to the root. -/
def IsTree : Prop :=
  ∀ r ∈ history, ¬ r.IsRoot → r.parentPath = "" ∨
    ∃ q ∈ history, ¬ q.IsRoot ∧ q.isDir ∧ c.convertCase r.parentPath = c.convertCase q.relPath

/-- There is no local entry at the path of the row. -/
def Gone (r : HistoryRow) : Prop :=
  r ∈ history ∧ ¬ r.IsRoot ∧
    ∀ dir name entry, LocalAt c root dir name entry → c.fold (dir, name) ≠ c.fold r.path

end Difference

/-! ## The local tree -/

variable {c : CasePolicy} {history : List HistoryRow} {root listing : Listing} {dir name : String}
  {entry : LocalEntry} {fuel : ℕ} {r q : HistoryRow} {x y : UploadEntry}

theorem convertCase_ne_empty (h : c.IsValidDirEntry name) : c.convertCase name ≠ "" :=
  h.1

theorem not_mem_convertCase (h : c.IsValidDirEntry name) :
    '/' ∉ (c.convertCase name).toList := by
  intro hmem
  obtain ⟨-, -, -, -, -, hchars⟩ := h
  exact List.any_eq_false.1 hchars _ hmem (by decide)

/-- A folded path determines the folded directory and name. -/
theorem fold_of_convertCase_relPath (hc : c.Lawful) {p p' n n' : String}
    (hn : c.convertCase n ≠ "" ∧ '/' ∉ (c.convertCase n).toList)
    (hn' : c.convertCase n' ≠ "" ∧ '/' ∉ (c.convertCase n').toList)
    (h : c.convertCase (relPath p n) = c.convertCase (relPath p' n')) :
    c.convertCase p = c.convertCase p' ∧ c.convertCase n = c.convertCase n' := by
  rw [hc.convertCase_relPath, hc.convertCase_relPath] at h
  exact (relPath_inj hn hn').1 h

theorem mem_pathExists : c.convertCase name ∈ pathExists c listing ↔
    ∃ n e, (n, e) ∈ listing.entries ∧ c.IsValidDirEntry n ∧ c.convertCase n = c.convertCase name := by
  simp only [pathExists, List.mem_map, List.mem_filter, decide_eq_true_eq, Prod.exists]
  exact exists₂_congr fun n e => by tauto

theorem Distinct.entry_eq {n n' : String} {e e' : LocalEntry} (h : listing.Distinct c)
    (he : (n, e) ∈ listing.entries) (he' : (n', e') ∈ listing.entries)
    (hn : c.IsValidDirEntry n) (hn' : c.IsValidDirEntry n')
    (heq : c.convertCase n = c.convertCase n') : n = n' ∧ e = e' := by
  have hnot : ∀ {rest : Listing} {m m' : String} {d : LocalEntry},
      (c.IsValidDirEntry m → c.convertCase m ∉ pathExists c rest) → c.IsValidDirEntry m →
      (m', d) ∈ rest.entries → c.IsValidDirEntry m' → c.convertCase m' ≠ c.convertCase m :=
    fun hrest hm hmem hm' heq => hrest hm (mem_pathExists.2 ⟨_, _, hmem, hm', heq⟩)
  induction listing with
  | nil => cases he
  | file m t rest ih =>
    obtain ⟨hm, hrest⟩ := h
    rw [Listing.entries, List.mem_cons] at he he'
    rcases he with he | he <;> rcases he' with he' | he'
    · cases he; cases he'; exact ⟨rfl, rfl⟩
    · cases he; exact absurd heq.symm (hnot hm hn he' hn')
    · cases he'; exact absurd heq (hnot hm hn' he hn)
    · exact ih hrest he he'
  | dir m sub rest _ ih =>
    obtain ⟨hm, -, hrest⟩ := h
    rw [Listing.entries, List.mem_cons] at he he'
    rcases he with he | he <;> rcases he' with he' | he'
    · cases he; cases he'; exact ⟨rfl, rfl⟩
    · cases he; exact absurd heq.symm (hnot hm hn he' hn')
    · cases he'; exact absurd heq (hnot hm hn' he hn)
    · exact ih hrest he he'

theorem Distinct.sub {sub : Listing} (h : listing.Distinct c)
    (he : (name, LocalEntry.dir sub) ∈ listing.entries) : sub.Distinct c := by
  induction listing with
  | nil => cases he
  | file m t rest ih =>
    rw [Listing.entries, List.mem_cons] at he
    rcases he with he | he
    · cases he
    · exact ih h.2 he
  | dir m sub' rest _ ih =>
    rw [Listing.entries, List.mem_cons] at he
    rcases he with he | he
    · cases he
      exact h.2.1
    · exact ih h.2.2 he

theorem LocalDirAt.distinct (hroot : root.Distinct c) (h : LocalDirAt c root dir listing) :
    listing.Distinct c := by
  induction h with
  | root => exact hroot
  | sub _ he _ ih => exact Distinct.sub ih he

theorem convertCase_relPath_ne_empty (hc : c.Lawful) (hn : c.IsValidDirEntry name) :
    c.convertCase (relPath dir name) ≠ "" := by
  rw [hc.convertCase_relPath]
  intro h0
  have hlt := length_relPath_lt (c.convertCase dir) (convertCase_ne_empty hn)
  rw [h0] at hlt
  simp at hlt

/-- The policy tells the directories of a tree apart. -/
theorem LocalDirAt.eq (hc : c.Lawful) (hroot : root.Distinct c) {dir' : String}
    {listing' : Listing} (h : LocalDirAt c root dir listing) (h' : LocalDirAt c root dir' listing')
    (heq : c.convertCase dir = c.convertCase dir') : dir = dir' ∧ listing = listing' := by
  have hempty : c.convertCase "" = "" := (hc.convertCase_eq_empty "").2 rfl
  induction h generalizing dir' listing' with
  | root =>
    cases h' with
    | root => exact ⟨rfl, rfl⟩
    | sub _ _ hn' => exact absurd (heq.symm.trans hempty) (convertCase_relPath_ne_empty hc hn')
  | sub hdir he hn ih =>
    cases h' with
    | root => exact absurd (heq.trans hempty) (convertCase_relPath_ne_empty hc hn)
    | sub hdir' he' hn' =>
      obtain ⟨hp, hname⟩ := fold_of_convertCase_relPath hc ⟨hn.1, not_mem_convertCase hn⟩
        ⟨hn'.1, not_mem_convertCase hn'⟩ heq
      obtain ⟨rfl, rfl⟩ := ih hdir' hp
      obtain ⟨rfl, hsub⟩ := Distinct.entry_eq (hdir.distinct hroot) he he' hn hn' hname
      cases hsub
      exact ⟨rfl, rfl⟩

/-- The policy tells the entries of a tree apart. -/
theorem LocalAt.eq (hc : c.Lawful) (hroot : root.Distinct c) {dir' name' : String}
    {entry' : LocalEntry} (h : LocalAt c root dir name entry)
    (h' : LocalAt c root dir' name' entry') (heq : c.fold (dir, name) = c.fold (dir', name')) :
    dir = dir' ∧ name = name' ∧ entry = entry' := by
  obtain ⟨l, hl, he, hn⟩ := h
  obtain ⟨l', hl', he', hn'⟩ := h'
  obtain ⟨hp, hname⟩ := Prod.mk.inj heq
  obtain ⟨rfl, rfl⟩ := hl.eq hc hroot hl' hp
  exact ⟨rfl, Distinct.entry_eq (hl.distinct hroot) he he' hn hn' hname⟩

theorem mem_subDirs {d d' : LocalDir} : d' ∈ subDirs c d ↔
    ∃ n sub, (n, LocalEntry.dir sub) ∈ d.2.entries ∧ c.IsValidDirEntry n ∧
      d' = (relPath d.1 n, sub) := by
  rw [subDirs, List.mem_filterMap]
  constructor
  · rintro ⟨⟨n, e⟩, he, hsub⟩
    obtain ⟨hn, hsub⟩ := Option.ite_none_right_eq_some.1 hsub
    cases e with
    | file mtime => cases hsub
    | dir sub => exact ⟨n, sub, he, hn, (Option.some.inj hsub).symm⟩
  · rintro ⟨n, sub, he, hn, rfl⟩
    exact ⟨(n, .dir sub), he, if_pos hn⟩

/-- The scan reads the directories of the tree. -/
theorem mem_scannedDirs (hfuel : root.size < fuel) :
    (dir, listing) ∈ scannedDirs c fuel root ↔ LocalDirAt c root dir listing := by
  have hweight : (([("", root)] : List LocalDir).map dirWeight).sum ≤ fuel := by
    simpa [dirWeight_mk] using Nat.succ_le_of_lt hfuel
  rw [scannedDirs, Worklist.mem_visits decreasing_subDirs hweight]
  simp only [List.mem_singleton, exists_eq_left]
  constructor
  · intro h
    suffices ∀ d : LocalDir, Relation.ReflTransGen (fun a b => b ∈ subDirs c a) ("", root) d →
        LocalDirAt c root d.1 d.2 from this _ h
    intro d hd
    induction hd with
    | refl => exact .root
    | tail _ hstep ih =>
      obtain ⟨n, sub, he, hn, rfl⟩ := mem_subDirs.1 hstep
      exact .sub ih he hn
  · intro h
    induction h with
    | root => exact .refl
    | sub _ he hn ih => exact .tail ih (mem_subDirs.2 ⟨_, _, he, hn, rfl⟩)

/-! ## The history -/

theorem get_eq_ok_iff (hh : IsHistory c history) :
    HistoryTree.get c dir name history = .ok r ↔
      r ∈ history ∧ c.fold r.path = c.fold (dir, name) := by
  rw [HistoryTree.get_eq_asMap hh.derived]
  constructor
  · intro h
    exact Table.key_of_asMap (HistoryTree.answer_injective (h.trans rfl))
  · rintro ⟨hr, hpath⟩
    rw [← hpath, hh.keyed.asMap_of_mem hr]
    rfl

theorem get_eq_error_or (c : CasePolicy) (history : List HistoryRow) (dir name : String) :
    HistoryTree.get c dir name history = .error .rowNotFound ∨
      ∃ r, HistoryTree.get c dir name history = .ok r := by
  cases h : HistoryTree.get c dir name history with
  | error e => exact .inl (by cases e; rfl)
  | ok r => exact .inr ⟨r, rfl⟩

theorem Vanished.mem (h : Vanished c history root r) : r ∈ history ∧ ¬ r.IsRoot := by
  cases h <;> exact ⟨‹_›, ‹_›⟩

theorem name_ok (hc : c.Lawful) (hh : IsHistory c history) (hr : r ∈ history)
    (hroot : ¬ r.IsRoot) :
    c.convertCase r.name ≠ "" ∧ '/' ∉ (c.convertCase r.name).toList :=
  ⟨fun h0 => hroot ((hc.convertCase_eq_empty _).1 h0), hh.names r hr⟩

/-- A local directory at the path of a row, and what the row's entry is. -/
theorem exists_of_localDirAt (hc : c.Lawful) (hh : IsHistory c history) (hq : q ∈ history)
    (hqroot : ¬ q.IsRoot) (h : LocalDirAt c root dir listing)
    (heq : c.convertCase q.relPath = c.convertCase dir) :
    ∃ p n, LocalAt c root p n (.dir listing) ∧ c.fold q.path = c.fold (p, n) := by
  cases h with
  | root =>
    refine absurd heq ?_
    have hlt := length_relPath_lt (c.convertCase q.parentPath) (name_ok hc hh hq hqroot).1
    rw [HistoryRow.relPath, hc.convertCase_relPath, (hc.convertCase_eq_empty "").2 rfl]
    intro h0
    rw [h0] at hlt
    simp at hlt
  | @sub p n l _ hdir he hn =>
    refine ⟨p, n, ⟨l, hdir, he, hn⟩, ?_⟩
    obtain ⟨hp, hname⟩ := fold_of_convertCase_relPath hc (name_ok hc hh hq hqroot)
      ⟨hn.1, not_mem_convertCase hn⟩ heq
    exact Prod.ext hp hname

theorem IsFileNow.not_isRoot (hc : c.Lawful) (h : IsFileNow c root q) : ¬ q.IsRoot := by
  intro h0
  obtain ⟨p, n, t, ⟨-, -, -, hn⟩, hfold⟩ := h
  exact hn.1 ((Prod.mk.inj hfold).2.symm.trans ((hc.convertCase_eq_empty _).2 h0))

/-- Where a row has vanished, there is no local entry. -/
theorem Vanished.gone (hc : c.Lawful) (hh : IsHistory c history) (hroot : root.Distinct c)
    (h : Vanished c history root r) : Gone c history root r := by
  refine ⟨h.mem.1, h.mem.2, ?_⟩
  induction h with
  | top _ _ hdir hp hn =>
    rintro d n e ⟨l, hl, he, hvalid⟩ heq
    obtain ⟨hd, hname⟩ := Prod.mk.inj heq
    obtain ⟨rfl, rfl⟩ := hl.eq hc hroot hdir (hd.trans hp)
    exact hn (mem_pathExists.2 ⟨n, e, he, hvalid, hname⟩)
  | under hr hrr hq hqd hp ih =>
    rintro d n e ⟨l, hl, he, hvalid⟩ heq
    obtain ⟨hd, -⟩ := Prod.mk.inj heq
    obtain ⟨p, m, hat, hfold⟩ := exists_of_localDirAt hc hh hq.mem.1 hq.mem.2 hl
      (hp.symm.trans hd.symm)
    exact ih p m _ hat hfold.symm
  | replaced hr hrr hq hqd hfile hp =>
    rintro d n e ⟨l, hl, he, hvalid⟩ heq
    obtain ⟨hd, -⟩ := Prod.mk.inj heq
    obtain ⟨p, m, hat, hfold⟩ := exists_of_localDirAt hc hh hq (hfile.not_isRoot hc) hl
      (hp.symm.trans hd.symm)
    obtain ⟨p', m', t, hat', hfold'⟩ := hfile
    obtain ⟨-, -, hent⟩ := hat.eq hc hroot hat' (hfold.symm.trans hfold')
    cases hent

/-- In a tree, what is gone has vanished. -/
theorem Gone.vanished (hc : c.Lawful) (htree : IsTree c history)
    (h : Gone c history root r) : Vanished c history root r := by
  -- the induction is on the length of the path, which the parent's is below
  induction hk : (c.convertCase r.relPath).length using Nat.strong_induction_on
    generalizing r with
  | _ k ih =>
    obtain ⟨hr, hrr, hgone⟩ := h
    have htop : ∀ {d : String} {l : Listing}, LocalDirAt c root d l →
        c.convertCase r.parentPath = c.convertCase d → Vanished c history root r := by
      intro d l hdir hd
      refine .top hr hrr hdir hd fun hmem => ?_
      obtain ⟨n, e, he, hn, hname⟩ := mem_pathExists.1 hmem
      exact hgone d n e ⟨l, hdir, he, hn⟩ (Prod.ext hd.symm hname)
    rcases htree r hr hrr with hempty | ⟨q, hq, hqr, hqd, hp⟩
    · exact htop .root (by rw [hempty])
    by_cases hat : ∃ d n e, LocalAt c root d n e ∧ c.fold (d, n) = c.fold q.path
    · obtain ⟨d, n, e, ⟨l, hl, he, hn⟩, hfold⟩ := hat
      cases e with
      | file mtime => exact .replaced hr hrr hq hqd ⟨d, n, mtime, ⟨l, hl, he, hn⟩, hfold.symm⟩ hp
      | dir sub =>
        refine htop (.sub hl he hn) (hp.trans ?_)
        obtain ⟨hd, hname⟩ := Prod.mk.inj hfold
        rw [HistoryRow.relPath, hc.convertCase_relPath, hc.convertCase_relPath]
        exact congrArg₂ relPath hd.symm hname.symm
    · refine .under hr hrr (ih _ ?_ ⟨hq, hqr, fun d n e he hf => hat ⟨d, n, e, he, hf⟩⟩ rfl) hqd hp
      rw [← hk]
      exact length_lt_of_child hc hrr hp

theorem vanished_iff_gone (hc : c.Lawful) (hh : IsHistory c history) (hroot : root.Distinct c)
    (htree : IsTree c history) : Vanished c history root r ↔ Gone c history root r :=
  ⟨fun h => h.gone hc hh hroot, fun h => h.vanished hc htree⟩

/-! ## Decisions are wanted -/

/-- `b` is `q` or a directory below it in the history. -/
abbrev Below (c : CasePolicy) (history : List HistoryRow) : HistoryRow → HistoryRow → Prop :=
  Relation.ReflTransGen fun a b => b ∈ nextDirs c history a

theorem mem_dirDeletes (hc : c.Lawful) (hh : HistoryTree.Derived c history)
    (hfuel : enough c history ≤ fuel) : x ∈ dirDeletes c history fuel q ↔
      ∃ b, Below c history q b ∧ (x ∈ childDeletes c history b ∨ x = dirDelete b) := by
  have hweight : (([q] : List HistoryRow).map (weight c history)).sum ≤ fuel := by
    simpa using (weight_le_enough q).trans hfuel
  simp only [dirDeletes, List.mem_append, List.mem_flatMap, List.mem_map, List.mem_reverse,
    Worklist.mem_visits (decreasing_nextDirs hc hh) hweight, List.mem_singleton, exists_eq_left]
  constructor
  · rintro (⟨b, hb, hx⟩ | ⟨b, hb, rfl⟩)
    · exact ⟨b, hb, .inl hx⟩
    · exact ⟨b, hb, .inr rfl⟩
  · rintro ⟨b, hb, hx | rfl⟩
    · exact .inl ⟨b, hb, hx⟩
    · exact .inr ⟨b, hb, rfl⟩

theorem mem_childDeletes (hh : HistoryTree.Derived c history) :
    x ∈ childDeletes c history q ↔ ∃ r ∈ history, ¬ r.IsRoot ∧ r.isDir = false ∧ WasSynced r ∧
      c.convertCase r.parentPath = c.convertCase q.relPath ∧ x = fileDelete r := by
  simp only [childDeletes, List.mem_map, List.mem_filter, mem_getChildren hh, decide_eq_true_eq,
    Bool.not_eq_true]
  constructor
  · rintro ⟨r, ⟨⟨hr, hp⟩, hrr, hrd, hsync⟩, rfl⟩
    exact ⟨r, hr, hrr, hrd, hsync, hp, rfl⟩
  · rintro ⟨r, hr, hrr, hrd, hsync, hp, rfl⟩
    exact ⟨r, ⟨⟨hr, hp⟩, hrr, hrd, hsync⟩, rfl⟩

/-- A directory of the history that is no longer a local directory. -/
def Ceased (c : CasePolicy) (history : List HistoryRow) (root : Listing) (q : HistoryRow) : Prop :=
  q ∈ history ∧ q.isDir ∧ (Vanished c history root q ∨ IsFileNow c root q)

/-- What is a child of such a directory has vanished. -/
theorem Ceased.child (h : Ceased c history root q) (hr : r ∈ history) (hrr : ¬ r.IsRoot)
    (hp : c.convertCase r.parentPath = c.convertCase q.relPath) : Vanished c history root r := by
  obtain ⟨hq, hqd, hv | hf⟩ := h
  · exact .under hr hrr hv hqd hp
  · exact .replaced hr hrr hq hqd hf hp

theorem Ceased.below (hh : HistoryTree.Derived c history) (h : Ceased c history root q)
    {b : HistoryRow} (hb : Below c history q b) :
    Ceased c history root b ∧ (b = q ∨ Vanished c history root b) := by
  induction hb with
  | refl => exact ⟨h, .inl rfl⟩
  | tail _ hstep ih =>
    obtain ⟨hr, hrr, hrd, hp⟩ := (mem_nextDirs hh).1 hstep
    have hv := ih.1.child hr hrr hp
    exact ⟨⟨hr, hrd, .inl hv⟩, .inr hv⟩

/-- Of what is logged for such a directory, only its own deletion may be unwanted. -/
theorem wanted_of_mem_dirDeletes (hc : c.Lawful) (hh : HistoryTree.Derived c history)
    (hfuel : enough c history ≤ fuel) (h : Ceased c history root q)
    (hx : x ∈ dirDeletes c history fuel q) : Wanted c history root x ∨ x = dirDelete q := by
  obtain ⟨b, hb, hx⟩ := (mem_dirDeletes hc hh hfuel).1 hx
  obtain ⟨hceased, hb⟩ := h.below hh hb
  rcases hx with hx | rfl
  · obtain ⟨r, hr, hrr, hrd, hsync, hp, rfl⟩ := (mem_childDeletes hh).1 hx
    exact .inl (.inl ⟨.deleteFile (hceased.child hr hrr hp) hrd hsync, fun hn => by cases hn.1⟩)
  · rcases hb with rfl | hb
    · exact .inr rfl
    · exact .inl (.inl ⟨.deleteDir hb hceased.2.1, fun hn => by cases hn.1⟩)

/-- The decision about an entry is the difference at its path, up to the two exceptions. -/
theorem wanted_of_entryDecision (hat : LocalAt c root dir name entry)
    (h : entryDecision c history dir name entry = some x) : Wanted c history root x := by
  rcases get_eq_error_or c history dir name with hget | ⟨row, hget⟩
  · simp only [entryDecision, hget] at h
    obtain rfl := Option.some.inj h
    exact .inl ⟨.create hat hget, fun hn => by cases hn.1⟩
  cases entry with
  | file mtime =>
    simp only [entryDecision, hget] at h
    split_ifs at h with hrow hm <;> obtain rfl := Option.some.inj h
    · exact .inl ⟨.change hat hget (by simp [hrow, LocalEntry.isDir]), fun hn => by
        simp [NeverDownloaded, changed, hrow] at hn⟩
    · exact .inl ⟨.update hat hget (by simpa using hrow) hm, fun hn => by cases hn.1⟩
  | dir sub =>
    simp only [entryDecision, hget] at h
    split_ifs at h with hrow hid hrev <;> obtain rfl := Option.some.inj h
    · exact .inr ⟨dir, name, sub, row, hat, hget, hrow, by simpa using hid, rfl⟩
    · refine .inl ⟨.change hat hget (by simp [hrow, LocalEntry.isDir]), fun hn => hrev ?_⟩
      simpa [changed] using hn.2.2

/-- What is wanted is the decision about an entry, or the deletion of a vanished row. -/
theorem Wanted.cases (h : Wanted c history root x) :
    (∃ dir name entry, LocalAt c root dir name entry ∧ x.path = (dir, name) ∧
      entryDecision c history dir name entry = some x) ∨
    ∃ row, Vanished c history root row ∧
      (row.isDir ∧ x = dirDelete row ∨ row.isDir = false ∧ WasSynced row ∧ x = fileDelete row) := by
  rcases h with ⟨hd, hn⟩ | ⟨dir, name, sub, row, hat, hget, hrow, hid, rfl⟩
  · cases hd with
    | @create dir name entry hat hget =>
      exact .inl ⟨dir, name, entry, hat, rfl, by simp [entryDecision, hget]⟩
    | @update dir name mtime row hat hget hrow hm =>
      exact .inl ⟨dir, name, _, hat, rfl, by simp [entryDecision, hget, hrow, hm]⟩
    | @change dir name entry row hat hget hne =>
      refine .inl ⟨dir, name, entry, hat, rfl, ?_⟩
      cases entry with
      | file mtime =>
        have hrow : row.isDir = true := by simpa [LocalEntry.isDir] using hne
        simp [entryDecision, hget, hrow]
      | dir sub =>
        have hrow : row.isDir = false := by simpa [LocalEntry.isDir] using hne
        have hrev : row.revision ≠ none := fun h0 => hn ⟨rfl, hrow, h0⟩
        simp [entryDecision, hget, hrow, hrev]
    | deleteFile hv hrow hsync => exact .inr ⟨_, hv, .inr ⟨hrow, hsync, rfl⟩⟩
    | deleteDir hv hrow => exact .inr ⟨_, hv, .inl ⟨hrow, rfl⟩⟩
  · exact .inl ⟨dir, name, _, hat, rfl, by simp [entryDecision, hget, hrow, hid]⟩

/-- One thing at most is wanted at a path. -/
theorem Wanted.eq (hc : c.Lawful) (hh : IsHistory c history) (hroot : root.Distinct c)
    (hx : Wanted c history root x) (hy : Wanted c history root y)
    (hpath : c.fold x.path = c.fold y.path) : x = y := by
  have hdelete : ∀ {row : HistoryRow} {z : UploadEntry},
      (row.isDir ∧ z = dirDelete row ∨ row.isDir = false ∧ WasSynced row ∧ z = fileDelete row) →
      z.path = row.path := by
    rintro row z (⟨-, rfl⟩ | ⟨-, -, rfl⟩) <;> rfl
  rcases hx.cases with ⟨d, n, e, hat, hp, hdec⟩ | ⟨row, hv, hrow⟩ <;>
    rcases hy.cases with ⟨d', n', e', hat', hp', hdec'⟩ | ⟨row', hv', hrow'⟩
  · obtain ⟨rfl, rfl, rfl⟩ := hat.eq hc hroot hat' (by rwa [← hp, ← hp'])
    exact Option.some.inj (hdec.symm.trans hdec')
  · refine absurd ?_ ((hv'.gone hc hh hroot).2.2 d n e hat)
    rw [← hp, hpath, hdelete hrow']
  · refine absurd ?_ ((hv.gone hc hh hroot).2.2 d' n' e' hat')
    rw [← hp', ← hpath, hdelete hrow]
  · rw [hdelete hrow, hdelete hrow'] at hpath
    obtain rfl := hh.keyed.eq_of_mem hv.mem.1 hv'.mem.1 hpath
    rcases hrow with ⟨hd, rfl⟩ | ⟨hd, -, rfl⟩ <;> rcases hrow' with ⟨hd', rfl⟩ | ⟨hd', -, rfl⟩
    · rfl
    · simp [hd] at hd'
    · simp [hd] at hd'
    · rfl

/-! ## The log after a scan -/

/-- A valid log that holds wanted entries only. -/
def Sound (c : CasePolicy) (history : List HistoryRow) (root : Listing) (log : UploadChangeLog) :
    Prop :=
  log.Valid c ∧ ∀ x ∈ log.entries, Wanted c history root x

theorem Sound.addAll {log : UploadChangeLog} {es : List UploadEntry}
    (h : Sound c history root log) (hes : ∀ x ∈ es, Wanted c history root x) :
    Sound c history root (UploadChangeLog.addAll c es log) := by
  refine ⟨h.1.addAll, fun x hx => ?_⟩
  exact (UploadChangeLog.mem_of_mem_addAll h.1 hx).elim (h.2 x) (hes x)

theorem replacedDir_eq_some (hh : IsHistory c history)
    (h : replacedDir c history dir name entry = some q) :
    q ∈ history ∧ q.isDir ∧ c.fold q.path = c.fold (dir, name) ∧ (∃ mtime, entry = .file mtime) ∧
      entryDecision c history dir name entry = some (changed dir name q) := by
  rcases get_eq_error_or c history dir name with hget | ⟨row, hget⟩
  · simp [replacedDir, hget] at h
  cases entry with
  | dir sub => simp [replacedDir, hget] at h
  | file mtime =>
    simp only [replacedDir, hget] at h
    obtain ⟨hrow, h⟩ := Option.ite_none_right_eq_some.1 h
    obtain rfl := Option.some.inj h
    obtain ⟨hmem, hpath⟩ := (get_eq_ok_iff hh).1 hget
    exact ⟨hmem, hrow, hpath, ⟨mtime, rfl⟩, by simp [entryDecision, hget, hrow]⟩

/-- The entry of a file that has replaced a directory takes the place of its deletion. -/
theorem Sound.entryDecisions (hc : c.Lawful) (hh : IsHistory c history)
    (hfuel : enough c history ≤ fuel) {log : UploadChangeLog} (h : Sound c history root log)
    (hdir : LocalDirAt c root dir listing) (he : (name, entry) ∈ listing.entries) :
    Sound c history root
      (UploadChangeLog.addAll c (entryDecisions c history fuel dir (name, entry)) log) := by
  rw [LocalScan.entryDecisions]
  split_ifs with hvalid
  swap
  · exact h
  have hat : LocalAt c root dir name entry := ⟨listing, hdir, he, hvalid⟩
  cases hrep : replacedDir c history dir name entry with
  | none =>
    refine h.addAll fun x hx => wanted_of_entryDecision hat ?_
    simpa using hx
  | some q =>
    obtain ⟨hq, hqd, hpath, ⟨mtime, rfl⟩, hdec⟩ := replacedDir_eq_some hh hrep
    have hceased : Ceased c history root q := ⟨hq, hqd, .inr ⟨dir, name, mtime, hat, hpath⟩⟩
    simp only [hdec, Option.toList_some, List.flatMap_cons, List.flatMap_nil, List.append_nil,
      UploadChangeLog.addAll_append]
    refine ⟨h.1.addAll.addAll, fun x hx => ?_⟩
    rcases (UploadChangeLog.mem_entries_addAndSetSyncStatus h.1.addAll).1 hx with ⟨hx, hne⟩ | rfl
    · rcases UploadChangeLog.mem_of_mem_addAll h.1 hx with hx | hx
      · exact h.2 x hx
      · refine (wanted_of_mem_dirDeletes hc hh.derived hfuel hceased hx).resolve_right ?_
        rintro rfl
        exact hne hpath
    · exact wanted_of_entryDecision hat hdec

theorem Sound.previousDecisions (hc : c.Lawful) (hh : IsHistory c history)
    (hfuel : enough c history ≤ fuel) {log : UploadChangeLog} (h : Sound c history root log)
    (hdir : LocalDirAt c root dir listing) (hr : r ∈ HistoryTree.getChildren c dir history) :
    Sound c history root
      (UploadChangeLog.addAll c (previousDecisions c history fuel (pathExists c listing) r) log) := by
  obtain ⟨hr, hp⟩ := (mem_getChildren hh.derived).1 hr
  rw [LocalScan.previousDecisions]
  split_ifs with hskip hrd hsync
  · exact h
  · rw [not_or] at hskip
    have hv : Vanished c history root r := .top hr hskip.1 hdir hp hskip.2
    refine h.addAll fun x hx => ?_
    rcases wanted_of_mem_dirDeletes hc hh.derived hfuel ⟨hr, hrd, .inl hv⟩ hx with hx | rfl
    · exact hx
    · exact .inl ⟨.deleteDir hv hrd, fun hn => by cases hn.1⟩
  · rw [not_or] at hskip
    have hv : Vanished c history root r := .top hr hskip.1 hdir hp hskip.2
    refine h.addAll fun x hx => ?_
    obtain rfl := List.mem_singleton.1 hx
    exact .inl ⟨.deleteFile hv (by simpa using hrd) hsync, fun hn => by cases hn.1⟩
  · exact h

/-- All that is decided in a scan. -/
def decisions (c : CasePolicy) (history : List HistoryRow) (fuel : ℕ) (root : Listing) :
    List UploadEntry :=
  (scannedDirs c fuel root).flatMap (dirDecisions c history fuel)

theorem Sound.decisions (hc : c.Lawful) (hh : IsHistory c history)
    (hfuel : enough c history ≤ fuel) (hroot : root.size < fuel) {log : UploadChangeLog}
    (h : Sound c history root log) :
    Sound c history root (UploadChangeLog.addAll c (decisions c history fuel root) log) := by
  refine UploadChangeLog.addAll_flatMap ?_ h
  rintro ⟨dir, listing⟩ hdir log h
  have hdir := (mem_scannedDirs hroot).1 hdir
  rw [dirDecisions, UploadChangeLog.addAll_append]
  refine UploadChangeLog.addAll_flatMap (fun r hr log h => ?_) ?_
  · exact h.previousDecisions hc hh hfuel hdir hr
  · refine UploadChangeLog.addAll_flatMap ?_ h
    rintro ⟨name, entry⟩ he log h
    exact h.entryDecisions hc hh hfuel hdir he

section Complete

variable (hc : c.Lawful) (hh : IsHistory c history) (hfuel : enough c history ≤ fuel)
  (hroot : root.size < fuel)

include hroot

theorem mem_decisions_of_entry (hdir : LocalDirAt c root dir listing)
    (he : (name, entry) ∈ listing.entries) (hx : x ∈ entryDecisions c history fuel dir (name, entry)) :
    x ∈ decisions c history fuel root := by
  refine List.mem_flatMap.2 ⟨(dir, listing), (mem_scannedDirs hroot).2 hdir, ?_⟩
  exact List.mem_append_left _ (List.mem_flatMap.2 ⟨_, he, hx⟩)

theorem mem_decisions_of_local (hat : LocalAt c root dir name entry)
    (hx : entryDecision c history dir name entry = some x) :
    x ∈ decisions c history fuel root := by
  obtain ⟨listing, hdir, he, hn⟩ := hat
  refine mem_decisions_of_entry hroot hdir he ?_
  rw [entryDecisions, if_pos hn]
  exact List.mem_append_right _ (by simp [hx])

include hh

theorem mem_decisions_of_previous (hdir : LocalDirAt c root dir listing) (hr : r ∈ history)
    (hp : c.convertCase r.parentPath = c.convertCase dir)
    (hx : x ∈ previousDecisions c history fuel (pathExists c listing) r) :
    x ∈ decisions c history fuel root := by
  refine List.mem_flatMap.2 ⟨(dir, listing), (mem_scannedDirs hroot).2 hdir, ?_⟩
  exact List.mem_append_right _
    (List.mem_flatMap.2 ⟨r, (mem_getChildren hh.derived).2 ⟨hr, hp⟩, hx⟩)

/-- A directory from which the history is walked. -/
theorem walked_of_isFileNow (hq : q ∈ history) (hqd : q.isDir) (hfile : IsFileNow c root q)
    (hx : x ∈ dirDeletes c history fuel q) : x ∈ decisions c history fuel root := by
  obtain ⟨p, n, mtime, hat, hpath⟩ := hfile
  have hget : HistoryTree.get c p n history = .ok q := (get_eq_ok_iff hh).2 ⟨hq, hpath⟩
  obtain ⟨listing, hdir, he, hn⟩ := hat
  refine mem_decisions_of_entry hroot hdir he ?_
  rw [entryDecisions, if_pos hn]
  exact List.mem_append_left _ (by simpa [replacedDir, hget, hqd] using hx)

/-- A vanished directory is reached by a walk over the history. -/
theorem Vanished.walked (h : Vanished c history root r) (hrd : r.isDir) :
    ∃ q, (∀ x ∈ dirDeletes c history fuel q, x ∈ decisions c history fuel root) ∧
      Below c history q r := by
  induction h with
  | top hr hrr hdir hp hn =>
    refine ⟨_, fun x hx => mem_decisions_of_previous hh hroot hdir hr hp ?_, .refl⟩
    rw [previousDecisions, if_neg (not_or.2 ⟨hrr, hn⟩), if_pos hrd]
    exact hx
  | under hr hrr _ hqd hp ih =>
    obtain ⟨q, hwalk, hbelow⟩ := ih hqd
    exact ⟨q, hwalk, hbelow.tail ((mem_nextDirs hh.derived).2 ⟨hr, hrr, hrd, hp⟩)⟩
  | replaced hr hrr hq hqd hfile hp =>
    exact ⟨_, fun x hx => walked_of_isFileNow hh hroot hq hqd hfile hx,
      .single ((mem_nextDirs hh.derived).2 ⟨hr, hrr, hrd, hp⟩)⟩

include hc hfuel

theorem Vanished.fileDelete_mem (h : Vanished c history root r) (hrd : r.isDir = false)
    (hsync : WasSynced r) : fileDelete r ∈ decisions c history fuel root := by
  cases h with
  | top hr hrr hdir hp hn =>
    refine mem_decisions_of_previous hh hroot hdir hr hp ?_
    rw [previousDecisions, if_neg (not_or.2 ⟨hrr, hn⟩), if_neg (by simp [hrd]), if_pos hsync]
    exact List.mem_singleton_self _
  | under hr hrr hq hqd hp =>
    obtain ⟨d, hwalk, hbelow⟩ := hq.walked hh hroot hqd
    refine hwalk _ ((mem_dirDeletes hc hh.derived hfuel).2 ⟨_, hbelow, .inl ?_⟩)
    exact (mem_childDeletes hh.derived).2 ⟨r, hr, hrr, hrd, hsync, hp, rfl⟩
  | replaced hr hrr hq hqd hfile hp =>
    refine walked_of_isFileNow hh hroot hq hqd hfile
      ((mem_dirDeletes hc hh.derived hfuel).2 ⟨_, .refl, .inl ?_⟩)
    exact (mem_childDeletes hh.derived).2 ⟨r, hr, hrr, hrd, hsync, hp, rfl⟩

/-- All that is wanted is decided. -/
theorem Wanted.mem_decisions (h : Wanted c history root x) :
    x ∈ decisions c history fuel root := by
  rcases h.cases with ⟨dir, name, entry, hat, -, hdec⟩ | ⟨row, hv, ⟨hrd, rfl⟩ | ⟨hrd, hsync, rfl⟩⟩
  · exact mem_decisions_of_local hroot hat hdec
  · obtain ⟨q, hwalk, hbelow⟩ := hv.walked hh hroot hrd
    exact hwalk _ ((mem_dirDeletes hc hh.derived hfuel).2 ⟨row, hbelow, .inr rfl⟩)
  · exact hv.fileDelete_mem hc hh hfuel hroot hrd hsync

end Complete

/-- A full local scan ends, and leaves in the log at most one entry for each path. Where paths and
names are not ambiguous these are exactly the difference between the local tree and the history,
except that a directory without component id is created again and that a file that was never
downloaded is not changed. In a history whose rows form a tree, the rows that have vanished are
those that are gone. -/
theorem scan_logs_difference (hc : c.Lawful) (hd : HistoryTree.Derived c history) (root : Listing)
    (log : UploadChangeLog) :
    (∃ enoughFuel, ∀ fuel, enoughFuel ≤ fuel → ∃ log',
      performFullLocalScan c history fuel root log = some log' ∧
      Table.Keyed (fun x : UploadEntry => c.fold x.path) log'.entries ∧
      (IsHistory c history → root.Distinct c → ∀ x, x ∈ log'.entries ↔
        Difference c history root x ∧ ¬ NeverDownloaded x ∨ Recovered c history root x)) ∧
    (IsHistory c history → root.Distinct c → IsTree c history →
      ∀ r, Vanished c history root r ↔ Gone c history root r) := by
  refine ⟨⟨max (enough c history) (root.size + 1), fun fuel hle => ?_⟩,
    fun hh hroot htree r => vanished_iff_gone hc hh hroot htree⟩
  have hfuel : enough c history ≤ fuel := (le_max_left _ _).trans hle
  have hsize : root.size < fuel := (le_max_right _ _).trans hle
  refine ⟨_, performFullLocalScan_eq hc hd hfuel hsize log,
    UploadChangeLog.valid_clear.addAll.keyed, fun hh hroot x => ?_⟩
  have hclear : Sound c history root log.clear :=
    ⟨UploadChangeLog.valid_clear, fun x hx => (List.not_mem_nil hx).elim⟩
  have hsound := hclear.decisions hc hh hfuel hsize
  constructor
  · exact hsound.2 x
  · intro hx
    -- some entry has the path of what is wanted, and two wanted entries of a path are equal
    obtain ⟨y, hy, hpath⟩ := UploadChangeLog.exists_mem_addAll (c := c) hclear.1
      (.inr (Wanted.mem_decisions hc hh hfuel hsize hx))
    rwa [← Wanted.eq hc hh hroot (hsound.2 y hy) hx hpath]

theorem Difference.get_of_create (h : Difference c history root x)
    (hx : x.uploadAction = .create) :
    HistoryTree.get c x.parentPath x.name history = .error .rowNotFound := by
  cases h with
  | create _ hget => exact hget
  | update => cases hx
  | change => cases hx
  | deleteFile => cases hx
  | deleteDir => cases hx

/-- Names are compared as they are. -/
def exactCase : CasePolicy := ⟨false, id⟩

theorem lawful_exactCase : exactCase.Lawful :=
  ⟨fun _ _ => rfl, fun _ => Iff.rfl⟩

/-- A directory with one file in it, both synced. -/
def someHistory : List HistoryRow :=
  [{ HistoryTree.freshFile "" "d" with isDir := true, compId := some 1 },
    { HistoryTree.freshFile "d" "f" with
        compId := some 2, revision := some 1, localMtime := some 5 }]

/-- The directory is a file now, and there is a new directory. -/
theorem scan_logs_difference_someHistory : ∃ fuel log',
    performFullLocalScan exactCase someHistory fuel (.file "d" 7 (.dir "e" .nil .nil)) ⟨[], 0⟩ =
      some log' ∧
    ∀ x, x ∈ log'.entries ↔ Wanted exactCase someHistory (.file "d" 7 (.dir "e" .nil .nil)) x := by
  have hh : IsHistory exactCase someHistory := ⟨by decide +kernel, by decide +kernel, by decide +kernel⟩
  have hroot : (Listing.file "d" 7 (.dir "e" .nil .nil)).Distinct exactCase := by decide +kernel
  obtain ⟨⟨fuel, hscan⟩, -⟩ := scan_logs_difference lawful_exactCase hh.derived
    (.file "d" 7 (.dir "e" .nil .nil)) ⟨[], 0⟩
  obtain ⟨log', heq, -, hmem⟩ := hscan fuel le_rfl
  exact ⟨fuel, log', heq, hmem hh hroot⟩

/-- A directory without component id, which agrees with the history, is logged. A file that is
on the server only is not, where there is a local directory. Of two files whose names the
policy does not tell apart, one is logged. -/
theorem not_difference_recovered_conflict_variants :
    (∃ log', performFullLocalScan exactCase [{ HistoryTree.freshFile "" "d" with isDir := true }]
        9 (.dir "d" .nil .nil) ⟨[], 0⟩ = some log' ∧
      ¬ ∀ x, x ∈ log'.entries ↔ Difference exactCase
        [{ HistoryTree.freshFile "" "d" with isDir := true }] (.dir "d" .nil .nil) x) ∧
    (∃ log', performFullLocalScan exactCase [{ HistoryTree.freshFile "" "f" with compId := some 1 }]
        9 (.dir "f" .nil .nil) ⟨[], 0⟩ = some log' ∧
      ¬ ∀ x, x ∈ log'.entries ↔ Difference exactCase
        [{ HistoryTree.freshFile "" "f" with compId := some 1 }] (.dir "f" .nil .nil) x) ∧
    ∃ log', performFullLocalScan ⟨true, HistoryTree.upperA⟩ [] 9
        (.file "a" 1 (.file "A" 2 .nil)) ⟨[], 0⟩ = some log' ∧
      ¬ ∀ x, x ∈ log'.entries ↔
        Difference ⟨true, HistoryTree.upperA⟩ [] (.file "a" 1 (.file "A" 2 .nil)) x := by
  refine ⟨⟨_, rfl, fun h => ?_⟩, ⟨_, rfl, fun h => ?_⟩, ⟨_, rfl, fun h => ?_⟩⟩
  · have hd := (h (uploaded "" "d" true .create
      { HistoryTree.freshFile "" "d" with isDir := true })).1 (by decide +kernel)
    exact absurd (hd.get_of_create rfl) (by decide +kernel)
  · have hat : LocalAt exactCase (.dir "f" .nil .nil) "" "f" (.dir .nil) :=
      ⟨_, .root, List.mem_cons_self, by decide +kernel⟩
    have hx := (h (changed "" "f" { HistoryTree.freshFile "" "f" with compId := some 1 })).2
      (.change hat rfl (by decide))
    exact absurd hx (by decide +kernel)
  · have hat : LocalAt ⟨true, HistoryTree.upperA⟩ (.file "a" 1 (.file "A" 2 .nil)) "" "a"
        (.file 1) :=
      ⟨_, .root, List.mem_cons_self, by decide +kernel⟩
    exact absurd ((h (created "" "a" false)).2 (.create hat rfl)) (by decide +kernel)

end LocalScan

end PersonalCloud.SyncConfig
