import PersonalCloud.SyncConfig.UploadPass

/-!
# Changes of type across passes

A row that changes a file into a directory, or the reverse, starts again with the removal of the
old item in every pass.

## Main results

* `survives_of_regular` — such a row is not lost while every pass finds the old item where the
  row says, or does not get an answer to its removal.
-/

namespace PersonalCloud.SyncConfig.UploadPass

open PersonalCloud.Lib

variable (cfg : UploadConfig)

/-- The item that a change of type asks for was created. -/
def Recreated (r : UploadRow) (v : Server) : Prop :=
  ∃ x ∈ v.created, x.path = r.path ∧ x.isDir = !r.isDir

instance (r : UploadRow) (v : Server) : Decidable (Recreated r v) :=
  inferInstanceAs (Decidable (∃ x ∈ v.created, _))

/-- A change of type whose old item was removed left the log with the new item created, or after
more than `max_error_retry_count` failed attempts. -/
def Survives (s : State) : Prop :=
  ∀ x ∈ s.departures, x.1.uploadAction = .changeFileOrDirType →
    x.1.compId.getD 0 ∈ x.2.deleted →
      Recreated x.1 x.2 ∨ cfg.maxErrorRetryCount < x.1.uploadErrCount

instance : DecidablePred (Survives cfg) := fun s =>
  inferInstanceAs (Decidable (∀ x ∈ s.departures, _))

/-- The server does what it is asked, or reports a transient error. -/
def TransientOnly (attempts : ℕ → Attempt Rc) : Prop :=
  ∀ k < numImmediateTransientRetry,
    (attempts k).answer = .ok ∨ (attempts k).answer = .transient

instance : DecidablePred TransientOnly := fun attempts =>
  inferInstanceAs (Decidable (∀ k < numImmediateTransientRetry, _ ∨ (attempts k).answer = _))

/-- All that goes wrong with the server are transient errors. -/
structure TransientEnv (env : Env) : Prop where
  delete : TransientOnly env.delete
  makeDir : TransientOnly env.makeDir
  access : TransientOnly env.access
  post : TransientOnly env.post
  root : env.root.toOption.isSome ∨ env.root = .error .transient ∨ env.root = .error .stopping

instance : DecidablePred TransientEnv := fun env =>
  decidable_of_iff (TransientOnly env.delete ∧ TransientOnly env.makeDir ∧
      TransientOnly env.access ∧ TransientOnly env.post ∧
      (env.root.toOption.isSome ∨ env.root = .error .transient ∨ env.root = .error .stopping))
    ⟨fun ⟨h₁, h₂, h₃, h₄, h₅⟩ => ⟨h₁, h₂, h₃, h₄, h₅⟩, fun ⟨h₁, h₂, h₃, h₄, h₅⟩ =>
      ⟨h₁, h₂, h₃, h₄, h₅⟩⟩

def OnlyTransient (_ : State) : Event → Prop
  | .start _ => True
  | .iterate env => TransientEnv env

instance (s : State) : DecidablePred (OnlyTransient s)
  | .start _ => .isTrue trivial
  | .iterate env => inferInstanceAs (Decidable (TransientEnv env))

/-- The server's id of the parent directory is known, or the parent is the root. -/
def ParentKnown (r : UploadRow) (history : List HistoryRow) : Prop :=
  r.parentPath = "" ∨ (knownCompId cfg r.parentPath history).isSome

instance (r : UploadRow) : DecidablePred (ParentKnown cfg r) := fun _ =>
  inferInstanceAs (Decidable (_ ∨ _))

/-- The create stage finds all it needs: the server's id of the parent directory, and for a file
contents to be uploaded that do not change on the way. -/
def CanCreate (r : UploadRow) (env : Env) (history : List HistoryRow) : Prop :=
  if r.isDir then env.stopAfterParent ∨ ParentKnown cfg r history
  else ∃ file ∈ env.stat, ¬ (cfg.useHash ∧ SameContent r file) ∧
    transfer cfg file env ≠ .error .skip ∧
      ((transfer cfg file env).toOption.isSome → ParentKnown cfg r history)

instance (r : UploadRow) (env : Env) : DecidablePred (CanCreate cfg r env) := fun history =>
  inferInstanceAs (Decidable (if r.isDir then env.stopAfterParent ∨ ParentKnown cfg r history
    else ∃ file ∈ env.stat, ¬ (_ ∧ SameContent r file) ∧ transfer cfg file env ≠ _ ∧ (_ → _)))

/-- The removal of the old item is not answered. -/
def Unanswered (r : UploadRow) (env : Env) : Prop :=
  cfg.casePolicy.IsValidDirEntry r.name ∧
    (env.stopAtStart ∨ answered .transient env.delete numImmediateTransientRetry 0 = false)

instance (r : UploadRow) : DecidablePred (Unanswered cfg r) := fun _ =>
  inferInstanceAs (Decidable (_ ∧ _))

/-- The old item was not removed before, no answer about its removal is lost, and the new one can
be created then. -/
def FirstRemoval (r : UploadRow) (env : Env) (w : World) : Prop :=
  r.compId.getD 0 ∉ w.server.deleted ∧
    (∀ k < numImmediateTransientRetry,
      (env.delete k).lost → (env.delete k).answer = .transient) ∧
    CanCreate cfg (flipped r) env
      ((HistoryTree.remove cfg.casePolicy r.parentPath r.name w.history).toOption.getD w.history)

instance (r : UploadRow) (env : Env) : DecidablePred (FirstRemoval cfg r env) := fun _ =>
  inferInstanceAs (Decidable (_ ∧ (∀ k < numImmediateTransientRetry, _ → _) ∧ _))

/-- A change of type is taken up only in a step that does not get to the removal, or that gets
all the way. -/
def Regular (s : State) : Event → Prop
  | .start _ => True
  | .iterate env => ∀ r ∈ s.pass.bind fun mode => s.log.next mode,
    r.uploadAction = .changeFileOrDirType →
      cfg.maxErrorRetryCount < r.uploadErrCount ∨ Recreated r s.world.server ∨
        Unanswered cfg r env ∨ FirstRemoval cfg r env s.world

instance (s : State) : DecidablePred (Regular cfg s)
  | .start _ => .isTrue trivial
  | .iterate env => inferInstanceAs (Decidable (∀ r ∈ s.pass.bind fun mode => s.log.next mode,
      r.uploadAction = .changeFileOrDirType → _ ∨ _ ∨ _ ∨ FirstRemoval cfg r env s.world))

/-! ## The stages -/

variable {cfg} {r : UploadRow} {env : Env} {w w' : World} {x : Option Exit} {item : Item}
  {v v' : Server}

theorem mem_created_call (serve : Rc → Server → Rc × Server) (attempts : ℕ → Attempt Rc)
    (hserve : ∀ wish v, item ∈ v.created → item ∈ (serve wish v).2.created)
    (h : item ∈ v.created) : item ∈ (call serve attempts v).2.created :=
  retry_invariant (P := fun v : Server => item ∈ v.created) hserve h

theorem mem_created_delete {compId : UInt64} (wish : Rc) (v : Server) (h : item ∈ v.created) :
    item ∈ (Server.delete compId wish v).2.created := by
  unfold Server.delete
  split_ifs <;> exact h

theorem mem_created_create {new : Item} {compId : UInt64} (wish : Rc) (v : Server)
    (h : item ∈ v.created) : item ∈ (Server.create new compId wish v).2.created := by
  unfold Server.create
  split_ifs
  · exact List.mem_cons_of_mem _ h
  · exact h

/-- What `deleteStage` can do: the call to the server decides, and the history changes only with
an item that was removed. -/
theorem deleteStage_cases (h : deleteStage cfg r env w = (x, w')) :
    ∃ rc, call (Server.delete (r.compId.getD 0)) env.delete w.server = (rc, w'.server) ∧
      (rc = none ∧ x = some .stop ∨
        rc = some .transient ∧ x = some .errInc ∨
        rc = some .ok ∧ x = none ∧
          w'.history = (HistoryTree.remove cfg.casePolicy r.parentPath r.name
            w.history).toOption.getD w.history ∨
        (∃ e, rc = some e ∧ e ≠ .ok ∧ e ≠ .transient) ∧ x = some .skip) := by
  unfold deleteStage at h
  split at h <;> cases h
  · exact ⟨_, ‹_›, .inl ⟨rfl, rfl⟩⟩
  · exact ⟨_, ‹_›, .inr (.inr (.inl ⟨rfl, rfl, rfl⟩))⟩
  · exact ⟨_, ‹_›, .inr (.inl ⟨rfl, rfl⟩)⟩
  · exact ⟨_, ‹_›, .inr (.inr (.inr ⟨⟨_, rfl, ‹_›, ‹_›⟩, rfl⟩))⟩

/-- With transient errors only, the removal of an item that was not removed before leaves the row
only when the item is still not removed. -/
theorem deleteStage_first (hr : r.compId.getD 0 ∉ w.server.deleted)
    (hlost : ∀ k < numImmediateTransientRetry,
      (env.delete k).lost → (env.delete k).answer = .transient)
    (h : deleteStage cfg r env w = (x, w')) (hx : x = some .skip) :
    r.compId.getD 0 ∉ w'.server.deleted := by
  -- what looks like a transient error is one
  have hkeep : ∀ j < 0 + numImmediateTransientRetry, ∀ v,
      seen .transient (Server.delete (r.compId.getD 0)) (env.delete j) v = .transient →
        (Server.delete (r.compId.getD 0) (env.delete j).answer v).2 = v := by
    intro j hj v hseen
    have hans : (env.delete j).answer = .transient := by
      by_cases hl : (env.delete j).lost
      · exact hlost j (by simpa using hj) hl
      · simp only [seen, hl, Bool.false_eq_true, if_false, Server.delete] at hseen
        split_ifs at hseen
        exact hseen
    rw [hans]
    rfl
  obtain ⟨rc, hcall, ⟨rfl, rfl⟩ | ⟨rfl, rfl⟩ | ⟨rfl, rfl, -⟩ | ⟨⟨e, rfl, hok, htr⟩, rfl⟩⟩ :=
    deleteStage_cases h
  all_goals try cases hx
  obtain ⟨k, -, hserve⟩ := retry_eq_some_of_keeps hkeep hcall htr
  unfold Server.delete at hserve
  split_ifs at hserve <;> obtain ⟨he, hv⟩ := Prod.mk.inj hserve
  · exact absurd he.symm hok
  · rwa [← hv]
  · rwa [← hv]

theorem deleteStage_of_not_answered
    (ha : answered .transient env.delete numImmediateTransientRetry 0 = false)
    (h : deleteStage cfg r env w = (x, w')) : x = some .stop ∨ x = some .errInc := by
  have hno : ∀ {rc}, call (Server.delete (r.compId.getD 0)) env.delete w.server =
      (some rc, w'.server) → rc = .transient := by
    intro rc hcall
    by_contra hrc
    have := answered_of_retry (fun _ => rfl) hcall hrc
    simp [ha] at this
  obtain ⟨rc, hcall, ⟨rfl, rfl⟩ | ⟨rfl, rfl⟩ | ⟨rfl, -⟩ | ⟨⟨e, rfl, -, htr⟩, -⟩⟩ :=
    deleteStage_cases h
  · exact .inl rfl
  · exact .inr rfl
  · cases hno hcall
  · exact absurd (hno hcall) htr

/-- A call that creates an item and is answered has created it. -/
theorem mem_created_of_call {compId : UInt64} {attempts : ℕ → Attempt Rc} {rc : Rc}
    (ht : TransientOnly attempts)
    (h : call (Server.create item compId) attempts v = (some rc, v')) (hrc : rc ≠ .transient) :
    rc = .ok ∧ item ∈ v'.created := by
  obtain ⟨k, hk, u, hserve⟩ := retry_eq_some h hrc
  unfold Server.create at hserve
  split_ifs at hserve with hok
  · cases hserve
    exact ⟨rfl, List.mem_cons_self⟩
  · obtain ⟨rfl, -⟩ := Prod.mk.inj hserve
    exact absurd ((ht k (by simpa using hk)).resolve_left hok) hrc

theorem server_getParentCompId (cfg : UploadConfig) (r : UploadRow) (env : Env) (w : World) :
    (getParentCompId cfg r env w).2.server = w.server := by
  unfold getParentCompId
  split
  · rfl
  · split
    · split <;> rfl
    · rfl

/-- The id of the parent directory is known, or creating the root fails for now. -/
theorem getParentCompId_of_known (ht : TransientEnv env) (hp : ParentKnown cfg r w.history)
    {rc : Rc} (h : (getParentCompId cfg r env w).1 = .error rc) :
    rc = .transient ∨ rc = .stopping := by
  unfold getParentCompId at h
  split at h
  · cases h
  · rename_i hnone
    have hroot : r.parentPath = "" := hp.resolve_right (by simp [hnone])
    rw [if_pos hroot] at h
    have htr := ht.root
    split at h
    · rename_i e he
      cases h
      simpa [he, Except.toOption] using htr
    · split_ifs at h
      cases h
      exact .inr rfl

theorem createDir_cases (h : createDir cfg r env w = (x, w')) :
    w'.server = w.server ∧ (x = some .stop ∨ x = some .errInc ∨
      env.stopAfterParent = false ∧ ∃ rc, (getParentCompId cfg r env w).1 = .error rc ∧
        rc ≠ .transient ∧ rc ≠ .stopping) ∨
    ∃ parentCompId o,
      call (Server.create ⟨r.path, true, parentCompId, none⟩ env.newCompId) env.makeDir w.server =
        (o, w'.server) ∧
      (x = some .stop ∨ x = some .errInc ∨ ∃ rc, o = some rc ∧ rc ≠ .transient) := by
  have hserver := server_getParentCompId cfg r env w
  unfold createDir at h
  split at h
  · rename_i w₁ hget
    cases h
    rw [hget] at hserver
    exact .inl ⟨hserver, .inl rfl⟩
  · rename_i parent w₁ hstop hget
    rw [hget] at hserver ⊢
    split_ifs at h with hs
    · cases h
      exact .inl ⟨hserver, .inl rfl⟩
    · split at h
      · cases h
        exact .inl ⟨hserver, .inr (.inl rfl)⟩
      · rename_i rc htr
        cases h
        refine .inl ⟨hserver, .inr (.inr ⟨by simpa using hs, _, rfl, ?_, ?_⟩)⟩
        · rintro rfl
          exact htr rfl
        · rintro rfl
          exact hstop rfl
      · rename_i parentCompId
        rw [← hserver]
        refine .inr ⟨parentCompId, ?_⟩
        split at h <;> cases h
        · exact ⟨_, ‹_›, .inl rfl⟩
        · exact ⟨_, ‹_›, .inr (.inr ⟨_, rfl, by decide⟩)⟩
        · exact ⟨_, ‹_›, .inr (.inl rfl)⟩
        · exact ⟨_, ‹_›, .inr (.inr ⟨_, rfl, ‹_›⟩)⟩

theorem vcsPost_cases {parentCompId : UInt64} {oldCompId : Option UInt64} {hash : String}
    {size : UInt64} {post : ℕ → Attempt Rc} {rc : Rc}
    (h : vcsPostFileMetadataAfterUpload cfg r env parentCompId oldCompId hash size post w =
      (rc, w')) :
    ∃ o, call (Server.create ⟨r.path, false, parentCompId, oldCompId⟩ env.newCompId) post
        w.server = (o, w'.server) ∧
      (o = none ∧ rc = .stopping ∨ o = some .ok ∧ (rc = .ok ∨ rc = .other) ∨ o = some rc) := by
  unfold vcsPostFileMetadataAfterUpload at h
  split at h
  · cases h
    exact ⟨_, ‹_›, .inl ⟨rfl, rfl⟩⟩
  · refine ⟨some .ok, ?_⟩
    split at h <;> cases h
    · exact ⟨‹_›, .inr (.inl ⟨rfl, .inr rfl⟩)⟩
    · exact ⟨‹_›, .inr (.inl ⟨rfl, .inl rfl⟩)⟩
  · cases h
    exact ⟨_, ‹_›, .inr (.inr rfl)⟩

theorem mem_created_createDir (h : createDir cfg r env w = (x, w'))
    (hi : item ∈ w.server.created) : item ∈ w'.server.created := by
  obtain ⟨hserver, -⟩ | ⟨parentCompId, o, hcall, -⟩ := createDir_cases h
  · rwa [hserver]
  · have hmem := mem_created_call
      (Server.create ⟨r.path, true, parentCompId, none⟩ env.newCompId) env.makeDir
      (fun wish v => mem_created_create wish v) hi
    rwa [hcall] at hmem

theorem mem_created_vcsPost {parentCompId : UInt64} {oldCompId : Option UInt64} {hash : String}
    {size : UInt64} {post : ℕ → Attempt Rc} {rc : Rc}
    (h : vcsPostFileMetadataAfterUpload cfg r env parentCompId oldCompId hash size post w =
      (rc, w')) (hi : item ∈ w.server.created) : item ∈ w'.server.created := by
  obtain ⟨o, hcall, -⟩ := vcsPost_cases h
  have hmem := mem_created_call
    (Server.create ⟨r.path, false, parentCompId, oldCompId⟩ env.newCompId) post
    (fun wish v => mem_created_create wish v) hi
  rwa [hcall] at hmem

theorem mem_created_postFile {parentCompId : UInt64} {oldCompId : Option UInt64}
    {hash : String} {size : UInt64}
    (h : postFile cfg r env parentCompId oldCompId hash size w = (x, w'))
    (hi : item ∈ w.server.created) : item ∈ w'.server.created := by
  unfold postFile at h
  split at h
  · rename_i w₁ hpost
    obtain rfl : _ = w' := congrArg Prod.snd h
    exact mem_created_vcsPost rfl (mem_created_vcsPost hpost hi)
  · cases h
    exact mem_created_vcsPost ‹_› hi

theorem mem_created_applyUpload (h : applyUploadCreateOrUpdateToAcs cfg r env w = (x, w'))
    (hi : item ∈ w.server.created) : item ∈ w'.server.created := by
  have hserver := server_getParentCompId cfg r env w
  unfold applyUploadCreateOrUpdateToAcs at h
  split at h
  · cases h
    exact hi
  · split_ifs at h
    · cases h
      exact hi
    · split at h
      · cases h
        exact hi
      · split at h <;> rename_i hget <;> rw [hget] at hserver
        · cases h
          rwa [hserver]
        · exact mem_created_postFile h (by rwa [hserver])

theorem mem_created_createStage (h : createStage cfg r env w = (x, w'))
    (hi : item ∈ w.server.created) : item ∈ w'.server.created := by
  unfold createStage at h
  split_ifs at h
  · exact mem_created_createDir h hi
  · cases h
    exact hi
  · exact mem_created_applyUpload h hi

theorem mem_created_deleteStage (h : deleteStage cfg r env w = (x, w'))
    (hi : item ∈ w.server.created) : item ∈ w'.server.created := by
  obtain ⟨rc, hcall, -⟩ := deleteStage_cases h
  have hmem := mem_created_call (Server.delete (r.compId.getD 0)) env.delete
    (fun wish v => mem_created_delete wish v) hi
  rwa [hcall] at hmem

/-- Nothing that was created is forgotten. -/
theorem mem_created_handleRow (h : handleRow cfg r env w = (x, w'))
    (hi : item ∈ w.server.created) : item ∈ w'.server.created := by
  unfold handleRow at h
  split_ifs at h
  · cases h
    exact hi
  · split at h
    · exact mem_created_deleteStage h hi
    · split at h
      · cases h
        exact mem_created_deleteStage ‹_› hi
      · exact mem_created_createStage h (mem_created_deleteStage ‹_› hi)
    · exact mem_created_createStage h hi
    · exact mem_created_createStage h hi
  · cases h
    exact hi

/-! ## The create stage after the delete stage -/

/-- The row leaves the log whatever its error count is. -/
def Leaves (x : Option Exit) : Prop :=
  x ≠ some .stop ∧ x ≠ some .errInc

theorem createDir_ready (ht : TransientEnv env)
    (hc : env.stopAfterParent ∨ ParentKnown cfg r w.history)
    (h : createDir cfg r env w = (x, w')) (hx : Leaves x) :
    ∃ y ∈ w'.server.created, y.path = r.path ∧ y.isDir = true := by
  obtain ⟨-, rfl | rfl | ⟨hs, rc, hrc, htr, hst⟩⟩ | ⟨parentCompId, o, hcall, rfl | rfl | ⟨rc, rfl, htr⟩⟩ :=
    createDir_cases h
  · exact absurd rfl hx.1
  · exact absurd rfl hx.2
  · have hp := hc.resolve_left (by simp [hs])
    exact ((getParentCompId_of_known ht hp hrc).elim htr hst).elim
  · exact absurd rfl hx.1
  · exact absurd rfl hx.2
  · exact ⟨_, (mem_created_of_call ht.makeDir hcall htr).2, rfl, rfl⟩

theorem postFile_ready {parentCompId : UInt64} {oldCompId : Option UInt64} {hash : String}
    {size : UInt64} (ht : TransientEnv env)
    (h : postFile cfg r env parentCompId oldCompId hash size w = (x, w')) (hx : Leaves x) :
    ∃ y ∈ w'.server.created, y.path = r.path ∧ y.isDir = false := by
  unfold postFile at h
  split at h
  · rename_i w₁ hpost
    obtain ⟨o, hcall, ⟨-, ho⟩ | ⟨-, ho | ho⟩ | rfl⟩ := vcsPost_cases hpost
    · cases ho
    · cases ho
    · cases ho
    · cases (mem_created_of_call ht.post hcall (by decide)).1
  · rename_i rc w₁ hne hpost
    cases h
    obtain ⟨o, hcall, ⟨-, rfl⟩ | ⟨rfl, -⟩ | rfl⟩ := vcsPost_cases hpost
    · exact absurd rfl hx.1
    · exact ⟨_, (mem_created_of_call ht.post hcall (by decide)).2, rfl, rfl⟩
    · have htr : rc ≠ .transient := by
        rintro rfl
        exact hx.2 rfl
      exact ⟨_, (mem_created_of_call ht.post hcall htr).2, rfl, rfl⟩

theorem applyUpload_ready (ht : TransientEnv env) (hdir : r.isDir = false)
    (hc : CanCreate cfg r env w.history)
    (h : applyUploadCreateOrUpdateToAcs cfg r env w = (x, w')) (hx : Leaves x) :
    ∃ y ∈ w'.server.created, y.path = r.path ∧ y.isDir = false := by
  rw [CanCreate, if_neg (by simp [hdir])] at hc
  obtain ⟨file, hstat, hsame, hskip, hp⟩ := hc
  rw [Option.mem_def] at hstat
  simp only [applyUploadCreateOrUpdateToAcs, hstat, if_neg hsame] at h
  split at h
  · rename_i exit htransfer
    cases h
    cases exit with
    | stop => exact absurd rfl hx.1
    | skip => exact absurd htransfer hskip
    | errInc => exact absurd rfl hx.2
  · rename_i hash htransfer
    have hparent := hp (by simp [htransfer, Except.toOption])
    split at h
    · rename_i rc w₁ hget
      cases h
      rcases getParentCompId_of_known ht hparent (congrArg Prod.fst hget) with rfl | rfl
      · exact absurd rfl hx.2
      · exact absurd rfl hx.1
    · exact postFile_ready ht h hx

theorem createStage_ready (ht : TransientEnv env) (hr : r.uploadAction = .create)
    (hc : CanCreate cfg r env w.history) (h : createStage cfg r env w = (x, w'))
    (hx : Leaves x) : ∃ y ∈ w'.server.created, y.path = r.path ∧ y.isDir = r.isDir := by
  unfold createStage at h
  by_cases hdir : r.isDir
  · rw [CanCreate, if_pos hdir] at hc
    rw [if_pos hdir, if_pos hr] at h
    rw [hdir]
    exact createDir_ready ht hc h hx
  · rw [if_neg hdir] at h
    rw [Bool.not_eq_true] at hdir
    rw [hdir]
    exact applyUpload_ready ht hdir hc h hx

/-! ## One row, and runs -/

/-- A change of type leaves the log with its old item as it was, or with the new one. -/
theorem handleRow_of_regular (ht : TransientEnv env) (hr : r.uploadAction = .changeFileOrDirType)
    (hreg : Unanswered cfg r env ∨ FirstRemoval cfg r env w)
    (h : handleRow cfg r env w = (x, w')) (hx : Leaves x)
    (hdel : r.compId.getD 0 ∈ w'.server.deleted) : Recreated r w'.server := by
  unfold handleRow at h
  split_ifs at h with hname hstop
  · cases h
    exact absurd rfl hx.1
  · simp only [hr] at h
    split at h
    · rename_i exit w₁ hdelete
      cases h
      rcases hreg with ⟨-, hun⟩ | ⟨hfirst, hlost, -⟩
      · have hun := hun.resolve_left (by simpa using hstop)
        exact ((deleteStage_of_not_answered hun hdelete).elim hx.1 hx.2).elim
      · have hskip : some exit = some .skip := by
          cases exit with
          | stop => exact absurd rfl hx.1
          | skip => rfl
          | errInc => exact absurd rfl hx.2
        exact absurd hdel (deleteStage_first hfirst hlost hdelete hskip)
    · rename_i w₁ hdelete
      have hnone := deleteStage_cases hdelete
      rcases hreg with ⟨-, hun⟩ | ⟨-, -, hcreate⟩
      · have hun := hun.resolve_left (by simpa using hstop)
        rcases deleteStage_of_not_answered hun hdelete with hn | hn <;> cases hn
      · have hhistory : w₁.history = (HistoryTree.remove cfg.casePolicy r.parentPath r.name
            w.history).toOption.getD w.history := by
          obtain ⟨rc, -, ⟨-, hn⟩ | ⟨-, hn⟩ | ⟨-, -, hw⟩ | ⟨-, hn⟩⟩ := hnone
          · cases hn
          · cases hn
          · exact hw
          · cases hn
        rw [← hhistory] at hcreate
        exact createStage_ready ht rfl hcreate h hx
  · cases h
    rcases hreg with ⟨hvalid, -⟩ | ⟨hfirst, -⟩
    · exact absurd hvalid hname
    · exact absurd hdel hfirst

/-- What leaves the log in one step: the row that was taken. -/
theorem mem_departures_settle {s : State} {y : UploadRow × Server}
    (h : y ∈ (settle cfg r s (x, w')).departures) :
    y ∈ s.departures ∨
      y = (r, w'.server) ∧ (Leaves x ∨ cfg.maxErrorRetryCount < r.uploadErrCount) := by
  unfold settle at h
  split at h
  · exact .inl h
  · rename_i w₁ heq
    cases heq
    split_ifs at h with hmax
    · exact (List.mem_cons.1 h).symm.imp_right fun hy => ⟨hy, .inr hmax⟩
    · exact .inl h
  · rename_i w₁ hstop herr heq
    cases heq
    refine (List.mem_cons.1 h).symm.imp_right fun hy => ⟨hy, .inl ⟨?_, ?_⟩⟩
    · rintro rfl
      exact hstop rfl
    · rintro rfl
      exact herr rfl

theorem survives_step {s t : State} {e : Event} (hs : Survives cfg s) (ht : OnlyTransient s e)
    (hreg : Regular cfg s e) (h : s.step cfg e = some t) : Survives cfg t := by
  cases e with
  | start isErrorMode =>
    unfold State.step at h
    split_ifs at h
    cases h
    exact hs
  | iterate env =>
    obtain ⟨mode, hmode, rfl⟩ := Option.map_eq_some_iff.1 h
    cases hnext : s.log.next mode with
    | none => exact hs
    | some r =>
      intro y hy hchange hdel
      obtain hy | ⟨rfl, hleaves | hmax⟩ := mem_departures_settle hy
      · exact hs y hy hchange hdel
      · have hrow : r ∈ s.pass.bind fun mode => s.log.next mode := by simp [hmode, hnext]
        rcases hreg r hrow hchange with hmax | ⟨x, hx, hsame⟩ | hreg
        · exact .inr hmax
        · exact .inl ⟨x, mem_created_handleRow rfl hx, hsame⟩
        · exact .inl (handleRow_of_regular ht hchange hreg rfl hleaves hdel)
      · exact .inr hmax

/-- Along every run of passes with transient errors only, from any log and any history, no change
of type is lost while all steps are regular. -/
theorem survives_of_regular {tr : List (State × Event)} {s₀ s : State}
    (h₀ : s₀.departures = []) (h : Run (State.step cfg) s₀ tr s)
    (ht : Meets OnlyTransient tr) (hreg : Meets (Regular cfg) tr) : Always (Survives cfg) tr s := by
  have hboth : Meets (fun s e => OnlyTransient s e ∧ Regular cfg s e) tr :=
    fun x hx => ⟨ht x hx, hreg x hx⟩
  refine h.always_of_meets ?_ (fun s e t hs hc he => survives_step hs hc.1 hc.2 he) hboth
  intro y hy
  rw [h₀] at hy
  cases hy

/-! ## A file that becomes a directory -/

/-- Case matters, and a row is given up after three failed attempts. -/
def exampleConfig : UploadConfig where
  casePolicy := ⟨false, id⟩
  hostArchiveStorage := false
  useHash := false
  maxErrorRetryCount := 2

/-- The log holds a change of the file `a`, which the server knows as component 7. -/
def fileBecameDir : State where
  log := ⟨[{
    parentPath := ""
    name := "a"
    isDir := false
    uploadAction := .changeFileOrDirType
    compId := some 7
    revision := some 1
    hashValue := ""
    fileSize := none
    rowId := 1
    parentPathCi := none
    nameCi := none
    uploadErrCount := 0 }], 1⟩
  world := ⟨[dirEntry "" "" 1], ⟨[1, 7], [], []⟩⟩
  pass := none
  departures := []

/-- Attempts that are never stopped. -/
def answering (rc : Rc) : ℕ → Attempt Rc :=
  fun _ => ⟨false, rc, false, false, false⟩

/-- The server answers requests to remove and to create a directory. -/
def answers (delete makeDir : Rc) : Env where
  stopAtStart := false
  delete := answering delete
  root := .error .transient
  stopAfterRoot := false
  stopAfterParent := false
  makeDir := answering makeDir
  newCompId := 8
  stat := none
  access := answering .ok
  archiveMeta := none
  put := answering .ok
  putHash := ""
  statAfter := none
  post := answering .ok
  postAgain := answering .ok
  postedRevision := some 1
  postedLastChanged := 0

/-- A pass in normal mode without answers to the removal, and one in error mode. -/
theorem survives_of_regular_unanswered :
    ∃ tr s, Run (State.step exampleConfig) fileBecameDir tr s ∧
      tr.map Prod.snd = [.iterate (answers .ok .ok), .start true, .iterate (answers .ok .ok),
        .iterate (answers .transient .ok), .start false] ∧
      s.world.server.created = [⟨("", "a"), true, 1, none⟩] ∧
      Always (Survives exampleConfig) tr s := by
  have he : exec (State.step exampleConfig) fileBecameDir [.start false,
      .iterate (answers .transient .ok), .iterate (answers .ok .ok), .start true,
      .iterate (answers .ok .ok)] = some _ := rfl
  have hrun := run_trace he
  refine ⟨_, _, hrun, rfl, rfl, survives_of_regular rfl hrun ?_ ?_⟩
  · decide +kernel
  · decide +kernel

/-- The removal succeeds in a first pass and the creation meets transient errors. A second pass
drops the row, as the old item is no longer there. -/
theorem not_survives_transient_create :
    ∃ tr s, Run (State.step exampleConfig) fileBecameDir tr s ∧
      tr.map Prod.snd = [.iterate (answers .ok .ok), .start true, .iterate (answers .ok .ok),
        .iterate (answers .ok .transient), .start false] ∧
      Meets OnlyTransient tr ∧ ¬ Always (Survives exampleConfig) tr s := by
  have he : exec (State.step exampleConfig) fileBecameDir [.start false,
      .iterate (answers .ok .transient), .iterate (answers .ok .ok), .start true,
      .iterate (answers .ok .ok)] = some _ := rfl
  refine ⟨_, _, run_trace he, rfl, ?_, fun h => absurd h.2 ?_⟩
  · decide +kernel
  · decide +kernel

end PersonalCloud.SyncConfig.UploadPass
