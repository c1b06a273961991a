import Mathlib.Data.List.Pairwise
import PersonalCloud.SyncConfig.TypeChange

/-!
# The rounds of an upload pass

The loop of `ApplyUploadChangeLog` asks the log for the next row in every round, while its body
takes rows out of the log and gives those that failed a new row id. An error pass is told where
to end by the largest row id at its start.

## Main results

* `pass_handles_each_once` — a pass that nothing stops ends, and handles each row that was
  eligible at its start once, in the order of the row ids.
-/

namespace PersonalCloud.SyncConfig.UploadPass

open PersonalCloud.Lib UploadChangeLog

variable (cfg : UploadConfig)

/-- The rows that a pass takes. -/
def Eligible (mode : Option ℕ) (r : UploadRow) : Prop :=
  match mode with
  | none => r.uploadErrCount = 0
  | some maxRowId => r.rowId ≤ maxRowId ∧ r.uploadErrCount ≠ 0

instance : (mode : Option ℕ) → DecidablePred (Eligible mode)
  | none => fun r => inferInstanceAs (Decidable (r.uploadErrCount = 0))
  | some _ => fun _ => inferInstanceAs (Decidable (_ ∧ _))

/-- One round: the row, how its handling ended, and the log before and after it. -/
structure Round where
  row : UploadRow
  exit : Option Exit
  before : UploadChangeLog
  after : UploadChangeLog

/-- The row had a transient error, and not too many before it. -/
def Round.Failed (x : Round) : Prop :=
  x.exit = some .errInc ∧ x.row.uploadErrCount ≤ cfg.maxErrorRetryCount

instance : DecidablePred (Round.Failed cfg) := fun _ => inferInstanceAs (Decidable (_ ∧ _))

/-- The row as it waits for the next error pass. -/
def Round.moved (x : Round) : UploadRow :=
  { x.row with
    rowId := x.before.getMaxRowId + 1
    uploadErrCount := x.row.uploadErrCount + 1 }

/-- The row is gone, or it failed and waits behind all others. No other row is touched. -/
def Round.Settled (x : Round) : Prop :=
  if x.Failed cfg then
    (∀ r, r ∈ x.after.rows ↔ r ∈ x.before.rows ∧ r ≠ x.row ∨ r = x.moved) ∧
      ∀ r ∈ x.after.rows, r ≠ x.moved → r.rowId < x.moved.rowId
  else ∀ r, r ∈ x.after.rows ↔ r ∈ x.before.rows ∧ r ≠ x.row

/-- The row that the next round takes. -/
def State.current (s : State) : Option UploadRow :=
  s.pass.bind fun mode => s.log.next mode

/-- The rounds of a running pass, the `k`-th in `envs k`, and the state in which it ends. -/
def rounds (envs : ℕ → Env) : ℕ → ℕ → State → Option (List Round × State)
  | 0, _, _ => none
  | fuel + 1, k, s =>
    match s.step cfg (.iterate (envs k)) with
    | none => some ([], s)
    | some t => (rounds envs fuel (k + 1) t).map fun x =>
      ((s.current.map fun r =>
        Round.mk r (handleRow cfg r (envs k) s.world).1 s.log t.log).toList ++ x.1, x.2)

/-! ## Nothing stops the pass -/

/-- No attempt is stopped. -/
def Calm (attempts : ℕ → Attempt Rc) : Prop :=
  ∀ k, (attempts k).Quiet ∧ (attempts k).answer ≠ .stopping

/-- No check asks for a stop while a row is handled. -/
structure Undisturbed (env : Env) : Prop where
  stopAtStart : env.stopAtStart = false
  delete : Calm env.delete
  root : env.root ≠ .error .stopping
  stopAfterRoot : env.stopAfterRoot = false
  stopAfterParent : env.stopAfterParent = false
  makeDir : Calm env.makeDir
  access : Calm env.access
  archiveMeta : ∀ x ∈ env.archiveMeta, Calm x.put
  put : Calm env.put
  post : Calm env.post
  postAgain : Calm env.postAgain

variable {cfg} {r : UploadRow} {env : Env} {w w' : World} {attempts : ℕ → Attempt Rc} {rc : Rc}
  {x : Option Exit}

theorem exit_eq_stop_iff : Rc.exit rc = some .stop ↔ rc = .stopping := by
  cases rc <;> simp [Rc.exit]

theorem Calm.call_ne_none (h : Calm attempts) (serve : Rc → Server → Rc × Server) (v : Server) :
    (call serve attempts v).1 ≠ none :=
  retry_ne_none fun k => (h k).1

theorem Calm.query_ne_none (h : Calm attempts) : query attempts ≠ none :=
  retry_ne_none fun k => (h k).1

theorem Calm.putFile_ne_none (h : Calm attempts) : putFile attempts ≠ none :=
  retry_ne_none fun k => ⟨rfl, rfl, (h k).1.between⟩

theorem sent_ne_stop {answer : Option Rc} (h : answer ≠ none) : sent answer ≠ some .stop := by
  cases answer with
  | none => exact absurd rfl h
  | some rc => cases rc <;> simp [sent]

theorem deleteStage_ne_stop (hcalm : Calm env.delete) (h : deleteStage cfg r env w = (x, w')) :
    x ≠ some .stop := by
  obtain ⟨rc, hcall, hcases⟩ := deleteStage_cases h
  have hsome := hcalm.call_ne_none (Server.delete (r.compId.getD 0)) w.server
  rw [hcall] at hsome
  rcases hcases with ⟨hrc, -⟩ | ⟨-, hx⟩ | ⟨-, hx, -⟩ | ⟨-, hx⟩
  · exact absurd hrc hsome
  · simp [hx]
  · simp [hx]
  · simp [hx]

theorem getParentCompId_ne_stopping (henv : Undisturbed env) :
    (getParentCompId cfg r env w).1 ≠ .error .stopping := by
  have hroot := henv.root
  unfold getParentCompId
  split
  · simp
  · split
    · cases hr : env.root with
      | error rc => simpa [hr] using hroot
      | ok compId => simp [henv.stopAfterRoot]
    · simp

theorem createDir_ne_stop (henv : Undisturbed env) (h : createDir cfg r env w = (x, w')) :
    x ≠ some .stop := by
  have hparent : (getParentCompId cfg r env w).1 ≠ .error .stopping :=
    getParentCompId_ne_stopping henv
  unfold createDir at h
  split at h
  · rename_i heq
    simp [heq] at hparent
  · rename_i parent w₁ _ _
    rw [if_neg (by simp [henv.stopAfterParent])] at h
    split at h
    · cases h
      simp
    · cases h
      simp
    · rename_i parentCompId _ _
      have hcall := henv.makeDir.call_ne_none
        (Server.create ⟨r.path, true, parentCompId, none⟩ env.newCompId) w₁.server
      split at h <;> cases h
      · rename_i heq
        simp [heq] at hcall
      · simp
      · simp
      · simp

theorem transfer_ne_stop (h : Undisturbed env) (file : LocalFile) :
    transfer cfg file env ≠ .error .stop := by
  have haccess := h.access.query_ne_none
  have hmeta : sendMeta env.archiveMeta ≠ some .stop := by
    unfold sendMeta
    split
    · simp
    · rename_i x hx
      split_ifs
      · exact sent_ne_stop (h.archiveMeta x hx).putFile_ne_none
      · simp
  have hput := sent_ne_stop h.put.putFile_ne_none
  unfold transfer
  by_cases harchive : cfg.hostArchiveStorage
  · simp [harchive]
  rw [if_neg harchive]
  split
  · exact absurd ‹_› haccess
  · split
    · rename_i exit hexit
      rintro ⟨⟩
      cases hm : sendMeta env.archiveMeta with
      | none => exact hput (by simpa [hm] using hexit)
      | some y => exact hmeta (by simpa [hm] using hexit)
    · split_ifs <;> simp
  · simp
  · simp

theorem call_create_ne_stopping (hcalm : Calm attempts) {item : Item} {compId : UInt64}
    {v v' : Server} : call (Server.create item compId) attempts v ≠ (some .stopping, v') := by
  intro h
  obtain ⟨k, -, u, hserve⟩ := retry_eq_some h (by decide)
  unfold Server.create at hserve
  split_ifs at hserve
  · cases hserve
  · exact (hcalm k).2 (Prod.mk.inj hserve).1

theorem vcsPost_ne_stopping (hcalm : Calm attempts) {parentCompId : UInt64}
    {oldCompId : Option UInt64} {hash : String} {size : UInt64}
    (h : vcsPostFileMetadataAfterUpload cfg r env parentCompId oldCompId hash size attempts w =
      (rc, w')) : rc ≠ .stopping := by
  rintro rfl
  obtain ⟨o, hcall, ⟨rfl, -⟩ | ⟨-, hrc⟩ | rfl⟩ := vcsPost_cases h
  · have hsome := hcalm.call_ne_none
      (Server.create ⟨r.path, false, parentCompId, oldCompId⟩ env.newCompId) w.server
    simp [hcall] at hsome
  · simp at hrc
  · exact call_create_ne_stopping hcalm hcall

theorem postFile_ne_stop (henv : Undisturbed env) {parentCompId : UInt64}
    {oldCompId : Option UInt64} {hash : String} {size : UInt64}
    (h : postFile cfg r env parentCompId oldCompId hash size w = (x, w')) : x ≠ some .stop := by
  unfold postFile at h
  split at h
  · cases h
    exact fun h => vcsPost_ne_stopping henv.postAgain rfl (exit_eq_stop_iff.1 h)
  · rename_i hpost
    cases h
    exact fun h => vcsPost_ne_stopping henv.post hpost (exit_eq_stop_iff.1 h)

theorem createStage_ne_stop (henv : Undisturbed env) (h : createStage cfg r env w = (x, w')) :
    x ≠ some .stop := by
  have hparent : (getParentCompId cfg r env w).1 ≠ .error .stopping :=
    getParentCompId_ne_stopping henv
  unfold createStage at h
  split_ifs at h
  · exact createDir_ne_stop henv h
  · cases h
    simp
  · unfold applyUploadCreateOrUpdateToAcs at h
    dsimp only at h
    split at h
    · cases h
      simp
    · rename_i file _
      split_ifs at h
      · cases h
        simp
      · split at h
        · rename_i exit hexit
          cases h
          rintro ⟨⟩
          exact transfer_ne_stop henv file hexit
        · split at h
          · rename_i heq
            cases h
            refine fun h => hparent ?_
            rw [heq, exit_eq_stop_iff.1 h]
          · exact postFile_ne_stop henv h

/-- What can stop the pass are the checks for a stop. -/
theorem handleRow_ne_stop (henv : Undisturbed env) (h : handleRow cfg r env w = (x, w')) :
    x ≠ some .stop := by
  rw [handleRow, if_neg (c := (env.stopAtStart = true)) (by simp [henv.stopAtStart])] at h
  split_ifs at h
  · split at h
    · exact deleteStage_ne_stop henv.delete h
    · split at h
      · rename_i hdelete
        cases h
        exact deleteStage_ne_stop henv.delete hdelete
      · exact createStage_ne_stop henv h
    · exact createStage_ne_stop henv h
    · exact createStage_ne_stop henv h
  · cases h
    simp

/-! ## One round -/

variable {mode : Option ℕ} {log : UploadChangeLog} {s : State} {todo : List UploadRow} {fuel : ℕ}

theorem next_eq (mode : Option ℕ) (log : UploadChangeLog) :
    log.next mode = (log.rows.filter fun r => Eligible mode r).argmin UploadRow.rowId := by
  cases mode <;> rfl

/-- Of the rows that are still to be taken, the first is the next. -/
theorem next_eq_head? (htodo : ∀ r, r ∈ todo ↔ r ∈ log.rows ∧ Eligible mode r)
    (hsorted : todo.Pairwise fun a b => a.rowId < b.rowId) : log.next mode = todo.head? := by
  have hmem : ∀ r, r ∈ log.rows.filter (fun r => Eligible mode r) ↔ r ∈ todo := by
    intro r
    rw [List.mem_filter, decide_eq_true_eq, htodo]
  rw [next_eq]
  cases todo with
  | nil => exact List.argmin_eq_none.2 (List.eq_nil_iff_forall_not_mem.2 fun r hr =>
      List.not_mem_nil ((hmem r).1 hr))
  | cons r todo =>
    have hr := (hmem r).2 List.mem_cons_self
    cases hmin : (log.rows.filter fun r => Eligible mode r).argmin UploadRow.rowId with
    | none =>
      rw [List.argmin_eq_none.1 hmin] at hr
      cases hr
    | some x =>
      rcases List.mem_cons.1 ((hmem x).1 (List.argmin_mem hmin)) with rfl | hx
      · rfl
      · have hlt := (List.pairwise_cons.1 hsorted).1 x hx
        exact absurd (List.le_of_mem_argmin hr hmin) hlt.not_ge

theorem settle_log (hx : x ≠ some .stop) :
    (settle cfg r s (x, w)).pass = s.pass ∧ (settle cfg r s (x, w)).log =
      if x = some .errInc ∧ r.uploadErrCount ≤ cfg.maxErrorRetryCount then s.log.incErr r.rowId
      else s.log.remove r.rowId := by
  cases x with
  | none => simp [settle]
  | some exit =>
    cases exit with
    | stop => exact absurd rfl hx
    | skip => simp [settle]
    | errInc =>
      unfold settle
      by_cases hcount : r.uploadErrCount ≤ cfg.maxErrorRetryCount
      · simp [hcount, not_lt.2 hcount]
      · simp [hcount, not_le.1 hcount]

theorem Round.settled_of_log {x : Round} (hids : Table.Keyed UploadRow.rowId x.before.rows)
    (hr : x.row ∈ x.before.rows) (hlog : x.after =
      if x.Failed cfg then x.before.incErr x.row.rowId else x.before.remove x.row.rowId) :
    x.Settled cfg := by
  unfold Round.Settled
  by_cases hfailed : x.Failed cfg
  · rw [if_pos hfailed] at hlog
    rw [if_pos hfailed, hlog]
    refine ⟨fun y => mem_incErr hids hr, fun y hy hne => ?_⟩
    obtain ⟨hy, -⟩ := ((mem_incErr hids hr).1 hy).resolve_right hne
    exact Nat.lt_succ_of_le (rowId_le_getMaxRowId hy)
  · rw [if_neg hfailed] at hlog
    rw [if_neg hfailed, hlog]
    exact fun y => mem_remove hids hr

/-- A round of a pass that goes on settles its row, and leaves the row ids different. -/
theorem step_settles (henv : Undisturbed env) (hpass : s.pass = some mode)
    (hids : Table.Keyed UploadRow.rowId s.log.rows) (hr : r ∈ s.log.rows)
    (hnext : s.log.next mode = some r) : ∃ t, s.step cfg (.iterate env) = some t ∧
      t.pass = some mode ∧ Table.Keyed UploadRow.rowId t.log.rows ∧
      (Round.mk r (handleRow cfg r env s.world).1 s.log t.log).Settled cfg := by
  generalize hhandle : handleRow cfg r env s.world = y
  obtain ⟨x, w⟩ := y
  have hstep : s.step cfg (.iterate env) = some (settle cfg r s (x, w)) := by
    simp only [State.step, hpass, Option.map_some, hnext, hhandle]
  obtain ⟨hpass', hlog⟩ : (settle cfg r s (x, w)).pass = s.pass ∧ _ :=
    settle_log (handleRow_ne_stop henv hhandle)
  refine ⟨_, hstep, hpass'.trans hpass, ?_, ?_⟩
  · rw [hlog]
    split_ifs
    · exact keyed_incErr hids
    · exact keyed_remove hids
  · exact Round.settled_of_log hids hr hlog

/-! ## The whole pass -/

/-- A row that failed is not taken again in the same pass. -/
theorem not_eligible_moved {x : Round} (hmax : ∀ m, mode = some m → ∃ q ∈ x.before.rows, m ≤ q.rowId) :
    ¬ Eligible mode x.moved := by
  cases mode with
  | none => exact Nat.succ_ne_zero _
  | some m =>
    obtain ⟨q, hq, hle⟩ := hmax m rfl
    rintro ⟨hid, -⟩
    have hlt := Nat.lt_succ_of_le (hle.trans (rowId_le_getMaxRowId hq))
    exact absurd hid hlt.not_ge

/-- What a settled round leaves to be taken. -/
theorem Round.Settled.mem_todo {x : Round} (h : x.Settled cfg)
    (hsorted : (x.row :: todo).Pairwise fun a b => a.rowId < b.rowId)
    (hmax : ∀ m, mode = some m → ∃ q ∈ x.before.rows, m ≤ q.rowId)
    (htodo : ∀ r, r ∈ x.row :: todo ↔ r ∈ x.before.rows ∧ Eligible mode r) (y : UploadRow) :
    y ∈ todo ↔ y ∈ x.after.rows ∧ Eligible mode y := by
  have hrow : x.row ∉ todo := fun hmem =>
    lt_irrefl _ ((List.pairwise_cons.1 hsorted).1 _ hmem)
  have hy : y ∈ todo ↔ (y ∈ x.before.rows ∧ y ≠ x.row) ∧ Eligible mode y := by
    rw [and_right_comm, ← htodo, List.mem_cons]
    refine ⟨fun hmem => ⟨.inr hmem, fun heq => hrow (heq ▸ hmem)⟩, fun ⟨hmem, hne⟩ => ?_⟩
    exact hmem.resolve_left hne
  unfold Round.Settled at h
  split_ifs at h with hfailed
  · rw [hy, h.1, or_and_right]
    refine (or_iff_left ?_).symm
    rintro ⟨rfl, helig⟩
    exact not_eligible_moved hmax helig
  · rw [hy, h]

theorem Round.Settled.mem_after {x : Round} (h : x.Settled cfg) {y : UploadRow}
    (hy : y ∈ x.before.rows) (hne : y ≠ x.row) : y ∈ x.after.rows := by
  unfold Round.Settled at h
  split_ifs at h
  · exact (h.1 y).2 (.inl ⟨hy, hne⟩)
  · exact (h y).2 ⟨hy, hne⟩

/-- While rows are left to be taken, some row id is as large as any at the start. -/
theorem Round.Settled.exists_le {x : Round} (h : x.Settled cfg)
    (hsorted : (x.row :: todo).Pairwise fun a b => a.rowId < b.rowId)
    (htodo : ∀ y ∈ todo, y ∈ x.after.rows) (hne : todo ≠ []) {m : ℕ}
    (hmax : ∃ q ∈ x.before.rows, m ≤ q.rowId) : ∃ q ∈ x.after.rows, m ≤ q.rowId := by
  obtain ⟨q, hq, hle⟩ := hmax
  by_cases hrow : q = x.row
  · obtain ⟨z, hz⟩ := List.exists_mem_of_ne_nil _ hne
    have hlt := (List.pairwise_cons.1 hsorted).1 z hz
    exact ⟨z, htodo z hz, hle.trans (hrow ▸ hlt.le)⟩
  · exact ⟨q, h.mem_after hq hrow, hle⟩

/-- What is in the log after a round and is not to be taken. -/
theorem Round.Settled.mem_not_eligible {x : Round} (h : x.Settled cfg)
    (hmax : ∀ m, mode = some m → ∃ q ∈ x.before.rows, m ≤ q.rowId) (hrow : Eligible mode x.row)
    (y : UploadRow) : y ∈ x.after.rows ∧ ¬ Eligible mode y ↔
      (y ∈ x.before.rows ∧ ¬ Eligible mode y) ∨ x.Failed cfg ∧ y = x.moved := by
  have hne : ¬ Eligible mode y → y ≠ x.row := fun hy heq => hy (heq ▸ hrow)
  unfold Round.Settled at h
  split_ifs at h with hfailed
  · rw [h.1]
    constructor
    · rintro ⟨⟨hy, -⟩ | rfl, helig⟩
      · exact .inl ⟨hy, helig⟩
      · exact .inr ⟨hfailed, rfl⟩
    · rintro (⟨hy, helig⟩ | ⟨-, rfl⟩)
      · exact ⟨.inl ⟨hy, hne helig⟩, helig⟩
      · exact ⟨.inr rfl, not_eligible_moved hmax⟩
  · rw [h]
    constructor
    · rintro ⟨⟨hy, -⟩, helig⟩
      exact .inl ⟨hy, helig⟩
    · rintro (⟨hy, helig⟩ | ⟨hf, -⟩)
      · exact ⟨⟨hy, hne helig⟩, helig⟩
      · exact absurd hf hfailed

/-- The rounds of a pass, from any state in which it has the rows of `todo` to take. -/
theorem rounds_of_todo {envs : ℕ → Env} (henvs : ∀ k, Undisturbed (envs k)) {k : ℕ}
    (hpass : s.pass = some mode) (hids : Table.Keyed UploadRow.rowId s.log.rows)
    (hsorted : todo.Pairwise fun a b => a.rowId < b.rowId)
    (htodo : ∀ r, r ∈ todo ↔ r ∈ s.log.rows ∧ Eligible mode r)
    (hmax : ∀ m, mode = some m → todo ≠ [] → ∃ q ∈ s.log.rows, m ≤ q.rowId) :
    ∃ xs s', (∀ fuel, todo.length + 2 ≤ fuel → rounds cfg envs fuel k s = some (xs, s')) ∧
      s'.pass = none ∧ xs.map Round.row = todo ∧ (∀ x ∈ xs, x.Settled cfg) ∧
      ∀ y, y ∈ s'.log.rows ↔
        (y ∈ s.log.rows ∧ ¬ Eligible mode y) ∨ ∃ x ∈ xs, x.Failed cfg ∧ y = x.moved := by
  have hnext := next_eq_head? htodo hsorted
  induction todo generalizing k s with
  | nil =>
    refine ⟨[], { s with pass := none }, fun fuel hfuel => ?_, rfl, rfl, by simp, fun y => ?_⟩
    · obtain ⟨fuel, rfl⟩ := Nat.exists_eq_add_of_le' hfuel
      simp [rounds, State.step, State.current, hpass, hnext]
    · have hy := htodo y
      simp only [List.not_mem_nil, false_iff, not_and] at hy
      simpa using fun hmem => hy hmem
  | cons r todo ih =>
    obtain ⟨hr, helig⟩ := (htodo r).1 List.mem_cons_self
    obtain ⟨t, hstep, htpass, htids, hsettled⟩ :
        ∃ t, s.step cfg (.iterate (envs k)) = some t ∧ _ :=
      step_settles (henvs k) hpass hids hr hnext
    have hbefore : ∀ m, mode = some m → ∃ q ∈ s.log.rows, m ≤ q.rowId :=
      fun m hm => hmax m hm (List.cons_ne_nil _ _)
    have hafter := hsettled.mem_todo hsorted hbefore htodo
    have htsorted := (List.pairwise_cons.1 hsorted).2
    obtain ⟨xs, s', hrun, hend, hrows, hall, hlog⟩ := ih (k := k + 1) htpass htids htsorted hafter
      (fun m hm hne => hsettled.exists_le hsorted (fun y hy => ((hafter y).1 hy).1) hne
        (hbefore m hm)) (next_eq_head? hafter htsorted)
    refine ⟨_ :: xs, s', fun fuel hfuel => ?_, hend, ?_,
      List.forall_mem_cons.2 ⟨hsettled, hall⟩, fun y => ?_⟩
    · rw [List.length_cons] at hfuel
      obtain ⟨left, rfl⟩ : ∃ left, fuel = left + 1 := ⟨fuel - 1, by omega⟩
      simp only [rounds, hstep, hrun left (by omega), State.current, hpass, Option.bind_some,
        hnext, List.head?_cons, Option.map_some, Option.toList_some, List.singleton_append]
    · rw [List.map_cons, hrows]
    · rw [hlog, hsettled.mem_not_eligible hbefore helig]
      simp only [List.exists_mem_cons_iff, or_assoc]

theorem exists_sorted {rows : List UploadRow} (hids : Table.Keyed UploadRow.rowId rows) :
    ∃ todo : List UploadRow, todo.Perm rows ∧ todo.Pairwise fun a b => a.rowId < b.rowId := by
  set le : UploadRow → UploadRow → Bool := fun a b => a.rowId ≤ b.rowId
  have hle : (rows.mergeSort le).Pairwise fun a b => le a b :=
    List.pairwise_mergeSort (fun a b c => by simpa [le] using Nat.le_trans)
      (fun a b => by simpa [le] using Nat.le_total _ _) rows
  have hperm := rows.mergeSort_perm le
  have hne : (rows.mergeSort le).Pairwise fun a b => a.rowId ≠ b.rowId :=
    List.pairwise_map.1 ((hperm.map UploadRow.rowId).nodup_iff.2 hids)
  refine ⟨_, hperm, hle.imp₂ (fun a b hab hab' => ?_) hne⟩
  exact lt_of_le_of_ne (by simpa [le] using hab) hab'

/-- The mode of a pass that starts. -/
def startMode (isErrorMode : Bool) (log : UploadChangeLog) : Option ℕ :=
  if isErrorMode then some log.getMaxRowId else none

/-- A pass that nothing stops ends. It handles exactly the rows that were eligible at its start,
each in one round and in the order of the row ids. A round removes its row or, after a transient
error that has not too many before it, puts it behind all others with one error more. What is
in the log at the end are the rows that were not eligible and those that failed. -/
theorem pass_handles_each_once (cfg : UploadConfig) (isErrorMode : Bool) (envs : ℕ → Env)
    (henvs : ∀ k, Undisturbed (envs k)) (s : State) (hpass : s.pass = none)
    (hids : Table.Keyed UploadRow.rowId s.log.rows) :
    ∃ s₀ xs s', s.step cfg (.start isErrorMode) = some s₀ ∧
      (∀ fuel, s.log.rows.length + 2 ≤ fuel → rounds cfg envs fuel 0 s₀ = some (xs, s')) ∧
      s'.pass = none ∧
      (xs.map Round.row).Pairwise (fun a b => a.rowId < b.rowId) ∧
      (∀ r, r ∈ xs.map Round.row ↔
        r ∈ s.log.rows ∧ Eligible (startMode isErrorMode s.log) r) ∧
      (∀ x ∈ xs, x.Settled cfg) ∧
      ∀ r, r ∈ s'.log.rows ↔
        (r ∈ s.log.rows ∧ ¬ Eligible (startMode isErrorMode s.log) r) ∨
          ∃ x ∈ xs, x.Failed cfg ∧ r = x.moved := by
  set mode := startMode isErrorMode s.log with hmode
  -- the eligible rows in the order in which they will be taken
  obtain ⟨todo, hperm, hsorted⟩ := exists_sorted (hids.filter fun r => Eligible mode r)
  have htodo : ∀ r, r ∈ todo ↔ r ∈ s.log.rows ∧ Eligible mode r := by
    intro r
    rw [hperm.mem_iff, List.mem_filter, decide_eq_true_eq]
  have hmax : ∀ m, mode = some m → todo ≠ [] → ∃ q ∈ s.log.rows, m ≤ q.rowId := by
    intro m hm hne
    obtain ⟨r, hr⟩ := List.exists_mem_of_ne_nil _ hne
    obtain rfl : s.log.getMaxRowId = m := by
      rw [hmode, startMode] at hm
      split_ifs at hm
      exact Option.some.inj hm
    exact exists_getMaxRowId_le (List.ne_nil_of_mem ((htodo r).1 hr).1)
  have hlen : todo.length ≤ s.log.rows.length :=
    hperm.length_eq.trans_le (List.length_filter_le _ _)
  obtain ⟨xs, s', hrun, hend, hrows, hall, hlog⟩ :
      ∃ xs s', (∀ fuel, todo.length + 2 ≤ fuel →
        rounds cfg envs fuel 0 { s with pass := some mode } = some (xs, s')) ∧ _ :=
    rounds_of_todo henvs rfl hids hsorted htodo hmax
  refine ⟨_, xs, s', ?_, fun fuel hfuel => hrun fuel (by omega), hend, ?_, ?_, hall, hlog⟩
  · rw [State.step, if_pos hpass]
    rfl
  · rwa [hrows]
  · rwa [hrows]

theorem calm_answering {rc : Rc} (h : rc ≠ .stopping) : Calm (answering rc) :=
  fun _ => ⟨⟨rfl, rfl, rfl⟩, h⟩

theorem undisturbed_answers {delete makeDir : Rc} (hdelete : delete ≠ .stopping)
    (hmakeDir : makeDir ≠ .stopping) : Undisturbed (answers delete makeDir) where
  stopAtStart := rfl
  delete := calm_answering hdelete
  root := by simp [answers]
  stopAfterRoot := rfl
  stopAfterParent := rfl
  makeDir := calm_answering hmakeDir
  access := calm_answering (by decide)
  archiveMeta := by simp [answers]
  put := calm_answering (by decide)
  post := calm_answering (by decide)
  postAgain := calm_answering (by decide)

/-- A pass in which the server does not answer. -/
theorem pass_handles_each_once_fileBecameDir : ∃ s₀ xs s',
    fileBecameDir.step exampleConfig (.start false) = some s₀ ∧
      rounds exampleConfig (fun _ => answers .transient .ok) 3 0 s₀ = some (xs, s') ∧
      s'.pass = none ∧ ∀ x ∈ xs, x.Settled exampleConfig := by
  obtain ⟨s₀, xs, s', hstart, hrun, hend, -, -, hall, -⟩ :=
    pass_handles_each_once exampleConfig false (fun _ => answers .transient .ok)
      (fun _ => undisturbed_answers (by decide) (by decide)) fileBecameDir rfl
      (by decide +kernel)
  exact ⟨s₀, xs, s', hstart, hrun 3 le_rfl, hend, hall⟩

end PersonalCloud.SyncConfig.UploadPass
