import PersonalCloud.Lib.Run
import PersonalCloud.Ts2.Transport.Pool
import PersonalCloud.Ts2.Transport.SendWindow

/-!
# The server's main thread

`tssThreadMain` takes a SYN from its queue, finds the tunnel that an earlier copy of it set
up or makes a new one, lets the tunnel handle the SYN and starts a service thread. `newVtId`
outlives a round of the loop and is set only where a tunnel is made, so that the service
thread of a SYN that found its tunnel gets the id of another one.
-/

namespace PersonalCloud.Ts2

open PersonalCloud.Lib Transport

structure SynPkt where
  pktType : PktType
  svcName : String
  src : DstInfo
  dstDeviceId : Nat
  dstInstId : Nat
  deriving DecidableEq, Repr

/-- A service thread: what it serves, the id it was given, and the tunnel that handled the
SYN it was started for. -/
structure Service where
  svcHandle : Nat
  vtId : Nat
  vtunnel : Vtunnel
  deriving DecidableEq, Repr

/-- Where the main thread is. -/
inductive ServerPc where
  | top
  | create (svcHandle : Nat) (dst : DstInfo)
  | handle (svcHandle : Nat) (vt : Vtunnel) (found : Bool)
  | ended
  deriving DecidableEq, Repr

/-- `tunnels` are those that the main thread made and did not give up. -/
structure Server where
  deviceId : Nat
  instId : Nat
  services : String → Option Nat
  pool : Pool
  nextObject : Nat
  newVtId : Nat
  pc : ServerPc
  tunnels : List Vtunnel
  started : List Service

namespace Server

def opened (deviceId instId : Nat) (services : String → Option Nat) (idCounter : Nat) :
    Server where
  deviceId := deviceId
  instId := instId
  services := services
  pool := .opened idCounter
  nextObject := 0
  newVtId := 0
  pc := .top
  tunnels := []
  started := []

/-- Take a SYN, look up its service and its tunnel. -/
def popSyn (s : Server) (pkt : SynPkt) : Option Server :=
  if s.pc ≠ .top then none
  else if pkt.pktType ≠ .syn then some s
  else
    match s.services pkt.svcName with
    | none => some s
    | some svcHandle =>
      if pkt.dstDeviceId ≠ s.deviceId ∨ pkt.dstInstId ≠ s.instId then some s
      else
        match s.pool.vtunnelFind pkt.src with
        | some vt => some { s with pc := .handle svcHandle vt true }
        | none => some { s with pc := .create svcHandle pkt.src }

/-- Make a tunnel and add it to the pool. -/
def addVtunnel (s : Server) (alloc authorized : Bool) : Option Server :=
  match s.pc with
  | .create svcHandle dst =>
    if !alloc then some { s with pc := .ended }
    else
      let n := s.nextObject + 1
      match s.pool.vtunnelAdd authorized ⟨s.nextObject, dst, 0⟩ with
      | (.error .invalidDevice, p) => some { s with pool := p, nextObject := n, pc := .top }
      | (.error _, p) => some { s with pool := p, nextObject := n, pc := .ended }
      | (.ok vt, p) =>
        some { s with
          pool := p
          nextObject := n
          newVtId := vt.lclVtId
          pc := .handle svcHandle vt false
          tunnels := s.tunnels ++ [vt] }
  | _ => none

/-- The tunnel handles the SYN, and its service thread is started. -/
def startService (s : Server) (spawned : Bool) : Option Server :=
  match s.pc with
  | .handle svcHandle vt found =>
    if spawned then
      some { s with
        pc := .top
        started := s.started ++ [⟨svcHandle, s.newVtId, vt⟩] }
    else
      some { s with
        pc := .ended
        pool := s.pool.vtunnelRemove s.newVtId
        tunnels := if found then s.tunnels else s.tunnels.filter (· ≠ vt) }
  | _ => none

def stop (s : Server) : Option Server :=
  if s.pc = .top then some { s with pc := .ended, pool := { s.pool with started := false } }
  else none

end Server

/-- `vtunnelRemove` is called by the service threads. -/
inductive ServerOp where
  | popSyn (pkt : SynPkt)
  | addVtunnel (alloc authorized : Bool)
  | startService (spawned : Bool)
  | vtunnelRemove (vtId : Nat)
  | stop
  deriving DecidableEq, Repr

def serverStep (s : Server) : ServerOp → Option Server
  | .popSyn pkt => s.popSyn pkt
  | .addVtunnel alloc authorized => s.addVtunnel alloc authorized
  | .startService spawned => s.startService spawned
  | .vtunnelRemove vtId => some { s with pool := s.pool.vtunnelRemove vtId }
  | .stop => s.stop

/-! ## One service for each tunnel -/

/-- The tunnel made for the SYN at hand. -/
def ServerPc.fresh? : ServerPc → Option Vtunnel
  | handle _ vt false => some vt
  | _ => none

namespace Server

/-- Every service thread was given the id of the tunnel that handled its SYN, and every
tunnel has exactly one, once its SYN is handled. -/
structure OneServiceEach (s : Server) : Prop where
  vtId : ∀ x ∈ s.started, x.vtId = x.vtunnel.lclVtId
  once : ∀ vt ∈ s.tunnels, s.pc.fresh? ≠ some vt → (s.started.map Service.vtunnel).count vt = 1

/-- No service thread is started for a SYN that found its tunnel. -/
def StartsFresh (s : Server) (op : ServerOp) : Prop :=
  op = .startService true → ∀ svcHandle vt, s.pc ≠ .handle svcHandle vt true

structure Good (s : Server) : Prop where
  pool : s.pc = .ended ∨ ∀ i vt, s.pool.vtunnelMap.find? i = some vt → vt ∈ s.tunnels
  handle : ∀ svcHandle vt found, s.pc = .handle svcHandle vt found → vt ∈ s.tunnels
  fresh : ∀ vt, s.pc.fresh? = some vt →
    s.newVtId = vt.lclVtId ∧ ∀ x ∈ s.started, x.vtunnel ≠ vt
  objects : ∀ vt ∈ s.tunnels, vt.object < s.nextObject
  started : ∀ x ∈ s.started, x.vtunnel ∈ s.tunnels

theorem good_opened (deviceId instId : Nat) (services : String → Option Nat) (idCounter : Nat) :
    (opened deviceId instId services idCounter).Good where
  pool := .inr (by simp [opened, Pool.opened])
  handle := nofun
  fresh := nofun
  objects := nofun
  started := nofun

theorem oneServiceEach_opened (deviceId instId : Nat) (services : String → Option Nat)
    (idCounter : Nat) : (opened deviceId instId services idCounter).OneServiceEach where
  vtId := nofun
  once := nofun

variable {s t : Server}

/-- Taking a SYN from the queue changes nothing but the place of the thread. -/
theorem of_popSyn {pkt : SynPkt} (he : s.popSyn pkt = some t) :
    s.pc = .top ∧ (t = s ∨ (∃ svcHandle, t = { s with pc := .create svcHandle pkt.src }) ∨
      ∃ svcHandle vt, s.pool.vtunnelFind pkt.src = some vt ∧
        t = { s with pc := .handle svcHandle vt true }) := by
  unfold popSyn at he
  split at he
  · cases he
  next hpc =>
    refine ⟨not_not.1 hpc, ?_⟩
    split at he
    · exact .inl (Option.some.inj he).symm
    split at he
    · exact .inl (Option.some.inj he).symm
    split at he
    · exact .inl (Option.some.inj he).symm
    split at he
    next vt hvt => exact .inr (.inr ⟨_, vt, hvt, (Option.some.inj he).symm⟩)
    · exact .inr (.inl ⟨_, (Option.some.inj he).symm⟩)

/-- Making a tunnel fails, with the pool's entries as they were, or adds a new one. -/
theorem of_addVtunnel {alloc authorized : Bool} (he : s.addVtunnel alloc authorized = some t) :
    (∃ svcHandle dst, s.pc = .create svcHandle dst) ∧ ((∃ p n pc, p.vtunnelMap = s.pool.vtunnelMap ∧ s.nextObject ≤ n ∧
        (pc = .top ∨ pc = .ended) ∧ t = { s with pool := p, nextObject := n, pc := pc }) ∨
      ∃ svcHandle vt p, vt.object = s.nextObject ∧
        (∀ i v, p.vtunnelMap.find? i = some v → v = vt ∨ s.pool.vtunnelMap.find? i = some v) ∧
        t = { s with
          pool := p
          nextObject := s.nextObject + 1
          newVtId := vt.lclVtId
          pc := .handle svcHandle vt false
          tunnels := s.tunnels ++ [vt] }) := by
  unfold addVtunnel at he
  split at he
  next svcHandle dst hpc =>
    refine ⟨⟨svcHandle, dst, hpc⟩, ?_⟩
    split at he
    · exact .inl ⟨_, _, _, rfl, Nat.le_refl _, .inr rfl, (Option.some.inj he).symm⟩
    simp only at he
    split at he
    next p hadd =>
      exact .inl ⟨p, _, _, Pool.vtunnelMap_of_error hadd, Nat.le_succ _, .inl rfl,
        (Option.some.inj he).symm⟩
    next p hne hadd =>
      exact .inl ⟨p, _, _, Pool.vtunnelMap_of_error hadd, Nat.le_succ _, .inr rfl,
        (Option.some.inj he).symm⟩
    next vt p hadd =>
      obtain ⟨hobject, hfind⟩ := Pool.of_vtunnelAdd hadd
      exact .inr ⟨svcHandle, vt, p, hobject, hfind, (Option.some.inj he).symm⟩
  · cases he

/-- The service thread is started, or the main thread ends. -/
theorem of_startService {spawned : Bool} (he : s.startService spawned = some t) :
    ∃ svcHandle vt found, s.pc = .handle svcHandle vt found ∧
      (spawned = true ∧ t = { s with
          pc := .top
          started := s.started ++ [⟨svcHandle, s.newVtId, vt⟩] } ∨
        spawned = false ∧ t = { s with
          pc := .ended
          pool := s.pool.vtunnelRemove s.newVtId
          tunnels := if found then s.tunnels else s.tunnels.filter (· ≠ vt) }) := by
  unfold startService at he
  split at he
  next svcHandle vt found hpc =>
    refine ⟨svcHandle, vt, found, hpc, ?_⟩
    cases spawned with
    | true => exact .inl ⟨rfl, (Option.some.inj he).symm⟩
    | false => exact .inr ⟨rfl, (Option.some.inj he).symm⟩
  · cases he

/-- With another place of the thread, nothing of the rest matters. -/
theorem Good.setPc (h : s.Good) (hpc : s.pc ≠ .ended) {pc : ServerPc}
    (hhandle : ∀ svcHandle vt found, pc = .handle svcHandle vt found → vt ∈ s.tunnels)
    (hfresh : pc.fresh? = none) : { s with pc := pc }.Good :=
  ⟨.inr (h.pool.resolve_left hpc), hhandle, fun vt hvt => by simp [hfresh] at hvt, h.objects,
    h.started⟩

theorem good_serverStep {op : ServerOp} (h : s.Good) (he : serverStep s op = some t) :
    t.Good := by
  cases op with
  | popSyn pkt =>
    obtain ⟨hpc, rfl | ⟨svcHandle, rfl⟩ | ⟨svcHandle, vt, hfind, rfl⟩⟩ := of_popSyn he
    · exact h
    · exact h.setPc (by simp [hpc]) nofun rfl
    · refine h.setPc (by simp [hpc]) ?_ rfl
      rintro _ _ _ ⟨⟩
      obtain ⟨i, hi⟩ := Pool.exists_of_vtunnelFind hfind
      exact h.pool.resolve_left (by simp [hpc]) i vt hi
  | addVtunnel alloc authorized =>
    obtain ⟨⟨_, _, hcreate⟩, hadd⟩ := of_addVtunnel he
    have hpool := h.pool.resolve_left (by simp [hcreate])
    obtain ⟨p, n, pc, hp, hn, hpc, rfl⟩ | ⟨svcHandle, vt, p, hobject, hfind, rfl⟩ := hadd
    · refine ⟨.inr fun i v hv => hpool i v (hp ▸ hv), ?_, ?_,
        fun v hv => (h.objects v hv).trans_le hn, h.started⟩
      · rcases hpc with rfl | rfl <;> exact nofun
      · rcases hpc with rfl | rfl <;> exact nofun
    · have hold : ∀ v ∈ s.tunnels, v ≠ vt := by
        rintro v hv rfl
        have := h.objects v hv
        omega
      refine ⟨.inr fun i v hv => ?_, ?_, ?_, ?_, fun x hx => ?_⟩
      · rcases hfind i v hv with rfl | hv
        · simp
        · exact List.mem_append_left _ (hpool i v hv)
      · rintro _ _ _ ⟨⟩
        simp
      · rintro _ ⟨⟩
        exact ⟨rfl, fun x hx => hold _ (h.started x hx)⟩
      · intro v hv
        rcases List.mem_append.1 hv with hv | hv
        · exact (h.objects v hv).trans (Nat.lt_succ_self _)
        · obtain rfl := List.mem_singleton.1 hv
          exact hobject ▸ Nat.lt_succ_self _
      · exact List.mem_append_left _ (h.started x hx)
  | startService spawned =>
    obtain ⟨svcHandle, vt, found, hpc, ⟨-, rfl⟩ | ⟨-, rfl⟩⟩ := of_startService he
    · have hvt := h.handle _ _ _ hpc
      refine ⟨.inr (h.pool.resolve_left (by simp [hpc])), nofun, nofun, h.objects, ?_⟩
      intro x hx
      rcases List.mem_append.1 hx with hx | hx
      · exact h.started x hx
      · obtain rfl := List.mem_singleton.1 hx
        exact hvt
    · refine ⟨.inl rfl, nofun, nofun, ?_, ?_⟩
      · intro v hv
        refine h.objects v ?_
        split at hv
        · exact hv
        · exact List.mem_of_mem_filter hv
      · intro x hx
        cases found with
        | true => exact h.started x hx
        | false =>
          have hne := (h.fresh vt (by rw [hpc]; rfl)).2 x hx
          simpa [hne] using h.started x hx
  | vtunnelRemove vtId =>
    obtain rfl := Option.some.inj he
    refine ⟨h.pool.imp_right fun hp i vt hi => ?_, h.handle, h.fresh, h.objects, h.started⟩
    exact hp i vt (Pool.find?_of_vtunnelRemove hi)
  | stop =>
    obtain ⟨hpc, he⟩ := Option.ite_none_right_eq_some.1 he
    obtain rfl := Option.some.inj he
    exact ⟨.inl rfl, nofun, nofun, h.objects, h.started⟩

/-- A step that starts no service thread keeps the property, if every tunnel that should have
one after it should have had one before. -/
theorem OneServiceEach.of_same (h : s.OneServiceEach) (hstarted : t.started = s.started)
    (hsub : ∀ vt ∈ t.tunnels, t.pc.fresh? ≠ some vt → vt ∈ s.tunnels ∧ s.pc.fresh? ≠ some vt) :
    t.OneServiceEach := by
  refine ⟨hstarted ▸ h.vtId, fun vt hvt hne => ?_⟩
  obtain ⟨hmem, hne⟩ := hsub vt hvt hne
  exact hstarted ▸ h.once vt hmem hne

/-- Starting a service thread keeps one for each tunnel exactly if the tunnel is new. -/
theorem oneServiceEach_started_iff {svcHandle : Nat} {vt : Vtunnel} {found : Bool} (h : s.Good)
    (hs : s.OneServiceEach) (hpc : s.pc = .handle svcHandle vt found) :
    OneServiceEach { s with
      pc := .top
      started := s.started ++ [⟨svcHandle, s.newVtId, vt⟩] } ↔ found = false := by
  have hvt := h.handle _ _ _ hpc
  cases found with
  | true =>
    refine iff_of_false (fun ht => ?_) nofun
    have hbefore := hs.once vt hvt (by rw [hpc]; exact nofun)
    have hafter := ht.once vt hvt nofun
    simp [hbefore] at hafter
  | false =>
    have hfresh : s.pc.fresh? = some vt := by rw [hpc]; rfl
    obtain ⟨hid, hnone⟩ := h.fresh vt hfresh
    refine iff_of_true ⟨fun x hx => ?_, fun v hv _ => ?_⟩ rfl
    · rcases List.mem_append.1 hx with hx | hx
      · exact hs.vtId x hx
      · obtain rfl := List.mem_singleton.1 hx
        exact hid
    · simp only [List.map_append, List.map_cons, List.map_nil, List.count_append]
      by_cases hv' : v = vt
      · subst hv'
        have : (s.started.map Service.vtunnel).count v = 0 := by
          simpa [List.count_eq_zero] using hnone
        simp [this]
      · have := hs.once v hv (by rw [hfresh]; exact fun he => hv' (Option.some.inj he).symm)
        simp [this, Ne.symm hv']

theorem oneServiceEach_serverStep_iff {op : ServerOp} (h : s.Good) (hs : s.OneServiceEach)
    (he : serverStep s op = some t) : t.OneServiceEach ↔ s.StartsFresh op := by
  cases op with
  | popSyn pkt =>
    refine iff_of_true ?_ nofun
    obtain ⟨hpc, rfl | ⟨svcHandle, rfl⟩ | ⟨svcHandle, vt, -, rfl⟩⟩ := of_popSyn he
    · exact hs
    · exact hs.of_same rfl fun v hv _ => ⟨hv, by rw [hpc]; exact nofun⟩
    · exact hs.of_same rfl fun v hv _ => ⟨hv, by rw [hpc]; exact nofun⟩
  | addVtunnel alloc authorized =>
    refine iff_of_true ?_ nofun
    obtain ⟨⟨_, _, hpc⟩, ⟨p, n, pc, -, -, -, rfl⟩ | ⟨svcHandle, vt, p, -, -, rfl⟩⟩ :=
      of_addVtunnel he
    · exact hs.of_same rfl fun v hv _ => ⟨hv, by rw [hpc]; exact nofun⟩
    · refine hs.of_same rfl fun v hv hne => ⟨?_, by rw [hpc]; exact nofun⟩
      rcases List.mem_append.1 hv with hv | hv
      · exact hv
      · exact absurd (congrArg some (List.mem_singleton.1 hv).symm) hne
  | startService spawned =>
    obtain ⟨svcHandle, vt, found, hpc, ⟨rfl, rfl⟩ | ⟨rfl, rfl⟩⟩ := of_startService he
    · rw [oneServiceEach_started_iff h hs hpc]
      constructor
      · rintro rfl - svc v hv
        simp [hpc] at hv
      · intro hf
        by_contra hfound
        exact hf rfl svcHandle vt (by simpa [hpc] using hfound)
    · refine iff_of_true (hs.of_same rfl fun v hv _ => ?_) nofun
      cases found with
      | true => exact ⟨hv, by rw [hpc]; exact nofun⟩
      | false =>
        obtain ⟨hv, hne⟩ : v ∈ s.tunnels ∧ v ≠ vt := by simpa using hv
        exact ⟨hv, by rw [hpc]; exact fun he => hne (Option.some.inj he).symm⟩
  | vtunnelRemove vtId =>
    obtain rfl := Option.some.inj he
    exact iff_of_true (hs.of_same rfl fun v hv hne => ⟨hv, hne⟩) nofun
  | stop =>
    obtain ⟨hpc, he⟩ := Option.ite_none_right_eq_some.1 he
    obtain rfl := Option.some.inj he
    exact iff_of_true (hs.of_same rfl fun v hv _ => ⟨hv, by rw [hpc]; exact nofun⟩) nofun

end Server

/-- Whatever SYNs arrive, each tunnel gets one service thread that is given its id, exactly
if none is started for a SYN that found its tunnel. -/
theorem oneServiceEach_iff {deviceId instId idCounter : Nat} {services : String → Option Nat}
    {tr : List (Server × ServerOp)} {s : Server}
    (h : Run serverStep (.opened deviceId instId services idCounter) tr s) :
    Always Server.OneServiceEach tr s ↔ Meets Server.StartsFresh tr :=
  h.always_iff_meets (Server.good_opened ..) (fun _ _ _ hs he => Server.good_serverStep hs he)
    (Server.oneServiceEach_opened ..)
    fun _ _ _ hI hs he => Server.oneServiceEach_serverStep_iff hI hs he

/-- A server that has one service. -/
def echoServer : Server :=
  .opened 5 1 (fun name => if name = "echo" then some 77 else none) 0

def echoSyn (deviceId seqNum : Nat) : SynPkt where
  pktType := .syn
  svcName := "echo"
  src := ⟨deviceId, 1, 3, seqNum⟩
  dstDeviceId := 5
  dstInstId := 1

/-- Two clients open a tunnel each. -/
def twoClients : List ServerOp :=
  [.popSyn (echoSyn 8 100), .addVtunnel true true, .startService true, .popSyn (echoSyn 9 200),
    .addVtunnel true true, .startService true]

theorem oneServiceEach_iff_twoClients :
    ∃ tr s, Run serverStep echoServer tr s ∧ s.started.map Service.vtId = [1, 2] ∧
      (Always Server.OneServiceEach tr s ↔ Meets Server.StartsFresh tr) := by
  have he : exec serverStep echoServer twoClients = some _ := rfl
  exact ⟨_, _, run_trace he, rfl, oneServiceEach_iff (run_trace he)⟩

/-- The SYN of the first client arrives again. -/
def repeatedSyn : List ServerOp :=
  twoClients ++ [.popSyn (echoSyn 8 100), .startService true]

/-- The first tunnel has handled two SYNs, and the thread started for the second one was given
the id of the other tunnel. -/
theorem not_oneServiceEach_repeatedSyn :
    ∃ tr s, Run serverStep echoServer tr s ∧ tr.map Prod.snd = repeatedSyn.reverse ∧
      s.started.map (fun x => (x.vtunnel.lclVtId, x.vtId)) = [(1, 1), (2, 2), (1, 2)] ∧
      ¬s.OneServiceEach := by
  have he : exec serverStep echoServer repeatedSyn = some _ := rfl
  refine ⟨_, _, run_trace he, by rw [List.map_reverse, map_snd_trace he], rfl, fun h => ?_⟩
  exact absurd (h.vtId ⟨77, 2, ⟨0, ⟨8, 1, 3, 100⟩, 1⟩⟩ (by decide)) (by decide)

end PersonalCloud.Ts2
