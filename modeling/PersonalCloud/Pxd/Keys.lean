import PersonalCloud.Pxd.Client

/-!
# The keys of a client

While its connection is up a client has keys, but for a proxy client whose connection to the
other client has been made: it has given up its credentials and its keys, and waits for the
login that brings the next. Who a client is, and the key that its server's blobs are signed
under, never change.

## Main results

* `Client.Sound.step` — these hold in every state of a run.
-/

namespace PersonalCloud.Pxd

open PersonalCloud.Lib PacketType

namespace Client

variable {prim : Primitives} {s t u : Client} {env : Env}

/-! ## What never changes -/

structure Frame (s t : Client) : Prop where
  id : t.id = s.id
  blobCrypto : t.blobCrypto = s.blobCrypto
  isProxy : t.isProxy = s.isProxy

theorem Frame.refl (s : Client) : Frame s s := ⟨rfl, rfl, rfl⟩

theorem Frame.trans (h : Frame s t) (h' : Frame t u) : Frame s u :=
  ⟨h'.id.trans h.id, h'.blobCrypto.trans h.blobCrypto, h'.isProxy.trans h.isProxy⟩

/-! ## The invariant -/

/-- Without keys the client is a proxy client that has given up its credentials. -/
def KeysGone (s : Client) : Prop :=
  s.crypto = none ∧ s.isProxy = true ∧ s.creds = none

instance (s : Client) : Decidable s.KeysGone :=
  inferInstanceAs (Decidable (_ ∧ _))

/-- What holds of a client also while it handles a packet. -/
structure Roles (s : Client) : Prop where
  /-- Only proxy clients ask for proxy connections. -/
  startProxy : s.isProxy = false → ∀ c, some c ∈ s.outstanding → c.type ≠ startProxyConnection
  /-- Only the other clients log in to other clients. -/
  connectLogin : s.isProxy = true → s.connectLogin = false

structure Sound (s : Client) : Prop extends Roles s where
  keys : s.phase = .running → s.crypto = none → s.KeysGone

/-- The keys are there, unless the client stops or has given them up. -/
def KeysKept (s : Client) : Prop :=
  s.stopNow = true ∨ (s.crypto = none → s.KeysGone)

/-! ## Sending -/

/-- `t` is `s` with a packet of the type queued, if that succeeded. -/
structure Sends (type : PacketType) (s t : Client) : Prop where
  eq : ∃ nextAsync outstanding queue,
    t = { s with nextAsync := nextAsync, outstanding := outstanding, queue := queue }
  mem : ∀ c, some c ∈ t.outstanding → some c ∈ s.outstanding ∨ c.type = type

theorem Sends.refl (type : PacketType) (s : Client) : Sends type s s :=
  ⟨⟨_, _, _, rfl⟩, fun _ => .inl⟩

theorem Sends.trans {type : PacketType} (h : Sends type s t) (h' : Sends type t u) :
    Sends type s u := by
  obtain ⟨⟨_, _, _, rfl⟩, hmem⟩ := h
  obtain ⟨⟨_, _, _, rfl⟩, hmem'⟩ := h'
  exact ⟨⟨_, _, _, rfl⟩, fun c hc => (hmem' c hc).elim (hmem c) .inr⟩

theorem Sends.frame {type : PacketType} (h : Sends type s t) : Frame s t := by
  obtain ⟨_, _, _, rfl⟩ := h.eq
  exact ⟨rfl, rfl, rfl⟩

theorem Sends.roles {type : PacketType} (h : Sends type s t) (hs : s.Roles)
    (htype : type = startProxyConnection → s.isProxy = true) : t.Roles := by
  have hmem := h.mem
  obtain ⟨_, _, _, rfl⟩ := h.eq
  refine ⟨fun hproxy c hc hstart => ?_, hs.connectLogin⟩
  obtain hc | rfl := hmem c hc
  · exact hs.startProxy hproxy c hc hstart
  · rw [htype hstart] at hproxy
    cases hproxy

theorem Sends.keysKept {type : PacketType} (h : Sends type s t) (hs : s.KeysKept) :
    t.KeysKept := by
  obtain ⟨_, _, _, rfl⟩ := h.eq
  exact hs

theorem sends_queuePacket {packet : QueuedPacket} {opOpaque : Option Nat} {now : Nat}
    {atHead : Bool} {reports : List (Report × Bool)}
    (h : s.queuePacket packet opOpaque now atHead = some (t, reports)) :
    Sends packet.content.type s t := by
  unfold queuePacket at h
  split at h
  · cases h
  · obtain ⟨⟨outstanding, killed⟩, hadd, h⟩ := Option.map_eq_some_iff.1 h
    obtain ⟨rfl, -⟩ := Prod.mk.inj h
    exact ⟨⟨_, _, _, rfl⟩, fun c hc => (Outstanding.mem_of_add hadd hc).imp_right fun hc =>
      congrArg Command.type hc⟩

theorem sends_sendCommand (s : Client) (u : Unpacked) (prequeue : Bool) (blob : Option Blob)
    (verified : Bool) (env : Env) :
    Sends u.type s (s.sendCommand u prequeue blob verified env).1 := by
  unfold sendCommand
  split
  rename_i t u' hsetup
  have ht : Sends u.type s t ∧ u'.type = u.type := by
    split at hsetup <;>
      (obtain ⟨rfl, rfl⟩ := Prod.mk.inj hsetup; exact ⟨⟨⟨_, _, _, rfl⟩, fun _ => .inl⟩, rfl⟩)
  split
  · split
    · exact ht.1
    · rename_i hq
      exact ht.1.trans (ht.2 ▸ sends_queuePacket hq)
  · exact ht.1

theorem sends_request (s : Client) (u : Unpacked) (opOpaque : Option Nat) (env : Env) :
    Sends u.type s (s.request u opOpaque env).client := by
  have hsetup : Sends u.type s (s.setupUnpacked u).1 := ⟨⟨_, _, _, rfl⟩, fun _ => .inl⟩
  unfold request
  split
  rename_i t u' heq
  rw [heq] at hsetup
  have htype : u'.type = u.type := by
    obtain ⟨-, rfl⟩ := Prod.mk.inj heq
    rfl
  split
  · split
    · exact hsetup
    · rename_i hq
      exact hsetup.trans (htype ▸ sends_queuePacket hq)
  · exact hsetup

/-! ## Handling a packet -/

/-- `t` is what handling a packet makes of `s`. -/
structure Moves (s t : Client) : Prop extends Frame s t, Roles t where
  keys : t.KeysKept

theorem Sends.moves {type : PacketType} (h : Sends type s t) (hs : Moves u s)
    (htype : type = startProxyConnection → s.isProxy = true) : Moves u t where
  toFrame := hs.toFrame.trans h.frame
  toRoles := h.roles hs.toRoles htype
  keys := h.keysKept hs.keys

theorem Moves.of_frame (hf : Frame s t) (h : Moves t u) : Moves s u :=
  ⟨hf.trans h.toFrame, h.toRoles, h.keys⟩

theorem Moves.sendLogin {type : PacketType} {input : Unpacked} (h : Moves u s)
    (htype : type ≠ startProxyConnection) : Moves u (s.sendLogin type input env).1 :=
  (sends_sendCommand s _ _ _ _ _).moves h fun h => absurd h htype

theorem Moves.sendCcdChallenge (h : Moves u s) : Moves u (s.sendCcdChallenge env).1 := by
  let t := { s with proxyTag := env.connectionTime }
  have ht : Moves u t := ⟨h.toFrame.trans ⟨rfl, rfl, rfl⟩, ⟨h.startProxy, h.connectLogin⟩, h.keys⟩
  have hsend := (sends_sendCommand t (ccdChallenge s.cluster env) false none false env).moves ht
    (by rintro ⟨⟩)
  exact ⟨⟨hsend.id, hsend.blobCrypto, hsend.isProxy⟩,
    ⟨hsend.startProxy, hsend.connectLogin⟩, hsend.keys⟩

theorem Moves.sendStartProxy (h : Moves u s) (hproxy : s.isProxy = true) :
    Moves u (s.sendStartProxy env).1 :=
  (sends_sendCommand s _ _ _ _ _).moves h fun _ => hproxy

theorem Moves.sendCcdResponse {address : Option (List UInt8)} {port : UInt32}
    {blob : Option Blob} {response : UInt64} {verified : Bool} (h : Moves u s) :
    Moves u (s.sendCcdResponse address port blob response verified env).1 := by
  unfold Client.sendCcdResponse
  have hsend := (sends_sendCommand s (ccdResponse address port response) false blob verified
    env).moves h (by rintro ⟨⟩)
  exact hsend

theorem Moves.rejectLogin {v : Unpacked} (h : Moves u s) :
    Moves u (s.rejectLogin v env).client := by
  let t := { s with readable := false }
  have ht : Moves u t := ⟨h.toFrame.trans ⟨rfl, rfl, rfl⟩, ⟨h.startProxy, h.connectLogin⟩, h.keys⟩
  have hsend := (sends_sendCommand t { Unpacked.alloc rejectCcdCredentials with
    asyncId := v.asyncId } false none false env).moves ht (by rintro ⟨⟩)
  exact hsend

/-- A client that is cleaned up and stops. -/
theorem Moves.stop (hr : s.Roles) {t : Client} (hf : Frame s t)
    (ho : t.outstanding = s.outstanding) (hl : t.connectLogin = false) (hstop : t.stopNow = true) :
    Moves s t where
  toFrame := hf
  startProxy := by
    rw [ho, hf.isProxy]
    exact hr.startProxy
  connectLogin := fun _ => hl
  keys := .inl hstop

theorem moves_complete {type : PacketType} {opOpaque : Option Nat} {v : Unpacked}
    {blob : Option Blob} {verified : Bool} (hr : s.Roles)
    (hk : s.crypto = none → s.KeysGone) (htype : type = startProxyConnection → s.isProxy = true) :
    Moves s (s.complete type opOpaque v blob verified env).1 := by
  have hs : Moves s s := ⟨.refl s, hr, .inr hk⟩
  cases type with
  | sendCcdChallenge =>
    rw [complete]
    split
    · rename_i hlogin
      -- the client is no proxy client, so it has keys
      refine Moves.sendLogin ⟨⟨rfl, rfl, rfl⟩, ⟨hr.startProxy, hr.connectLogin⟩, .inr fun h => ?_⟩
        (by decide)
      have hproxy := (hk h).2.1
      rw [hr.connectLogin hproxy] at hlogin
      cases hlogin
    · exact Moves.sendCcdResponse ⟨⟨rfl, rfl, rfl⟩, ⟨hr.startProxy, hr.connectLogin⟩, .inr hk⟩
  | sendPxdLogin =>
    rw [complete]
    split
    · exact hs
    split
    · rename_i hproxy
      exact hs.sendStartProxy hproxy
    · exact hs
  | sendCcdLogin =>
    rw [complete]
    split
    · exact .stop hr ⟨rfl, rfl, rfl⟩ rfl rfl rfl
    split
    · exact .stop hr ⟨rfl, rfl, rfl⟩ rfl rfl rfl
    · exact ⟨⟨rfl, rfl, rfl⟩, ⟨hr.startProxy, hr.connectLogin⟩, .inl rfl⟩
  | startConnectionAttempt =>
    rw [complete]
    split
    · exact .stop hr ⟨rfl, rfl, rfl⟩ rfl rfl rfl
    · exact hs
  | startProxyConnection =>
    rw [complete]
    split
    · have hgone : Moves s { s with
          creds := none
          crypto := none
          outSequence := 0
          tag := 0
          sequence := 0 } :=
        ⟨⟨rfl, rfl, rfl⟩, ⟨hr.startProxy, hr.connectLogin⟩, .inr fun _ => ⟨rfl, htype rfl, rfl⟩⟩
      exact hgone.sendCcdChallenge
    · exact ⟨⟨rfl, rfl, rfl⟩, ⟨hr.startProxy, hr.connectLogin⟩, .inl rfl⟩
  | setPxdConfiguration => exact ⟨⟨rfl, rfl, rfl⟩, ⟨hr.startProxy, hr.connectLogin⟩, .inr hk⟩
  | _ => exact hs

theorem moves_dispatch {packet : List UInt8} {v : Unpacked} {blob : Option Blob}
    {nullCrypto : Bool} (hr : s.Roles) (hk : s.crypto = none → s.KeysGone) :
    Moves s (s.dispatch prim packet v blob nullCrypto env).client := by
  unfold dispatch
  dsimp only
  split
  · rename_i hdirect
    refine moves_complete hr hk fun htype => ?_
    rw [htype] at hdirect
    simp at hdirect
  · split
    · exact ⟨.refl s, hr, .inr hk⟩
    · rename_i command outstanding hfind
      have hr' : Roles { s with outstanding := outstanding } :=
        ⟨fun hproxy c hc => hr.startProxy hproxy c (Outstanding.mem_of_find hfind hc),
          hr.connectLogin⟩
      refine Moves.of_frame (t := { s with outstanding := outstanding }) ⟨rfl, rfl, rfl⟩
        (moves_complete hr' hk fun htype => ?_)
      by_contra hproxy
      exact hr.startProxy (by simpa using hproxy) command (Outstanding.asyncId_of_find hfind).1
        htype

theorem Moves.crash (h : Moves u s) {fault : Fault} {nullCrypto : Bool} :
    Moves u (s.crash fault nullCrypto).client :=
  ⟨h.toFrame.trans ⟨rfl, rfl, rfl⟩, ⟨h.startProxy, h.connectLogin⟩, h.keys⟩

theorem moves_processUnpacked {packet : List UInt8} {v : Unpacked} (hr : s.Roles)
    (hk : s.crypto = none → s.KeysGone) :
    Moves s (s.processUnpacked prim packet v env).client := by
  have hs : Moves s s := ⟨.refl s, hr, .inr hk⟩
  unfold processUnpacked
  split
  · split
    · exact hs.crash
    · exact hs.rejectLogin
    · rename_i t blob hlogin
      obtain ⟨_, -, -, -, rfl⟩ := of_processLogin hlogin
      refine .of_frame (t := { s with crypto := some (createCrypto blob.key) }) ⟨rfl, rfl, rfl⟩ ?_
      have hr' : Roles { s with crypto := some (createCrypto blob.key) } :=
        ⟨hr.startProxy, hr.connectLogin⟩
      split
      · exact moves_dispatch hr' (by simp)
      · exact Moves.rejectLogin ⟨.refl _, hr', .inr (by simp)⟩
  · split
    · exact hs.crash
    · exact hs
    · exact moves_dispatch hr hk

theorem moves_processPacket {packet : List UInt8} (hr : s.Roles)
    (hk : s.crypto = none → s.KeysGone) :
    Moves s (s.processPacket prim packet env).client := by
  unfold processPacket
  split
  · exact Moves.crash ⟨.refl s, hr, .inr hk⟩
  · rename_i t hswitch
    have ht : Frame s t ∧ t.Roles ∧ (t.crypto = none → t.KeysGone) := by
      unfold switchKeys at hswitch
      split at hswitch
      · obtain ⟨creds, -, rfl⟩ := Option.map_eq_some_iff.1 hswitch
        exact ⟨⟨rfl, rfl, rfl⟩, ⟨hr.startProxy, hr.connectLogin⟩, by simp⟩
      split at hswitch
      · obtain rfl := Option.some.inj hswitch
        exact ⟨⟨rfl, rfl, rfl⟩, ⟨hr.startProxy, hr.connectLogin⟩, hk⟩
      · obtain rfl := Option.some.inj hswitch
        exact ⟨.refl s, hr, hk⟩
    obtain ⟨hf, hr', hk'⟩ := ht
    split
    · rename_i sequence _
      exact .of_frame (t := { t with sequence := sequence }) (hf.trans ⟨rfl, rfl, rfl⟩)
        ⟨.refl _, ⟨hr'.startProxy, hr'.connectLogin⟩, .inr hk'⟩
    · rename_i v sequence _
      exact .of_frame (t := { t with sequence := sequence }) (hf.trans ⟨rfl, rfl, rfl⟩)
        (moves_processUnpacked ⟨hr'.startProxy, hr'.connectLogin⟩ hk')

/-! ## Steps -/

/-- A step leads from `s` to `t`. -/
structure Steps (s t : Client) : Prop extends Frame s t, Sound t

theorem Steps.of_phase (hf : Frame s t) (hr : t.Roles) (hphase : t.phase ≠ .running) :
    Steps s t :=
  ⟨hf, ⟨hr, fun h => absurd h hphase⟩⟩

theorem Roles.declareDown (h : s.Roles) : s.declareDown.1.Roles :=
  ⟨fun _ _ hc => absurd hc Outstanding.not_mem_killAll, h.connectLogin⟩

theorem Roles.finish (h : s.Roles) : s.finish.1.Roles :=
  ⟨fun _ _ hc => absurd hc Outstanding.not_mem_killAll, h.connectLogin⟩

theorem steps_finish (h : s.Roles) : Steps s s.finish.1 :=
  .of_phase ⟨rfl, rfl, rfl⟩ h.finish (by rintro ⟨⟩)

theorem steps_leaveLoop (h : s.Roles) : Steps s s.leaveLoop.1 := by
  unfold leaveLoop
  split
  · exact .of_phase ⟨rfl, rfl, rfl⟩ (Roles.finish ⟨h.startProxy, h.connectLogin⟩) (by rintro ⟨⟩)
  · exact .of_phase ⟨rfl, rfl, rfl⟩ ⟨h.declareDown.startProxy, h.connectLogin⟩ (by rintro ⟨⟩)

theorem steps_receive {packet : List UInt8} (h : s.Sound) (hphase : s.phase = .running) :
    Steps s (s.receive prim packet env).client := by
  have hm : Moves s (s.processPacket prim packet env).client :=
    moves_processPacket h.toRoles (h.keys hphase)
  unfold receive
  dsimp only
  split
  · rename_i hgoes
    refine ⟨hm.toFrame, hm.toRoles, fun hrunning hcrypto => ?_⟩
    obtain hne | ⟨-, hstop⟩ := hgoes
    · exact absurd hrunning hne
    · exact (hm.keys.resolve_left hstop) hcrypto
  · have hl := steps_leaveLoop hm.toRoles
    exact ⟨hm.toFrame.trans hl.toFrame, hl.toSound⟩

theorem steps_readChallenge {packet : List UInt8} (h : s.Roles) :
    Steps s (s.readChallenge packet env).client := by
  unfold readChallenge
  extract_lets failed
  have hfailed {t : Client} (hf : Frame s t) (ht : t.Roles) : Steps s (failed t).client :=
    .of_phase (hf.trans ⟨rfl, rfl, rfl⟩) ⟨ht.declareDown.startProxy, ht.connectLogin⟩
      (by rintro ⟨⟩)
  split
  · exact hfailed (.refl s) h
  rename_i v _
  split
  · exact hfailed (.refl s) h
  extract_lets t
  have ht : Frame s t ∧ t.Roles := ⟨⟨rfl, rfl, rfl⟩, ⟨h.startProxy, h.connectLogin⟩⟩
  split
  · exact .of_phase ⟨rfl, rfl, rfl⟩ ⟨h.startProxy, h.connectLogin⟩ (by rintro ⟨⟩)
  rename_i crypto _
  have hsend : Moves s ({ t with crypto := some crypto, readyToSend := true }.sendLogin
      sendPxdLogin v env).1 ∧ ({ t with crypto := some crypto, readyToSend := true }.sendLogin
      sendPxdLogin v env).1.crypto = some crypto := by
    have hs := sends_sendCommand { t with crypto := some crypto, readyToSend := true }
    refine ⟨Moves.sendLogin ⟨⟨rfl, rfl, rfl⟩, ⟨h.startProxy, h.connectLogin⟩, .inr (by simp)⟩
      (by decide), ?_⟩
    obtain ⟨_, _, _, heq⟩ := (hs _ _ _ _ _).eq
    exact congrArg Client.crypto heq
  split
  rename_i hlogin
  rw [hlogin] at hsend
  obtain ⟨hm, hcrypto⟩ := hsend
  split
  · refine ⟨⟨hm.id, hm.blobCrypto, hm.isProxy⟩, ⟨⟨hm.startProxy, hm.connectLogin⟩, ?_⟩⟩
    intro _ hnone
    rw [hcrypto] at hnone
    cases hnone
  · exact hfailed hm.toFrame hm.toRoles

theorem steps_prepHead {reports : List (Report × Bool)} (h : s.Sound) :
    Steps s (s.prepHead reports).client := by
  unfold prepHead
  split
  · exact ⟨.refl s, h⟩
  split
  · exact ⟨.refl s, h⟩
  split
  · exact .of_phase ⟨rfl, rfl, rfl⟩ ⟨h.startProxy, h.connectLogin⟩ (by rintro ⟨⟩)
  · exact ⟨⟨rfl, rfl, rfl⟩, ⟨⟨h.startProxy, h.connectLogin⟩, h.keys⟩⟩

theorem steps_packetSent {packet : QueuedPacket} {rest : List QueuedPacket} (h : s.Sound) :
    Steps s (s.packetSent packet rest).client := by
  have hprep {t : Client} {reports : List (Report × Bool)} (hf : Frame s t) (ht : t.Sound) :
      Steps s (t.prepHead reports).client :=
    have hs := steps_prepHead ht
    ⟨hf.trans hs.toFrame, hs.toSound⟩
  unfold packetSent
  dsimp only
  split
  · exact hprep ⟨rfl, rfl, rfl⟩ ⟨⟨h.startProxy, h.connectLogin⟩, h.keys⟩
  · exact hprep ⟨rfl, rfl, rfl⟩ ⟨⟨h.startProxy, h.connectLogin⟩, h.keys⟩

theorem Sends.steps {type : PacketType} (h : Sends type s t) (hs : s.Sound)
    (htype : type ≠ startProxyConnection) : Steps s t where
  toFrame := h.frame
  toRoles := h.roles hs.toRoles fun h => absurd h htype
  keys := by
    obtain ⟨_, _, _, rfl⟩ := h.eq
    exact hs.keys

theorem steps_declare {ansDns pxdDns : List UInt8} {addresses : List Address} (h : s.Sound) :
    Steps s (s.declare ansDns pxdDns addresses env).client := by
  unfold declare
  split
  · exact (sends_request s _ _ _).steps h (by rintro ⟨⟩)
  · exact ⟨.refl s, h⟩

theorem steps_connect {c : Connect} (h : s.Sound) (hproxy : s.isProxy = false) :
    Steps s (s.connect c env).client := by
  unfold connect
  split
  · exact ⟨.refl s, h⟩
  split
  · exact ⟨.refl s, h⟩
  extract_lets v attempt t
  have hstart : Sound { s with
      connectCreds := some c.creds
      connectTarget := some c.target
      connectLogin := true
      connectOpaque := c.opOpaque } := by
    refine ⟨⟨h.startProxy, fun hp => ?_⟩, h.keys⟩
    rw [hproxy] at hp
    cases hp
  have ha : Steps _ attempt.client := (sends_request _ _ _ _).steps hstart (by rintro ⟨⟩)
  have ht : Steps s t := by
    by_cases hpass : attempt.pass = true
    · rw [show t = attempt.client from if_pos hpass]
      exact ⟨⟨ha.id, ha.blobCrypto, ha.isProxy⟩, ha.toSound⟩
    · rw [show t = attempt.client.connectCleanup from if_neg hpass]
      exact ⟨⟨ha.id, ha.blobCrypto, ha.isProxy⟩, ⟨⟨ha.startProxy, fun _ => rfl⟩, ha.keys⟩⟩
  exact ⟨⟨ht.id, ht.blobCrypto, ht.isProxy⟩, ⟨⟨ht.startProxy, ht.connectLogin⟩, ht.keys⟩⟩

theorem Sound.steps {e : Event} (h : s.Sound) (hs : s.step prim e = some t) : Steps s t := by
  obtain ⟨o, -, ho, rfl⟩ := handles_of_step hs
  have hidle {t : Client} (hf : Frame s t) (hr : t.Roles) (hphase : t.phase ≠ .running) :
      Steps s t := .of_phase hf hr hphase
  cases ho with
  | connected => exact hidle ⟨rfl, rfl, rfl⟩ ⟨h.startProxy, h.connectLogin⟩ (by rintro ⟨⟩)
  | noChallenge =>
    exact hidle ⟨rfl, rfl, rfl⟩ ⟨h.declareDown.startProxy, h.connectLogin⟩ (by rintro ⟨⟩)
  | challenge => exact steps_readChallenge h.toRoles
  | receive packet env hphase => exact steps_receive h hphase
  | write => exact steps_prepHead h
  | sent => exact steps_packetSent h
  | checkTimeout =>
    exact ⟨⟨rfl, rfl, rfl⟩, ⟨⟨fun hp c hc => h.startProxy hp c (Outstanding.mem_of_checkTimeout hc),
      h.connectLogin⟩, h.keys⟩⟩
  | leave => exact steps_leaveLoop h.toRoles
  | stopped => exact steps_finish h.toRoles
  | lookup => exact (sends_request s _ _ _).steps h (by rintro ⟨⟩)
  | declare => exact steps_declare h
  | connect c env hproxy => exact steps_connect h hproxy
  | stop => exact ⟨⟨rfl, rfl, rfl⟩, ⟨⟨h.startProxy, h.connectLogin⟩, h.keys⟩⟩
  | restart => exact hidle ⟨rfl, rfl, rfl⟩ ⟨h.startProxy, h.connectLogin⟩ (by rintro ⟨⟩)

theorem sound_doOpen (id : Identity) (region cluster : List UInt8) (creds : Credentials)
    (isIncoming : Bool) (proxy : Option (Identity × UInt64 × Crypto))
    (parameters : Configuration) :
    (doOpen id region cluster creds isIncoming proxy parameters).Sound where
  startProxy := by simp [doOpen, Outstanding.empty]
  connectLogin := fun _ => rfl
  keys := by rintro ⟨⟩

end Client

end PersonalCloud.Pxd
