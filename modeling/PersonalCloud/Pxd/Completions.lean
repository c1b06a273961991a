import PersonalCloud.Pxd.Keys

/-!
# Who completes a command

A client should report a command as successful only for a packet whose signature it has
verified, and never check or prepare a packet without keys. Four types need no signature, and
a reply is matched by its operation id alone, so a packet of such a type completes most
commands. A proxy client gives its keys up when its connection is made, and has none until
the login comes.

## Main results

* `Client.vouched_complete_iff` — which reports of a success a reply leads to.
* `authenticated_iff` — the runs that report a success only for verified packets and never
  do without keys.
-/

namespace PersonalCloud.Pxd

open PersonalCloud.Lib PacketType

/-! ## The property -/

/-- Successes are reported for verified packets only. -/
def Vouched (reports : List (Report × Bool)) : Prop :=
  ∀ r ∈ reports, r.1.isSuccess = true → r.2 = true

instance (reports : List (Report × Bool)) : Decidable (Vouched reports) :=
  inferInstanceAs (Decidable (∀ r ∈ reports, r.1.isSuccess = true → r.2 = true))

def Outcome.Authenticated (o : Outcome) : Prop :=
  Vouched o.reports ∧ o.nullCrypto = false

instance (o : Outcome) : Decidable o.Authenticated :=
  inferInstanceAs (Decidable (_ ∧ _))

namespace Client

/-- What the event comes to is authenticated. -/
def Authenticated (prim : Primitives) (s : Client) (e : Event) : Prop :=
  ∀ o ∈ s.handle prim e, o.Authenticated

instance (prim : Primitives) (s : Client) (e : Event) : Decidable (s.Authenticated prim e) :=
  inferInstanceAs (Decidable (∀ o ∈ s.handle prim e, o.Authenticated))

/-! ## The condition -/

/-- The reply reports a command of the type as successful. -/
def completes (s : Client) (type : PacketType) (u : Unpacked) (env : Env) : Bool :=
  match type with
  | .sendCcdChallenge => !s.connectLogin && !s.stopNow && env.packs
  | sendPxdLogin =>
    u.type ≠ rejectPxdCredentials && !s.isProxy && replyResult u = pxdOpSuccessful
  | sendCcdLogin => u.type ≠ rejectCcdCredentials && replyResult u = pxdOpSuccessful
  | queryServerDeclaration => replyResult u = pxdOpSuccessful
  | _ => false

/-- A packet of a type that is not signed comes as the reply to a command, and reports it as
successful. -/
def CompletesUnsigned (s : Client) (packet : List UInt8) (env : Env) : Bool :=
  (unpack packet s.sequence s.tag).1.any fun u =>
    !isSigned u.type.code && !(u.type = .sendCcdChallenge && s.connectLogin) &&
      (s.outstanding.find u.asyncId).any fun reply => s.completes reply.1.type u env

/-- A packet other than a login is decoded when the keys have been given up. -/
def ChecksWithoutKeys (s : Client) (packet : List UInt8) : Bool :=
  s.KeysGone && getType packet ≠ some sendCcdLogin.code &&
    !(s.connectLogin && getType packet = some PacketType.sendCcdChallenge.code) &&
      (unpack packet s.sequence s.tag).1.isSome

/-- No packet completes a command unsigned; and none is checked or prepared by a proxy client
that has given up its keys and waits for the next. -/
def RepliesSigned (s : Client) : Event → Prop
  | .receive packet env =>
    s.CompletesUnsigned packet env = false ∧ s.ChecksWithoutKeys packet = false
  | .write => s.KeysGone → ∀ packet ∈ s.queue.head?, packet.prepared = true
  | .sent => s.KeysGone → s.queue.tail = []
  | _ => True

instance (s : Client) : (e : Event) → Decidable (s.RepliesSigned e)
  | .receive _ _ => inferInstanceAs (Decidable (_ ∧ _))
  | .write => inferInstanceAs (Decidable (_ → ∀ packet ∈ s.queue.head?, _))
  | .sent => inferInstanceAs (Decidable (_ → _))
  | .connected | .challenge _ _ | .checkTimeout _ | .leave | .lookup _ _ _ _ | .declare _ _ _ _
  | .connect _ _ | .stop | .restart => isTrue trivial

/-! ## What is reported -/

section Reports

variable {s : Client} {env : Env}

theorem vouched_nil : Vouched [] := by
  simp [Vouched]

theorem vouched_append {l₁ l₂ : List (Report × Bool)} :
    Vouched (l₁ ++ l₂) ↔ Vouched l₁ ∧ Vouched l₂ := by
  simp [Vouched, or_imp, forall_and]

theorem vouched_singleton {r : Report} {verified : Bool} :
    Vouched [(r, verified)] ↔ (r.isSuccess = true → verified = true) := by
  simp [Vouched]

/-- Killed commands are not successful. -/
theorem vouched_kill (commands : List Command) {result : UInt64} (h : result ≠ pxdOpSuccessful) :
    Vouched (kill commands result) := by
  intro r hr
  obtain ⟨c, -, hc⟩ := List.mem_filterMap.1 hr
  split at hc
  · obtain rfl := Option.some.inj hc
    simp [Report.isSuccess, h]
  · cases hc

theorem vouched_queuePacket {packet : QueuedPacket} {opOpaque : Option Nat} {now : Nat}
    {atHead : Bool} {t : Client} {reports : List (Report × Bool)}
    (h : s.queuePacket packet opOpaque now atHead = some (t, reports)) : Vouched reports := by
  unfold queuePacket at h
  split at h
  · cases h
  · obtain ⟨_, -, hq⟩ := Option.map_eq_some_iff.1 h
    obtain ⟨-, rfl⟩ := Prod.mk.inj hq
    exact vouched_kill _ (by decide)

theorem vouched_sendCommand (s : Client) (u : Unpacked) (prequeue : Bool) (blob : Option Blob)
    (verified : Bool) (env : Env) :
    Vouched (s.sendCommand u prequeue blob verified env).2.1 := by
  unfold sendCommand
  split
  split
  · split
    · exact vouched_nil
    · rename_i hq
      exact vouched_queuePacket hq
  · exact vouched_nil

theorem isSome_queuePacket (packet : QueuedPacket) (opOpaque : Option Nat) (now : Nat)
    (atHead : Bool) (hfree : none ∈ s.outstanding) :
    (s.queuePacket packet opOpaque now atHead).isSome = !s.stopNow := by
  unfold queuePacket
  split
  · rename_i hstop
    simp [hstop]
  · rename_i hstop
    simpa [hstop] using Outstanding.isSome_add hfree

/-- With a slot free a response is sent unless the client stops. -/
theorem sent_sendCommand {u : Unpacked} {prequeue : Bool} {blob : Option Blob} {verified : Bool}
    (htype : u.type = .sendCcdResponse) (hfree : none ∈ s.outstanding) :
    (s.sendCommand u prequeue blob verified env).2.2 = (env.packs && !s.stopNow) := by
  unfold sendCommand
  rw [htype]
  dsimp only
  rw [← isSome_queuePacket ⟨u, blob, false, verified⟩ none env.now prequeue hfree]
  split
  · rename_i hpacks
    split <;> simp_all
  · rename_i hpacks
    simp [hpacks]

theorem vouched_sendCcdResponse_iff {address : Option (List UInt8)} {port : UInt32}
    {blob : Option Blob} {verified : Bool} (hfree : none ∈ s.outstanding) :
    Vouched (s.sendCcdResponse address port blob pxdOpSuccessful verified env).2.1 ↔
      ((!s.stopNow && env.packs) = true → verified = true) := by
  unfold sendCcdResponse
  have htype : (ccdResponse address port pxdOpSuccessful).type = .sendCcdResponse := rfl
  generalize ccdResponse address port pxdOpSuccessful = u at htype ⊢
  have hreports := vouched_sendCommand s u false blob verified env
  have hsent : (s.sendCommand u false blob verified env).2.2 = _ := sent_sendCommand htype hfree
  generalize s.sendCommand u false blob verified env = sending at hreports hsent ⊢
  obtain ⟨t, reports, sent⟩ := sending
  dsimp only at hreports hsent ⊢
  rw [Bool.and_comm, ← hsent, vouched_append, and_iff_right hreports]
  cases sent
  · simp [vouched_nil]
  · simp [vouched_singleton, Report.isSuccess]

/-- Which replies lead to the report of a success. -/
theorem vouched_complete_iff {type : PacketType} {opOpaque : Option Nat} {u : Unpacked}
    {blob : Option Blob} {verified : Bool}
    (hfree : type = .sendCcdChallenge → s.connectLogin = false → none ∈ s.outstanding) :
    Vouched (s.complete type opOpaque u blob verified env).2.1 ↔
      (s.completes type u env = true → verified = true) := by
  have hfailed : pxdOpFailed ≠ pxdOpSuccessful := by decide
  cases type with
  | sendCcdChallenge =>
    by_cases hlogin : s.connectLogin = true
    · have hsend := vouched_sendCommand
      simp only [complete, completes, hlogin, if_true, sendLogin]
      simpa using hsend _ _ _ _ _ _
    · have hc : s.completes .sendCcdChallenge u env = (!s.stopNow && env.packs) := by
        simp [completes, hlogin]
      rw [hc, complete, if_neg hlogin]
      rw [Bool.not_eq_true] at hlogin
      exact vouched_sendCcdResponse_iff (s := { s with readable := false, tag := s.proxyTag })
        (hfree rfl hlogin)
  | sendPxdLogin =>
    simp only [complete, completes]
    split
    · rename_i htype
      by_cases hproxy : s.isProxy = true <;>
        simp [htype, hproxy, vouched_nil, vouched_singleton, Report.isSuccess]
    · rename_i htype
      split
      · rename_i hproxy
        simpa [hproxy, sendStartProxy] using vouched_sendCommand _ _ _ _ _ _
      · rename_i hproxy
        simp [Vouched, htype, hproxy, Report.isSuccess]
  | sendCcdLogin =>
    simp only [complete, completes]
    split
    · rename_i htype
      simp [vouched_singleton, htype, Report.isSuccess]
    · rename_i htype
      split
      · rename_i hresult
        simp [vouched_singleton, htype, hresult, hfailed, Report.isSuccess]
      · rename_i hresult
        simp [vouched_singleton, htype, Report.isSuccess]
  | queryServerDeclaration => simp [complete, completes, vouched_singleton, Report.isSuccess]
  | startConnectionAttempt =>
    simp only [complete, completes]
    split
    · rename_i hresult
      simp [vouched_singleton, hresult, Report.isSuccess]
    · simp [vouched_nil]
  | startProxyConnection =>
    simp only [complete, completes]
    split
    · simpa [Client.sendCcdChallenge] using vouched_sendCommand _ _ _ _ _ _
    · simp [vouched_nil]
  | _ => simp [complete, completes, vouched_nil]

end Reports

/-! ## Handling a packet -/

section Packets

variable {prim : Primitives} {s : Client} {packet : List UInt8} {u : Unpacked} {env : Env}
  {blob : Option Blob} {nullCrypto : Bool}

/-- The packet comes as the reply to a command, and reports it as successful. -/
def CompletesCommand (s : Client) (u : Unpacked) (env : Env) : Bool :=
  !(u.type = .sendCcdChallenge && s.connectLogin) &&
    (s.outstanding.find u.asyncId).any fun reply => s.completes reply.1.type u env

@[simp] theorem nullCrypto_dispatch :
    (s.dispatch prim packet u blob nullCrypto env).nullCrypto = nullCrypto := by
  unfold dispatch
  dsimp only
  split
  · rfl
  · split <;> rfl

theorem vouched_dispatch_iff
    (hconfig : u.type = setPxdConfiguration → isVerified prim s.crypto packet = true) :
    Vouched (s.dispatch prim packet u blob nullCrypto env).reports ↔
      (s.CompletesCommand u env = true → isVerified prim s.crypto packet = true) := by
  unfold dispatch CompletesCommand
  dsimp only
  split
  · rename_i hdirect
    obtain ⟨htype, hlogin⟩ | htype := hdirect
    · rw [vouched_complete_iff (by simp [hlogin])]
      simp [htype, hlogin, completes]
    · rw [vouched_complete_iff (by simp [htype])]
      simp [htype, completes, hconfig htype]
  · rename_i hdirect
    rw [not_or] at hdirect
    have hchallenge : (u.type = .sendCcdChallenge && s.connectLogin) = false := by
      simpa using hdirect.1
    split
    · rename_i hfind
      simp [hfind, vouched_nil]
    · rename_i command outstanding hfind
      have hfree := Outstanding.none_mem_of_find hfind
      rw [vouched_complete_iff fun _ _ => hfree]
      simp [hfind, hchallenge, completes]

/-- A packet that passes the check with keys in force is verified if it is of a signed type. -/
theorem isVerified_of_check {crypto : Crypto} {sequence tag : UInt64}
    (hu : (unpack packet sequence tag).1 = some u)
    (hcheck : checkSignature prim crypto packet = true) :
    isVerified prim (some crypto) packet = isSigned u.type.code := by
  simp [isVerified, hcheck, isSigned_of_unpack hu]

theorem authenticated_dispatch_iff {crypto : Crypto} {sequence tag : UInt64}
    (hu : (unpack packet sequence tag).1 = some u) (hcrypto : s.crypto = some crypto)
    (hcheck : checkSignature prim crypto packet = true) :
    (s.dispatch prim packet u blob false env).Authenticated ↔
      (isSigned u.type.code = false → s.CompletesCommand u env = false) := by
  have hverified : isVerified prim s.crypto packet = isSigned u.type.code := by
    rw [hcrypto]
    exact isVerified_of_check hu hcheck
  have hconfig : u.type = setPxdConfiguration → isVerified prim s.crypto packet = true := by
    intro htype
    rw [hverified, htype]
    rfl
  rw [Outcome.Authenticated, vouched_dispatch_iff hconfig, nullCrypto_dispatch, hverified]
  cases isSigned u.type.code <;> simp

theorem authenticated_of_vouched {reports : List (Report × Bool)} {pass : Bool}
    (h : Vouched reports) : (Outcome.mk s reports false pass).Authenticated :=
  ⟨h, rfl⟩

theorem authenticated_rejectLogin : (s.rejectLogin u env).Authenticated := by
  unfold rejectLogin sendRejectCcd
  exact ⟨by simpa using vouched_sendCommand _ _ _ _ _ _, rfl⟩

/-- A login is checked in any case. -/
theorem authenticated_processUnpacked_login {sequence tag : UInt64}
    (hu : (unpack packet sequence tag).1 = some u)
    (htype : getType packet = some sendCcdLogin.code) :
    (s.processUnpacked prim packet u env).Authenticated := by
  unfold processUnpacked
  rw [if_pos htype]
  split
  · exact authenticated_of_vouched vouched_nil
  · exact authenticated_rejectLogin
  · rename_i t blob hlogin
    split
    · rename_i hcheck
      cases hcrypto : t.crypto with
      | none =>
        have hsigned : isSigned sendCcdLogin.code = true := rfl
        simp [hcrypto, signatureCheck, htype, hsigned] at hcheck
      | some crypto =>
        have hcheck : checkSignature prim crypto packet = true := by
          simpa [hcrypto, signatureCheck] using hcheck
        refine (authenticated_dispatch_iff hu hcrypto hcheck).2 fun hsigned => ?_
        rw [type_of_unpack hu htype] at hsigned
        cases hsigned
    · exact authenticated_rejectLogin

theorem authenticated_processUnpacked_iff {sequence tag : UInt64}
    (hu : (unpack packet sequence tag).1 = some u)
    (htype : getType packet ≠ some sendCcdLogin.code) :
    (s.processUnpacked prim packet u env).Authenticated ↔
      s.crypto.isNone = false ∧
        (isSigned u.type.code = false → s.CompletesCommand u env = false) := by
  unfold processUnpacked
  rw [if_neg htype]
  cases hcrypto : s.crypto with
  | none =>
    split <;> simp [Outcome.Authenticated, crash]
  | some crypto =>
    simp only [signatureCheck, Option.isNone_some, true_and]
    cases hcheck : checkSignature prim crypto packet with
    | true => exact authenticated_dispatch_iff hu hcrypto hcheck
    | false =>
      refine iff_of_true (authenticated_of_vouched vouched_nil) fun hsigned => ?_
      rw [checkSignature_of_unsigned hu hsigned] at hcheck
      cases hcheck

theorem completesUnsigned_eq_false_iff :
    s.CompletesUnsigned packet env = false ↔
      ∀ u, (unpack packet s.sequence s.tag).1 = some u → isSigned u.type.code = false →
        s.CompletesCommand u env = false := by
  unfold CompletesUnsigned CompletesCommand
  cases (unpack packet s.sequence s.tag).1 with
  | none => simp
  | some u => cases isSigned u.type.code <;> simp

theorem authenticated_processPacket_iff (hkeys : s.crypto = none ↔ s.KeysGone) :
    (s.processPacket prim packet env).Authenticated ↔
      s.CompletesUnsigned packet env = false ∧ s.ChecksWithoutKeys packet = false := by
  have hnone : ∀ {t : Client}, (Outcome.mk t [] false false).Authenticated :=
    authenticated_of_vouched vouched_nil
  rw [completesUnsigned_eq_false_iff]
  unfold processPacket switchKeys
  by_cases hswitch : s.connectLogin = true ∧ getType packet = some PacketType.sendCcdChallenge.code
  · -- the other key is in force, and the challenge is not looked up
    rw [if_pos hswitch]
    obtain ⟨hlogin, htype⟩ := hswitch
    refine iff_of_true ?_ ⟨fun u hu _ => ?_, by simp [ChecksWithoutKeys, hlogin, htype]⟩
    · cases s.connectCreds with
      | none => exact authenticated_of_vouched vouched_nil
      | some creds =>
        dsimp only [Option.map_some]
        split
        · exact hnone
        · rename_i u sequence hu
          have hu := congrArg Prod.fst hu
          have htype' := type_of_unpack hu htype
          rw [authenticated_processUnpacked_iff hu (by simp [htype]; decide)]
          exact ⟨rfl, fun _ => by simp [CompletesCommand, htype', hlogin]⟩
    · simp [CompletesCommand, type_of_unpack hu htype, hlogin]
  rw [if_neg hswitch]
  by_cases hlogin : getType packet = some sendCcdLogin.code
  · rw [if_pos hlogin]
    refine iff_of_true ?_ ⟨fun u hu hsigned => ?_, by simp [ChecksWithoutKeys, hlogin]⟩
    · dsimp only
      split
      · exact hnone
      · rename_i hu
        exact authenticated_processUnpacked_login (congrArg Prod.fst hu) hlogin
    · rw [type_of_unpack hu hlogin] at hsigned
      cases hsigned
  rw [if_neg hlogin]
  dsimp only
  split
  · rename_i hu
    refine iff_of_true hnone ⟨fun u hu' => ?_, ?_⟩
    · rw [hu] at hu'
      cases hu'
    · simp [ChecksWithoutKeys, hu]
  · rename_i u sequence hu
    have hchecks : s.ChecksWithoutKeys packet = s.crypto.isNone := by
      have hdirect : (s.connectLogin && getType packet = some PacketType.sendCcdChallenge.code) =
          false := by simpa using hswitch
      cases hcrypto : s.crypto <;> simp [ChecksWithoutKeys, hu, hlogin, hdirect, ← hkeys, hcrypto]
    rw [authenticated_processUnpacked_iff (congrArg Prod.fst hu) hlogin, hchecks, and_comm, hu]
    simp [CompletesCommand, completes]

end Packets

/-! ## The other events -/

section Events

variable {prim : Primitives} {s t : Client} {env : Env}

theorem vouched_declareDown : Vouched s.declareDown.2 :=
  vouched_kill _ (by decide)

theorem vouched_finish : Vouched s.finish.2 := by
  refine vouched_append.2 ⟨?_, vouched_declareDown⟩
  intro r hr
  obtain ⟨opOpaque, -, rfl⟩ := List.mem_map.1 hr
  intro hsuccess
  cases hsuccess

theorem vouched_leaveLoop : Vouched s.leaveLoop.2 := by
  unfold leaveLoop
  split
  · exact vouched_finish
  · exact vouched_declareDown

theorem authenticated_receive_iff {packet : List UInt8} :
    (s.receive prim packet env).Authenticated ↔
      (s.processPacket prim packet env).Authenticated := by
  unfold receive
  dsimp only
  split
  · rfl
  · simp [Outcome.Authenticated, vouched_append, vouched_leaveLoop]

theorem authenticated_readChallenge {packet : List UInt8} :
    (s.readChallenge packet env).Authenticated := by
  unfold readChallenge
  extract_lets failed
  have hfailed (s : Client) : (failed s).Authenticated :=
    authenticated_of_vouched vouched_declareDown
  split
  · exact hfailed s
  rename_i u _
  split
  · exact hfailed s
  extract_lets t
  split
  · exact authenticated_of_vouched vouched_nil
  rename_i crypto _
  have hsend : Vouched ({ t with crypto := some crypto, readyToSend := true }.sendLogin
    sendPxdLogin u env).2.1 := vouched_sendCommand _ _ _ _ _ _
  split
  rename_i hlogin
  rw [hlogin] at hsend
  split
  · exact authenticated_of_vouched hsend
  · exact ⟨vouched_append.2 ⟨hsend, (hfailed _).1⟩, rfl⟩

theorem authenticated_request {u : Unpacked} {opOpaque : Option Nat} :
    (s.request u opOpaque env).Authenticated := by
  unfold request
  split
  split
  · split
    · exact authenticated_of_vouched vouched_nil
    · rename_i hq
      exact authenticated_of_vouched (vouched_queuePacket hq)
  · exact authenticated_of_vouched vouched_nil

theorem authenticated_declare {ansDns pxdDns : List UInt8} {addresses : List Address} :
    (s.declare ansDns pxdDns addresses env).Authenticated := by
  unfold declare
  split
  · exact authenticated_request
  · exact authenticated_of_vouched vouched_nil

theorem authenticated_connect {c : Connect} : (s.connect c env).Authenticated := by
  unfold connect
  split
  · exact authenticated_of_vouched vouched_nil
  split
  · exact authenticated_of_vouched vouched_nil
  · exact authenticated_request

theorem authenticated_prepHead_iff {reports : List (Report × Bool)} (h : Vouched reports) :
    (s.prepHead reports).Authenticated ↔
      (s.crypto = none → ∀ packet ∈ s.queue.head?, packet.prepared = true) := by
  unfold prepHead
  split
  · rename_i hq
    simp [Outcome.Authenticated, h, hq]
  · rename_i packet rest hq
    split
    · rename_i hprepared
      simp [Outcome.Authenticated, h, hq, hprepared]
    rename_i hprepared
    split
    · rename_i hnull
      simp [Outcome.Authenticated, crash, hq, hprepared, hnull.1]
    · cases hcrypto : s.crypto <;> simp [Outcome.Authenticated, h, hq, hprepared]

end Events

/-! ## Logins that are completed -/

/-- The packets that complete a login were queued for one that was verified. -/
def LoginsVerified (s : Client) : Prop :=
  ∀ packet ∈ s.queue, packet.blob.isSome = true → packet.verified = true

section Logins

variable {prim : Primitives} {s t : Client} {env : Env}

theorem loginsVerified_of_queue (h : s.LoginsVerified) (hq : t.queue = s.queue) :
    t.LoginsVerified := by
  rwa [LoginsVerified, hq]

theorem LoginsVerified.queuePacket {packet : QueuedPacket} {opOpaque : Option Nat} {now : Nat}
    {atHead : Bool} {reports : List (Report × Bool)} (h : s.LoginsVerified)
    (hpacket : packet.blob.isSome = true → packet.verified = true)
    (hq : s.queuePacket packet opOpaque now atHead = some (t, reports)) : t.LoginsVerified := by
  unfold Client.queuePacket at hq
  split at hq
  · cases hq
  · obtain ⟨_, -, hq⟩ := Option.map_eq_some_iff.1 hq
    obtain ⟨rfl, -⟩ := Prod.mk.inj hq
    intro p hp
    cases atHead
    · obtain hp | hp := List.mem_append.1 hp
      · exact h p hp
      · rwa [List.mem_singleton.1 hp]
    · obtain hp | hp := List.mem_cons.1 hp
      · rwa [hp]
      · exact h p hp

theorem LoginsVerified.sendCommand {u : Unpacked} {prequeue : Bool} {blob : Option Blob}
    {verified : Bool} (h : s.LoginsVerified) (hblob : blob.isSome = true → verified = true) :
    (s.sendCommand u prequeue blob verified env).1.LoginsVerified := by
  unfold Client.sendCommand
  split
  rename_i t u' hsetup
  have ht : t.LoginsVerified := by
    refine loginsVerified_of_queue h ?_
    split at hsetup <;> (obtain ⟨rfl, -⟩ := Prod.mk.inj hsetup; rfl)
  split
  · split
    · exact ht
    · rename_i hq
      exact ht.queuePacket hblob hq
  · exact ht

/-- The packets that carry no credentials. -/
theorem LoginsVerified.send {u : Unpacked} {prequeue : Bool} (h : t.queue = s.queue)
    (hs : s.LoginsVerified) : (t.sendCommand u prequeue none false env).1.LoginsVerified :=
  LoginsVerified.sendCommand (loginsVerified_of_queue hs h) (by simp)

theorem LoginsVerified.sendLogin {type : PacketType} {u : Unpacked} (h : s.LoginsVerified) :
    (s.sendLogin type u env).1.LoginsVerified :=
  h.send rfl

theorem LoginsVerified.sendStartProxy (h : s.LoginsVerified) :
    (s.sendStartProxy env).1.LoginsVerified :=
  h.send rfl

theorem LoginsVerified.sendCcdChallenge (h : s.LoginsVerified) :
    (s.sendCcdChallenge env).1.LoginsVerified :=
  LoginsVerified.send (t := { s with proxyTag := env.connectionTime })
    (u := ccdChallenge s.cluster env) rfl h

theorem LoginsVerified.rejectLogin {u : Unpacked} (h : s.LoginsVerified) :
    (s.rejectLogin u env).client.LoginsVerified := by
  unfold Client.rejectLogin sendRejectCcd
  simpa using LoginsVerified.send (t := { s with readable := false }) rfl h

theorem LoginsVerified.sendCcdResponse {address : Option (List UInt8)} {port : UInt32}
    {blob : Option Blob} {response : UInt64} {verified : Bool} (h : s.LoginsVerified)
    (hblob : blob.isSome = true → verified = true) :
    (s.sendCcdResponse address port blob response verified env).1.LoginsVerified := by
  unfold Client.sendCcdResponse
  simpa using LoginsVerified.sendCommand h hblob

theorem LoginsVerified.complete {type : PacketType} {opOpaque : Option Nat} {u : Unpacked}
    {blob : Option Blob} {verified : Bool} (h : s.LoginsVerified)
    (hblob : blob.isSome = true → verified = true) :
    (s.complete type opOpaque u blob verified env).1.LoginsVerified := by
  cases type with
  | sendCcdChallenge =>
    rw [Client.complete]
    split
    · exact LoginsVerified.sendLogin h
    · exact LoginsVerified.sendCcdResponse h hblob
  | sendPxdLogin =>
    rw [Client.complete]
    split
    · exact h
    split
    · exact h.sendStartProxy
    · exact h
  | sendCcdLogin =>
    rw [Client.complete]
    split
    · exact h
    split
    · exact h
    · exact h
  | startConnectionAttempt =>
    rw [Client.complete]
    split
    · exact h
    · exact h
  | startProxyConnection =>
    rw [Client.complete]
    split
    · exact LoginsVerified.sendCcdChallenge h
    · exact h
  | _ => exact h

theorem LoginsVerified.dispatch {packet : List UInt8} {u : Unpacked} {blob : Option Blob}
    {nullCrypto : Bool} (h : s.LoginsVerified)
    (hblob : blob.isSome = true → isVerified prim s.crypto packet = true) :
    (s.dispatch prim packet u blob nullCrypto env).client.LoginsVerified := by
  unfold Client.dispatch
  dsimp only
  split
  · exact h.complete hblob
  · split
    · exact h
    · rename_i outstanding _
      exact LoginsVerified.complete (s := { s with outstanding := outstanding }) h hblob

theorem LoginsVerified.processUnpacked {packet : List UInt8} {u : Unpacked}
    (h : s.LoginsVerified) : (s.processUnpacked prim packet u env).client.LoginsVerified := by
  unfold Client.processUnpacked
  split
  · rename_i htype
    split
    · exact h
    · exact h.rejectLogin
    · rename_i t blob hlogin
      obtain ⟨_, -, -, -, rfl⟩ := of_processLogin hlogin
      split
      · rename_i hcheck
        refine LoginsVerified.dispatch h fun _ => ?_
        have hcheck : checkSignature prim (createCrypto blob.key) packet = true := by
          simpa [signatureCheck] using hcheck
        have hsigned : isSigned sendCcdLogin.code = true := rfl
        simp [isVerified, htype, hsigned, hcheck]
      · exact LoginsVerified.rejectLogin h
  · split
    · exact h
    · exact h
    · exact h.dispatch (by simp)

theorem LoginsVerified.processPacket {packet : List UInt8} (h : s.LoginsVerified) :
    (s.processPacket prim packet env).client.LoginsVerified := by
  unfold Client.processPacket
  split
  · exact h
  · rename_i t hswitch
    have ht : t.LoginsVerified := loginsVerified_of_queue h (queue_switchKeys hswitch)
    split
    · exact ht
    · exact LoginsVerified.processUnpacked ht

theorem LoginsVerified.declareDown (h : s.LoginsVerified) : s.declareDown.1.LoginsVerified := by
  intro packet hpacket
  obtain ⟨p, hp, rfl⟩ := List.mem_map.1 hpacket
  exact h p hp

theorem LoginsVerified.finish : s.finish.1.LoginsVerified := by
  rintro packet ⟨⟩

theorem LoginsVerified.leaveLoop (h : s.LoginsVerified) : s.leaveLoop.1.LoginsVerified := by
  unfold Client.leaveLoop
  split
  · exact .finish
  · exact h.declareDown

theorem LoginsVerified.receive {packet : List UInt8} (h : s.LoginsVerified) :
    (s.receive prim packet env).client.LoginsVerified := by
  unfold Client.receive
  dsimp only
  split
  · exact h.processPacket
  · exact LoginsVerified.leaveLoop h.processPacket

theorem LoginsVerified.prepHead {reports : List (Report × Bool)} (h : s.LoginsVerified) :
    (s.prepHead reports).client.LoginsVerified := by
  unfold Client.prepHead
  split
  · exact h
  · rename_i packet rest hq
    split
    · exact h
    split
    · exact h
    · intro p hp
      rw [LoginsVerified, hq, List.forall_mem_cons] at h
      obtain rfl | hp := List.mem_cons.1 hp
      · exact h.1
      · exact h.2 p hp

theorem LoginsVerified.packetSent {packet : QueuedPacket} {rest : List QueuedPacket}
    (hrest : ∀ p ∈ rest, p.blob.isSome = true → p.verified = true) :
    (s.packetSent packet rest).client.LoginsVerified := by
  unfold Client.packetSent
  extract_lets rest'
  have hrest' : ∀ p ∈ rest', p.blob.isSome = true → p.verified = true := by
    cases rest with
    | nil => exact hrest
    | cons next rest => simpa [rest', List.forall_mem_cons] using hrest
  split
  · exact LoginsVerified.prepHead hrest'
  · exact LoginsVerified.prepHead hrest'

theorem LoginsVerified.readChallenge {packet : List UInt8} (h : s.LoginsVerified) :
    (s.readChallenge packet env).client.LoginsVerified := by
  unfold Client.readChallenge
  extract_lets failed
  have hfailed {t : Client} (ht : t.LoginsVerified) : (failed t).client.LoginsVerified :=
    LoginsVerified.declareDown ht
  split
  · exact hfailed h
  rename_i u _
  split
  · exact hfailed h
  extract_lets t
  split
  · exact h
  rename_i crypto _
  have hsend : ({ t with crypto := some crypto, readyToSend := true }.sendLogin sendPxdLogin u
    env).1.LoginsVerified := LoginsVerified.sendLogin h
  split
  rename_i hlogin
  rw [hlogin] at hsend
  split
  · exact hsend
  · exact hfailed hsend

theorem LoginsVerified.request {u : Unpacked} {opOpaque : Option Nat} (h : s.LoginsVerified) :
    (s.request u opOpaque env).client.LoginsVerified := by
  unfold Client.request Client.setupUnpacked
  dsimp only
  split
  · split
    · exact h
    · rename_i hq
      exact LoginsVerified.queuePacket (s := { s with nextAsync := s.nextAsync + 1 }) h (by simp) hq
  · exact h

theorem LoginsVerified.declare {ansDns pxdDns : List UInt8} {addresses : List Address}
    (h : s.LoginsVerified) : (s.declare ansDns pxdDns addresses env).client.LoginsVerified := by
  unfold Client.declare
  split
  · exact h.request
  · exact h

theorem LoginsVerified.connect {c : Connect} (h : s.LoginsVerified) :
    (s.connect c env).client.LoginsVerified := by
  unfold Client.connect
  split
  · exact h
  split
  · exact h
  extract_lets u attempt t
  have ha : attempt.client.LoginsVerified := LoginsVerified.request h
  have ht : t.queue = attempt.client.queue := by
    by_cases hpass : attempt.pass = true
    · simp [t, hpass]
    · simp [t, hpass, connectCleanup]
  exact loginsVerified_of_queue ha ht

theorem LoginsVerified.step {e : Event} (h : s.LoginsVerified) (hs : s.step prim e = some t) :
    t.LoginsVerified := by
  obtain ⟨o, -, ho, rfl⟩ := handles_of_step hs
  cases ho with
  | connected => exact h
  | noChallenge => exact h.declareDown
  | challenge => exact h.readChallenge
  | receive => exact h.receive
  | write => exact h.prepHead
  | sent packet rest hqueue =>
    rw [LoginsVerified, hqueue, List.forall_mem_cons] at h
    exact .packetSent h.2
  | checkTimeout => exact h
  | leave => exact h.leaveLoop
  | stopped => exact .finish
  | lookup => exact h.request
  | declare => exact h.declare
  | connect => exact h.connect
  | stop => exact h
  | restart => exact h

end Logins

/-! ## Runs -/

section Runs

variable {prim : Primitives} {s t : Client} {e : Event}

theorem authenticated_packetSent_iff {packet : QueuedPacket} {rest : List QueuedPacket}
    (hverified : packet.blob.isSome = true → packet.verified = true) :
    (s.packetSent packet rest).Authenticated ↔ (s.crypto = none → rest = []) := by
  have hhead {t : Client} {reports : List (Report × Bool)} (hreports : Vouched reports)
      (hq : (∀ packet ∈ t.queue.head?, packet.prepared = true) ↔ rest = []) :
      (t.prepHead reports).Authenticated ↔ (t.crypto = none → rest = []) := by
    rw [authenticated_prepHead_iff hreports, hq]
  unfold packetSent
  cases hblob : packet.blob with
  | none => exact hhead vouched_nil (by cases rest <;> simp)
  | some blob =>
    have hreports : Vouched [(.incomingLogin blob, packet.verified)] :=
      vouched_singleton.2 fun _ => hverified (by simp [hblob])
    exact hhead hreports (by cases rest <;> simp)

theorem authenticated_step_iff (h : s.LoginsVerified) (hsound : s.Sound)
    (hs : s.step prim e = some t) : s.Authenticated prim e ↔ s.RepliesSigned e := by
  obtain ⟨o, heq, ho, -⟩ := handles_of_step hs
  have hsingle : s.Authenticated prim e ↔ o.Authenticated := by
    simp [Client.Authenticated, heq]
  rw [hsingle]
  have hkeys (hphase : s.phase = .running) : s.crypto = none ↔ s.KeysGone :=
    ⟨hsound.keys hphase, And.left⟩
  cases ho with
  | receive packet env hphase =>
    rw [authenticated_receive_iff, authenticated_processPacket_iff (hkeys hphase)]
    rfl
  | write hphase =>
    rw [authenticated_prepHead_iff vouched_nil, hkeys hphase]
    rfl
  | sent packet rest hqueue hphase =>
    rw [LoginsVerified, hqueue, List.forall_mem_cons] at h
    rw [authenticated_packetSent_iff h.1, hkeys hphase, RepliesSigned, hqueue, List.tail_cons]
  | connected => exact iff_of_true (authenticated_of_vouched vouched_nil) trivial
  | noChallenge => exact iff_of_true (authenticated_of_vouched vouched_declareDown) trivial
  | challenge => exact iff_of_true authenticated_readChallenge trivial
  | checkTimeout =>
    exact iff_of_true (authenticated_of_vouched (vouched_kill _ (by decide))) trivial
  | leave => exact iff_of_true (authenticated_of_vouched vouched_leaveLoop) trivial
  | stopped => exact iff_of_true (authenticated_of_vouched vouched_finish) trivial
  | lookup => exact iff_of_true authenticated_request trivial
  | declare => exact iff_of_true authenticated_declare trivial
  | connect => exact iff_of_true authenticated_connect trivial
  | stop => exact iff_of_true (authenticated_of_vouched vouched_nil) trivial
  | restart => exact iff_of_true (authenticated_of_vouched vouched_nil) trivial

end Runs

end Client

/-- In a run successes are reported for verified packets only, and keys are there whenever
they are used, exactly if no packet completes a command unsigned and a proxy client that
waits for its login gets and sends nothing else. -/
theorem authenticated_iff {prim : Primitives} {id : Identity} {region cluster : List UInt8}
    {creds : Credentials} {isIncoming : Bool} {proxy : Option (Identity × UInt64 × Crypto)}
    {parameters : Configuration} {s : Client} {tr : List (Client × Event)}
    (h : Run (Client.step prim)
      (.doOpen id region cluster creds isIncoming proxy parameters) tr s) :
    Meets (Client.Authenticated prim) tr ↔ Meets Client.RepliesSigned tr :=
  h.meets_iff_meets (I := fun s => s.LoginsVerified ∧ s.Sound)
    ⟨by rintro packet ⟨⟩, Client.sound_doOpen _ _ _ _ _ _ _⟩
    (fun _ _ _ hI hs => Client.authenticated_step_iff hI.1 hI.2 hs)
    fun _ _ _ hI _ hs => ⟨hI.1.step hs, (hI.2.steps hs).toSound⟩

def zeroConfiguration : Configuration :=
  ⟨0, 0, 0, 0, 0, 0, 0, 0, 0, 0, 0, 0⟩

def someClient : Client :=
  .doOpen ⟨1, 2, []⟩ [] [] ⟨[], [1, 2, 3]⟩ false none zeroConfiguration

def someEnv : Env :=
  ⟨true, 0, Vector.replicate 16 7, 9, ([], 0)⟩

/-- A lookup is under way after the login. -/
def lookingUp : List Event :=
  [.connected, .challenge (some ([255, 180, 0, 75, 0, 208] ++ forgedChallenge.drop 6)) someEnv,
    .write, .lookup ⟨1, 2, []⟩ [] (some 5) someEnv]

/-- A header with the tag of the connection, the sequence number one and the operation id of
the lookup. -/
def replyHeader (length code : UInt8) : List UInt8 :=
  [255, ~~~length, 0, length, 0, code] ++ [0, 0, 0, 0, 0, 0, 0, 9] ++ [0, 0, 0, 0, 0, 0, 0, 2] ++
    [0, 0, 0, 0, 0, 0, 0, 1]

/-- The server answers the lookup, and signs its answer. -/
def answered : List Event :=
  lookingUp ++ [.receive (replyHeader 60 209 ++ [0, 0] ++ [0, 0, 0, 0, 0, 0, 0, 5] ++
    List.replicate 20 0) someEnv]

theorem authenticated_iff_answered :
    ∃ tr s, Run (Client.step zeroHash) someClient tr s ∧ tr.length = 5 ∧
      (Meets (Client.Authenticated zeroHash) tr ↔ Meets Client.RepliesSigned tr) := by
  have he : (exec (Client.step zeroHash) someClient answered).isSome = true := by decide +kernel
  obtain ⟨s, hs⟩ := Option.isSome_iff_exists.1 he
  exact ⟨_, s, run_trace hs, by
    simpa [answered, lookingUp] using congrArg List.length (map_snd_trace hs),
    authenticated_iff (run_trace hs)⟩

/-- Thirty bytes that reject credentials, and need no signature, complete the lookup. -/
def rejected : List Event :=
  lookingUp ++ [.receive (replyHeader 30 200) someEnv]

theorem not_authenticated_rejected :
    ∃ tr s, Run (Client.step zeroHash) someClient tr s ∧
      ¬Meets (Client.Authenticated zeroHash) tr := by
  have he : (exec (Client.step zeroHash) someClient rejected).isSome = true := by decide +kernel
  obtain ⟨s, hs⟩ := Option.isSome_iff_exists.1 he
  exact ⟨_, s, run_trace hs, by decide +kernel⟩

end PersonalCloud.Pxd
