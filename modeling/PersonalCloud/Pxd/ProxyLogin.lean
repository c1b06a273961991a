import PersonalCloud.Pxd.Completions

/-!
# Logins that answer the challenge

A server checks a login in one of two places: `checkCcdLogin` when the client has connected to
it directly, and the client thread of a proxy client otherwise. Both check the blob, whom it
is for and the signature. Only the first looks at the challenge and the connection id.

## Main results

* `Client.acceptsLogin_iff`, `checkCcdLogin_iff` — what each of the two checks.
* `logins_answer_iff` — when all logins that are accepted answer the challenge, and the two
  places accept the same.
-/

namespace PersonalCloud.Pxd

open PersonalCloud.Lib PacketType

/-- The login carries the challenge, and the id that was sent with it. -/
def Unpacked.Answers (u : Unpacked) (sent : Challenge) : Prop :=
  u.connectionId = sent.connectionId ∧ u.challenge = sent.challenge.toList

instance (u : Unpacked) (sent : Challenge) : Decidable (u.Answers sent) :=
  inferInstanceAs (Decidable (_ ∧ _))

/-- The blob comes from the server's owner and is for this server, and the packet comes from
the owner of the blob. -/
def Genuine (prim : Primitives) (serverKey : List UInt8) (serverId : Identity) (u : Unpacked)
    (packet : List UInt8) : Prop :=
  ∃ blob ∈ unpackBlob prim (createCrypto serverKey) u.blob,
    blob.isFor serverId = true ∧ checkSignature prim (createCrypto blob.key) packet = true

instance (prim : Primitives) (serverKey : List UInt8) (serverId : Identity) (u : Unpacked)
    (packet : List UInt8) : Decidable (Genuine prim serverKey serverId u packet) :=
  inferInstanceAs (Decidable (∃ blob ∈ unpackBlob prim (createCrypto serverKey) u.blob, _))

/-- The direct check. -/
theorem checkCcdLogin_iff {prim : Primitives} {serverKey : List UInt8} {serverId : Identity}
    {sent : Challenge} {u : Unpacked} {packet : List UInt8} :
    (checkCcdLogin prim serverKey serverId sent u packet).1 = pxdOpSuccessful ↔
      u.Answers sent ∧ Genuine prim serverKey serverId u packet := by
  constructor
  · intro h
    obtain ⟨hid, hchallenge, blob, hblob, hfor, hsigned⟩ := of_checkCcdLogin h
    exact ⟨⟨hid, hchallenge⟩, blob, hblob, hfor, hsigned⟩
  · rintro ⟨⟨hid, hchallenge⟩, blob, hblob, hfor, hsigned⟩
    rw [Option.mem_def] at hblob
    simp [checkCcdLogin, hid, hchallenge, hblob, hfor, hsigned]

namespace Client

/-- The login in a packet, if it can be decoded; it comes with the tag of the challenge. -/
def decodeLogin (s : Client) (packet : List UInt8) : Option Unpacked :=
  if getType packet = some sendCcdLogin.code then (unpack packet s.sequence s.proxyTag).1
  else none

/-- The login is not rejected. -/
def acceptsLogin (prim : Primitives) (s : Client) (u : Unpacked) (packet : List UInt8) : Bool :=
  match s.processLogin prim u with
  | some (some (t, _)) => signatureCheck prim t.crypto packet = some true
  | _ => false

section Accepts

variable {prim : Primitives} {s : Client} {u : Unpacked} {packet : List UInt8} {env : Env}

/-- What becomes of a login: it is rejected unless it is accepted. -/
theorem processPacket_login {blobCrypto : Crypto} (hu : s.decodeLogin packet = some u)
    (hkey : s.blobCrypto = some blobCrypto) :
    (s.acceptsLogin prim u packet = true ∧ ∃ (t : Client) (blob : Blob),
      t.crypto = some (createCrypto blob.key) ∧
        s.processPacket prim packet env = t.dispatch prim packet u (some blob) false env) ∨
    (s.acceptsLogin prim u packet = false ∧
      ∃ t : Client, s.processPacket prim packet env = t.rejectLogin u env) := by
  unfold decodeLogin at hu
  obtain ⟨htype, hu⟩ := Option.ite_none_right_eq_some.1 hu
  have hne : some sendCcdLogin.code ≠ some PacketType.sendCcdChallenge.code := by decide
  have hprocess : ∃ t : Client, t.blobCrypto = s.blobCrypto ∧ t.id = s.id ∧
      s.processPacket prim packet env = t.processUnpacked prim packet u env := by
    unfold processPacket switchKeys
    rw [htype, if_neg fun h => hne h.2, if_pos rfl]
    dsimp only
    split
    · rename_i hnone
      rw [hnone] at hu
      cases hu
    · rename_i v sequence hv
      rw [hv] at hu
      obtain rfl := Option.some.inj hu
      exact ⟨{ s with tag := s.proxyTag, sequence := sequence }, rfl, rfl, rfl⟩
  obtain ⟨t, hblobCrypto, hid, ht⟩ := hprocess
  rw [ht]
  unfold acceptsLogin processUnpacked
  rw [if_pos htype, processLogin_eq (hblobCrypto.trans hkey), processLogin_eq hkey]
  cases hblob : unpackBlob prim blobCrypto u.blob with
  | none => exact .inr ⟨rfl, t, rfl⟩
  | some blob =>
    by_cases hfor : blob.isFor s.id = true
    · by_cases hsigned : checkSignature prim (createCrypto blob.key) packet = true
      · exact .inl ⟨by simp [hfor, signatureCheck, hsigned],
          { t with crypto := some (createCrypto blob.key) }, blob, rfl,
          by simp [hfor, hid, signatureCheck, hsigned]⟩
      · exact .inr ⟨by simp [hfor, signatureCheck, hsigned],
          { t with crypto := some (createCrypto blob.key) },
          by simp [hfor, hid, signatureCheck, hsigned]⟩
    · exact .inr ⟨by simp [hfor], t, by simp [hfor, hid]⟩

/-- The check of a proxy client. -/
theorem acceptsLogin_iff {serverKey : List UInt8}
    (hkey : s.blobCrypto = some (createCrypto serverKey)) :
    s.acceptsLogin prim u packet = true ↔ Genuine prim serverKey s.id u packet := by
  unfold acceptsLogin Genuine
  rw [processLogin_eq hkey]
  cases hblob : unpackBlob prim (createCrypto serverKey) u.blob with
  | none => simp
  | some blob =>
    by_cases hfor : blob.isFor s.id = true
    · simp [hfor, signatureCheck]
    · simp [hfor]

end Accepts

/-- Every login that is accepted answers the challenge that was sent on this connection, and
the direct check would accept the same. -/
def LoginsAnswer (prim : Primitives) (serverKey : List UInt8) (serverId : Identity)
    (s : Client) : Event → Prop
  | .receive packet _ => ∀ u ∈ s.decodeLogin packet,
    (s.acceptsLogin prim u packet = true → ∃ sent ∈ s.challenge, u.Answers sent) ∧
      ∀ sent ∈ s.challenge, s.acceptsLogin prim u packet = true ↔
        (checkCcdLogin prim serverKey serverId sent u packet).1 = pxdOpSuccessful
  | _ => True

/-- The genuine logins that come answer the challenge. -/
def GenuineAnswer (prim : Primitives) (serverKey : List UInt8) (serverId : Identity)
    (s : Client) : Event → Prop
  | .receive packet _ => ∀ u ∈ s.decodeLogin packet, Genuine prim serverKey serverId u packet →
    ∃ sent ∈ s.challenge, u.Answers sent
  | _ => True

instance (prim : Primitives) (serverKey : List UInt8) (serverId : Identity) (s : Client) :
    (e : Event) → Decidable (s.LoginsAnswer prim serverKey serverId e)
  | .receive packet _ => inferInstanceAs (Decidable (∀ u ∈ s.decodeLogin packet, _))
  | .connected | .challenge _ _ | .write | .sent | .checkTimeout _ | .leave | .lookup _ _ _ _
  | .declare _ _ _ _ | .connect _ _ | .stop | .restart => isTrue trivial

theorem loginsAnswer_iff {prim : Primitives} {serverKey : List UInt8} {s : Client} {e : Event}
    (hkey : s.blobCrypto = some (createCrypto serverKey)) :
    s.LoginsAnswer prim serverKey s.id e ↔ s.GenuineAnswer prim serverKey s.id e := by
  cases e with
  | receive packet env =>
    refine forall₂_congr fun u hu => ?_
    simp only [acceptsLogin_iff hkey, checkCcdLogin_iff]
    constructor
    · rintro ⟨h, -⟩
      exact h
    · intro h
      refine ⟨h, fun sent hsent => ⟨fun hg => ⟨?_, hg⟩, And.right⟩⟩
      obtain ⟨sent', hsent', hanswers⟩ := h hg
      obtain rfl := Option.mem_unique hsent hsent'
      exact hanswers
  | _ => rfl

end Client

/-- A login that succeeded at a server that was connected to directly answered its
challenge. -/
def DirectLoginsAnswer (prim : Primitives) (serverKey : List UInt8) (serverId : Identity) :
    Prop :=
  ∀ (limits : Limits) (s : Socket) (sent : Challenge) (challengeSent responseSent : UInt64),
    (runIncoming prim serverKey serverId limits s sent challengeSent responseSent).result =
      pxdOpSuccessful →
    ∃ r, (runIncoming prim serverKey serverId limits s sent challengeSent responseSent).final =
      some r ∧ r.unpacked.Answers sent

theorem directLoginsAnswer (prim : Primitives) (serverKey : List UInt8) (serverId : Identity) :
    DirectLoginsAnswer prim serverKey serverId := by
  intro limits s sent challengeSent responseSent hresult
  obtain ⟨r, -, hfinal, hchecked⟩ := of_runIncoming hresult
  exact ⟨r, hfinal, (checkCcdLogin_iff.1 hchecked).1⟩

/-- In a run of a proxy client its logins answer the challenge, and those are accepted that
the direct check would accept, exactly if all genuine logins that come happen to answer it.
Direct logins always answer theirs. -/
theorem logins_answer_iff {prim : Primitives} {serverKey : List UInt8} {id proxyId : Identity}
    {region cluster : List UInt8} {creds : Credentials} {isIncoming : Bool} {request : UInt64}
    {parameters : Configuration} {s : Client} {tr : List (Client × Event)}
    (h : Run (Client.step prim) (.doOpen id region cluster creds isIncoming
      (some (proxyId, request, createCrypto serverKey)) parameters) tr s) :
    DirectLoginsAnswer prim serverKey id ∧ Meets (Client.LoginsAnswer prim serverKey id) tr ↔
      Meets (Client.GenuineAnswer prim serverKey id) tr := by
  rw [and_iff_right (directLoginsAnswer prim serverKey id)]
  refine h.meets_iff_meets
    (I := fun s => s.Sound ∧ s.id = id ∧ s.blobCrypto = some (createCrypto serverKey))
    ⟨Client.sound_doOpen _ _ _ _ _ _ _, rfl, rfl⟩ ?_ ?_
  · rintro s e t ⟨-, rfl, hkey⟩ -
    exact Client.loginsAnswer_iff hkey
  · rintro s e t ⟨hsound, hid, hkey⟩ - hs
    have hsteps := hsound.steps hs
    exact ⟨hsteps.toSound, hsteps.id.trans hid, hsteps.blobCrypto.trans hkey⟩

/-! A hash of zeros and a cipher that does nothing. -/

def proxyClient : Client :=
  .doOpen ⟨1, 2, []⟩ [] [] ⟨[], [1, 2, 3]⟩ true (some (⟨1, 2, []⟩, 7, createCrypto [4, 5]))
    zeroConfiguration

/-- A header with the tag nine. -/
def header (length : UInt16) (code : UInt8) (asyncId sequenceId : UInt8) : List UInt8 :=
  [(~~~length >>> 8).toUInt8, (~~~length).toUInt8, (length >>> 8).toUInt8, length.toUInt8, 0,
    code] ++ [0, 0, 0, 0, 0, 0, 0, 9] ++ [0, 0, 0, 0, 0, 0, 0, asyncId] ++
    [0, 0, 0, 0, 0, 0, 0, sequenceId]

/-- A response that reports a success. -/
def success (asyncId sequenceId : UInt8) : List UInt8 :=
  header 60 209 asyncId sequenceId ++ [0, 0] ++ [0, 0, 0, 0, 0, 0, 0, 5] ++ List.replicate 20 0

/-- A blob for the client, with the same key in all its secret fields. -/
def someBlob : List UInt8 :=
  [0, 44, 0, 3] ++ List.replicate 16 0 ++ [0, 0, 0, 0, 0, 0, 0, 1] ++ [0, 0, 0, 0, 0, 0, 0, 2] ++
    List.replicate 8 0 ++ [0, 5] ++
    (List.replicate 4 ([0, 32] ++ List.replicate 16 0 ++ [0, 1, 6] ++ List.replicate 13 0)).flatten
    ++ [0, 0] ++ [0, 0] ++ [0, 20] ++ List.replicate 20 0

/-- A login with the connection id and challenge. -/
def login (connectionId : UInt8) (challenge : List UInt8) : List UInt8 :=
  header (272 + challenge.length.toUInt16) 210 0 0 ++ [0, 0] ++
    [0, 0, 0, 0, 0, 0, 0, connectionId] ++ [0, challenge.length.toUInt8] ++ challenge ++
    [0, 208] ++ someBlob ++ List.replicate 20 0

/-- The proxy client asks for its connection, sends the challenge, and gets the login. -/
def proxyLogin (packet : List UInt8) : List Event :=
  [.connected, .challenge (some ([255, 180, 0, 75, 0, 208] ++ forgedChallenge.drop 6)) someEnv,
    .write, .sent, .receive (success 1 1) someEnv, .write, .sent, .receive (success 2 2) someEnv,
    .write, .sent, .receive packet someEnv]

theorem logins_answer_iff_challenge :
    ∃ tr s, Run (Client.step zeroHash) proxyClient tr s ∧ tr.length = 11 ∧
      (DirectLoginsAnswer zeroHash [4, 5] ⟨1, 2, []⟩ ∧
          Meets (Client.LoginsAnswer zeroHash [4, 5] ⟨1, 2, []⟩) tr ↔
        Meets (Client.GenuineAnswer zeroHash [4, 5] ⟨1, 2, []⟩) tr) := by
  have he : (exec (Client.step zeroHash) proxyClient
      (proxyLogin (login 1 (List.replicate 16 7)))).isSome = true := by decide +kernel
  obtain ⟨s, hs⟩ := Option.isSome_iff_exists.1 he
  exact ⟨_, s, run_trace hs, by
    simpa [proxyLogin] using congrArg List.length (map_snd_trace hs),
    logins_answer_iff (run_trace hs)⟩

/-- A login without a challenge, and with another connection id, is accepted. -/
theorem not_answer_login :
    ∃ tr s, Run (Client.step zeroHash) proxyClient tr s ∧
      ¬Meets (Client.LoginsAnswer zeroHash [4, 5] ⟨1, 2, []⟩) tr := by
  have he : (exec (Client.step zeroHash) proxyClient (proxyLogin (login 0 []))).isSome = true := by
    decide +kernel
  obtain ⟨s, hs⟩ := Option.isSome_iff_exists.1 he
  exact ⟨_, s, run_trace hs, by decide +kernel⟩

end PersonalCloud.Pxd
