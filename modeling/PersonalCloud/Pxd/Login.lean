import PersonalCloud.Pxd.Blob

/-!
# Direct logins

`pxd_login` makes the two ends of a new connection known to each other with blocking reads
and writes. The server sends a challenge; the client answers it and gives its blob, signed
under the session key; the server replies. The server has the session key from the blob, the
client from its credentials.

A socket is what the calls that read from it come to, one after the other. What becomes of the
writes is up to the environment. A packet that announces less than two bytes overruns its
buffer; only that it is not accepted is modelled. A read is tried again a positive number of
times.

## Main results

* `runIncoming_authentic` — what a login that succeeds at the server has been checked for.
* `logins_authentic_iff` — the client's end checks no signature, so a success there means
  something only if the reply happens to be signed.
-/

namespace PersonalCloud.Pxd

open PersonalCloud.Lib PacketType

/-! ## Reading packets -/

/-- What a call that reads comes to: nothing yet, an error, or bytes, none of them when the
connection was closed. -/
inductive Arrival where
  | again | failed
  | bytes (data : List UInt8)
  deriving DecidableEq, Repr

abbrev Socket := List Arrival

/-- Read `remaining` bytes. Reading none looks like a connection that was closed. -/
def syncIo : (tries : Nat) → Socket → (remaining : Nat) → Except UInt64 (List UInt8 × Socket)
  | _, [], _ => .error pxdTimedOut
  | tries, .again :: s, remaining =>
    if tries ≤ 1 then .error pxdTimedOut else syncIo (tries - 1) s remaining
  | _, .failed :: _, _ => .error pxdOpFailed
  | tries, .bytes data :: s, remaining =>
    let count := min data.length remaining
    if count = 0 then .error pxdConnectionLost
    else if count < remaining then do
      let (rest, s) ← syncIo tries s (remaining - count)
      .ok (data ++ rest, s)
    else if count < data.length then .ok (data.take count, .bytes (data.drop count) :: s)
    else .ok (data, s)

structure Limits where
  packetLimit : Nat
  tries : Nat
  deriving DecidableEq, Repr

structure Received where
  unpacked : Unpacked
  packet : List UInt8
  socket : Socket
  sequence : UInt64

def isExpected : (expected : Option PacketType) → PacketType → Bool
  | none, type => type = rejectCcdCredentials ∨ type = sendCcdResponse
  | some expected, type => type = expected

/-- Read a packet of the expected type, or a reply to a login if none is given. -/
def syncReadPacket (limits : Limits) (s : Socket) (expected : Option PacketType)
    (sequence tag : UInt64) : Except UInt64 Received := do
  let (sizeBuffer, s) ← syncIo limits.tries s 2
  let packetSize := (~~~UInt16.ofNat (ofBytes sizeBuffer)).toNat
  if packetSize > limits.packetLimit then .error pxdOpFailed
  else
    let (rest, s) ← syncIo limits.tries s (packetSize - 2)
    let packet := sizeBuffer ++ rest
    match unpack packet sequence tag with
    | (none, _) => .error pxdOpFailed
    | (some u, sequence) =>
      if isExpected expected u.type then .ok ⟨u, packet, s, sequence⟩ else .error pxdOpFailed

/-! ## The client's end -/

/-- How a login ended, with the last packet that was read for it. -/
structure LoginOutcome where
  result : UInt64
  final : Option Received

/-- The reply to the login, if it comes to one; `sent` is what becomes of the login that is
sent. -/
def readReply (limits : Limits) (s : Socket) (sent : UInt64) : LoginOutcome ⊕ Received :=
  match syncReadPacket limits s (some sendCcdChallenge) 0 0 with
  | .error result => .inl ⟨result, none⟩
  | .ok challenge =>
    if sent ≠ pxdOpSuccessful then .inl ⟨sent, some challenge⟩
    else
      match syncReadPacket limits challenge.socket none challenge.sequence
          challenge.unpacked.connectionTime with
      | .error result => .inl ⟨result, some challenge⟩
      | .ok reply => .inr reply

/-- Run the client's end. -/
def runOutgoing (limits : Limits) (s : Socket) (sent : UInt64) : LoginOutcome :=
  match readReply limits s sent with
  | .inl outcome => outcome
  | .inr reply =>
    if reply.unpacked.type = rejectCcdCredentials then ⟨pxdCredentialsRejected, some reply⟩
    else ⟨reply.unpacked.response, some reply⟩

/-! ## The server's end -/

structure Identity where
  userId : UInt64
  deviceId : UInt64
  instanceId : List UInt8
  deriving DecidableEq, Repr

/-- What the server keeps of the challenge that it sent. -/
structure Challenge where
  challenge : Vector UInt8 16
  connectionId : UInt64
  connectionTime : UInt64
  deriving DecidableEq, Repr

section Incoming

variable (prim : Primitives) (serverKey : List UInt8) (serverId : Identity)

def Blob.isFor (blob : Blob) (serverId : Identity) : Bool :=
  blob.serverUser = serverId.userId ∧ blob.serverDevice = serverId.deviceId ∧
    blob.serverInstance = cString serverId.instanceId

/-- The result of the check, with the blob and the keys if it came to that. -/
def checkCcdLogin (sent : Challenge) (u : Unpacked) (packet : List UInt8) :
    UInt64 × Option (Blob × Crypto) :=
  if u.connectionId ≠ sent.connectionId ∨ u.challenge ≠ sent.challenge.toList then
    (pxdOpFailed, none)
  else
    match unpackBlob prim (createCrypto serverKey) u.blob with
    | none => (pxdCredentialsRejected, none)
    | some blob =>
      if !blob.isFor serverId then (pxdCredentialsRejected, none)
      else
        let crypto := createCrypto blob.key
        (if checkSignature prim crypto packet then pxdOpSuccessful else pxdOpFailed,
          some (blob, crypto))

/-- Run the server's end; `challengeSent` and `responseSent` are what becomes of the two
packets that it sends. -/
def runIncoming (limits : Limits) (s : Socket) (sent : Challenge)
    (challengeSent responseSent : UInt64) : LoginOutcome :=
  if challengeSent ≠ pxdOpSuccessful then ⟨challengeSent, none⟩
  else
    match syncReadPacket limits s (some sendCcdLogin) 0 sent.connectionTime with
    | .error result => ⟨result, none⟩
    | .ok login =>
      let result := (checkCcdLogin prim serverKey serverId sent login.unpacked login.packet).1
      if result ≠ pxdOpSuccessful then ⟨result, some login⟩ else ⟨responseSent, some login⟩

end Incoming

/-! ## What a success has been checked for -/

theorem bind_eq_error {ε α β : Type} {x : Except ε α} {f : α → Except ε β} {e : ε}
    (h : x >>= f = .error e) : x = .error e ∨ ∃ a, x = .ok a ∧ f a = .error e := by
  cases x with
  | error e' => exact .inl (Except.error.inj h ▸ rfl)
  | ok a => exact .inr ⟨a, rfl, h⟩

theorem exists_of_bind_eq_ok {ε α β : Type} {x : Except ε α} {f : α → Except ε β} {b : β}
    (h : x >>= f = .ok b) : ∃ a, x = .ok a ∧ f a = .ok b := by
  cases x with
  | error e => cases h
  | ok a => exact ⟨a, rfl, h⟩

section Authentic

variable (prim : Primitives)

/-- A success at the client's end comes with a response that is signed under its key. -/
def OutgoingAuthentic (key : List UInt8) (outcome : LoginOutcome) : Prop :=
  outcome.result = pxdOpSuccessful →
    ∃ r, outcome.final = some r ∧ getType r.packet = some sendCcdResponse.code ∧
      SignedUnder prim (createCrypto key) r.packet

instance (key : List UInt8) (outcome : LoginOutcome) :
    Decidable (OutgoingAuthentic prim key outcome) :=
  match hfinal : outcome.final with
  | none => decidable_of_iff (outcome.result ≠ pxdOpSuccessful) (by
      simp [OutgoingAuthentic, hfinal])
  | some r => decidable_of_iff (outcome.result = pxdOpSuccessful →
      getType r.packet = some sendCcdResponse.code ∧
        SignedUnder prim (createCrypto key) r.packet) (by simp [OutgoingAuthentic, hfinal])

/-- A success at the server's end comes with a login whose blob is signed under the key of
the server, and which is itself signed under the key in that blob. -/
def IncomingAuthentic (serverKey : List UInt8) (outcome : LoginOutcome) : Prop :=
  outcome.result = pxdOpSuccessful →
    ∃ r blob, outcome.final = some r ∧ getType r.packet = some sendCcdLogin.code ∧
      BlobSigned prim (createCrypto serverKey) r.unpacked.blob ∧
      unpackBlob prim (createCrypto serverKey) r.unpacked.blob = some blob ∧
      SignedUnder prim (createCrypto blob.key) r.packet

/-- A response that reports a success, when one is read as the reply, is signed under the
client's key. -/
def ReplySigned (limits : Limits) (s : Socket) (sent : UInt64) (key : List UInt8) : Prop :=
  ∀ r, readReply limits s sent = .inr r → r.unpacked.type = sendCcdResponse →
    r.unpacked.response = pxdOpSuccessful → SignedUnder prim (createCrypto key) r.packet

variable {prim} {limits : Limits} {s : Socket}

theorem of_syncReadPacket {expected : Option PacketType} {sequence tag : UInt64} {r : Received}
    (h : syncReadPacket limits s expected sequence tag = .ok r) :
    (unpack r.packet sequence tag).1 = some r.unpacked ∧
      isExpected expected r.unpacked.type = true := by
  obtain ⟨⟨sizeBuffer, s₁⟩, -, h⟩ := exists_of_bind_eq_ok h
  dsimp only at h
  split at h
  · cases h
  obtain ⟨⟨rest, s₂⟩, -, h⟩ := exists_of_bind_eq_ok h
  dsimp only at h
  split at h
  · cases h
  · rename_i u sequence' hu
    split at h
    · rename_i hexpected
      obtain rfl := Except.ok.inj h
      exact ⟨congrArg Prod.fst hu, hexpected⟩
    · cases h

theorem result_ne_of_syncIo {tries remaining : Nat} {e : UInt64}
    (h : syncIo tries s remaining = .error e) : e ≠ pxdOpSuccessful := by
  induction s generalizing tries remaining with
  | nil => exact Except.error.inj h ▸ by decide
  | cons arrival s ih =>
    cases arrival with
    | again =>
      rw [syncIo] at h
      split at h
      · exact Except.error.inj h ▸ by decide
      · exact ih h
    | failed => exact Except.error.inj h ▸ by decide
    | bytes data =>
      rw [syncIo] at h
      split at h
      · exact Except.error.inj h ▸ by decide
      split at h
      · obtain h | ⟨_, -, h⟩ := bind_eq_error h
        · exact ih h
        · cases h
      split at h
      · cases h
      · cases h

theorem result_ne_of_syncReadPacket {expected : Option PacketType} {sequence tag e : UInt64}
    (h : syncReadPacket limits s expected sequence tag = .error e) : e ≠ pxdOpSuccessful := by
  obtain h | ⟨_, -, h⟩ := bind_eq_error h
  · exact result_ne_of_syncIo h
  dsimp only at h
  split at h
  · exact Except.error.inj h ▸ by decide
  obtain h | ⟨_, -, h⟩ := bind_eq_error h
  · exact result_ne_of_syncIo h
  split at h
  · exact Except.error.inj h ▸ by decide
  split at h
  · cases h
  · exact Except.error.inj h ▸ by decide

theorem getType_of_syncReadPacket {expected : PacketType} {sequence tag : UInt64} {r : Received}
    (h : syncReadPacket limits s (some expected) sequence tag = .ok r)
    (hping : expected ≠ sendPing) : getType r.packet = some expected.code := by
  obtain ⟨hu, hexpected⟩ := of_syncReadPacket h
  have htype : r.unpacked.type = expected := by simpa [isExpected] using hexpected
  rw [← htype] at hping ⊢
  exact getType_eq_code hu hping

theorem of_readReply {sent : UInt64} {r : Received} (h : readReply limits s sent = .inr r) :
    r.unpacked.type = rejectCcdCredentials ∨
      r.unpacked.type = sendCcdResponse ∧ getType r.packet = some sendCcdResponse.code := by
  unfold readReply at h
  split at h
  · cases h
  split at h
  · cases h
  split at h
  · cases h
  · rename_i hreply
    obtain rfl := Sum.inr.inj h
    obtain ⟨hu, hexpected⟩ := of_syncReadPacket hreply
    simp only [isExpected, decide_eq_true_eq] at hexpected
    refine hexpected.imp_right fun htype => ⟨htype, ?_⟩
    rw [← htype]
    exact getType_eq_code hu (by simp [htype])

/-- Before the reply nothing counts as a success. -/
theorem result_ne_of_readReply {sent : UInt64} {outcome : LoginOutcome}
    (h : readReply limits s sent = .inl outcome) : outcome.result ≠ pxdOpSuccessful := by
  unfold readReply at h
  split at h
  · rename_i hchallenge
    obtain rfl := Sum.inl.inj h
    exact result_ne_of_syncReadPacket hchallenge
  split at h
  · rename_i hsent
    obtain rfl := Sum.inl.inj h
    exact hsent
  split at h
  · rename_i hreply
    obtain rfl := Sum.inl.inj h
    exact result_ne_of_syncReadPacket hreply
  · cases h

/-- The client takes the reply at its word. -/
theorem outgoingAuthentic_iff {sent : UInt64} {key : List UInt8} :
    OutgoingAuthentic prim key (runOutgoing limits s sent) ↔
      ReplySigned prim limits s sent key := by
  unfold OutgoingAuthentic runOutgoing ReplySigned
  cases hreply : readReply limits s sent with
  | inl outcome =>
    have hne := result_ne_of_readReply hreply
    simp [hne]
  | inr r =>
    simp only [Sum.inr.injEq, forall_eq']
    obtain htype | ⟨htype, hcode⟩ := of_readReply hreply
    · have hrejected : pxdCredentialsRejected ≠ pxdOpSuccessful := by decide
      simp [htype, hrejected]
    · simp [htype, hcode]

theorem of_checkCcdLogin {serverKey : List UInt8} {serverId : Identity} {sent : Challenge}
    {u : Unpacked} {packet : List UInt8}
    (h : (checkCcdLogin prim serverKey serverId sent u packet).1 = pxdOpSuccessful) :
    u.connectionId = sent.connectionId ∧ u.challenge = sent.challenge.toList ∧
      ∃ blob, unpackBlob prim (createCrypto serverKey) u.blob = some blob ∧
        blob.isFor serverId = true ∧
          checkSignature prim (createCrypto blob.key) packet = true := by
  unfold checkCcdLogin at h
  split at h
  · cases h
  rename_i hmatch
  rw [not_or, not_not, not_not] at hmatch
  split at h
  · cases h
  rename_i blob hblob
  split at h
  · cases h
  rename_i hfor
  dsimp only at h
  split at h
  · rename_i hsigned
    exact ⟨hmatch.1, hmatch.2, blob, hblob, by simpa using hfor, hsigned⟩
  · cases h

/-- A success at the server's end comes from a login that passed the check. -/
theorem of_runIncoming {serverKey : List UInt8} {serverId : Identity} {sent : Challenge}
    {challengeSent responseSent : UInt64}
    (h : (runIncoming prim serverKey serverId limits s sent challengeSent responseSent).result =
      pxdOpSuccessful) :
    ∃ r, syncReadPacket limits s (some sendCcdLogin) 0 sent.connectionTime = .ok r ∧
      (runIncoming prim serverKey serverId limits s sent challengeSent responseSent).final =
        some r ∧
      (checkCcdLogin prim serverKey serverId sent r.unpacked r.packet).1 = pxdOpSuccessful := by
  unfold runIncoming at h ⊢
  by_cases hsent : challengeSent ≠ pxdOpSuccessful
  · rw [if_pos hsent] at h
    exact absurd h hsent
  rw [if_neg hsent] at h ⊢
  split at h
  · rename_i hlogin
    exact absurd h (result_ne_of_syncReadPacket hlogin)
  rename_i login hlogin
  dsimp only at h ⊢
  by_cases hchecked : (checkCcdLogin prim serverKey serverId sent login.unpacked
      login.packet).1 ≠ pxdOpSuccessful
  · rw [if_pos hchecked] at h
    exact absurd h hchecked
  · exact ⟨login, hlogin, by rw [if_neg hchecked], not_not.1 hchecked⟩

/-- The server checks everything. -/
theorem runIncoming_authentic (serverKey : List UInt8) (serverId : Identity) (limits : Limits)
    (s : Socket) (sent : Challenge) (challengeSent responseSent : UInt64) :
    IncomingAuthentic prim serverKey
      (runIncoming prim serverKey serverId limits s sent challengeSent responseSent) := by
  intro hresult
  obtain ⟨login, hlogin, hfinal, hchecked⟩ := of_runIncoming hresult
  obtain ⟨-, -, blob, hblob, -, hsigned⟩ := of_checkCcdLogin hchecked
  have htype := getType_of_syncReadPacket hlogin (by decide)
  exact ⟨login, blob, hfinal, htype, blobSigned_of_unpackBlob hblob, hblob,
    signedUnder_of_checkSignature hsigned htype (by decide)⟩

/-- Both ends authenticate the other exactly when no response that reports a success without
being signed comes as the reply to a login. -/
theorem logins_authentic_iff (prim : Primitives) (limits : Limits) (s s' : Socket)
    (sent : UInt64) (key serverKey : List UInt8) (serverId : Identity) (challenge : Challenge)
    (challengeSent responseSent : UInt64) :
    OutgoingAuthentic prim key (runOutgoing limits s sent) ∧
      IncomingAuthentic prim serverKey
        (runIncoming prim serverKey serverId limits s' challenge challengeSent responseSent) ↔
      ReplySigned prim limits s sent key := by
  rw [outgoingAuthentic_iff]
  exact and_iff_left (runIncoming_authentic _ _ _ _ _ _ _)

/-! A hash of zeros, and a server whose response ends with twenty ones. -/

def zeroHash : Primitives where
  sha1 := fun _ => Vector.replicate 20 0
  aes := fun _ => Equiv.refl _

def forgedChallenge : List UInt8 :=
  [255, 180, 0, 75, 0, 211] ++ List.replicate 24 0 ++
    -- version, connection id, challenge, name, connection time, address and port
    [0, 0] ++ List.replicate 8 0 ++ ([0, 16] ++ List.replicate 16 7) ++ [0, 1, 0] ++ [0, 0, 0, 0, 0, 0, 0, 9] ++
      [0, 0] ++ [0, 0, 0, 0]

def forgedResponse : List UInt8 :=
  [255, 194, 0, 61, 0, 213] ++ [0, 0, 0, 0, 0, 0, 0, 9] ++ List.replicate 8 0 ++
    [0, 0, 0, 0, 0, 0, 0, 1] ++ [0, 0] ++ [0, 0, 0, 0, 0, 0, 0, 5] ++ [0] ++
      List.replicate 20 1

/-- Nobody holds the key that would have signed this response. -/
theorem not_authentic_forgedResponse :
    ¬OutgoingAuthentic zeroHash [1, 2, 3] (runOutgoing ⟨8192, 60⟩
      [.bytes (forgedChallenge ++ forgedResponse)] pxdOpSuccessful) := by
  decide +kernel

end Authentic

end PersonalCloud.Pxd
