import PersonalCloud.Lib.Run
import PersonalCloud.Pxd.Commands
import PersonalCloud.Pxd.Login

/-!
# The client thread

A client keeps a connection to a proxy server. It logs in there, sends the commands that the
application queues and matches what comes back with them. A connection to another client may
then be made over the same socket: the one end waits for a challenge and logs in, the other
is a proxy client, which asks for the connection, sends the challenge and checks the login.

`processPacket` handles what the thread reads. It reports to the application by callbacks;
with each report goes whether the packet that it is made for was verified, which the code
does not record. An event is what the thread, the network or the application does next.
Whether a packet could be packed, the time and the random numbers are the environment's.

A packet in the queue is known by its fields alone, and of its preparation only that it was
done. Which address the server was found at, waiting times and logging are left out.
-/

namespace PersonalCloud.Pxd

open PersonalCloud.Lib PacketType

/-! ## State -/

structure Credentials where
  blob : List UInt8
  key : List UInt8
  deriving DecidableEq, Repr

structure QueuedPacket where
  content : Unpacked
  /-- The credentials of a login that this packet completes. -/
  blob : Option Blob
  prepared : Bool
  /-- The packet was queued for one that was verified. -/
  verified : Bool
  deriving DecidableEq, Repr

/-- What a null pointer was followed for. -/
inductive Fault where
  | credentials | blobKey | signature
  deriving DecidableEq, Repr

/-- Where the thread is. -/
inductive Phase where
  | connecting | awaitingChallenge | running | finished
  | crashed (fault : Fault)
  deriving DecidableEq, Repr

structure Client where
  id : Identity
  region : List UInt8
  cluster : List UInt8
  isIncoming : Bool
  isProxy : Bool
  proxyId : Identity
  proxyRequest : UInt64
  blobCrypto : Option Crypto
  creds : Option Credentials
  nextAsync : UInt64
  configured : Bool
  parameters : Configuration
  externalAddress : Option (List UInt8 × UInt32)
  isConnect : Bool
  connectLogin : Bool
  connectCreds : Option Credentials
  connectTarget : Option Identity
  connectOpaque : Option Nat
  proxyTag : UInt64
  /-- The challenge that a proxy client has sent; the code keeps only its time, as the tag. -/
  challenge : Option Challenge
  tag : UInt64
  crypto : Option Crypto
  outSequence : UInt64
  /-- The number of the next packet to be read. -/
  sequence : UInt64
  readable : Bool
  readyToSend : Bool
  stopNow : Bool
  timeLimit : Nat
  outstanding : Outstanding
  queue : List QueuedPacket
  phase : Phase
  deriving DecidableEq, Repr

inductive Report where
  | lookupDone (opOpaque : Option Nat) (result : UInt64) (reply : Option Unpacked)
  | connectDone (opOpaque : Option Nat) (result : UInt64)
  | rejectPxdCreds
  | rejectCcdCreds (opOpaque : Option Nat) (result : UInt64)
  | supplyLocal
  | supplyExternal (result : UInt64)
  | incomingLogin (blob : Blob)
  /-- A response was queued, which is not a callback. -/
  | ccdResponse (response : UInt64)
  deriving DecidableEq, Repr

/-- The report that a command was successful. -/
def Report.isSuccess : Report → Bool
  | lookupDone _ result _ => result = pxdOpSuccessful
  | connectDone _ result => result = pxdOpSuccessful
  | supplyExternal result => result = pxdOpSuccessful
  | incomingLogin _ => true
  | ccdResponse response => response = pxdOpSuccessful
  | _ => false

/-- What a step of the thread comes to. -/
structure Outcome where
  client : Client
  /-- The reports, each with whether it is made for a packet that was verified. -/
  reports : List (Report × Bool)
  /-- A packet was checked or prepared with no keys in force. -/
  nullCrypto : Bool
  /-- Whether the connection is kept. -/
  pass : Bool
  deriving DecidableEq, Repr

/-- What the environment decides on while a packet is handled. -/
structure Env where
  packs : Bool
  now : Nat
  challenge : Vector UInt8 16
  connectionTime : UInt64
  peer : List UInt8 × UInt32
  deriving DecidableEq, Repr

def Unpacked.alloc (type : PacketType) : Unpacked :=
  .ofHeader type ⟨0, 0, 0, 0, 0, 0⟩

namespace Client

/-- A new client. One that is opened for a proxy connection knows who it is for, and has the
key for the blobs of its server. -/
def doOpen (id : Identity) (region cluster : List UInt8) (creds : Credentials)
    (isIncoming : Bool) (proxy : Option (Identity × UInt64 × Crypto))
    (parameters : Configuration) : Client where
  id := id
  region := region
  cluster := cluster
  isIncoming := isIncoming
  isProxy := proxy.isSome
  proxyId := (proxy.map Prod.fst).getD ⟨0, 0, []⟩
  proxyRequest := (proxy.map fun proxy => proxy.2.1).getD 0
  blobCrypto := proxy.map fun proxy => proxy.2.2
  creds := some creds
  nextAsync := 1
  configured := false
  parameters := parameters
  externalAddress := none
  isConnect := false
  connectLogin := false
  connectCreds := none
  connectTarget := none
  connectOpaque := none
  proxyTag := 0
  challenge := none
  tag := 0
  crypto := none
  outSequence := 0
  sequence := 0
  readable := false
  readyToSend := false
  stopNow := false
  timeLimit := 6000000
  outstanding := .empty
  queue := []
  phase := .connecting

/-! ## Queueing packets -/

/-- The reports for commands that are killed. -/
def kill (commands : List Command) (result : UInt64) : List (Report × Bool) :=
  commands.filterMap fun c =>
    if c.type = queryServerDeclaration then some (.lookupDone c.opOpaque result none, false)
    else none

def queuePacket (s : Client) (packet : QueuedPacket) (opOpaque : Option Nat) (now : Nat)
    (atHead : Bool) : Option (Client × List (Report × Bool)) :=
  if s.stopNow then none
  else
    let command := ⟨packet.content.asyncId, opOpaque, packet.content.type, now⟩
    (s.outstanding.add s.timeLimit now command).map fun (outstanding, killed) =>
      ({ s with
        outstanding := outstanding
        queue := if atHead then packet :: s.queue else s.queue ++ [packet] },
        kill killed.toList pxdTimedOut)

def setupUnpacked (s : Client) (u : Unpacked) : Client × Unpacked :=
  ({ s with nextAsync := s.nextAsync + 1 },
    { u with connectionTag := s.tag, asyncId := s.nextAsync })

/-- Send a packet, and give whether that succeeded. The packets of a connection between
clients all have the operation id zero, unless they reject one that has another. -/
def sendCommand (s : Client) (u : Unpacked) (prequeue : Bool) (blob : Option Blob)
    (verified : Bool) (env : Env) : Client × List (Report × Bool) × Bool :=
  let (s, u) :=
    match u.type with
    | sendCcdChallenge | sendCcdResponse | sendCcdLogin | rejectCcdCredentials => (s, u)
    | _ => s.setupUnpacked u
  if env.packs then
    match s.queuePacket ⟨u, blob, false, verified⟩ none env.now prequeue with
    | none => (s, [], false)
    | some (s, reports) => (s, reports, true)
  else (s, [], false)

/-- The credentials are there when a login is sent. -/
def sendLogin (s : Client) (type : PacketType) (input : Unpacked) (env : Env) :
    Client × List (Report × Bool) × Bool :=
  s.sendCommand
    { Unpacked.alloc type with
      connectionTag := s.tag
      challenge := input.challenge
      blob := (s.creds.map Credentials.blob).getD []
      pxdDns := s.cluster } true none false env

def connectCleanup (s : Client) : Client :=
  { s with
    connectCreds := none
    connectTarget := none
    isConnect := false
    connectLogin := false
    connectOpaque := none }

def ccdChallenge (cluster : List UInt8) (env : Env) : Unpacked :=
  { Unpacked.alloc .sendCcdChallenge with
    challenge := env.challenge.toList
    pxdDns := cluster
    connectionTime := env.connectionTime
    connectionId := 1
    address := some env.peer.1
    port := env.peer.2 }

def sendCcdChallenge (s : Client) (env : Env) : Client × List (Report × Bool) × Bool :=
  let (s, reports, sent) := { s with proxyTag := env.connectionTime }.sendCommand
    (ccdChallenge s.cluster env) false none false env
  ({ s with challenge := if sent then some ⟨env.challenge, 1, env.connectionTime⟩ else s.challenge },
    reports, sent)

def sendStartProxy (s : Client) (env : Env) : Client × List (Report × Bool) × Bool :=
  s.sendCommand
    { Unpacked.alloc startProxyConnection with
      userId := s.proxyId.userId
      deviceId := s.proxyId.deviceId
      instanceId := s.proxyId.instanceId
      requestId := s.proxyRequest } false none false env

def ccdResponse (address : Option (List UInt8)) (port : UInt32) (response : UInt64) : Unpacked :=
  { Unpacked.alloc .sendCcdResponse with
    response := response
    address := address
    port := port }

/-- The response carries the credentials, if there are any. -/
def sendCcdResponse (s : Client) (address : Option (List UInt8)) (port : UInt32)
    (blob : Option Blob) (response : UInt64) (verified : Bool) (env : Env) :
    Client × List (Report × Bool) × Bool :=
  let (s, reports, sent) := s.sendCommand (ccdResponse address port response) false blob
    verified env
  (s, reports ++ if sent then [(.ccdResponse response, verified)] else [], sent)

def sendRejectCcd (s : Client) (asyncId : UInt64) (env : Env) :
    Client × List (Report × Bool) × Bool :=
  s.sendCommand { Unpacked.alloc rejectCcdCredentials with asyncId := asyncId } false none false
    env

/-! ## Handling a packet -/

/-- `none` when there is no key to check the blob with. A blob that is too small is refused before
the key is needed. -/
def processLogin (prim : Primitives) (s : Client) (u : Unpacked) :
    Option (Option (Client × Blob)) :=
  if u.blob.length ≤ signatureSize + 2 then some none
  else s.blobCrypto.map fun blobCrypto => do
    let blob ← unpackBlob prim blobCrypto u.blob
    if blob.isFor s.id then some ({ s with crypto := some (createCrypto blob.key) }, blob)
    else none

theorem processLogin_eq {prim : Primitives} {s : Client} {u : Unpacked} {blobCrypto : Crypto}
    (h : s.blobCrypto = some blobCrypto) :
    s.processLogin prim u = some ((unpackBlob prim blobCrypto u.blob).bind fun blob =>
      if blob.isFor s.id then some ({ s with crypto := some (createCrypto blob.key) }, blob)
      else none) := by
  unfold processLogin
  split_ifs with hsmall
  · rw [unpackBlob_of_le prim blobCrypto hsmall]
    rfl
  · exact congrArg (Option.map _) h

theorem of_processLogin {prim : Primitives} {s t : Client} {u : Unpacked} {blob : Blob}
    (h : s.processLogin prim u = some (some (t, blob))) :
    ∃ blobCrypto, s.blobCrypto = some blobCrypto ∧ unpackBlob prim blobCrypto u.blob = some blob ∧
      blob.isFor s.id = true ∧ t = { s with crypto := some (createCrypto blob.key) } := by
  unfold processLogin at h
  split_ifs at h
  · cases h
  obtain ⟨blobCrypto, hkey, h⟩ := Option.map_eq_some_iff.1 h
  obtain ⟨b, hb, h⟩ := Option.bind_eq_some_iff.1 h
  split at h
  · rename_i hfor
    obtain ⟨rfl, rfl⟩ := Prod.mk.inj (Option.some.inj h)
    exact ⟨blobCrypto, hkey, hb, hfor, rfl⟩
  · cases h

/-- Values that are not positive as signed numbers leave a parameter as it is. -/
def updateParam (value parameter : UInt32) : UInt32 :=
  if 0 < value ∧ value < 0x80000000 then value else parameter

def configure (c : Configuration) (parameters : Configuration) : Configuration where
  proxyRetries := updateParam c.proxyRetries parameters.proxyRetries
  proxyWait := updateParam c.proxyWait parameters.proxyWait
  idleLimit := updateParam c.idleLimit parameters.idleLimit
  syncIoTimeout := updateParam c.syncIoTimeout parameters.syncIoTimeout
  minDelay := updateParam c.minDelay parameters.minDelay
  maxDelay := updateParam c.maxDelay parameters.maxDelay
  threadRetries := updateParam c.threadRetries parameters.threadRetries
  maxPacketSize := updateParam c.maxPacketSize parameters.maxPacketSize
  maxEncrypt := updateParam c.maxEncrypt parameters.maxEncrypt
  partialTimeout := updateParam c.partialTimeout parameters.partialTimeout
  rejectLimit := updateParam c.rejectLimit parameters.rejectLimit
  extra := parameters.extra

/-- The result of a command: two of the types carry it, the others stand for success. -/
def replyResult (u : Unpacked) : UInt64 :=
  if u.type = sendPxdResponse ∨ u.type = .sendCcdResponse then u.response else pxdOpSuccessful

/-- Handle a packet as the reply to a command of the given type. `blob` is there when it is a
login. -/
def complete (s : Client) (type : PacketType) (opOpaque : Option Nat) (u : Unpacked)
    (blob : Option Blob) (verified : Bool) (env : Env) : Client × List (Report × Bool) × Bool :=
  let result := replyResult u
  match type with
  | .sendCcdChallenge =>
    if s.connectLogin then
      { s with
        tag := u.connectionTime
        outSequence := 0
        creds := s.connectCreds
        connectCreds := none }.sendLogin sendCcdLogin u env
    else
      let address := (s.externalAddress.map Prod.fst).or u.address
      let port := (s.externalAddress.map Prod.snd).getD u.port
      { s with readable := false, tag := s.proxyTag }.sendCcdResponse address port blob
        pxdOpSuccessful verified env
  | sendPxdLogin =>
    if u.type = rejectPxdCredentials then
      (s, if s.isProxy then [] else [(.rejectPxdCreds, verified)], false)
    else if s.isProxy then s.sendStartProxy env
    else (s, [(.supplyLocal, verified), (.supplyExternal result, verified)], true)
  | sendCcdLogin =>
    let opOpaque := s.connectOpaque
    let s := { s with connectOpaque := none }
    if u.type = rejectCcdCredentials then
      ({ s.connectCleanup with crypto := none, stopNow := true },
        [(.rejectCcdCreds opOpaque pxdOpFailed, verified)], true)
    else if result ≠ pxdOpSuccessful then
      ({ s.connectCleanup with crypto := none, stopNow := true },
        [(.connectDone opOpaque pxdOpFailed, verified)], true)
    else ({ s with stopNow := true }, [(.connectDone opOpaque result, verified)], true)
  | declareServer => (s, [], true)
  | queryServerDeclaration => (s, [(.lookupDone opOpaque result (some u), verified)], true)
  | setPxdConfiguration =>
    ({ s with configured := true, parameters := configure u.configuration s.parameters }, [],
      true)
  | startConnectionAttempt =>
    if result ≠ pxdOpSuccessful then
      ({ s.connectCleanup with stopNow := true }, [(.connectDone opOpaque result, verified)],
        true)
    else (s, [], true)
  | startProxyConnection =>
    if result = pxdOpSuccessful then
      let (s, reports, _) :=
        { s with
          creds := none
          crypto := none
          outSequence := 0
          tag := 0
          sequence := 0 }.sendCcdChallenge env
      (s, reports, true)
    else ({ s with stopNow := true }, [], false)
  | _ => (s, [], false)

/-- A client that logs in to another changes to its other key when the challenge comes, and a
login comes with the tag of the challenge. `none` when there are no credentials. -/
def switchKeys (s : Client) (type : Option UInt16) : Option Client :=
  if s.connectLogin ∧ type = some PacketType.sendCcdChallenge.code then
    s.connectCreds.map fun creds =>
      { s with sequence := 0, tag := 0, crypto := some (createCrypto creds.key) }
  else if type = some sendCcdLogin.code then some { s with tag := s.proxyTag }
  else some s

theorem queue_switchKeys {s t : Client} {type : Option UInt16}
    (h : s.switchKeys type = some t) : t.queue = s.queue := by
  unfold switchKeys at h
  split at h
  · obtain ⟨creds, -, rfl⟩ := Option.map_eq_some_iff.1 h
    rfl
  split at h <;> (obtain rfl := Option.some.inj h; rfl)

/-- Check the signature with the keys in force, which only a packet that is signed needs. -/
def signatureCheck (prim : Primitives) (crypto : Option Crypto) (packet : List UInt8) :
    Option Bool :=
  match crypto with
  | some crypto => some (checkSignature prim crypto packet)
  | none =>
    match getType packet with
    | none => some false
    | some type =>
      if !isSigned type then some true
      else if packet.length < headerSize + signatureSize then some false
      else none

/-- The packet is signed, and rightly under the keys in force. -/
def isVerified (prim : Primitives) (crypto : Option Crypto) (packet : List UInt8) : Bool :=
  crypto.any fun crypto => (getType packet).any isSigned && checkSignature prim crypto packet

section Thread

variable (prim : Primitives)

/-- A packet that passed is matched with a command. A challenge and a configuration may come
by themselves. -/
def dispatch (s : Client) (packet : List UInt8) (u : Unpacked) (blob : Option Blob)
    (nullCrypto : Bool) (env : Env) : Outcome :=
  let verified := isVerified prim s.crypto packet
  if u.type = .sendCcdChallenge ∧ s.connectLogin ∨ u.type = setPxdConfiguration then
    let (s, reports, pass) := s.complete u.type none u blob verified env
    ⟨s, reports, nullCrypto, pass⟩
  else
    match s.outstanding.find u.asyncId with
    | none => ⟨s, [], nullCrypto, true⟩
    | some (command, outstanding) =>
      let (s, reports, pass) := { s with outstanding := outstanding }.complete command.type
        command.opOpaque u blob verified env
      ⟨s, reports, nullCrypto, pass⟩

def rejectLogin (s : Client) (u : Unpacked) (env : Env) : Outcome :=
  let (s, reports, _) := { s with readable := false }.sendRejectCcd u.asyncId env
  ⟨s, reports, false, true⟩

def crash (s : Client) (fault : Fault) (nullCrypto : Bool) : Outcome :=
  ⟨{ s with phase := .crashed fault }, [], nullCrypto, false⟩

/-- Check a packet that could be decoded. -/
def processUnpacked (s : Client) (packet : List UInt8) (u : Unpacked) (env : Env) : Outcome :=
  if getType packet = some sendCcdLogin.code then
    match s.processLogin prim u with
    | none => s.crash .blobKey false
    | some none => s.rejectLogin u env
    | some (some (s, blob)) =>
      if signatureCheck prim s.crypto packet = some true then
        s.dispatch prim packet u (some blob) false env
      else s.rejectLogin u env
  else
    match signatureCheck prim s.crypto packet with
    | none => s.crash .signature true
    | some false => ⟨s, [], s.crypto.isNone, false⟩
    | some true => s.dispatch prim packet u none s.crypto.isNone env

def processPacket (s : Client) (packet : List UInt8) (env : Env) : Outcome :=
  match s.switchKeys (getType packet) with
  | none => s.crash .credentials false
  | some s =>
    match unpack packet s.sequence s.tag with
    | (none, sequence) => ⟨{ s with sequence := sequence }, [], false, false⟩
    | (some u, sequence) => { s with sequence := sequence }.processUnpacked prim packet u env

/-! ## The thread -/

def declareDown (s : Client) : Client × List (Report × Bool) :=
  let (outstanding, killed) := s.outstanding.killAll
  ({ s with
    queue := s.queue.map fun packet => { packet with prepared := false }
    outstanding := outstanding
    tag := 0
    outSequence := 0
    readyToSend := false
    configured := false }, kill killed pxdConnectionLost)

/-- The thread ends, and a connection that was asked for has failed. -/
def finish (s : Client) : Client × List (Report × Bool) :=
  let pending := s.connectOpaque.toList.map fun opOpaque =>
    (.connectDone (some opOpaque) pxdOpFailed, false)
  let (s, reports) := { s with connectOpaque := none }.declareDown
  ({ s with queue := [], phase := .finished }, pending ++ reports)

/-- The connection is given up, or the thread was asked to stop. -/
def leaveLoop (s : Client) : Client × List (Report × Bool) :=
  if s.stopNow ∨ s.isProxy ∨ s.isConnect ∧ s.connectCreds = none then
    { s with stopNow := true }.finish
  else
    let (s, reports) := s.declareDown
    ({ s with phase := .connecting }, reports)

/-- Read the challenge of the proxy server, and log in there. -/
def readChallenge (s : Client) (packet : List UInt8) (env : Env) : Outcome :=
  let failed (s : Client) : Outcome :=
    let (s, reports) := s.declareDown
    ⟨{ s with phase := .connecting }, reports, false, false⟩
  match (unpack packet 0 s.tag).1 with
  | none => failed s
  | some u =>
    if u.type ≠ sendPxdChallenge then failed s
    else
      let s := { s with
        tag := u.connectionTime
        externalAddress := u.address.map fun address => (address, u.port) }
      match s.crypto.orElse fun _ => s.creds.map fun creds => createCrypto creds.key with
      | none => s.crash .credentials false
      | some crypto =>
        let (s, reports, sent) := { s with crypto := some crypto, readyToSend := true }.sendLogin
          sendPxdLogin u env
        if sent then ⟨{ s with sequence := 1, phase := .running }, reports, false, true⟩
        else
          let down := failed s
          { down with reports := reports ++ down.reports }

/-- Prepare the packet at the head of the queue, if it is not yet. -/
def prepHead (s : Client) (reports : List (Report × Bool)) : Outcome :=
  match s.queue with
  | [] => ⟨s, reports, false, true⟩
  | packet :: rest =>
    if packet.prepared then ⟨s, reports, false, true⟩
    else if s.crypto = none ∧ isSigned packet.content.type.code then
      { s.crash .signature true with reports := reports }
    else
      ⟨{ s with
        queue := { packet with prepared := true } :: rest
        outSequence := s.outSequence + 1 }, reports, s.crypto.isNone, true⟩

/-- The packet at the head has been written. With a response to a login, the connection is
handed over. -/
def packetSent (s : Client) (packet : QueuedPacket) (rest : List QueuedPacket) : Outcome :=
  let rest := match rest with
    | [] => []
    | next :: rest => { next with prepared := false } :: rest
  match packet.blob with
  | none => { s with queue := rest }.prepHead []
  | some blob =>
    { s with queue := rest, stopNow := true }.prepHead [(.incomingLogin blob, packet.verified)]

end Thread

/-! ## The application -/

def request (s : Client) (u : Unpacked) (opOpaque : Option Nat) (env : Env) : Outcome :=
  let (s, u) := s.setupUnpacked u
  if env.packs then
    match s.queuePacket ⟨u, none, false, false⟩ opOpaque env.now false with
    | none => ⟨s, [], false, false⟩
    | some (s, reports) => ⟨s, reports, false, true⟩
  else ⟨s, [], false, false⟩

def lookup (s : Client) (id : Identity) (region : List UInt8) (opOpaque : Option Nat)
    (env : Env) : Outcome :=
  s.request
    { Unpacked.alloc queryServerDeclaration with
      region := region
      userId := id.userId
      deviceId := id.deviceId
      instanceId := id.instanceId } opOpaque env

def declare (s : Client) (ansDns pxdDns : List UInt8) (addresses : List Address) (env : Env) :
    Outcome :=
  if s.isIncoming then
    s.request
      { Unpacked.alloc declareServer with
        region := s.region
        userId := s.id.userId
        deviceId := s.id.deviceId
        instanceId := s.id.instanceId
        ansDns := ansDns
        pxdDns := pxdDns
        addresses := addresses } none env
  else ⟨s, [], false, false⟩

structure Connect where
  creds : Credentials
  target : Identity
  region : List UInt8
  pxdDns : Option (List UInt8)
  opOpaque : Option Nat
  addresses : List Address
  requestId : UInt64
  deriving DecidableEq, Repr

/-- One attempt at a time. A packet that could not be queued leaves `isConnect` set. -/
def connect (s : Client) (c : Connect) (env : Env) : Outcome :=
  if s.isIncoming then ⟨s, [], false, false⟩
  else if s.connectCreds ≠ none ∨ s.connectTarget ≠ none ∨ s.connectLogin then
    ⟨s, [], false, false⟩
  else
    let attempt := { s with
      connectCreds := some c.creds
      connectTarget := some c.target
      connectLogin := true
      connectOpaque := c.opOpaque }.request
      { Unpacked.alloc startConnectionAttempt with
        region := c.region
        userId := c.target.userId
        deviceId := c.target.deviceId
        instanceId := c.target.instanceId
        pxdDns := c.pxdDns.getD s.cluster
        requestId := c.requestId
        addresses := c.addresses } c.opOpaque env
    let s := if attempt.pass then attempt.client else attempt.client.connectCleanup
    { attempt with client := { s with isConnect := s.isConnect || env.packs } }

/-! ## Events -/

end Client

inductive Event where
  | connected
  /-- `none` when the challenge could not be read. -/
  | challenge (packet : Option (List UInt8)) (env : Env)
  | receive (packet : List UInt8) (env : Env)
  | write
  | sent
  | checkTimeout (now : Nat)
  /-- The socket failed, or the thread noticed that it has to stop. -/
  | leave
  | lookup (id : Identity) (region : List UInt8) (opOpaque : Option Nat) (env : Env)
  | declare (ansDns pxdDns : List UInt8) (addresses : List Address) (env : Env)
  | connect (c : Client.Connect) (env : Env)
  | stop
  | restart
  deriving DecidableEq, Repr

namespace Client

variable (prim : Primitives)

def quiet (s : Client) : Outcome :=
  ⟨s, [], false, true⟩

/-- The thread handles a packet, and goes on if it can. -/
def receive (s : Client) (packet : List UInt8) (env : Env) : Outcome :=
  let outcome := s.processPacket prim packet env
  if outcome.client.phase ≠ .running ∨ outcome.pass ∧ ¬outcome.client.stopNow then outcome
  else
    let (s, reports) := outcome.client.leaveLoop
    { outcome with client := s, reports := outcome.reports ++ reports }

/-- What an event comes to; the application holds no proxy client. -/
def handle (s : Client) : Event → Option Outcome
  | .connected =>
    if s.phase = .connecting ∧ ¬s.stopNow then
      some { s with phase := .awaitingChallenge, readable := true }.quiet
    else none
  | .challenge packet env =>
    if s.phase = .awaitingChallenge ∧ ¬s.stopNow then
      match packet with
      | none =>
        let (s, reports) := s.declareDown
        some ⟨{ s with phase := .connecting }, reports, false, false⟩
      | some packet => some (s.readChallenge packet env)
    else none
  | .receive packet env =>
    if s.phase = .running ∧ s.readable then some (s.receive prim packet env) else none
  | .write => if s.phase = .running ∧ s.readyToSend then some (s.prepHead []) else none
  | .sent =>
    match s.queue with
    | [] => none
    | packet :: rest =>
      if s.phase = .running ∧ packet.prepared then some (s.packetSent packet rest) else none
  | .checkTimeout now =>
    if s.phase = .awaitingChallenge ∨ s.phase = .running then
      let (outstanding, late) := s.outstanding.checkTimeout s.timeLimit now
      some ⟨{ s with outstanding := outstanding }, kill late pxdTimedOut, false, true⟩
    else none
  | .leave =>
    if s.phase = .running then
      let (s, reports) := s.leaveLoop
      some ⟨s, reports, false, false⟩
    else if (s.phase = .connecting ∨ s.phase = .awaitingChallenge) ∧ s.stopNow then
      let (s, reports) := s.finish
      some ⟨s, reports, false, false⟩
    else none
  | .lookup id region opOpaque env =>
    if s.isProxy then none else some (s.lookup id region opOpaque env)
  | .declare ansDns pxdDns addresses env =>
    if s.isProxy then none else some (s.declare ansDns pxdDns addresses env)
  | .connect c env => if s.isProxy then none else some (s.connect c env)
  | .stop => some { s with stopNow := true }.quiet
  | .restart =>
    if s.phase = .finished ∧ ¬s.isProxy then
      some { s with stopNow := false, phase := .connecting }.quiet
    else none

/-- The events that can happen, with what each comes to. -/
inductive Handles (s : Client) : Event → Outcome → Prop where
  | connected (hphase : s.phase = .connecting) (hstop : s.stopNow = false) :
      Handles s .connected { s with phase := .awaitingChallenge, readable := true }.quiet
  | noChallenge (env : Env) (hphase : s.phase = .awaitingChallenge) (hstop : s.stopNow = false) :
      Handles s (.challenge none env)
        ⟨{ s.declareDown.1 with phase := .connecting }, s.declareDown.2, false, false⟩
  | challenge (packet : List UInt8) (env : Env) (hphase : s.phase = .awaitingChallenge)
      (hstop : s.stopNow = false) :
      Handles s (.challenge (some packet) env) (s.readChallenge packet env)
  | receive (packet : List UInt8) (env : Env) (hphase : s.phase = .running)
      (hreadable : s.readable = true) :
      Handles s (.receive packet env) (s.receive prim packet env)
  | write (hphase : s.phase = .running) (hready : s.readyToSend = true) :
      Handles s .write (s.prepHead [])
  | sent (packet : QueuedPacket) (rest : List QueuedPacket) (hqueue : s.queue = packet :: rest)
      (hphase : s.phase = .running) (hprepared : packet.prepared = true) :
      Handles s .sent (s.packetSent packet rest)
  | checkTimeout (now : Nat) (hphase : s.phase = .awaitingChallenge ∨ s.phase = .running) :
      Handles s (.checkTimeout now)
        ⟨{ s with outstanding := (s.outstanding.checkTimeout s.timeLimit now).1 },
          kill (s.outstanding.checkTimeout s.timeLimit now).2 pxdTimedOut, false, true⟩
  | leave (hphase : s.phase = .running) :
      Handles s .leave ⟨s.leaveLoop.1, s.leaveLoop.2, false, false⟩
  | stopped (hphase : s.phase = .connecting ∨ s.phase = .awaitingChallenge)
      (hstop : s.stopNow = true) : Handles s .leave ⟨s.finish.1, s.finish.2, false, false⟩
  | lookup (id : Identity) (region : List UInt8) (opOpaque : Option Nat) (env : Env)
      (hproxy : s.isProxy = false) :
      Handles s (.lookup id region opOpaque env) (s.lookup id region opOpaque env)
  | declare (ansDns pxdDns : List UInt8) (addresses : List Address) (env : Env)
      (hproxy : s.isProxy = false) :
      Handles s (.declare ansDns pxdDns addresses env) (s.declare ansDns pxdDns addresses env)
  | connect (c : Connect) (env : Env) (hproxy : s.isProxy = false) :
      Handles s (.connect c env) (s.connect c env)
  | stop : Handles s .stop { s with stopNow := true }.quiet
  | restart (hphase : s.phase = .finished) (hproxy : s.isProxy = false) :
      Handles s .restart { s with stopNow := false, phase := .connecting }.quiet

variable {prim} in
theorem handles_of_handle {s : Client} {e : Event} {o : Outcome}
    (h : s.handle prim e = some o) : Handles prim s e o := by
  cases e with
  | connected =>
    obtain ⟨⟨hphase, hstop⟩, h⟩ := Option.ite_none_right_eq_some.1 h
    obtain rfl := Option.some.inj h
    exact .connected hphase (by simpa using hstop)
  | challenge packet env =>
    obtain ⟨⟨hphase, hstop⟩, h⟩ := Option.ite_none_right_eq_some.1 h
    cases packet with
    | none =>
      obtain rfl := Option.some.inj h
      exact .noChallenge env hphase (by simpa using hstop)
    | some packet =>
      obtain rfl := Option.some.inj h
      exact .challenge packet env hphase (by simpa using hstop)
  | receive packet env =>
    obtain ⟨⟨hphase, hreadable⟩, h⟩ := Option.ite_none_right_eq_some.1 h
    obtain rfl := Option.some.inj h
    exact .receive packet env hphase hreadable
  | write =>
    obtain ⟨⟨hphase, hready⟩, h⟩ := Option.ite_none_right_eq_some.1 h
    obtain rfl := Option.some.inj h
    exact .write hphase hready
  | sent =>
    rw [handle] at h
    cases hqueue : s.queue with
    | nil =>
      rw [hqueue] at h
      cases h
    | cons packet rest =>
      rw [hqueue] at h
      obtain ⟨⟨hphase, hprepared⟩, h⟩ := Option.ite_none_right_eq_some.1 h
      obtain rfl := Option.some.inj h
      exact .sent packet rest hqueue hphase hprepared
  | checkTimeout now =>
    obtain ⟨hphase, h⟩ := Option.ite_none_right_eq_some.1 h
    obtain rfl := Option.some.inj h
    exact .checkTimeout now hphase
  | leave =>
    rw [handle] at h
    split at h
    · rename_i hphase
      obtain rfl := Option.some.inj h
      exact .leave hphase
    · obtain ⟨⟨hphase, hstop⟩, h⟩ := Option.ite_none_right_eq_some.1 h
      obtain rfl := Option.some.inj h
      exact .stopped hphase hstop
  | lookup id region opOpaque env =>
    obtain ⟨hproxy, h⟩ := Option.ite_none_left_eq_some.1 h
    obtain rfl := Option.some.inj h
    exact .lookup id region opOpaque env (by simpa using hproxy)
  | declare ansDns pxdDns addresses env =>
    obtain ⟨hproxy, h⟩ := Option.ite_none_left_eq_some.1 h
    obtain rfl := Option.some.inj h
    exact .declare ansDns pxdDns addresses env (by simpa using hproxy)
  | connect c env =>
    obtain ⟨hproxy, h⟩ := Option.ite_none_left_eq_some.1 h
    obtain rfl := Option.some.inj h
    exact .connect c env (by simpa using hproxy)
  | stop =>
    obtain rfl := Option.some.inj h
    exact .stop
  | restart =>
    obtain ⟨⟨hphase, hproxy⟩, h⟩ := Option.ite_none_right_eq_some.1 h
    obtain rfl := Option.some.inj h
    exact .restart hphase (by simpa using hproxy)

/-- After a null pointer was followed nothing happens any more. -/
def step (s : Client) (e : Event) : Option Client :=
  match s.phase with
  | .crashed _ => none
  | _ => (s.handle prim e).map Outcome.client

variable {prim} in
theorem handles_of_step {s t : Client} {e : Event} (h : s.step prim e = some t) :
    ∃ o, s.handle prim e = some o ∧ Handles prim s e o ∧ o.client = t := by
  unfold step at h
  split at h
  · cases h
  · obtain ⟨o, ho, rfl⟩ := Option.map_eq_some_iff.1 h
    exact ⟨o, ho, handles_of_handle ho, rfl⟩

end Client

end PersonalCloud.Pxd
