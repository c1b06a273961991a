import PersonalCloud.Lib.Bytes
import PersonalCloud.Lib.Exits

/-!
# Packets of the notification server

`unpack` goes through a packet with a cursor. Numbers are read under a flag that stays set once
too little was left, parameters without looking, and arrays are found by their lengths. The
fields of a packet are stored into the client as they are read.

A load outside the packet has no outcome, and neither has the use of a length or a pointer that
was not set or a store outside a buffer. Memory does not run out, and what is only logged is left
out, but for the external address, which is printed into a buffer first.

## Main definitions

* `Client`, `Unpacked` — what `unpack` stores into, and what it returns.
* `unpack` — the code.
-/

namespace PersonalCloud.Ans

open PersonalCloud.Lib Scan

/-! ## Packets and clients -/

inductive PacketType where
  | sendStateList
  | sendUnicast
  | sendMulticast
  | sendResponse
  | sendTimedPing
  | sendLoginBlob
  | sendChallenge
  | sendPing
  | setDeviceParams
  | sendDeviceUpdate
  | sendSleepSetup
  | rejectCredentials
deriving DecidableEq, Repr

def PacketType.ofCode (code : UInt16) : Option PacketType :=
  if code = 1 then some .sendStateList
  else if code = 6 then some .sendUnicast
  else if code = 7 then some .sendMulticast
  else if code = 9 then some .sendResponse
  else if code = 12 then some .sendTimedPing
  else if code = 26 then some .sendLoginBlob
  else if code = 27 then some .sendChallenge
  else if code = 35 then some .sendPing
  else if code = 37 then some .setDeviceParams
  else if code = 43 then some .sendDeviceUpdate
  else if code = 53 then some .sendSleepSetup
  else if code = 57 then some .rejectCredentials
  else none

def ansDeviceVersion : UInt16 := 2
def ansChallengeVersion : UInt16 := 2
def serverFlagNewPing : UInt64 := 1
def serverTagFlag : UInt16 := 0 - 1
def headerSize : ℕ := 30
def signatureSize : ℕ := 20
def stateSize : ℕ := 9
def aesBlockSize : ℕ := 16
def maxDeviceState : UInt64 := 30
def deviceSleeping : UInt64 := 2

/-- The parameters that the server can set, some of them of the whole process. -/
structure Params where
  printInterval : Int32
  maxSubs : Int32
  maxPacketSize : Int32
  maxQuery : Int32
  partialTimeout : Int32
  minDelay : Int32
  maxDelay : Int32
  baseInterval : Int32
  retryInterval : Int32
  retryCount : Int32
  tcpKaTime : Int32
  tcpKaInterval : Int32
  tcpKaProbes : Int32
  pingBack : Int32
  pingFactor : Int32
  keepPort : Int32
  jitter : Int32
  enableTcpOnly : Int32
deriving DecidableEq, Repr

/-- Calls of the callbacks and of other functions. -/
inductive Call where
  | setPingPacket (packet : List UInt8)
  | loginCompleted
  | sendParamVersion (version : UInt16)
  | sendSubscriptions
  | setKeepAlive
  | pingKeepAlive
  | sendTcpPing
deriving DecidableEq, Repr

/-- `calls` is history. -/
structure Client where
  connection : UInt64
  challenge : Option (List UInt8)
  challengeLength : Int32
  serverFlags : UInt64
  deviceId : UInt64
  generation : UInt64
  serverTime : UInt64
  hostName : Option (List UInt8)
  externalIp : Option (List UInt8)
  externalCount : ℕ
  externalPort : Int32
  rejected : Bool
  loginInited : Bool
  loginCompleted : Bool
  seed : UInt32
  interval : UInt64
  crypto : Option (List UInt8)
  params : Params
  liveSocketId : Int32
  deadSocketId : Int32
  declaredDead : Bool
  nextSocketId : Int32
  packetsIn : UInt64
  lastTcpReceive : UInt64
  calls : List Call
deriving DecidableEq, Repr

/-- An array comes with its length. -/
structure Unpacked where
  type : PacketType
  userId : UInt64
  asyncId : UInt64
  tag : UInt64
  deviceId : UInt64 := 0
  response : UInt64 := 0
  newDeviceState : UInt8 := 0
  newDeviceTime : UInt64 := 0
  deviceList : List UInt64 := []
  deviceStates : List UInt8 := []
  deviceTimes : List UInt64 := []
  notification : List UInt8 := []
  wakeupKey : List UInt8 := []
  sleepPacket : List UInt8 := []
  sleepDns : List UInt8 := []
  sleepPort : UInt16 := 0
  sleepPacketInterval : UInt32 := 0
  ioacType : UInt32 := 0
  macAddress : List UInt8 := []
  sequenceId : UInt64 := 0
  sendTime : UInt64 := 0
  rtt : UInt64 := 0
  connection : UInt64 := 0
deriving DecidableEq, Repr

/-- The time, what allocated memory holds, and `aes_SwDecrypt` of a key, an initial vector and a
ciphertext, which gives as many bytes as the ciphertext has. -/
structure Env where
  now : UInt64
  memory : ℕ → UInt64
  decrypt : List UInt8 → List UInt8 → List UInt8 → Option (List UInt8)
  length_decrypt : ∀ key iv ciphertext text, decrypt key iv ciphertext = some text →
    text.length = ciphertext.length

/-! ## Reading -/

/-- The client, if there is one, and the sequence number that is expected, if one is. -/
structure Session where
  client : Option Client
  expectedId : Option UInt64
deriving DecidableEq, Repr

/-- An early return gives what it returns, if that is not null. -/
abbrev Unpack := Exiting UInt8 Session (Option Unpacked)

/-- The macros for numbers of `n` bytes. -/
def unpackU (n : ℕ) : Scan UInt8 ℕ := do
  failIf (← lacks n)
  if ← failed then return 0
  else
    let bytes ← load n
    advance n
    return ofBytes bytes

def unpackU8 : Scan UInt8 UInt8 := UInt8.ofNat <$> unpackU 1
def unpackU16 : Scan UInt8 UInt16 := UInt16.ofNat <$> unpackU 2
def unpackU32 : Scan UInt8 UInt32 := UInt32.ofNat <$> unpackU 4
def unpackU64 : Scan UInt8 UInt64 := UInt64.ofNat <$> unpackU 8

/-- Less than `n` bytes are left, as unsigned numbers. -/
def short (n : ℕ) : Scan UInt8 Bool :=
  lacks n

/-- Less than `n` bytes are left, as signed numbers. -/
def shortSigned (n : ℕ) : Scan UInt8 Bool := fun packet c =>
  some (decide ((packet.length : ℤ) - c.base < n), c)

/-- `end - base`. -/
def left : Scan UInt8 ℤ := fun packet c => some ((packet.length : ℤ) - c.base, c)

/-- An array in the packet. -/
structure Slice where
  array : ℕ
  length : ℕ
deriving DecidableEq, Repr

/-- `unpack_bytes`, with a flag and a cursor of its own. -/
def unpackBytes : Scan UInt8 (Option Slice) := fun packet c => do
  let (small, _) ← short 2 packet c
  if small then some (none, c)
  else
    let (length, here) ← unpackU16 packet ⟨c.base, false⟩
    let (small, _) ← shortSigned length.toNat packet here
    if small ∨ here.fail then some (none, c)
    else some (some ⟨here.base, length.toNat⟩, c)

/-- Copy an array. -/
def copy (s : Slice) : Scan UInt8 (List UInt8) := fun packet c =>
  if s.array + s.length ≤ packet.length then some ((packet.drop s.array).take s.length, c)
  else none

/-- Go on behind an array. -/
def skip (s : Slice) : Scan UInt8 Unit := fun _ c =>
  some ((), { c with base := s.array + s.length })

/-- What has no outcome. -/
def undefined {β : Type} : Scan UInt8 β := fun _ _ => none

def orUndefined {β : Type} : Option β → Scan UInt8 β
  | some b => pure b
  | none => undefined

def setClient (f : Client → Client) : Unpack Unit :=
  modify fun s => { s with client := s.client.map f }

def call (f : Call) : Unpack Unit :=
  setClient fun client => { client with calls := client.calls ++ [f] }

def returnNull {β : Type} : Unpack β :=
  throw none

def nullIf (p : Prop) [Decidable p] : Unpack Unit :=
  if p then returnNull else pure ()

def orNull {β : Type} : Option β → Unpack β
  | some b => pure b
  | none => returnNull

/-- Return null if less than `n` bytes are left. -/
def require (n : ℕ) : Unpack Unit := do
  nullIf (← short n)

/-- Give up and take the packet for a ping. -/
def returnPing {β : Type} (result : Unpacked) : Unpack β :=
  throw (some { result with type := .sendPing })

def pingIf (result : Unpacked) (p : Prop) [Decidable p] : Unpack Unit :=
  if p then returnPing result else pure ()

def orPing {β : Type} (result : Unpacked) : Option β → Unpack β
  | some b => pure b
  | none => returnPing result

/-- Take the packet for a ping if less than `n` bytes are left. -/
def requireOrPing (result : Unpacked) (n : ℕ) : Unpack Unit := do
  pingIf result (← short n)

/-- The key of the client. -/
def clientKey : Unpack (List UInt8) := do
  orUndefined ((← get).client.bind fun client => client.crypto)

/-- `ans_decrypt`. -/
def ansDecrypt (env : Env) (message : List UInt8) : Unpack (List UInt8) := do
  nullIf (message.length % aesBlockSize ≠ 0)
  nullIf (message.length ≤ aesBlockSize)
  let key ← clientKey
  let work ← orNull (env.decrypt key (message.take aesBlockSize) (message.drop aesBlockSize))
  let length := ofBytes (work.take 2)
  nullIf (length = 0 ∨ (message.drop aesBlockSize).length - 2 < length)
  return (work.drop 2).take length

def unpackEncrypted (env : Env) : Unpack (List UInt8) := do
  let field ← orNull (← unpackBytes)
  nullIf (field.length = 0)
  let text ← ansDecrypt env (← copy field)
  skip field
  return text

/-- Numbers that are not kept. -/
def discard : ℕ → Unpack Unit
  | 0 => pure ()
  | n + 1 => do
    let _ ← unpackU64
    discard n

/-! ## The types -/

/-- `device_state`. -/
def deviceState (response : UInt64) : UInt8 :=
  (if maxDeviceState < response then deviceSleeping else response).toUInt8

def sendUnicast (result : Unpacked) : Unpack Unpacked := do
  require (8 + signatureSize)
  let deviceId ← unpackU64
  return { result with deviceId := deviceId }

def sendMulticast (result : Unpacked) : Unpack Unpacked := do
  require (4 + signatureSize)
  let _classes ← unpackU32
  return result

def sendSleepSetup (env : Env) (result : Unpacked) : Unpack Unpacked := do
  require (4 + signatureSize)
  let ioacType ← unpackU32
  let macAddress ← unpackEncrypted env
  let sleepPacket ← unpackEncrypted env
  let wakeupKey ← unpackEncrypted env
  let ipName ← orNull (← unpackBytes)
  nullIf (ipName.length = 0)
  skip ipName
  let sleepDns ← copy ipName
  let sleepPort ← unpackU32
  let sleepInterval ← unpackU32
  return { result with
    ioacType := ioacType
    macAddress := macAddress
    sleepPacket := sleepPacket
    wakeupKey := wakeupKey
    sleepDns := sleepDns
    sleepPort := sleepPort.toUInt16
    sleepPacketInterval := sleepInterval }

/-- How many numbers there are in a challenge, if it has the known version. -/
def challengeCount (challengeType : UInt16) : Unpack ℕ := do
  if challengeType = ansChallengeVersion then
    let count ← unpackU16
    nullIf ((← short (count.toNat * 8)) ∨ count < 2)
    return count.toNat
  else return 0

/-- The flags of the server, if there are any, and unknown numbers. -/
def challengeFlags (count : ℕ) : Unpack Unit := do
  if 2 < count then
    let serverFlags ← unpackU64
    setClient fun client => { client with serverFlags := serverFlags }
    discard (count - 3)

/-- The numbers behind the connection. -/
def challengeNumbers (challengeType : UInt16) (count : ℕ) : Unpack Unit := do
  if challengeType = ansChallengeVersion then
    let _time ← unpackU64
    challengeFlags count

def challengeBytes : Unpack Unit := do
  setClient fun client => { client with challenge := none }
  let challenge? ← unpackBytes
  setClient fun client => { client with
    challengeLength := (challenge?.map fun challenge => .ofNat challenge.length).getD (-1) }
  let challenge ← orNull challenge?
  nullIf (challenge.length = 0)
  let bytes ← copy challenge
  setClient fun client => { client with challenge := some bytes }
  skip challenge

def sendChallenge (env : Env) (result : Unpacked) : Unpack Unpacked := do
  require (8 + 2 * 2)
  setClient fun client => { client with serverFlags := serverFlagNewPing }
  let challengeType ← unpackU16
  let count ← challengeCount challengeType
  let connection ← unpackU64
  challengeNumbers challengeType count
  setClient fun client => { client with connection := connection }
  challengeBytes
  return { result with tag := if result.tag = 0 then env.now / 1000 else result.tag }

/-- A parameter, read without looking. -/
def unpackValue : Scan UInt8 UInt32 := do
  let bytes ← load 4
  advance 4
  return UInt32.ofNat (ofBytes bytes)

/-- `unpack_param`: -1 leaves the parameter alone. -/
def unpackParam (f : Int32 → Client → Client) : Unpack Unit := do
  let value ← unpackValue
  setClient fun client => if value.toInt32 = -1 then client else f value.toInt32 client

def unpackGlobal (f : Int32 → Params → Params) : Unpack Unit :=
  unpackParam fun value client => { client with params := f value client.params }

/-- `unpack_param_64`: a half that is -1 leaves the -1 that stands there. -/
def unpackParam64 (f : UInt64 → Client → Client) : Unpack Unit := do
  let upper ← unpackValue
  let lower ← unpackValue
  setClient (f ((upper.toUInt64 <<< 32) ||| lower.toUInt64))

/-- The first 13 parameters. -/
def unpackGlobals : Unpack Unit := do
  unpackGlobal fun value params => { params with printInterval := value }
  unpackGlobal fun value params => { params with maxSubs := value }
  unpackGlobal fun value params => { params with maxPacketSize := value }
  unpackGlobal fun value params => { params with maxQuery := value }
  unpackGlobal fun value params => { params with partialTimeout := value }
  unpackGlobal fun value params => { params with minDelay := value }
  unpackGlobal fun value params => { params with maxDelay := value }
  unpackGlobal fun value params => { params with baseInterval := value }
  unpackGlobal fun value params => { params with retryInterval := value }
  unpackGlobal fun value params => { params with retryCount := value }
  unpackGlobal fun value params => { params with tcpKaTime := value }
  unpackGlobal fun value params => { params with tcpKaInterval := value }
  unpackGlobal fun value params => { params with tcpKaProbes := value }

/-- The sanity rules for the delays. -/
def Params.saneDelays (params : Params) : Params :=
  { params with
    minDelay := min 60 (max 1 params.minDelay)
    maxDelay := min 3600 (max 10 params.maxDelay) }

/-- The next 11 parameters. -/
def unpackNewer : Unpack Unit := do
  setClient fun client => { client with
    params := client.params.saneDelays, serverTime := 0, deviceId := 0, generation := 0 }
  unpackParam64 fun value client => { client with deviceId := value }
  unpackGlobal fun value params => { params with pingBack := value }
  unpackGlobal fun value params => { params with pingFactor := value }
  unpackParam64 fun value client => { client with generation := value }
  unpackParam64 fun value client => { client with serverTime := value }
  setClient fun client => { client with serverTime := client.serverTime * 1000 }
  unpackGlobal fun value params => { params with keepPort := value }
  unpackGlobal fun value params => { params with jitter := value }
  unpackParam fun value client => { client with externalPort := value }

/-- The parameters beyond the first 24. -/
def unpackRest (count : ℕ) : Unpack Unit := do
  if 0 < count then
    unpackGlobal fun value params => { params with enableTcpOnly := value }
    (advance ((count - 1) * 4) : Scan UInt8 Unit)

/-- What `mtwist_init` is given. -/
def Client.betterSeed (client : Client) (now : UInt64) : UInt32 :=
  let time := now.toUInt32
  let seed := client.deviceId ^^^ (client.deviceId >>> 15)
  let seed := seed ^^^ (client.connection ^^^ (client.generation <<< 9))
  let seed := seed ^^^ (time ^^^ (time <<< 16)).toUInt64
  (seed ^^^ (seed >>> 32)).toUInt32

/-- An empty string is not passed over. -/
def unpackString (string? : Option Slice) (f : List UInt8 → Unpack Unit) : Unpack Unit := do
  match string? with
  | none => pure ()
  | some string =>
    if 0 < string.length then
      f (← copy string)
      skip string

def unpackHostName : Unpack Unit := do
  setClient fun client => { client with hostName := none }
  unpackString (← unpackBytes) fun name =>
    setClient fun client => { client with hostName := some name }

/-- A round of `print_external`. What it prints is counted whether it had room or not, and
`snprintf` takes what remains as an unsigned number. -/
def printByte (remaining : ℤ) (i : ℕ) (byte : UInt8) : Option ℤ :=
  let remaining := if i ≠ 0 ∧ 0 < remaining then remaining - 1 else remaining
  if remaining < 0 then none else some (remaining - (Nat.toDigits 10 byte.toNat).length)

def printFrom (remaining : ℤ) (i : ℕ) : List UInt8 → Option ℤ
  | [] => some remaining
  | byte :: ip => do printFrom (← printByte remaining i byte) (i + 1) ip

/-- `print_external`: how much remains of `dotted_quad`. -/
def printExternal (ip : List UInt8) : Option ℤ :=
  printFrom (512 - 1) 0 ip

def unpackExternal : Unpack Unit := do
  let bytes? ← unpackBytes
  setClient fun client => { client with externalIp := none }
  unpackString bytes? fun ip => do
    setClient fun client => { client with externalIp := some ip, externalCount := ip.length }
    let _remaining ← orUndefined (printExternal ip)

/-- The strings beyond the first three. -/
def skipStrings (result : Unpacked) : ℕ → Unpack Unit
  | 0 => pure ()
  | n + 1 => do
    let string ← orPing result (← unpackBytes)
    skip string
    skipStrings result n

def declareOnline : Unpack Unit := do
  setClient fun client =>
    if client.loginCompleted then client
    else { client with
      loginCompleted := true
      liveSocketId := client.nextSocketId
      nextSocketId := client.nextSocketId + 1
      deadSocketId := -1
      declaredDead := false
      calls := client.calls ++ [.loginCompleted, .sendSubscriptions, .pingKeepAlive] ++
        if 0 < client.interval then [.sendTcpPing] else [] }

/-- The server is told which version is known. -/
def checkVersion (result : Unpacked) (version : UInt16) : Unpack Unit := do
  if version ≠ ansDeviceVersion then
    call (.sendParamVersion ansDeviceVersion)
    returnPing result

def inited (now : UInt64) (client : Client) : Client :=
  if client.loginInited then client
  else { client with loginInited := true, seed := client.betterSeed now }

def unpackParams (result : Unpacked) : Unpack Unit := do
  checkVersion result (← unpackU16)
  let paramCount ← unpackU16
  pingIf result (paramCount < 24)
  requireOrPing result (paramCount.toNat * 4 + 2)
  unpackGlobals
  unpackNewer
  unpackRest (paramCount.toNat - 24)

/-- The strings behind the parameters, of which the first is the ping packet. -/
def unpackStrings (env : Env) (result : Unpacked) : Unpack Slice := do
  let stringCount ← unpackU16
  pingIf result (stringCount < 3)
  let pingPacket ← orPing result (← unpackBytes)
  skip pingPacket
  unpackHostName
  setClient (inited env.now)
  unpackExternal
  skipStrings result (stringCount.toNat - 3)
  return pingPacket

def setDeviceParams (env : Env) (result : Unpacked) : Unpack Unpacked := do
  require (3 * 2 + signatureSize)
  unpackParams result
  let pingPacket ← unpackStrings env result
  call .setKeepAlive
  call .pingKeepAlive
  call (.setPingPacket (← copy pingPacket))
  declareOnline
  return result

/-- An entry of a state list: the device, its state and the time, which is what the memory
held for a sleeping device. -/
def unpackState (env : Env) (i : ℕ) : Unpack (UInt64 × UInt8 × UInt64) := do
  let deviceId ← unpackU64
  let state ← unpackU64
  let _wakeupRequested ← unpackU8
  let time := if deviceState state ≠ deviceSleeping.toUInt8 ∨ env.memory i = deviceSleeping then 0
    else env.memory i
  return (deviceId, deviceState state, time)

def unpackStates (env : Env) : ℕ → Unpack (List (UInt64 × UInt8 × UInt64))
  | 0 => return []
  | n + 1 => do
    let states ← unpackStates env n
    let state ← unpackState env n
    return states ++ [state]

def sendStateList (env : Env) (result : Unpacked) : Unpack Unpacked := do
  require (2 + signatureSize)
  let listLength ← unpackU16
  nullIf (← shortSigned (listLength.toNat * stateSize))
  let states ← unpackStates env listLength.toNat
  return { result with
    deviceList := states.map fun state => state.1
    deviceStates := states.map fun state => state.2.1
    deviceTimes := states.map fun state => state.2.2 }

def sendDeviceUpdate (result : Unpacked) : Unpack Unpacked := do
  require (2 * 8 + signatureSize)
  let updateDevice ← unpackU64
  let state ← unpackU64
  return { result with
    deviceId := updateDevice
    newDeviceState := deviceState state
    newDeviceTime :=
      if deviceState state = deviceSleeping.toUInt8 ∧ state ≠ deviceSleeping then state else 0 }

/-- The arrays of a login blob. Their lengths are used even if they could not be read. -/
def skipArrays : ℕ → Unpack Unit
  | 0 => pure ()
  | n + 1 => do
    let byteParam ← orUndefined (← unpackBytes)
    skip byteParam
    skipArrays n

def sendLoginBlob (result : Unpacked) : Unpack Unpacked := do
  let _loginVersion ← unpackU16
  let _connectionId ← unpackU64
  skipArrays 4
  return result

def sendTimedPing (sequenceId : UInt64) (result : Unpacked) : Unpack Unpacked := do
  require (2 + 4 * 8 + signatureSize)
  let pingCount ← unpackU16
  require (pingCount.toNat * 8)
  nullIf (pingCount < 4)
  let sendTime ← unpackU64
  let rtt ← unpackU64
  let pingConnection ← unpackU64
  let _backTime ← unpackU64
  discard (pingCount.toNat - 4)
  return { result with
    sequenceId := sequenceId, sendTime := sendTime, rtt := rtt, connection := pingConnection }

def sendResponse (result : Unpacked) : Unpack Unpacked := do
  require (8 + signatureSize)
  let opResult ← unpackU64
  return { result with response := opResult }

/-! ## Packets -/

structure Header where
  type : UInt16
  userId : UInt64
  asyncId : UInt64
  sequenceId : UInt64
  tag : UInt64
deriving DecidableEq, Repr

/-- The tag of the connection, read without looking. -/
def unpackTag (hasTag : Bool) : Scan UInt8 UInt64 := do
  if hasTag then
    let tag ← load 8
    advance 8
    return .ofNat (ofBytes tag)
  else return 0

/-- What comes after the length. -/
def unpackIds (hasTag : Bool) : Scan UInt8 Header := do
  let type ← unpackU16
  let userId ← unpackU64
  let asyncId ← unpackU64
  let sequenceId ← unpackU64
  let tag ← unpackTag hasTag
  return ⟨type, userId, asyncId, sequenceId, tag⟩

def unpackHeader : Unpack Header := do
  nullIf ((← left) < headerSize)
  let tagFlag ← copy ⟨0, 2⟩
  let hasTag : Bool := ofBytes tagFlag = serverTagFlag.toNat
  skip ⟨0, if hasTag then 2 else 0⟩
  let checkLength ← unpackU16
  let length ← unpackU16
  nullIf (~~~checkLength ≠ length)
  unpackIds hasTag

def checkSequence (sequenceId : UInt64) : Unpack Unit := do
  let expectedId? := (← get).expectedId
  nullIf (expectedId?.any fun expectedId => sequenceId ≠ expectedId)
  modify fun s => { s with expectedId := expectedId?.map fun expectedId => expectedId + 1 }

/-- Only these types are unpacked without a client. -/
def PacketType.withoutClient : PacketType → Bool
  | .sendLoginBlob | .sendTimedPing => true
  | _ => false

/-- The fields of each type. -/
def unpackFields (env : Env) (sequenceId : UInt64) (result : Unpacked) : Unpack Unpacked :=
  match result.type with
  | .sendUnicast => sendUnicast result
  | .sendMulticast => sendMulticast result
  | .sendSleepSetup => sendSleepSetup env result
  | .sendChallenge => sendChallenge env result
  | .setDeviceParams => setDeviceParams env result
  | .sendStateList => sendStateList env result
  | .sendDeviceUpdate => sendDeviceUpdate result
  | .sendPing => return result
  | .sendLoginBlob => sendLoginBlob result
  | .sendTimedPing => sendTimedPing sequenceId result
  | .sendResponse => sendResponse result
  | .rejectCredentials => return result

/-- The message of a notification, to which the result points. -/
def unpackNotification (result : Unpacked) : Unpack Unpacked :=
  match result.type with
  | .sendUnicast | .sendMulticast => do
    let notification ← orNull (← unpackBytes)
    let bytes ← copy notification
    skip notification
    return { result with notification := bytes }
  | _ => return result

/-- Challenges and rejections are unsigned. -/
def PacketType.signatureSize : PacketType → ℕ
  | .sendChallenge | .rejectCredentials => 0
  | _ => Ans.signatureSize

/-- The signature has to be all that is left. -/
def checkSize (env : Env) (type : PacketType) : Unpack Unit := do
  let remaining ← left
  setClient fun client =>
    if type = .rejectCredentials then { client with rejected := true } else client
  nullIf (remaining - type.signatureSize ≠ 0)
  setClient fun client => { client with
    lastTcpReceive := env.now, packetsIn := client.packetsIn + 1 }

/-- What is behind the header. -/
def unpackBody (env : Env) (header : Header) : Unpack Unpacked := do
  checkSequence header.sequenceId
  match PacketType.ofCode header.type with
  | none =>
    return { type := .sendPing, userId := header.userId, asyncId := header.asyncId,
             tag := header.tag }
  | some type =>
    nullIf ((← get).client = none ∧ ¬type.withoutClient)
    let result ← unpackFields env header.sequenceId
      { type := type, userId := header.userId, asyncId := header.asyncId
        tag := header.tag }
    let result ← unpackNotification result
    checkSize env type
    return result

def unpackPacket (env : Env) : Unpack Unpacked := do
  unpackBody env (← unpackHeader)

/-- What `unpack` returns, what it leaves the client and the expected sequence number as, and
where in the packet it has come to. -/
structure Unpacking where
  result : Option Unpacked
  client : Option Client
  expectedId : Option UInt64
  base : ℕ
deriving DecidableEq, Repr

def unpack (env : Env) (client : Option Client) (packet : List UInt8)
    (expectedId : Option UInt64) : Option Unpacking :=
  (unpackPacket env ⟨client, expectedId⟩ packet ⟨0, false⟩).map fun run =>
    { result := match run.1.1 with
        | .ok result => some result
        | .error result => result
      client := run.1.2.client
      expectedId := run.1.2.expectedId
      base := run.2.base }

end PersonalCloud.Ans
