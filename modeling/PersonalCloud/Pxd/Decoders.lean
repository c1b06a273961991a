import PersonalCloud.Lib.Cursor
import PersonalCloud.Pxd.Login

/-!
# The decoders, and what they touch

The decoders of the client again, with the cursor and the failure flag that they keep. A load or
a store outside the buffer has no outcome. `unpack_addresses` reads a port under a flag of its
own, and the type behind it without looking; the flag of the packet does not hear of it.

What is decoded of an ANS message is kept field by field, with nothing in the fields that the
type of the message does not have.

Memory does not run out, and a buffer of no bytes can be had.
-/

namespace PersonalCloud.Pxd

open PersonalCloud.Lib PacketType Scan

/-! ## Fields -/

abbrev Decode := Scan UInt8

/-- Nothing is read once the packet has failed, and the field is zero then. -/
def decodeU (n : ℕ) : Decode ℕ := do
  failIf (← lacks n)
  if ← failed then return 0
  else
    let bytes ← load n
    advance n
    return ofBytes bytes

def decodeU8 : Decode UInt8 := do
  failIf (← atEnd)
  if ← failed then return 0
  else
    let bytes ← load 1
    advance 1
    return UInt8.ofNat (ofBytes bytes)

def decodeU16 : Decode UInt16 := UInt16.ofNat <$> decodeU 2
def decodeU32 : Decode UInt32 := UInt32.ofNat <$> decodeU 4
def decodeU64 : Decode UInt64 := UInt64.ofNat <$> decodeU 8

/-- `unpack_bytes`: the length of an array, which is then two bytes on. Neither the cursor nor
the flag is moved. -/
def peekLength : Decode (Option ℕ) := fun buf c => do
  let (short, _) ← lacks 2 buf c
  if short then some (none, c)
  else
    let (length, here) ← decodeU16 buf ⟨c.base, false⟩
    if here.fail ∨ (buf.length : ℤ) - here.base < length.toNat then some (none, c)
    else some (some length.toNat, c)

/-- `unpack_bytes_into`: the array stays where it is. -/
def decodeBytes : Decode (List UInt8) := unlessFailed [] do
  match ← peekLength with
  | none =>
    failIf true
    return []
  | some length =>
    advance 2
    let bytes ← slice length
    advance length
    return bytes

/-- `unpack_string`: the array is copied. -/
def decodeString : Decode (List UInt8) := unlessFailed [] do
  match ← peekLength with
  | none =>
    failIf true
    return []
  | some length =>
    advance 2
    let body ← load length
    advance length
    return cString body

/-- An address, with the port if it was decoded. -/
structure FoundAddress where
  ipAddress : List UInt8
  port : Option UInt32
  type : UInt8
  deriving DecidableEq, Repr

def FoundAddress.address (a : FoundAddress) : Address :=
  ⟨a.ipAddress, a.port.getD 0, a.type⟩

/-- A port that is cut off is not passed over. -/
def decodePort : Decode (Option UInt32) := do
  if ← lacks 4 then return none
  else
    let bytes ← load 4
    advance 4
    return some (UInt32.ofNat (ofBytes bytes))

/-- One round of `unpack_addresses`, which ends with the first failure. The room for the port
and the type is looked for in front of the address. -/
def decodeAddress : Decode (Option FoundAddress) := unlessFailed none do
  match ← peekLength with
  | none =>
    failIf true
    return none
  | some length =>
    if ← lacks 5 then
      failIf true
      return none
    else
      advance 2
      let ipAddress ← slice length
      advance length
      let port ← decodePort
      let type ← load 1
      advance 1
      return some ⟨ipAddress, port, UInt8.ofNat (ofBytes type)⟩

/-- `unpack_addresses`. -/
def decodeAddresses : ℕ → Decode (List FoundAddress)
  | 0 => pure []
  | n + 1 => do
    let address ← decodeAddress
    let addresses ← decodeAddresses n
    return address.toList ++ addresses

/-! ## Packets -/

def decodeConfiguration : Decode Configuration := do
  let count ← decodeU16
  let proxyRetries ← decodeU32
  let proxyWait ← decodeU32
  let idleLimit ← decodeU32
  let syncIoTimeout ← decodeU32
  let minDelay ← decodeU32
  let maxDelay ← decodeU32
  let threadRetries ← decodeU32
  let maxPacketSize ← decodeU32
  let maxEncrypt ← decodeU32
  let partialTimeout ← decodeU32
  let rejectLimit ← (if 10 < count.toNat then decodeU32 else pure 0)
  let extras ← (List.replicate (count.toNat - 11) decodeU32).mapM id
  return ⟨proxyRetries, proxyWait, idleLimit, syncIoTimeout, minDelay, maxDelay, threadRetries,
    maxPacketSize, maxEncrypt, partialTimeout, rejectLimit, extras.getLastD 0⟩

/-- The fields of a type. -/
def decodeFields (u : Unpacked) : Decode Unpacked :=
  match u.type with
  | sendResponse => do
    let response ← decodeU64
    return { u with response := response }
  | sendPxdLogin | sendCcdLogin => do
    let version ← decodeU16
    let connectionId ← decodeU64
    let challenge ← decodeBytes
    let blob ← decodeBytes
    let pxdDns ← (if u.type = sendPxdLogin then decodeString else pure [])
    return { u with
      version := version, connectionId := connectionId, challenge := challenge, blob := blob
      pxdDns := pxdDns }
  | sendPxdChallenge | sendCcdChallenge => do
    let version ← decodeU16
    let connectionId ← decodeU64
    let challenge ← decodeBytes
    let pxdDns ← decodeString
    let connectionTime ← decodeU64
    let address ← decodeBytes
    let port ← decodeU32
    return { u with
      version := version, connectionId := connectionId, challenge := challenge, pxdDns := pxdDns
      connectionTime := connectionTime, address := some address, port := port }
  | declareServer | sendServerDeclaration => do
    let version ← decodeU16
    let region ← decodeString
    let userId ← decodeU64
    let deviceId ← decodeU64
    let instanceId ← decodeString
    let ansDns ← decodeString
    let pxdDns ← decodeString
    let addressCount ← decodeU16
    let addresses ← decodeAddresses addressCount.toNat
    return { u with
      version := version, region := region, userId := userId, deviceId := deviceId
      instanceId := instanceId, ansDns := ansDns, pxdDns := pxdDns
      addresses := addresses.map FoundAddress.address }
  | queryServerDeclaration => do
    let version ← decodeU16
    let region ← decodeString
    let userId ← decodeU64
    let deviceId ← decodeU64
    let instanceId ← decodeString
    return { u with
      version := version, region := region, userId := userId, deviceId := deviceId
      instanceId := instanceId }
  | startConnectionAttempt => do
    let version ← decodeU16
    let region ← decodeString
    let userId ← decodeU64
    let deviceId ← decodeU64
    let instanceId ← decodeString
    let pxdDns ← decodeString
    let requestId ← decodeU64
    let addressCount ← decodeU16
    let addresses ← decodeAddresses addressCount.toNat
    return { u with
      version := version, region := region, userId := userId, deviceId := deviceId
      instanceId := instanceId, pxdDns := pxdDns, requestId := requestId
      addresses := addresses.map FoundAddress.address }
  | startProxyConnection => do
    let version ← decodeU16
    let userId ← decodeU64
    let deviceId ← decodeU64
    let instanceId ← decodeString
    let requestId ← decodeU64
    return { u with
      version := version, userId := userId, deviceId := deviceId, instanceId := instanceId
      requestId := requestId }
  | sendPxdResponse => do
    let version ← decodeU16
    let response ← decodeU64
    return { u with version := version, response := response }
  | sendCcdResponse => do
    let version ← decodeU16
    let response ← decodeU64
    let addressPresent ← decodeU8
    if addressPresent = 0 then return { u with version := version, response := response }
    else
      let address ← decodeBytes
      let port ← decodeU32
      return { u with
        version := version, response := response, address := some address, port := port }
  | setPxdConfiguration => do
    let version ← decodeU16
    let configuration ← decodeConfiguration
    return { u with version := version, configuration := configuration }
  | _ => pure u

def decodeLengths : Decode (UInt16 × UInt16) := do
  let checkLength ← decodeU16
  let length ← decodeU16
  return (checkLength, length)

/-- The rest of the header. -/
def decodeIds (checkLength length : UInt16) : Decode Header := do
  let type ← decodeU16
  let userId ← decodeU64
  let asyncId ← decodeU64
  let sequenceId ← decodeU64
  return ⟨checkLength, length, type, userId, asyncId, sequenceId⟩

/-- `pxd_unpack`, with the sequence number that is expected, if one is. -/
def pxdUnpack (packet : List UInt8) (expectedId : Option UInt64) (tag : UInt64) :
    Option (Option Unpacked × Option UInt64) :=
  if packet.length < headerSize then some (none, expectedId)
  else do
    let ((checkLength, length), c) ← decodeLengths packet ⟨0, false⟩
    if ~~~checkLength ≠ length then some (none, expectedId)
    else if packet.length ≠ length.toNat then some (none, expectedId)
    else
      let (h, c) ← decodeIds checkLength length packet c
      if expectedId.any fun expected => h.sequenceId ≠ expected then some (none, expectedId)
      else
        let expectedId := expectedId.map fun expected => expected + 1
        if h.userId ≠ tag then some (none, expectedId)
        else
          match ofCode h.type with
          | none => some (some (.ofHeader sendPing h), expectedId)
          | some type =>
            let (u, c) ← decodeFields (.ofHeader type h) packet c
            let remaining : ℤ :=
              packet.length - c.base - if isSigned h.type then signatureSize else 0
            if c.fail ∨ remaining ≠ 0 then some (none, expectedId) else some (some u, expectedId)

/-! ## ANS messages -/

abbrev pxdConnectRequest : UInt16 := 1
abbrev pxdWakeup : UInt16 := 2

/-- The fields of a message, as far as they are decoded. -/
structure AnsUnpacked where
  type : UInt16
  userId : Option UInt64 := none
  deviceId : Option UInt64 := none
  instanceId : Option (List UInt8) := none
  requestId : Option UInt64 := none
  pxdDns : Option (List UInt8) := none
  serverInstance : Option (List UInt8) := none
  addresses : Option (List FoundAddress) := none
  deriving DecidableEq, Repr

def decodeAns : Decode AnsUnpacked := do
  let type ← decodeU16
  if type = pxdConnectRequest then
    let userId ← decodeU64
    let deviceId ← decodeU64
    let instanceId ← decodeString
    let requestId ← decodeU64
    let pxdDns ← decodeString
    let serverInstance ← decodeString
    let addressCount ← decodeU16
    let addresses ← decodeAddresses addressCount.toNat
    return {
      type := type
      userId := some userId
      deviceId := some deviceId
      instanceId := some instanceId
      requestId := some requestId
      pxdDns := some pxdDns
      serverInstance := some serverInstance
      addresses := some addresses }
  else if type = pxdWakeup then
    let instanceId ← decodeString
    return { type := type, instanceId := some instanceId }
  else
    failIf true
    return { type := type }

/-- `pxd_unpack_ans`. -/
def pxdUnpackAns (buffer : List UInt8) : Option (Option AnsUnpacked) := do
  let (u, c) ← decodeAns buffer ⟨0, false⟩
  if c.fail ∨ buffer.length ≠ c.base then some none else some (some u)

/-- The client that messages are handed to. -/
structure AnsClient where
  isOpen : Bool
  isIncoming : Bool
  instanceId : List UInt8
  deriving DecidableEq, Repr

/-- What the application is told and the proxy is opened with. -/
structure ProxyRequest where
  addresses : List Address
  clusterName : List UInt8
  proxyUser : UInt64
  proxyDevice : UInt64
  proxyRequest : UInt64
  proxyInstance : List UInt8
  deriving DecidableEq, Repr

inductive Receipt where
  | invalid | otherInstance
  | opened (request : ProxyRequest)
  deriving DecidableEq, Repr

/-- What `pxd_receive` does with a message that was accepted; there is no outcome when a field is
used that was not decoded. -/
def receiveUnpacked (client : AnsClient) (u : AnsUnpacked) : Option Receipt := do
  let serverInstance ← u.serverInstance
  if serverInstance ≠ cString client.instanceId then some .otherInstance
  else
    let addresses ← (← u.addresses).mapM fun a => do
      let port ← a.port
      some (⟨a.ipAddress, port, a.type⟩ : Address)
    let clusterName ← u.pxdDns
    let userId ← u.userId
    let deviceId ← u.deviceId
    let requestId ← u.requestId
    let instanceId ← u.instanceId
    some (.opened ⟨addresses, clusterName, userId, deviceId, requestId, instanceId⟩)

/-- `pxd_receive`. -/
def pxdReceive (client : Option AnsClient) (buffer : List UInt8) : Option Receipt :=
  match client with
  | none => some .invalid
  | some client =>
    if ¬client.isOpen then some .invalid
    else if ¬client.isIncoming then some .invalid
    else do
      match ← pxdUnpackAns buffer with
      | none => some .invalid
      | some u => receiveUnpacked client u

/-! ## Reading a packet from a socket -/

/-- Store bytes into a buffer. -/
def storeAt (buffer : List UInt8) (offset : ℕ) (bytes : List UInt8) : Option (List UInt8) :=
  if offset + bytes.length ≤ buffer.length then some (writeAt buffer offset bytes) else none

/-- `sync_io`, reading `remaining` bytes into the buffer. -/
def syncReadInto : (tries : ℕ) → Socket → (buffer : List UInt8) → (offset remaining : ℕ) →
    Option (Except UInt64 (List UInt8 × Socket))
  | _, [], _, _, _ => some (.error pxdTimedOut)
  | tries, .again :: s, buffer, offset, remaining =>
    if tries ≤ 1 then some (.error pxdTimedOut)
    else syncReadInto (tries - 1) s buffer offset remaining
  | _, .failed :: _, _, _, _ => some (.error pxdOpFailed)
  | tries, .bytes data :: s, buffer, offset, remaining =>
    let count := min data.length remaining
    if count = 0 then some (.error pxdConnectionLost)
    else do
      let buffer ← storeAt buffer offset (data.take count)
      if count < remaining then syncReadInto tries s buffer (offset + count) (remaining - count)
      else if count < data.length then some (.ok (buffer, .bytes (data.drop count) :: s))
      else some (.ok (buffer, s))

/-- `sync_read_packet`. The size that the packet announces is the size of its buffer, into which
the two bytes that announced it are copied first. -/
def pxdSyncReadPacket (limits : Limits) (s : Socket) (expected : Option PacketType)
    (sequence tag : UInt64) : Option (Except UInt64 Received) := do
  match ← syncReadInto limits.tries s (List.replicate 2 0) 0 2 with
  | .error result => some (.error result)
  | .ok (sizeBuffer, s) =>
    let packetSize := (~~~UInt16.ofNat (ofBytes sizeBuffer)).toNat
    if packetSize > limits.packetLimit then some (.error pxdOpFailed)
    else
      let buffer ← storeAt (List.replicate packetSize 0) 0 sizeBuffer
      match ← syncReadInto limits.tries s buffer 2 (packetSize - 2) with
      | .error result => some (.error result)
      | .ok (packet, s) =>
        match ← pxdUnpack packet (some sequence) tag with
        | (none, _) => some (.error pxdOpFailed)
        | (some u, sequence') =>
          if isExpected expected u.type then
            some (.ok ⟨u, packet, s, sequence'.getD sequence⟩)
          else some (.error pxdOpFailed)

end PersonalCloud.Pxd
