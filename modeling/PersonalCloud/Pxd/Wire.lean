import PersonalCloud.Lib.Bytes
import PersonalCloud.Lib.Cbc
import PersonalCloud.Lib.Codec

/-!
# Packets of the proxy daemon

A packet starts with a header of 30 bytes: its length inverted and as it is, its type, the
tag of the connection, the id of the operation and the sequence number. Behind it come the
fields of the type, and a signature unless the type is one of four: the SHA-1 of the key and
everything before the signature. `unpack` decodes a packet whole; the signature is not its
business but that of `checkSignature`.

SHA-1 and AES-128 are parameters. Memory does not run out while a packet is decoded. Integers
are in network order, and a string is known up to its first null byte.
-/

namespace PersonalCloud.Pxd

open PersonalCloud.Lib

abbrev Block := BitVec 128

structure Primitives where
  sha1 : List UInt8 → Vector UInt8 20
  aes : List UInt8 → Equiv.Perm Block

abbrev headerSize : Nat := 30
abbrev tagOffset : Nat := 6
abbrev sequenceOffset : Nat := 22
abbrev signatureSize : Nat := 20

/-! ## Result codes -/

abbrev pxdOpSuccessful : UInt64 := 5
abbrev pxdOpFailed : UInt64 := 6
abbrev pxdTimedOut : UInt64 := 9
abbrev pxdConnectionLost : UInt64 := 14
abbrev pxdCredentialsRejected : UInt64 := 15

/-! ## Types -/

/-- The types that can be decoded. -/
inductive PacketType where
  | sendUnicast | sendMulticast | sendChallenge | setDeviceParams | sendPing | rejectCredentials
  | sendStateList | sendSleepSetup | sendDeviceUpdate | sendResponse | setDeviceCompat
  | sendStateCompat | sendTimedPing
  | rejectPxdCredentials | sendPxdLogin | declareServer | queryServerDeclaration
  | sendServerDeclaration | startConnectionAttempt | startProxyConnection | sendPxdChallenge
  | sendPxdResponse | sendCcdLogin | sendCcdChallenge | rejectCcdCredentials | sendCcdResponse
  | setPxdConfiguration
  deriving DecidableEq, Repr

namespace PacketType

def code : PacketType → UInt16
  | sendUnicast => 6
  | sendMulticast => 7
  | sendChallenge => 27
  | setDeviceParams => 37
  | sendPing => 35
  | rejectCredentials => 57
  | sendStateList => 1
  | sendSleepSetup => 53
  | sendDeviceUpdate => 43
  | sendResponse => 9
  | setDeviceCompat => 36
  | sendStateCompat => 42
  | sendTimedPing => 12
  | rejectPxdCredentials => 200
  | sendPxdLogin => 201
  | declareServer => 202
  | queryServerDeclaration => 203
  | sendServerDeclaration => 204
  | startConnectionAttempt => 205
  | startProxyConnection => 206
  | sendPxdChallenge => 208
  | sendPxdResponse => 209
  | sendCcdLogin => 210
  | sendCcdChallenge => 211
  | rejectCcdCredentials => 212
  | sendCcdResponse => 213
  | setPxdConfiguration => 226

def all : List PacketType :=
  [sendUnicast, sendMulticast, sendChallenge, setDeviceParams, sendPing, rejectCredentials,
    sendStateList, sendSleepSetup, sendDeviceUpdate, sendResponse, setDeviceCompat,
    sendStateCompat, sendTimedPing, rejectPxdCredentials, sendPxdLogin, declareServer,
    queryServerDeclaration, sendServerDeclaration, startConnectionAttempt, startProxyConnection,
    sendPxdChallenge, sendPxdResponse, sendCcdLogin, sendCcdChallenge, rejectCcdCredentials,
    sendCcdResponse, setPxdConfiguration]

def ofCode (c : UInt16) : Option PacketType :=
  all.find? fun type => type.code = c

theorem code_of_ofCode {c : UInt16} {type : PacketType} (h : ofCode c = some type) :
    type.code = c := by
  simpa using List.find?_some h

theorem ofCode_code (type : PacketType) : ofCode type.code = some type := by
  cases type <;> rfl

end PacketType

open PacketType

def isSigned (code : UInt16) : Bool :=
  code ∉ [sendPxdChallenge.code, sendCcdChallenge.code, rejectPxdCredentials.code,
    rejectCcdCredentials.code]

/-- The bytes at the end that are left for the signature. -/
def signatureLength (type : PacketType) : Nat :=
  if isSigned type.code then signatureSize else 0

/-! ## Keys and signatures -/

/-- The keys in use; the random numbers are left out. -/
structure Crypto where
  sha1Key : List UInt8
  aesKey : List UInt8
  deriving DecidableEq, Repr

/-- Short keys are padded, long ones truncated. -/
def createCrypto (key : List UInt8) : Crypto :=
  let sha1Key := key.take 20 ++ List.replicate (20 - key.length) 0
  { sha1Key := sha1Key
    aesKey := sha1Key.take (min 16 key.length) ++ List.replicate (16 - key.length) 0 }

section Signature

variable (prim : Primitives)

/-- The keyed hash. -/
def signature (crypto : Crypto) (bytes : List UInt8) : List UInt8 :=
  (prim.sha1 (crypto.sha1Key ++ bytes)).toList

@[simp] theorem length_signature (crypto : Crypto) (bytes : List UInt8) :
    (signature prim crypto bytes).length = signatureSize := by
  simp [signature]

/-- The bytes that a signature covers. -/
def signedPart (packet : List UInt8) : List UInt8 :=
  packet.take (packet.length - signatureSize)

/-- The packet ends with its signature under the key. -/
def SignedUnder (crypto : Crypto) (packet : List UInt8) : Prop :=
  packet.drop (packet.length - signatureSize) = signature prim crypto (signedPart packet)

instance (crypto : Crypto) (packet : List UInt8) : Decidable (SignedUnder prim crypto packet) :=
  inferInstanceAs (Decidable (_ = _))

end Signature

/-! ## Reading fields -/

/-- Reads from the front of what is left, and fails for good when that is too short. -/
abbrev Unpack := StateT (List UInt8) Option

def unpackU (n : Nat) : Unpack Nat := fun bs =>
  if bs.length < n then none else some (ofBytes (bs.take n), bs.drop n)

def unpackU8 : Unpack UInt8 := UInt8.ofNat <$> unpackU 1
def unpackU16 : Unpack UInt16 := UInt16.ofNat <$> unpackU 2
def unpackU32 : Unpack UInt32 := UInt32.ofNat <$> unpackU 4
def unpackU64 : Unpack UInt64 := UInt64.ofNat <$> unpackU 8

/-- A byte array behind its length. -/
def unpackBytes : Unpack (List UInt8) := do
  let length ← unpackU16
  fun bs =>
    if bs.length < length.toNat then none
    else some (bs.take length.toNat, bs.drop length.toNat)

def cString (bs : List UInt8) : List UInt8 := bs.takeWhile fun b => b ≠ 0

def unpackString : Unpack (List UInt8) := cString <$> unpackBytes

structure Address where
  ipAddress : List UInt8
  port : UInt32
  type : UInt8
  deriving DecidableEq, Repr

/-- The room for the port and the type is looked for before the address is passed over. A
port that is cut off reads as zero, without being passed over; once the cursor is past the
end nothing can be decoded any more. -/
def unpackAddress : Unpack Address := fun bs => do
  let (ipAddress, rest) ← unpackBytes bs
  if bs.length < 5 then none
  else
    let (port, rest) := (unpackU32 rest).getD (0, rest)
    match rest with
    | [] => none
    | type :: rest => some (⟨ipAddress, port, type⟩, rest)

def unpackAddresses : Nat → Unpack (List Address)
  | 0 => pure []
  | n + 1 => do
    let address ← unpackAddress
    let addresses ← unpackAddresses n
    return address :: addresses

/-! ## Decoding a packet -/

structure Header where
  checkLength : UInt16
  length : UInt16
  type : UInt16
  userId : UInt64
  asyncId : UInt64
  sequenceId : UInt64
  deriving DecidableEq, Repr

def unpackHeader : Unpack Header := do
  let checkLength ← unpackU16
  let length ← unpackU16
  let type ← unpackU16
  let userId ← unpackU64
  let asyncId ← unpackU64
  let sequenceId ← unpackU64
  return ⟨checkLength, length, type, userId, asyncId, sequenceId⟩

/-- The parameters that the server may set. -/
structure Configuration where
  proxyRetries : UInt32
  proxyWait : UInt32
  idleLimit : UInt32
  syncIoTimeout : UInt32
  minDelay : UInt32
  maxDelay : UInt32
  threadRetries : UInt32
  maxPacketSize : UInt32
  maxEncrypt : UInt32
  partialTimeout : UInt32
  rejectLimit : UInt32
  extra : UInt32
  deriving DecidableEq, Repr

structure Unpacked where
  type : PacketType
  asyncId : UInt64
  userId : UInt64
  connectionTag : UInt64
  outSequence : UInt64
  deviceId : UInt64
  connectionId : UInt64
  connectionTime : UInt64
  version : UInt16
  response : UInt64
  requestId : UInt64
  challenge : List UInt8
  blob : List UInt8
  /-- A null pointer in packets without an address. -/
  address : Option (List UInt8)
  port : UInt32
  region : List UInt8
  instanceId : List UInt8
  ansDns : List UInt8
  pxdDns : List UInt8
  addresses : List Address
  configuration : Configuration
  deriving DecidableEq, Repr

/-- What is known from the header; everything else is zero. -/
def Unpacked.ofHeader (type : PacketType) (h : Header) : Unpacked where
  type := type
  asyncId := h.asyncId
  userId := h.userId
  connectionTag := h.userId
  outSequence := h.sequenceId
  deviceId := 0
  connectionId := 0
  connectionTime := 0
  version := 0
  response := 0
  requestId := 0
  challenge := []
  blob := []
  address := none
  port := 0
  region := []
  instanceId := []
  ansDns := []
  pxdDns := []
  addresses := []
  configuration := ⟨0, 0, 0, 0, 0, 0, 0, 0, 0, 0, 0, 0⟩

/-- The number of parameters is read first; there may be none for the last two. -/
def unpackConfiguration : Unpack Configuration := do
  let count ← unpackU16
  let proxyRetries ← unpackU32
  let proxyWait ← unpackU32
  let idleLimit ← unpackU32
  let syncIoTimeout ← unpackU32
  let minDelay ← unpackU32
  let maxDelay ← unpackU32
  let threadRetries ← unpackU32
  let maxPacketSize ← unpackU32
  let maxEncrypt ← unpackU32
  let partialTimeout ← unpackU32
  let rejectLimit ← (if 10 < count.toNat then unpackU32 else pure 0)
  let extras ← (List.replicate (count.toNat - 11) unpackU32).mapM id
  return ⟨proxyRetries, proxyWait, idleLimit, syncIoTimeout, minDelay, maxDelay, threadRetries,
    maxPacketSize, maxEncrypt, partialTimeout, rejectLimit, extras.getLastD 0⟩

/-- The fields of a type. -/
def unpackFields (u : Unpacked) : Unpack Unpacked :=
  match u.type with
  | sendResponse => do
    let response ← unpackU64
    return { u with response := response }
  | sendPxdLogin | sendCcdLogin => do
    let version ← unpackU16
    let connectionId ← unpackU64
    let challenge ← unpackBytes
    let blob ← unpackBytes
    let pxdDns ← (if u.type = sendPxdLogin then unpackString else pure [])
    return { u with
      version := version, connectionId := connectionId, challenge := challenge, blob := blob
      pxdDns := pxdDns }
  | sendPxdChallenge | sendCcdChallenge => do
    let version ← unpackU16
    let connectionId ← unpackU64
    let challenge ← unpackBytes
    let pxdDns ← unpackString
    let connectionTime ← unpackU64
    let address ← unpackBytes
    let port ← unpackU32
    return { u with
      version := version, connectionId := connectionId, challenge := challenge, pxdDns := pxdDns
      connectionTime := connectionTime, address := some address, port := port }
  | declareServer | sendServerDeclaration => do
    let version ← unpackU16
    let region ← unpackString
    let userId ← unpackU64
    let deviceId ← unpackU64
    let instanceId ← unpackString
    let ansDns ← unpackString
    let pxdDns ← unpackString
    let count ← unpackU16
    let addresses ← unpackAddresses count.toNat
    return { u with
      version := version, region := region, userId := userId, deviceId := deviceId
      instanceId := instanceId, ansDns := ansDns, pxdDns := pxdDns, addresses := addresses }
  | queryServerDeclaration => do
    let version ← unpackU16
    let region ← unpackString
    let userId ← unpackU64
    let deviceId ← unpackU64
    let instanceId ← unpackString
    return { u with
      version := version, region := region, userId := userId, deviceId := deviceId
      instanceId := instanceId }
  | startConnectionAttempt => do
    let version ← unpackU16
    let region ← unpackString
    let userId ← unpackU64
    let deviceId ← unpackU64
    let instanceId ← unpackString
    let pxdDns ← unpackString
    let requestId ← unpackU64
    let count ← unpackU16
    let addresses ← unpackAddresses count.toNat
    return { u with
      version := version, region := region, userId := userId, deviceId := deviceId
      instanceId := instanceId, pxdDns := pxdDns, requestId := requestId
      addresses := addresses }
  | startProxyConnection => do
    let version ← unpackU16
    let userId ← unpackU64
    let deviceId ← unpackU64
    let instanceId ← unpackString
    let requestId ← unpackU64
    return { u with
      version := version, userId := userId, deviceId := deviceId, instanceId := instanceId
      requestId := requestId }
  | sendPxdResponse => do
    let version ← unpackU16
    let response ← unpackU64
    return { u with version := version, response := response }
  | sendCcdResponse => do
    let version ← unpackU16
    let response ← unpackU64
    let addressPresent ← unpackU8
    if addressPresent = 0 then return { u with version := version, response := response }
    else
      let address ← unpackBytes
      let port ← unpackU32
      return { u with
        version := version, response := response, address := some address, port := port }
  | setPxdConfiguration => do
    let version ← unpackU16
    let configuration ← unpackConfiguration
    return { u with version := version, configuration := configuration }
  | _ => pure u

/-- Decode a packet, and count the expected sequence number up when the packet has it. A
packet of unknown type passes as a ping, whatever is behind its header. -/
def unpack (packet : List UInt8) (expectedId tag : UInt64) : Option Unpacked × UInt64 :=
  match unpackHeader packet with
  | none => (none, expectedId)
  | some (h, body) =>
    if ~~~h.checkLength ≠ h.length then (none, expectedId)
    else if packet.length ≠ h.length.toNat then (none, expectedId)
    else if h.sequenceId ≠ expectedId then (none, expectedId)
    else if h.userId ≠ tag then (none, expectedId + 1)
    else
      match ofCode h.type with
      | none => (some (.ofHeader sendPing h), expectedId + 1)
      | some type =>
        match unpackFields (.ofHeader type h) body with
        | none => (none, expectedId + 1)
        | some (u, rest) =>
          if rest.length = (if isSigned h.type then signatureSize else 0) then
            (some u, expectedId + 1)
          else (none, expectedId + 1)

/-- The type, when the two lengths agree. -/
def getType (packet : List UInt8) : Option UInt16 := do
  let (checkLength, rest) ← unpackU16 packet
  let (length, rest) ← unpackU16 rest
  if checkLength ≠ ~~~length then none
  else
    let (type, _) ← unpackU16 rest
    return type

/-- Packets of the four types that are not signed always pass. -/
def checkSignature (prim : Primitives) (crypto : Crypto) (packet : List UInt8) : Bool :=
  match getType packet with
  | none => false
  | some type =>
    if !isSigned type then true
    else if packet.length < headerSize + signatureSize then false
    else SignedUnder prim crypto packet

/-! ## What decoding a packet says of it -/

theorem yields_unpackFields (u : Unpacked) :
    Yields (unpackFields u) fun u' => u'.type = u.type := by
  unfold unpackFields
  split <;> repeat' first
    | exact .pure rfl
    | refine .ite (.pure rfl) ?_
    | refine (Yields.any _).bind fun _ _ => ?_

section Unpack

variable {packet : List UInt8} {expectedId tag : UInt64} {u : Unpacked} {h : Header}
  {body : List UInt8}

theorem getType_of_unpackHeader (hh : unpackHeader packet = some (h, body))
    (hlen : ~~~h.checkLength = h.length) : getType packet = some h.type := by
  obtain ⟨⟨checkLength, bs₁⟩, h₁, hh⟩ := Option.bind_eq_some_iff.1 hh
  obtain ⟨⟨length, bs₂⟩, h₂, hh⟩ := Option.bind_eq_some_iff.1 hh
  obtain ⟨⟨type, bs₃⟩, h₃, hh⟩ := Option.bind_eq_some_iff.1 hh
  obtain ⟨⟨userId, bs₄⟩, -, hh⟩ := Option.bind_eq_some_iff.1 hh
  obtain ⟨⟨asyncId, bs₅⟩, -, hh⟩ := Option.bind_eq_some_iff.1 hh
  obtain ⟨⟨sequenceId, bs₆⟩, -, hh⟩ := Option.bind_eq_some_iff.1 hh
  obtain ⟨rfl, -⟩ := Prod.mk.inj (Option.some.inj hh)
  have hcheck : checkLength = ~~~length := by
    have hlen : ~~~checkLength = length := hlen
    rw [← hlen]
    simp
  simp [getType, h₁, h₂, h₃, hcheck]

/-- A decoded packet has its two lengths right and a type that is known, or else counts as a
ping. -/
theorem getType_of_unpack (hu : (unpack packet expectedId tag).1 = some u) :
    ∃ code, getType packet = some code ∧
      (ofCode code = some u.type ∨ ofCode code = none ∧ u.type = sendPing) := by
  unfold unpack at hu
  split at hu
  · cases hu
  · rename_i h body hh
    split at hu
    · cases hu
    rename_i h₁
    split at hu
    · cases hu
    split at hu
    · cases hu
    split at hu
    · cases hu
    refine ⟨h.type, getType_of_unpackHeader hh (not_not.1 h₁), ?_⟩
    split at hu
    · rename_i hcode
      obtain rfl := Option.some.inj hu
      exact .inr ⟨hcode, rfl⟩
    · rename_i type hcode
      split at hu
      · cases hu
      · rename_i u' rest hfields
        have htype := yields_unpackFields _ _ _ _ hfields
        by_cases hrest : rest.length = (if isSigned h.type then signatureSize else 0)
        · rw [if_pos hrest] at hu
          obtain rfl := Option.some.inj hu
          exact .inl (htype ▸ hcode)
        · rw [if_neg hrest] at hu
          cases hu

theorem getType_eq_code (hu : (unpack packet expectedId tag).1 = some u)
    (ht : u.type ≠ sendPing) : getType packet = some u.type.code := by
  obtain ⟨code, hcode, htype | ⟨-, htype⟩⟩ := getType_of_unpack hu
  · rw [hcode, code_of_ofCode htype]
  · exact absurd htype ht

theorem type_of_unpack {type : PacketType} (hu : (unpack packet expectedId tag).1 = some u)
    (htype : getType packet = some type.code) : u.type = type := by
  obtain ⟨code, hcode, h⟩ := getType_of_unpack hu
  obtain rfl : type.code = code := Option.some.inj (htype.symm.trans hcode)
  obtain h | ⟨h, -⟩ := h
  · exact Option.some.inj (h.symm.trans (ofCode_code type))
  · rw [ofCode_code] at h
    cases h

/-- A packet of unknown type counts as signed, like the ping that it passes as. -/
theorem isSigned_of_unpack (hu : (unpack packet expectedId tag).1 = some u) :
    (getType packet).any isSigned = isSigned u.type.code := by
  obtain ⟨code, hcode, htype | ⟨hnone, htype⟩⟩ := getType_of_unpack hu
  · rw [hcode, Option.any_some, code_of_ofCode htype]
  · rw [hcode, htype, Option.any_some]
    refine decide_eq_true fun hmem => ?_
    simp only [List.mem_cons, List.not_mem_nil, or_false] at hmem
    obtain rfl | rfl | rfl | rfl := hmem <;> simp [ofCode_code] at hnone

/-- Of the packets of a signed type, those with the right signature pass. -/
theorem signedUnder_of_checkSignature {prim : Primitives} {crypto : Crypto} {code : UInt16}
    (hc : checkSignature prim crypto packet = true) (htype : getType packet = some code)
    (hsigned : isSigned code = true) : SignedUnder prim crypto packet := by
  simp only [checkSignature, htype, hsigned, Bool.not_true, Bool.false_eq_true, if_false] at hc
  split at hc
  · cases hc
  · simpa using hc

theorem checkSignature_of_unsigned {prim : Primitives} {crypto : Crypto}
    (hu : (unpack packet expectedId tag).1 = some u) (hsigned : isSigned u.type.code = false) :
    checkSignature prim crypto packet = true := by
  obtain ⟨code, hcode, -⟩ := getType_of_unpack hu
  rw [← isSigned_of_unpack hu, hcode, Option.any_some] at hsigned
  simp [checkSignature, hcode, hsigned]

end Unpack

end PersonalCloud.Pxd
