import PersonalCloud.Pxd.Framing

/-!
# Packing a packet

`pxd_pack` computes the length of a packet as a `short`, asks for a buffer of that size, and
writes the header and the fields of the type into it. The lengths of strings are written, and
strings copied, modulo 65536, so that a string may be cut without the size check noticing. The
header is written without looking for room.

Memory runs out only for buffers of negative size, and the switch that makes packing fail for
tests is off. The limit for a packet is compared with the `short`, so that a limit above 32767
is one of 32767.

## Main results

* `framed_of_pxdPack` — what is packed can be read as one packet.
* `appendFields_eq_appendAll`, `appendFields_declareServer` — what is written of a record, as a
  list of pieces.
-/

namespace PersonalCloud.Pxd

open PersonalCloud.Lib PacketType

/-! ## Lengths -/

def packedStringLength (string : List UInt8) : Nat := 2 + string.length

def packedBytesLength (bytes : List UInt8) : Nat := 2 + bytes.length

def packedAddressLength (address : Address) : Nat :=
  packedBytesLength address.ipAddress + 4 + 1

def addressesLength (addresses : List Address) : Nat :=
  (addresses.map packedAddressLength).sum

abbrev pxdLoginVersion : UInt16 := 1
abbrev pxdChallengeVersion : UInt16 := 1
abbrev pxdConfigParams : Nat := 11

namespace Unpacked

/-- Packing a challenge or a login sets its version. -/
def setVersion (u : Unpacked) : Unpacked :=
  match u.type with
  | sendPxdChallenge | sendCcdChallenge => { u with version := pxdChallengeVersion }
  | sendPxdLogin | sendCcdLogin => { u with version := pxdLoginVersion }
  | _ => u

/-- The length of the fields; there is none for types that cannot be packed. -/
def fieldsLength (u : Unpacked) : Option Nat :=
  match u.type with
  | sendResponse => some 8
  | sendPxdChallenge | sendCcdChallenge =>
    some (2 + 8 + packedBytesLength u.challenge + packedStringLength u.pxdDns + 8 +
      packedBytesLength (u.address.getD []) + 4)
  | sendPxdLogin | sendCcdLogin =>
    some (2 + 8 + packedBytesLength u.challenge + packedBytesLength u.blob +
      if u.type = sendPxdLogin then packedStringLength u.pxdDns else 0)
  | rejectPxdCredentials | rejectCcdCredentials => some 0
  | declareServer =>
    some (2 + packedStringLength u.region + 2 * 8 + packedStringLength u.instanceId +
      packedStringLength u.ansDns + packedStringLength u.pxdDns + 2 + addressesLength u.addresses)
  | queryServerDeclaration =>
    some (2 + packedStringLength u.region + 2 * 8 + packedStringLength u.instanceId)
  | sendServerDeclaration =>
    some (2 + packedStringLength u.region + 8 + 8 + packedStringLength u.instanceId +
      packedStringLength u.ansDns + packedStringLength u.pxdDns + 2 + addressesLength u.addresses)
  | startConnectionAttempt =>
    some (2 + packedStringLength u.region + 8 + 8 + packedStringLength u.instanceId +
      packedStringLength u.pxdDns + 8 + 2 + addressesLength u.addresses)
  | startProxyConnection => some (2 + 3 * 8 + packedStringLength u.instanceId)
  | sendPxdResponse => some (2 + 8)
  | sendCcdResponse =>
    some (2 + 8 + 1 + match u.address with
      | none => 0
      | some address => packedBytesLength address + 4)
  | setPxdConfiguration =>
    some (2 * 2 + pxdConfigParams * 4 + if u.configuration.extra ≠ 0 then 4 else 0)
  | _ => none

/-- The length of the packet, before it is put in a `short`. -/
def packedLength (u : Unpacked) : Option Nat :=
  u.fieldsLength.map fun length => headerSize + length + signatureLength u.type

/-! ## Writing -/

section Append

variable {limit : Nat} (b : Buffer UInt8 limit)

def appendByte (value : UInt8) : Buffer UInt8 limit := b.append (toBytes 1 value.toNat)

def appendShort (value : UInt16) : Buffer UInt8 limit := b.append (toBytes 2 value.toNat)

def appendInt (value : UInt32) : Buffer UInt8 limit := b.append (toBytes 4 value.toNat)

def appendLong (value : UInt64) : Buffer UInt8 limit := b.append (toBytes 8 value.toNat)

/-- The length is taken modulo 65536, for the copy as well. -/
def appendString (string : List UInt8) : Buffer UInt8 limit :=
  let length := UInt16.ofNat string.length
  b.append (toBytes 2 length.toNat ++ string.take length.toNat)

/-- The length is taken modulo 65536, but not for the copy. -/
def appendBytes (bytes : List UInt8) : Buffer UInt8 limit :=
  let length := UInt16.ofNat bytes.length
  b.append (toBytes 2 length.toNat ++ bytes)

def appendAddress (address : Address) : Buffer UInt8 limit :=
  appendByte (appendInt (appendBytes b address.ipAddress) address.port) address.type

end Append

/-- The fields of a type. For the addresses of a server that declares itself it is not looked
whether they fit. -/
def appendFields {limit : Nat} (u : Unpacked) (b : Buffer UInt8 limit) : Buffer UInt8 limit :=
  match u.type with
  | sendResponse => appendLong b u.response
  | sendPxdLogin | sendCcdLogin =>
    let b := appendShort b u.version
    let b := appendLong b u.connectionId
    let b := appendBytes b u.challenge
    let b := appendBytes b u.blob
    if u.type = sendPxdLogin then appendString b u.pxdDns else b
  | sendPxdChallenge | sendCcdChallenge =>
    let b := appendShort b u.version
    let b := appendLong b u.connectionId
    let b := appendBytes b u.challenge
    let b := appendString b u.pxdDns
    let b := appendLong b u.connectionTime
    let b := appendBytes b (u.address.getD [])
    appendInt b u.port
  | declareServer =>
    let b := appendShort b u.version
    let b := appendString b u.region
    let b := appendLong b u.userId
    let b := appendLong b u.deviceId
    let b := appendString b u.instanceId
    let b := appendString b u.ansDns
    let b := appendString b u.pxdDns
    let b := appendShort b (UInt16.ofNat u.addresses.length)
    (u.addresses.foldl appendAddress b).withFailed b.failed
  | queryServerDeclaration =>
    let b := appendShort b u.version
    let b := appendString b u.region
    let b := appendLong b u.userId
    let b := appendLong b u.deviceId
    appendString b u.instanceId
  | sendServerDeclaration =>
    let b := appendShort b u.version
    let b := appendString b u.region
    let b := appendLong b u.userId
    let b := appendLong b u.deviceId
    let b := appendString b u.instanceId
    let b := appendString b u.ansDns
    let b := appendString b u.pxdDns
    let b := appendShort b (UInt16.ofNat u.addresses.length)
    u.addresses.foldl appendAddress b
  | startConnectionAttempt =>
    let b := appendShort b 1
    let b := appendString b u.region
    let b := appendLong b u.userId
    let b := appendLong b u.deviceId
    let b := appendString b u.instanceId
    let b := appendString b u.pxdDns
    let b := appendLong b u.requestId
    let b := appendShort b (UInt16.ofNat u.addresses.length)
    u.addresses.foldl appendAddress b
  | startProxyConnection =>
    let b := appendShort b 1
    let b := appendLong b u.userId
    let b := appendLong b u.deviceId
    let b := appendString b u.instanceId
    appendLong b u.requestId
  | sendPxdResponse => appendLong (appendShort b 1) u.response
  | sendCcdResponse =>
    let b := appendShort b 1
    let b := appendLong b u.response
    let b := appendByte b (if u.address.isSome then 1 else 0)
    match u.address with
    | none => b
    | some address => appendInt (appendBytes b address) u.port
  | setPxdConfiguration =>
    let c := u.configuration
    let b := appendShort b 1
    let b := appendShort b (UInt16.ofNat (pxdConfigParams + if c.extra ≠ 0 then 1 else 0))
    let b := appendInt b c.proxyRetries
    let b := appendInt b c.proxyWait
    let b := appendInt b c.idleLimit
    let b := appendInt b c.syncIoTimeout
    let b := appendInt b c.minDelay
    let b := appendInt b c.maxDelay
    let b := appendInt b c.threadRetries
    let b := appendInt b c.maxPacketSize
    let b := appendInt b c.maxEncrypt
    let b := appendInt b c.partialTimeout
    let b := appendInt b c.rejectLimit
    if c.extra ≠ 0 then appendInt b c.extra else b
  | _ => b

/-- The header. The length is a `short` that is not negative. -/
def header (u : Unpacked) (length : Nat) : List UInt8 :=
  frameHead u.type.code length ++ (toBytes 8 u.connectionTag.toNat ++
    (toBytes 8 u.asyncId.toNat ++ toBytes 8 u.outSequence.toNat))

theorem length_header (u : Unpacked) (length : Nat) : (u.header length).length = headerSize := by
  simp [header, frameHead]

/-- The buffer with the header in it. -/
def start (u : Unpacked) (length : Nat) (h : headerSize ≤ length) : Buffer UInt8 length :=
  ⟨u.header length, false, by rwa [u.length_header]⟩

end Unpacked

/-- What packing comes to. -/
inductive Packed where
  | null
  /-- The header is written over the end of the buffer. -/
  | overrun
  | packet (bytes : List UInt8)
  deriving DecidableEq, Repr

/-- Write a packet into a buffer that has room for the header. -/
def packInto (u : Unpacked) (length : Nat) (h : headerSize ≤ length) : Packed :=
  let b := u.start length h
  let b := u.appendFields b
  let b := b.append (List.replicate (signatureLength u.type) 0)
  if b.failed = true ∨ b.bytes.length ≠ length then .null else .packet b.bytes

def pxdPack (maxPacketSize : Nat) (u : Unpacked) : Packed :=
  let u := u.setVersion
  match u.packedLength with
  | none => .null
  | some length =>
    let reqLength := Int16.ofNat length
    if reqLength.toInt > maxPacketSize then .null
    else if reqLength.toInt < 0 then .null
    else if h : headerSize ≤ reqLength.toInt.toNat then packInto u reqLength.toInt.toNat h
    else .overrun

/-! ## What is written -/

/-- What is copied of a string. -/
def cut (string : List UInt8) : List UInt8 :=
  string.take (UInt16.ofNat string.length).toNat

def stringPiece (string : List UInt8) : List UInt8 :=
  toBytes 2 (UInt16.ofNat string.length).toNat ++ cut string

def bytesPiece (bytes : List UInt8) : List UInt8 :=
  toBytes 2 (UInt16.ofNat bytes.length).toNat ++ bytes

def addressPieces (address : Address) : List (List UInt8) :=
  [bytesPiece address.ipAddress, toBytes 4 address.port.toNat, toBytes 1 address.type.toNat]

namespace Unpacked

/-- The version that a packet of the type says. -/
def writtenVersion (u : Unpacked) : UInt16 :=
  match u.type with
  | startConnectionAttempt | startProxyConnection | sendPxdResponse | sendCcdResponse
  | setPxdConfiguration => 1
  | _ => u.version

/-- The pieces that must fit. -/
def checkedPieces (u : Unpacked) : List (List UInt8) :=
  match u.type with
  | sendResponse => [toBytes 8 u.response.toNat]
  | sendPxdLogin =>
    [toBytes 2 u.version.toNat, toBytes 8 u.connectionId.toNat, bytesPiece u.challenge,
      bytesPiece u.blob, stringPiece u.pxdDns]
  | sendCcdLogin =>
    [toBytes 2 u.version.toNat, toBytes 8 u.connectionId.toNat, bytesPiece u.challenge,
      bytesPiece u.blob]
  | sendPxdChallenge | sendCcdChallenge =>
    [toBytes 2 u.version.toNat, toBytes 8 u.connectionId.toNat, bytesPiece u.challenge,
      stringPiece u.pxdDns, toBytes 8 u.connectionTime.toNat, bytesPiece (u.address.getD []),
      toBytes 4 u.port.toNat]
  | declareServer =>
    [toBytes 2 u.version.toNat, stringPiece u.region, toBytes 8 u.userId.toNat,
      toBytes 8 u.deviceId.toNat, stringPiece u.instanceId, stringPiece u.ansDns,
      stringPiece u.pxdDns, toBytes 2 (UInt16.ofNat u.addresses.length).toNat]
  | queryServerDeclaration =>
    [toBytes 2 u.version.toNat, stringPiece u.region, toBytes 8 u.userId.toNat,
      toBytes 8 u.deviceId.toNat, stringPiece u.instanceId]
  | sendServerDeclaration =>
    toBytes 2 u.version.toNat :: stringPiece u.region :: toBytes 8 u.userId.toNat ::
      toBytes 8 u.deviceId.toNat :: stringPiece u.instanceId :: stringPiece u.ansDns ::
      stringPiece u.pxdDns :: toBytes 2 (UInt16.ofNat u.addresses.length).toNat ::
      u.addresses.flatMap addressPieces
  | startConnectionAttempt =>
    toBytes 2 (1 : UInt16).toNat :: stringPiece u.region :: toBytes 8 u.userId.toNat ::
      toBytes 8 u.deviceId.toNat :: stringPiece u.instanceId :: stringPiece u.pxdDns ::
      toBytes 8 u.requestId.toNat :: toBytes 2 (UInt16.ofNat u.addresses.length).toNat ::
      u.addresses.flatMap addressPieces
  | startProxyConnection =>
    [toBytes 2 (1 : UInt16).toNat, toBytes 8 u.userId.toNat, toBytes 8 u.deviceId.toNat,
      stringPiece u.instanceId, toBytes 8 u.requestId.toNat]
  | sendPxdResponse => [toBytes 2 (1 : UInt16).toNat, toBytes 8 u.response.toNat]
  | sendCcdResponse =>
    toBytes 2 (1 : UInt16).toNat :: toBytes 8 u.response.toNat ::
      match u.address with
      | none => [toBytes 1 (0 : UInt8).toNat]
      | some address => [toBytes 1 (1 : UInt8).toNat, bytesPiece address, toBytes 4 u.port.toNat]
  | setPxdConfiguration =>
    let c := u.configuration
    toBytes 2 (1 : UInt16).toNat ::
      toBytes 2 (UInt16.ofNat (pxdConfigParams + if c.extra ≠ 0 then 1 else 0)).toNat ::
      ([c.proxyRetries, c.proxyWait, c.idleLimit, c.syncIoTimeout, c.minDelay, c.maxDelay,
        c.threadRetries, c.maxPacketSize, c.maxEncrypt, c.partialTimeout, c.rejectLimit] ++
        if c.extra ≠ 0 then [c.extra] else []).map fun value => toBytes 4 value.toNat
  | _ => []

/-- All pieces; the addresses of a server that declares itself are left out when they do not
fit. -/
def pieces (u : Unpacked) : List (List UInt8) :=
  match u.type with
  | declareServer => u.checkedPieces ++ u.addresses.flatMap addressPieces
  | _ => u.checkedPieces

theorem pieces_eq {u : Unpacked} (h : u.type ≠ declareServer) : u.pieces = u.checkedPieces := by
  unfold pieces
  split
  · rename_i htype
    exact absurd htype h
  · rfl

section Pieces

variable {limit : Nat} (b : Buffer UInt8 limit)

theorem foldl_appendAddress (addresses : List Address) :
    addresses.foldl appendAddress b = b.appendAll (addresses.flatMap addressPieces) := by
  induction addresses generalizing b with
  | nil => rfl
  | cons address addresses ih =>
    rw [List.foldl_cons, ih, List.flatMap_cons, Buffer.appendAll_append]
    rfl

theorem appendFields_eq_appendAll {u : Unpacked} (h : u.type ≠ declareServer) :
    u.appendFields b = b.appendAll u.checkedPieces := by
  obtain ⟨type, _, _, _, _, _, _, _, _, _, _, _, _, address, _, _, _, _, _, _, configuration⟩ := u
  cases type
  case declareServer => exact absurd rfl h
  case sendServerDeclaration | startConnectionAttempt =>
    simp only [appendFields, foldl_appendAddress]
    rfl
  case sendCcdResponse => cases address <;> rfl
  case setPxdConfiguration =>
    by_cases hextra : configuration.extra ≠ 0
    · simp only [appendFields, checkedPieces, if_pos hextra]
      rfl
    · simp only [appendFields, checkedPieces, if_neg hextra]
      rfl
  all_goals rfl

theorem appendFields_declareServer {u : Unpacked} (h : u.type = declareServer) :
    u.appendFields b =
      ((b.appendAll u.checkedPieces).appendAll (u.addresses.flatMap addressPieces)).withFailed
        (b.appendAll u.checkedPieces).failed := by
  simp only [appendFields, checkedPieces, h, foldl_appendAddress]
  rfl

end Pieces

/-! ## What is packed -/

theorem isPrefix_appendFields {limit : Nat} (u : Unpacked) (b : Buffer UInt8 limit) :
    b.bytes <+: (u.appendFields b).bytes := by
  by_cases h : u.type = declareServer
  · rw [appendFields_declareServer b h]
    exact (b.bytes_isPrefix_appendAll _).trans (Buffer.bytes_isPrefix_appendAll _ _)
  · rw [appendFields_eq_appendAll b h]
    exact b.bytes_isPrefix_appendAll _

theorem setVersion_type (u : Unpacked) : u.setVersion.type = u.type := by
  unfold setVersion
  split <;> rfl

end Unpacked

theorem framed_of_packInto {u : Unpacked} {length : Nat} {h : headerSize ≤ length}
    {bytes : List UInt8} (hlt : length < 65536) (hpack : packInto u length h = .packet bytes) :
    Framed u.type.code bytes ∧ bytes.length = length := by
  simp only [packInto] at hpack
  split_ifs at hpack with hfailed
  obtain ⟨hfailed, hlen⟩ := not_or.1 hfailed
  replace hlen := not_not.1 hlen
  obtain rfl := Packed.packet.inj hpack
  have hprefix : u.header length <+: (u.appendFields (u.start length h)).bytes :=
    u.isPrefix_appendFields (u.start length h)
  -- the signature's place is there, or else packing had failed
  rw [Buffer.failed_append, not_or, List.length_replicate] at hfailed
  rw [Buffer.bytes_append, List.length_replicate, if_pos (Nat.not_lt.1 hfailed.2)] at hlen ⊢
  have hroom := hprefix.length_le
  rw [u.length_header] at hroom
  rw [List.length_append, List.length_replicate] at hlen
  refine ⟨⟨?_, ?_, ?_, fun hsigned => ?_⟩, ?_⟩
  · rw [List.length_append]
    omega
  · rw [List.length_append, List.length_replicate]
    omega
  · obtain ⟨rest, hrest⟩ := hprefix
    rw [List.length_append, List.length_replicate, hlen, ← hrest, Unpacked.header,
      List.append_assoc, List.append_assoc]
    exact List.take_left' (by simp [frameHead])
  · have hsize : signatureLength u.type = signatureSize := if_pos hsigned
    rw [List.length_append, List.length_replicate]
    omega
  · rw [List.length_append, List.length_replicate]
    exact hlen

/-- What is packed can be read as one packet, and is not above the limit. -/
theorem framed_of_pxdPack {maxPacketSize : Nat} {u : Unpacked} {bytes : List UInt8}
    (h : pxdPack maxPacketSize u = .packet bytes) :
    Framed u.type.code bytes ∧ bytes.length ≤ maxPacketSize := by
  simp only [pxdPack] at h
  split at h
  · cases h
  · rename_i length _
    have hshort : (Int16.ofNat length).toInt < 2 ^ 15 := Int16.toInt_lt _
    split_ifs at h with hmax hneg hroom
    obtain ⟨hframed, hlen⟩ := framed_of_packInto (by omega) h
    rw [u.setVersion_type] at hframed
    exact ⟨hframed, by omega⟩

end PersonalCloud.Pxd
