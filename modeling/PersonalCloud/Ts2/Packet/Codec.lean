import PersonalCloud.Lib.Bytes
import PersonalCloud.Lib.Cbc

/-!
# Packets on the wire

A packet is sent as its header of 68 bytes, its data, padding up to whole cipher blocks if
the data is encrypted, and a signature of 10 bytes if it is signed. `serialize` writes it
into a buffer of the caller, `recvTsPacket` reads it from a socket, verifies and decrypts it
in place and makes the packet for the upper layer.

HMAC-SHA1 and AES-128 are parameters, a function and a permutation of the blocks for each
key. `size_t` has 64 bits.
-/

namespace PersonalCloud.Ts2.Codec

open PersonalCloud.Lib

abbrev Block := BitVec 128

structure Crypto where
  hmacSha1 : List UInt8 → List UInt8 → Vector UInt8 20
  aes : List UInt8 → Equiv.Perm Block

abbrev TS_PKT_VERSION : UInt8 := 1
abbrev TS_HMAC_SIZE : Nat := 10
abbrev TS_CODEC_UNIT : Nat := 16

abbrev SIGNING_MODE_NONE : UInt8 := 0
abbrev SIGNING_MODE_HEADER_ONLY : UInt8 := 1
abbrev SIGNING_MODE_FULL : UInt8 := 2

abbrev ENCRYPT_MODE_NONE : UInt8 := 0
abbrev ENCRYPT_MODE_BODY : UInt8 := 1

abbrev TS_PKT_SYN : UInt8 := 1
abbrev TS_PKT_SYN_ACK : UInt8 := 2
abbrev TS_PKT_ACK : UInt8 := 3
abbrev TS_PKT_DATA : UInt8 := 4
abbrev TS_PKT_FIN : UInt8 := 5
abbrev TS_PKT_FIN_ACK : UInt8 := 6

abbrev TS_PKT_FLAG0_SIGNED_HEADER : UInt8 := 1
abbrev TS_PKT_FLAG0_SIGNED_DATA : UInt8 := 2
abbrev TS_PKT_FLAG0_SIGNED_ALL : UInt8 := 3
abbrev TS_PKT_FLAG0_ENCRYPTED_DATA : UInt8 := 4

/-! ## The header -/

structure HeaderOnWire where
  version : UInt8
  type : UInt8
  flag0 : UInt8
  flag1 : UInt8
  packetSize : UInt32
  srcDevId : UInt64
  srcInstId : UInt32
  srcVtId : UInt32
  dstDevId : UInt64
  dstInstId : UInt32
  dstVtId : UInt32
  seqNum : UInt64
  ackNum : UInt64
  windowSize : UInt32
  dataSize : UInt32
  reserved : UInt32
  deriving DecidableEq, Repr

/-- `sizeof(HeaderOnWire)` -/
abbrev headerSize : Nat := 68

namespace HeaderOnWire

/-- The packed structure, its fields in network order. -/
def bytes (h : HeaderOnWire) : List UInt8 :=
  [h.version, h.type, h.flag0, h.flag1] ++ (toBytes 4 h.packetSize.toNat ++
    (toBytes 8 h.srcDevId.toNat ++ (toBytes 4 h.srcInstId.toNat ++ (toBytes 4 h.srcVtId.toNat ++
    (toBytes 8 h.dstDevId.toNat ++ (toBytes 4 h.dstInstId.toNat ++ (toBytes 4 h.dstVtId.toNat ++
    (toBytes 8 h.seqNum.toNat ++ (toBytes 8 h.ackNum.toNat ++ (toBytes 4 h.windowSize.toNat ++
    (toBytes 4 h.dataSize.toNat ++ toBytes 4 h.reserved.toNat)))))))))))

def u8At (bs : List UInt8) (off : Nat) : UInt8 :=
  (bs.drop off).headD 0

def u32At (bs : List UInt8) (off : Nat) : UInt32 :=
  UInt32.ofNat (ofBytes ((bs.drop off).take 4))

def u64At (bs : List UInt8) (off : Nat) : UInt64 :=
  UInt64.ofNat (ofBytes ((bs.drop off).take 8))

/-- The structure at the start of the bytes. -/
def ofWire (bs : List UInt8) : HeaderOnWire where
  version := u8At bs 0
  type := u8At bs 1
  flag0 := u8At bs 2
  flag1 := u8At bs 3
  packetSize := u32At bs 4
  srcDevId := u64At bs 8
  srcInstId := u32At bs 16
  srcVtId := u32At bs 20
  dstDevId := u64At bs 24
  dstInstId := u32At bs 32
  dstVtId := u32At bs 36
  seqNum := u64At bs 40
  ackNum := u64At bs 48
  windowSize := u32At bs 56
  dataSize := u32At bs 60
  reserved := u32At bs 64

@[simp] theorem length_bytes (h : HeaderOnWire) : h.bytes.length = headerSize := by
  simp [bytes]

theorem u32At_toBytes {bs rest : List UInt8} {off : Nat} {v : UInt32}
    (h : bs.drop off = toBytes 4 v.toNat ++ rest) : u32At bs off = v := by
  rw [u32At, h, List.take_left' (length_toBytes _ _), ofBytes_toBytes v.toNat_lt,
    UInt32.ofNat_toNat]

theorem u64At_toBytes {bs rest : List UInt8} {off : Nat} {v : UInt64}
    (h : bs.drop off = toBytes 8 v.toNat ++ rest) : u64At bs off = v := by
  rw [u64At, h, List.take_left' (length_toBytes _ _), ofBytes_toBytes v.toNat_lt,
    UInt64.ofNat_toNat]

theorem ofWire_bytes (h : HeaderOnWire) : ofWire h.bytes = h := by
  obtain ⟨version, type, flag0, flag1, packetSize, srcDevId, srcInstId, srcVtId, dstDevId,
    dstInstId, dstVtId, seqNum, ackNum, windowSize, dataSize, reserved⟩ := h
  simp only [ofWire, mk.injEq]
  refine ⟨rfl, rfl, rfl, rfl, u32At_toBytes rfl, u64At_toBytes rfl, u32At_toBytes rfl,
    u32At_toBytes rfl, u64At_toBytes rfl, u32At_toBytes rfl, u32At_toBytes rfl,
    u64At_toBytes rfl, u64At_toBytes rfl, u32At_toBytes rfl, u32At_toBytes rfl, ?_⟩
  exact u32At_toBytes (List.append_nil _).symm

end HeaderOnWire

/-! ## Packets -/

/-- What the classes of packets add to `Packet`. The data of a DATA packet is a pointer and
a size; behind the data of a received packet lie its padding and signature. -/
inductive Body where
  | syn (serviceName : List UInt8)
  | synAck
  | ack
  | data (bytes : List UInt8) (datasize : UInt32)
  | fin
  | finAck
  deriving DecidableEq, Repr

namespace Body

def getPktType : Body → UInt8
  | syn _ => TS_PKT_SYN
  | synAck => TS_PKT_SYN_ACK
  | ack => TS_PKT_ACK
  | data _ _ => TS_PKT_DATA
  | fin => TS_PKT_FIN
  | finAck => TS_PKT_FIN_ACK

/-- The service name of a SYN, the data of a DATA packet. -/
def content : Body → List UInt8
  | syn serviceName => serviceName
  | data bytes datasize => bytes.take datasize.toNat
  | _ => []

/-- The bodies a sender makes: as many bytes as `datasize` says. -/
def Allocated : Body → Prop
  | data bytes datasize => datasize.toNat ≤ bytes.length
  | _ => True

end Body

structure Packet where
  srcDevId : UInt64
  srcInstId : UInt32
  srcVtId : UInt32
  dstDevId : UInt64
  dstInstId : UInt32
  dstVtId : UInt32
  seqNum : UInt64
  ackNum : UInt64
  windowSize : UInt32
  body : Body
  deriving DecidableEq, Repr

/-! ## Signature and encryption -/

/-- `compute_hmac` over the concatenation of the buffers. -/
def computeHmac (c : Crypto) (key message : List UInt8) : List UInt8 :=
  (c.hmacSha1 key message).toList.take TS_HMAC_SIZE

/-- The blocks that `aesBlockEncrypt` and `aesBlockDecrypt` go over when they are given
`bytes * 8` bits: the product is a `u32`, their parameter an `int`. -/
def numBlocks (bytes : Nat) : Nat :=
  let bits := bytes * 8 % 2 ^ 32
  if 2 ^ 31 ≤ bits then 0 else bits / 128

/-- What `aes_SwEncrypt` writes. Its result is only logged. -/
def aesSwEncrypt (E : Equiv.Perm Block) (iv : Block) (dataIn : List UInt8) (bytes : Nat) :
    List UInt8 :=
  ofWords 16 (Cbc.encrypt E iv (toWords 128 16 (numBlocks bytes) dataIn))

def aesSwDecrypt (E : Equiv.Perm Block) (iv : Block) (dataIn : List UInt8) (bytes : Nat) :
    List UInt8 :=
  ofWords 16 (Cbc.decrypt E iv (toWords 128 16 (numBlocks bytes) dataIn))

abbrev zeroIv : Block := 0#128

/-- `UserDataIvInput` -/
def userDataIvInput (seqNum : UInt64) (srcVtId dstVtId : UInt32) : List UInt8 :=
  toBytes 4 dstVtId.toNat ++ (toBytes 4 srcVtId.toNat ++ toBytes 8 seqNum.toNat)

def computeIv (E : Equiv.Perm Block) (seqNum : UInt64) (srcVtId dstVtId : UInt32) : Block :=
  toWord 128 16 (aesSwEncrypt E zeroIv (userDataIvInput seqNum srcVtId dstVtId) 16)

/-- The bytes filled in and the generator's next state. -/
def fillWithRandom (randomness : UInt32) : Nat → List UInt8 × UInt32
  | 0 => ([], randomness)
  | 1 =>
    let r := randomness * 1103515245 + 12345
    ([r.toUInt8], r)
  | n + 2 =>
    let r := randomness * 1103515245 + 12345
    let rest := fillWithRandom r n
    (r.toUInt8 :: (r >>> 8).toUInt8 :: rest.1, rest.2)

def padLen (dataSize : Nat) : Nat :=
  (16 - dataSize % 16) % 16

/-! ## Sending -/

/-- Whether `serialize` encrypts the body. -/
def Encrypts (pktType : UInt8) (bodySize : Nat) (encMode : UInt8) : Prop :=
  bodySize > 0 ∧ encMode = ENCRYPT_MODE_BODY ∧ pktType = TS_PKT_DATA

instance (pktType : UInt8) (bodySize : Nat) (encMode : UInt8) :
    Decidable (Encrypts pktType bodySize encMode) :=
  inferInstanceAs (Decidable (_ ∧ _ ∧ _))

def hashLen (signMode : UInt8) : Nat :=
  if signMode ≠ SIGNING_MODE_NONE then TS_HMAC_SIZE else 0

def signFlag (signMode : UInt8) : UInt8 :=
  if signMode ≠ SIGNING_MODE_NONE then
    if signMode = SIGNING_MODE_HEADER_ONLY then TS_PKT_FLAG0_SIGNED_HEADER
    else TS_PKT_FLAG0_SIGNED_ALL
  else 0

def encryptFlag (pktType : UInt8) (bodySize : Nat) (encMode : UInt8) : UInt8 :=
  if Encrypts pktType bodySize encMode then TS_PKT_FLAG0_ENCRYPTED_DATA else 0

def sendPadLen (pktType : UInt8) (bodySize : Nat) (encMode : UInt8) : Nat :=
  if Encrypts pktType bodySize encMode then padLen bodySize else 0

/-- What is signed under a mode. -/
def signedPart (signMode : UInt8) (header data : List UInt8) : List UInt8 :=
  if signMode = SIGNING_MODE_HEADER_ONLY then header else header ++ data

/-- Encrypt the body to `dest`, the buffer behind the header: the blocks up to the last
boundary, then what is left together with the padding, chained to the block before by
reading it back from `dest`. -/
def encryptBody (E : Equiv.Perm Block) (iv : Block) (body : List UInt8) (randomness : UInt32)
    (dest : List UInt8) : List UInt8 × UInt32 :=
  let boundary := body.length / 16 * 16
  let dest := if boundary > 0 then writeAt dest 0 (aesSwEncrypt E iv body boundary) else dest
  if boundary < body.length then
    let pad := fillWithRandom randomness (padLen body.length)
    let last := body.drop boundary ++ pad.1
    let iv := if boundary > 0 then toWord 128 16 (dest.drop (boundary - 16)) else iv
    (writeAt dest boundary (aesSwEncrypt E iv last 16), pad.2)
  else (dest, randomness)

/-- What `Serialize` leaves: the buffer, the size of the packet in it and the random
generator. -/
structure Serialized where
  buffer : List UInt8
  size : Nat
  randomness : UInt32

namespace Packet

variable (p : Packet) (signMode encMode : UInt8)

def serializedPacketSize (body : List UInt8) : Nat :=
  headerSize + body.length + sendPadLen p.body.getPktType body.length encMode + hashLen signMode

def header (body : List UInt8) : HeaderOnWire where
  version := TS_PKT_VERSION
  type := p.body.getPktType
  flag0 := signFlag signMode ||| encryptFlag p.body.getPktType body.length encMode
  flag1 := 0
  packetSize := UInt32.ofNat (p.serializedPacketSize signMode encMode body)
  srcDevId := p.srcDevId
  srcInstId := p.srcInstId
  srcVtId := p.srcVtId
  dstDevId := p.dstDevId
  dstInstId := p.dstInstId
  dstVtId := p.dstVtId
  seqNum := p.seqNum
  ackNum := p.ackNum
  windowSize := p.windowSize
  dataSize := UInt32.ofNat body.length
  reserved := 0

/-- `Packet::serialize`; the error is the size that the buffer lacks. -/
def serialize (c : Crypto) (body : List UInt8) (signKey encKey : List UInt8)
    (randomness : UInt32) (buffer : List UInt8) : Except Nat Serialized :=
  let size := p.serializedPacketSize signMode encMode body
  if buffer.length < size then .error size
  else
    let header := (p.header signMode encMode body).bytes
    let buffer := writeAt buffer 0 header
    let buffer :=
      if signMode ≠ SIGNING_MODE_NONE then
        writeAt buffer (size - hashLen signMode)
          (computeHmac c signKey (signedPart signMode header body))
      else buffer
    if Encrypts p.body.getPktType body.length encMode then
      let E := c.aes encKey
      let iv := computeIv E p.seqNum p.srcVtId p.dstVtId
      let written := encryptBody E iv body randomness (buffer.drop headerSize)
      .ok ⟨buffer.take headerSize ++ written.1, size, written.2⟩
    else .ok ⟨writeAt buffer headerSize body, size, randomness⟩

def getSerializeBufSize : Nat :=
  match p.body with
  | .syn serviceName => headerSize + serviceName.length + TS_HMAC_SIZE
  | .data _ datasize => headerSize + datasize.toNat + TS_CODEC_UNIT + TS_HMAC_SIZE
  | _ => headerSize + TS_HMAC_SIZE

/-- `Serialize` of each class. -/
def Serialize (c : Crypto) (signKey encKey : List UInt8) (randomness : UInt32)
    (buffer : List UInt8) : Except Nat Serialized :=
  p.serialize signMode encMode c p.body.content signKey encKey randomness buffer

end Packet

/-! ## Receiving -/

/-- How receiving a packet ends when there is none. `outOfBounds` is no error of the code:
it reads or writes outside the payload. -/
inductive RecvErr where
  | socket (err : Int)
  | comm
  | timeout
  | noMem
  | badSign
  | outOfBounds
  deriving DecidableEq, Repr

/-- A socket: the bytes it delivers and what `Read` returns then, 0 at its end. -/
structure Socket where
  incoming : List UInt8
  ending : Int

def VPL_ERR_CANCELED : Int := -9087

def VPL_ERR_TIMEOUT : Int := -9096

/-- `RecvUntilFull`, fewer bytes than asked for being an error of every caller. A socket that was
canceled counts as one at its end. -/
def recvUntilFull (socket : Socket) (size : Nat) : Except RecvErr (List UInt8 × Socket) :=
  if size ≤ socket.incoming.length then
    .ok (socket.incoming.take size, { socket with incoming := socket.incoming.drop size })
  else if socket.ending = VPL_ERR_TIMEOUT then .error .timeout
  else if socket.ending < 0 ∧ socket.ending ≠ VPL_ERR_CANCELED then
    .error (.socket socket.ending)
  else .error .comm

def recvPadLen (hdr : HeaderOnWire) : Nat :=
  if hdr.flag0 &&& TS_PKT_FLAG0_ENCRYPTED_DATA ≠ 0 then padLen hdr.dataSize.toNat else 0

/-- The signature is looked for behind data and padding. -/
def hashData (hdr : HeaderOnWire) : Nat :=
  hdr.dataSize.toNat + recvPadLen hdr

/-- The part of `Packet_verify_pkt` that decrypts the payload in place. -/
def decryptPayload (E : Equiv.Perm Block) (hdr : HeaderOnWire) (payload : List UInt8) :
    Except RecvErr (List UInt8) :=
  let dataSize := hdr.dataSize.toNat
  if hdr.flag0 &&& TS_PKT_FLAG0_ENCRYPTED_DATA ≠ 0 then
    let iv := computeIv E hdr.seqNum hdr.srcVtId hdr.dstVtId
    let bytes := dataSize + padLen dataSize
    if payload.length < 16 * numBlocks bytes then .error .outOfBounds
    else if padLen dataSize > 0 ∧ payload.length < bytes then .error .outOfBounds
    else
      let payload := writeAt payload 0 (aesSwDecrypt E iv payload bytes)
      .ok (writeAt payload dataSize (List.replicate (padLen dataSize) 0))
  else .ok payload

/-- What the flags of a packet say is signed. -/
def signedByFlags (flag0 : UInt8) (header data : List UInt8) : List UInt8 :=
  (if flag0 &&& TS_PKT_FLAG0_SIGNED_HEADER ≠ 0 then header else []) ++
    (if flag0 &&& TS_PKT_FLAG0_SIGNED_DATA ≠ 0 then data else [])

/-- `Packet_verify_pkt`. It is given the modes and the size of the payload and does not look
at them. -/
def packetVerifyPkt (c : Crypto) (_signMode _encMode : UInt8) (signKey encKey : List UInt8)
    (header : List UInt8) (payload : List UInt8) : Except RecvErr (List UInt8) :=
  let hdr := HeaderOnWire.ofWire header
  match decryptPayload (c.aes encKey) hdr payload with
  | .error e => .error e
  | .ok payload =>
    if hdr.flag0 &&& TS_PKT_FLAG0_SIGNED_ALL ≠ 0 then
      let data := payload.take hdr.dataSize.toNat
      if payload.length < hashData hdr + TS_HMAC_SIZE then .error .outOfBounds
      else if (payload.drop (hashData hdr)).take TS_HMAC_SIZE ≠
          computeHmac c signKey (signedByFlags hdr.flag0 header data) then
        .error .badSign
      else .ok payload
    else .ok payload

/-- The body of a received packet of a type; no packet if the type is not known. -/
def deserializeBody (hdr : HeaderOnWire) (data : List UInt8) (dataSize : UInt32) :
    Except RecvErr Body :=
  if hdr.type = TS_PKT_SYN then
    if data.length < dataSize.toNat then .error .outOfBounds
    else .ok (.syn (data.take dataSize.toNat))
  else if hdr.type = TS_PKT_SYN_ACK then .ok .synAck
  else if hdr.type = TS_PKT_ACK then .ok .ack
  else if hdr.type = TS_PKT_DATA then .ok (.data data dataSize)
  else if hdr.type = TS_PKT_FIN then .ok .fin
  else if hdr.type = TS_PKT_FIN_ACK then .ok .finAck
  else .error .noMem

/-- `Packet::Deserialize`; its caller reports no memory where it makes no packet. -/
def deserialize (hdr : HeaderOnWire) (data : List UInt8) (dataSize : UInt32) :
    Except RecvErr Packet :=
  match deserializeBody hdr data dataSize with
  | .error e => .error e
  | .ok body => .ok {
      srcDevId := hdr.srcDevId
      srcInstId := hdr.srcInstId
      srcVtId := hdr.srcVtId
      dstDevId := hdr.dstDevId
      dstInstId := hdr.dstInstId
      dstVtId := hdr.dstVtId
      seqNum := hdr.seqNum
      ackNum := hdr.ackNum
      windowSize := hdr.windowSize
      body := body }

/-- `RecvTsPacket`. Where `packetSize` is less than the header's the size of the payload
wraps around, and there is no memory for it; smaller payloads are taken to be allocated. -/
def recvTsPacket (c : Crypto) (signMode encMode : UInt8) (signKey encKey : List UInt8)
    (socket : Socket) : Except RecvErr Packet :=
  match recvUntilFull socket headerSize with
  | .error e => .error e
  | .ok (header, socket) =>
    let hdr := HeaderOnWire.ofWire header
    if hdr.packetSize.toNat < headerSize then .error .noMem
    else
      match recvUntilFull socket (hdr.packetSize.toNat - headerSize) with
      | .error e => .error e
      | .ok (payload, _) =>
        match packetVerifyPkt c signMode encMode signKey encKey header payload with
        | .error e => .error e
        | .ok payload => deserialize hdr payload hdr.dataSize

end PersonalCloud.Ts2.Codec
