import PersonalCloud.Pxd.Blob
import PersonalCloud.Pxd.Packing

/-!
# Packing credential blobs

The secret fields of a blob are encrypted first. Then the length of the blob is computed as an
`int`, and the fields are written into a buffer of that size, with a signature behind them. A
blob for the daemon names no server.

Memory runs out only for buffers of negative size, and the switch that makes packing fail for
tests is off.
-/

namespace PersonalCloud.Pxd

open PersonalCloud.Lib
open Unpacked (appendShort appendLong appendString appendBytes)

/-- The initialisation vectors of the secret fields. -/
structure BlobIvs where
  key : Block
  handle : Block
  serviceId : Block
  ticket : Block

abbrev demonVersion : UInt16 := 3
abbrev demonCount : UInt16 := 28
abbrev demonFields : Nat := 5

section

variable (prim : Primitives) (crypto : Crypto)

/-! ## Packing -/

/-- `pxd_encrypt`: the length and the message, padded to whole blocks, behind the initialisation
vector. -/
def encrypt (maxEncrypt : Nat) (iv : Block) (message : List UInt8) : Option (List UInt8) :=
  if message.length = 0 ∨ message.length > maxEncrypt then none
  else
    let paddedLength := 2 + message.length
    let padCount := (aesBlockSize - paddedLength % aesBlockSize) % aesBlockSize
    let length := UInt16.ofNat message.length
    let paddedText := toBytes 2 length.toNat ++ message ++ List.replicate padCount 0
    some (ofWord 16 iv ++ ofWords 16 (Cbc.encrypt (prim.aes crypto.aesKey) iv
      (toWords 128 16 ((paddedLength + padCount) / aesBlockSize) paddedText)))

/-- An extra field is written unless it is empty. -/
def extraLength (extra : List UInt8) : Nat :=
  if extra.length > 0 then packedBytesLength extra else 0

def appendExtra {limit : Nat} (extra : List UInt8) (b : Buffer UInt8 limit) :
    Buffer UInt8 limit :=
  if extra.length > 0 then appendBytes b extra else b

/-- The signature, and the check that the buffer is full. -/
def appendSignature {length : Nat} (b : Buffer UInt8 length) : Option (List UInt8) :=
  let signedLength := length - (2 + signatureSize)
  let b := appendBytes b (signature prim crypto (b.bytes.take signedLength))
  if b.failed = true ∨ b.bytes.length ≠ length then none else some b.bytes

/-- `pxd_pack_blob`. -/
def packBlob (maxEncrypt : Nat) (ivs : BlobIvs) (blob : Blob) : Option (List UInt8) := do
  let key ← encrypt prim crypto maxEncrypt ivs.key blob.key
  let handle ← encrypt prim crypto maxEncrypt ivs.handle blob.handle
  let sid ← encrypt prim crypto maxEncrypt ivs.serviceId blob.serviceId
  let ticket ← encrypt prim crypto maxEncrypt ivs.ticket blob.ticket
  let length := Int32.ofNat (3 * 2 + 5 * 8 + packedBytesLength key + packedBytesLength handle +
    packedBytesLength sid + packedBytesLength ticket + (2 + signatureSize) +
    packedStringLength blob.clientInstance + packedStringLength blob.serverInstance +
    extraLength blob.extra)
  if length.toInt < 0 then none
  else
    let fields := UInt16.ofNat (blobFields + if blob.extra.length > 0 then 1 else 0)
    let b : Buffer UInt8 length.toInt.toNat := ⟨[], false, Nat.zero_le _⟩
    let b := appendShort b blobCount
    let b := appendShort b blobVersion
    let b := appendLong b blob.clientUser
    let b := appendLong b blob.clientDevice
    let b := appendLong b blob.serverUser
    let b := appendLong b blob.serverDevice
    let b := appendLong b blob.create
    let b := appendShort b fields
    let b := appendBytes b key
    let b := appendBytes b handle
    let b := appendBytes b sid
    let b := appendBytes b ticket
    let b := appendString b blob.clientInstance
    let b := appendString b blob.serverInstance
    let b := appendExtra blob.extra b
    appendSignature prim crypto b

/-- `pxd_pack_demon_blob`. -/
def packDemonBlob (maxEncrypt : Nat) (ivs : BlobIvs) (blob : Blob) : Option (List UInt8) := do
  let key ← encrypt prim crypto maxEncrypt ivs.key blob.key
  let handle ← encrypt prim crypto maxEncrypt ivs.handle blob.handle
  let sid ← encrypt prim crypto maxEncrypt ivs.serviceId blob.serviceId
  let ticket ← encrypt prim crypto maxEncrypt ivs.ticket blob.ticket
  let length := Int32.ofNat (3 * 2 + 3 * 8 + packedStringLength blob.clientInstance +
    packedBytesLength key + packedBytesLength handle + packedBytesLength sid +
    packedBytesLength ticket + (2 + signatureSize) + extraLength blob.extra)
  if length.toInt < 0 then none
  else
    let fields := UInt16.ofNat (demonFields + if blob.extra.length > 0 then 1 else 0)
    let b : Buffer UInt8 length.toInt.toNat := ⟨[], false, Nat.zero_le _⟩
    let b := appendShort b demonCount
    let b := appendShort b demonVersion
    let b := appendLong b blob.clientUser
    let b := appendLong b blob.clientDevice
    let b := appendLong b blob.create
    let b := appendShort b fields
    let b := appendBytes b key
    let b := appendBytes b handle
    let b := appendBytes b sid
    let b := appendBytes b ticket
    let b := appendString b blob.clientInstance
    let b := appendExtra blob.extra b
    appendSignature prim crypto b

/-! ## Unpacking a blob for the daemon -/

/-- The fields, and what has to be checked of the rest. The server is left out. -/
def unpackDemonBlobFields : Unpack (Blob × UInt16 × UInt16 × UInt16) := do
  let count ← unpackU16
  let version ← unpackU16
  let clientUser ← unpackU64
  let clientDevice ← unpackU64
  let create ← unpackU64
  let fields ← unpackU16
  let key ← unpackEncrypted prim crypto
  let handle ← unpackEncrypted prim crypto
  let serviceId ← unpackEncrypted prim crypto
  let ticket ← unpackEncrypted prim crypto
  let clientInstance ← unpackString
  let extras ← (List.replicate (fields.toNat - blobFields) unpackBytes).mapM id
  let signatureCount ← unpackU16
  return ({
    version := version
    clientUser := clientUser
    clientDevice := clientDevice
    clientInstance := clientInstance
    serverUser := 0
    serverDevice := 0
    serverInstance := []
    create := create
    key := key
    handle := handle
    serviceId := serviceId
    ticket := ticket
    extra := extras.getLastD [] }, count, fields, signatureCount)

/-- `pxd_unpack_demon_blob`. -/
def unpackDemonBlob (buffer : List UInt8) : Option Blob :=
  let signedLength := buffer.length - signatureSize - 2
  if signedLength = 0 then none
  else if signature prim crypto (buffer.take signedLength) ≠
      buffer.drop (buffer.length - signatureSize) then none
  else
    match unpackDemonBlobFields prim crypto buffer with
    | none => none
    | some ((blob, count, fields, signatureCount), rest) =>
      if count = demonCount ∧ blob.version = demonVersion ∧ demonFields ≤ fields.toNat ∧
          signatureCount.toNat = signatureSize ∧ rest.length = signatureSize then some blob
      else none

end

end PersonalCloud.Pxd
