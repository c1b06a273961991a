import PersonalCloud.Pxd.Wire

/-!
# Credential blobs

A blob says which client may log in to which server, and holds the key of the session. It is
signed as a whole under the key of the server, and its secret fields are encrypted one by
one, each with its own initialisation vector and its length in front of it.
-/

namespace PersonalCloud.Pxd

open PersonalCloud.Lib

abbrev aesBlockSize : Nat := 16

abbrev blobVersion : UInt16 := 3
abbrev blobFields : Nat := 5
abbrev blobCount : UInt16 := 44

structure Blob where
  version : UInt16
  clientUser : UInt64
  clientDevice : UInt64
  clientInstance : List UInt8
  serverUser : UInt64
  serverDevice : UInt64
  serverInstance : List UInt8
  create : UInt64
  key : List UInt8
  handle : List UInt8
  serviceId : List UInt8
  ticket : List UInt8
  extra : List UInt8
  deriving DecidableEq, Repr

section

variable (prim : Primitives) (crypto : Crypto)

/-- Decrypt whole blocks behind their initialisation vector, and drop the padding. -/
def decrypt (message : List UInt8) : Option (List UInt8) :=
  if message.length % aesBlockSize ≠ 0 then none
  else if message.length ≤ aesBlockSize then none
  else
    let cipherLength := message.length - aesBlockSize
    let work := ofWords 16 (Cbc.decrypt (prim.aes crypto.aesKey) (toWord 128 16 message)
      (toWords 128 16 (cipherLength / aesBlockSize) (message.drop aesBlockSize)))
    let length := ofBytes (work.take 2)
    if length = 0 ∨ length > cipherLength - 2 then none
    else some ((work.drop 2).take length)

def unpackEncrypted : Unpack (List UInt8) := do
  let ciphertext ← unpackBytes
  StateT.lift (decrypt prim crypto ciphertext)

/-- The blob's fields, and what has to be checked of the rest. -/
def unpackBlobFields : Unpack (Blob × UInt16 × UInt16 × UInt16) := do
  let count ← unpackU16
  let version ← unpackU16
  let clientUser ← unpackU64
  let clientDevice ← unpackU64
  let serverUser ← unpackU64
  let serverDevice ← unpackU64
  let create ← unpackU64
  let fields ← unpackU16
  let key ← unpackEncrypted prim crypto
  let handle ← unpackEncrypted prim crypto
  let serviceId ← unpackEncrypted prim crypto
  let ticket ← unpackEncrypted prim crypto
  let clientInstance ← unpackString
  let serverInstance ← unpackString
  let extras ← (List.replicate (fields.toNat - blobFields) unpackBytes).mapM id
  let signatureCount ← unpackU16
  return ({
    version := version
    clientUser := clientUser
    clientDevice := clientDevice
    clientInstance := clientInstance
    serverUser := serverUser
    serverDevice := serverDevice
    serverInstance := serverInstance
    create := create
    key := key
    handle := handle
    serviceId := serviceId
    ticket := ticket
    extra := extras.getLastD [] }, count, fields, signatureCount)

/-- The signature is checked before anything is decoded. -/
def unpackBlob (buffer : List UInt8) : Option Blob :=
  let signedLength := buffer.length - signatureSize - 2
  if signedLength = 0 then none
  else if signature prim crypto (buffer.take signedLength) ≠
      buffer.drop (buffer.length - signatureSize) then none
  else
    match unpackBlobFields prim crypto buffer with
    | none => none
    | some ((blob, count, fields, signatureCount), rest) =>
      if count = blobCount ∧ blob.version = blobVersion ∧ blobFields ≤ fields.toNat ∧
          signatureCount.toNat = signatureSize ∧ rest.length = signatureSize then some blob
      else none

/-- A blob without room for anything that is signed is refused, whatever the key is. -/
theorem unpackBlob_of_le {buffer : List UInt8} (h : buffer.length ≤ signatureSize + 2) :
    unpackBlob prim crypto buffer = none :=
  if_pos (by omega)

/-- The blob's signature is right under the key. -/
def BlobSigned (buffer : List UInt8) : Prop :=
  signature prim crypto (buffer.take (buffer.length - signatureSize - 2)) =
    buffer.drop (buffer.length - signatureSize)

variable {prim crypto}

theorem blobSigned_of_unpackBlob {buffer : List UInt8} {blob : Blob}
    (h : unpackBlob prim crypto buffer = some blob) : BlobSigned prim crypto buffer := by
  simp only [unpackBlob] at h
  split_ifs at h with _ hsigned
  exact not_not.1 hsigned

end

end PersonalCloud.Pxd
