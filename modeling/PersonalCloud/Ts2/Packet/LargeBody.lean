import Mathlib.Data.Fin.Basic
import PersonalCloud.Ts2.Packet.RoundTrip

/-!
# Bodies that are too large to encrypt

An encrypted DATA packet of more than 2^28 - 16 bytes does not arrive as it was sent: from
2^28 bytes on the last whole block is neither encrypted nor written to the buffer, and where
padding brings the body to 2^28 bytes all of it is encrypted and none of it decrypted.
`Packet.roundTrips_iff` is what `Serialize` and `RecvTsPacket` come to.
-/

namespace PersonalCloud.Ts2.Codec

open PersonalCloud.Lib

/-- A cipher for every key and a hash that is always zero. -/
def Crypto.ofCipher (E : Equiv.Perm Block) : Crypto where
  hmacSha1 _ _ := Vector.replicate 20 0
  aes _ := E

theorem exists_block_ne_ne (u v : Block) : ∃ b, b ≠ u ∧ b ≠ v := by
  obtain ⟨b, hu, hv⟩ := Fin.exists_ne_and_ne_of_two_lt u.toFin v.toFin (by decide)
  exact ⟨⟨b⟩, fun h => hu (h ▸ rfl), fun h => hv (h ▸ rfl)⟩

/-- Whatever the vector is derived from, some cipher does not leave the first block as it is. -/
theorem exists_cipher_ne (x p : Block) : ∃ E : Equiv.Perm Block, E (p ^^^ E x) ≠ p := by
  obtain ⟨a, ha, -⟩ := exists_block_ne_ne (p ^^^ x) p
  have hx : x ≠ p ^^^ a := by
    rintro rfl
    apply ha
    rw [← BitVec.xor_assoc, BitVec.xor_self, BitVec.zero_xor]
  obtain ⟨b, hba, hbp⟩ := exists_block_ne_ne a p
  obtain ⟨E, hEx, hEp⟩ := Cbc.exists_perm_apply hx hba.symm
  exact ⟨E, by rwa [hEx, hEp]⟩

namespace Packet

variable {p : Packet} {signMode encMode : UInt8}

/-- What a round trip of an encrypted packet means for the bytes: decrypting what
`encryptBody` left in the buffer gives the body. -/
theorem RoundTrips.decrypted {hd area old rest : List UInt8} (h : p.RoundTrips signMode encMode)
    (henc : Encrypts p.body.getPktType p.body.content.length encMode)
    (hsize : p.serializedPacketSize signMode encMode p.body.content < 2 ^ 32)
    (hhd : hd.length = headerSize)
    (harea : area.length = p.body.content.length + padLen p.body.content.length)
    (hold : old.length = hashLen signMode)
    (hbuffer : (hd ++ (area ++ (old ++ rest))).length = p.getSerializeBufSize)
    (E : Equiv.Perm Block) :
    ∃ behind decrypted,
      decryptPayload E (p.header signMode encMode p.body.content)
        ((encryptBody E (computeIv E p.seqNum p.srcVtId p.dstVtId) p.body.content 0
          (area ++ behind)).1.take (area.length + hashLen signMode)) = .ok decrypted ∧
      decrypted.take p.body.content.length = p.body.content := by
  have hpad : sendPadLen p.body.getPktType p.body.content.length encMode =
      padLen p.body.content.length := if_pos henc
  obtain ⟨s, hs, hrecv⟩ := h (.ofCipher E) [] [] 0 _ hbuffer
  set sig := p.signature signMode encMode (.ofCipher E) [] p.body.content
  refine ⟨sig ++ rest, ?_⟩
  set W := (encryptBody E (computeIv E p.seqNum p.srcVtId p.dstVtId) p.body.content 0
    (area ++ (sig ++ rest))).1 with hW
  have hWlen : W.length = area.length + (hashLen signMode + rest.length) := by
    rw [hW, length_encryptBody] <;> simp [sig, harea]
  rw [Serialize, serialize_append p signMode encMode (.ofCipher E) [] [] p.body.content hhd
    (hpad ▸ harea) hold] at hs
  simp only [if_pos henc] at hs
  cases hs
  have hwire : ((p.header signMode encMode p.body.content).bytes ++ W).take
      (p.serializedPacketSize signMode encMode p.body.content) =
      (p.header signMode encMode p.body.content).bytes ++
        W.take (area.length + hashLen signMode) := by
    have htotal : p.serializedPacketSize signMode encMode p.body.content =
        (p.header signMode encMode p.body.content).bytes.length +
          (area.length + hashLen signMode) := by
      rw [serializedPacketSize, hpad, HeaderOnWire.length_bytes]
      omega
    rw [htotal, List.take_length_add_append]
  obtain ⟨q, hq, hsame⟩ := hrecv [] 0
  have hlen : (p.header signMode encMode p.body.content).packetSize.toNat =
      headerSize + (W.take (area.length + hashLen signMode)).length := by
    rw [List.length_take, hWlen, Nat.min_eq_left (by omega), packetSize_header hsize,
      serializedPacketSize, hpad]
    omega
  have hdata : (p.header signMode encMode p.body.content).dataSize.toNat =
      p.body.content.length :=
    dataSize_header (length_lt_of_serializedPacketSize hsize)
  change recvTsPacket _ signMode encMode [] [] ⟨((p.header signMode encMode p.body.content).bytes ++
    W).take (p.serializedPacketSize signMode encMode p.body.content) ++ [], 0⟩ = _ at hq
  rw [hwire, List.append_assoc] at hq
  obtain ⟨decrypted, hdec, hcontent⟩ := content_of_recvTsPacket henc.2.2 hlen hq
  exact ⟨decrypted, hdec, by rw [← hdata, ← hcontent, hsame.content]⟩

/-- The parts of the buffer in `RoundTrips.decrypted`, all of them filled with one byte. -/
theorem exists_filled (signMode : UInt8) (hp : p.body.Allocated)
    (henc : Encrypts p.body.getPktType p.body.content.length encMode) (v : UInt8) :
    ∃ hd area old rest : List UInt8, hd.length = headerSize ∧
      area.length = p.body.content.length + padLen p.body.content.length ∧
      old.length = hashLen signMode ∧ (∀ x ∈ area, x = v) ∧
      (hd ++ (area ++ (old ++ rest))).length = p.getSerializeBufSize := by
  have hfits : p.serializedPacketSize signMode encMode p.body.content ≤
      (List.replicate p.getSerializeBufSize v).length := by
    simpa using serializedPacketSize_le hp
  obtain ⟨hd, area, old, rest, hbuffer, hhd, harea, hold⟩ := exists_parts hfits
  rw [sendPadLen, if_pos henc] at harea
  refine ⟨hd, area, old, rest, hhd, harea, hold, fun x hx => ?_, ?_⟩
  · have hmem : x ∈ List.replicate p.getSerializeBufSize v := by
      rw [hbuffer]
      simp [hx]
    exact List.eq_of_mem_replicate hmem
  · rw [← hbuffer, List.length_replicate]

/-- The last whole block of a body with 2^28 bytes of whole blocks is not sent at all. -/
theorem not_roundTrips_of_whole (hp : p.body.Allocated)
    (hsize : p.serializedPacketSize signMode encMode p.body.content < 2 ^ 32)
    (henc : Encrypts p.body.getPktType p.body.content.length encMode)
    (hbig : 2 ^ 28 ≤ p.body.content.length / 16 * 16) : ¬p.RoundTrips signMode encMode := by
  intro h
  set body := p.body.content with hbody
  set i := body.length / 16 * 16 - 16 with hi
  have hpadded := add_padLen body.length
  have hbodylt : body.length + padLen body.length < 2 ^ 32 := by
    rw [serializedPacketSize, sendPadLen, if_pos henc] at hsize
    omega
  -- neither of the two sizes takes in the last whole block
  have hwhole : 16 * numBlocks (body.length / 16 * 16) ≤ i := by
    have := numBlocks_le (n := body.length / 16) (by omega) (by omega)
    rw [Nat.mul_comm 16 (body.length / 16)] at this
    omega
  have hall : 16 * numBlocks (body.length + padLen body.length) ≤ i := by
    have := numBlocks_le (n := (body.length + 15) / 16) (by omega) (by omega)
    rw [← hpadded] at this
    omega
  have hilt : i < body.length := by omega
  obtain ⟨hd, area, old, rest, hhd, harea, hold, hfill, hbuffer⟩ :=
    exists_filled signMode hp henc (body[i] + 1)
  obtain ⟨behind, decrypted, hdec, htake⟩ :=
    h.decrypted henc hsize hhd harea hold hbuffer 1
  rw [← hbody] at hdec htake harea
  have hdata : (p.header signMode encMode body).dataSize.toNat = body.length :=
    dataSize_header (length_lt_of_serializedPacketSize hsize)
  have hsent : ((encryptBody 1 (computeIv 1 p.seqNum p.srcVtId p.dstVtId) body 0
      (area ++ behind)).1.take (area.length + hashLen signMode))[i]? = some (body[i] + 1) := by
    rw [List.getElem?_take_of_lt (by omega), getElem?_encryptBody hwhole (by omega)
      (by rw [List.length_append]; omega), List.getElem?_append_left (by omega),
      List.getElem?_eq_getElem (by omega), hfill _ (List.getElem_mem _)]
  have hgot : decrypted[i]? = some (body[i] + 1) := by
    rw [← hsent]
    apply getElem?_decryptPayload hdec (by omega) (by rwa [hdata])
    rw [hdata, List.length_take, length_encryptBody] <;> rw [List.length_append] <;> omega
  have hbody_i : body[i]? = some (body[i] + 1) := by
    rw [← hgot, ← List.getElem?_take_of_lt (l := decrypted) hilt, htake]
  rw [List.getElem?_eq_getElem hilt, Option.some.injEq] at hbody_i
  exact absurd hbody_i (by simp)

/-- Where the padding makes 2^28 bytes of the body, its ciphertext is handed up. -/
theorem not_roundTrips_of_padded (hp : p.body.Allocated)
    (hsize : p.serializedPacketSize signMode encMode p.body.content < 2 ^ 32)
    (henc : Encrypts p.body.getPktType p.body.content.length encMode)
    (hwhole : p.body.content.length / 16 * 16 < 2 ^ 28)
    (hbig : 2 ^ 28 ≤ p.body.content.length + padLen p.body.content.length) :
    ¬p.RoundTrips signMode encMode := by
  intro h
  set body := p.body.content with hbody
  have hpadded := add_padLen body.length
  have hnone : numBlocks (body.length + padLen body.length) = 0 := by
    have htotal : body.length + padLen body.length = 2 ^ 28 := by omega
    rw [htotal]
    decide
  have hdata : (p.header signMode encMode body).dataSize.toNat = body.length :=
    dataSize_header (length_lt_of_serializedPacketSize hsize)
  obtain ⟨E, hE⟩ := exists_cipher_ne (toWord 128 16 (userDataIvInput p.seqNum p.srcVtId p.dstVtId))
    (toWord 128 16 body)
  obtain ⟨hd, area, old, rest, hhd, harea, hold, -, hbuffer⟩ :=
    exists_filled signMode hp henc 0
  obtain ⟨behind, decrypted, hdec, htake⟩ := h.decrypted henc hsize hhd harea hold hbuffer E
  rw [← hbody] at hdec htake harea
  rw [encryptBody_eq harea hwhole] at hdec
  set iv := computeIv E p.seqNum p.srcVtId p.dstVtId with hiv
  have hsame : ∀ i < 16, decrypted[i]? = (cipherText E iv body 0)[i]? := by
    intro i hi
    rw [getElem?_decryptPayload hdec (by omega) (by rw [hdata, hnone]; omega),
      List.getElem?_take_of_lt (by omega),
      List.getElem?_append_left (by rw [length_cipherText]; omega)]
    rw [hdata, List.length_take, List.length_append, length_cipherText]
    omega
  have hblock : ofWord 16 (E (toWord 128 16 body ^^^ iv)) = ofWord 16 (toWord 128 16 body) := by
    rw [ofWord_toWord (by decide) (by omega), ← take_cipherText 0 (by omega)]
    apply List.ext_getElem?
    intro i
    rcases Nat.lt_or_ge i 16 with hi | hi
    · rw [List.getElem?_take_of_lt hi, List.getElem?_take_of_lt hi, ← hsame i hi,
        ← List.getElem?_take_of_lt (l := decrypted) (show i < body.length by omega), htake]
    · rw [List.getElem?_eq_none (by simp; omega), List.getElem?_eq_none (by simp; omega)]
  apply hE
  rw [← computeIv_eq, ← hiv]
  exact ofWord_injective (by decide) hblock

/-- A packet makes the round trip under given modes, whatever keys, cipher and hash, exactly
if it is not encrypted or its body has at most 2^28 - 16 bytes. -/
theorem roundTrips_iff (hp : p.body.Allocated)
    (hsize : p.serializedPacketSize signMode encMode p.body.content < 2 ^ 32) :
    p.RoundTrips signMode encMode ↔
      ¬(p.body.getPktType = TS_PKT_DATA ∧ encMode = ENCRYPT_MODE_BODY ∧
        2 ^ 28 - 16 < p.body.content.length) := by
  have hpadded := add_padLen p.body.content.length
  constructor
  · rintro h ⟨htype, hmode, hbig⟩
    have henc : Encrypts p.body.getPktType p.body.content.length encMode :=
      ⟨by omega, hmode, htype⟩
    rcases Nat.lt_or_ge (p.body.content.length / 16 * 16) (2 ^ 28) with hwhole | hwhole
    · exact not_roundTrips_of_padded hp hsize henc hwhole (by omega) h
    · exact not_roundTrips_of_whole hp hsize henc hwhole h
  · intro h
    apply roundTrips_of_lt hp hsize
    rintro ⟨-, hmode, htype⟩
    have hle : ¬2 ^ 28 - 16 < p.body.content.length := fun hlt => h ⟨htype, hmode, hlt⟩
    omega

/-- A DATA packet of three bytes, signed and encrypted. -/
theorem roundTrips_iff_three :
    Packet.RoundTrips ⟨1, 2, 3, 4, 5, 6, 7, 8, 9, .data [10, 11, 12] 3⟩ SIGNING_MODE_FULL
      ENCRYPT_MODE_BODY := by
  have hp : Body.Allocated (.data [10, 11, 12] 3) := show (3 : UInt32).toNat ≤ 3 by decide
  exact (roundTrips_iff hp (by decide)).2 (by decide)

theorem not_roundTrips_of_length {bytes : List UInt8} (h : bytes.length = 2 ^ 28) :
    ¬Packet.RoundTrips ⟨1, 2, 3, 4, 5, 6, 7, 8, 9, .data bytes 268435456⟩ SIGNING_MODE_NONE
      ENCRYPT_MODE_BODY := by
  have hlen : (bytes.take (268435456 : UInt32).toNat).length = 2 ^ 28 :=
    List.length_take_of_le h.ge |>.trans (by decide)
  have hbody : 2 ^ 28 = 16777216 * 16 := by decide
  apply not_roundTrips_of_whole
  · exact h.ge
  · simp only [serializedPacketSize, Body.content, Body.getPktType, hlen]
    decide
  · simp only [Body.content, Body.getPktType, hlen]
    decide
  · simp only [Body.content, hlen]
    decide

/-- An encrypted DATA packet of 2^28 zero bytes does not arrive. -/
theorem not_roundTrips_zeros :
    ¬Packet.RoundTrips ⟨1, 2, 3, 4, 5, 6, 7, 8, 9, .data (List.replicate (2 ^ 28) 0) 268435456⟩
      SIGNING_MODE_NONE ENCRYPT_MODE_BODY :=
  not_roundTrips_of_length List.length_replicate

end Packet

end PersonalCloud.Ts2.Codec
