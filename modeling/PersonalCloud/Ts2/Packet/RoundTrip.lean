import Mathlib.Tactic.SplitIfs
import PersonalCloud.Ts2.Packet.Encryption

/-!
# What is sent is received

`Packet.RoundTrips` says that a packet serialized under given modes into a buffer of
`GetSerializeBufSize()` bytes is received as it was, whatever the keys, the cipher, the hash
and what the buffer held. `roundTrips_iff` says for which packets it holds: all but the
encrypted DATA packets of more than 2^28 - 16 bytes.
-/

namespace PersonalCloud.Ts2.Codec

open PersonalCloud.Lib

@[simp] theorem length_computeHmac (c : Crypto) (key message : List UInt8) :
    (computeHmac c key message).length = TS_HMAC_SIZE := by
  rw [computeHmac, List.length_take, Vector.length_toList]
  rfl

/-! ## Flags -/

section Flags

variable (signMode : UInt8) {pktType encMode : UInt8} {bodySize : Nat}

/-- What each test of `flag[0]` says about the modes that set it. -/
theorem flag0_tests :
    let flag0 := signFlag signMode ||| encryptFlag pktType bodySize encMode
    (flag0 &&& TS_PKT_FLAG0_ENCRYPTED_DATA ≠ 0 ↔ Encrypts pktType bodySize encMode) ∧
      (flag0 &&& TS_PKT_FLAG0_SIGNED_ALL ≠ 0 ↔ signMode ≠ SIGNING_MODE_NONE) ∧
      (flag0 &&& TS_PKT_FLAG0_SIGNED_HEADER ≠ 0 ↔ signMode ≠ SIGNING_MODE_NONE) ∧
      (flag0 &&& TS_PKT_FLAG0_SIGNED_DATA ≠ 0 ↔
        signMode ≠ SIGNING_MODE_NONE ∧ signMode ≠ SIGNING_MODE_HEADER_ONLY) := by
  by_cases hs : signMode = SIGNING_MODE_NONE <;>
    by_cases hh : signMode = SIGNING_MODE_HEADER_ONLY <;>
    by_cases he : Encrypts pktType bodySize encMode <;>
    simp only [signFlag, encryptFlag, ne_eq, hs, hh, he, not_true, not_false_iff, if_true,
      if_false, iff_true, iff_false] <;> decide

theorem flag0_encrypted :
    (signFlag signMode ||| encryptFlag pktType bodySize encMode) &&&
        TS_PKT_FLAG0_ENCRYPTED_DATA ≠ 0 ↔ Encrypts pktType bodySize encMode :=
  (flag0_tests signMode).1

theorem flag0_signedAll :
    (signFlag signMode ||| encryptFlag pktType bodySize encMode) &&&
        TS_PKT_FLAG0_SIGNED_ALL ≠ 0 ↔ signMode ≠ SIGNING_MODE_NONE :=
  (flag0_tests signMode).2.1

/-- The flags say what the mode signs. -/
theorem signedByFlags_eq (h : signMode ≠ SIGNING_MODE_NONE) (header data : List UInt8) :
    signedByFlags (signFlag signMode ||| encryptFlag pktType bodySize encMode) header data =
      signedPart signMode header data := by
  obtain ⟨-, -, hheader, hdata⟩ := @flag0_tests signMode pktType encMode bodySize
  simp only [signedByFlags, signedPart, hheader, hdata, if_pos h]
  by_cases hh : signMode = SIGNING_MODE_HEADER_ONLY
  · simp [hh]
  · simp [h, hh]

end Flags

/-! ## A packet on the wire -/

theorem length_hashLen_le (signMode : UInt8) : hashLen signMode ≤ TS_HMAC_SIZE := by
  unfold hashLen
  split <;> simp

namespace Packet

section Serialize

variable (p : Packet) (signMode encMode : UInt8) (c : Crypto) (signKey encKey body : List UInt8)

/-- The signature at the end of a packet, empty where the mode signs nothing. -/
def signature : List UInt8 :=
  if signMode ≠ SIGNING_MODE_NONE then
    computeHmac c signKey (signedPart signMode (p.header signMode encMode body).bytes body)
  else []

@[simp] theorem length_signature :
    (p.signature signMode encMode c signKey body).length = hashLen signMode := by
  unfold signature hashLen
  split
  · exact length_computeHmac _ _ _
  · rfl

/-- Header and signature are written around the area of the body. -/
theorem sign_append {h area old rest header : List UInt8} {size : Nat}
    (hheader : header = (p.header signMode encMode body).bytes) (hh : h.length = headerSize)
    (hold : old.length = hashLen signMode)
    (hsize : size = headerSize + area.length + hashLen signMode) :
    (if signMode ≠ SIGNING_MODE_NONE then
      writeAt (writeAt (h ++ (area ++ (old ++ rest))) 0 header) (size - hashLen signMode)
        (computeHmac c signKey (signedPart signMode header body))
      else writeAt (h ++ (area ++ (old ++ rest))) 0 header) =
      header ++ (area ++ (p.signature signMode encMode c signKey body ++ rest)) := by
  have hlen : header.length = h.length := by
    rw [hheader, HeaderOnWire.length_bytes, hh]
  have hoff : size - hashLen signMode = header.length + area.length := by
    omega
  rw [writeAt_front hlen, signature, ← hheader]
  split
  next hmode =>
    have htag : (computeHmac c signKey (signedPart signMode header body)).length = old.length := by
      rw [length_computeHmac, hold, hashLen, if_pos hmode]
    rw [hoff, writeAt_append_right (Nat.le_add_right _ _), Nat.add_sub_cancel_left,
      writeAt_append_right (Nat.le_refl _), Nat.sub_self, writeAt_front htag]
  next hmode =>
    have hnil : old = [] := by
      rw [← List.length_eq_zero_iff, hold, hashLen, if_neg hmode]
    rw [hnil]

/-- What `serialize` leaves in a buffer that is large enough: header, body and signature, and
behind them what was there. -/
theorem serialize_append {h area old rest : List UInt8} {randomness : UInt32}
    (hh : h.length = headerSize)
    (harea : area.length = body.length + sendPadLen p.body.getPktType body.length encMode)
    (hold : old.length = hashLen signMode) :
    p.serialize signMode encMode c body signKey encKey randomness
        (h ++ (area ++ (old ++ rest))) =
      let header := (p.header signMode encMode body).bytes
      let behind := p.signature signMode encMode c signKey body ++ rest
      let size := p.serializedPacketSize signMode encMode body
      if Encrypts p.body.getPktType body.length encMode then
        let E := c.aes encKey
        let iv := computeIv E p.seqNum p.srcVtId p.dstVtId
        let written := encryptBody E iv body randomness (area ++ behind)
        .ok ⟨header ++ written.1, size, written.2⟩
      else .ok ⟨header ++ (body ++ behind), size, randomness⟩ := by
  have hlen : (p.header signMode encMode body).bytes.length = headerSize :=
    HeaderOnWire.length_bytes _
  have hsize : p.serializedPacketSize signMode encMode body =
      headerSize + area.length + hashLen signMode := by
    rw [serializedPacketSize, harea, Nat.add_assoc headerSize]
  have hfits : ¬(h ++ (area ++ (old ++ rest))).length <
      p.serializedPacketSize signMode encMode body := by
    simp only [List.length_append]
    omega
  simp only [serialize, if_neg hfits,
    sign_append p signMode encMode c signKey body rfl hh hold hsize]
  split
  · rw [List.take_left' hlen, List.drop_left' hlen]
  next henc =>
    have hbody : body.length = area.length := by
      rw [harea, sendPadLen, if_neg henc, Nat.add_zero]
    rw [writeAt_append_right hlen.le, hlen, Nat.sub_self, writeAt_front hbody]

end Serialize

end Packet

/-- A packet whose header tells its size is taken from the wire whole. -/
theorem recvTsPacket_wire {c : Crypto} {signMode encMode : UInt8} {signKey encKey : List UInt8}
    {hdr : HeaderOnWire} {payload rest : List UInt8} {ending : Int}
    (hsize : hdr.packetSize.toNat = headerSize + payload.length) :
    recvTsPacket c signMode encMode signKey encKey ⟨hdr.bytes ++ (payload ++ rest), ending⟩ =
      match packetVerifyPkt c signMode encMode signKey encKey hdr.bytes payload with
      | .error e => .error e
      | .ok payload => deserialize hdr payload hdr.dataSize := by
  have hlen := HeaderOnWire.length_bytes hdr
  have hfirst : recvUntilFull ⟨hdr.bytes ++ (payload ++ rest), ending⟩ headerSize =
      .ok (hdr.bytes, ⟨payload ++ rest, ending⟩) := by
    rw [recvUntilFull, if_pos (by simp), List.take_left' hlen, List.drop_left' hlen]
  have hsecond : recvUntilFull ⟨payload ++ rest, ending⟩ payload.length =
      .ok (payload, ⟨rest, ending⟩) := by
    rw [recvUntilFull, if_pos (by simp), List.take_left, List.drop_left]
  simp only [recvTsPacket, hfirst, HeaderOnWire.ofWire_bytes, hsize, Nat.add_sub_cancel_left,
    hsecond]
  refine (if_neg (by omega)).trans ?_
  cases packetVerifyPkt c signMode encMode signKey encKey hdr.bytes payload <;> rfl

namespace Packet

section Receive

variable {p : Packet} {signMode encMode : UInt8} {c : Crypto} {signKey encKey body : List UInt8}

theorem dataSize_header (hsize : body.length < 2 ^ 32) :
    (p.header signMode encMode body).dataSize.toNat = body.length :=
  UInt32.toNat_ofNat_of_lt' hsize

theorem packetSize_header (hsize : p.serializedPacketSize signMode encMode body < 2 ^ 32) :
    (p.header signMode encMode body).packetSize.toNat =
      p.serializedPacketSize signMode encMode body :=
  UInt32.toNat_ofNat_of_lt' hsize

theorem length_lt_of_serializedPacketSize
    (hsize : p.serializedPacketSize signMode encMode body < 2 ^ 32) : body.length < 2 ^ 32 := by
  unfold serializedPacketSize at hsize
  omega

theorem recvPadLen_header (hsize : body.length < 2 ^ 32) :
    recvPadLen (p.header signMode encMode body) =
      sendPadLen p.body.getPktType body.length encMode := by
  rw [recvPadLen, dataSize_header hsize]
  unfold sendPadLen header
  simp only [flag0_encrypted]

/-- The signature that was put there is found, whatever the padding became. -/
theorem packetVerifyPkt_header {payload pad : List UInt8} (hsize : body.length < 2 ^ 32)
    (hpad : pad.length = sendPadLen p.body.getPktType body.length encMode)
    (hdec : decryptPayload (c.aes encKey) (p.header signMode encMode body) payload =
      .ok (body ++ (pad ++ p.signature signMode encMode c signKey body))) :
    packetVerifyPkt c signMode encMode signKey encKey (p.header signMode encMode body).bytes
        payload =
      .ok (body ++ (pad ++ p.signature signMode encMode c signKey body)) := by
  have hdata : (p.header signMode encMode body).dataSize.toNat = body.length :=
    dataSize_header hsize
  have hflag : (p.header signMode encMode body).flag0 &&& TS_PKT_FLAG0_SIGNED_ALL ≠ 0 ↔
      signMode ≠ SIGNING_MODE_NONE := flag0_signedAll signMode
  simp only [packetVerifyPkt, HeaderOnWire.ofWire_bytes, hdec, hashData, hdata,
    recvPadLen_header hsize, ← hpad]
  split
  next h =>
    have hmode := hflag.1 h
    have hlen : (p.signature signMode encMode c signKey body).length = TS_HMAC_SIZE := by
      rw [length_signature, hashLen, if_pos hmode]
    have htag : ((body ++ (pad ++ p.signature signMode encMode c signKey body)).drop
        (body.length + pad.length)).take TS_HMAC_SIZE =
        computeHmac c signKey (signedPart signMode (p.header signMode encMode body).bytes body) := by
      rw [← List.append_assoc, List.drop_left' (by simp), ← hlen, List.take_length, signature,
        if_pos hmode]
    have hfits : ¬(body ++ (pad ++ p.signature signMode encMode c signKey body)).length <
        body.length + pad.length + TS_HMAC_SIZE := by
      simp only [List.length_append, hlen]
      omega
    have hpart : signedByFlags (p.header signMode encMode body).flag0
        (p.header signMode encMode body).bytes body =
        signedPart signMode (p.header signMode encMode body).bytes body :=
      signedByFlags_eq signMode hmode _ _
    rw [if_neg hfits, List.take_left, hpart, htag, if_neg (fun hne => hne rfl)]
  next => rfl

/-- Two packets that agree in what the upper layer sees. -/
structure Same (q p : Packet) : Prop where
  ids : { q with body := p.body } = p
  type : q.body.getPktType = p.body.getPktType
  content : q.body.content = p.body.content

theorem deserialize_header {rest : List UInt8} (hsize : p.body.content.length < 2 ^ 32) :
    ∃ q, deserialize (p.header signMode encMode p.body.content) (p.body.content ++ rest)
        (p.header signMode encMode p.body.content).dataSize = .ok q ∧ q.Same p := by
  have hdata : (UInt32.ofNat p.body.content.length).toNat = p.body.content.length :=
    UInt32.toNat_ofNat_of_lt' hsize
  obtain ⟨srcDevId, srcInstId, srcVtId, dstDevId, dstInstId, dstVtId, seqNum, ackNum, windowSize,
    body⟩ := p
  cases body with
  | syn serviceName =>
    refine ⟨_, ?_, ⟨rfl, rfl, rfl⟩⟩
    simp only [deserialize, deserializeBody, header, Body.getPktType, hdata]
    simp [Body.content]
  | data bytes datasize =>
    refine ⟨_, rfl, ⟨rfl, rfl, ?_⟩⟩
    simp only [header, Body.content] at hdata ⊢
    rw [hdata, List.take_left]
  | synAck => exact ⟨_, rfl, rfl, rfl, rfl⟩
  | ack => exact ⟨_, rfl, rfl, rfl, rfl⟩
  | fin => exact ⟨_, rfl, rfl, rfl, rfl⟩
  | finAck => exact ⟨_, rfl, rfl, rfl, rfl⟩

/-- A packet whose payload decrypts to body, padding and signature is received from where
`serialize` put it. -/
theorem recvTsPacket_take {payload pad tail rest : List UInt8} {ending : Int}
    (hsize : p.serializedPacketSize signMode encMode p.body.content < 2 ^ 32)
    (hlen : headerSize + payload.length = p.serializedPacketSize signMode encMode p.body.content)
    (hpad : pad.length = sendPadLen p.body.getPktType p.body.content.length encMode)
    (hdec : decryptPayload (c.aes encKey) (p.header signMode encMode p.body.content) payload =
      .ok (p.body.content ++ (pad ++ p.signature signMode encMode c signKey p.body.content))) :
    ∃ q, recvTsPacket c signMode encMode signKey encKey
        ⟨((p.header signMode encMode p.body.content).bytes ++ (payload ++ tail)).take
          (p.serializedPacketSize signMode encMode p.body.content) ++ rest, ending⟩ =
      .ok q ∧ q.Same p := by
  have hbody := length_lt_of_serializedPacketSize hsize
  have htotal : (p.header signMode encMode p.body.content).packetSize.toNat =
      headerSize + payload.length := by
    rw [hlen, packetSize_header hsize]
  have htake : ((p.header signMode encMode p.body.content).bytes ++ (payload ++ tail)).take
      (p.serializedPacketSize signMode encMode p.body.content) =
        (p.header signMode encMode p.body.content).bytes ++ payload := by
    rw [← List.append_assoc, List.take_left' (by simp [hlen])]
  rw [htake, List.append_assoc, recvTsPacket_wire htotal, packetVerifyPkt_header hbody hpad hdec]
  exact deserialize_header hbody

/-- The data of a DATA packet that is received is what the payload was decrypted to. -/
theorem content_of_recvTsPacket {q : Packet} {payload rest : List UInt8} {ending : Int}
    {hdr : HeaderOnWire} (htype : hdr.type = TS_PKT_DATA)
    (hsize : hdr.packetSize.toNat = headerSize + payload.length)
    (h : recvTsPacket c signMode encMode signKey encKey
      ⟨hdr.bytes ++ (payload ++ rest), ending⟩ = .ok q) :
    ∃ decrypted, decryptPayload (c.aes encKey) hdr payload = .ok decrypted ∧
      q.body.content = decrypted.take hdr.dataSize.toNat := by
  rw [recvTsPacket_wire hsize] at h
  split at h
  · cases h
  next decrypted hverify =>
    refine ⟨decrypted, ?_, ?_⟩
    · simp only [packetVerifyPkt, HeaderOnWire.ofWire_bytes] at hverify
      split at hverify
      · cases hverify
      next hdec =>
        rw [hdec]
        split at hverify
        · split at hverify
          · cases hverify
          · split at hverify
            · cases hverify
            · exact hverify
        · exact hverify
    · simp only [deserialize, deserializeBody, htype] at h
      cases h
      rfl

end Receive

end Packet

/-! ## Round trips -/

namespace Packet

def RoundTrips (p : Packet) (signMode encMode : UInt8) : Prop :=
  ∀ (c : Crypto) (signKey encKey : List UInt8) (randomness : UInt32) (buffer : List UInt8),
    buffer.length = p.getSerializeBufSize →
      ∃ s, p.Serialize signMode encMode c signKey encKey randomness buffer = .ok s ∧
        ∀ rest ending, ∃ q, recvTsPacket c signMode encMode signKey encKey
          ⟨s.buffer.take s.size ++ rest, ending⟩ = .ok q ∧ q.Same p

variable {p : Packet} {signMode encMode : UInt8}

/-- The buffer asked for is large enough under every mode. -/
theorem serializedPacketSize_le (hp : p.body.Allocated) :
    p.serializedPacketSize signMode encMode p.body.content ≤ p.getSerializeBufSize := by
  have hhash := length_hashLen_le signMode
  have hpad : ∀ n, sendPadLen TS_PKT_DATA n encMode ≤ TS_CODEC_UNIT := by
    intro n
    have := padLen_lt n
    unfold sendPadLen
    split
    · exact Nat.le_of_lt this
    · exact Nat.zero_le _
  have hnone : ∀ t n, t ≠ TS_PKT_DATA → sendPadLen t n encMode = 0 := by
    intro t n ht
    exact if_neg fun h => ht h.2.2
  unfold serializedPacketSize getSerializeBufSize
  cases hbody : p.body with
  | data bytes datasize =>
    have hlen : (bytes.take datasize.toNat).length = datasize.toNat := by
      rw [hbody] at hp
      exact List.length_take_of_le hp
    have := hpad datasize.toNat
    simp only [Body.content, Body.getPktType, hlen]
    omega
  | syn serviceName =>
    simp only [Body.content, Body.getPktType, hnone TS_PKT_SYN _ (by decide)]
    omega
  | synAck => exact Nat.add_le_add_left hhash _
  | ack => exact Nat.add_le_add_left hhash _
  | fin => exact Nat.add_le_add_left hhash _
  | finAck => exact Nat.add_le_add_left hhash _

/-- The parts of a buffer that `serialize` writes, and the rest of it. -/
theorem exists_parts {body buffer : List UInt8}
    (h : p.serializedPacketSize signMode encMode body ≤ buffer.length) :
    ∃ hd area old rest, buffer = hd ++ (area ++ (old ++ rest)) ∧ hd.length = headerSize ∧
      area.length = body.length + sendPadLen p.body.getPktType body.length encMode ∧
      old.length = hashLen signMode := by
  unfold serializedPacketSize at h
  set n := body.length + sendPadLen p.body.getPktType body.length encMode with hn
  refine ⟨buffer.take headerSize, (buffer.drop headerSize).take n,
    ((buffer.drop headerSize).drop n).take (hashLen signMode),
    ((buffer.drop headerSize).drop n).drop (hashLen signMode), ?_, ?_, ?_, ?_⟩
  · simp only [List.take_append_drop]
  all_goals
    simp only [List.length_take, List.length_drop]
    omega

theorem roundTrips_of_lt (hp : p.body.Allocated)
    (hsize : p.serializedPacketSize signMode encMode p.body.content < 2 ^ 32)
    (h : Encrypts p.body.getPktType p.body.content.length encMode →
      p.body.content.length + padLen p.body.content.length < 2 ^ 28) :
    p.RoundTrips signMode encMode := by
  intro c signKey encKey randomness buffer hbuffer
  have hfits : p.serializedPacketSize signMode encMode p.body.content ≤ buffer.length :=
    hbuffer ▸ serializedPacketSize_le hp
  obtain ⟨hd, area, old, rest, rfl, hhd, harea, hold⟩ := exists_parts hfits
  set body := p.body.content with hbody
  set sig := p.signature signMode encMode c signKey body with hsig
  rw [Serialize, serialize_append p signMode encMode c signKey encKey body hhd harea hold]
  by_cases henc : Encrypts p.body.getPktType body.length encMode
  · have hpad : sendPadLen p.body.getPktType body.length encMode = padLen body.length :=
      if_pos henc
    have hlt := h henc
    have hlen : headerSize + (cipherText (c.aes encKey)
        (computeIv (c.aes encKey) p.seqNum p.srcVtId p.dstVtId) body randomness ++ sig).length =
        p.serializedPacketSize signMode encMode body := by
      rw [List.length_append, length_cipherText, hsig, length_signature, serializedPacketSize, hpad]
      omega
    have hzero : (List.replicate (padLen body.length) (0 : UInt8)).length =
        sendPadLen p.body.getPktType body.length encMode := by
      rw [List.length_replicate, hpad]
    simp only [if_pos henc]
    rw [encryptBody_eq (hpad ▸ harea) (by omega), ← List.append_assoc (cipherText _ _ _ _)]
    refine ⟨_, rfl, fun rest' ending => ?_⟩
    apply recvTsPacket_take hsize hlen hzero
    exact decryptPayload_cipherText ((flag0_encrypted signMode).2 henc)
      (dataSize_header (length_lt_of_serializedPacketSize hsize)) hlt rfl
  · have hpad : ([] : List UInt8).length = sendPadLen p.body.getPktType body.length encMode :=
      (if_neg henc).symm
    have hlen : headerSize + (body ++ sig).length =
        p.serializedPacketSize signMode encMode body := by
      rw [List.length_append, hsig, length_signature, serializedPacketSize, ← hpad,
        List.length_nil]
      omega
    have hdec : decryptPayload (c.aes encKey) (p.header signMode encMode body) (body ++ sig) =
        .ok (body ++ ([] ++ sig)) := by
      apply decryptPayload_plain
      rw [← not_ne_iff]
      exact fun hne => henc ((flag0_encrypted signMode).1 hne)
    simp only [if_neg henc]
    rw [← List.append_assoc body]
    exact ⟨_, rfl, fun rest' ending => recvTsPacket_take hsize hlen hpad hdec⟩

end Packet

end PersonalCloud.Ts2.Codec
