import PersonalCloud.Ts2.Packet.Authentication

/-!
# Packets with inconsistent sizes

`packetSize` says how much of a packet is read, `dataSize` and the flags say how much of that
is decrypted, hashed and compared. Nothing holds the two together: the size of the payload is
handed to `Packet_verify_pkt`, which does not look at it. `boundsSafe_iff` says for which
headers reception stays within the payload.
-/

namespace PersonalCloud.Ts2.Codec

open PersonalCloud.Lib

/-- The payload takes in all that the header makes the receiver look at. The name of a SYN is
within a payload that has its signature behind the data. -/
structure Fits (hdr : HeaderOnWire) (payloadSize : Nat) : Prop where
  blocks : hdr.flag0 &&& TS_PKT_FLAG0_ENCRYPTED_DATA ≠ 0 →
    16 * numBlocks (hashData hdr) ≤ payloadSize
  pad : recvPadLen hdr > 0 → hashData hdr ≤ payloadSize
  hash : hdr.flag0 &&& TS_PKT_FLAG0_SIGNED_ALL ≠ 0 → hashData hdr + TS_HMAC_SIZE ≤ payloadSize
  name : hdr.flag0 &&& TS_PKT_FLAG0_SIGNED_ALL = 0 → hdr.type = TS_PKT_SYN →
    hdr.dataSize.toNat ≤ payloadSize

namespace Socket

/-- The socket delivers a whole header. -/
def HasHeader (socket : Socket) : Prop := headerSize ≤ socket.incoming.length

/-- What `payloadSize` is before it is taken modulo the range of a `size_t`. -/
def payloadSize (socket : Socket) : Int := socket.hdr.packetSize.toNat - (headerSize : Int)

theorem Complete.length_payload {socket : Socket} (h : socket.Complete) :
    socket.payload.length = socket.hdr.packetSize.toNat - headerSize := by
  have hpacket := h.packetSize
  have hlen := h.payload
  rw [Socket.payload, List.length_take, List.length_drop]
  omega

end Socket

variable {c : Crypto} {signMode encMode : UInt8} {signKey encKey : List UInt8}

/-- Reception gives a packet or an error and does not leave the payload on the way, and the
size of the payload, once there is a header, is not negative. -/
structure BoundsSafe (c : Crypto) (signMode encMode : UInt8) (signKey encKey : List UInt8)
    (socket : Socket) : Prop where
  within : recvTsPacket c signMode encMode signKey encKey socket ≠ .error .outOfBounds
  noWrap : socket.HasHeader → 0 ≤ socket.payloadSize

/-! ## The stages -/

theorem recvUntilFull_ne_outOfBounds {socket : Socket} {size : Nat} :
    recvUntilFull socket size ≠ .error .outOfBounds := by
  unfold recvUntilFull
  split_ifs <;> simp

/-- Of a packet that does not come whole nothing is looked at. -/
theorem recvTsPacket_of_not_complete {socket : Socket} (h : ¬socket.Complete) :
    recvTsPacket c signMode encMode signKey encKey socket ≠ .error .outOfBounds := by
  intro hout
  unfold recvTsPacket at hout
  split at hout
  next e herror =>
    cases hout
    exact recvUntilFull_ne_outOfBounds herror
  next header rest hfirst =>
    have hheader : headerSize ≤ socket.incoming.length := exists_recvUntilFull_iff.1 ⟨_, hfirst⟩
    rw [recvUntilFull, if_pos hheader] at hfirst
    cases hfirst
    have hhdr : HeaderOnWire.ofWire (socket.incoming.take headerSize) = socket.hdr := rfl
    simp only [hhdr] at hout
    split at hout
    · cases hout
    next hsize =>
      split at hout
      next e herror =>
        cases hout
        exact recvUntilFull_ne_outOfBounds herror
      next payload rest' hsecond =>
        have hpayload := exists_recvUntilFull_iff.1 ⟨_, hsecond⟩
        rw [List.length_drop] at hpayload
        exact h ⟨hheader, by omega, by omega⟩

section Stages

variable {E : Equiv.Perm Block} {hdr : HeaderOnWire} {header payload out data : List UInt8}
  {dataSize : UInt32}

theorem decryptPayload_eq_error {e : RecvErr} (h : decryptPayload E hdr payload = .error e) :
    e = .outOfBounds := by
  unfold decryptPayload at h
  split at h
  · simp only at h
    split_ifs at h <;> cases h <;> rfl
  · cases h

theorem deserialize_ne_outOfBounds_iff :
    deserialize hdr data dataSize ≠ .error .outOfBounds ↔
      (hdr.type = TS_PKT_SYN → dataSize.toNat ≤ data.length) := by
  have hbody : deserialize hdr data dataSize ≠ .error .outOfBounds ↔
      deserializeBody hdr data dataSize ≠ .error .outOfBounds := by
    unfold deserialize
    cases deserializeBody hdr data dataSize <;> simp
  rw [hbody]
  unfold deserializeBody
  split_ifs with hsyn hlen <;> simp_all

/-- Verification leaves the payload exactly if decryption does or the signature is looked for
behind its end. -/
theorem packetVerifyPkt_ne_outOfBounds_iff (hhdr : hdr = .ofWire header) :
    packetVerifyPkt c signMode encMode signKey encKey header payload ≠ .error .outOfBounds ↔
      (∃ out, decryptPayload (c.aes encKey) hdr payload = .ok out) ∧
      (hdr.flag0 &&& TS_PKT_FLAG0_SIGNED_ALL ≠ 0 →
        hashData hdr + TS_HMAC_SIZE ≤ payload.length) := by
  subst hhdr
  cases hdec : decryptPayload (c.aes encKey) (.ofWire header) payload with
  | error e =>
    have he := decryptPayload_eq_error hdec
    subst he
    simp [packetVerifyPkt, hdec]
  | ok out =>
    obtain ⟨hlen, -⟩ := drop_decryptPayload hdec
    simp only [packetVerifyPkt, hdec, hlen]
    split_ifs with hsigned hbound htag
    · exact iff_of_false (fun h => h rfl) fun h => absurd (h.2 hsigned) (by omega)
    · exact iff_of_true (by simp) ⟨⟨out, rfl⟩, fun _ => by omega⟩
    · exact iff_of_true (by simp) ⟨⟨out, rfl⟩, fun _ => by omega⟩
    · exact iff_of_true (by simp) ⟨⟨out, rfl⟩, fun h => absurd h hsigned⟩

/-- Verification does not refuse a packet whose flags say that nothing is signed. -/
theorem packetVerifyPkt_unsigned (hhdr : hdr = .ofWire header)
    (hflag : hdr.flag0 &&& TS_PKT_FLAG0_SIGNED_ALL = 0)
    (hdec : decryptPayload (c.aes encKey) hdr payload = .ok out) :
    packetVerifyPkt c signMode encMode signKey encKey header payload = .ok out :=
  (packetVerifyPkt_eq_ok_iff hhdr).2 ⟨hdec, fun h => absurd hflag h⟩

end Stages

/-! ## Reception -/

theorem recvTsPacket_ne_outOfBounds_iff {socket : Socket} (h : socket.Complete) :
    recvTsPacket c signMode encMode signKey encKey socket ≠ .error .outOfBounds ↔
      Fits socket.hdr socket.payload.length := by
  have hhdr : socket.hdr = .ofWire socket.header := rfl
  rw [recvTsPacket_of_complete h]
  constructor
  · intro hne
    have hverify : packetVerifyPkt c signMode encMode signKey encKey socket.header
        socket.payload ≠ .error .outOfBounds := by
      intro hout
      rw [hout] at hne
      exact hne rfl
    obtain ⟨⟨out, hdec⟩, hhash⟩ := (packetVerifyPkt_ne_outOfBounds_iff hhdr).1 hverify
    obtain ⟨hblocks, hpad⟩ := exists_decryptPayload_iff.1 ⟨out, hdec⟩
    refine ⟨hblocks, hpad, hhash, fun hflag hsyn => ?_⟩
    rw [packetVerifyPkt_unsigned hhdr hflag hdec] at hne
    rw [← (drop_decryptPayload hdec).1]
    exact deserialize_ne_outOfBounds_iff.1 hne hsyn
  · intro hfits
    have hdec : ∃ out, decryptPayload (c.aes encKey) socket.hdr socket.payload = .ok out :=
      exists_decryptPayload_iff.2 ⟨hfits.blocks, hfits.pad⟩
    have hverify : packetVerifyPkt c signMode encMode signKey encKey socket.header
        socket.payload ≠ .error .outOfBounds :=
      (packetVerifyPkt_ne_outOfBounds_iff hhdr).2 ⟨hdec, hfits.hash⟩
    split
    next e he =>
      rw [he] at hverify
      exact fun hout => hverify (by cases hout; rfl)
    next payload hok =>
      obtain ⟨hdec', -⟩ := (packetVerifyPkt_eq_ok_iff hhdr).1 hok
      refine deserialize_ne_outOfBounds_iff.2 fun hsyn => ?_
      rw [(drop_decryptPayload hdec').1]
      by_cases hflag : socket.hdr.flag0 &&& TS_PKT_FLAG0_SIGNED_ALL = 0
      · exact hfits.name hflag hsyn
      · have hhash := hfits.hash hflag
        unfold hashData at hhash
        omega

/-- Reception is safe exactly if a header that comes whole tells at least its own size, and,
when the rest comes too, sizes and flags that fit the payload. -/
theorem boundsSafe_iff (c : Crypto) (signMode encMode : UInt8) (signKey encKey : List UInt8)
    (socket : Socket) :
    BoundsSafe c signMode encMode signKey encKey socket ↔
      (socket.HasHeader → headerSize ≤ socket.hdr.packetSize.toNat) ∧
      (socket.Complete → Fits socket.hdr (socket.hdr.packetSize.toNat - headerSize)) := by
  have hwrap : 0 ≤ socket.payloadSize ↔ headerSize ≤ socket.hdr.packetSize.toNat := by
    unfold Socket.payloadSize
    omega
  constructor
  · rintro ⟨hwithin, hnowrap⟩
    refine ⟨fun h => hwrap.1 (hnowrap h), fun h => ?_⟩
    rw [← h.length_payload]
    exact (recvTsPacket_ne_outOfBounds_iff h).1 hwithin
  · rintro ⟨hnowrap, hfits⟩
    refine ⟨?_, fun h => hwrap.2 (hnowrap h)⟩
    by_cases h : socket.Complete
    · refine (recvTsPacket_ne_outOfBounds_iff h).2 ?_
      rw [h.length_payload]
      exact hfits h
    · exact recvTsPacket_of_not_complete h

/-- The header of an encrypted DATA packet of 64 bytes, with a payload of one byte. -/
def shortSocket : Socket where
  incoming := HeaderOnWire.bytes ⟨1, TS_PKT_DATA, TS_PKT_FLAG0_ENCRYPTED_DATA, 0, 69,
    1, 2, 3, 4, 5, 6, 7, 8, 9, 64, 0⟩ ++ [10]
  ending := 0

/-- Its payload is decrypted in place, four blocks of it. -/
theorem not_boundsSafe_shortSocket :
    ¬∀ (c : Crypto) (socket : Socket),
      BoundsSafe c SIGNING_MODE_FULL ENCRYPT_MODE_BODY [] [] socket := by
  intro h
  exact (h ⟨fun _ _ => Vector.replicate 20 0, fun _ => 1⟩ shortSocket).within (by decide)

end PersonalCloud.Ts2.Codec
