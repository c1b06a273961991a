import PersonalCloud.Ts2.Packet.RoundTrip

/-!
# What a received packet is verified by

`Packet_verify_pkt` takes from the header which parts are signed, not from the mode that was
negotiated. `exists_recvTsPacket_iff` says which packets are handed to the upper layer,
`authentic_iff` when that implies a signature as the mode asks for it: the flags select what
the mode signs, and the signature lies at the end of the payload.
-/

namespace PersonalCloud.Ts2.Codec

open PersonalCloud.Lib

namespace Socket

/-- The header of the packet that a socket delivers. -/
def header (socket : Socket) : List UInt8 :=
  socket.incoming.take headerSize

def hdr (socket : Socket) : HeaderOnWire :=
  .ofWire socket.header

/-- The bytes behind the header that `packetSize` takes in. -/
def payload (socket : Socket) : List UInt8 :=
  (socket.incoming.drop headerSize).take (socket.hdr.packetSize.toNat - headerSize)

/-- The socket delivers a packet whole. -/
structure Complete (socket : Socket) : Prop where
  header : headerSize ≤ socket.incoming.length
  packetSize : headerSize ≤ socket.hdr.packetSize.toNat
  payload : socket.hdr.packetSize.toNat ≤ socket.incoming.length

end Socket

/-- The payload is as large as the header leads to and the type of the packet is known. -/
structure Deliverable (hdr : HeaderOnWire) (payload : List UInt8) : Prop where
  blocks : hdr.flag0 &&& TS_PKT_FLAG0_ENCRYPTED_DATA ≠ 0 →
    16 * numBlocks (hashData hdr) ≤ payload.length
  pad : recvPadLen hdr > 0 → hashData hdr ≤ payload.length
  hash : hdr.flag0 &&& TS_PKT_FLAG0_SIGNED_ALL ≠ 0 →
    hashData hdr + TS_HMAC_SIZE ≤ payload.length
  type : hdr.type ∈ [TS_PKT_SYN, TS_PKT_SYN_ACK, TS_PKT_ACK, TS_PKT_DATA, TS_PKT_FIN,
    TS_PKT_FIN_ACK]
  name : hdr.type = TS_PKT_SYN → hdr.dataSize.toNat ≤ payload.length

/-- The data of a packet, decrypted if its flags say that it is encrypted. -/
def plaintext (E : Equiv.Perm Block) (hdr : HeaderOnWire) (payload : List UInt8) : List UInt8 :=
  match decryptPayload E hdr payload with
  | .error _ => []
  | .ok decrypted => decrypted.take hdr.dataSize.toNat

/-! ## Decryption -/

section Decrypt

variable {E : Equiv.Perm Block} {hdr : HeaderOnWire} {payload decrypted : List UInt8}

/-- When decrypting stays within the payload. -/
theorem exists_decryptPayload_iff :
    (∃ decrypted, decryptPayload E hdr payload = .ok decrypted) ↔
      (hdr.flag0 &&& TS_PKT_FLAG0_ENCRYPTED_DATA ≠ 0 →
        16 * numBlocks (hashData hdr) ≤ payload.length) ∧
      (recvPadLen hdr > 0 → hashData hdr ≤ payload.length) := by
  unfold decryptPayload hashData recvPadLen
  split
  next henc =>
    simp only
    split_ifs with hblocks hpad
    · refine iff_of_false nofun fun h => ?_
      have := h.1 henc
      omega
    · refine iff_of_false nofun fun h => ?_
      have := h.2 hpad.1
      omega
    · refine iff_of_true ⟨_, rfl⟩ ⟨fun _ => by omega, fun hpos => ?_⟩
      omega
  next henc =>
    exact iff_of_true ⟨_, rfl⟩ ⟨fun h => absurd h henc, fun h => absurd h (Nat.lt_irrefl 0)⟩

theorem plaintext_eq (h : decryptPayload E hdr payload = .ok decrypted) :
    plaintext E hdr payload = decrypted.take hdr.dataSize.toNat := by
  rw [plaintext, h]

/-- Decrypting leaves the length, and the bytes behind data and padding. -/
theorem drop_decryptPayload (h : decryptPayload E hdr payload = .ok decrypted) :
    decrypted.length = payload.length ∧
      decrypted.drop (hashData hdr) = payload.drop (hashData hdr) := by
  unfold decryptPayload at h
  unfold hashData recvPadLen
  split at h
  next henc =>
    rw [if_pos henc]
    simp only at h
    split_ifs at h with hblocks hpad
    cases h
    set cipher := aesSwDecrypt E (computeIv E hdr.seqNum hdr.srcVtId hdr.dstVtId) payload
      (hdr.dataSize.toNat + padLen hdr.dataSize.toNat) with hcipher
    have hle := numBlocks_mul_le (hdr.dataSize.toNat + padLen hdr.dataSize.toNat)
    have hlen : cipher.length = 16 * numBlocks (hdr.dataSize.toNat + padLen hdr.dataSize.toNat) :=
      length_aesSwDecrypt _ _
    have hfirst : (writeAt payload 0 cipher).length = payload.length :=
      length_writeAt (by omega)
    rcases Nat.eq_zero_or_pos (padLen hdr.dataSize.toNat) with hzero | hpos
    · rw [hzero, List.replicate_zero, writeAt_nil]
      exact ⟨hfirst, drop_writeAt (by omega) (Nat.zero_le _)⟩
    · constructor
      · rw [length_writeAt, hfirst]
        rw [hfirst, List.length_replicate]
        omega
      · rw [drop_writeAt, drop_writeAt (by omega) (Nat.zero_le _)]
        · rw [List.length_replicate]
        · omega
  next henc =>
    cases h
    exact ⟨rfl, rfl⟩

end Decrypt

/-! ## Reception -/

theorem exists_recvUntilFull_iff {socket : Socket} {size : Nat} :
    (∃ r, recvUntilFull socket size = .ok r) ↔ size ≤ socket.incoming.length := by
  unfold recvUntilFull
  split_ifs with h₁ h₂ h₃
  · exact iff_of_true ⟨_, rfl⟩ h₁
  · exact iff_of_false nofun h₁
  · exact iff_of_false nofun h₁
  · exact iff_of_false nofun h₁

/-- What is received of a packet that comes whole is verified and handed on. -/
theorem recvTsPacket_of_complete {c : Crypto} {signMode encMode : UInt8}
    {signKey encKey : List UInt8} {socket : Socket} (h : socket.Complete) :
    recvTsPacket c signMode encMode signKey encKey socket =
      match packetVerifyPkt c signMode encMode signKey encKey socket.header socket.payload with
      | .error e => .error e
      | .ok payload => deserialize socket.hdr payload socket.hdr.dataSize := by
  have hpacket := h.packetSize
  have hpayload := h.payload
  have hrest : socket.hdr.packetSize.toNat - headerSize ≤
      (socket.incoming.drop headerSize).length := by
    rw [List.length_drop]
    omega
  have hfirst : recvUntilFull socket headerSize =
      .ok (socket.header, ⟨socket.incoming.drop headerSize, socket.ending⟩) :=
    if_pos h.header
  have hsecond : recvUntilFull ⟨socket.incoming.drop headerSize, socket.ending⟩
      (socket.hdr.packetSize.toNat - headerSize) =
      .ok (socket.payload, ⟨_, socket.ending⟩) := if_pos hrest
  have hhdr : HeaderOnWire.ofWire socket.header = socket.hdr := rfl
  simp only [recvTsPacket, hfirst, hhdr, hsecond]
  refine (if_neg (by omega)).trans ?_
  cases packetVerifyPkt c signMode encMode signKey encKey socket.header socket.payload <;> rfl

theorem complete_of_recvTsPacket {c : Crypto} {signMode encMode : UInt8}
    {signKey encKey : List UInt8} {socket : Socket} {q : Packet}
    (h : recvTsPacket c signMode encMode signKey encKey socket = .ok q) : socket.Complete := by
  unfold recvTsPacket at h
  split at h
  · cases h
  next header rest hfirst =>
    have hheader : headerSize ≤ socket.incoming.length := exists_recvUntilFull_iff.1 ⟨_, hfirst⟩
    rw [recvUntilFull, if_pos hheader] at hfirst
    cases hfirst
    have hhdr : HeaderOnWire.ofWire (socket.incoming.take headerSize) = socket.hdr := rfl
    simp only [hhdr] at h
    split at h
    · cases h
    next hsize =>
      split at h
      · cases h
      next payload rest' hsecond =>
        have hpayload := exists_recvUntilFull_iff.1 ⟨_, hsecond⟩
        rw [List.length_drop] at hpayload
        exact ⟨hheader, by omega, by omega⟩

theorem packetVerifyPkt_eq_ok_iff {c : Crypto} {signMode encMode : UInt8}
    {signKey encKey header payload out : List UInt8} {hdr : HeaderOnWire}
    (hhdr : hdr = .ofWire header) :
    packetVerifyPkt c signMode encMode signKey encKey header payload = .ok out ↔
      decryptPayload (c.aes encKey) hdr payload = .ok out ∧
      (hdr.flag0 &&& TS_PKT_FLAG0_SIGNED_ALL ≠ 0 →
        hashData hdr + TS_HMAC_SIZE ≤ payload.length ∧
        (payload.drop (hashData hdr)).take TS_HMAC_SIZE =
          computeHmac c signKey
            (signedByFlags hdr.flag0 header (out.take hdr.dataSize.toNat))) := by
  subst hhdr
  cases hdec : decryptPayload (c.aes encKey) (.ofWire header) payload with
  | error e =>
    simp only [packetVerifyPkt, hdec, reduceCtorEq, false_and]
  | ok decrypted =>
    obtain ⟨hlen, hdrop⟩ := drop_decryptPayload hdec
    simp only [packetVerifyPkt, hdec, hlen, hdrop]
    split_ifs with hsigned hbound htag
    · simp only [false_iff]
      intro h
      have := (h.2 hsigned).1
      omega
    · simp only [false_iff]
      rintro ⟨hout, h⟩
      cases hout
      exact htag (h hsigned).2
    · constructor
      · intro h
        cases h
        exact ⟨rfl, fun _ => ⟨by omega, not_ne_iff.1 htag⟩⟩
      · exact fun h => h.1
    · constructor
      · exact fun h => ⟨h, fun hne => absurd hne hsigned⟩
      · exact fun h => h.1

theorem exists_deserialize_iff {hdr : HeaderOnWire} {data : List UInt8} {dataSize : UInt32} :
    (∃ q, deserialize hdr data dataSize = .ok q) ↔
      hdr.type ∈ [TS_PKT_SYN, TS_PKT_SYN_ACK, TS_PKT_ACK, TS_PKT_DATA, TS_PKT_FIN,
        TS_PKT_FIN_ACK] ∧
      (hdr.type = TS_PKT_SYN → dataSize.toNat ≤ data.length) := by
  have hbody : (∃ q, deserialize hdr data dataSize = .ok q) ↔
      ∃ b, deserializeBody hdr data dataSize = .ok b := by
    unfold deserialize
    cases deserializeBody hdr data dataSize <;> simp
  rw [hbody]
  unfold deserializeBody
  split_ifs with hsyn hlen h₂ h₃ h₄ h₅ h₆
  · exact iff_of_false nofun fun h => absurd (h.2 hsyn) (by omega)
  · exact iff_of_true ⟨_, rfl⟩ ⟨by simp [hsyn], fun _ => by omega⟩
  · exact iff_of_true ⟨_, rfl⟩ ⟨by simp [h₂], fun h => absurd h hsyn⟩
  · exact iff_of_true ⟨_, rfl⟩ ⟨by simp [h₃], fun h => absurd h hsyn⟩
  · exact iff_of_true ⟨_, rfl⟩ ⟨by simp [h₄], fun h => absurd h hsyn⟩
  · exact iff_of_true ⟨_, rfl⟩ ⟨by simp [h₅], fun h => absurd h hsyn⟩
  · exact iff_of_true ⟨_, rfl⟩ ⟨by simp [h₆], fun h => absurd h hsyn⟩
  · exact iff_of_false nofun fun h => by simp [hsyn, h₂, h₃, h₄, h₅, h₆] at h

/-- Which packets are handed to the upper layer. -/
theorem exists_recvTsPacket_iff {c : Crypto} {signMode encMode : UInt8}
    {signKey encKey : List UInt8} {socket : Socket} :
    (∃ q, recvTsPacket c signMode encMode signKey encKey socket = .ok q) ↔
      socket.Complete ∧ Deliverable socket.hdr socket.payload ∧
      (socket.hdr.flag0 &&& TS_PKT_FLAG0_SIGNED_ALL ≠ 0 →
        (socket.payload.drop (hashData socket.hdr)).take TS_HMAC_SIZE =
          computeHmac c signKey (signedByFlags socket.hdr.flag0 socket.header
            (plaintext (c.aes encKey) socket.hdr socket.payload))) := by
  have hhdr : socket.hdr = .ofWire socket.header := rfl
  constructor
  · rintro ⟨q, hq⟩
    have hcomplete := complete_of_recvTsPacket hq
    rw [recvTsPacket_of_complete hcomplete] at hq
    split at hq
    · cases hq
    next out hout =>
      obtain ⟨hdec, hsigned⟩ := (packetVerifyPkt_eq_ok_iff hhdr).1 hout
      obtain ⟨hblocks, hpad⟩ := exists_decryptPayload_iff.1 ⟨_, hdec⟩
      obtain ⟨htype, hname⟩ := exists_deserialize_iff.1 ⟨_, hq⟩
      refine ⟨hcomplete, ⟨hblocks, hpad, fun h => (hsigned h).1, htype, ?_⟩, fun h => ?_⟩
      · rw [← (drop_decryptPayload hdec).1]
        exact hname
      · rw [plaintext_eq hdec]
        exact (hsigned h).2
  · rintro ⟨hcomplete, hdeliver, hsigned⟩
    obtain ⟨out, hdec⟩ := exists_decryptPayload_iff.2 ⟨hdeliver.blocks, hdeliver.pad⟩
    rw [plaintext_eq hdec] at hsigned
    have hout : packetVerifyPkt c signMode encMode signKey encKey socket.header socket.payload =
        .ok out :=
      (packetVerifyPkt_eq_ok_iff hhdr).2 ⟨hdec, fun h => ⟨hdeliver.hash h, hsigned h⟩⟩
    rw [recvTsPacket_of_complete hcomplete, hout]
    refine exists_deserialize_iff.2 ⟨hdeliver.type, ?_⟩
    rw [(drop_decryptPayload hdec).1]
    exact hdeliver.name

/-! ## What the mode asks for -/

def Socket.trailing (socket : Socket) : List UInt8 :=
  socket.payload.drop (socket.payload.length - TS_HMAC_SIZE)

section Authentic

variable (aes : List UInt8 → Equiv.Perm Block) (signMode encMode : UInt8)
  (signKey encKey : List UInt8) (socket : Socket)

/-- Whatever the hash, a packet is handed to the upper layer only if it ends with the
signature of what the mode signs. -/
def Authentic : Prop :=
  ∀ hmacSha1 q, recvTsPacket ⟨hmacSha1, aes⟩ signMode encMode signKey encKey socket = .ok q →
    socket.trailing = computeHmac ⟨hmacSha1, aes⟩ signKey
      (signedPart signMode socket.header (plaintext (aes encKey) socket.hdr socket.payload))

/-- The flags of the header select what the mode signs, and the signature that they lead to
is the one at the end. -/
structure FlagsFollow : Prop where
  signed : socket.hdr.flag0 &&& TS_PKT_FLAG0_SIGNED_ALL ≠ 0
  part : signedByFlags socket.hdr.flag0 socket.header
    (plaintext (aes encKey) socket.hdr socket.payload) =
    signedPart signMode socket.header (plaintext (aes encKey) socket.hdr socket.payload)
  place : (socket.payload.drop (hashData socket.hdr)).take TS_HMAC_SIZE = socket.trailing

end Authentic

/-- A digest that begins with the given bytes. -/
def digestOf (tag : List UInt8) : Vector UInt8 20 :=
  .ofFn fun i => tag.getD i 0

theorem take_digestOf {tag : List UInt8} (h : tag.length = TS_HMAC_SIZE) :
    (digestOf tag).toList.take TS_HMAC_SIZE = tag := by
  apply List.ext_getElem
  · rw [List.length_take, Vector.length_toList, h]
    rfl
  · intro i h₁ h₂
    simp [digestOf, List.getElem?_eq_getElem h₂]

theorem exists_tag_ne (bs : List UInt8) : ∃ tag, tag.length = TS_HMAC_SIZE ∧ bs ≠ tag := by
  by_cases h : bs = List.replicate TS_HMAC_SIZE 0
  · refine ⟨List.replicate TS_HMAC_SIZE 1, List.length_replicate, ?_⟩
    rw [h]
    decide
  · exact ⟨_, List.length_replicate, h⟩

/-- There is a hash by which the packet is accepted and its end is no signature. -/
theorem exists_hash_of_not_flagsFollow {aes : List UInt8 → Equiv.Perm Block} {signMode : UInt8}
    {encKey : List UInt8} {socket : Socket} (hdeliver : Deliverable socket.hdr socket.payload)
    (h : ¬FlagsFollow aes signMode encKey socket) (signKey : List UInt8) :
    ∃ hmacSha1,
      (socket.hdr.flag0 &&& TS_PKT_FLAG0_SIGNED_ALL ≠ 0 →
        (socket.payload.drop (hashData socket.hdr)).take TS_HMAC_SIZE =
          computeHmac ⟨hmacSha1, aes⟩ signKey (signedByFlags socket.hdr.flag0 socket.header
            (plaintext (aes encKey) socket.hdr socket.payload))) ∧
      socket.trailing ≠ computeHmac ⟨hmacSha1, aes⟩ signKey
        (signedPart signMode socket.header (plaintext (aes encKey) socket.hdr socket.payload)) := by
  set looked := (socket.payload.drop (hashData socket.hdr)).take TS_HMAC_SIZE with hlooked
  set byFlags := signedByFlags socket.hdr.flag0 socket.header
    (plaintext (aes encKey) socket.hdr socket.payload)
  set byMode := signedPart signMode socket.header
    (plaintext (aes encKey) socket.hdr socket.payload)
  obtain ⟨tag, htag, hne⟩ := exists_tag_ne socket.trailing
  by_cases hsigned : socket.hdr.flag0 &&& TS_PKT_FLAG0_SIGNED_ALL ≠ 0
  · have hlen : looked.length = TS_HMAC_SIZE := by
      have := hdeliver.hash hsigned
      rw [hlooked, List.length_take, List.length_drop]
      omega
    by_cases hpart : byFlags = byMode
    · -- the hash of everything is what is found where the flags lead
      refine ⟨fun _ _ => digestOf looked, fun _ => (take_digestOf hlen).symm, fun htrail => ?_⟩
      exact h ⟨hsigned, hpart, (htrail.trans (take_digestOf hlen)).symm⟩
    · refine ⟨fun _ message => if message = byFlags then digestOf looked else digestOf tag,
        fun _ => ?_, ?_⟩
      · simp only [computeHmac, if_true]
        exact (take_digestOf hlen).symm
      · simp only [computeHmac, if_neg (Ne.symm hpart), take_digestOf htag]
        exact hne
  · refine ⟨fun _ _ => digestOf tag, fun h => absurd h hsigned, ?_⟩
    simp only [computeHmac, take_digestOf htag]
    exact hne

/-- A packet that is handed up is sure to carry the signature of the mode exactly if its
flags follow the mode. -/
theorem authentic_iff (aes : List UInt8 → Equiv.Perm Block) (signMode encMode : UInt8)
    (signKey encKey : List UInt8) (socket : Socket) :
    Authentic aes signMode encMode signKey encKey socket ↔
      (socket.Complete → Deliverable socket.hdr socket.payload →
        FlagsFollow aes signMode encKey socket) := by
  constructor
  · intro h hcomplete hdeliver
    by_contra hn
    obtain ⟨hmacSha1, haccept, htrail⟩ := exists_hash_of_not_flagsFollow hdeliver hn signKey
    obtain ⟨q, hq⟩ := exists_recvTsPacket_iff.2 ⟨hcomplete, hdeliver, haccept⟩
    exact htrail (h hmacSha1 q hq)
  · intro h hmacSha1 q hq
    obtain ⟨hcomplete, hdeliver, haccept⟩ := exists_recvTsPacket_iff.1 ⟨q, hq⟩
    obtain ⟨hsigned, hpart, hplace⟩ := h hcomplete hdeliver
    rw [← hplace, haccept hsigned, ← hpart]

/-- Three bytes of data and ten zeros, the flags of a packet that is not signed. -/
def unsignedSocket : Socket where
  incoming := HeaderOnWire.bytes ⟨1, TS_PKT_DATA, 0, 0, 81, 1, 2, 3, 4, 5, 6, 7, 8, 9, 3, 0⟩ ++
    ([10, 11, 12] ++ List.replicate 10 0)
  ending := 0

/-- It is handed up under a mode that signs everything. -/
theorem not_authentic_unsignedSocket :
    ¬Authentic (fun _ => 1) SIGNING_MODE_FULL ENCRYPT_MODE_BODY [] [] unsignedSocket := by
  intro h
  have htrail := h (fun _ _ => Vector.replicate 20 1)
    ⟨1, 2, 3, 4, 5, 6, 7, 8, 9, .data ([10, 11, 12] ++ List.replicate 10 0) 3⟩ (by decide)
  exact absurd htrail (by decide)

end PersonalCloud.Ts2.Codec
