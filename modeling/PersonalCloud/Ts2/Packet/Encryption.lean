import PersonalCloud.Ts2.Packet.Codec

/-!
# Encryption of the body

`encryptBody` encrypts in two calls what one call over the padded body would: the second is
chained to the first through the buffer. `decryptPayload` gives the body back. Both hold
while the padded body is shorter than 2^28 bytes; from there on its size in bits does not
fit the `int` of `aesBlockEncrypt` and `aesBlockDecrypt`, and blocks are left out.
-/

namespace PersonalCloud.Ts2.Codec

open PersonalCloud.Lib

/-! ## Sizes -/

theorem padLen_lt (n : Nat) : padLen n < 16 :=
  Nat.mod_lt _ (by decide)

/-- The number of blocks of a padded body. -/
theorem add_padLen (n : Nat) : n + padLen n = 16 * ((n + 15) / 16) := by
  unfold padLen
  omega

theorem numBlocks_of_lt {n : Nat} (h : 16 * n < 2 ^ 28) : numBlocks (16 * n) = n := by
  simp only [numBlocks]
  split <;> omega

/-- Of 2^28 bytes and more at least 2^28 are left out. -/
theorem numBlocks_le {n : Nat} (h : 2 ^ 28 ≤ 16 * n) (hn : 16 * n < 2 ^ 32) :
    16 * numBlocks (16 * n) + 2 ^ 28 ≤ 16 * n := by
  simp only [numBlocks]
  split <;> omega

theorem numBlocks_mul_le (n : Nat) : 16 * numBlocks n ≤ n := by
  have := Nat.mod_le (n * 8) (2 ^ 32)
  simp only [numBlocks]
  split <;> omega

@[simp] theorem length_fillWithRandom (r : UInt32) (n : Nat) :
    (fillWithRandom r n).1.length = n := by
  induction r, n using fillWithRandom.induct with
  | case1 r => rfl
  | case2 r => rfl
  | case3 r n _ ih => exact congrArg (· + 2) ih

variable {E : Equiv.Perm Block} {iv : Block}

@[simp] theorem length_aesSwEncrypt (bs : List UInt8) (n : Nat) :
    (aesSwEncrypt E iv bs n).length = 16 * numBlocks n := by
  simp [aesSwEncrypt]

@[simp] theorem length_aesSwDecrypt (bs : List UInt8) (n : Nat) :
    (aesSwDecrypt E iv bs n).length = 16 * numBlocks n := by
  simp [aesSwDecrypt]

/-! ## The body on the wire -/

/-- The body and its padding, encrypted at once. -/
def cipherText (E : Equiv.Perm Block) (iv : Block) (body : List UInt8) (randomness : UInt32) :
    List UInt8 :=
  let pad := (fillWithRandom randomness (padLen body.length)).1
  ofWords 16 (Cbc.encrypt E iv (toWords 128 16 ((body.length + 15) / 16) (body ++ pad)))

section

variable {body : List UInt8} {randomness : UInt32}

@[simp] theorem length_cipherText :
    (cipherText E iv body randomness).length = body.length + padLen body.length := by
  simp [cipherText, add_padLen]

/-- The first call leaves the whole blocks, whether there are any or not. -/
theorem encryptBody_first {dest : List UInt8} (hdest : body.length / 16 * 16 ≤ dest.length)
    (h : body.length / 16 * 16 < 2 ^ 28) :
    (if body.length / 16 * 16 > 0 then
        writeAt dest 0 (aesSwEncrypt E iv body (body.length / 16 * 16)) else dest) =
      ofWords 16 (Cbc.encrypt E iv (toWords 128 16 (body.length / 16) body)) ++
        dest.drop (body.length / 16 * 16) := by
  set b := body.length / 16
  split
  · have hwritten : aesSwEncrypt E iv body (b * 16) =
        ofWords 16 (Cbc.encrypt E iv (toWords 128 16 b body)) := by
      rw [aesSwEncrypt, Nat.mul_comm, numBlocks_of_lt (by omega)]
    conv_lhs => rw [hwritten, ← List.take_append_drop (b * 16) dest]
    apply writeAt_front
    simp only [length_ofWords, Cbc.length_encrypt, length_toWords, List.length_take]
    omega
  · have hb : b = 0 := by omega
    simp [hb, toWords, Cbc.encrypt]

/-- The last block is chained to the block that one call over the padded body would have
before it. -/
theorem encryptBody_iv (rest : List UInt8) :
    (if body.length / 16 * 16 > 0 then
        toWord 128 16
          ((ofWords 16 (Cbc.encrypt E iv (toWords 128 16 (body.length / 16) body)) ++ rest).drop
            (body.length / 16 * 16 - 16)) else iv) =
      (Cbc.encrypt E iv (toWords 128 16 (body.length / 16) body)).getLastD iv := by
  set b := body.length / 16
  split
  · have hlen : b * 16 - 16 = 16 * (Cbc.encrypt E iv (toWords 128 16 b body)).length - 16 := by
      simp [Nat.mul_comm]
    rw [hlen]
    apply toWord_drop_ofWords (by decide)
    rw [← List.length_pos_iff]
    simp only [Cbc.length_encrypt, length_toWords]
    omega
  · have hb : b = 0 := by omega
    simp [hb, toWords, Cbc.encrypt]

/-- The ciphertext as the two calls make it, where a part of a block is left. -/
theorem cipherText_eq_append (h : body.length / 16 * 16 < body.length) :
    cipherText E iv body randomness =
      ofWords 16 (Cbc.encrypt E iv (toWords 128 16 (body.length / 16) body)) ++
        aesSwEncrypt E ((Cbc.encrypt E iv (toWords 128 16 (body.length / 16) body)).getLastD iv)
          (body.drop (body.length / 16 * 16) ++
            (fillWithRandom randomness (padLen body.length)).1) 16 := by
  have hone : numBlocks 16 = 1 := by decide
  have hblocks : (body.length + 15) / 16 = body.length / 16 + 1 := by omega
  rw [cipherText, hblocks, toWords_add, toWords_append (by omega), Cbc.encrypt_append,
    ofWords_append, aesSwEncrypt, hone, List.drop_append_of_le_length (by omega), Nat.mul_comm]

/-- The two calls write the whole of the ciphertext. -/
theorem encryptBody_eq {area rest : List UInt8}
    (harea : area.length = body.length + padLen body.length)
    (h : body.length / 16 * 16 < 2 ^ 28) :
    (encryptBody E iv body randomness (area ++ rest)).1 =
      cipherText E iv body randomness ++ rest := by
  have hone : numBlocks 16 = 1 := by decide
  have hpadded := add_padLen body.length
  have hdest : body.length / 16 * 16 ≤ (area ++ rest).length := by
    rw [List.length_append]
    omega
  have hlenFirst :
      (ofWords 16 (Cbc.encrypt E iv (toWords 128 16 (body.length / 16) body))).length =
        body.length / 16 * 16 := by
    simp [Nat.mul_comm]
  simp only [encryptBody, encryptBody_first hdest h]
  split
  next hpart =>
    rw [encryptBody_iv, writeAt_append_right hlenFirst.le, hlenFirst, Nat.sub_self,
      List.drop_append_of_le_length (by omega), writeAt_front, cipherText_eq_append hpart,
      List.append_assoc]
    rw [length_aesSwEncrypt, hone, List.length_drop]
    omega
  next hwhole =>
    have hpad : padLen body.length = 0 := by
      unfold padLen
      omega
    have hblocks : (body.length + 15) / 16 = body.length / 16 := by omega
    have hdrop : (area ++ rest).drop (body.length / 16 * 16) = rest := by
      apply List.drop_left'
      omega
    simp [cipherText, hpad, hblocks, hdrop, fillWithRandom]

/-- Decrypting the ciphertext of a body. -/
theorem aesSwDecrypt_cipherText (h : body.length + padLen body.length < 2 ^ 28)
    (rest : List UInt8) :
    aesSwDecrypt E iv (cipherText E iv body randomness ++ rest)
        (body.length + padLen body.length) =
      body ++ (fillWithRandom randomness (padLen body.length)).1 := by
  set pad := (fillWithRandom randomness (padLen body.length)).1 with hpad
  set n := (body.length + 15) / 16 with hn
  have hlen : (body ++ pad).length = 16 * n := by
    simp [hpad, add_padLen, hn]
  have hwords : toWords 128 16 n (cipherText E iv body randomness ++ rest) =
      Cbc.encrypt E iv (toWords 128 16 n (body ++ pad)) := by
    conv_lhs => rw [show n = (Cbc.encrypt E iv (toWords 128 16 n (body ++ pad))).length by simp]
    exact toWords_ofWords (by decide) _ _
  rw [aesSwDecrypt, add_padLen, ← hn, numBlocks_of_lt (by rw [hn, ← add_padLen]; exact h), hwords,
    Cbc.decrypt_encrypt, ofWords_toWords (by decide) hlen.ge, ← hlen, List.take_length]

theorem length_encryptBody {dest : List UInt8}
    (hdest : body.length + padLen body.length ≤ dest.length) :
    (encryptBody E iv body randomness dest).1.length = dest.length := by
  have hone : numBlocks 16 = 1 := by decide
  have hpadded := add_padLen body.length
  have hle := numBlocks_mul_le (body.length / 16 * 16)
  have hfirst : (if body.length / 16 * 16 > 0 then
      writeAt dest 0 (aesSwEncrypt E iv body (body.length / 16 * 16)) else dest).length =
        dest.length := by
    split
    · exact length_writeAt (by rw [length_aesSwEncrypt]; omega)
    · rfl
  simp only [encryptBody]
  split
  · rw [length_writeAt, hfirst]
    rw [hfirst, length_aesSwEncrypt, hone]
    omega
  · exact hfirst

/-- The first block of the ciphertext. -/
theorem take_cipherText (randomness : UInt32) (h : 16 ≤ body.length) :
    (cipherText E iv body randomness).take 16 =
      ofWord 16 (E (toWord 128 16 body ^^^ iv)) := by
  obtain ⟨n, hn⟩ : ∃ n, (body.length + 15) / 16 = n + 1 :=
    ⟨(body.length + 15) / 16 - 1, by omega⟩
  have hword : toWord 128 16 (body ++ (fillWithRandom randomness (padLen body.length)).1) =
      toWord 128 16 body := by
    rw [toWord, toWord, List.take_append_of_le_length h]
  simp only [cipherText, hn, toWords, hword, Cbc.encrypt, ofWords_cons]
  exact List.take_left' (length_ofWord _)

/-- The bytes that neither call writes, of a body of 2^28 bytes and more. -/
theorem getElem?_encryptBody {dest : List UInt8} {i : Nat}
    (hi : 16 * numBlocks (body.length / 16 * 16) ≤ i) (hb : i < body.length / 16 * 16)
    (hdest : body.length / 16 * 16 ≤ dest.length) :
    (encryptBody E iv body randomness dest).1[i]? = dest[i]? := by
  have hget : (if body.length / 16 * 16 > 0 then
      writeAt dest 0 (aesSwEncrypt E iv body (body.length / 16 * 16)) else dest)[i]? =
        dest[i]? := by
    split
    · exact getElem?_writeAt_ge (by rw [length_aesSwEncrypt]; omega) (Nat.zero_le _)
    · rfl
  have hlen : (if body.length / 16 * 16 > 0 then
      writeAt dest 0 (aesSwEncrypt E iv body (body.length / 16 * 16)) else dest).length =
        dest.length := by
    split
    · exact length_writeAt (by rw [length_aesSwEncrypt]; omega)
    · rfl
  simp only [encryptBody]
  split
  · rw [← hget]
    exact getElem?_writeAt_lt hb (hlen ▸ hdest)
  · exact hget

end

/-! ## Decryption -/

theorem computeIv_eq (E : Equiv.Perm Block) (seqNum : UInt64) (srcVtId dstVtId : UInt32) :
    computeIv E seqNum srcVtId dstVtId =
      E (toWord 128 16 (userDataIvInput seqNum srcVtId dstVtId)) := by
  have hone : numBlocks 16 = 1 := by decide
  rw [computeIv, aesSwEncrypt, hone, toWords, toWords, Cbc.encrypt, Cbc.encrypt,
    BitVec.xor_zero]
  exact toWord_ofWord (by decide) _ _

section

variable {hdr : HeaderOnWire} {payload : List UInt8}

theorem decryptPayload_plain (h : hdr.flag0 &&& TS_PKT_FLAG0_ENCRYPTED_DATA = 0) :
    decryptPayload E hdr payload = .ok payload := by
  simp [decryptPayload, h]

/-- Decrypting in place gives the body back and leaves what is behind it. -/
theorem decryptPayload_cipherText {body rest : List UInt8} {randomness : UInt32}
    (hflag : hdr.flag0 &&& TS_PKT_FLAG0_ENCRYPTED_DATA ≠ 0)
    (hsize : hdr.dataSize.toNat = body.length)
    (h : body.length + padLen body.length < 2 ^ 28)
    (hiv : iv = computeIv E hdr.seqNum hdr.srcVtId hdr.dstVtId) :
    decryptPayload E hdr (cipherText E iv body randomness ++ rest) =
      .ok (body ++ (List.replicate (padLen body.length) 0 ++ rest)) := by
  have hblocks : 16 * numBlocks (body.length + padLen body.length) =
      body.length + padLen body.length := by
    rw [add_padLen] at h ⊢
    rw [numBlocks_of_lt h]
  have hlen : body.length + padLen body.length ≤
      (cipherText E iv body randomness ++ rest).length := by
    rw [List.length_append, length_cipherText]
    omega
  rw [decryptPayload, if_pos hflag]
  simp only [hsize, hblocks, ← hiv]
  rw [if_neg (by omega), if_neg (by omega), aesSwDecrypt_cipherText h, writeAt_front (by simp),
    List.append_assoc, writeAt_append_right (Nat.le_refl _), Nat.sub_self,
    writeAt_front (by simp)]

/-- The bytes of the data that decrypting leaves as they came. -/
theorem getElem?_decryptPayload {decrypted : List UInt8} {i : Nat}
    (hdec : decryptPayload E hdr payload = .ok decrypted) (hi : i < hdr.dataSize.toNat)
    (hn : 16 * numBlocks (hdr.dataSize.toNat + padLen hdr.dataSize.toNat) ≤ i)
    (hlen : hdr.dataSize.toNat ≤ payload.length) : decrypted[i]? = payload[i]? := by
  rw [decryptPayload] at hdec
  split at hdec
  · simp only at hdec
    split at hdec
    · cases hdec
    · split at hdec
      · cases hdec
      · cases hdec
        have hwritten : (aesSwDecrypt E (computeIv E hdr.seqNum hdr.srcVtId hdr.dstVtId) payload
            (hdr.dataSize.toNat + padLen hdr.dataSize.toNat)).length ≤ payload.length := by
          rw [length_aesSwDecrypt]
          omega
        rw [getElem?_writeAt_lt hi]
        · exact getElem?_writeAt_ge (by rw [length_aesSwDecrypt]; omega) (Nat.zero_le _)
        · rw [length_writeAt (by omega)]
          exact hlen
  · cases hdec
    rfl

end

end PersonalCloud.Ts2.Codec
