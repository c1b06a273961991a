import PersonalCloud.Vplex.Base64

/-!
# Encoding and decoding Base64

The encoder writes one character for each sextet of the text, and characters that are not of the
alphabet besides. The decoder is compared with the sextets of what it is given.

## Main results

* `encodeBase64_roundTrip_iff` — which texts are found again.
* `decodeBase64_safe_iff` — which texts are decoded within the table, to the right length.
-/

namespace PersonalCloud.Vplex

open PersonalCloud.Lib

/-! ## What the encoder writes -/

section Encoder

variable {urlSafe : Bool}

/-- The character that is written for a sextet. -/
def encodeChar (urlSafe : Bool) (v : ℕ) : UInt8 :=
  if urlSafe then makeUrlSafe (base64Enc.getD v 0) else base64Enc.getD v 0

/-- A character that the decoder can look up and that does not end the text. -/
def Plain (c : UInt8) : Prop :=
  c < 128 ∧ c ≠ 0

theorem encodeChar_spec (urlSafe : Bool) : ∀ v < 64, encodeChar urlSafe v < 128 ∧
    encodeChar urlSafe v ≠ 0 ∧ sextet? (encodeChar urlSafe v) = some v := by
  cases urlSafe <;> decide +kernel

theorem sextets_append (s t : List UInt8) : sextets (s ++ t) = sextets s ++ sextets t :=
  List.filterMap_append

theorem sextets_map_encodeChar {vs : List ℕ} (h : ∀ v ∈ vs, v < 64) :
    sextets (vs.map (encodeChar urlSafe)) = vs := by
  rw [sextets, List.filterMap_map]
  refine (List.filterMap_congr fun v hv => ?_).trans List.filterMap_some
  exact (encodeChar_spec urlSafe v (h v hv)).2.2

theorem plain_map_encodeChar {vs : List ℕ} (h : ∀ v ∈ vs, v < 64) :
    ∀ c ∈ vs.map (encodeChar urlSafe), Plain c := by
  refine List.forall_mem_map.2 fun v hv => ?_
  obtain ⟨hlt, hne, -⟩ := encodeChar_spec urlSafe v (h v hv)
  exact ⟨hlt, hne⟩

theorem or_eq_add {a b : ℕ} (i : ℕ) (hb : b < 2 ^ i) : a <<< i ||| b = a * 2 ^ i + b := by
  rw [← Nat.shiftLeft_add_eq_or_of_lt hb, Nat.shiftLeft_eq]

/-- The bytes of a group side by side. -/
theorem v24_eq (b0 b1 b2 : UInt8) : b0.toNat <<< 16 ||| b1.toNat <<< 8 ||| b2.toNat =
    b0.toNat * 2 ^ 16 + b1.toNat * 2 ^ 8 + b2.toNat := by
  have h1 := b1.toNat_lt
  have h2 := b2.toNat_lt
  rw [Nat.or_assoc, or_eq_add 8 h2, or_eq_add 16 (by omega), Nat.add_assoc]

theorem groupSextets_eq_masks (v24 : ℕ) : groupSextets v24 =
    [v24 >>> 18 &&& 0x3f, v24 >>> 12 &&& 0x3f, v24 >>> 6 &&& 0x3f, v24 &&& 0x3f] := by
  have hmask : ∀ n, n &&& 0x3f = n % 2 ^ 6 := fun n => Nat.and_two_pow_sub_one_eq_mod n 6
  simp only [groupSextets, hmask, Nat.shiftRight_eq_div_pow]

theorem encodeGroup_three (b0 b1 b2 : UInt8) : encodeGroup urlSafe b0 (some b1) (some b2) =
    (groupSextets (b0.toNat * 2 ^ 16 + b1.toNat * 2 ^ 8 + b2.toNat)).map
      (encodeChar urlSafe) := by
  rw [← v24_eq, groupSextets_eq_masks]
  cases urlSafe <;> rfl

theorem encodeGroup_two (b0 b1 : UInt8) : encodeGroup urlSafe b0 (some b1) none =
    ((groupSextets (b0.toNat * 2 ^ 16 + b1.toNat * 2 ^ 8)).take 3).map (encodeChar urlSafe) ++
      [base64Pad] := by
  have hv := v24_eq b0 b1 0
  rw [UInt8.toNat_zero, Nat.add_zero] at hv
  rw [← hv, groupSextets_eq_masks]
  cases urlSafe <;> rfl

theorem encodeGroup_one (b0 : UInt8) : encodeGroup urlSafe b0 none none =
    ((groupSextets (b0.toNat * 2 ^ 16)).take 2).map (encodeChar urlSafe) ++
      [base64Pad, base64Pad] := by
  have hv := v24_eq b0 0 0
  rw [UInt8.toNat_zero, Nat.zero_mul, Nat.add_zero] at hv
  rw [← hv, groupSextets_eq_masks]
  cases urlSafe <;> rfl

/-- What is written is characters for sextets, padding and line breaks. -/
theorem sextets_lineBreak (addNewlines : Bool) (count : ℕ) :
    sextets (lineBreak addNewlines count) = [] ∧ ∀ c ∈ lineBreak addNewlines count, Plain c := by
  unfold lineBreak
  split_ifs
  · exact ⟨rfl, List.forall_mem_singleton.2 ⟨by decide, by decide⟩⟩
  · exact ⟨rfl, fun c hc => absurd hc List.not_mem_nil⟩

theorem plain_base64Pad : Plain base64Pad :=
  ⟨by decide, by decide⟩

variable {addNewlines : Bool}

theorem sextets_encodeLoop (count : ℕ) (src : List UInt8) :
    sextets (encodeLoop addNewlines urlSafe count src) = toSextets src := by
  fun_induction encodeLoop addNewlines urlSafe count src with
  | case1 => rfl
  | case2 count b0 =>
    have h : ∀ v ∈ toSextets [b0], v < 64 := fun v hv => lt_of_mem_toSextets hv
    rw [encodeGroup_one, sextets_append, sextets_append, (sextets_lineBreak _ _).1,
      List.append_nil]
    exact congrArg₂ _ (sextets_map_encodeChar h) rfl
  | case3 count b0 b1 =>
    have h : ∀ v ∈ toSextets [b0, b1], v < 64 := fun v hv => lt_of_mem_toSextets hv
    rw [encodeGroup_two, sextets_append, sextets_append, (sextets_lineBreak _ _).1,
      List.append_nil]
    exact congrArg₂ _ (sextets_map_encodeChar h) rfl
  | case4 count b0 b1 b2 rest ih =>
    rw [encodeGroup_three, sextets_append, sextets_append, (sextets_lineBreak _ _).1,
      List.append_nil, ih, sextets_map_encodeChar fun v hv => lt_of_mem_groupSextets hv]
    rfl

theorem plain_encodeLoop (count : ℕ) (src : List UInt8) :
    ∀ c ∈ encodeLoop addNewlines urlSafe count src, Plain c := by
  fun_induction encodeLoop addNewlines urlSafe count src with
  | case1 => exact fun c hc => absurd hc List.not_mem_nil
  | case2 count b0 =>
    have h : ∀ v ∈ toSextets [b0], v < 64 := fun v hv => lt_of_mem_toSextets hv
    rw [encodeGroup_one, List.forall_mem_append, List.forall_mem_append, List.forall_mem_cons,
      List.forall_mem_singleton]
    exact ⟨⟨plain_map_encodeChar h, plain_base64Pad, plain_base64Pad⟩, (sextets_lineBreak _ _).2⟩
  | case3 count b0 b1 =>
    have h : ∀ v ∈ toSextets [b0, b1], v < 64 := fun v hv => lt_of_mem_toSextets hv
    rw [encodeGroup_two, List.forall_mem_append, List.forall_mem_append,
      List.forall_mem_singleton]
    exact ⟨⟨plain_map_encodeChar h, plain_base64Pad⟩, (sextets_lineBreak _ _).2⟩
  | case4 count b0 b1 b2 rest ih =>
    rw [encodeGroup_three, List.forall_mem_append, List.forall_mem_append]
    exact ⟨⟨plain_map_encodeChar fun v hv => lt_of_mem_groupSextets hv,
      (sextets_lineBreak _ _).2⟩, ih⟩

/-! ## How much it writes -/

/-- Four characters for three bytes, and a line break behind 76 characters. -/
def encodedLen (addNewlines : Bool) (srcLen : ℕ) : ℕ :=
  let chars := (srcLen + 2) / 3 * 4
  if addNewlines then chars + chars / 76 else chars

theorem length_lineBreak (addNewlines : Bool) (groups : ℕ) :
    (lineBreak addNewlines (3 * groups + 3)).length =
      if addNewlines then (groups + 1) / 19 - groups / 19 else 0 := by
  cases addNewlines with
  | false => rfl
  | true =>
    unfold lineBreak
    by_cases h : (3 * groups + 3) % (76 / 4 * 3) = 0
    · rw [if_pos ⟨rfl, h⟩, if_pos rfl, List.length_singleton]
      omega
    · rw [if_neg (fun hand => h hand.2), if_pos rfl, List.length_nil]
      omega

theorem length_encodeGroup (b0 : UInt8) (b1 b2 : Option UInt8) :
    (encodeGroup urlSafe b0 b1 b2).length = 4 := by
  cases urlSafe <;> rfl

theorem length_encodeLoop (groups : ℕ) (src : List UInt8) :
    (encodeLoop addNewlines urlSafe (3 * groups) src).length =
      (src.length + 2) / 3 * 4 +
        if addNewlines then (groups + (src.length + 2) / 3) / 19 - groups / 19 else 0 := by
  match src with
  | [] => cases addNewlines <;> simp [encodeLoop]
  | [b0] =>
    rw [encodeLoop, List.length_append, length_encodeGroup, length_lineBreak]
    simp
  | [b0, b1] =>
    rw [encodeLoop, List.length_append, length_encodeGroup, length_lineBreak]
    simp
  | b0 :: b1 :: b2 :: rest =>
    rw [encodeLoop, List.length_append, List.length_append, length_encodeGroup, length_lineBreak,
      ← Nat.mul_succ, length_encodeLoop (groups + 1) rest]
    simp only [List.length_cons]
    cases addNewlines with
    | false =>
      simp only [Bool.false_eq_true, if_false]
      omega
    | true =>
      simp only [if_true]
      omega

theorem toNat_add_le (a b : UInt64) : (a + b).toNat ≤ a.toNat + b.toNat := by
  rw [UInt64.toNat_add]
  exact Nat.mod_le _ _

theorem toNat_mul_le (a b : UInt64) : (a * b).toNat ≤ a.toNat * b.toNat := by
  rw [UInt64.toNat_mul]
  exact Nat.mod_le _ _

/-- The macros count the terminator. Where they overflow, they ask for less. -/
theorem toNat_encodedBufLen_le (addNewlines : Bool) (srcLen : ℕ) :
    (encodedBufLen addNewlines (.ofNat srcLen)).toNat ≤ encodedLen addNewlines srcLen + 1 := by
  have hlen : (UInt64.ofNat srcLen).toNat ≤ srcLen := Nat.mod_le _ _
  have hchars : ((UInt64.ofNat srcLen + 2) / 3 * 4).toNat ≤ (srcLen + 2) / 3 * 4 := by
    refine (toNat_mul_le _ _).trans (Nat.mul_le_mul_right 4 ?_)
    rw [UInt64.toNat_div]
    exact Nat.div_le_div_right ((toNat_add_le _ _).trans (Nat.add_le_add_right hlen 2))
  cases addNewlines with
  | false => exact (toNat_add_le _ _).trans (Nat.add_le_add_right hchars 1)
  | true =>
    refine (toNat_add_le _ _).trans (Nat.add_le_add_right ?_ 1)
    rw [UInt64.toNat_div]
    have hmul := toNat_mul_le ((UInt64.ofNat srcLen + 2) / 3 * 4) 77
    change _ / 76 ≤ (srcLen + 2) / 3 * 4 + (srcLen + 2) / 3 * 4 / 76
    change _ ≤ _ * 77 at hmul
    omega

end Encoder

/-! ## Round trip -/

/-- Into a buffer that is large enough, a text without zeros is written, and from that the bytes
are decoded, as many of them as there is room for. -/
def RoundTrips (src : List UInt8) (addNewlines urlSafe : Bool) : Prop :=
  ∀ textLen dstCapacity dst, encodedLen addNewlines src.length + 1 ≤ textLen →
    ∃ text dst', (encodeBase64 src textLen addNewlines urlSafe).2 = some (text ++ [0]) ∧
      0 ∉ text ∧ decodeBase64 text dstCapacity dst = some (dst', src.length) ∧
      (∀ i (h : i < src.length), i < dstCapacity → dst' i = src[i]) ∧
      ∀ i, dstCapacity ≤ i → dst' i = dst i

theorem encodeBase64_eq {src : List UInt8} {textLen : ℕ} {addNewlines : Bool} (urlSafe : Bool)
    (h : encodedLen addNewlines src.length + 1 ≤ textLen) :
    (encodeBase64 src textLen addNewlines urlSafe).2 =
      some (encodeLoop addNewlines urlSafe 0 src ++ [0]) := by
  have hneeded := (toNat_encodedBufLen_le addNewlines src.length).trans h
  rw [encodeBase64, if_neg hneeded.not_gt]

theorem decodeBase64_encodeLoop (src : List UInt8) (addNewlines urlSafe : Bool) (dstCapacity : ℕ)
    (dst : ℕ → UInt8) :
    decodeBase64 (encodeLoop addNewlines urlSafe 0 src) dstCapacity dst =
      some ((decoded (encodeLoop addNewlines urlSafe 0 src) dstCapacity dst).dst,
        src.length % 2 ^ 32) := by
  have hbytes : 6 * ((4 * src.length + 2) / 3) / 8 = src.length := by omega
  rw [decodeBase64_eq fun c hc => (plain_encodeLoop 0 src c hc).1, sextets_encodeLoop,
    length_toSextets, hbytes]

theorem decoded_encodeLoop {src : List UInt8} (addNewlines urlSafe : Bool) {dstCapacity : ℕ}
    (dst : ℕ → UInt8) (hlen : src.length < 2 ^ 32) {i : ℕ} (hi : i < dstCapacity)
    (h : i < src.length) :
    (decoded (encodeLoop addNewlines urlSafe 0 src) dstCapacity dst).dst i = src[i] := by
  obtain ⟨pad, hpad⟩ := ofSextets_toSextets src
  have hput : (ofSextets (toSextets src)).length ≤ 2 ^ 32 := by
    rw [length_ofSextets, length_toSextets]
    omega
  rw [decoded, sextets_encodeLoop, Decoder.dst_foldl_putByte hi _ (by rwa [Nat.zero_add]),
    if_neg (Nat.not_lt_zero i), Nat.sub_zero, hpad, List.getElem?_append_left h,
    List.getElem?_eq_getElem h]
  rfl

/-- The decoder counts the bytes with 32 bits. -/
theorem encodeBase64_roundTrip_iff (src : List UInt8) (addNewlines urlSafe : Bool) :
    RoundTrips src addNewlines urlSafe ↔ src.length < 2 ^ 32 := by
  constructor
  · intro h
    obtain ⟨text, dst', henc, -, hdec, -⟩ := h _ 0 (fun _ => 0) le_rfl
    rw [encodeBase64_eq urlSafe le_rfl] at henc
    obtain rfl := List.append_cancel_right (Option.some.inj henc)
    rw [decodeBase64_encodeLoop] at hdec
    have hlen : src.length % 2 ^ 32 = src.length := (Prod.mk.inj (Option.some.inj hdec)).2
    exact hlen ▸ Nat.mod_lt _ (Nat.two_pow_pos 32)
  · intro hlen textLen dstCapacity dst htext
    refine ⟨encodeLoop addNewlines urlSafe 0 src,
      (decoded (encodeLoop addNewlines urlSafe 0 src) dstCapacity dst).dst,
      encodeBase64_eq urlSafe htext, fun h => (plain_encodeLoop 0 src 0 h).2 rfl, ?_, ?_, ?_⟩
    · rw [decodeBase64_encodeLoop, Nat.mod_eq_of_lt hlen]
    · exact fun i h hi => decoded_encodeLoop addNewlines urlSafe dst hlen hi h
    · exact fun i hi => Decoder.dst_foldl_putByte_of_ge hi _ _

/-- The length that is reported for 2^32 bytes is zero. -/
theorem not_roundTrips : ¬RoundTrips (List.replicate (2 ^ 32) 0) false false := by
  intro h
  obtain ⟨text, dst', henc, -, hdec, -⟩ := h _ 0 (fun _ => 0) le_rfl
  rw [encodeBase64_eq false le_rfl] at henc
  obtain rfl := List.append_cancel_right (Option.some.inj henc)
  rw [decodeBase64_encodeLoop, List.length_replicate, Nat.mod_self] at hdec
  exact absurd (Prod.mk.inj (Option.some.inj hdec)).2 (Nat.two_pow_pos 32).ne

/-! ## Arbitrary texts -/

/-- The number of characters of the alphabet. -/
def alphabetChars (text : List UInt8) : ℕ :=
  text.countP fun c => (sextet? c).isSome

/-- The decoder stays within its table and within the capacity, reports as many bytes as the
characters of the alphabet have bits for, and takes no notice of the others. -/
def DecodesSafely (text : List UInt8) : Prop :=
  ∀ dstCapacity dst, ∃ dst' dstLen,
    decodeBase64 text dstCapacity dst = some (dst', dstLen) ∧
    (∀ i, dstCapacity ≤ i → dst' i = dst i) ∧
    (alphabetChars text % 4 ≠ 1 → dstLen = 6 * alphabetChars text / 8) ∧
    decodeBase64 (text.filter fun c => (sextet? c).isSome) dstCapacity dst = some (dst', dstLen)

theorem length_sextets (text : List UInt8) : (sextets text).length = alphabetChars text :=
  List.length_filterMap_eq_countP

theorem sextets_filter (text : List UInt8) :
    sextets (text.filter fun c => (sextet? c).isSome) = sextets text := by
  rw [sextets, List.filterMap_filter]
  refine List.filterMap_congr fun c _ => ?_
  cases sextet? c <;> rfl

theorem decodeBase64_safe_iff (text : List UInt8) : DecodesSafely text ↔
    (∀ c ∈ text, c < 128) ∧
      (alphabetChars text % 4 ≠ 1 → 6 * alphabetChars text / 8 < 2 ^ 32) := by
  constructor
  · intro h
    obtain ⟨dst', dstLen, hdec, -, hlen, -⟩ := h 0 fun _ => 0
    have htext : ∀ c ∈ text, c < 128 := fun c hc => by
      by_contra hge
      rw [decodeBase64_eq_none hc (UInt8.not_lt.1 hge)] at hdec
      cases hdec
    refine ⟨htext, fun hmod => ?_⟩
    rw [decodeBase64_eq htext, length_sextets] at hdec
    rw [← hlen hmod, ← (Prod.mk.inj (Option.some.inj hdec)).2]
    exact Nat.mod_lt _ (Nat.two_pow_pos 32)
  · rintro ⟨htext, hcount⟩ dstCapacity dst
    have hfilter : ∀ c ∈ text.filter fun c => (sextet? c).isSome, c < 128 :=
      fun c hc => htext c (List.mem_of_mem_filter hc)
    refine ⟨_, _, decodeBase64_eq htext dstCapacity dst, ?_, ?_, ?_⟩
    · exact fun i hi => Decoder.dst_foldl_putByte_of_ge hi _ _
    · intro hmod
      rw [length_sextets, Nat.mod_eq_of_lt (hcount hmod)]
    · rw [decodeBase64_eq hfilter, decoded, decoded, sextets_filter]

/-- A character from 0x80 on, and more characters than the decoder can count bytes for. -/
theorem not_decodesSafely : ¬DecodesSafely [65, 65, 0xc3, 65, 65] ∧
    ¬DecodesSafely (List.replicate 5726623064 65) := by
  refine ⟨fun h => ?_, fun h => ?_⟩
  · obtain ⟨dst', dstLen, hdec, -⟩ := h 0 fun _ => 0
    rw [decodeBase64_eq_none (c := 0xc3) (by simp) (by decide)] at hdec
    cases hdec
  · obtain ⟨dst', dstLen, hdec, -, hlen, -⟩ := h 0 fun _ => 0
    have hcount : alphabetChars (List.replicate 5726623064 65) = 5726623064 := by
      rw [alphabetChars, List.countP_replicate, if_pos (by decide)]
    have htext : ∀ c ∈ List.replicate 5726623064 (65 : UInt8), c < 128 := fun c hc => by
      rw [List.eq_of_mem_replicate hc]
      decide
    rw [decodeBase64_eq htext, length_sextets, hcount] at hdec
    rw [hcount] at hlen
    have hreported := (Prod.mk.inj (Option.some.inj hdec)).2
    rw [hlen (by decide)] at hreported
    exact absurd hreported (by decide)

end PersonalCloud.Vplex
