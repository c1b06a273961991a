import Mathlib.Logic.Function.Basic
import PersonalCloud.Lib.Ascii
import PersonalCloud.Lib.Sextets

/-!
# Base64

The encoder and the decoder, which share two tables. A `size_t` has 64 bits, a `char` is signed.

## Main definitions

* `encodeBase64`, `decodeBase64` — the code.
* `sextets` — what the characters of a text stand for.

## Main results

* `decodeBase64_eq` — the decoder takes the sextets of the text in groups of four.
-/

namespace PersonalCloud.Vplex

open PersonalCloud.Lib

/-! ## The tables -/

def base64Enc : List UInt8 :=
  ((List.range 26).map fun i => ascii 'A' + .ofNat i) ++
    ((List.range 26).map fun i => ascii 'a' + .ofNat i) ++
    ((List.range 10).map fun i => ascii '0' + .ofNat i) ++ [ascii '+', ascii '/']

def base64Pad : UInt8 :=
  ascii '='

/-- The URL-safe substitutions are in the table whether they are used or not. -/
def base64Dec : List ℤ :=
  let blank := List.replicate 256 (-1)
  let dec := (List.range 64).foldl (fun dec i => dec.set (base64Enc.getD i 0).toNat ↑i) blank
  (dec.set (ascii '-').toNat 62).set (ascii '_').toNat 63

/-- `(unsigned)c`: a signed character is extended first. -/
def tableIndex (c : UInt8) : ℕ :=
  if c < 128 then c.toNat else 2 ^ 32 - 2 ^ 8 + c.toNat

/-! ## The encoder -/

def makeUrlSafe (c : UInt8) : UInt8 :=
  if c = ascii '+' then ascii '-' else if c = ascii '/' then ascii '_' else c

/-- The four characters that are written for three bytes, of which the last may be missing. -/
def encodeGroup (urlSafe : Bool) (b0 : UInt8) (b1 b2 : Option UInt8) : List UInt8 :=
  let v24 := b0.toNat <<< 16 ||| b1.elim 0 (·.toNat <<< 8) ||| b2.elim 0 (·.toNat)
  let dst := [
    base64Enc.getD (v24 >>> 18 &&& 0x3f) 0,
    base64Enc.getD (v24 >>> 12 &&& 0x3f) 0,
    if b1.isSome then base64Enc.getD (v24 >>> 6 &&& 0x3f) 0 else base64Pad,
    if b2.isSome then base64Enc.getD (v24 &&& 0x3f) 0 else base64Pad]
  if urlSafe then dst.map makeUrlSafe else dst

/-- The line break behind a group. -/
def lineBreak (addNewlines : Bool) (count : ℕ) : List UInt8 :=
  if addNewlines ∧ count % (76 / 4 * 3) = 0 then [10] else []

/-- The loop, on the bytes from `count` on. -/
def encodeLoop (addNewlines urlSafe : Bool) : ℕ → List UInt8 → List UInt8
  | _, [] => []
  | count, [b0] => encodeGroup urlSafe b0 none none ++ lineBreak addNewlines (count + 3)
  | count, [b0, b1] => encodeGroup urlSafe b0 (some b1) none ++ lineBreak addNewlines (count + 3)
  | count, b0 :: b1 :: b2 :: rest =>
    encodeGroup urlSafe b0 (some b1) (some b2) ++ lineBreak addNewlines (count + 3) ++
      encodeLoop addNewlines urlSafe (count + 3) rest

/-- `VPL_BASE64_ENCODED_BUF_LEN` and `VPL_BASE64_ENCODED_SINGLE_LINE_BUF_LEN`. -/
def encodedBufLen (addNewlines : Bool) (srcLen : UInt64) : UInt64 :=
  if addNewlines then ((srcLen + 2) / 3 * 4) * 77 / 76 + 1 else (srcLen + 2) / 3 * 4 + 1

/-- `VPL_EncodeBase64`: the new `*dstLen`, and what is written to `dst` unless that is too
small. -/
def encodeBase64 (src : List UInt8) (dstLen : ℕ) (addNewlines urlSafe : Bool) :
    UInt64 × Option (List UInt8) :=
  let needed := encodedBufLen addNewlines (.ofNat src.length)
  if dstLen < needed.toNat then (needed, none)
  else (needed, some (encodeLoop addNewlines urlSafe 0 src ++ [0]))

/-! ## The decoder -/

/-- The variables of the decoder and the memory at `dst`. `dstSize` has 32 bits. -/
structure Decoder where
  v24 : ℕ
  shift : ℕ
  numPaddingChars : ℕ
  dstSize : ℕ
  dst : ℕ → UInt8

namespace Decoder

def putByte (dstCapacity : ℕ) (s : Decoder) (b : UInt8) : Decoder :=
  { s with
    dst := if s.dstSize < dstCapacity then Function.update s.dst s.dstSize b else s.dst
    dstSize := (s.dstSize + 1) % 2 ^ 32 }

/-- Four characters make three bytes. -/
def emit (dstCapacity : ℕ) (s : Decoder) : Decoder :=
  if s.shift = 4 then
    let s := s.putByte dstCapacity (.ofNat (s.v24 >>> 16 &&& 0xff))
    let s := s.putByte dstCapacity (.ofNat (s.v24 >>> 8 &&& 0xff))
    let s := s.putByte dstCapacity (.ofNat (s.v24 &&& 0xff))
    { s with v24 := 0, shift := 0 }
  else s

def readChar (s : Decoder) (currCharVal : ℤ) : Decoder :=
  if currCharVal ≠ -1 then
    { s with v24 := s.v24 <<< 6 ||| (currCharVal.toNat &&& 0x3f), shift := s.shift + 1 }
  else s

/-- At the last byte, padding is assumed. -/
def assumePadding (s : Decoder) : Decoder :=
  if s.shift ≠ 0 then
    { s with
      numPaddingChars := 4 - s.shift
      v24 := s.v24 <<< (6 * (4 - s.shift))
      shift := 4 }
  else s

end Decoder

/-- The loop; `none` when the table is left. -/
def decodeLoop (dstCapacity : ℕ) : List UInt8 → Decoder → Option Decoder
  | [], s => some s
  | c :: rest, s => do
    let currCharVal ← base64Dec[tableIndex c]?
    let s := s.readChar currCharVal
    let s := if rest.isEmpty then s.assumePadding else s
    decodeLoop dstCapacity rest (s.emit dstCapacity)

/-- `VPL_DecodeBase64`: the memory at `dst` and the new `*dstLen`. -/
def decodeBase64 (src : List UInt8) (dstCapacity : ℕ) (dst : ℕ → UInt8) :
    Option ((ℕ → UInt8) × ℕ) :=
  (decodeLoop dstCapacity src ⟨0, 0, 0, 0, dst⟩).map fun s =>
    (s.dst, (s.dstSize + 2 ^ 32 - s.numPaddingChars) % 2 ^ 32)

/-! ## What a text stands for -/

/-- The value of a character of either alphabet. -/
def sextet? (c : UInt8) : Option ℕ :=
  if isupper c then some (c.toNat - 65)
  else if islower c then some (c.toNat - 97 + 26)
  else if isdigit c then some (c.toNat - 48 + 52)
  else if c = ascii '+' ∨ c = ascii '-' then some 62
  else if c = ascii '/' ∨ c = ascii '_' then some 63
  else none

def sextets (text : List UInt8) : List ℕ :=
  text.filterMap sextet?

theorem sextet?_lt (c : UInt8) : (sextet? c).all (· < 64) = true := by
  refine forall_byte (P := fun c => (sextet? c).all (· < 64) = true) ?_ c
  decide +kernel

/-- The table has the values of the alphabets, and nothing for other characters. -/
theorem base64Dec_eq : base64Dec =
    ((List.range 128).map fun n => (sextet? (.ofNat n)).elim (-1) fun v => (v : ℤ)) ++
      List.replicate 128 (-1) := by
  decide +kernel

theorem sextet?_spec (c : UInt8) :
    (sextet? c).all (· < 64) = true ∧
      base64Dec[tableIndex c]? =
        if c < 128 then some ((sextet? c).elim (-1) fun v => (v : ℤ)) else none := by
  refine ⟨sextet?_lt c, ?_⟩
  unfold tableIndex
  by_cases hc : c < 128
  · have hlt : c.toNat < 128 := UInt8.lt_iff_toNat_lt.1 hc
    rw [if_pos hc, if_pos hc, base64Dec_eq, List.getElem?_append_left (by simpa using hlt),
      List.getElem?_map, List.getElem?_range hlt, Option.map_some, UInt8.ofNat_toNat]
  · have hlength : base64Dec.length = 256 := by
      rw [base64Dec_eq, List.length_append, List.length_map, List.length_range,
        List.length_replicate]
    rw [if_neg hc, if_neg hc, List.getElem?_eq_none]
    omega

theorem lt_of_sextet? {c : UInt8} {v : ℕ} (h : sextet? c = some v) : v < 64 := by
  have hall := (sextet?_spec c).1
  rw [h] at hall
  exact of_decide_eq_true hall

theorem lt_of_mem_sextets {text : List UInt8} {v : ℕ} (h : v ∈ sextets text) : v < 64 := by
  obtain ⟨c, -, hc⟩ := List.mem_filterMap.1 h
  exact lt_of_sextet? hc

/-! ## The decoder takes sextets -/

namespace Decoder

variable {dstCapacity : ℕ} {s : Decoder} {v : ℕ}

/-- A character of the alphabet is read, and a group is written when it is complete. -/
def absorb (dstCapacity : ℕ) (s : Decoder) (v : ℕ) : Decoder :=
  (s.readChar v).emit dstCapacity

/-- What is left is padded and written. -/
def flush (dstCapacity : ℕ) (s : Decoder) : Decoder :=
  s.assumePadding.emit dstCapacity

theorem emit_of_ne (h : s.shift ≠ 4) : s.emit dstCapacity = s :=
  if_neg h

theorem readChar_neg (s : Decoder) : s.readChar (-1) = s :=
  rfl

theorem readChar_of_lt (s : Decoder) (hv : v < 64) :
    s.readChar v = { s with v24 := s.v24 * 2 ^ 6 + v, shift := s.shift + 1 } := by
  have hne : (v : ℤ) ≠ -1 := by omega
  have hmask : v &&& 0x3f = v := by
    rw [Nat.and_two_pow_sub_one_eq_mod v 6, Nat.mod_eq_of_lt hv]
  rw [readChar, if_pos hne, Int.toNat_natCast, hmask, ← Nat.shiftLeft_add_eq_or_of_lt hv,
    Nat.shiftLeft_eq]

theorem shift_emit (h : s.shift ≤ 4) : (s.emit dstCapacity).shift < 4 := by
  unfold emit
  split_ifs with h4
  · exact Nat.zero_lt_succ 3
  · exact lt_of_le_of_ne h h4

theorem numPaddingChars_emit : (s.emit dstCapacity).numPaddingChars = s.numPaddingChars := by
  unfold emit
  split_ifs <;> rfl

/-- The state between two characters. -/
structure Between (s : Decoder) : Prop where
  shift : s.shift < 4
  padding : s.numPaddingChars = 0

theorem Between.absorb (h : s.Between) (hv : v < 64) : (s.absorb dstCapacity v).Between := by
  have := h.shift
  rw [Decoder.absorb, readChar_of_lt s hv]
  exact ⟨shift_emit (by dsimp only; omega), numPaddingChars_emit.trans h.padding⟩

theorem shift_emit_of_four (h : s.shift = 4) : (s.emit dstCapacity).shift = 0 := by
  rw [emit, if_pos h]

theorem flush_of_zero (h : s.shift = 0) : s.flush dstCapacity = s := by
  have hpad : s.assumePadding = s := if_neg (not_not.2 h)
  rw [flush, hpad, emit_of_ne (by omega)]

theorem assumePadding_of_four (h : s.shift = 4) (hpad : s.numPaddingChars = 0) :
    s.assumePadding = s := by
  obtain ⟨v24, shift, numPaddingChars, dstSize, dst⟩ := s
  obtain rfl : shift = 4 := h
  obtain rfl : numPaddingChars = 0 := hpad
  rfl

/-- At the last character it makes no difference whether a group is written before the padding
or behind it. -/
theorem emit_assumePadding_readChar (h : s.Between) (hv : v < 64) :
    (s.readChar v).assumePadding.emit dstCapacity =
      (s.absorb dstCapacity v).flush dstCapacity := by
  have hshift := h.shift
  have hread := readChar_of_lt s hv
  have hnext : (s.readChar v).shift = s.shift + 1 := by rw [hread]
  have hpad : (s.readChar v).numPaddingChars = 0 := by rw [hread]; exact h.padding
  by_cases h4 : s.shift + 1 = 4
  · rw [absorb, flush_of_zero (shift_emit_of_four (hnext.trans h4)),
      assumePadding_of_four (hnext.trans h4) hpad]
  · have hne : (s.readChar v).shift ≠ 4 := hnext ▸ h4
    rw [absorb, emit_of_ne hne, flush]

theorem Between.foldl_absorb (h : s.Between) {vs : List ℕ} (hvs : ∀ v ∈ vs, v < 64) :
    (vs.foldl (Decoder.absorb dstCapacity) s).Between := by
  induction vs generalizing s with
  | nil => exact h
  | cons v vs ih =>
    obtain ⟨hv, hvs⟩ := List.forall_mem_cons.1 hvs
    exact ih (h.absorb hv) hvs

/-- One character of a text within the table. -/
theorem decodeLoop_cons {c : UInt8} (hc : c < 128) (rest : List UInt8) (h : s.Between) :
    decodeLoop dstCapacity (c :: rest) s =
      let s := (sextets [c]).foldl (absorb dstCapacity) s
      decodeLoop dstCapacity rest (if rest.isEmpty then s.flush dstCapacity else s) := by
  have hlookup := (sextet?_spec c).2
  rw [if_pos hc] at hlookup
  rw [decodeLoop, hlookup]
  change decodeLoop dstCapacity rest (Decoder.emit dstCapacity (if rest.isEmpty then _ else _)) = _
  cases hv : sextet? c with
  | none =>
    have hnone : sextets [c] = [] := by
      rw [sextets, List.filterMap_cons, hv]
      rfl
    rw [hnone, Option.elim_none, readChar_neg]
    dsimp only [List.foldl_nil]
    split_ifs
    · rfl
    · rw [emit_of_ne h.shift.ne]
  | some v =>
    have hsome : sextets [c] = [v] := by
      rw [sextets, List.filterMap_cons, hv]
      rfl
    rw [hsome, Option.elim_some]
    dsimp only [List.foldl_cons, List.foldl_nil]
    split_ifs
    · rw [emit_assumePadding_readChar h (lt_of_sextet? hv)]
    · rfl

theorem decodeLoop_eq {text : List UInt8} (htext : ∀ c ∈ text, c < 128) (hne : text ≠ [])
    (h : s.Between) : decodeLoop dstCapacity text s =
      some (((sextets text).foldl (absorb dstCapacity) s).flush dstCapacity) := by
  induction text generalizing s with
  | nil => exact absurd rfl hne
  | cons c rest ih =>
    obtain ⟨hc, hrest⟩ := List.forall_mem_cons.1 htext
    have hsplit : sextets (c :: rest) = sextets [c] ++ sextets rest :=
      List.filterMap_append (l := [c])
    rw [decodeLoop_cons hc rest h, hsplit, List.foldl_append]
    cases rest with
    | nil => rfl
    | cons d rest =>
      exact ih hrest (List.cons_ne_nil d rest)
        (h.foldl_absorb fun v hv => lt_of_mem_sextets hv)

/-- The table is left at the first character from 0x80 on. -/
theorem decodeLoop_eq_none {text : List UInt8} {c : UInt8} (hmem : c ∈ text) (hc : 128 ≤ c)
    (s : Decoder) : decodeLoop dstCapacity text s = none := by
  induction text generalizing s with
  | nil => exact absurd hmem List.not_mem_nil
  | cons d rest ih =>
    rw [decodeLoop, (sextet?_spec d).2]
    by_cases hd : d < 128
    · rw [if_pos hd]
      obtain rfl | hmem := List.mem_cons.1 hmem
      · exact absurd hd (UInt8.not_lt.2 hc)
      · exact ih hmem _
    · rw [if_neg hd]
      rfl

/-! ## Groups -/

variable {v24 shift numPaddingChars dstSize : ℕ} {dst : ℕ → UInt8}

theorem groupBytes_eq_masks (v24 : ℕ) : groupBytes v24 =
    [.ofNat (v24 >>> 16 &&& 0xff), .ofNat (v24 >>> 8 &&& 0xff), .ofNat (v24 &&& 0xff)] := by
  have hmask : ∀ n, n &&& 0xff = n % 2 ^ 8 := fun n => Nat.and_two_pow_sub_one_eq_mod n 8
  rw [groupBytes, hmask, hmask, hmask, Nat.shiftRight_eq_div_pow, Nat.shiftRight_eq_div_pow]

theorem emit_of_four (v24 numPaddingChars : ℕ) (s : Decoder) :
    emit dstCapacity ⟨v24, 4, numPaddingChars, s.dstSize, s.dst⟩ =
      { (groupBytes v24).foldl (putByte dstCapacity) s with
        v24 := 0
        shift := 0
        numPaddingChars := numPaddingChars } := by
  rw [emit, if_pos rfl, groupBytes_eq_masks]
  rfl

theorem absorb_of_ne {v : ℕ} (hv : v < 64) (h : shift + 1 ≠ 4) :
    absorb dstCapacity ⟨v24, shift, numPaddingChars, dstSize, dst⟩ v =
      ⟨v24 * 2 ^ 6 + v, shift + 1, numPaddingChars, dstSize, dst⟩ := by
  rw [absorb, readChar_of_lt _ hv, emit_of_ne h]

theorem absorb_of_three {v : ℕ} (hv : v < 64) (v24 : ℕ) (s : Decoder) :
    absorb dstCapacity ⟨v24, 3, 0, s.dstSize, s.dst⟩ v =
      { (groupBytes (v24 * 2 ^ 6 + v)).foldl (putByte dstCapacity) s with
        v24 := 0
        shift := 0
        numPaddingChars := 0 } := by
  rw [absorb, readChar_of_lt _ hv]
  exact emit_of_four _ _ s

theorem flush_of_ne (hshift : shift ≠ 0) (v24 : ℕ) (s : Decoder) :
    flush dstCapacity ⟨v24, shift, 0, s.dstSize, s.dst⟩ =
      { (groupBytes (v24 * 2 ^ (6 * (4 - shift)))).foldl (putByte dstCapacity) s with
        v24 := 0
        shift := 0
        numPaddingChars := 4 - shift } := by
  rw [flush, assumePadding, if_pos hshift]
  dsimp only
  rw [Nat.shiftLeft_eq]
  exact emit_of_four _ _ s

/-- The induction is on groups of four sextets, the last of which may be incomplete. -/
theorem foldl_absorb_flush (dstCapacity : ℕ) {vs : List ℕ} (hvs : ∀ v ∈ vs, v < 64) (s : Decoder) :
    (vs.foldl (absorb dstCapacity) ⟨0, 0, 0, s.dstSize, s.dst⟩).flush dstCapacity =
      { (ofSextets vs).foldl (putByte dstCapacity) s with
        v24 := 0
        shift := 0
        numPaddingChars := (4 - vs.length % 4) % 4 } := by
  fun_induction ofSextets vs generalizing s with
  | case1 => exact flush_of_zero rfl
  | case2 a =>
    have ha := hvs a (by simp)
    have hpad : (0 * 2 ^ 6 + a) * 2 ^ (6 * (4 - (0 + 1))) = a * 2 ^ 18 := by simp
    rw [List.foldl_cons, List.foldl_nil, absorb_of_ne ha (by decide),
      flush_of_ne (Nat.succ_ne_zero _), hpad]
    rfl
  | case3 a b =>
    have ha := hvs a (by simp)
    have hb := hvs b (by simp)
    have hpad : ((0 * 2 ^ 6 + a) * 2 ^ 6 + b) * 2 ^ (6 * (4 - (0 + 1 + 1))) =
        a * 2 ^ 18 + b * 2 ^ 12 := by
      change ((0 * 2 ^ 6 + a) * 2 ^ 6 + b) * 2 ^ 12 = _
      omega
    rw [List.foldl_cons, List.foldl_cons, List.foldl_nil, absorb_of_ne ha (by decide),
      absorb_of_ne hb (by decide), flush_of_ne (Nat.succ_ne_zero _), hpad]
    rfl
  | case4 a b c =>
    have ha := hvs a (by simp)
    have hb := hvs b (by simp)
    have hc := hvs c (by simp)
    have hpad : (((0 * 2 ^ 6 + a) * 2 ^ 6 + b) * 2 ^ 6 + c) *
        2 ^ (6 * (4 - (0 + 1 + 1 + 1))) = a * 2 ^ 18 + b * 2 ^ 12 + c * 2 ^ 6 := by
      change (((0 * 2 ^ 6 + a) * 2 ^ 6 + b) * 2 ^ 6 + c) * 2 ^ 6 = _
      omega
    rw [List.foldl_cons, List.foldl_cons, List.foldl_cons, List.foldl_nil,
      absorb_of_ne ha (by decide), absorb_of_ne hb (by decide), absorb_of_ne hc (by decide),
      flush_of_ne (Nat.succ_ne_zero _), hpad]
    rfl
  | case5 a b c d rest ih =>
    have ha := hvs a (by simp)
    have hb := hvs b (by simp)
    have hc := hvs c (by simp)
    have hd := hvs d (by simp)
    have hrest : ∀ v ∈ rest, v < 64 := fun v hv => hvs v (by simp [hv])
    have hgroup : (((0 * 2 ^ 6 + a) * 2 ^ 6 + b) * 2 ^ 6 + c) * 2 ^ 6 + d =
        a * 2 ^ 18 + b * 2 ^ 12 + c * 2 ^ 6 + d := by
      omega
    have hlen : (a :: b :: c :: d :: rest).length % 4 = rest.length % 4 :=
      Nat.add_mod_right _ 4
    rw [List.foldl_cons, List.foldl_cons, List.foldl_cons, List.foldl_cons,
      absorb_of_ne ha (by decide), absorb_of_ne hb (by decide), absorb_of_ne hc (by decide),
      absorb_of_three hd, hgroup, List.foldl_append, hlen]
    exact ih hrest _

/-! ## The memory -/

theorem dstSize_foldl_putByte {s : Decoder} (h : s.dstSize < 2 ^ 32) (bs : List UInt8) :
    (bs.foldl (putByte dstCapacity) s).dstSize = (s.dstSize + bs.length) % 2 ^ 32 := by
  induction bs generalizing s with
  | nil => exact (Nat.mod_eq_of_lt h).symm
  | cons b bs ih =>
    rw [List.foldl_cons, ih (Nat.mod_lt _ (by decide))]
    change ((s.dstSize + 1) % 2 ^ 32 + bs.length) % 2 ^ 32 = _
    rw [Nat.mod_add_mod, List.length_cons, Nat.add_right_comm, Nat.add_assoc]

theorem dst_foldl_putByte_of_ge {i : ℕ} (hi : dstCapacity ≤ i) (bs : List UInt8) (s : Decoder) :
    (bs.foldl (putByte dstCapacity) s).dst i = s.dst i := by
  induction bs generalizing s with
  | nil => rfl
  | cons b bs ih =>
    rw [List.foldl_cons, ih, putByte]
    dsimp only
    split_ifs with hlt
    · exact Function.update_of_ne (hlt.trans_le hi).ne' _ _
    · rfl

/-- As long as the size does not wrap around, the bytes are found where they have been put. -/
theorem dst_foldl_putByte {i : ℕ} (hi : i < dstCapacity) (bs : List UInt8) {s : Decoder}
    (h : s.dstSize + bs.length ≤ 2 ^ 32) : (bs.foldl (putByte dstCapacity) s).dst i =
      if i < s.dstSize then s.dst i else bs[i - s.dstSize]?.getD (s.dst i) := by
  induction bs generalizing s with
  | nil => rw [List.foldl_nil, List.getElem?_nil, Option.getD_none, ite_self]
  | cons b bs ih =>
    rw [List.length_cons] at h
    have hput : (s.putByte dstCapacity b).dst i = if i = s.dstSize then b else s.dst i := by
      rw [putByte]
      dsimp only
      split_ifs with hlt heq heq
      · rw [heq, Function.update_self]
      · exact Function.update_of_ne heq _ _
      · omega
      · rfl
    cases bs with
    | nil =>
      rw [List.foldl_cons, List.foldl_nil, hput]
      obtain hlt | rfl | hgt := Nat.lt_trichotomy i s.dstSize
      · rw [if_neg hlt.ne, if_pos hlt]
      · rw [if_pos rfl, if_neg (Nat.lt_irrefl _), Nat.sub_self]
        rfl
      · rw [if_neg hgt.ne', if_neg hgt.not_gt, List.getElem?_eq_none, Option.getD_none]
        rw [List.length_singleton]
        omega
    | cons c bs =>
      have hsize : (s.putByte dstCapacity b).dstSize = s.dstSize + 1 :=
        Nat.mod_eq_of_lt (by rw [List.length_cons] at h; omega)
      rw [List.foldl_cons, ih (by rw [hsize]; omega), hsize, hput]
      obtain hlt | rfl | hgt := Nat.lt_trichotomy i s.dstSize
      · rw [if_pos (by omega), if_neg hlt.ne, if_pos hlt]
      · rw [if_pos (Nat.lt_succ_self _), if_pos rfl, if_neg (Nat.lt_irrefl _), Nat.sub_self]
        rfl
      · rw [if_neg (by omega), if_neg hgt.ne', if_neg hgt.not_gt, Nat.sub_add_eq,
          ← List.getElem?_cons_succ, Nat.sub_add_cancel (by omega)]

end Decoder

/-- The bytes that the decoder puts into memory. -/
def decoded (text : List UInt8) (dstCapacity : ℕ) (dst : ℕ → UInt8) : Decoder :=
  (ofSextets (sextets text)).foldl (Decoder.putByte dstCapacity) ⟨0, 0, 0, 0, dst⟩

/-- Only the characters of the alphabet matter to the decoder. -/
theorem decodeBase64_eq {text : List UInt8} (htext : ∀ c ∈ text, c < 128) (dstCapacity : ℕ)
    (dst : ℕ → UInt8) : decodeBase64 text dstCapacity dst =
      some ((decoded text dstCapacity dst).dst, 6 * (sextets text).length / 8 % 2 ^ 32) := by
  by_cases hne : text = []
  · rw [hne, decodeBase64, decodeLoop, Option.map_some, Nat.zero_add, Nat.sub_zero, Nat.mod_self]
    rfl
  have hsize : (decoded text dstCapacity dst).dstSize =
      3 * (((sextets text).length + 3) / 4) % 2 ^ 32 := by
    rw [decoded, Decoder.dstSize_foldl_putByte (Nat.two_pow_pos 32), length_ofSextets,
      Nat.zero_add]
  have hbetween : Decoder.Between ⟨0, 0, 0, 0, dst⟩ := ⟨Nat.zero_lt_succ 3, rfl⟩
  have hflush := Decoder.foldl_absorb_flush dstCapacity
    (fun v hv => lt_of_mem_sextets hv : ∀ v ∈ sextets text, v < 64) ⟨0, 0, 0, 0, dst⟩
  rw [decodeBase64, Decoder.decodeLoop_eq htext hne hbetween, hflush, Option.map_some]
  refine congrArg some (Prod.ext rfl ?_)
  change ((decoded text dstCapacity dst).dstSize + 2 ^ 32 -
    (4 - (sextets text).length % 4) % 4) % 2 ^ 32 = _
  have hpad : 3 * (((sextets text).length + 3) / 4) =
      6 * (sextets text).length / 8 + (4 - (sextets text).length % 4) % 4 := by
    omega
  have hlt : (4 - (sextets text).length % 4) % 4 < 4 := Nat.mod_lt _ (by decide)
  rw [hsize, hpad]
  clear hpad hsize
  generalize 6 * (sextets text).length / 8 = bytes at *
  generalize (4 - (sextets text).length % 4) % 4 = pad at *
  omega

theorem decodeBase64_eq_none {text : List UInt8} {c : UInt8} (hmem : c ∈ text) (hc : 128 ≤ c)
    (dstCapacity : ℕ) (dst : ℕ → UInt8) : decodeBase64 text dstCapacity dst = none := by
  rw [decodeBase64, Decoder.decodeLoop_eq_none hmem hc]
  rfl

end PersonalCloud.Vplex
