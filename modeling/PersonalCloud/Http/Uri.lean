import Mathlib.Data.List.Basic
import Mathlib.Tactic.SplitIfs
import PersonalCloud.Lib.Ascii

/-!
# Percent encoding

`VPLHttp_UrlEncoding` walks over a text with a 16-bit index. `VPLHttp_DecodeUri` is an automaton
with three states.

## Main definitions

* `urlEncoding`, `decodeUri` — the encoder and the decoder.
* `percentDecode` — what an encoded text stands for.

## Main results

* `decodeUri_eq` — the decoder computes `percentDecode`.
* `urlEncoding_roundTrip_iff` — which texts survive encoding and decoding.
-/

namespace PersonalCloud.Http

open PersonalCloud.Lib

/-! ## The encoder -/

/-- `strchr(s, c) != NULL`. The terminator counts as part of a C string. -/
def strchr (s : List UInt8) (c : UInt8) : Bool :=
  c ∈ s || c == 0

def toHex (x : UInt8) : UInt8 :=
  if x > 9 then x + 55 else x + 48

def nonreservedDelimiters : List UInt8 :=
  asciiBytes "-._~"

/-- The four bytes that are filled in for a byte of the text. -/
def encodeBuffer (skipDelimiters : Option (List UInt8)) (c : UInt8) : List UInt8 :=
  if isalnum c || skipDelimiters.any (strchr · c) || strchr nonreservedDelimiters c then
    [c, 0, 0, 0]
  else
    [ascii '%', toHex (c >>> 4), toHex (c % 16), 0]

/-- What is appended for a byte of the text: the buffer is taken for a C string. -/
def encodeByte (skipDelimiters : Option (List UInt8)) (c : UInt8) : List UInt8 :=
  (encodeBuffer skipDelimiters c).takeWhile (· ≠ 0)

/-- The loop of `VPLHttp_UrlEncoding`; `none` says that it has not ended when the fuel has. -/
def urlEncodingLoop (input : List UInt8) (skipDelimiters : Option (List UInt8)) :
    ℕ → UInt16 → List UInt8 → Option (List UInt8)
  | 0, _, _ => none
  | fuel + 1, ix, out =>
    match input[ix.toNat]? with
    | some c =>
      urlEncodingLoop input skipDelimiters fuel (ix + 1) (out ++ encodeByte skipDelimiters c)
    | none => some out

def urlEncoding (fuel : ℕ) (input : List UInt8) (skipDelimiters : Option (List UInt8)) :
    Option (List UInt8) :=
  urlEncodingLoop input skipDelimiters fuel 0 []

/-! ## The decoder -/

inductive DecodeState
  | readAnyChar
  | readFirstHex
  | readSecondHex
  deriving DecidableEq, Repr

/-- Where the automaton is, and what it has read and written. -/
structure Decoding where
  state : DecodeState
  escapedChar : UInt8
  oss : List UInt8

def hexDigitVal (c : UInt8) : UInt8 :=
  if isdigit c then c - ascii '0'
  else if islower c then c - ascii 'a' + 10
  else c - ascii 'A' + 10

/-- One round of the loop; `none` when a character that is no digit is met. -/
def decodeChar (d : Decoding) (c : UInt8) : Option Decoding :=
  match d.state with
  | .readAnyChar =>
    if c = ascii '+' then some { d with oss := d.oss ++ [ascii ' '] }
    else if c = ascii '%' then some { d with state := .readFirstHex }
    else some { d with oss := d.oss ++ [c] }
  | .readFirstHex =>
    if isxdigit c then
      some { d with state := .readSecondHex, escapedChar := hexDigitVal c <<< 4 }
    else none
  | .readSecondHex =>
    if isxdigit c then
      some {
        state := .readAnyChar
        escapedChar := d.escapedChar ||| hexDigitVal c
        oss := d.oss ++ [d.escapedChar ||| hexDigitVal c] }
    else none

def VPL_OK : ℤ := 0

def VPL_ERR_INVALID : ℤ := -9007

/-- `VPLHttp_DecodeUri`: what it returns and what it leaves in `decodedUri`. -/
def decodeUri (encodedUri decodedUri : List UInt8) : ℤ × List UInt8 :=
  match encodedUri.foldlM decodeChar ⟨.readAnyChar, 0, []⟩ with
  | none => (VPL_ERR_INVALID, decodedUri)
  | some d =>
    if d.state = .readAnyChar then (VPL_OK, d.oss) else (VPL_ERR_INVALID, decodedUri)

/-! ## What an encoded text stands for -/

/-- A plus stands for a space, and a percent sign with two digits for a byte. -/
def percentDecode : List UInt8 → Option (List UInt8)
  | [] => some []
  | c :: rest =>
    if c = ascii '+' then (percentDecode rest).map (ascii ' ' :: ·)
    else if c = ascii '%' then
      match rest with
      | hi :: lo :: rest => do
        let hi ← hexDigit? hi
        let lo ← hexDigit? lo
        (percentDecode rest).map (UInt8.ofNat (16 * hi + lo) :: ·)
      | _ => none
    else (percentDecode rest).map (c :: ·)

theorem percentDecode_literal {c : UInt8} (hplus : c ≠ ascii '+') (hpercent : c ≠ ascii '%')
    (rest : List UInt8) : percentDecode (c :: rest) = (percentDecode rest).map (c :: ·) := by
  rw [percentDecode.eq_def]
  dsimp only
  rw [if_neg hplus, if_neg hpercent]

theorem percentDecode_escape {hi lo : UInt8} {m n : ℕ} (hhi : hexDigit? hi = some m)
    (hlo : hexDigit? lo = some n) (rest : List UInt8) :
    percentDecode (ascii '%' :: hi :: lo :: rest) =
      (percentDecode rest).map (UInt8.ofNat (16 * m + n) :: ·) := by
  rw [percentDecode.eq_def]
  dsimp only
  rw [if_neg (by decide), if_pos rfl, hhi, hlo]
  rfl

/-! ## The automaton -/

/-- What the automaton has written if it ends where it may. -/
def decodeRest (d : Decoding) (bs : List UInt8) : Option (List UInt8) :=
  (bs.foldlM decodeChar d).bind fun d => if d.state = .readAnyChar then some d.oss else none

section Automaton

variable {d d' : Decoding} {c : UInt8} {bs old : List UInt8}

theorem decodeUri_eq_elim (bs old : List UInt8) : decodeUri bs old =
    (decodeRest ⟨.readAnyChar, 0, []⟩ bs).elim (VPL_ERR_INVALID, old) (VPL_OK, ·) := by
  unfold decodeUri decodeRest
  cases bs.foldlM decodeChar ⟨.readAnyChar, 0, []⟩ with
  | none => rfl
  | some d =>
    dsimp only [Option.bind_some]
    split_ifs <;> rfl

theorem decodeRest_nil (esc : UInt8) (out : List UInt8) :
    decodeRest ⟨.readAnyChar, esc, out⟩ [] = some out :=
  rfl

theorem decodeRest_nil_of_ne {state : DecodeState} (h : state ≠ .readAnyChar) (esc : UInt8)
    (out : List UInt8) : decodeRest ⟨state, esc, out⟩ [] = none :=
  if_neg h

theorem decodeRest_cons (h : decodeChar d c = some d') :
    decodeRest d (c :: bs) = decodeRest d' bs := by
  rw [decodeRest, List.foldlM_cons, h]
  rfl

theorem decodeRest_cons_none (h : decodeChar d c = none) : decodeRest d (c :: bs) = none := by
  rw [decodeRest, List.foldlM_cons, h]
  rfl

theorem isxdigit_of_hexDigit? {n : ℕ} (h : hexDigit? c = some n) : isxdigit c = true := by
  rw [← hexDigit?_isSome, h]
  rfl

theorem not_isxdigit_of_hexDigit? (h : hexDigit? c = none) : ¬isxdigit c = true := by
  rw [← hexDigit?_isSome, h]
  exact Bool.false_ne_true

theorem hexDigit?_eq_hexDigitVal (c : UInt8) (h : isxdigit c = true) :
    hexDigit? c = some (hexDigitVal c).toNat ∧ (hexDigitVal c).toNat < 16 := by
  -- with the codes as numbers, each of the three ranges of digits is plain arithmetic
  have hascii : (ascii '0').toNat = 48 ∧ (ascii '9').toNat = 57 ∧ (ascii 'a').toNat = 97 ∧
      (ascii 'f').toNat = 102 ∧ (ascii 'z').toNat = 122 ∧ (ascii 'A').toNat = 65 ∧
      (ascii 'F').toNat = 70 := by
    decide
  have hten : (10 : UInt8).toNat = 10 := rfl
  simp only [isxdigit, hexDigit?, hexDigitVal, isdigit, islower, Bool.or_eq_true,
    Bool.and_eq_true, decide_eq_true_eq, UInt8.le_iff_toNat_le, hascii] at h ⊢
  split_ifs <;>
    simp only [UInt8.toNat_sub, UInt8.toNat_add, hascii, hten, Option.some.injEq] <;> omega

/-- Two digits put together by a shift make the byte that they stand for. -/
theorem shiftLeft_or_eq {hi lo : UInt8} (hhi : hi.toNat < 16) (hlo : lo.toNat < 16) :
    hi <<< 4 ||| lo = UInt8.ofNat (16 * hi.toNat + lo.toNat) := by
  have hshift : (hi <<< 4).toNat = hi.toNat <<< 4 := by
    rw [UInt8.toNat_shiftLeft, Nat.mod_eq_of_lt]
    · rfl
    · rw [Nat.shiftLeft_eq]
      change hi.toNat * 2 ^ 4 < 2 ^ 8
      omega
  apply UInt8.toNat_inj.1
  rw [UInt8.toNat_or, hshift, ← Nat.shiftLeft_add_eq_or_of_lt hlo, Nat.shiftLeft_eq,
    UInt8.toNat_ofNat_of_lt' (by change _ < 256; omega)]
  omega

theorem decodeChar_readFirstHex (esc : UInt8) (out : List UInt8) (h : isxdigit c = true) :
    decodeChar ⟨.readFirstHex, esc, out⟩ c = some ⟨.readSecondHex, hexDigitVal c <<< 4, out⟩ :=
  if_pos h

theorem decodeChar_readSecondHex (esc : UInt8) (out : List UInt8) (h : isxdigit c = true) :
    decodeChar ⟨.readSecondHex, esc, out⟩ c =
      some ⟨.readAnyChar, esc ||| hexDigitVal c, out ++ [esc ||| hexDigitVal c]⟩ :=
  if_pos h

theorem decodeRest_escape {hi lo : UInt8} {m n : ℕ} (esc : UInt8) (out bs : List UInt8)
    (hhi : hexDigit? hi = some m) (hlo : hexDigit? lo = some n) :
    ∃ esc', decodeRest ⟨.readFirstHex, esc, out⟩ (hi :: lo :: bs) =
      decodeRest ⟨.readAnyChar, esc', out ++ [UInt8.ofNat (16 * m + n)]⟩ bs := by
  obtain ⟨hm, hm16⟩ := hexDigit?_eq_hexDigitVal hi (isxdigit_of_hexDigit? hhi)
  obtain ⟨hn, hn16⟩ := hexDigit?_eq_hexDigitVal lo (isxdigit_of_hexDigit? hlo)
  obtain rfl := Option.some.inj (hhi.symm.trans hm)
  obtain rfl := Option.some.inj (hlo.symm.trans hn)
  refine ⟨hexDigitVal hi <<< 4 ||| hexDigitVal lo, ?_⟩
  rw [decodeRest_cons (decodeChar_readFirstHex _ _ (isxdigit_of_hexDigit? hhi)),
    decodeRest_cons (decodeChar_readSecondHex _ _ (isxdigit_of_hexDigit? hlo)),
    ← shiftLeft_or_eq hm16 hn16]

theorem decodeRest_plus (esc : UInt8) (out bs : List UInt8) :
    decodeRest ⟨.readAnyChar, esc, out⟩ (ascii '+' :: bs) =
      decodeRest ⟨.readAnyChar, esc, out ++ [ascii ' ']⟩ bs :=
  decodeRest_cons rfl

theorem decodeRest_literal (esc : UInt8) (out bs : List UInt8) (hplus : c ≠ ascii '+')
    (hpercent : c ≠ ascii '%') :
    decodeRest ⟨.readAnyChar, esc, out⟩ (c :: bs) =
      decodeRest ⟨.readAnyChar, esc, out ++ [c]⟩ bs := by
  refine decodeRest_cons ?_
  rw [decodeChar, if_neg hplus, if_neg hpercent]

theorem decodeRest_percent (esc : UInt8) (out bs : List UInt8) :
    decodeRest ⟨.readAnyChar, esc, out⟩ (ascii '%' :: bs) =
      decodeRest ⟨.readFirstHex, esc, out⟩ bs :=
  decodeRest_cons rfl

/-- A percent sign that two characters do not follow. -/
theorem decodeRest_short {esc : UInt8} {out : List UInt8}
    (h : ∀ hi lo rest, bs = hi :: lo :: rest → False) :
    decodeRest ⟨.readFirstHex, esc, out⟩ bs = none := by
  match bs with
  | [] => exact decodeRest_nil_of_ne (by decide) _ _
  | [hi] =>
    by_cases hhi : isxdigit hi = true
    · rw [decodeRest_cons (decodeChar_readFirstHex _ _ hhi)]
      exact decodeRest_nil_of_ne (by decide) _ _
    · exact decodeRest_cons_none (if_neg hhi)
  | hi :: lo :: rest => exact (h hi lo rest rfl).elim

theorem decodeRest_eq (bs : List UInt8) (esc : UInt8) (out : List UInt8) :
    decodeRest ⟨.readAnyChar, esc, out⟩ bs = (percentDecode bs).map (out ++ ·) := by
  fun_induction percentDecode bs generalizing esc out with
  | case1 => rw [decodeRest_nil, Option.map_some, List.append_nil]
  | case2 rest ih =>
    rw [decodeRest_plus, ih, Option.map_map]
    exact congrArg (Option.map · _) (funext fun bs => List.append_assoc _ _ _)
  | case3 hi lo rest _ ih =>
    rw [decodeRest_percent]
    cases hhi : hexDigit? hi with
    | none => exact decodeRest_cons_none (if_neg (not_isxdigit_of_hexDigit? hhi))
    | some m =>
      cases hlo : hexDigit? lo with
      | none =>
        rw [decodeRest_cons (decodeChar_readFirstHex _ _ (isxdigit_of_hexDigit? hhi))]
        exact decodeRest_cons_none (if_neg (not_isxdigit_of_hexDigit? hlo))
      | some n =>
        obtain ⟨esc', h⟩ := decodeRest_escape esc out rest hhi hlo
        rw [h, ih]
        change _ = Option.map _ (Option.map _ _)
        rw [Option.map_map]
        exact congrArg (Option.map · _) (funext fun bs => List.append_assoc _ _ _)
  | case4 rest hshort _ =>
    rw [decodeRest_percent, decodeRest_short hshort]
    rfl
  | case5 c rest hplus hpercent ih =>
    rw [decodeRest_literal esc out rest hplus hpercent, ih, Option.map_map]
    exact congrArg (Option.map · _) (funext fun bs => List.append_assoc _ _ _)

theorem decodeUri_eq (bs old : List UInt8) :
    decodeUri bs old = (percentDecode bs).elim (VPL_ERR_INVALID, old) (VPL_OK, ·) := by
  rw [decodeUri_eq_elim, decodeRest_eq]
  cases percentDecode bs <;> rfl

end Automaton

/-! ## The walk over the text -/

section Encoder

variable {input : List UInt8} {skipDelimiters : Option (List UInt8)}

/-- A 16-bit index never gets behind a text of 2^16 bytes. -/
theorem urlEncodingLoop_eq_none (h : 2 ^ 16 ≤ input.length) (fuel : ℕ) (ix : UInt16)
    (out : List UInt8) : urlEncodingLoop input skipDelimiters fuel ix out = none := by
  induction fuel generalizing ix out with
  | zero => rfl
  | succ fuel ih =>
    have hix : ix.toNat < input.length := Nat.lt_of_lt_of_le ix.toNat_lt h
    rw [urlEncodingLoop, List.getElem?_eq_getElem hix]
    exact ih _ _

theorem urlEncodingLoop_eq (h : input.length < 2 ^ 16) {ix : UInt16}
    (hix : ix.toNat ≤ input.length) (fuel : ℕ) (out : List UInt8) :
    urlEncodingLoop input skipDelimiters fuel ix out =
      if input.length < fuel + ix.toNat then
        some (out ++ (input.drop ix.toNat).flatMap (encodeByte skipDelimiters))
      else none := by
  induction fuel generalizing ix out with
  | zero => rw [if_neg (by omega), urlEncodingLoop]
  | succ fuel ih =>
    rw [urlEncodingLoop]
    obtain hlt | heq := Nat.lt_or_eq_of_le hix
    · have hnext : (ix + 1).toNat = ix.toNat + 1 := by
        rw [UInt16.toNat_add]
        exact Nat.mod_eq_of_lt (Nat.lt_of_le_of_lt hlt h)
      rw [List.getElem?_eq_getElem hlt, List.drop_eq_getElem_cons hlt, List.flatMap_cons,
        ← List.append_assoc, Nat.add_right_comm, Nat.add_assoc, ← hnext]
      exact ih (hnext ▸ hlt) _
    · rw [List.getElem?_eq_none (by omega), if_pos (by omega), heq, List.drop_length,
        List.flatMap_nil, List.append_nil]

theorem urlEncoding_eq (h : input.length < 2 ^ 16) (fuel : ℕ) :
    urlEncoding fuel input skipDelimiters =
      if input.length < fuel then some (input.flatMap (encodeByte skipDelimiters)) else none :=
  urlEncodingLoop_eq h (Nat.zero_le _) fuel []

/-! ## The bytes that are written -/

theorem plain_of_isalnum (c : UInt8) (h : isalnum c = true) :
    c ≠ 0 ∧ c ≠ ascii '+' ∧ c ≠ ascii '%' := by
  refine ⟨?_, ?_, ?_⟩
  all_goals
    rintro rfl
    exact absurd h (by decide)

theorem hexDigit?_toHex_of_lt {d : UInt8} (h : d.toNat < 16) :
    toHex d ≠ 0 ∧ hexDigit? (toHex d) = some d.toNat := by
  have hdigits : ∀ n < 16, toHex (UInt8.ofNat n) ≠ 0 ∧
      hexDigit? (toHex (UInt8.ofNat n)) = some n := by
    decide
  simpa only [UInt8.ofNat_toNat] using hdigits d.toNat h

/-- The two digits of a byte. -/
theorem hexDigit?_toHex (c : UInt8) : toHex (c >>> 4) ≠ 0 ∧ toHex (c % 16) ≠ 0 ∧
    hexDigit? (toHex (c >>> 4)) = some (c.toNat / 16) ∧
    hexDigit? (toHex (c % 16)) = some (c.toNat % 16) := by
  have hhi : (c >>> 4).toNat = c.toNat / 16 := Nat.shiftRight_eq_div_pow c.toNat 4
  have hlo : (c % 16).toNat = c.toNat % 16 := UInt8.toNat_mod c 16
  have hlt := c.toNat_lt
  obtain ⟨hhi0, hhiDigit⟩ := hexDigit?_toHex_of_lt (d := c >>> 4) (by omega)
  obtain ⟨hlo0, hloDigit⟩ := hexDigit?_toHex_of_lt (d := c % 16) (by omega)
  exact ⟨hhi0, hlo0, hhi ▸ hhiDigit, hlo ▸ hloDigit⟩

/-- A byte that may stand for itself is neither a plus nor a percent sign. -/
theorem ne_of_literal {c : UInt8}
    (hskip : ∀ s ∈ skipDelimiters, ascii '%' ∉ s ∧ ascii '+' ∉ s) (hzero : c ≠ 0)
    (h : (isalnum c || skipDelimiters.any (strchr · c) || strchr nonreservedDelimiters c) = true) :
    c ≠ ascii '+' ∧ c ≠ ascii '%' := by
  simp only [Bool.or_eq_true, Option.any_eq_true, strchr, decide_eq_true_eq, beq_iff_eq] at h
  obtain (h | ⟨s, hs, h⟩) | h := h
  · exact (plain_of_isalnum c h).2
  · have hmem := h.resolve_right hzero
    exact ⟨fun hc => (hskip s hs).2 (hc ▸ hmem), fun hc => (hskip s hs).1 (hc ▸ hmem)⟩
  · have hmem := h.resolve_right hzero
    exact ⟨fun hc => absurd (hc ▸ hmem) (by decide), fun hc => absurd (hc ▸ hmem) (by decide)⟩

/-- What is written for a byte is read as that byte, but nothing is written for a zero. -/
theorem percentDecode_encodeByte (hskip : ∀ s ∈ skipDelimiters, ascii '%' ∉ s ∧ ascii '+' ∉ s)
    (c : UInt8) (rest : List UInt8) :
    percentDecode (encodeByte skipDelimiters c ++ rest) =
      (percentDecode rest).map ([c].filter (· ≠ 0) ++ ·) := by
  unfold encodeByte encodeBuffer
  split_ifs with hliteral
  · by_cases hzero : c = 0
    · subst hzero
      exact Option.map_id'.symm
    · obtain ⟨hplus, hpercent⟩ := ne_of_literal hskip hzero hliteral
      have htake : [c, 0, 0, 0].takeWhile (· ≠ 0) = [c] := by simp [hzero]
      have hfilter : [c].filter (· ≠ 0) = [c] := by simp [hzero]
      rw [htake, hfilter, List.singleton_append, percentDecode_literal hplus hpercent]
      rfl
  · have hzero : c ≠ 0 := by
      rintro rfl
      exact hliteral (by simp [strchr])
    obtain ⟨hhi0, hlo0, hhi, hlo⟩ := hexDigit?_toHex c
    have htake : [ascii '%', toHex (c >>> 4), toHex (c % 16), 0].takeWhile (· ≠ 0) =
        [ascii '%', toHex (c >>> 4), toHex (c % 16)] := by
      have hpercent : ascii '%' ≠ 0 := by decide
      simp only [List.takeWhile_cons, hhi0, hlo0, hpercent, ne_eq, not_false_eq_true,
        decide_true, not_true_eq_false, decide_false, Bool.false_eq_true, if_true, if_false]
    have hfilter : [c].filter (· ≠ 0) = [c] := by simp [hzero]
    have hbyte : UInt8.ofNat (16 * (c.toNat / 16) + c.toNat % 16) = c := by
      rw [Nat.div_add_mod, UInt8.ofNat_toNat]
    rw [htake, hfilter, List.cons_append, List.cons_append, List.singleton_append,
      percentDecode_escape hhi hlo, hbyte]
    rfl

theorem percentDecode_flatMap_encodeByte
    (hskip : ∀ s ∈ skipDelimiters, ascii '%' ∉ s ∧ ascii '+' ∉ s) (input : List UInt8) :
    percentDecode (input.flatMap (encodeByte skipDelimiters)) =
      some (input.filter (· ≠ 0)) := by
  induction input with
  | nil => rfl
  | cons c input ih =>
    rw [List.flatMap_cons, percentDecode_encodeByte hskip, ih, Option.map_some,
      ← List.filter_append]
    rfl

end Encoder

/-! ## Round trip -/

/-- Encoding ends, and its result is decoded to the text. -/
def SurvivesEncoding (input : List UInt8) (skipDelimiters : Option (List UInt8)) : Prop :=
  ∃ fuel out, urlEncoding fuel input skipDelimiters = some out ∧
    ∀ old, decodeUri out old = (VPL_OK, input)

/-- A text that is too long for the index, or that a zero byte is lost from, does not survive.
Whatever the decoder is given, it decodes or leaves its result as it was. -/
theorem urlEncoding_roundTrip_iff (input encoded old : List UInt8)
    (skipDelimiters : Option (List UInt8))
    (hskip : ∀ s ∈ skipDelimiters, ascii '%' ∉ s ∧ ascii '+' ∉ s) :
    (SurvivesEncoding input skipDelimiters ↔ input.length < 2 ^ 16 ∧ 0 ∉ input) ∧
      decodeUri encoded old =
        (percentDecode encoded).elim (VPL_ERR_INVALID, old) (VPL_OK, ·) := by
  refine ⟨⟨?_, ?_⟩, decodeUri_eq encoded old⟩
  · rintro ⟨fuel, out, hout, hdecode⟩
    by_cases hlen : input.length < 2 ^ 16
    · rw [urlEncoding_eq hlen] at hout
      split_ifs at hout
      obtain rfl := Option.some.inj hout
      have hinput := hdecode []
      rw [decodeUri_eq, percentDecode_flatMap_encodeByte hskip] at hinput
      have hfilter : input.filter (· ≠ 0) = input := (Prod.mk.inj hinput).2
      refine ⟨hlen, fun hzero => ?_⟩
      exact absurd (List.filter_eq_self.1 hfilter 0 hzero) (by decide)
    · rw [urlEncoding, urlEncodingLoop_eq_none (not_lt.1 hlen)] at hout
      cases hout
  · rintro ⟨hlen, hzero⟩
    refine ⟨input.length + 1, input.flatMap (encodeByte skipDelimiters), ?_, fun old => ?_⟩
    · rw [urlEncoding_eq hlen, if_pos (Nat.lt_succ_self _)]
    · have hfilter : input.filter (· ≠ 0) = input :=
        List.filter_eq_self.2 fun c hc => decide_eq_true fun h => hzero (h ▸ hc)
      rw [decodeUri_eq, percentDecode_flatMap_encodeByte hskip, hfilter]
      rfl

theorem urlEncoding_roundTrip_slash :
    (SurvivesEncoding (asciiBytes "a b/c%") (some (asciiBytes "/")) ↔
      (asciiBytes "a b/c%").length < 2 ^ 16 ∧ 0 ∉ asciiBytes "a b/c%") ∧
    decodeUri (asciiBytes "%4") (asciiBytes "x") =
      (percentDecode (asciiBytes "%4")).elim (VPL_ERR_INVALID, asciiBytes "x") (VPL_OK, ·) := by
  refine urlEncoding_roundTrip_iff _ _ _ _ fun s hs => ?_
  obtain rfl := Option.mem_some.1 hs
  decide

/-- A zero byte is not written, and the walk over a long text does not end. -/
theorem not_survivesEncoding : ¬SurvivesEncoding [97, 0, 98] none ∧
    ¬SurvivesEncoding (List.replicate (2 ^ 16) 97) none := by
  constructor
  · rintro ⟨fuel, out, hout, hdecode⟩
    rw [urlEncoding_eq (by decide)] at hout
    split_ifs at hout
    obtain rfl := Option.some.inj hout
    exact absurd (hdecode []) (by decide)
  · rintro ⟨fuel, out, hout, -⟩
    rw [urlEncoding, urlEncodingLoop_eq_none (by rw [List.length_replicate])] at hout
    cases hout

end PersonalCloud.Http
