import PersonalCloud.Http.Uri
import PersonalCloud.Lib.StdString

/-!
# Byte ranges

A `Range` header is read as a list of pairs of digit strings, each of which is then turned into
positions within an entity.

## Main definitions

* `parseRangesSpec`, `convToAbsRange` — the code.
* `selectedRange` — the bytes that a pair selects.

## Main results

* `convToAbsRange_grants_iff` — for which pairs and entities the positions are right.
-/

namespace PersonalCloud.Http

open PersonalCloud.Lib

/-- The ends of a range, as texts. -/
abbrev RangePair := List UInt8 × List UInt8

/-! ## The code -/

/-- `VPLHttp_Trim`. -/
def trim (s : List UInt8) : List UInt8 :=
  ((s.dropWhile isspace).reverse.dropWhile isspace).reverse

/-- The range that a token holds behind its unit, if it is kept. -/
def readByteRange (currentToken : List UInt8) : Option RangePair :=
  match findFirstOf currentToken [ascii '-'] 0 with
  | none => none
  | some dashPos =>
    let firstBytePos := trim (substr currentToken 0 dashPos)
    let lastBytePos := trim (currentToken.drop (dashPos + 1))
    if firstBytePos.all isdigit = false then none
    else if lastBytePos.all isdigit = false then none
    else if firstBytePos = [] ∧ lastBytePos = [] then none
    else if lastBytePos ≠ [] ∧ strtoull firstBytePos > strtoull lastBytePos then none
    else some (firstBytePos, lastBytePos)

/-- One token of the header: whether the unit is bytes from here on, and the range. -/
def readToken (isBytesUnit : Bool) (currentToken : List UInt8) : Bool × Option RangePair :=
  match findFirstOf currentToken [ascii '='] 0 with
  | some optionalBytes =>
    if trim (substr currentToken 0 optionalBytes) ≠ asciiBytes "bytes" then (false, none)
    else (true, readByteRange (currentToken.drop (optionalBytes + 1)))
  | none => if !isBytesUnit then (false, none) else (true, readByteRange currentToken)

/-- The loop over the tokens; `none` says that it has not ended when the fuel has. -/
def parseRangesLoop (rangesSpec : List UInt8) :
    ℕ → ℕ → Bool → List RangePair → Option (List RangePair)
  | 0, _, _, _ => none
  | fuel + 1, startToken, isBytesUnit, ranges =>
    if startToken < rangesSpec.length then
      let endToken := (findFirstOf rangesSpec [ascii ','] startToken).getD rangesSpec.length
      let (isBytesUnit, range) :=
        readToken isBytesUnit (substr rangesSpec startToken (endToken - startToken))
      parseRangesLoop rangesSpec fuel (endToken + 1) isBytesUnit (ranges ++ range.toList)
    else some ranges

/-- `VPLHttp_ParseRangesSpec` with an empty vector. -/
def parseRangesSpec (rangesSpec : List UInt8) : Option (List RangePair) :=
  parseRangesLoop rangesSpec (rangesSpec.length + 1) 0 false []

/-- What a conversion returns and leaves in its two results, and what it has subtracted from
what. -/
structure AbsRange where
  err : ℤ
  absFirstBytePos : UInt64
  absLastBytePos : UInt64
  subtractions : List (UInt64 × UInt64)
  deriving DecidableEq

/-- `VPLHttp_ConvToAbsRange`. -/
def convToAbsRange (range : RangePair) (entitySize absFirstBytePos absLastBytePos : UInt64) :
    AbsRange :=
  if range.1 = [] then
    if range.2 = [] then ⟨VPL_ERR_INVALID, absFirstBytePos, absLastBytePos, []⟩
    else
      let suffixLen := strtoull range.2
      ⟨VPL_OK, entitySize - suffixLen, entitySize - 1, [(entitySize, suffixLen), (entitySize, 1)]⟩
  else if range.2 = [] then
    ⟨VPL_OK, strtoull range.1, entitySize - 1, [(entitySize, 1)]⟩
  else
    let first := strtoull range.1
    let last := strtoull range.2
    if first > last then ⟨VPL_ERR_INVALID, first, last, []⟩
    else if last ≥ entitySize then ⟨VPL_OK, first, entitySize - 1, [(entitySize, 1)]⟩
    else ⟨VPL_OK, first, last, []⟩

/-! ## The bytes that a range selects -/

/-- The first and the last byte, if there are any. A suffix that is longer than the entity is the
whole of it, and a last position behind the end is the last byte. -/
def selectedRange (range : RangePair) (entitySize : ℕ) : Option (ℕ × ℕ) :=
  if range.1 = [] then
    if decimal range.2 = 0 ∨ entitySize = 0 then none
    else some (entitySize - decimal range.2, entitySize - 1)
  else if entitySize ≤ decimal range.1 then none
  else if range.2 = [] then some (decimal range.1, entitySize - 1)
  else if decimal range.2 < decimal range.1 then none
  else some (decimal range.1, min (decimal range.2) (entitySize - 1))

/-- The conversion grants the bytes that are selected, and is an error if there are none. -/
structure Grants (range : RangePair) (entitySize : UInt64) (r : AbsRange) : Prop where
  inside : r.err = VPL_OK →
    r.absFirstBytePos ≤ r.absLastBytePos ∧ r.absLastBytePos < entitySize
  selected : r.err = VPL_OK →
    selectedRange range entitySize.toNat =
      some (r.absFirstBytePos.toNat, r.absLastBytePos.toNat)
  rejected : selectedRange range entitySize.toNat = none → r.err ≠ VPL_OK
  noWrap : ∀ d ∈ r.subtractions, d.2 ≤ d.1

/-- The range selects a byte, and no more bytes than there are. -/
def Selectable (range : RangePair) (entitySize : UInt64) : Prop :=
  if range.1 = [] then 0 < strtoull range.2 ∧ strtoull range.2 ≤ entitySize
  else strtoull range.1 < entitySize

/-! ## The pairs that are produced -/

/-- What the parser has checked of a pair. -/
structure Checked (range : RangePair) : Prop where
  first : ∀ c ∈ range.1, isdigit c = true
  last : ∀ c ∈ range.2, isdigit c = true
  nonempty : range.1 = [] → range.2 ≠ []
  ordered : range.2 ≠ [] → strtoull range.1 ≤ strtoull range.2

theorem checked_of_readByteRange {currentToken : List UInt8} {range : RangePair}
    (h : readByteRange currentToken = some range) : Checked range := by
  unfold readByteRange at h
  cases hdash : findFirstOf currentToken [ascii '-'] 0 with
  | none =>
    rw [hdash] at h
    cases h
  | some dashPos =>
    rw [hdash] at h
    dsimp only at h
    split_ifs at h with hfirst hlast hempty hordered
    obtain rfl := Option.some.inj h
    exact ⟨List.all_eq_true.1 (eq_true_of_ne_false hfirst),
      List.all_eq_true.1 (eq_true_of_ne_false hlast),
      fun h1 h2 => hempty ⟨h1, h2⟩, fun h2 => UInt64.not_lt.1 fun hlt => hordered ⟨h2, hlt⟩⟩

theorem checked_of_readToken {isBytesUnit : Bool} {currentToken : List UInt8} {range : RangePair}
    (h : (readToken isBytesUnit currentToken).2 = some range) : Checked range := by
  unfold readToken at h
  cases hunit : findFirstOf currentToken [ascii '='] 0 with
  | none =>
    rw [hunit] at h
    dsimp only at h
    split_ifs at h
    exact checked_of_readByteRange h
  | some optionalBytes =>
    rw [hunit] at h
    dsimp only at h
    split_ifs at h
    exact checked_of_readByteRange h

theorem parseRangesLoop_checked {rangesSpec : List UInt8} {fuel startToken : ℕ}
    {isBytesUnit : Bool} {ranges result : List RangePair} (hranges : ∀ r ∈ ranges, Checked r)
    (h : parseRangesLoop rangesSpec fuel startToken isBytesUnit ranges = some result) :
    ∀ r ∈ result, Checked r := by
  induction fuel generalizing startToken isBytesUnit ranges with
  | zero => cases h
  | succ fuel ih =>
    rw [parseRangesLoop] at h
    split_ifs at h
    · refine ih (List.forall_mem_append.2 ⟨hranges, fun r hr => ?_⟩) h
      exact checked_of_readToken (Option.mem_toList.1 hr)
    · obtain rfl := Option.some.inj h
      exact hranges

theorem checked_of_mem_parseRangesSpec {rangesSpec : List UInt8} {ranges : List RangePair}
    {range : RangePair} (h : parseRangesSpec rangesSpec = some ranges) (hmem : range ∈ ranges) :
    Checked range :=
  parseRangesLoop_checked (fun _ h => absurd h List.not_mem_nil) h range hmem

/-- Every round ends behind where it has started. -/
theorem parseRangesLoop_isSome (rangesSpec : List UInt8) {fuel startToken : ℕ}
    (hfuel : rangesSpec.length < fuel + startToken) (hpos : 0 < fuel) (isBytesUnit : Bool)
    (ranges : List RangePair) :
    (parseRangesLoop rangesSpec fuel startToken isBytesUnit ranges).isSome := by
  induction fuel generalizing startToken isBytesUnit ranges with
  | zero => exact absurd hpos (Nat.lt_irrefl 0)
  | succ fuel ih =>
    rw [parseRangesLoop]
    split_ifs with hlt
    · have hend : startToken ≤
          (findFirstOf rangesSpec [ascii ','] startToken).getD rangesSpec.length := by
        cases hfind : findFirstOf rangesSpec [ascii ','] startToken with
        | none => exact hlt.le
        | some endToken => exact le_of_findFirstOf hfind
      exact ih (by omega) (by omega) _ _
    · rfl

theorem parseRangesSpec_isSome (rangesSpec : List UInt8) : (parseRangesSpec rangesSpec).isSome :=
  parseRangesLoop_isSome rangesSpec (Nat.lt_succ_self _) (Nat.succ_pos _) _ _

/-! ## The conversion -/

section Conversion

variable {range : RangePair} {entitySize : UInt64}

theorem toNat_sub_one (entitySize : UInt64) (h : 0 < entitySize.toNat) :
    (entitySize - 1).toNat = entitySize.toNat - 1 :=
  UInt64.toNat_sub_of_le _ _ (UInt64.le_iff_toNat_le.2 h)

/-- With numbers for the words. -/
theorem grants_iff {first last : UInt64} {subtractions : List (UInt64 × UInt64)} :
    Grants range entitySize ⟨VPL_OK, first, last, subtractions⟩ ↔
      selectedRange range entitySize.toNat = some (first.toNat, last.toNat) ∧
        first.toNat ≤ last.toNat ∧ last.toNat < entitySize.toNat ∧
        ∀ d ∈ subtractions, d.2.toNat ≤ d.1.toNat := by
  constructor
  · intro h
    exact ⟨h.selected rfl, UInt64.le_iff_toNat_le.1 (h.inside rfl).1,
      UInt64.lt_iff_toNat_lt.1 (h.inside rfl).2,
      fun d hd => UInt64.le_iff_toNat_le.1 (h.noWrap d hd)⟩
  · rintro ⟨hselected, hle, hlt, hwrap⟩
    refine ⟨fun _ => ⟨UInt64.le_iff_toNat_le.2 hle, UInt64.lt_iff_toNat_lt.2 hlt⟩,
      fun _ => hselected, fun h => ?_, fun d hd => UInt64.le_iff_toNat_le.2 (hwrap d hd)⟩
    rw [h] at hselected
    cases hselected

variable (hc : Checked range) (first last : UInt64)

include hc

theorem grants_suffix (h1 : range.1 = []) :
    Grants range entitySize (convToAbsRange range entitySize first last) ↔
      0 < strtoull range.2 ∧ strtoull range.2 ≤ entitySize := by
  have hsuffix := toNat_strtoull hc.last
  have hsize := entitySize.toNat_lt
  rw [convToAbsRange, if_pos h1, if_neg (hc.nonempty h1)]
  dsimp only
  rw [grants_iff, selectedRange, if_pos h1, UInt64.lt_iff_toNat_lt, UInt64.le_iff_toNat_le,
    List.forall_mem_cons, List.forall_mem_singleton]
  constructor
  · rintro ⟨hselected, -, hlt, hwrap, -⟩
    split_ifs at hselected with hnone
    refine ⟨?_, hwrap⟩
    rw [hsuffix, UInt64.toNat_zero]
    omega
  · rintro ⟨hpos, hle⟩
    rw [UInt64.toNat_zero] at hpos
    have hlast := toNat_sub_one entitySize (by omega)
    have hfirst := UInt64.toNat_sub_of_le _ _ (UInt64.le_iff_toNat_le.2 hle)
    rw [if_neg (by omega), hlast, hfirst]
    refine ⟨?_, by omega, by omega, hle, by change 1 ≤ entitySize.toNat; omega⟩
    congr 2
    omega

theorem grants_from (h1 : range.1 ≠ []) (h2 : range.2 = []) :
    Grants range entitySize (convToAbsRange range entitySize first last) ↔
      strtoull range.1 < entitySize := by
  have hfirst := toNat_strtoull hc.first
  have hsize := entitySize.toNat_lt
  rw [convToAbsRange, if_neg h1, if_pos h2, grants_iff, selectedRange, if_neg h1, if_pos h2,
    UInt64.lt_iff_toNat_lt, List.forall_mem_singleton]
  constructor
  · rintro ⟨hselected, -, -, -⟩
    split_ifs at hselected with hnone
    omega
  · intro hlt
    have hlast := toNat_sub_one entitySize (by omega)
    rw [if_neg (by omega), hlast]
    refine ⟨?_, by omega, by omega, by change 1 ≤ entitySize.toNat; omega⟩
    congr 2
    omega

theorem grants_between (h1 : range.1 ≠ []) (h2 : range.2 ≠ []) :
    Grants range entitySize (convToAbsRange range entitySize first last) ↔
      strtoull range.1 < entitySize := by
  have hfirst := toNat_strtoull hc.first
  have hlast := toNat_strtoull hc.last
  have hordered := UInt64.le_iff_toNat_le.1 (hc.ordered h2)
  have hsize := entitySize.toNat_lt
  rw [convToAbsRange, if_neg h1, if_neg h2]
  dsimp only
  rw [if_neg (UInt64.not_lt.2 (hc.ordered h2)), UInt64.lt_iff_toNat_lt]
  split_ifs with hend
  · have hend := UInt64.le_iff_toNat_le.1 hend
    rw [grants_iff, selectedRange, if_neg h1, if_neg h2, List.forall_mem_singleton]
    constructor
    · rintro ⟨hselected, -, -, -⟩
      split_ifs at hselected with hnone
      omega
    · intro hlt
      have hsub := toNat_sub_one entitySize (by omega)
      rw [if_neg (by omega), if_neg (by omega), hsub]
      refine ⟨?_, by omega, by omega, by change 1 ≤ entitySize.toNat; omega⟩
      congr 2 <;> omega
  · have hend := UInt64.lt_iff_toNat_lt.1 (UInt64.not_le.1 hend)
    rw [grants_iff, selectedRange, if_neg h1, if_neg h2]
    refine iff_of_true ⟨?_, hordered, hend, fun d hd => absurd hd List.not_mem_nil⟩
      (hordered.trans_lt hend)
    rw [if_neg (by omega), if_neg (by omega)]
    congr 2 <;> omega

theorem grants_iff_selectable :
    Grants range entitySize (convToAbsRange range entitySize first last) ↔
      Selectable range entitySize := by
  unfold Selectable
  split_ifs with h1
  · exact grants_suffix hc first last h1
  · by_cases h2 : range.2 = []
    · exact grants_from hc first last h1 h2
    · exact grants_between hc first last h1 h2

end Conversion

/-- Of the pairs that are read from a header, those that select bytes are granted them. A pair
that selects none is not rejected, and a suffix that is too long is no suffix any more. -/
theorem convToAbsRange_grants_iff {rangesSpec : List UInt8} {ranges : List RangePair}
    {range : RangePair} (hparse : parseRangesSpec rangesSpec = some ranges)
    (hmem : range ∈ ranges) (entitySize first last : UInt64) :
    Grants range entitySize (convToAbsRange range entitySize first last) ↔
      Selectable range entitySize :=
  grants_iff_selectable (checked_of_mem_parseRangesSpec hparse hmem) first last

theorem convToAbsRange_grants_suffix :
    Grants ([], asciiBytes "2") 5 (convToAbsRange ([], asciiBytes "2") 5 0 0) ↔
      Selectable ([], asciiBytes "2") 5 :=
  convToAbsRange_grants_iff
    (show parseRangesSpec (asciiBytes "bytes=0-4, -2") =
      some [(asciiBytes "0", asciiBytes "4"), ([], asciiBytes "2")] by decide +kernel)
    (by decide) 5 0 0

/-- The last ten bytes of five, and a position at the end. -/
theorem not_convToAbsRange_grants :
    parseRangesSpec (asciiBytes "bytes=-10,5-") =
      some [([], asciiBytes "10"), (asciiBytes "5", [])] ∧
    ¬Grants ([], asciiBytes "10") 5 (convToAbsRange ([], asciiBytes "10") 5 0 0) ∧
    ¬Grants (asciiBytes "5", []) 5 (convToAbsRange (asciiBytes "5", []) 5 0 0) := by
  refine ⟨by decide +kernel, fun h => ?_, fun h => ?_⟩
  · exact absurd (h.inside rfl).1 (by decide +kernel)
  · exact absurd (h.inside rfl).1 (by decide +kernel)

end PersonalCloud.Http
