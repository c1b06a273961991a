import Mathlib.Data.List.TakeWhile
import Mathlib.Logic.Function.Basic
import PersonalCloud.Http.Uri
import PersonalCloud.Lib.StdString

/-!
# Query strings

`parse_query_string` moves a cursor from one delimiter of the URI to the next one.

## Main definitions

* `parseQueryString` — the code.
* `queryPairs` — the pairs of a query, by splitting it.

## Main results

* `parseQueryString_eq` — the cursor finds exactly the pairs that splitting gives.
-/

namespace PersonalCloud.Http

open PersonalCloud.Lib

/-- The fields of a query and their values. -/
abbrev Query := List UInt8 → Option (List UInt8)

abbrev QueryPair := List UInt8 × List UInt8

/-! ## The code -/

def pairMarkers : List UInt8 :=
  asciiBytes "=&;"

def pairEnds : List UInt8 :=
  asciiBytes "&;"

/-- What one round of the loop reads, unless it skips a malformed pair, and where the next round
starts. -/
def parseRound (uri : List UInt8) (next : ℕ) : Option QueryPair × Option ℕ :=
  match findFirstOf uri pairMarkers next with
  | none => (some (substr uri next (uri.length - next), []), none)
  | some p =>
    if uri[p]? = some (ascii '&') ∨ uri[p]? = some (ascii ';') then
      (some (substr uri next (p - next), []), some (p + 1))
    else if uri.length ≤ p + 1 then (some (substr uri next (p - next), []), some (p + 1))
    else
      match findFirstOf uri pairMarkers (p + 1) with
      | none =>
        (some (substr uri next (p - next), substr uri (p + 1) (uri.length - (p + 1))), none)
      | some q =>
        if uri[q]? = some (ascii '=') then
          -- the next round starts at the end-of-pair marker, not behind it
          (none, if q + 1 < uri.length then findFirstOf uri pairEnds (q + 1) else some (q + 1))
        else
          (some (substr uri next (p - next), substr uri (p + 1) (q - (p + 1))), some (q + 1))

/-- What is done with a pair at the end of a round. -/
def storePair (query : Query) (pair : QueryPair) : Query :=
  if pair.1 = [] then query
  else
    let (err, decodedValue) := decodeUri pair.2 []
    if err = VPL_OK then Function.update query pair.1 (some decodedValue) else query

/-- The loop; `none` says that it has not ended when the fuel has. -/
def parseLoop (uri : List UInt8) : ℕ → Option ℕ → Query → Option Query
  | 0, _, _ => none
  | _ + 1, none, query => some query
  | fuel + 1, some next, query =>
    if next < uri.length then
      let (pair, next) := parseRound uri next
      parseLoop uri fuel next (pair.elim query (storePair query))
    else some query

/-- `http_request::parse_query_string` on the map that the request has. -/
def parseQueryString (fuel : ℕ) (uri : List UInt8) (query : Query) : Option Query :=
  match findFirstOf uri [ascii '?'] 0 with
  | none => some query
  | some queryPos => parseLoop uri fuel (some (queryPos + 1)) query

/-! ## The grammar -/

/-- A segment of a query. One with an empty field, or more than one equals sign, is no pair. -/
def readSegment (segment : List UInt8) : Option QueryPair :=
  match segment.splitOn (ascii '=') with
  | [field] => if field = [] then none else some (field, [])
  | [field, value] => if field = [] then none else some (field, value)
  | _ => none

def queryPairs (query : List UInt8) : List QueryPair :=
  (query.splitOnP (· ∈ pairEnds)).filterMap readSegment

/-- What comes behind the first question mark. -/
def queryOf (uri : List UInt8) : Option (List UInt8) :=
  match uri.dropWhile (· ≠ ascii '?') with
  | [] => none
  | _ :: query => some query

/-- What a value is decoded to. -/
def decodedValue? (value : List UInt8) : Option (List UInt8) :=
  if (decodeUri value []).1 = VPL_OK then some (decodeUri value []).2 else none

/-- A pair whose value cannot be decoded is dropped, and a later pair replaces an earlier one. -/
def storeDecoded (query : Query) (pair : QueryPair) : Query :=
  (decodedValue? pair.2).elim query fun value => Function.update query pair.1 (some value)

def readQuery (uri : List UInt8) (query : Query) : Query :=
  (queryOf uri).elim query fun text => (queryPairs text).foldl storeDecoded query

/-! ## Segments -/

section Segments

variable {a b c : List UInt8} {d : UInt8}

/-- A pair without a field is dropped. -/
def kept (pair : QueryPair) : Option QueryPair :=
  if pair.1 = [] then none else some pair

theorem queryPairs_of_notMem (h : ∀ c ∈ a, c ∉ pairEnds) :
    queryPairs a = (readSegment a).toList := by
  rw [queryPairs, List.splitOnP_eq_singleton fun c hc => decide_eq_false (h c hc),
    List.filterMap_cons, List.filterMap_nil]
  cases readSegment a <;> rfl

theorem queryPairs_append (ha : ∀ c ∈ a, c ∉ pairEnds) (hd : d ∈ pairEnds) :
    queryPairs (a ++ d :: b) = (readSegment a).toList ++ queryPairs b := by
  rw [queryPairs, List.splitOnP_append_cons_of_forall_mem (fun c hc => decide_eq_false (ha c hc))
    d (decide_eq_true hd), List.filterMap_cons, queryPairs]
  cases readSegment a <;> rfl

theorem queryPairs_nil : queryPairs [] = [] :=
  queryPairs_of_notMem fun _ h => absurd h List.not_mem_nil

theorem queryPairs_cons (hd : d ∈ pairEnds) : queryPairs (d :: b) = queryPairs b :=
  queryPairs_append (fun _ h => absurd h List.not_mem_nil) hd

theorem readSegment_field (ha : ascii '=' ∉ a) : readSegment a = kept (a, []) := by
  rw [readSegment, List.splitOn_eq_singleton ha]
  rfl

theorem readSegment_pair (ha : ascii '=' ∉ a) (hb : ascii '=' ∉ b) :
    readSegment (a ++ ascii '=' :: b) = kept (a, b) := by
  rw [readSegment, List.splitOn_append_cons_self_of_not_mem ha, List.splitOn_eq_singleton hb]
  rfl

theorem readSegment_malformed (a b c : List UInt8) :
    readSegment (a ++ ascii '=' :: (b ++ ascii '=' :: c)) = none := by
  rw [readSegment, List.splitOn_append_cons_self, List.splitOn_append_cons_self]
  obtain ⟨x, xs, hx⟩ := List.exists_cons_of_ne_nil (List.splitOn_ne_nil (ascii '=') a)
  obtain ⟨y, ys, hy⟩ := List.exists_cons_of_ne_nil (List.splitOn_ne_nil (ascii '=') b)
  obtain ⟨z, zs, hz⟩ := List.exists_cons_of_ne_nil (List.splitOn_ne_nil (ascii '=') c)
  rw [hx, hy, hz]
  match xs, ys with
  | [], [] => rfl
  | [], _ :: _ => rfl
  | [_], [] => rfl
  | [_], _ :: _ => rfl
  | _ :: _ :: _, [] => rfl
  | _ :: _ :: _, _ :: _ => rfl

theorem notMem_pairMarkers (h : ∀ c ∈ a, c ∉ pairMarkers) :
    ascii '=' ∉ a ∧ ∀ c ∈ a, c ∉ pairEnds :=
  ⟨fun hmem => h _ hmem (by decide), fun c hc hend => h c hc (List.mem_cons_of_mem _ hend)⟩

theorem eq_or_mem_of_mem_pairMarkers (h : d ∈ pairMarkers) : d = ascii '=' ∨ d ∈ pairEnds :=
  List.mem_cons.1 h

end Segments

/-! ## One round -/

section Round

variable {uri : List UInt8} {next : ℕ}

/-- The pairs that are left when the next round starts at the given position. -/
def pairsFrom (uri : List UInt8) (next : Option ℕ) : List QueryPair :=
  queryPairs (next.elim [] uri.drop)

/-- The round has read what the pairs start with, and moves on. -/
def ReadsPair (uri : List UInt8) (next : ℕ) (r : Option QueryPair × Option ℕ) : Prop :=
  queryPairs (uri.drop next) = (r.1.bind kept).toList ++ pairsFrom uri r.2 ∧
    ∀ n, r.2 = some n → next < n ∧ n ≤ uri.length

section Reads

variable {a b c : List UInt8} {d : UInt8} (ha : ∀ c ∈ a, c ∉ pairMarkers)
  (hb : ∀ c ∈ b, c ∉ pairMarkers)

include ha

theorem reads_field (hsplit : uri.drop next = a ++ d :: b) (hd : d ∈ pairEnds) :
    ReadsPair uri next (some (a, []), some (next + a.length + 1)) := by
  obtain ⟨heq, hends⟩ := notMem_pairMarkers ha
  constructor
  · rw [hsplit, queryPairs_append hends hd, readSegment_field heq, pairsFrom, Option.elim_some,
      drop_behind hsplit]
    rfl
  · rintro n ⟨⟩
    have := length_of_split hsplit
    omega

theorem reads_lastField (hsplit : uri.drop next = a ++ [ascii '=']) :
    ReadsPair uri next (some (a, []), some (next + a.length + 1)) := by
  obtain ⟨heq, hends⟩ := notMem_pairMarkers ha
  constructor
  · have hmem : ∀ c ∈ a ++ [ascii '='], c ∉ pairEnds :=
      List.forall_mem_append.2 ⟨hends, by simp only [List.forall_mem_singleton]; decide⟩
    rw [hsplit, queryPairs_of_notMem hmem, readSegment_pair heq List.not_mem_nil, pairsFrom,
      Option.elim_some, drop_behind hsplit, queryPairs_nil, List.append_nil]
    rfl
  · rintro n ⟨⟩
    have := length_of_split hsplit
    omega

include hb

theorem forall_notMem_pairEnds : ∀ c ∈ a ++ ascii '=' :: b, c ∉ pairEnds :=
  List.forall_mem_append.2
    ⟨(notMem_pairMarkers ha).2, List.forall_mem_cons.2 ⟨by decide, (notMem_pairMarkers hb).2⟩⟩

theorem reads_lastPair (hsplit : uri.drop next = a ++ ascii '=' :: b) :
    ReadsPair uri next (some (a, b), none) := by
  constructor
  · rw [hsplit, queryPairs_of_notMem (forall_notMem_pairEnds ha hb),
      readSegment_pair (notMem_pairMarkers ha).1 (notMem_pairMarkers hb).1]
    exact (List.append_nil _).symm
  · rintro n ⟨⟩

theorem reads_pair (hsplit : uri.drop next = a ++ ascii '=' :: (b ++ d :: c))
    (hd : d ∈ pairEnds) :
    ReadsPair uri next (some (a, b), some (next + a.length + 1 + b.length + 1)) := by
  have hvalue := drop_behind hsplit
  constructor
  · rw [hsplit, ← List.cons_append, ← List.append_assoc,
      queryPairs_append (forall_notMem_pairEnds ha hb) hd,
      readSegment_pair (notMem_pairMarkers ha).1 (notMem_pairMarkers hb).1, pairsFrom,
      Option.elim_some, drop_behind hvalue]
    rfl
  · rintro n ⟨⟩
    have := length_of_split hvalue
    omega

/-- The end-of-pair marker behind a malformed pair makes an empty segment, which is dropped. -/
theorem reads_malformed (hsplit : uri.drop next = a ++ ascii '=' :: (b ++ ascii '=' :: c)) :
    ReadsPair uri next (none,
      if next + a.length + 1 + b.length + 1 < uri.length then
        findFirstOf uri pairEnds (next + a.length + 1 + b.length + 1)
      else some (next + a.length + 1 + b.length + 1)) := by
  have hvalue := drop_behind hsplit
  have hrest := drop_behind hvalue
  have hlen := length_of_split hvalue
  have hfront := forall_notMem_pairEnds ha hb
  have hpairs : ∀ e, (∀ x ∈ e, x ∉ pairEnds) →
      ∀ x ∈ a ++ ascii '=' :: (b ++ ascii '=' :: e), x ∉ pairEnds := fun e he => by
    rw [← List.cons_append, ← List.append_assoc]
    exact List.forall_mem_append.2 ⟨hfront, List.forall_mem_cons.2 ⟨by decide, he⟩⟩
  obtain hall | ⟨e, d, f, rfl, he, hd⟩ := forall_notMem_or_split pairEnds c
  · have hnone : queryPairs (uri.drop next) = [] := by
      rw [hsplit, queryPairs_of_notMem (hpairs c hall), readSegment_malformed]
      rfl
    split_ifs with hlt
    · rw [findFirstOf_eq_none (by rwa [hrest])]
      exact ⟨hnone, fun n hn => by cases hn⟩
    · refine ⟨?_, fun n hn => ?_⟩
      · rw [hnone, pairsFrom, Option.elim_some, List.drop_of_length_le (not_lt.1 hlt),
          queryPairs_nil]
        rfl
      · cases hn
        omega
  · have hend := length_of_split hrest
    have hmarker : uri.drop (next + a.length + 1 + b.length + 1 + e.length) = d :: f := by
      rw [← List.drop_drop, hrest, List.drop_left]
    have hsegments : queryPairs (uri.drop next) = queryPairs f := by
      have happend : a ++ ascii '=' :: (b ++ ascii '=' :: (e ++ d :: f)) =
          (a ++ ascii '=' :: (b ++ ascii '=' :: e)) ++ d :: f := by
        simp only [List.append_assoc, List.cons_append]
      rw [hsplit, happend, queryPairs_append (hpairs e he) hd, readSegment_malformed]
      rfl
    rw [if_pos (by omega), findFirstOf_eq_some hrest he hd]
    refine ⟨?_, fun n hn => ?_⟩
    · rw [hsegments, pairsFrom, Option.elim_some, hmarker, queryPairs_cons hd]
      rfl
    · cases hn
      omega

end Reads

theorem mem_pairEnds {d : UInt8} : d ∈ pairEnds ↔ d = ascii '&' ∨ d = ascii ';' := by
  rw [← List.mem_pair]
  rfl

/-- The cases are those of the source: what is found behind the field, and behind its equals
sign. -/
theorem parseRound_reads (uri : List UInt8) (next : ℕ) :
    ReadsPair uri next (parseRound uri next) := by
  unfold parseRound
  obtain hall | ⟨a, d, rest, hsplit, ha, hd⟩ := forall_notMem_or_split pairMarkers (uri.drop next)
  · obtain ⟨heq, hends⟩ := notMem_pairMarkers hall
    rw [findFirstOf_eq_none hall]
    refine ⟨?_, fun n hn => by cases hn⟩
    rw [queryPairs_of_notMem hends, readSegment_field heq, substr_all]
    exact (List.append_nil _).symm
  have hfield : substr uri next (next + a.length - next) = a := by
    rw [Nat.add_sub_cancel_left, substr_eq hsplit]
  rw [findFirstOf_eq_some hsplit ha hd]
  dsimp only
  rw [getElem?_delimiter hsplit, hfield]
  by_cases hend : d ∈ pairEnds
  · rw [if_pos (by simpa using mem_pairEnds.1 hend)]
    exact reads_field ha hsplit hend
  obtain rfl := (eq_or_mem_of_mem_pairMarkers hd).resolve_right hend
  have hvalue := drop_behind hsplit
  have hlen := length_of_split hsplit
  rw [if_neg (by decide)]
  cases rest with
  | nil =>
    rw [List.length_nil] at hlen
    rw [if_pos (by omega)]
    exact reads_lastField ha hsplit
  | cons x rest =>
    rw [List.length_cons] at hlen
    rw [if_neg (by omega)]
    obtain hall | ⟨b, d, c, hrest, hb, hd⟩ := forall_notMem_or_split pairMarkers (x :: rest)
    · rw [findFirstOf_eq_none (by rwa [hvalue])]
      dsimp only
      rw [substr_all, hvalue]
      exact reads_lastPair ha hall hsplit
    · rw [hrest] at hsplit hvalue
      rw [findFirstOf_eq_some hvalue hb hd]
      dsimp only
      rw [getElem?_delimiter hvalue]
      obtain rfl | hend := eq_or_mem_of_mem_pairMarkers hd
      · rw [if_pos rfl]
        exact reads_malformed ha hb hsplit
      · have hne : ¬some d = some (ascii '=') := by
          rintro ⟨⟩
          exact absurd hend (by decide)
        rw [if_neg hne, Nat.add_sub_cancel_left, substr_eq hvalue]
        exact reads_pair ha hb hsplit hend

end Round

/-! ## The loop -/

theorem storePair_eq (query : Query) (pair : QueryPair) :
    storePair query pair = (kept pair).elim query (storeDecoded query) := by
  unfold storePair kept
  split_ifs with hfield
  · rfl
  · rw [Option.elim_some, storeDecoded, decodedValue?]
    cases decodeUri pair.2 [] with
    | mk err decodedValue =>
      dsimp only
      split_ifs <;> rfl

theorem foldl_kept (query : Query) (pair : Option QueryPair) :
    (pair.bind kept).toList.foldl storeDecoded query = pair.elim query (storePair query) := by
  cases pair with
  | none => rfl
  | some pair =>
    rw [Option.elim_some, storePair_eq, Option.bind_some]
    cases kept pair <;> rfl

variable {uri : List UInt8}

theorem parseLoop_eq {fuel : ℕ} {next : Option ℕ} (hfuel : 0 < fuel)
    (hnext : ∀ n, next = some n → uri.length < fuel + n) (query : Query) :
    parseLoop uri fuel next query = some ((pairsFrom uri next).foldl storeDecoded query) := by
  induction fuel generalizing next query with
  | zero => exact absurd hfuel (Nat.lt_irrefl 0)
  | succ fuel ih =>
    cases next with
    | none =>
      rw [parseLoop, pairsFrom, Option.elim_none, queryPairs_nil]
      rfl
    | some next =>
      rw [parseLoop]
      split_ifs with hlt
      · obtain ⟨hpairs, hprogress⟩ := parseRound_reads uri next
        have hlen := hnext next rfl
        rw [pairsFrom, Option.elim_some, hpairs, List.foldl_append, foldl_kept]
        refine ih (by omega) (fun n hn => ?_) _
        have := hprogress n hn
        omega
      · rw [pairsFrom, Option.elim_some, List.drop_of_length_le (not_lt.1 hlt), queryPairs_nil]
        rfl

theorem queryOf_eq_none (h : ∀ c ∈ uri, c ∉ [ascii '?']) : queryOf uri = none := by
  have hdrop : uri.dropWhile (· ≠ ascii '?') = [] :=
    List.dropWhile_eq_nil_iff.2 fun c hc => decide_eq_true fun h' =>
      h c hc (List.mem_singleton.2 h')
  rw [queryOf, hdrop]

theorem queryOf_append {a b : List UInt8} (ha : ∀ c ∈ a, c ∉ [ascii '?']) :
    queryOf (a ++ ascii '?' :: b) = some b := by
  have hdrop : (a ++ ascii '?' :: b).dropWhile (· ≠ ascii '?') = ascii '?' :: b := by
    rw [List.dropWhile_append_of_pos (p := fun c => decide (c ≠ ascii '?'))
      fun c hc => decide_eq_true fun h' => ha c hc (List.mem_singleton.2 h')]
    exact List.dropWhile_cons_of_neg (by simp)
  rw [queryOf, hdrop]

/-- Parsing ends, and adds the pairs of the query to the map. -/
theorem parseQueryString_eq (uri : List UInt8) (query : Query) (fuel : ℕ)
    (h : uri.length < fuel) : parseQueryString fuel uri query = some (readQuery uri query) := by
  unfold parseQueryString readQuery
  obtain hall | ⟨a, d, b, hsplit, ha, hd⟩ := forall_notMem_or_split [ascii '?'] uri
  · have hdrop : ∀ c ∈ uri.drop 0, c ∉ [ascii '?'] := hall
    rw [findFirstOf_eq_none hdrop, queryOf_eq_none hall]
    rfl
  · obtain rfl := List.mem_singleton.1 hd
    have hdrop : uri.drop 0 = a ++ ascii '?' :: b := hsplit
    have hpairs : pairsFrom uri (some (0 + a.length + 1)) = queryPairs b := by
      rw [pairsFrom, Option.elim_some, drop_behind hdrop]
    have hquery : queryOf uri = some b := hsplit ▸ queryOf_append ha
    rw [findFirstOf_eq_some hdrop ha hd, hquery]
    dsimp only
    rw [parseLoop_eq (by omega) (fun n hn => by cases hn; omega), hpairs]
    rfl

example : (readQuery (asciiBytes "/rf/rd?abc=%31+3&zzz=11=22;def=%3;ghi") fun _ => none)
    (asciiBytes "abc") = some (asciiBytes "1 3") := by
  decide +kernel

theorem parseQueryString_testUri :
    parseQueryString 34 (asciiBytes "/tf/rd?abc=123&zzz=11=22&def=456") (fun _ => none) =
      some (readQuery (asciiBytes "/tf/rd?abc=123&zzz=11=22&def=456") fun _ => none) :=
  parseQueryString_eq _ _ _ (by decide)

end PersonalCloud.Http
