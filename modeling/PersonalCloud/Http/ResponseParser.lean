import Mathlib.Data.List.Lex
import PersonalCloud.Http.Lines
import PersonalCloud.Http.Stream
import PersonalCloud.Lib.OrdMap

/-!
# Accepting a response

`add_input` takes lines until it has found the blank one behind the headers, and then as much of
the body as `Content-Length` says. It stops at the end of the buffer, and where the body is
complete.

## Main definitions

* `HttpResponse.addInput` — the code.
* `HttpResponse.take` — what it comes to for one byte.

## Main results

* `addInput_eq_feed` — the code does what taking the bytes one by one does.
-/

namespace PersonalCloud.Http

open PersonalCloud.Lib

/-- What two names are compared by. -/
def caseless (name : List UInt8) : List ℕ :=
  name.map fun c => (tolower c).toNat

/-- The map holds each name as it was first written. -/
structure HttpResponse where
  response : Int32
  responseDone : Bool
  headersDone : Bool
  bodyLen : UInt64
  bodySoFar : UInt64
  noBody : Bool
  headers : OrdMap (List ℕ) (List UInt8 × List UInt8)
  content : List UInt8
  lineSoFar : List UInt8

namespace HttpResponse

def start (noBody : Bool) : HttpResponse where
  response := 500
  responseDone := false
  headersDone := false
  bodyLen := 0
  bodySoFar := 0
  noBody := noBody
  headers := .empty
  content := []
  lineSoFar := []

/-! ## The code -/

/-- `%d`: blanks, a sign, digits, at least one. A number that is too large for the type is the
largest or the smallest `long`, of which the low half is kept. -/
def scanInt (s : List UInt8) : Option Int32 :=
  let s := s.dropWhile isspace
  let negative := s.head? = some (ascii '-')
  let digits := (if negative ∨ s.head? = some (ascii '+') then s.tail else s).takeWhile isdigit
  let n : ℤ := if negative then -decimal digits else decimal digits
  if digits = [] then none else some (.ofInt (max (-2 ^ 63) (min (2 ^ 63 - 1) n)))

/-- `add_response`: the number behind the first blank, if there is one. -/
def addResponse (r : HttpResponse) (line : List UInt8) : HttpResponse :=
  { r with response := (scanInt (line.dropWhile fun c => c ≠ ascii ' ')).getD r.response }

/-- `find_header`. -/
def findHeader (r : HttpResponse) (key : List UInt8) : Option (List UInt8) :=
  (r.headers.find? (caseless key)).map Prod.snd

/-- `add_header` of a name and a value. -/
def addField (r : HttpResponse) (hname val : List UInt8) : HttpResponse :=
  match r.headers.find? (caseless hname) with
  | some (name, value) =>
    { r with headers := r.headers.insert (caseless hname) (name, value ++ ascii ',' :: val) }
  | none => { r with headers := r.headers.insert (caseless hname) (hname, val) }

/-- `add_header` of a line. -/
def addHeader (r : HttpResponse) (header : List UInt8) : HttpResponse :=
  match findFirstOf header [ascii ':'] 0 with
  | none => r
  | some nameEnd => r.addField (substr header 0 nameEnd) (stripBlanks (header.drop (nameEnd + 1)))

def addContent (r : HttpResponse) (data : List UInt8) : HttpResponse :=
  { r with
    content := r.content ++ data
    bodySoFar := r.bodySoFar + .ofNat data.length }

/-- The blank line behind the headers. -/
def endHeaders (r : HttpResponse) : HttpResponse :=
  let bodyLen := (r.findHeader (asciiBytes "Content-Length")).elim 0 strtoull
  { r with headersDone := true, bodyLen := if r.noBody then 0 else bodyLen }

/-- What a line does, without its end. -/
def acceptLine (r : HttpResponse) : HttpResponse :=
  if ¬r.responseDone then
    { r.addResponse r.lineSoFar with responseDone := true, lineSoFar := [] }
  else if r.lineSoFar = [] then r.endHeaders
  else { r.addHeader r.lineSoFar with lineSoFar := [] }

/-- `add_input`, with the number of bytes accepted. -/
def addInputLoop : ℕ → HttpResponse → List UInt8 → HttpResponse × ℕ
  | 0, r, _ => (r, 0)
  | fuel + 1, r, inbuf =>
    if inbuf = [] then (r, 0)
    else if ¬r.responseDone ∨ ¬r.headersDone then
      let (line, rest) := splitLine inbuf
      let r := { r with lineSoFar := r.lineSoFar ++ line }
      if r.lineSoFar.getLast? ≠ some newline then (r, line.length)
      else
        let r := acceptLine { r with lineSoFar := stripNewline r.lineSoFar }
        let (r, n) := addInputLoop fuel r rest
        (r, line.length + n)
    else
      let acceptLen := min inbuf.length (r.bodyLen - r.bodySoFar).toNat
      let r := r.addContent (inbuf.take acceptLen)
      if r.bodyLen = r.bodySoFar then (r, acceptLen)
      else
        let (r, n) := addInputLoop fuel r (inbuf.drop acceptLen)
        (r, acceptLen + n)

def addInput (r : HttpResponse) (inbuf : List UInt8) : HttpResponse × ℕ :=
  addInputLoop inbuf.length r inbuf

/-! ## Byte by byte -/

/-- What the end of a line does. -/
def endLine (r : HttpResponse) : HttpResponse :=
  acceptLine { r with lineSoFar := stripNewline r.lineSoFar }

/-- Take a byte, unless the body is complete. -/
def take (r : HttpResponse) (c : UInt8) : Option HttpResponse :=
  if ¬r.responseDone ∨ ¬r.headersDone then
    let r := { r with lineSoFar := r.lineSoFar ++ [c] }
    some (if c = newline then r.endLine else r)
  else if r.bodyLen = r.bodySoFar then none
  else some (r.addContent [c])

/-- The body is counted from the end of the headers on, and never beyond its length. -/
structure Valid (r : HttpResponse) : Prop where
  none_yet : ¬r.responseDone ∨ ¬r.headersDone → r.bodySoFar = 0
  within : ¬(¬r.responseDone ∨ ¬r.headersDone) → r.bodySoFar ≤ r.bodyLen

theorem settled_take : Settled take := by
  intro r a b h
  unfold take at h ⊢
  split_ifs at h ⊢
  rfl

variable {r t : HttpResponse} {a b buf : List UInt8} {c : UInt8}

theorem valid_of_zero (h : r.bodySoFar = 0) : r.Valid := by
  refine ⟨fun _ => h, fun _ => ?_⟩
  rw [h]
  exact UInt64.zero_le

theorem valid_start (noBody : Bool) : (start noBody).Valid :=
  valid_of_zero rfl

/-! ## Lines -/

def InLines (r : HttpResponse) : Prop :=
  ¬r.responseDone ∨ ¬r.headersDone

theorem take_of_inLines (h : r.InLines) (c : UInt8) : r.take c =
    some (if c = newline then endLine { r with lineSoFar := r.lineSoFar ++ [c] }
      else { r with lineSoFar := r.lineSoFar ++ [c] }) :=
  if_pos h

theorem take_of_not_inLines (h : ¬r.InLines) (c : UInt8) :
    r.take c = if r.bodyLen = r.bodySoFar then none else some (r.addContent [c]) :=
  if_neg h

theorem feed_part (h : r.InLines) (ha : newline ∉ a) :
    feed take r a = ({ r with lineSoFar := r.lineSoFar ++ a }, a.length) := by
  refine feed_of_kept (fun line => { r with lineSoFar := line }) (fun c hc line => ?_)
    r.lineSoFar
  have hline : InLines { r with lineSoFar := line } := h
  rw [take_of_inLines hline, if_neg]
  rintro rfl
  exact ha hc

theorem feed_line (h : r.InLines) (ha : newline ∉ a) (b : List UInt8) :
    let t := endLine { r with lineSoFar := r.lineSoFar ++ a ++ [newline] }
    feed take r (a ++ newline :: b) = ((feed take t b).1, a.length + 1 + (feed take t b).2) := by
  have hpart := feed_part h ha
  have hall : (feed take r a).2 = a.length := congrArg Prod.snd hpart
  have hend : take { r with lineSoFar := r.lineSoFar ++ a } newline =
      some (endLine { r with lineSoFar := r.lineSoFar ++ a ++ [newline] }) := by
    have hline : InLines { r with lineSoFar := r.lineSoFar ++ a } := h
    rw [take_of_inLines hline, if_pos rfl]
  rw [feed_append_of_all hall, hpart, feed_cons_of_eq_some hend]
  exact Prod.ext rfl (by simp only; omega)

theorem exists_addField_eq (r : HttpResponse) (hname val : List UInt8) :
    ∃ headers, r.addField hname val = { r with headers := headers } := by
  unfold addField
  cases r.headers.find? (caseless hname) <;> exact ⟨_, rfl⟩

theorem exists_addHeader_eq (r : HttpResponse) (header : List UInt8) :
    ∃ headers, r.addHeader header = { r with headers := headers } := by
  unfold addHeader
  cases findFirstOf header [ascii ':'] 0 with
  | none => exact ⟨r.headers, rfl⟩
  | some nameEnd => exact r.exists_addField_eq _ _

theorem bodySoFar_acceptLine (r : HttpResponse) : r.acceptLine.bodySoFar = r.bodySoFar := by
  unfold acceptLine
  split_ifs
  · rfl
  · obtain ⟨headers, hheaders⟩ := r.exists_addHeader_eq r.lineSoFar
    rw [hheaders]
  · rfl

/-! ## The body -/

theorem addContent_append (r : HttpResponse) (a b : List UInt8) :
    (r.addContent a).addContent b = r.addContent (a ++ b) := by
  unfold addContent
  simp only [List.length_append, UInt64.ofNat_add, UInt64.add_assoc, List.append_assoc]

theorem addContent_nil (r : HttpResponse) : r.addContent [] = r := by
  unfold addContent
  simp

theorem feed_complete (h : ¬r.InLines) (hall : r.bodyLen = r.bodySoFar) (buf : List UInt8) :
    feed take r buf = (r, 0) :=
  feed_of_refused (fun c => (take_of_not_inLines h c).trans (if_pos hall)) buf

/-- A byte that is missing is counted without overflow. -/
theorem toNat_bodySoFar_addContent (h : r.bodySoFar < r.bodyLen) (c : UInt8) :
    (r.addContent [c]).bodySoFar.toNat = r.bodySoFar.toNat + 1 := by
  have hlt := UInt64.lt_iff_toNat_lt.1 h
  have hbound := r.bodyLen.toNat_lt
  change (r.bodySoFar + 1).toNat = _
  rw [UInt64.toNat_add, UInt64.toNat_one]
  omega

/-- What is missing of the body is taken, and nothing behind it. -/
theorem feed_body (h : ¬r.InLines) (hle : r.bodySoFar ≤ r.bodyLen) (buf : List UInt8) :
    feed take r buf = (r.addContent (buf.take (r.bodyLen - r.bodySoFar).toNat),
      min buf.length (r.bodyLen - r.bodySoFar).toNat) := by
  induction buf generalizing r with
  | nil =>
    rw [List.length_nil, Nat.zero_min, List.take_nil, addContent_nil]
    rfl
  | cons c buf ih =>
    by_cases hall : r.bodyLen = r.bodySoFar
    · rw [feed_complete h hall, hall, UInt64.sub_self, UInt64.toNat_zero, Nat.min_zero,
        List.take_zero, addContent_nil]
    · have hlt := UInt64.lt_of_le_of_ne hle fun heq => hall heq.symm
      have hone := toNat_bodySoFar_addContent hlt c
      have hlen : (r.addContent [c]).bodyLen = r.bodyLen := rfl
      have hmore : (r.addContent [c]).bodySoFar ≤ (r.addContent [c]).bodyLen := by
        rw [UInt64.le_iff_toNat_le, hone]
        exact UInt64.lt_iff_toNat_lt.1 hlt
      have hn : (r.bodyLen - r.bodySoFar).toNat =
          ((r.addContent [c]).bodyLen - (r.addContent [c]).bodySoFar).toNat + 1 := by
        have := UInt64.lt_iff_toNat_lt.1 hlt
        rw [UInt64.toNat_sub_of_le _ _ hle, UInt64.toNat_sub_of_le _ _ hmore, hone, hlen]
        omega
      have htake : take r c = some (r.addContent [c]) :=
        (take_of_not_inLines h c).trans (if_neg hall)
      rw [feed_cons_of_eq_some htake, ih (r := r.addContent [c]) h hmore, hn, List.length_cons,
        Nat.add_min_add_right, List.take_succ_cons, addContent_append, List.singleton_append]

/-! ## The whole of a buffer -/

theorem addInputLoop_nil (fuel : ℕ) (r : HttpResponse) : addInputLoop fuel r [] = (r, 0) := by
  cases fuel <;> rfl

theorem addInputLoop_part (fuel : ℕ) (h : r.InLines) (ha : newline ∉ a) (hne : a ≠ []) :
    addInputLoop (fuel + 1) r a = ({ r with lineSoFar := r.lineSoFar ++ a }, a.length) := by
  rw [addInputLoop, if_neg hne, splitLine_of_notMem ha]
  exact (if_pos h).trans (if_pos (getLast?_append_ne r.lineSoFar ha hne))

theorem addInputLoop_line (fuel : ℕ) (h : r.InLines) (ha : newline ∉ a) (b : List UInt8) :
    let t := endLine { r with lineSoFar := r.lineSoFar ++ a ++ [newline] }
    addInputLoop (fuel + 1) r (a ++ newline :: b) =
      ((addInputLoop fuel t b).1, a.length + 1 + (addInputLoop fuel t b).2) := by
  have hne : a ++ newline :: b ≠ [] := List.append_ne_nil_of_right_ne_nil a (List.cons_ne_nil _ b)
  rw [addInputLoop, if_neg hne, splitLine_append ha]
  refine (if_pos h).trans ?_
  dsimp only
  rw [if_neg fun h => h (by rw [← List.append_assoc, List.getLast?_concat]),
    ← List.append_assoc, List.length_append, List.length_singleton]
  rfl

/-- The loop ends with the buffer, or with the body. -/
theorem addInputLoop_body (fuel : ℕ) (h : ¬r.InLines) (hne : buf ≠ []) :
    addInputLoop (fuel + 1) r buf = (r.addContent (buf.take (r.bodyLen - r.bodySoFar).toNat),
      min buf.length (r.bodyLen - r.bodySoFar).toNat) := by
  rw [addInputLoop, if_neg hne]
  refine (if_neg h).trans ?_
  dsimp only
  rw [Nat.min_comm, ← List.take_eq_take_min]
  split_ifs with hall
  · rfl
  · have hle : buf.length ≤ (r.bodyLen - r.bodySoFar).toNat := by
      by_contra hlt
      refine hall ?_
      change r.bodyLen = r.bodySoFar + .ofNat (buf.take _).length
      rw [List.length_take_of_le (by omega), UInt64.ofNat_toNat, UInt64.add_comm,
        UInt64.sub_add_cancel]
    rw [List.drop_of_length_le (Nat.le_min.2 ⟨hle, le_rfl⟩), addInputLoop_nil]
    rfl

theorem Valid.take (h : r.Valid) (ht : r.take c = some t) : t.Valid := by
  by_cases hlines : r.InLines
  · have hzero := h.none_yet hlines
    rw [take_of_inLines hlines] at ht
    obtain rfl := Option.some.inj ht
    refine valid_of_zero ?_
    split_ifs
    · exact (bodySoFar_acceptLine _).trans hzero
    · exact hzero
  · have hle := h.within hlines
    rw [take_of_not_inLines hlines] at ht
    split_ifs at ht with hall
    obtain rfl := Option.some.inj ht
    have hlt := UInt64.lt_of_le_of_ne hle fun heq => hall heq.symm
    refine ⟨fun hlines' => absurd hlines' hlines, fun _ => UInt64.le_iff_toNat_le.2 ?_⟩
    rw [toNat_bodySoFar_addContent hlt]
    exact UInt64.lt_iff_toNat_lt.1 hlt

theorem addInputLoop_eq_feed (fuel : ℕ) (h : r.Valid) (hfuel : buf.length ≤ fuel) :
    addInputLoop fuel r buf = feed take r buf := by
  induction fuel generalizing r buf with
  | zero =>
    rw [List.length_eq_zero_iff.1 (Nat.le_zero.1 hfuel), addInputLoop_nil]
    rfl
  | succ fuel ih =>
    by_cases hne : buf = []
    · rw [hne, addInputLoop_nil]
      rfl
    by_cases hlines : r.InLines
    · obtain ha | ⟨a, b, rfl, ha⟩ := notMem_or_split buf
      · rw [addInputLoop_part fuel hlines ha hne, feed_part hlines ha]
      · have hb : b.length ≤ fuel := by
          rw [List.length_append, List.length_cons] at hfuel
          omega
        have hend : (endLine { r with lineSoFar := r.lineSoFar ++ a ++ [newline] }).Valid :=
          valid_of_zero ((bodySoFar_acceptLine _).trans (h.none_yet hlines))
        rw [addInputLoop_line fuel hlines ha, feed_line hlines ha, ih hend hb]
    · rw [addInputLoop_body fuel hlines hne, feed_body hlines (h.within hlines)]

/-- Whatever the state, `add_input` takes what taking the bytes one by one takes. -/
theorem addInput_eq_feed (h : r.Valid) (buf : List UInt8) : r.addInput buf = feed take r buf :=
  addInputLoop_eq_feed buf.length h le_rfl

theorem arrive_addInput (h : r.Valid) (pieces : List (List UInt8)) :
    arrive addInput r [] pieces = r.addInput pieces.flatten :=
  (arrive_eq_feed settled_take (fun _ _ _ h ht => Valid.take h ht)
    (fun _ buf h => addInput_eq_feed h buf) h pieces).trans (addInput_eq_feed h _).symm

end HttpResponse

end PersonalCloud.Http
