import PersonalCloud.Http.Lines
import PersonalCloud.Http.QueryString
import PersonalCloud.Http.Stream

/-!
# Receiving a request

`receive` takes lines until it has found the blank one behind the headers, and then as much content
as `Content-Length` says, all in one buffer if there is that much in it.

## Main definitions

* `ReceivedRequest.receive` — the code.
* `ReceivedRequest.take` — what it comes to for one byte.

## Main results

* `receive_eq_feed` — the code does what taking the bytes one by one does.
-/

namespace PersonalCloud.Http

open PersonalCloud.Lib

inductive RecvState where
  | getReqline
  | getHeaders
  | getContent
  | getComplete
deriving DecidableEq, Repr

structure ReceivedRequest extends HttpRequest where
  line : List UInt8
  recvState : RecvState
  dumpContent : Bool
  contentLen : UInt64
  contentReceived : UInt64
  query : Query

namespace ReceivedRequest

def start : ReceivedRequest where
  httpMethod := []
  uri := []
  version := []
  headers := []
  content := []
  line := []
  recvState := .getReqline
  dumpContent := false
  contentLen := 0
  contentReceived := 0
  query := fun _ => none

/-! ## The code -/

/-- `add_info`. Without a blank, all of the line is the method, the URI and the version. -/
def addInfo (r : ReceivedRequest) (requestLine : List UInt8) : ReceivedRequest :=
  let blank := [ascii ' ']
  let space := findFirstOf requestLine blank 0
  let uriStart := space.elim 0 (· + 1)
  let uriEnd := (findFirstOf requestLine blank uriStart).getD requestLine.length
  let uri := substr requestLine uriStart (uriEnd - uriStart)
  { r with
    httpMethod := substr requestLine 0 (space.getD requestLine.length)
    uri := uri
    query := (parseQueryString (uri.length + 1) uri r.query).getD r.query
    version := requestLine.rtakeWhile fun c => c ≠ ascii ' ' }

/-- `headers[name] = value`; the name stays as it was first written. -/
def putHeader (headers : List (List UInt8 × List UInt8)) (name value : List UInt8) :
    List (List UInt8 × List UInt8) :=
  if headers.any fun header => header.1.map tolower = name.map tolower then
    headers.map fun header =>
      if header.1.map tolower = name.map tolower then (header.1, value) else header
  else headers ++ [(name, value)]

/-- `add_header`. Looking a known name up in order to append to its value clears the value. -/
def addHeader (r : ReceivedRequest) (header : List UInt8) : ReceivedRequest :=
  match findFirstOf header [ascii ':'] 0 with
  | none => r
  | some nameEnd =>
    let name := substr header 0 nameEnd
    let value := stripBlanks (header.drop (nameEnd + 1))
    let known := (r.findHeader name).isSome
    let value := if known ∧ name ≠ asciiBytes "Content-Length" then ascii ',' :: value else value
    { r with headers := putHeader r.headers name value }

def addContent (r : ReceivedRequest) (data : List UInt8) : ReceivedRequest :=
  { r with
    content := if r.dumpContent then r.content else r.content ++ data
    contentReceived := r.contentReceived + .ofNat data.length }

/-- The request line, unless it is blank. -/
def endReqline (r : ReceivedRequest) : ReceivedRequest :=
  let line := stripNewline r.line
  if 0 < line.length then { r.addInfo line with recvState := .getHeaders, line := [] }
  else { r with line := [] }

/-- The blank line behind the headers. -/
def endHeaders (r : ReceivedRequest) : ReceivedRequest :=
  if r.httpMethod = asciiBytes "POST" ∨ r.httpMethod = asciiBytes "PUT" then
    { r with
      line := []
      recvState := .getContent
      contentLen := (r.findHeader (asciiBytes "Content-Length")).elim 0 strtoull }
  else { r with line := [], recvState := .getComplete }

/-- The lines, as far as the blank one, and what of the buffer is behind them. -/
def receiveLines : ℕ → ReceivedRequest → List UInt8 → ReceivedRequest × List UInt8
  | 0, r, buf => (r, buf)
  | fuel + 1, r, buf =>
    if buf = [] then (r, buf)
    else
      let (line, rest) := splitLine buf
      let r := { r with line := r.line ++ line }
      if r.line.getLast? ≠ some newline then (r, rest)
      else if r.recvState = .getReqline then receiveLines fuel r.endReqline rest
      else if stripNewline r.line = [] then (r.endHeaders, rest)
      else receiveLines fuel { r.addHeader (stripNewline r.line) with line := [] } rest

/-- Content, as much as is missing, and how much it is. -/
def collect (r : ReceivedRequest) (buf : List UInt8) : ReceivedRequest × ℕ :=
  if buf ≠ [] ∧ r.contentReceived < r.contentLen then
    let linelen := min buf.length (r.contentLen - r.contentReceived).toNat
    (r.addContent (buf.take linelen), linelen)
  else (r, 0)

/-- All of the content is there. -/
def checkContent (r : ReceivedRequest) : ReceivedRequest :=
  if r.contentLen = r.contentReceived then { r with recvState := .getComplete } else r

/-- What follows the lines, if the headers are complete. -/
def receiveContent (r : ReceivedRequest) (buf : List UInt8) : ReceivedRequest × ℕ :=
  if r.recvState = .getContent then
    let (r, linelen) := r.collect buf
    (r.checkContent, linelen)
  else (r, 0)

/-- `receive`, with the number of bytes used. -/
def receive (r : ReceivedRequest) (buf : List UInt8) : ReceivedRequest × ℕ :=
  let (r, rest) := if r.recvState = .getReqline ∨ r.recvState = .getHeaders then
    receiveLines buf.length r buf else (r, buf)
  let (r, linelen) := r.receiveContent rest
  (r, buf.length - rest.length + linelen)

/-! ## Byte by byte -/

/-- What the end of a line does. -/
def endLine (r : ReceivedRequest) : ReceivedRequest :=
  if r.recvState = .getReqline then r.endReqline
  else if stripNewline r.line = [] then
    if r.endHeaders.recvState = .getContent then r.endHeaders.checkContent else r.endHeaders
  else { r.addHeader (stripNewline r.line) with line := [] }

/-- Take a byte, unless the request is complete. -/
def take (r : ReceivedRequest) (c : UInt8) : Option ReceivedRequest :=
  match r.recvState with
  | .getReqline | .getHeaders =>
    let r := { r with line := r.line ++ [c] }
    some (if c = newline then r.endLine else r)
  | .getContent => some (r.addContent [c]).checkContent
  | .getComplete => none

/-- Content is only received when some is missing. -/
structure Valid (r : ReceivedRequest) : Prop where
  none_yet : r.recvState = .getReqline ∨ r.recvState = .getHeaders → r.contentReceived = 0
  missing : r.recvState = .getContent → r.contentReceived < r.contentLen

theorem settled_take : Settled take := by
  intro r a b h
  unfold take at h ⊢
  cases hstate : r.recvState <;> simp only [hstate] at h ⊢ <;> cases h

theorem valid_start : start.Valid :=
  ⟨fun _ => rfl, by rintro ⟨⟩⟩

variable {r t : ReceivedRequest} {a b buf rest : List UInt8} {c : UInt8}

/-! ## Lines -/

def InLines (r : ReceivedRequest) : Prop :=
  r.recvState = .getReqline ∨ r.recvState = .getHeaders

theorem complete_of_not (h : ¬r.InLines) (hcontent : r.recvState ≠ .getContent) :
    r.recvState = .getComplete := by
  cases hstate : r.recvState with
  | getReqline => exact absurd (.inl hstate) h
  | getHeaders => exact absurd (.inr hstate) h
  | getContent => exact absurd hstate hcontent
  | getComplete => rfl

theorem take_of_inLines (h : r.InLines) (c : UInt8) : r.take c =
    some (if c = newline then endLine { r with line := r.line ++ [c] }
      else { r with line := r.line ++ [c] }) := by
  unfold take
  obtain h | h := h <;> simp only [h]

theorem feed_part (h : r.InLines) (ha : newline ∉ a) :
    feed take r a = ({ r with line := r.line ++ a }, a.length) := by
  refine feed_of_kept (fun line => { r with line := line }) (fun c hc line => ?_) r.line
  have hline : InLines { r with line := line } := h
  rw [take_of_inLines hline, if_neg]
  rintro rfl
  exact ha hc

theorem feed_line (h : r.InLines) (ha : newline ∉ a) (b : List UInt8) :
    let t := endLine { r with line := r.line ++ a ++ [newline] }
    feed take r (a ++ newline :: b) = ((feed take t b).1, a.length + 1 + (feed take t b).2) := by
  have hpart := feed_part h ha
  have hall : (feed take r a).2 = a.length := congrArg Prod.snd hpart
  have hend : take { r with line := r.line ++ a } newline =
      some (endLine { r with line := r.line ++ a ++ [newline] }) := by
    have hline : InLines { r with line := r.line ++ a } := h
    rw [take_of_inLines hline, if_pos rfl]
  rw [feed_append_of_all hall, hpart, feed_cons_of_eq_some hend]
  exact Prod.ext rfl (by simp only; omega)

/-! ## Content -/

theorem addContent_append (r : ReceivedRequest) (a b : List UInt8) :
    (r.addContent a).addContent b = r.addContent (a ++ b) := by
  unfold addContent
  simp only [List.length_append, UInt64.ofNat_add, UInt64.add_assoc]
  cases r.dumpContent <;> simp

theorem addContent_nil (r : ReceivedRequest) : r.addContent [] = r := by
  unfold addContent
  cases hdump : r.dumpContent <;> simp [← hdump]

theorem collect_of_lt (h : r.contentReceived < r.contentLen) (buf : List UInt8) :
    r.collect buf =
      (r.addContent (buf.take (r.contentLen - r.contentReceived).toNat),
        min buf.length (r.contentLen - r.contentReceived).toNat) := by
  unfold collect
  by_cases hbuf : buf = []
  · rw [if_neg fun h' => h'.1 hbuf, hbuf, List.take_nil, addContent_nil, List.length_nil,
      Nat.zero_min]
  · rw [if_pos ⟨hbuf, h⟩]
    dsimp only
    rw [Nat.min_comm, ← List.take_eq_take_min, Nat.min_comm]

theorem feed_complete (h : r.recvState = .getComplete) (buf : List UInt8) :
    feed take r buf = (r, 0) :=
  feed_of_refused (fun c => by rw [take, h]) buf

theorem checkContent_of_eq (h : r.contentLen = r.contentReceived) :
    r.checkContent = { r with recvState := .getComplete } :=
  if_pos h

theorem checkContent_of_lt (h : r.contentReceived < r.contentLen) : r.checkContent = r :=
  if_neg fun heq => UInt64.lt_irrefl _ (heq ▸ h)

/-- A byte that is missing is counted without overflow. -/
theorem toNat_contentReceived_addContent (h : r.contentReceived < r.contentLen) (c : UInt8) :
    (r.addContent [c]).contentReceived.toNat = r.contentReceived.toNat + 1 := by
  have hlt := UInt64.lt_iff_toNat_lt.1 h
  have hbound := r.contentLen.toNat_lt
  change (r.contentReceived + 1).toNat = _
  rw [UInt64.toNat_add, UInt64.toNat_one]
  omega

/-- The missing content is taken, and nothing behind it. -/
theorem feed_content (hstate : r.recvState = .getContent)
    (h : r.contentReceived < r.contentLen) (buf : List UInt8) :
    feed take r buf = ((r.collect buf).1.checkContent, (r.collect buf).2) := by
  induction buf generalizing r with
  | nil =>
    rw [collect_of_lt h, List.take_nil, addContent_nil, checkContent_of_lt h, List.length_nil,
      Nat.zero_min]
    rfl
  | cons c buf ih =>
    have hlt := UInt64.lt_iff_toNat_lt.1 h
    have hone := toNat_contentReceived_addContent h c
    have hlen : (r.addContent [c]).contentLen = r.contentLen := rfl
    have htake : take r c = some (r.addContent [c]).checkContent := by rw [take, hstate]
    have hleft : (r.contentLen - r.contentReceived).toNat =
        r.contentLen.toNat - r.contentReceived.toNat :=
      UInt64.toNat_sub_of_le _ _ (UInt64.le_of_lt h)
    rw [feed_cons_of_eq_some htake, collect_of_lt h]
    by_cases hlast : (r.addContent [c]).contentLen = (r.addContent [c]).contentReceived
    · have hn : (r.contentLen - r.contentReceived).toNat = 1 := by
        rw [hleft, ← hlen, hlast, hone]
        omega
      rw [checkContent_of_eq hlast, feed_complete rfl, hn, List.take_succ_cons, List.take_zero,
        checkContent_of_eq hlast, List.length_cons, Nat.min_eq_right (Nat.succ_pos _)]
    · have hne : r.contentLen.toNat ≠ r.contentReceived.toNat + 1 := fun h' =>
        hlast (UInt64.toNat_inj.1 (h'.trans hone.symm))
      have hmore : (r.addContent [c]).contentReceived < (r.addContent [c]).contentLen := by
        rw [UInt64.lt_iff_toNat_lt, hone, hlen]
        omega
      have hn : (r.contentLen - r.contentReceived).toNat =
          ((r.addContent [c]).contentLen - (r.addContent [c]).contentReceived).toNat + 1 := by
        rw [hleft, UInt64.toNat_sub_of_le _ _ (UInt64.le_of_lt hmore), hone, hlen]
        omega
      rw [checkContent_of_lt hmore, ih (r := r.addContent [c]) hstate hmore,
        collect_of_lt hmore, hn, List.take_succ_cons, addContent_append, List.singleton_append,
        List.length_cons, Nat.add_min_add_right]

/-! ## The whole of a buffer -/

theorem receiveContent_of_ne (h : r.recvState ≠ .getContent) (buf : List UInt8) :
    r.receiveContent buf = (r, 0) :=
  if_neg h

theorem inLines_endReqline (r : ReceivedRequest) (h : r.recvState = .getReqline) :
    r.endReqline.InLines := by
  unfold endReqline
  dsimp only
  split_ifs
  · exact .inr rfl
  · exact .inl h

theorem contentReceived_endReqline (r : ReceivedRequest) :
    r.endReqline.contentReceived = r.contentReceived := by
  unfold endReqline
  dsimp only
  split_ifs <;> rfl

theorem exists_addHeader_eq (r : ReceivedRequest) (header : List UInt8) :
    ∃ headers, r.addHeader header = { r with headers := headers } := by
  unfold addHeader
  cases findFirstOf header [ascii ':'] 0 with
  | none => exact ⟨r.headers, rfl⟩
  | some nameEnd => exact ⟨_, rfl⟩

theorem contentReceived_endHeaders (r : ReceivedRequest) :
    r.endHeaders.contentReceived = r.contentReceived := by
  unfold endHeaders
  split_ifs <;> rfl

theorem endHeaders_complete_of_ne (h : r.endHeaders.recvState ≠ .getContent) :
    r.endHeaders.recvState = .getComplete := by
  unfold endHeaders at h ⊢
  split_ifs at h ⊢
  · exact absurd rfl h
  · rfl

/-- With the blank line the content begins, unless there is none. -/
theorem feed_endHeaders (h : r.contentReceived = 0) (buf : List UInt8) :
    feed take (if r.endHeaders.recvState = .getContent then r.endHeaders.checkContent
      else r.endHeaders) buf = r.endHeaders.receiveContent buf := by
  have hzero := (contentReceived_endHeaders r).trans h
  by_cases hstate : r.endHeaders.recvState = .getContent
  · rw [if_pos hstate, receiveContent, if_pos hstate]
    by_cases hlen : r.endHeaders.contentLen = 0
    · have hall : r.endHeaders.contentLen = r.endHeaders.contentReceived := hlen.trans hzero.symm
      have hnone : r.endHeaders.collect buf = (r.endHeaders, 0) :=
        if_neg fun h' => UInt64.lt_irrefl _ (hall ▸ h'.2)
      rw [hnone, checkContent_of_eq hall, feed_complete rfl]
      exact congrArg (·, 0) (checkContent_of_eq hall).symm
    · have hlt : r.endHeaders.contentReceived < r.endHeaders.contentLen := by
        rw [hzero]
        exact UInt64.pos_iff_ne_zero.2 hlen
      rw [checkContent_of_lt hlt, feed_content hstate hlt]
  · rw [if_neg hstate, feed_complete (endHeaders_complete_of_ne hstate),
      receiveContent_of_ne hstate]

theorem receiveLines_nil (fuel : ℕ) (r : ReceivedRequest) :
    receiveLines fuel r [] = (r, []) := by
  cases fuel <;> rfl

theorem receiveLines_part (fuel : ℕ) (r : ReceivedRequest) (ha : newline ∉ a) (hne : a ≠ []) :
    receiveLines (fuel + 1) r a = ({ r with line := r.line ++ a }, []) := by
  rw [receiveLines, if_neg hne, splitLine_of_notMem ha]
  exact if_pos (getLast?_append_ne r.line ha hne)

theorem receiveLines_line (fuel : ℕ) (r : ReceivedRequest) (ha : newline ∉ a)
    (b : List UInt8) :
    let t := { r with line := r.line ++ a ++ [newline] }
    receiveLines (fuel + 1) r (a ++ newline :: b) =
      if t.recvState = .getReqline then receiveLines fuel t.endReqline b
      else if stripNewline t.line = [] then (t.endHeaders, b)
      else receiveLines fuel { t.addHeader (stripNewline t.line) with line := [] } b := by
  have hne : a ++ newline :: b ≠ [] := List.append_ne_nil_of_right_ne_nil a (List.cons_ne_nil _ b)
  rw [receiveLines, if_neg hne, splitLine_append ha]
  dsimp only
  rw [if_neg fun h => h (by rw [← List.append_assoc, List.getLast?_concat]),
    ← List.append_assoc]

theorem receiveLines_eq_feed (fuel : ℕ) (h : r.InLines) (hzero : r.contentReceived = 0)
    (hfuel : buf.length ≤ fuel) :
    let (t, rest) := receiveLines fuel r buf
    rest.length ≤ buf.length ∧ feed take r buf =
      ((t.receiveContent rest).1, buf.length - rest.length + (t.receiveContent rest).2) := by
  have hstate {r : ReceivedRequest} (h : r.InLines) : r.recvState ≠ .getContent := by
    obtain h | h := h <;> rw [h] <;> rintro ⟨⟩
  induction fuel generalizing r buf with
  | zero =>
    rw [List.length_eq_zero_iff.1 (Nat.le_zero.1 hfuel), receiveLines_nil]
    dsimp only
    rw [receiveContent_of_ne (hstate h)]
    exact ⟨le_rfl, rfl⟩
  | succ fuel ih =>
    obtain ha | ⟨a, b, rfl, ha⟩ := notMem_or_split buf
    · by_cases hne : buf = []
      · rw [hne, receiveLines_nil]
        dsimp only
        rw [receiveContent_of_ne (hstate h)]
        exact ⟨le_rfl, rfl⟩
      · have hpart : InLines { r with line := r.line ++ buf } := h
        rw [receiveLines_part fuel r ha hne]
        dsimp only
        rw [receiveContent_of_ne (hstate hpart), feed_part h ha]
        exact ⟨Nat.zero_le _, rfl⟩
    · have hb : b.length ≤ fuel := by
        rw [List.length_append, List.length_cons] at hfuel
        omega
      -- a line read to its end leaves the rest of the buffer to the state behind it
      have hrest {t u : ReceivedRequest} {rest : List UInt8} (hle : rest.length ≤ b.length)
          (ht : endLine { r with line := r.line ++ a ++ [newline] } = t)
          (hfeed : feed take t b =
            ((u.receiveContent rest).1, b.length - rest.length + (u.receiveContent rest).2)) :
          rest.length ≤ (a ++ newline :: b).length ∧ feed take r (a ++ newline :: b) =
            ((u.receiveContent rest).1,
              (a ++ newline :: b).length - rest.length + (u.receiveContent rest).2) := by
        have hlength : (a ++ newline :: b).length = a.length + 1 + b.length := by
          rw [List.length_append, List.length_cons, Nat.add_assoc, Nat.add_comm 1]
        have hline := feed_line h ha b
        rw [ht] at hline
        rw [hline, hfeed, hlength]
        exact ⟨by omega, Prod.ext rfl (by simp only; omega)⟩
      rw [receiveLines_line fuel r ha b]
      by_cases hreqline : r.recvState = .getReqline
      · have hlines := inLines_endReqline { r with line := r.line ++ a ++ [newline] } hreqline
        obtain ⟨hle, hfeed⟩ := ih hlines ((contentReceived_endReqline _).trans hzero) hb
        rw [if_pos hreqline]
        exact hrest hle (if_pos hreqline) hfeed
      rw [if_neg hreqline]
      by_cases hblank : stripNewline (r.line ++ a ++ [newline]) = []
      · rw [if_pos hblank]
        refine hrest le_rfl ((if_neg hreqline).trans (if_pos hblank)) ?_
        rw [Nat.sub_self, Nat.zero_add]
        exact feed_endHeaders hzero b
      · obtain ⟨headers, hheaders⟩ := exists_addHeader_eq
          { r with line := r.line ++ a ++ [newline] } (stripNewline (r.line ++ a ++ [newline]))
        have hend : endLine { r with line := r.line ++ a ++ [newline] } =
            { r with line := [], headers := headers } := by
          refine (if_neg hreqline).trans ((if_neg hblank).trans ?_)
          rw [hheaders]
        obtain ⟨hle, hfeed⟩ := ih (r := { r with line := [], headers := headers }) h hzero hb
        rw [if_neg hblank]
        dsimp only
        rw [hheaders]
        exact hrest hle hend hfeed

/-- Whatever the state, `receive` takes what taking the bytes one by one takes. -/
theorem receive_eq_feed (h : r.Valid) (buf : List UInt8) : r.receive buf = feed take r buf := by
  unfold receive
  by_cases hlines : r.recvState = .getReqline ∨ r.recvState = .getHeaders
  · obtain ⟨-, hfeed⟩ := receiveLines_eq_feed buf.length hlines (h.none_yet hlines) le_rfl
    rw [if_pos hlines, hfeed]
  rw [if_neg hlines]
  dsimp only
  rw [Nat.sub_self, Nat.zero_add]
  by_cases hcontent : r.recvState = .getContent
  · rw [receiveContent, if_pos hcontent, feed_content hcontent (h.missing hcontent)]
  · rw [receiveContent_of_ne hcontent, feed_complete (complete_of_not hlines hcontent)]

theorem valid_of_inLines (h : r.InLines) (hzero : r.contentReceived = 0) : r.Valid := by
  refine ⟨fun _ => hzero, fun hcontent => ?_⟩
  obtain h | h := h <;> cases h.symm.trans hcontent

theorem valid_of_complete (h : r.recvState = .getComplete) : r.Valid := by
  refine ⟨?_, fun hcontent => by cases h.symm.trans hcontent⟩
  rintro (hlines | hlines) <;> cases h.symm.trans hlines

theorem valid_checkContent (h : r.recvState = .getContent)
    (hle : r.contentReceived ≤ r.contentLen) : r.checkContent.Valid := by
  by_cases hall : r.contentLen = r.contentReceived
  · rw [checkContent_of_eq hall]
    exact valid_of_complete rfl
  · have hlt := UInt64.lt_of_le_of_ne hle fun heq => hall heq.symm
    rw [checkContent_of_lt hlt]
    refine ⟨?_, fun _ => hlt⟩
    rintro (hlines | hlines) <;> cases h.symm.trans hlines

theorem valid_endLine (h : r.InLines) (hzero : r.contentReceived = 0) : r.endLine.Valid := by
  unfold endLine
  split_ifs with hreqline hblank hcontent
  · exact valid_of_inLines (inLines_endReqline r hreqline)
      ((contentReceived_endReqline r).trans hzero)
  · refine valid_checkContent hcontent ?_
    rw [contentReceived_endHeaders, hzero]
    exact UInt64.zero_le
  · exact valid_of_complete (endHeaders_complete_of_ne hcontent)
  · obtain ⟨headers, hheaders⟩ := exists_addHeader_eq r (stripNewline r.line)
    rw [hheaders]
    exact valid_of_inLines h hzero

theorem Valid.take (h : r.Valid) (ht : r.take c = some t) : t.Valid := by
  by_cases hlines : r.InLines
  · have hzero := h.none_yet hlines
    rw [take_of_inLines hlines] at ht
    obtain rfl := Option.some.inj ht
    split_ifs
    · exact valid_endLine hlines hzero
    · exact valid_of_inLines hlines hzero
  by_cases hcontent : r.recvState = .getContent
  · have hlt := h.missing hcontent
    have htake : r.take c = some (r.addContent [c]).checkContent := by
      rw [ReceivedRequest.take, hcontent]
    obtain rfl := Option.some.inj (htake.symm.trans ht)
    refine valid_checkContent hcontent (UInt64.le_iff_toNat_le.2 ?_)
    rw [toNat_contentReceived_addContent hlt]
    exact UInt64.lt_iff_toNat_lt.1 hlt
  · rw [ReceivedRequest.take, complete_of_not hlines hcontent] at ht
    cases ht

theorem arrive_receive (h : r.Valid) (pieces : List (List UInt8)) :
    arrive receive r [] pieces = r.receive pieces.flatten :=
  (arrive_eq_feed settled_take (fun _ _ _ h ht => Valid.take h ht)
    (fun _ buf h => receive_eq_feed h buf) h pieces).trans (receive_eq_feed h _).symm

end ReceivedRequest

end PersonalCloud.Http
