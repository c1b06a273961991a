import PersonalCloud.Lib.Ascii
import PersonalCloud.Lib.Run

/-!
# Reading a request from a stream

`Read` serializes the header again and hands out what is left of it, and fills the rest of the
buffer from the body. The offsets in the header and in the body and what is left of the body are
counted apart. An error of `read_body` is the result of the call, even if header bytes have been
copied by then.

## Main definitions

* `HttpStream.read` — the code.
* `LosesNothing` — what one call has to do.

## Main results

* `losesNothing_iff` — all calls do it exactly if none of them gets an error behind header bytes.
-/

namespace PersonalCloud.Http

open PersonalCloud.Lib

/-! ## The code -/

def tolower (c : UInt8) : UInt8 :=
  if isupper c then c + 32 else c

structure HttpRequest where
  httpMethod : List UInt8
  uri : List UInt8
  version : List UInt8
  headers : List (List UInt8 × List UInt8)
  content : List UInt8
deriving DecidableEq, Repr

namespace HttpRequest

/-- Names are equivalent if neither is less, whatever their cases. -/
def findHeader (req : HttpRequest) (key : List UInt8) : Option (List UInt8) :=
  (req.headers.find? fun header => header.1.map tolower = key.map tolower).map Prod.snd

def dump (req : HttpRequest) : List UInt8 :=
  req.httpMethod ++ asciiBytes " " ++ req.uri ++ asciiBytes " " ++ req.version ++
    asciiBytes "\r\n" ++
    (req.headers.flatMap fun header =>
      header.1 ++ asciiBytes ": " ++ header.2 ++ asciiBytes "\r\n") ++
    asciiBytes "\r\n" ++ req.content

/-- `HttpReqHeader::Serialize`: the content is stripped again. -/
def serialize (req : HttpRequest) : List UInt8 :=
  if 0 < req.content.length then req.dump.take (req.dump.length - req.content.length)
  else req.dump

end HttpRequest

/-- `source` is what `read_body` has not handed out yet. -/
structure HttpStream where
  reqHdr : HttpRequest
  reqHdrAllRead : Bool
  reqHdrReadBytes : ℕ
  reqBodyReadBytes : UInt64
  source : List UInt8
deriving DecidableEq, Repr

namespace HttpStream

/-- A stream whose header has been loaded. -/
def start (reqHdr : HttpRequest) (source : List UInt8) : HttpStream where
  reqHdr := reqHdr
  reqHdrAllRead := false
  reqHdrReadBytes := 0
  reqBodyReadBytes := 0
  source := source

/-- The copying from the header, with the bytes copied. -/
def readHeader (s : HttpStream) (bufsize : ℕ) : List UInt8 × HttpStream :=
  if s.reqHdrAllRead then ([], s)
  else if s.reqHdrReadBytes < s.reqHdr.serialize.length then
    let avail := s.reqHdr.serialize.length - s.reqHdrReadBytes
    let copybytes := if bufsize < avail then bufsize else avail
    ((s.reqHdr.serialize.drop s.reqHdrReadBytes).take copybytes,
      { s with reqHdrReadBytes := s.reqHdrReadBytes + copybytes })
  else ([], { s with reqHdrAllRead := true })

/-- The hook hands out as many bytes as it likes of those asked for, or fails. -/
def readBody (s : HttpStream) (answer : Except ℤ ℕ) (bufsize : ℕ) : Except ℤ (List UInt8) :=
  answer.map fun bytes => s.source.take (min bytes bufsize)

/-- What is left of the body, `none` if there is no `Content-Length`. -/
def bodySizeRemaining (s : HttpStream) : Option UInt64 :=
  (s.reqHdr.findHeader (asciiBytes "Content-Length")).map fun contentLength =>
    strtoull contentLength - s.reqBodyReadBytes

/-- `Read`, with the bytes put into the buffer or the error. -/
def read (s : HttpStream) (bufsize : ℕ) (answer : Except ℤ ℕ) :
    Except ℤ (List UInt8) × HttpStream :=
  let (bytes, s) := s.readHeader bufsize
  if bytes.length < bufsize then
    match s.bodySizeRemaining with
    | none => (.ok bytes, s)
    | some remaining =>
      if remaining = 0 then (.ok bytes, s)
      else
        match s.readBody answer (min (bufsize - bytes.length) remaining.toNat) with
        | .error err => (.error err, s)
        | .ok body =>
          (.ok (bytes ++ body), { s with
            reqBodyReadBytes := s.reqBodyReadBytes + .ofNat body.length
            source := s.source.drop body.length })
  else (.ok bytes, s)

end HttpStream

/-- A call of `Read`, with what `read_body` will answer. -/
structure ReadCall where
  bufsize : ℕ
  answer : Except ℤ ℕ
deriving Repr

/-- A stream and the bytes that successful calls have delivered. -/
structure Reading where
  stream : HttpStream
  delivered : List UInt8
deriving DecidableEq, Repr

namespace Reading

def start (reqHdr : HttpRequest) (source : List UInt8) : Reading where
  stream := .start reqHdr source
  delivered := []

def step (r : Reading) (call : ReadCall) : Option Reading :=
  if 0 < call.bufsize then
    let (result, stream) := r.stream.read call.bufsize call.answer
    some ⟨stream, r.delivered ++ result.toOption.getD []⟩
  else none

end Reading

/-! ## What is wanted -/

/-- No body without the header. -/
def HttpRequest.contentLength (reqHdr : HttpRequest) : UInt64 :=
  ((reqHdr.findHeader (asciiBytes "Content-Length")).map strtoull).getD 0

/-- The header and the first `Content-Length` bytes of the body. -/
def HttpRequest.whole (reqHdr : HttpRequest) (body : List UInt8) : List UInt8 :=
  reqHdr.serialize ++ body.take reqHdr.contentLength.toNat

/-- How much of the header is left. -/
def Reading.headerLeft (r : Reading) : ℕ :=
  r.stream.reqHdr.serialize.length - r.stream.reqHdrReadBytes

/-- There is something left of the header, or of the body and the hook hands out some of it. -/
def Reading.Available (r : Reading) (call : ReadCall) : Prop :=
  0 < r.headerLeft ∨ (r.stream.bodySizeRemaining.getD 0 ≠ 0 ∧ r.stream.source ≠ [] ∧
    ∃ bytes, call.answer = .ok bytes ∧ 0 < bytes)

/-- The call comes to the hook: there is room behind the header, and some body is left. -/
def Reading.AsksHook (r : Reading) (call : ReadCall) : Prop :=
  r.headerLeft < call.bufsize ∧ r.stream.bodySizeRemaining.getD 0 ≠ 0

instance (r : Reading) (call : ReadCall) : Decidable (r.AsksHook call) :=
  inferInstanceAs (Decidable (_ ∧ _))

/-- The step of a call from `r` to `t`: what has been delivered is the start of the whole, the
bytes taken so far are delivered, and a successful call delivers more if it can. -/
structure LosesNothing (reqHdr : HttpRequest) (body : List UInt8) (r : Reading) (call : ReadCall)
    (t : Reading) : Prop where
  prefixed : t.delivered <+: reqHdr.whole body
  kept : t.delivered.length = t.stream.reqHdrReadBytes + t.stream.reqBodyReadBytes.toNat
  extended : r.Available call → (∃ bytes, (r.stream.read call.bufsize call.answer).1 = .ok bytes) →
    r.delivered.length < t.delivered.length

/-- The hook does not fail in a call that has copied the end of the header. -/
def NoErrorBehindHeader (r : Reading) (call : ReadCall) : Prop :=
  0 < r.headerLeft → r.AsksHook call → call.answer.isOk

instance (r : Reading) (call : ReadCall) : Decidable (NoErrorBehindHeader r call) :=
  inferInstanceAs (Decidable (_ → _ → _))

/-! ## What is taken is counted -/

variable {reqHdr : HttpRequest} {body : List UInt8} {r t : Reading} {call : ReadCall}

/-- The two offsets say what has been delivered, and the body starts behind the header. -/
structure Reading.Valid (reqHdr : HttpRequest) (body : List UInt8) (r : Reading) : Prop where
  loaded : r.stream.reqHdr = reqHdr
  le : r.stream.reqHdrReadBytes ≤ reqHdr.serialize.length
  allRead : r.stream.reqHdrAllRead = true →
    r.stream.reqHdrReadBytes = reqHdr.serialize.length
  behind : r.stream.reqBodyReadBytes ≠ 0 → r.stream.reqHdrReadBytes = reqHdr.serialize.length
  source : r.stream.source = body.drop r.stream.reqBodyReadBytes.toNat
  bounded : r.stream.reqBodyReadBytes ≤ reqHdr.contentLength
  handed : r.stream.reqBodyReadBytes.toNat ≤ body.length
  delivered : r.delivered = reqHdr.serialize.take r.stream.reqHdrReadBytes ++
    body.take r.stream.reqBodyReadBytes.toNat

namespace Reading

theorem valid_start (reqHdr : HttpRequest) (body : List UInt8) :
    (start reqHdr body).Valid reqHdr body where
  loaded := rfl
  le := Nat.zero_le _
  allRead h := by cases h
  behind h := absurd rfl h
  source := rfl
  bounded := UInt64.zero_le
  handed := Nat.zero_le _
  delivered := rfl

theorem Valid.kept (h : r.Valid reqHdr body) :
    r.delivered.length = r.stream.reqHdrReadBytes + r.stream.reqBodyReadBytes.toNat := by
  rw [h.delivered, List.length_append, List.length_take, List.length_take,
    Nat.min_eq_left h.le, Nat.min_eq_left h.handed]

theorem Valid.prefixed (h : r.Valid reqHdr body) : r.delivered <+: reqHdr.whole body := by
  rw [h.delivered, HttpRequest.whole]
  by_cases hbody : r.stream.reqBodyReadBytes = 0
  · rw [hbody]
    exact List.prefix_append_of_prefix (by simpa using List.take_prefix _ _)
  · rw [h.behind hbody, List.take_length, List.prefix_append_right_inj]
    exact List.take_prefix_take_left h.bounded

theorem Valid.bodySizeRemaining (h : r.Valid reqHdr body) :
    r.stream.bodySizeRemaining.getD 0 = reqHdr.contentLength - r.stream.reqBodyReadBytes := by
  obtain rfl := h.loaded
  have hbounded := h.bounded
  unfold HttpStream.bodySizeRemaining
  unfold HttpRequest.contentLength at hbounded ⊢
  cases hfind : r.stream.reqHdr.findHeader (asciiBytes "Content-Length") with
  | none =>
    rw [hfind] at hbounded
    have hzero : r.stream.reqBodyReadBytes = 0 := UInt64.le_antisymm hbounded UInt64.zero_le
    rw [hzero]
    rfl
  | some contentLength => rfl

/-- The state behind the copying from the header. -/
def afterHeader (r : Reading) (bufsize : ℕ) (allRead : Bool) : Reading where
  stream := { r.stream with
    reqHdrReadBytes := min (r.stream.reqHdrReadBytes + bufsize) r.stream.reqHdr.serialize.length
    reqHdrAllRead := allRead }
  delivered := r.delivered ++ (r.stream.reqHdr.serialize.drop r.stream.reqHdrReadBytes).take bufsize

theorem Valid.readHeader_eq (h : r.Valid reqHdr body) (bufsize : ℕ) : ∃ allRead : Bool,
    r.stream.readHeader bufsize =
      ((r.stream.reqHdr.serialize.drop r.stream.reqHdrReadBytes).take bufsize,
        (r.afterHeader bufsize allRead).stream) ∧
    (allRead = true → r.stream.reqHdrReadBytes = r.stream.reqHdr.serialize.length) := by
  obtain rfl := h.loaded
  have hle := h.le
  have hdone (hall : r.stream.reqHdrReadBytes = r.stream.reqHdr.serialize.length) :
      (r.stream.reqHdr.serialize.drop r.stream.reqHdrReadBytes).take bufsize = [] ∧
        min (r.stream.reqHdrReadBytes + bufsize) r.stream.reqHdr.serialize.length =
          r.stream.reqHdrReadBytes := by
    rw [hall, List.drop_length]
    exact ⟨List.take_nil, Nat.min_eq_right (Nat.le_add_right _ _)⟩
  unfold HttpStream.readHeader afterHeader
  split_ifs with hall hlt
  · obtain ⟨hnil, hmin⟩ := hdone (h.allRead hall)
    refine ⟨true, ?_, fun _ => h.allRead hall⟩
    rw [hnil, hmin, ← hall]
  · refine ⟨r.stream.reqHdrAllRead, ?_, h.allRead⟩
    dsimp only
    split_ifs with hbuf
    · rw [Nat.min_eq_left (by omega)]
    · rw [Nat.min_eq_right (by omega), Nat.add_sub_cancel' hle,
        List.take_of_length_le (by simp), List.take_of_length_le (by simp; omega)]
  · have hlen : r.stream.reqHdrReadBytes = r.stream.reqHdr.serialize.length := by omega
    obtain ⟨hnil, hmin⟩ := hdone hlen
    refine ⟨true, ?_, fun _ => hlen⟩
    rw [hnil, hmin]

theorem Valid.afterHeader (h : r.Valid reqHdr body) (bufsize : ℕ) {allRead : Bool}
    (hall : allRead = true → r.stream.reqHdrReadBytes = r.stream.reqHdr.serialize.length) :
    (r.afterHeader bufsize allRead).Valid reqHdr body := by
  obtain rfl := h.loaded
  refine ⟨rfl, Nat.min_le_right _ _, fun hread => ?_, fun hbody => ?_, h.source, h.bounded,
    h.handed, ?_⟩
  · have hlen := hall hread
    change min _ _ = _
    omega
  · have hlen := h.behind hbody
    change min _ _ = _
    omega
  · change r.delivered ++ _ = r.stream.reqHdr.serialize.take (min _ _) ++
      body.take r.stream.reqBodyReadBytes.toNat
    rw [h.delivered, ← List.take_eq_take_min, List.take_add]
    by_cases hbody : r.stream.reqBodyReadBytes = 0
    · simp [hbody]
    · simp [h.behind hbody]

/-- The state behind the bytes that the hook handed out. -/
def afterBody (r : Reading) (bytes : List UInt8) : Reading where
  stream := { r.stream with
    reqBodyReadBytes := r.stream.reqBodyReadBytes + .ofNat bytes.length
    source := r.stream.source.drop bytes.length }
  delivered := r.delivered ++ bytes

theorem Valid.afterBody (h : r.Valid reqHdr body) (hleft : r.headerLeft = 0) {bytes : List UInt8}
    (hbytes : bytes <+: r.stream.source)
    (hlen : bytes.length ≤ (r.stream.bodySizeRemaining.getD 0).toNat) :
    (r.afterBody bytes).Valid reqHdr body := by
  have hrest := h.bodySizeRemaining
  obtain rfl := h.loaded
  have hdone : r.stream.reqHdrReadBytes = r.stream.reqHdr.serialize.length :=
    Nat.le_antisymm h.le (Nat.le_of_sub_eq_zero hleft)
  have hbounded := UInt64.le_iff_toNat_le.1 h.bounded
  rw [hrest, UInt64.toNat_sub_of_le _ _ h.bounded] at hlen
  have hhanded := h.handed
  have hsource : bytes.length ≤ body.length - r.stream.reqBodyReadBytes.toNat := by
    rw [← List.length_drop, ← h.source]
    exact hbytes.length_le
  have hcount : (r.afterBody bytes).stream.reqBodyReadBytes.toNat =
      r.stream.reqBodyReadBytes.toNat + bytes.length := by
    have hlt := r.stream.reqHdr.contentLength.toNat_lt
    change (r.stream.reqBodyReadBytes + .ofNat bytes.length).toNat = _
    rw [UInt64.toNat_add, UInt64.toNat_ofNat', Nat.add_mod_mod]
    exact Nat.mod_eq_of_lt (by omega)
  refine ⟨rfl, h.le, h.allRead, fun _ => hdone, ?_, ?_, ?_, ?_⟩
  · rw [hcount, ← List.drop_drop, ← h.source]
    rfl
  · rw [UInt64.le_iff_toNat_le, hcount]
    omega
  · rw [hcount]
    omega
  · have htake : r.stream.source.take bytes.length = bytes :=
      (List.prefix_iff_eq_take.1 hbytes).symm
    change r.delivered ++ bytes = r.stream.reqHdr.serialize.take r.stream.reqHdrReadBytes ++ _
    rw [hcount, List.take_add, ← h.source, htake, h.delivered, List.append_assoc]

/-! ## Calls -/

end Reading

namespace HttpStream

variable {s u : HttpStream} {bufsize : ℕ} {bytes : List UInt8}

theorem read_of_not (answer : Except ℤ ℕ) (hread : s.readHeader bufsize = (bytes, u))
    (h : ¬(bytes.length < bufsize ∧ u.bodySizeRemaining.getD 0 ≠ 0)) :
    s.read bufsize answer = (.ok bytes, u) := by
  unfold read
  rw [hread]
  dsimp only
  split_ifs with hroom
  · cases hrem : u.bodySizeRemaining with
    | none => rfl
    | some remaining =>
      have hzero : remaining = 0 := by simpa [hrem, hroom] using h
      simp [hzero]
  · rfl

/-- What a call does that asks the hook. -/
theorem read_of_asks (answer : Except ℤ ℕ) (hread : s.readHeader bufsize = (bytes, u))
    (hroom : bytes.length < bufsize) {remaining : UInt64}
    (hrem : u.bodySizeRemaining.getD 0 = remaining) (hne : remaining ≠ 0) :
    (∀ err, answer = .error err → s.read bufsize answer = (.error err, u)) ∧
    ∀ n, answer = .ok n →
      let body := u.source.take (min n (min (bufsize - bytes.length) remaining.toNat))
      s.read bufsize answer = (.ok (bytes ++ body), { u with
        reqBodyReadBytes := u.reqBodyReadBytes + .ofNat body.length
        source := u.source.drop body.length }) := by
  have hsome : u.bodySizeRemaining = some remaining := by
    cases h : u.bodySizeRemaining with
    | none => exact absurd (by rw [← hrem, h]; rfl) hne
    | some rest => rw [← hrem, h, Option.getD_some]
  unfold read
  rw [hread]
  dsimp only
  rw [if_pos hroom, hsome]
  dsimp only
  rw [if_neg hne]
  constructor
  · rintro err rfl
    rfl
  · rintro n rfl
    rfl

end HttpStream

namespace Reading

/-- A call copies from the header, and then does not ask the hook, or is given an error or some
bytes. -/
theorem Valid.step_cases (h : r.Valid reqHdr body) (he : r.step call = some t) :
    0 < call.bufsize ∧ ∃ allRead, (r.afterHeader call.bufsize allRead).Valid reqHdr body ∧
      ((¬r.AsksHook call ∧ t = r.afterHeader call.bufsize allRead) ∨
      (r.AsksHook call ∧ ∃ err, call.answer = .error err ∧
        (r.stream.read call.bufsize call.answer).1 = .error err ∧
        t = ⟨(r.afterHeader call.bufsize allRead).stream, r.delivered⟩) ∨
      (r.AsksHook call ∧ ∃ n, call.answer = .ok n ∧
        t = (r.afterHeader call.bufsize allRead).afterBody (r.stream.source.take <| min n <|
          min (call.bufsize - min call.bufsize r.headerLeft)
            (r.stream.bodySizeRemaining.getD 0).toNat))) := by
  obtain ⟨allRead, hread, hall⟩ := h.readHeader_eq call.bufsize
  have hlen : ((r.stream.reqHdr.serialize.drop r.stream.reqHdrReadBytes).take
      call.bufsize).length = min call.bufsize r.headerLeft := by
    rw [List.length_take, List.length_drop]
    rfl
  unfold step at he
  split_ifs at he with hpos
  refine ⟨hpos, allRead, h.afterHeader call.bufsize hall, ?_⟩
  by_cases hasks : r.AsksHook call
  · have hroom : ((r.stream.reqHdr.serialize.drop r.stream.reqHdrReadBytes).take
        call.bufsize).length < call.bufsize := by
      have := hasks.1
      omega
    obtain ⟨herror, hok⟩ := HttpStream.read_of_asks call.answer hread hroom rfl hasks.2
    cases hanswer : call.answer with
    | error err =>
      refine .inr (.inl ⟨hasks, err, rfl, ?_⟩)
      rw [← hanswer, herror err hanswer]
      rw [herror err hanswer] at he
      obtain rfl := Option.some.inj he
      simp [Except.toOption]
    | ok n =>
      refine .inr (.inr ⟨hasks, n, rfl, ?_⟩)
      rw [hok n hanswer, hlen] at he
      obtain rfl := Option.some.inj he
      simp only [Except.toOption, Option.getD_some, ← List.append_assoc]
      rfl
  · refine .inl ⟨hasks, ?_⟩
    have hnot : ¬(((r.stream.reqHdr.serialize.drop r.stream.reqHdrReadBytes).take
        call.bufsize).length < call.bufsize ∧
          (r.afterHeader call.bufsize allRead).stream.bodySizeRemaining.getD 0 ≠ 0) := by
      rintro ⟨hlt, hne⟩
      exact hasks ⟨by omega, hne⟩
    rw [HttpStream.read_of_not call.answer hread hnot] at he
    exact (Option.some.inj he).symm

theorem length_afterHeader (r : Reading) (bufsize : ℕ) (allRead : Bool) :
    (r.afterHeader bufsize allRead).delivered.length =
      r.delivered.length + min bufsize r.headerLeft := by
  unfold afterHeader
  rw [List.length_append, List.length_take, List.length_drop]
  rfl

theorem Valid.losesNothing (ht : t.Valid reqHdr body)
    (h : r.Available call → r.delivered.length < t.delivered.length) :
    LosesNothing reqHdr body r call t :=
  ⟨ht.prefixed, ht.kept, fun havailable _ => h havailable⟩

/-- A call that does not get an error behind header bytes loses nothing. -/
theorem Valid.step (h : r.Valid reqHdr body) (he : r.step call = some t)
    (hc : NoErrorBehindHeader r call) :
    t.Valid reqHdr body ∧ LosesNothing reqHdr body r call t := by
  obtain ⟨hpos, allRead, hu, ⟨hasks, rfl⟩ | ⟨hasks, err, hanswer, hresult, rfl⟩ |
    ⟨hasks, n, hanswer, rfl⟩⟩ := h.step_cases he
  · refine ⟨hu, hu.losesNothing fun havailable => ?_⟩
    rw [length_afterHeader]
    rcases havailable with hleft | ⟨hne, -⟩
    · omega
    · have hfull : ¬r.headerLeft < call.bufsize := fun hroom => hasks ⟨hroom, hne⟩
      omega
  · have hleft : r.headerLeft = 0 := by
      refine Nat.eq_zero_of_not_pos fun hleft => ?_
      have hok := hc hleft hasks
      rw [hanswer] at hok
      cases hok
    have hnil : (r.stream.reqHdr.serialize.drop r.stream.reqHdrReadBytes).take
        call.bufsize = [] := by
      rw [List.drop_of_length_le (Nat.le_of_sub_eq_zero hleft), List.take_nil]
    have ht : (⟨(r.afterHeader call.bufsize allRead).stream, r.delivered⟩ : Reading) =
        r.afterHeader call.bufsize allRead := by
      unfold Reading.afterHeader
      rw [hnil, List.append_nil]
    rw [ht]
    refine ⟨hu, hu.prefixed, hu.kept, fun _ ⟨bytes, hbytes⟩ => ?_⟩
    rw [hresult] at hbytes
    cases hbytes
  · have hleft : (r.afterHeader call.bufsize allRead).headerLeft = 0 := by
      have := hasks.1
      unfold headerLeft at this ⊢
      change r.stream.reqHdr.serialize.length - min _ _ = 0
      omega
    have ht := hu.afterBody hleft (List.take_prefix _ _) (Nat.le_trans (List.length_take_le _ _) <|
      Nat.le_trans (Nat.min_le_right n _) <|
        Nat.min_le_right (call.bufsize - min call.bufsize r.headerLeft) _)
    refine ⟨ht, ht.losesNothing fun havailable => ?_⟩
    change r.delivered.length < ((r.afterHeader call.bufsize allRead).delivered ++ _).length
    rw [List.length_append, length_afterHeader]
    have hroom := hasks.1
    rcases havailable with hleft | ⟨hne, hsource, m, hm, hmpos⟩
    · omega
    · obtain rfl : n = m := by simpa [hanswer] using hm
      have hpos : 0 < (r.stream.bodySizeRemaining.getD 0).toNat :=
        Nat.pos_of_ne_zero fun h0 => hne (UInt64.toNat_inj.1 h0)
      have hlen : 0 < r.stream.source.length := List.length_pos_iff.2 hsource
      rw [List.length_take]
      change _ < _ + _ + min (min n (min _ (r.stream.bodySizeRemaining.getD 0).toNat))
        r.stream.source.length
      omega

/-- Header bytes that were copied before an error are lost. -/
theorem Valid.noErrorBehindHeader (h : r.Valid reqHdr body) (he : r.step call = some t)
    (ht : LosesNothing reqHdr body r call t) : NoErrorBehindHeader r call := by
  intro hleft hasks
  obtain ⟨hpos, allRead, hu, ⟨hnot, -⟩ | ⟨-, err, hanswer, hresult, rfl⟩ | ⟨-, n, hanswer, rfl⟩⟩ :=
    h.step_cases he
  · exact absurd hasks hnot
  · have hkept : r.delivered.length = _ := ht.kept
    have hu := hu.kept
    rw [length_afterHeader, ← hkept] at hu
    omega
  · rw [hanswer]
    rfl

end Reading

/-- Every call of a run does what is wanted exactly if the hook does not fail in a call that has
copied the end of the header. -/
theorem losesNothing_iff (reqHdr : HttpRequest) (body : List UInt8)
    {tr : List (Reading × ReadCall)} (h : Run Reading.step (.start reqHdr body) tr r) :
    Meets (fun s call => ∀ t, s.step call = some t → LosesNothing reqHdr body s call t) tr ↔
      Meets NoErrorBehindHeader tr := by
  refine h.meets_iff_meets (Reading.valid_start reqHdr body) ?_ ?_
  · intro s call t hs he
    refine ⟨fun hP => hs.noErrorBehindHeader he (hP t he), fun hc t' he' => ?_⟩
    exact (hs.step he' hc).2
  · intro s call t hs hP he
    exact (hs.step he (hs.noErrorBehindHeader he (hP t he))).1

/-- A request with three bytes of body. -/
def putRequest : HttpRequest where
  httpMethod := asciiBytes "PUT"
  uri := asciiBytes "/f"
  version := asciiBytes "HTTP/1.1"
  headers := [(asciiBytes "Content-Length", asciiBytes "3")]
  content := []

/-- The end of the header alone in the buffer, an error, the rest. -/
theorem losesNothing_iff_error :
    ∃ tr r, Run Reading.step (.start putRequest (asciiBytes "abc")) tr r ∧
      r.delivered = putRequest.whole (asciiBytes "abc") ∧
      Meets (fun s call => ∀ t, s.step call = some t →
        LosesNothing putRequest (asciiBytes "abc") s call t) tr := by
  have he : exec Reading.step (.start putRequest (asciiBytes "abc"))
      [⟨38, .ok 0⟩, ⟨5, .error (-1)⟩, ⟨5, .ok 2⟩, ⟨5, .ok 2⟩] = some _ := rfl
  refine ⟨_, _, run_trace he, by decide +kernel, (losesNothing_iff _ _ (run_trace he)).2 ?_⟩
  decide +kernel

/-- The header and the body fit into the buffer, and the hook fails once: the next calls deliver
the body without its header. -/
theorem losesHeader :
    ∃ tr r, Run Reading.step (.start putRequest (asciiBytes "abc")) tr r ∧
      r.delivered = asciiBytes "abc" ∧ ¬r.delivered <+: putRequest.whole (asciiBytes "abc") := by
  have he : exec Reading.step (.start putRequest (asciiBytes "abc"))
      [⟨100, .error (-1)⟩, ⟨100, .ok 3⟩] = some _ := rfl
  exact ⟨_, _, run_trace he, by decide +kernel, by decide +kernel⟩

end PersonalCloud.Http
