import PersonalCloud.Http.ResponseParser

/-!
# Relaying a response

`Write` gives what it gets to the header parser until the headers are complete, and what is behind
them to `write_body`. The parser takes bytes of the body that share a buffer with the headers, and
they have to be subtracted again. Before the first byte of the body, or in `Flush` if there is none,
the headers go to `write_header`, put together again from the parsed fields.

## Main definitions

* `ResponseStream.write`, `ResponseStream.flush` — the code.
* `HttpReply` — a well-formed response.
* `Relays` — what the hooks have to be given.
-/

namespace PersonalCloud.Http

open PersonalCloud.Lib

/-! ## The code -/

def crlf : List UInt8 :=
  asciiBytes "\r\n"

def statusLines : List (Int32 × String) := [
  (200, "HTTP/1.1 200 OK"),
  (201, "HTTP/1.1 201 Created"),
  (204, "HTTP/1.1 204 No Content"),
  (206, "HTTP/1.1 206 Partial Content"),
  (400, "HTTP/1.1 400 Bad request"),
  (401, "HTTP/1.1 401 Unauthorized"),
  (404, "HTTP/1.1 404 File not found"),
  (405, "HTTP/1.1 405 Method Not Allowed"),
  (409, "HTTP/1.1 409 Conflict"),
  (415, "HTTP/1.1 415 Unsupported Media Type"),
  (416, "HTTP/1.1 416 Requested Range Not Satisfiable"),
  (501, "HTTP/1.1 501 Not Implemented"),
  (503, "HTTP/1.1 503 Service Unavailable"),
  (504, "HTTP/1.1 504 Gateway Timeout"),
  (500, "HTTP/1.1 500 Internal Server Error")]

namespace HttpResponse

def statusLine (r : HttpResponse) : List UInt8 :=
  asciiBytes ((statusLines.lookup r.response).getD "HTTP/1.1 500 Internal Server Error") ++ crlf

def dumpHeaders (r : HttpResponse) : List UInt8 :=
  r.statusLine ++
    (r.headers.entries.flatMap fun header =>
      header.2.1 ++ asciiBytes ": " ++ header.2.2 ++ crlf) ++
    crlf

/-- `HttpRespHeader::FeedData`: less what has been taken of the body. -/
def feedData (resp : HttpResponse) (data : List UInt8) : ℤ × HttpResponse :=
  if resp.headersDone then (0, resp)
  else
    let (resp, used) := resp.addInput data
    if resp.headersDone then (used - resp.content.length, resp) else (used, resp)

end HttpResponse

/-- A call of a hook. -/
inductive Pushed where
  | header (bytes : List UInt8)
  | body (bytes : List UInt8)
deriving DecidableEq, Repr

def Pushed.bytes : Pushed → List UInt8
  | header bytes => bytes
  | body bytes => bytes

/-- A hook says how many bytes it has taken, or an error; it may depend on the calls before. -/
abbrev Hook := List Pushed → Pushed → ℤ

/-- `pushed` are the calls of the hooks. -/
structure ResponseStream where
  respHdr : HttpResponse
  respHdrPushed : Bool
  respBodyBytesWritten : UInt64
  pushed : List Pushed

namespace ResponseStream

def start : ResponseStream where
  respHdr := .start false
  respHdrPushed := false
  respBodyBytesWritten := 0
  pushed := []

/-- `write_header`, unless it has been called with success. -/
def pushHeader (hook : Hook) (s : ResponseStream) : ℤ × ResponseStream :=
  if s.respHdrPushed then (0, s)
  else
    let respheader := Pushed.header s.respHdr.dumpHeaders
    let used := hook s.pushed respheader
    let s := { s with pushed := s.pushed ++ [respheader] }
    if used < 0 then (used, s) else (0, { s with respHdrPushed := true })

/-- `write_body`. -/
def pushBody (hook : Hook) (s : ResponseStream) (data : List UInt8) : ℤ × ResponseStream :=
  let used := hook s.pushed (.body data)
  let s := { s with pushed := s.pushed ++ [.body data] }
  if used < 0 then (used, s)
  else (used, { s with respBodyBytesWritten := s.respBodyBytesWritten + .ofNat used.toNat })

/-- `Write`, with its result. -/
def write (hook : Hook) (s : ResponseStream) (data : List UInt8) : ℤ × ResponseStream :=
  let (used, respHdr) := s.respHdr.feedData data
  let s := { s with respHdr := respHdr }
  if used < 0 then (used, s)
  else
    let data := data.drop used.toNat
    if s.respHdr.headersDone ∧ data ≠ [] then
      let (err, s) := s.pushHeader hook
      if err < 0 then (err, s)
      else
        let (bytes, s) := s.pushBody hook data
        if bytes < 0 then (bytes, s) else (used + bytes, s)
    else (used, s)

/-- `Flush`. -/
def flush (hook : Hook) (s : ResponseStream) : ℤ × ResponseStream :=
  s.pushHeader hook

/-- A response in pieces, and `Flush` behind it. -/
def relay (hook : Hook) (pieces : List (List UInt8)) : ResponseStream :=
  ((pieces.foldl (fun s data => (s.write hook data).2) start).flush hook).2

end ResponseStream

/-! ## Well-formed responses -/

/-- A field with the blanks around its value. -/
structure HeaderField where
  name : List UInt8
  before : List UInt8
  value : List UInt8
  after : List UInt8
  name_ok : ∀ c ∈ name, c ≠ ascii ':' ∧ c ≠ newline
  blank : ∀ c ∈ before ++ after, c = ascii ' ' ∨ c = ascii '\t'
  value_ok : newline ∉ value
  begins : value.head?.any isspace = false
  ends : value.getLast?.any isspace = false

def HeaderField.line (f : HeaderField) : List UInt8 :=
  f.name ++ ascii ':' :: (f.before ++ f.value ++ f.after) ++ crlf

def threeDigits (n : ℕ) : List UInt8 :=
  [.ofNat (48 + n / 100 % 10), .ofNat (48 + n / 10 % 10), .ofNat (48 + n % 10)]

structure HttpReply where
  version : List UInt8
  statusCode : ℕ
  reason : List UInt8
  fields : List HeaderField
  body : List UInt8
  version_ok : ∀ c ∈ version, c ≠ ascii ' ' ∧ c ≠ newline
  statusCode_lt : statusCode < 1000
  reason_ok : ∀ c ∈ reason, c ≠ newline ∧ c ≠ ascii '\r'

namespace HttpReply

def header (reply : HttpReply) : List UInt8 :=
  reply.version ++ ascii ' ' :: (threeDigits reply.statusCode ++ ascii ' ' :: reply.reason) ++
    crlf ++ (reply.fields.flatMap HeaderField.line ++ crlf)

def bytes (reply : HttpReply) : List UInt8 :=
  reply.header ++ reply.body

end HttpReply

/-- The values of all fields of a name, joined by commas. -/
def joined (fields : List (List UInt8 × List UInt8)) (name : List UInt8) : Option (List UInt8) :=
  match (fields.filter fun f => caseless f.1 = caseless name).map Prod.snd with
  | [] => none
  | values => some ([ascii ','].intercalate values)

/-- The block has the status code, and the fields, each of them once. -/
def Carries (block : List UInt8) (statusCode : ℕ) (fields : List (List UInt8 × List UInt8)) :
    Prop :=
  ∃ reason lines,
    block = asciiBytes "HTTP/1.1 " ++ threeDigits statusCode ++ ascii ' ' :: reason ++ crlf ++
      (lines.flatMap fun f => f.1 ++ asciiBytes ": " ++ f.2 ++ crlf) ++ crlf ∧
    (lines.map fun f => caseless f.1).Nodup ∧
    ∀ name, joined lines name = joined fields name

/-- `write_header` is called once and before the body, with a block that carries the header, and
`write_body` is given the body. -/
def Relays (hook : Hook) (reply : HttpReply) (pieces : List (List UInt8)) : Prop :=
  ∃ (block : List UInt8) (bodies : List (List UInt8)),
    (ResponseStream.relay hook pieces).pushed = .header block :: bodies.map .body ∧
    Carries block reply.statusCode (reply.fields.map fun f => (f.name, f.value)) ∧
    bodies.flatten = reply.body

end PersonalCloud.Http
