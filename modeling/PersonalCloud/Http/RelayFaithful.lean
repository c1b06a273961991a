import PersonalCloud.Http.RelayPieces

/-!
# What the relayed header says

The fields are put together again from the map of the parser, which has each name once, with the
values of all its fields. The status line comes from a table that does not have all the codes.

## Main results

* `joined_lines` — the fields of the block are those of the response.
* `relays_iff` — the response is relayed exactly if the table has its status code.
-/

namespace PersonalCloud.Http

open PersonalCloud.Lib HttpResponse

/-! ## Fields -/

section Fields

variable {fields lines : List (List UInt8 × List UInt8)} {name hname val : List UInt8}

theorem joined_of_filter_eq_nil (h : fields.filter (fun f => caseless f.1 = caseless name) = []) :
    joined fields name = none := by
  rw [joined, h]
  rfl

theorem joined_of_filter_ne_nil (h : fields.filter (fun f => caseless f.1 = caseless name) ≠ []) :
    joined fields name = some ([ascii ','].intercalate
      ((fields.filter fun f => caseless f.1 = caseless name).map Prod.snd)) := by
  unfold joined
  obtain ⟨f, fs, hfs⟩ := List.exists_cons_of_ne_nil h
  rw [hfs]
  rfl

/-- A further field adds its value behind a comma, or is the first of its name. -/
theorem joined_concat (fields : List (List UInt8 × List UInt8)) (hname val name : List UInt8) :
    joined (fields ++ [(hname, val)]) name =
      if caseless hname = caseless name then
        some ((joined fields name).elim val fun value => value ++ ascii ',' :: val)
      else joined fields name := by
  by_cases hsame : caseless hname = caseless name
  · have hfilter : (fields ++ [(hname, val)]).filter (fun f => caseless f.1 = caseless name) =
        fields.filter (fun f => caseless f.1 = caseless name) ++ [(hname, val)] := by
      simp [hsame]
    have hne : (fields ++ [(hname, val)]).filter (fun f => caseless f.1 = caseless name) ≠ [] := by
      rw [hfilter]
      simp
    rw [if_pos hsame, joined_of_filter_ne_nil hne, hfilter, List.map_append]
    by_cases hnone : fields.filter (fun f => caseless f.1 = caseless name) = []
    · rw [joined_of_filter_eq_nil hnone, hnone]
      exact congrArg some List.intercalate_singleton
    · rw [joined_of_filter_ne_nil hnone]
      refine congrArg some ?_
      rw [List.map_singleton, intercalate_append (by simpa using hnone), List.intercalate_singleton,
        List.append_assoc]
      rfl
  · have hfilter : (fields ++ [(hname, val)]).filter (fun f => caseless f.1 = caseless name) =
        fields.filter (fun f => caseless f.1 = caseless name) := by
      simp [hsame]
    rw [if_neg hsame, joined, hfilter, joined]

end Fields

/-! ## The map of the parser -/

/-- The map holds the fields, each name under what it is compared by. -/
structure Holds (headers : OrdMap (List ℕ) (List UInt8 × List UInt8))
    (fields : List (List UInt8 × List UInt8)) : Prop where
  keyed : ∀ k f, headers.find? k = some f → caseless f.1 = k
  values : ∀ name, (headers.find? (caseless name)).map Prod.snd = joined fields name

theorem Holds.addField {r : HttpResponse} {fields : List (List UInt8 × List UInt8)}
    (h : Holds r.headers fields) (hname val : List UInt8) :
    Holds (r.addField hname val).headers (fields ++ [(hname, val)]) := by
  -- the entry that is put in has the name as it was first written
  have hput (name value : List UInt8) (hname' : caseless name = caseless hname)
      (hvalue : value = (joined fields hname).elim val fun value => value ++ ascii ',' :: val) :
      Holds (r.headers.insert (caseless hname) (name, value)) (fields ++ [(hname, val)]) := by
    refine ⟨fun k f hf => ?_, fun other => ?_⟩
    · rw [OrdMap.find?_insert] at hf
      split_ifs at hf with hk
      · obtain rfl := Option.some.inj hf
        exact hname'.trans hk.symm
      · exact h.keyed k f hf
    · rw [joined_concat, OrdMap.find?_insert]
      by_cases hsame : caseless hname = caseless other
      · have hjoined : joined fields hname = joined fields other := by
          rw [← h.values, hsame, h.values]
        rw [if_pos hsame.symm, if_pos hsame, hvalue, hjoined]
        rfl
      · rw [if_neg (Ne.symm hsame), if_neg hsame, h.values]
  have hvalues := h.values hname
  unfold HttpResponse.addField
  cases hfind : r.headers.find? (caseless hname) with
  | none =>
    rw [hfind] at hvalues
    exact hput hname val rfl (by rw [← hvalues]; rfl)
  | some f =>
    rw [hfind] at hvalues
    exact hput f.1 _ (h.keyed _ f hfind) (by rw [← hvalues]; rfl)

theorem holds_addFields (r : HttpResponse) (h : Holds r.headers []) (fields : List HeaderField) :
    Holds (addFields r fields).headers (fields.map fun f => (f.name, f.value)) := by
  induction fields using List.reverseRecOn with
  | nil => exact h
  | append_singleton fields f ih =>
    rw [addFields, List.foldl_concat, List.map_append]
    exact ih.addField f.name f.value

/-- The lines of the map have each name once, with the joined values. -/
theorem Holds.lines {headers : OrdMap (List ℕ) (List UInt8 × List UInt8)}
    {fields : List (List UInt8 × List UInt8)} (h : Holds headers fields) :
    ((headers.entries.map Prod.snd).map fun f => caseless f.1).Nodup ∧
      ∀ name, joined (headers.entries.map Prod.snd) name = joined fields name := by
  have hkey : ∀ x ∈ headers.entries, caseless x.2.1 = x.1 := fun x hx =>
    h.keyed x.1 x.2 (OrdMap.find?_eq_some.2 hx)
  refine ⟨?_, fun name => ?_⟩
  · have hkeys : (headers.entries.map Prod.snd).map (fun f => caseless f.1) =
        headers.entries.map Prod.fst := by
      rw [List.map_map]
      exact List.map_congr_left hkey
    rw [hkeys]
    exact (List.pairwise_map.2 headers.sorted).imp ne_of_lt
  · have hfilter : (headers.entries.map Prod.snd).filter
        (fun f => caseless f.1 = caseless name) = (headers.find? (caseless name)).toList := by
      rw [← OrdMap.map_filter_entries, List.filter_map]
      refine congrArg (List.map Prod.snd) (List.filter_congr fun x hx => ?_)
      simp only [Function.comp_apply, hkey x hx]
      exact decide_eq_decide.2 Iff.rfl
    rw [← h.values, joined, hfilter]
    cases headers.find? (caseless name) with
    | none => rfl
    | some f => exact congrArg some List.intercalate_singleton

/-! ## The status line -/

/-- The codes that the table has a line for. -/
def statusCodes : List ℕ :=
  [200, 201, 204, 206, 400, 401, 404, 405, 409, 415, 416, 501, 503, 504, 500]

/-- The status code of the line that stands for a code. -/
def lineCode (statusCode : ℕ) : ℕ :=
  if statusCode ∈ statusCodes then statusCode else 500

/-- A line that begins with a status code. -/
def BeginsWith (line : List UInt8) (statusCode : ℕ) : Prop :=
  line.take 13 = asciiBytes "HTTP/1.1 " ++ threeDigits statusCode ++ [ascii ' ']

instance (line : List UInt8) (statusCode : ℕ) : Decidable (BeginsWith line statusCode) :=
  inferInstanceAs (Decidable (_ = _))

theorem statusLines_ok : ∀ line ∈ statusLines,
    ∃ n ∈ statusCodes, line.1 = .ofNat n ∧ BeginsWith (asciiBytes line.2) n := by
  decide +kernel

theorem statusCodes_ok : ∀ n ∈ statusCodes, n < 1000 ∧ (statusLines.lookup (.ofNat n)).isSome := by
  decide +kernel

theorem int32_ofNat_injOn {m n : ℕ} (hm : m < 1000) (hn : n < 1000)
    (h : Int32.ofNat m = Int32.ofNat n) : m = n := by
  have hint := congrArg Int32.toInt h
  rw [Int32.toInt_ofNat_of_lt (by omega), Int32.toInt_ofNat_of_lt (by omega)] at hint
  exact Int.ofNat_inj.1 hint

theorem mem_of_lookup {code : Int32} {text : String}
    (h : statusLines.lookup code = some text) : (code, text) ∈ statusLines := by
  obtain ⟨before, after, hsplit, -⟩ := List.lookup_eq_some_iff.1 h
  rw [hsplit]
  exact List.mem_append_right _ List.mem_cons_self

theorem beginsWith_lineCode {n : ℕ} (hn : n < 1000) :
    BeginsWith (asciiBytes ((statusLines.lookup (.ofNat n)).getD
      "HTTP/1.1 500 Internal Server Error")) (lineCode n) := by
  cases hlookup : statusLines.lookup (.ofNat n) with
  | none =>
    have hcode : n ∉ statusCodes := fun h => by
      have hsome := (statusCodes_ok n h).2
      rw [hlookup] at hsome
      cases hsome
    rw [lineCode, if_neg hcode]
    decide +kernel
  | some text =>
    obtain ⟨m, hm, hcode, hbegins⟩ := statusLines_ok _ (mem_of_lookup hlookup)
    obtain rfl := int32_ofNat_injOn hn (statusCodes_ok m hm).1 hcode
    rw [lineCode, if_pos hm]
    exact hbegins

theorem threeDigits_inj {m n : ℕ} (hm : m < 1000) (hn : n < 1000)
    (h : threeDigits m = threeDigits n) : m = n := by
  rw [← (threeDigits_ok hm).2, h, (threeDigits_ok hn).2]

theorem lineCode_lt {n : ℕ} (hn : n < 1000) : lineCode n < 1000 := by
  unfold lineCode
  split_ifs <;> omega

theorem eq_lineCode_iff (n : ℕ) : n = lineCode n ↔ n ∈ statusCodes := by
  unfold lineCode
  split_ifs with h
  · exact iff_of_true rfl h
  · refine iff_of_false ?_ h
    rintro rfl
    exact h (by decide)

/-! ## The block -/

namespace HttpReply

theorem parsed_response (reply : HttpReply) :
    reply.parsed.response = .ofNat reply.statusCode := by
  obtain ⟨headers, hfields⟩ := exists_addFields_eq reply.afterStatus reply.fields
  rw [parsed, hfields]
  rfl

theorem holds_parsed (reply : HttpReply) :
    Holds reply.parsed.headers (reply.fields.map fun f => (f.name, f.value)) :=
  holds_addFields reply.afterStatus ⟨fun _ _ h => (by cases h), fun _ => rfl⟩ reply.fields

theorem dumpHeaders_parsed (reply : HttpReply) : ∃ reason, reply.parsed.dumpHeaders =
    asciiBytes "HTTP/1.1 " ++ threeDigits (lineCode reply.statusCode) ++ ascii ' ' :: reason ++
      crlf ++
      ((reply.parsed.headers.entries.map Prod.snd).flatMap fun f =>
        f.1 ++ asciiBytes ": " ++ f.2 ++ crlf) ++ crlf := by
  have hbegins := beginsWith_lineCode reply.statusCode_lt
  rw [← reply.parsed_response] at hbegins
  refine ⟨(asciiBytes ((statusLines.lookup reply.parsed.response).getD
    "HTTP/1.1 500 Internal Server Error")).drop 13, ?_⟩
  rw [dumpHeaders, statusLine, List.flatMap_map, List.append_cons, ← hbegins,
    List.take_append_drop]

theorem carries_iff (reply : HttpReply) : Carries reply.parsed.dumpHeaders reply.statusCode
    (reply.fields.map fun f => (f.name, f.value)) ↔ reply.statusCode ∈ statusCodes := by
  obtain ⟨reason, hdump⟩ := reply.dumpHeaders_parsed
  constructor
  · rintro ⟨reason', lines, hblock, -⟩
    have hcode : threeDigits reply.statusCode = threeDigits (lineCode reply.statusCode) := by
      have htake := congrArg (fun block => (block.drop 9).take 3) (hblock.symm.trans hdump)
      simpa [asciiBytes, threeDigits] using htake
    exact (eq_lineCode_iff _).1
      (threeDigits_inj reply.statusCode_lt (lineCode_lt reply.statusCode_lt) hcode)
  · intro hcode
    rw [← (eq_lineCode_iff _).2 hcode] at hdump
    exact ⟨reason, _, hdump, reply.holds_parsed.lines⟩

end HttpReply

variable {hook : Hook}

theorem relays_iff_carries (haccepts : Accepts hook) (reply : HttpReply)
    {pieces : List (List UInt8)} (hpieces : pieces.flatten = reply.bytes) :
    Relays hook reply pieces ↔ Carries reply.parsed.dumpHeaders reply.statusCode
      (reply.fields.map fun f => (f.name, f.value)) := by
  obtain ⟨bodies, hpushed, hbody⟩ := relay_pushed haccepts hpieces
  constructor
  · rintro ⟨block, bodies', hpushed', hcarries, -⟩
    rw [hpushed] at hpushed'
    obtain ⟨hblock, -⟩ := List.cons.inj hpushed'
    rwa [Pushed.header.inj hblock]
  · intro hcarries
    exact ⟨_, bodies, hpushed, hcarries, hbody⟩

/-- A response is relayed as it is, however it is cut, if there is a status line for its code. -/
theorem relays_iff (haccepts : Accepts hook) (reply : HttpReply) {pieces : List (List UInt8)}
    (hpieces : pieces.flatten = reply.bytes) :
    Relays hook reply pieces ↔ reply.statusCode ∈ statusCodes :=
  (relays_iff_carries haccepts reply hpieces).trans reply.carries_iff

theorem forall_mem_of_all {p : UInt8 → Prop} [DecidablePred p] {l : List UInt8}
    (h : (l.all fun c => p c) = true) : ∀ c ∈ l, p c := fun c hc =>
  of_decide_eq_true (List.all_eq_true.1 h c hc)

/-- A part of an entity, with the name of a field in two spellings. -/
def partialContent : HttpReply where
  version := asciiBytes "HTTP/1.1"
  statusCode := 206
  reason := asciiBytes "Partial Content"
  fields := [
    ⟨asciiBytes "Content-Length", [], asciiBytes "2", [], forall_mem_of_all rfl,
      forall_mem_of_all rfl, by decide, rfl, rfl⟩,
    ⟨asciiBytes "Via", asciiBytes " ", asciiBytes "a", [], forall_mem_of_all rfl,
      forall_mem_of_all rfl, by decide, rfl, rfl⟩,
    ⟨asciiBytes "via", asciiBytes " ", asciiBytes "b", [], forall_mem_of_all rfl,
      forall_mem_of_all rfl, by decide, rfl, rfl⟩]
  body := asciiBytes "xy"
  version_ok := forall_mem_of_all rfl
  statusCode_lt := by decide
  reason_ok := forall_mem_of_all rfl

/-- Cut inside the status line, between `\r` and `\n` and inside the body. -/
theorem relays_iff_partialContent : Relays (fun _ call => call.bytes.length) partialContent
    [asciiBytes "HTTP/1.1 20", asciiBytes "6 Partial Content\r",
      asciiBytes "\nContent-Length:2\r\nVia: a\r\nvia: b\r\n\r\nx", asciiBytes "y"] :=
  (relays_iff (fun _ _ => rfl) partialContent (by decide +kernel)).2 (by decide)

/-- A redirection without a body. -/
def found : HttpReply where
  version := asciiBytes "HTTP/1.1"
  statusCode := 302
  reason := asciiBytes "Found"
  fields := []
  body := []
  version_ok := forall_mem_of_all rfl
  statusCode_lt := by decide
  reason_ok := forall_mem_of_all rfl

/-- A redirection is relayed as an internal error. -/
theorem not_relays_found : ¬∀ (hook : Hook) (reply : HttpReply) (pieces : List (List UInt8)),
    Accepts hook → pieces.flatten = reply.bytes → Relays hook reply pieces := by
  intro h
  have haccepts : Accepts fun _ call => call.bytes.length := fun _ _ => rfl
  have hpieces : [found.bytes].flatten = found.bytes := List.flatten_singleton
  have hrelays := h _ found [found.bytes] haccepts hpieces
  rw [relays_iff_carries haccepts found hpieces, found.carries_iff] at hrelays
  exact absurd hrelays (by decide)

end PersonalCloud.Http
