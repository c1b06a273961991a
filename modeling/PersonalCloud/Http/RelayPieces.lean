import PersonalCloud.Http.RelayHeader

/-!
# A response in pieces through the relay

Until the header is complete nothing is pushed. The piece that completes it is cut where the header
ends, however much the parser has taken of it, and from then on each piece is pushed as it is.

## Main definitions

* `Sent` — the stream behind some bytes of the response.

## Main results

* `sent_write` — what one call of `Write` does to it.
* `relay_pushed` — the hooks get the header once, and then the body.
-/

namespace PersonalCloud.Http

open PersonalCloud.Lib HttpResponse

variable {hook : Hook} {reply : HttpReply} {s : ResponseStream} {a b w data : List UInt8}

/-- The hooks accept all that they are given. -/
def Accepts (hook : Hook) : Prop :=
  ∀ history call, hook history call = call.bytes.length

/-! ## The parsed header -/

theorem exists_addFields_eq (r : HttpResponse) (fields : List HeaderField) :
    ∃ headers, addFields r fields = { r with headers := headers } := by
  induction fields generalizing r with
  | nil => exact ⟨r.headers, rfl⟩
  | cons f fields ih =>
    obtain ⟨headers, hheaders⟩ := r.exists_addField_eq f.name f.value
    obtain ⟨headers', hfields⟩ := ih (r.addField f.name f.value)
    refine ⟨headers', ?_⟩
    change addFields (r.addField f.name f.value) fields = _
    rw [hfields, hheaders]

namespace HttpReply

theorem parsed_content (reply : HttpReply) : reply.parsed.content = [] := by
  obtain ⟨headers, hfields⟩ := exists_addFields_eq reply.afterStatus reply.fields
  rw [parsed, hfields]
  rfl

theorem parsed_bodySoFar (reply : HttpReply) : reply.parsed.bodySoFar = 0 := by
  obtain ⟨headers, hfields⟩ := exists_addFields_eq reply.afterStatus reply.fields
  rw [parsed, hfields]
  rfl

theorem not_inLines_parsed (reply : HttpReply) : ¬reply.parsed.InLines := by
  obtain ⟨headers, hfields⟩ := exists_addFields_eq reply.afterStatus reply.fields
  rw [parsed, hfields]
  rintro (h | h) <;> exact h rfl

theorem feed_parsed (reply : HttpReply) (b : List UInt8) :
    feed take reply.parsed b = (reply.parsed.addContent (b.take reply.parsed.bodyLen.toNat),
      min b.length reply.parsed.bodyLen.toNat) := by
  have hle : reply.parsed.bodySoFar ≤ reply.parsed.bodyLen := by
    rw [reply.parsed_bodySoFar]
    exact UInt64.zero_le
  rw [feed_body reply.not_inLines_parsed hle, reply.parsed_bodySoFar, UInt64.sub_zero]

end HttpReply

/-! ## Feeding the header parser -/

/-- The parser behind the first bytes of a header. -/
def behind (w : List UInt8) : HttpResponse :=
  (feed take (HttpResponse.start false) w).1

theorem valid_behind (w : List UInt8) : (behind w).Valid :=
  feed_invariant (fun _ _ _ h ht => Valid.take h ht) (valid_start false) w

/-- Bytes of the header are all taken. -/
theorem feed_behind (hw : reply.header = w ++ a) (b : List UInt8) :
    feed take (HttpResponse.start false) (w ++ b) =
      ((feed take (behind w) b).1, w.length + (feed take (behind w) b).2) := by
  have hwhole := reply.completes.feed_append []
  rw [List.append_nil, hw] at hwhole
  exact feed_append_of_all (feed_all_of_append settled_take (congrArg Prod.snd hwhole)) b

theorem behind_append (hw : reply.header = w ++ a) (b : List UInt8) :
    behind (w ++ b) = (feed take (behind w) b).1 := by
  rw [behind, feed_behind hw b]

theorem feedData_of_feed {resp t : HttpResponse} {used : ℕ} (hdone : resp.headersDone = false)
    (h : resp.addInput data = (t, used)) :
    feedData resp data =
      (if t.headersDone then (used - t.content.length : ℤ) else used, t) := by
  unfold feedData
  rw [hdone, if_neg Bool.false_ne_true, h]
  dsimp only
  split_ifs <;> rfl

theorem feedData_pending (hw : reply.header = w ++ (a ++ b)) (hb : b ≠ []) :
    (feedData (behind w) a).2 = behind (w ++ a) ∧ (behind (w ++ a)).headersDone = false := by
  have hdone : (behind w).headersDone = false :=
    reply.completes.pending w (a ++ b) hw (List.append_ne_nil_of_right_ne_nil a hb)
  have hfeed : (behind w).addInput a = (behind (w ++ a), (feed take (behind w) a).2) := by
    rw [addInput_eq_feed (valid_behind w), behind_append hw a]
  rw [feedData_of_feed hdone hfeed]
  exact ⟨rfl, reply.completes.pending (w ++ a) b (by rw [hw, List.append_assoc]) hb⟩

/-- With the end of the header come bytes of the body, which are not counted. -/
theorem feedData_completing (hw : reply.header = w ++ a) (ha : a ≠ []) (b : List UInt8) :
    feedData (behind w) (a ++ b) =
      ((a.length : ℤ), reply.parsed.addContent (b.take reply.parsed.bodyLen.toNat)) := by
  have hdone : (behind w).headersDone = false := reply.completes.pending w a hw ha
  have hfeed : (behind w).addInput (a ++ b) =
      (reply.parsed.addContent (b.take reply.parsed.bodyLen.toNat),
        a.length + min b.length reply.parsed.bodyLen.toNat) := by
    have hwhole := reply.completes.feed_append b
    rw [hw, List.append_assoc, feed_behind hw, reply.feed_parsed, List.length_append] at hwhole
    obtain ⟨hstate, hused⟩ := Prod.mk.inj hwhole
    rw [addInput_eq_feed (valid_behind w)]
    exact Prod.ext hstate (by simp only; omega)
  have hcontent : (reply.parsed.addContent (b.take reply.parsed.bodyLen.toNat)).content.length =
      min b.length reply.parsed.bodyLen.toNat := by
    change (reply.parsed.content ++ _).length = _
    rw [reply.parsed_content, List.nil_append, List.length_take, Nat.min_comm]
  have hend : (reply.parsed.addContent (b.take reply.parsed.bodyLen.toNat)).headersDone = true :=
    rfl
  rw [feedData_of_feed hdone hfeed, if_pos hend, hcontent]
  exact Prod.ext (by simp only; omega) rfl

/-! ## Pushing -/

namespace ResponseStream

theorem write_of_pending (h : (s.respHdr.feedData data).2.headersDone = false) :
    (s.write hook data).2 = { s with respHdr := (s.respHdr.feedData data).2 } := by
  unfold write
  dsimp only
  by_cases herr : (s.respHdr.feedData data).1 < 0
  · rw [if_pos herr]
  · rw [if_neg herr, if_neg fun h' => Bool.false_ne_true (h.symm.trans h'.1)]

theorem pushHeader_of_accepts (haccepts : Accepts hook) (s : ResponseStream) :
    s.pushHeader hook = (0, { s with
      respHdrPushed := true
      pushed := s.pushed ++ if s.respHdrPushed then [] else [.header s.respHdr.dumpHeaders] }) := by
  unfold pushHeader
  by_cases hpushed : s.respHdrPushed = true
  · rw [if_pos hpushed, if_pos hpushed, List.append_nil, ← hpushed]
  · rw [if_neg hpushed, if_neg hpushed]
    dsimp only
    rw [haccepts, if_neg (Int.not_lt.2 (Int.natCast_nonneg _))]

theorem pushBody_of_accepts (haccepts : Accepts hook) (s : ResponseStream) (data : List UInt8) :
    s.pushBody hook data = ((data.length : ℤ), { s with
      respBodyBytesWritten := s.respBodyBytesWritten + .ofNat data.length
      pushed := s.pushed ++ [.body data] }) := by
  unfold pushBody
  dsimp only
  rw [haccepts, if_neg (Int.not_lt.2 (Int.natCast_nonneg _))]
  rfl

/-- Behind the header the rest of a piece is pushed, if there is any. -/
theorem write_of_done (haccepts : Accepts hook) {used : ℕ} {t : HttpResponse}
    (hfeed : s.respHdr.feedData data = ((used : ℤ), t)) (hdone : t.headersDone = true) :
    let rest := data.drop used
    let u := (s.write hook data).2
    u.respHdr = t ∧ u.respHdrPushed = (s.respHdrPushed || rest ≠ []) ∧
      u.pushed = s.pushed ++
        if rest = [] then [] else
          (if s.respHdrPushed then [] else [.header t.dumpHeaders]) ++ [.body rest] := by
  unfold write
  rw [hfeed]
  dsimp only
  rw [if_neg (Int.not_lt.2 (Int.natCast_nonneg _)), Int.toNat_natCast]
  by_cases hrest : data.drop used = []
  · rw [if_neg fun h => h.2 hrest, if_pos hrest]
    simp [hrest]
  · rw [if_pos ⟨hdone, hrest⟩, pushHeader_of_accepts haccepts, if_neg (lt_irrefl _),
      pushBody_of_accepts haccepts, if_neg (Int.not_lt.2 (Int.natCast_nonneg _)), if_neg hrest]
    simp [hrest]

end ResponseStream

/-! ## The stream behind some of the response -/

/-- Within the header nothing has been pushed. Behind it the header has been pushed if there is any
of the body, and then the pieces of the body. -/
inductive Sent (reply : HttpReply) : List UInt8 → ResponseStream → Prop where
  | header {w a : List UInt8} {s : ResponseStream} (hsplit : reply.header = w ++ a) (hne : a ≠ [])
      (hparser : s.respHdr = behind w) (hflag : s.respHdrPushed = false) (hpushed : s.pushed = []) :
      Sent reply w s
  | body (bodies : List (List UInt8)) {s : ResponseStream} (taken : List UInt8)
      (hparser : s.respHdr = reply.parsed.addContent taken)
      (hflag : s.respHdrPushed = decide (bodies.flatten ≠ []))
      (hpushed : s.pushed = if bodies.flatten = [] then [] else
        .header reply.parsed.dumpHeaders :: bodies.map .body) :
      Sent reply (reply.header ++ bodies.flatten) s

theorem sent_start (reply : HttpReply) : Sent reply [] .start := by
  have hne : reply.header ≠ [] := by
    unfold HttpReply.header
    simp
  exact .header rfl hne rfl rfl rfl

/-- The piece that completes the header. -/
theorem Sent.completing (haccepts : Accepts hook) (hsplit : reply.header = w ++ a) (hne : a ≠ [])
    (hparser : s.respHdr = behind w) (hflag : s.respHdrPushed = false) (hpushed : s.pushed = [])
    (b : List UInt8) : Sent reply (w ++ (a ++ b)) (s.write hook (a ++ b)).2 := by
  have hfeed : s.respHdr.feedData (a ++ b) =
      ((a.length : ℤ), reply.parsed.addContent (b.take reply.parsed.bodyLen.toNat)) := by
    rw [hparser, feedData_completing hsplit hne]
  obtain ⟨hparser', hflag', hpushed'⟩ := ResponseStream.write_of_done haccepts hfeed rfl
  rw [List.drop_left] at hflag' hpushed'
  rw [hflag, Bool.false_or] at hflag'
  rw [hpushed, hflag, List.nil_append] at hpushed'
  have hsent := Sent.body [b] _ hparser'
  rw [List.flatten_singleton, hsplit, List.append_assoc] at hsent
  exact hsent hflag' hpushed'

/-- A piece of the body. -/
theorem Sent.more (haccepts : Accepts hook) {bodies : List (List UInt8)} {taken : List UInt8}
    (hparser : s.respHdr = reply.parsed.addContent taken)
    (hflag : s.respHdrPushed = decide (bodies.flatten ≠ []))
    (hpushed : s.pushed = if bodies.flatten = [] then [] else
      .header reply.parsed.dumpHeaders :: bodies.map .body) (data : List UInt8) :
    Sent reply (reply.header ++ bodies.flatten ++ data) (s.write hook data).2 := by
  have hfeed : s.respHdr.feedData data =
      (((0 : ℕ) : ℤ), reply.parsed.addContent taken) := by
    rw [hparser]
    exact if_pos rfl
  obtain ⟨hparser', hflag', hpushed'⟩ := ResponseStream.write_of_done haccepts hfeed rfl
  rw [List.drop_zero, hflag] at hflag' hpushed'
  have hdump : (reply.parsed.addContent taken).dumpHeaders = reply.parsed.dumpHeaders := rfl
  rw [hpushed, hdump] at hpushed'
  by_cases hdata : data = []
  · rw [hdata, List.append_nil]
    refine .body bodies taken (hdata ▸ hparser') ?_ ?_
    · simpa [hdata] using hflag'
    · simpa [hdata] using hpushed'
  by_cases hnone : bodies.flatten = []
  · have hsent := Sent.body [data] taken hparser'
    rw [List.flatten_singleton] at hsent
    rw [hnone, List.append_nil]
    refine hsent ?_ ?_
    · simpa [hnone] using hflag'
    · simpa [hnone, hdata] using hpushed'
  · have hsent := Sent.body (bodies ++ [data]) taken hparser'
    rw [List.flatten_append, List.flatten_singleton] at hsent
    have hne : bodies.flatten ++ data ≠ [] := List.append_ne_nil_of_left_ne_nil hnone data
    rw [List.append_assoc]
    refine hsent ?_ ?_
    · rw [hflag', decide_eq_true hnone, decide_eq_true hne, Bool.true_or]
    · rw [hpushed', if_neg hnone, if_neg hdata, if_neg hne, if_pos (decide_eq_true hnone),
        List.nil_append, List.map_append]
      rfl

theorem sent_write (haccepts : Accepts hook) (h : Sent reply w s) {tail : List UInt8}
    (hpiece : reply.bytes = w ++ data ++ tail) : Sent reply (w ++ data) (s.write hook data).2 := by
  cases h with
  | body bodies taken hparser hflag hpushed => exact .more haccepts hparser hflag hpushed data
  | @header _ a _ hsplit hne hparser hflag hpushed =>
    have hrest : a ++ reply.body = data ++ tail := by
      rw [HttpReply.bytes, hsplit, List.append_assoc, List.append_assoc] at hpiece
      exact List.append_cancel_left hpiece
    obtain ⟨b, rfl, -⟩ | ⟨b, rfl, -⟩ := List.append_eq_append_iff.1 hrest
    · exact .completing haccepts hsplit hne hparser hflag hpushed b
    · by_cases hb : b = []
      · have hsent := Sent.completing haccepts hsplit hne hparser hflag hpushed []
        rwa [hb, List.append_nil, List.append_nil] at hsent
      · obtain ⟨hstate, hdone⟩ := feedData_pending hsplit hb
        rw [ResponseStream.write_of_pending (by rw [hparser, hstate, hdone])]
        refine .header (a := b) (by rw [hsplit, List.append_assoc]) hb ?_ hflag hpushed
        exact hparser ▸ hstate

theorem sent_writes (haccepts : Accepts hook) (pieces : List (List UInt8)) (h : Sent reply w s)
    {tail : List UInt8} (hpieces : reply.bytes = w ++ pieces.flatten ++ tail) :
    Sent reply (w ++ pieces.flatten) (pieces.foldl (fun s data => (s.write hook data).2) s) := by
  induction pieces generalizing w s with
  | nil =>
    rw [List.flatten_nil, List.append_nil]
    exact h
  | cons data pieces ih =>
    rw [List.flatten_cons, ← List.append_assoc] at hpieces ⊢
    have hwrite := sent_write haccepts h (hpieces.trans (List.append_assoc _ _ _))
    exact ih hwrite hpieces

/-- Behind all of the response, the pieces pushed are the body. -/
theorem Sent.whole (h : Sent reply w s) (hw : w = reply.bytes) : ∃ bodies : List (List UInt8),
    s.respHdr.dumpHeaders = reply.parsed.dumpHeaders ∧ bodies.flatten = reply.body ∧
      s.respHdrPushed = decide (reply.body ≠ []) ∧
      s.pushed = if reply.body = [] then [] else
        .header reply.parsed.dumpHeaders :: bodies.map .body := by
  cases h with
  | @header _ a _ hsplit hne hparser hflag hpushed =>
    have hlength := congrArg List.length hw
    rw [HttpReply.bytes, hsplit, List.length_append, List.length_append] at hlength
    exact absurd (List.eq_nil_iff_length_eq_zero.2 (by omega)) hne
  | body bodies taken hparser hflag hpushed =>
    have hbody : bodies.flatten = reply.body := List.append_cancel_left hw
    rw [hbody] at hflag hpushed
    exact ⟨bodies, by rw [hparser]; rfl, hbody, hflag, hpushed⟩

/-- The header is pushed once, and then all of the body. -/
theorem relay_pushed (haccepts : Accepts hook) {pieces : List (List UInt8)}
    (hpieces : pieces.flatten = reply.bytes) : ∃ bodies : List (List UInt8),
      (ResponseStream.relay hook pieces).pushed =
        .header reply.parsed.dumpHeaders :: bodies.map .body ∧ bodies.flatten = reply.body := by
  have hsplit : reply.bytes = [] ++ pieces.flatten ++ [] := by
    rw [List.nil_append, List.append_nil, hpieces]
  obtain ⟨bodies, hdump, hbody, hflag, hpushed⟩ :=
    (sent_writes haccepts pieces (sent_start reply) hsplit).whole hpieces
  unfold ResponseStream.relay ResponseStream.flush
  rw [ResponseStream.pushHeader_of_accepts haccepts]
  dsimp only
  rw [hpushed, hflag, hdump]
  by_cases hnone : reply.body = []
  · exact ⟨[], by simp [hnone], hnone.symm⟩
  · exact ⟨bodies, by simp [hnone], hbody⟩

end PersonalCloud.Http
