import PersonalCloud.Http.Relay

/-!
# The header of a well-formed response

The status line, each field and the blank line are one line each for the parser. It is done with
the header at the end of the blank line, and not before.

## Main definitions

* `HttpReply.parsed` — the state behind the header.

## Main results

* `feed_header` — the header is taken, and leaves this state.
* `not_headersDone` — less than the header does not complete it.
-/

namespace PersonalCloud.Http

open PersonalCloud.Lib HttpResponse

variable {r : HttpResponse} {a b l rest : List UInt8}

/-! ## Lines and values -/

theorem rdropWhile_of_last {p : UInt8 → Bool} (h : l.getLast?.any p = false) :
    l.rdropWhile p = l := by
  obtain rfl | ⟨t, c, rfl⟩ := l.eq_nil_or_concat'
  · rfl
  · rw [List.getLast?_concat, Option.any_some] at h
    exact List.rdropWhile_concat_neg _ _ _ (by rw [h]; exact Bool.false_ne_true)

theorem rdropWhile_append_of_pos {p : UInt8 → Bool} (h : ∀ c ∈ b, p c = true) :
    (l ++ b).rdropWhile p = l.rdropWhile p := by
  rw [List.rdropWhile, List.reverse_append, List.dropWhile_append_of_pos fun c hc =>
    h c (List.mem_reverse.1 hc)]
  rfl

theorem stripNewline_append_crlf (h : ∀ c, l.getLast? = some c → c ≠ newline ∧ c ≠ ascii '\r') :
    stripNewline (l ++ crlf) = l := by
  have hcrlf : ∀ c ∈ crlf, decide (c = newline ∨ c = ascii '\r') = true :=
    List.all_eq_true.1 rfl
  have hlast : (l.getLast?.any fun c => c = newline ∨ c = ascii '\r') = false := by
    cases hl : l.getLast? with
    | none => rfl
    | some c => exact decide_eq_false (not_or_intro (h c hl).1 (h c hl).2)
  rw [stripNewline, rdropWhile_append_of_pos hcrlf, rdropWhile_of_last hlast]

theorem stripBlanks_pad (ha : ∀ c ∈ a, isspace c = true) (hb : ∀ c ∈ b, isspace c = true)
    (hbegin : l.head?.any isspace = false) (hend : l.getLast?.any isspace = false) :
    stripBlanks (a ++ l ++ b) = l := by
  rw [stripBlanks, List.append_assoc, List.dropWhile_append_of_pos ha]
  cases l with
  | nil =>
    rw [List.nil_append, List.dropWhile_eq_nil_iff.2 hb]
    rfl
  | cons c t =>
    have hc : isspace c = false := hbegin
    rw [List.cons_append, List.dropWhile_cons_of_neg (by rw [hc]; exact Bool.false_ne_true),
      ← List.cons_append, rdropWhile_append_of_pos hb, rdropWhile_of_last hend]

theorem HeaderField.isspace_blank (f : HeaderField) :
    ∀ c ∈ f.before ++ f.after, isspace c = true := by
  intro c hc
  obtain rfl | rfl := f.blank c hc <;> decide

theorem HeaderField.stripBlanks_eq (f : HeaderField) :
    stripBlanks (f.before ++ f.value ++ f.after) = f.value :=
  stripBlanks_pad (fun c hc => f.isspace_blank c (List.mem_append_left _ hc))
    (fun c hc => f.isspace_blank c (List.mem_append_right _ hc)) f.begins f.ends

/-- A field without the end of its line. -/
def HeaderField.text (f : HeaderField) : List UInt8 :=
  f.name ++ ascii ':' :: (f.before ++ f.value ++ f.after)

theorem HeaderField.addHeader_text (f : HeaderField) (r : HttpResponse) :
    r.addHeader f.text = r.addField f.name f.value := by
  have hsplit : f.text.drop 0 = f.name ++ ascii ':' :: (f.before ++ f.value ++ f.after) := rfl
  have hname : findFirstOf f.text [ascii ':'] 0 = some f.name.length := by
    rw [findFirstOf_eq_some hsplit ?_ List.mem_cons_self, Nat.zero_add]
    intro c hc hmem
    exact (f.name_ok c hc).1 (List.mem_singleton.1 hmem)
  have hsubstr : substr f.text 0 f.name.length = f.name := substr_eq hsplit
  have hvalue : f.text.drop (f.name.length + 1) = f.before ++ f.value ++ f.after := by
    have hbehind := drop_behind hsplit
    rwa [Nat.zero_add] at hbehind
  rw [addHeader, hname]
  dsimp only
  rw [hsubstr, hvalue, f.stripBlanks_eq]

theorem HeaderField.line_eq (f : HeaderField) : f.line = f.text ++ crlf :=
  rfl

/-- The last byte is a colon, a blank or one of the value. -/
theorem HeaderField.isLast_text (f : HeaderField) (c : UInt8) (h : f.text.getLast? = some c) :
    c ≠ newline ∧ c ≠ ascii '\r' := by
  have hblank (hc : c ∈ f.before ++ f.after) : c ≠ newline ∧ c ≠ ascii '\r' := by
    obtain rfl | rfl := f.blank c hc <;> decide
  have htext : f.text = f.name ++ (ascii ':' :: f.before ++ f.value ++ f.after) := by
    simp [HeaderField.text]
  have hne : ascii ':' :: f.before ++ f.value ++ f.after ≠ [] := by simp
  rw [htext, List.getLast?_append_of_ne_nil _ hne, List.getLast?_append, List.getLast?_append,
    Option.or_eq_some_iff, Option.or_eq_some_iff] at h
  obtain h | ⟨-, h | ⟨-, h⟩⟩ := h
  · exact hblank (List.mem_append_right _ (List.mem_of_getLast? h))
  · have hspace := f.ends
    rw [h, Option.any_some] at hspace
    constructor <;> rintro rfl <;> exact absurd hspace (by decide)
  · obtain rfl | h := List.mem_cons.1 (List.mem_of_getLast? h)
    · decide
    · exact hblank (List.mem_append_left _ h)

theorem HeaderField.newline_notMem_text (f : HeaderField) : newline ∉ f.text := by
  have hblank {c : UInt8} (hc : c ∈ f.before ++ f.after) : c ≠ newline := by
    obtain rfl | rfl := f.blank c hc <;> decide
  intro h
  simp only [HeaderField.text, List.mem_append, List.mem_cons] at h
  obtain h | h | (h | h) | h := h
  · exact (f.name_ok _ h).2 rfl
  · exact absurd h (by decide)
  · exact hblank (List.mem_append_left _ h) rfl
  · exact f.value_ok h
  · exact hblank (List.mem_append_right _ h) rfl

theorem HeaderField.text_ne_nil (f : HeaderField) : f.text ≠ [] :=
  List.append_ne_nil_of_right_ne_nil f.name (List.cons_ne_nil _ _)

/-! ## The status line -/

theorem digit_ok : ∀ d < 10,
    isdigit (.ofNat (48 + d)) = true ∧ (UInt8.ofNat (48 + d)).toNat - 48 = d := by
  decide

theorem threeDigits_ok {n : ℕ} (hn : n < 1000) :
    (∀ c ∈ threeDigits n, isdigit c = true) ∧ decimal (threeDigits n) = n := by
  obtain ⟨hhundreds, hhundreds'⟩ := digit_ok (n / 100 % 10) (Nat.mod_lt _ (by decide))
  obtain ⟨htens, htens'⟩ := digit_ok (n / 10 % 10) (Nat.mod_lt _ (by decide))
  obtain ⟨hones, hones'⟩ := digit_ok (n % 10) (Nat.mod_lt _ (by decide))
  constructor
  · intro c hc
    simp only [threeDigits, List.mem_cons, List.not_mem_nil, or_false] at hc
    obtain rfl | rfl | rfl := hc
    · exact hhundreds
    · exact htens
    · exact hones
  · simp only [decimal, threeDigits, List.foldl_cons, List.foldl_nil, hhundreds', htens', hones']
    omega

theorem scanInt_threeDigits {n : ℕ} (hn : n < 1000) (rest : List UInt8) :
    scanInt (ascii ' ' :: (threeDigits n ++ ascii ' ' :: rest)) = some (.ofNat n) := by
  obtain ⟨hdigits, hdecimal⟩ := threeDigits_ok hn
  have hfirst := hdigits _ (List.mem_cons_self : _ ∈ threeDigits n)
  obtain ⟨hspace, hminus, hplus⟩ := not_isspace_of_isdigit _ hfirst
  have hdrop : (ascii ' ' :: (threeDigits n ++ ascii ' ' :: rest)).dropWhile isspace =
      threeDigits n ++ ascii ' ' :: rest := by
    rw [List.dropWhile_cons_of_pos (by decide)]
    exact List.dropWhile_cons_of_neg (by rw [hspace]; decide)
  have htake : (threeDigits n ++ ascii ' ' :: rest).takeWhile isdigit = threeDigits n := by
    rw [List.takeWhile_append_of_pos hdigits, List.takeWhile_cons_of_neg (by decide),
      List.append_nil]
  have hminus' : (threeDigits n ++ ascii ' ' :: rest).head? ≠ some (ascii '-') :=
    fun h => hminus (Option.some.inj h)
  have hplus' : (threeDigits n ++ ascii ' ' :: rest).head? ≠ some (ascii '+') :=
    fun h => hplus (Option.some.inj h)
  have hne : threeDigits n ≠ [] := List.cons_ne_nil _ _
  unfold scanInt
  dsimp only
  rw [hdrop, if_neg (not_or_intro hminus' hplus'), htake, if_neg hne, if_neg hminus', hdecimal,
    min_eq_right (by omega), max_eq_right (by omega), Int32.ofInt_eq_ofNat]

def HttpReply.statusText (reply : HttpReply) : List UInt8 :=
  reply.version ++ ascii ' ' :: (threeDigits reply.statusCode ++ ascii ' ' :: reply.reason)

theorem HttpReply.addResponse_statusText (reply : HttpReply) (r : HttpResponse) :
    r.addResponse reply.statusText = { r with response := .ofNat reply.statusCode } := by
  have hdrop : reply.statusText.dropWhile (fun c => c ≠ ascii ' ') =
      ascii ' ' :: (threeDigits reply.statusCode ++ ascii ' ' :: reply.reason) := by
    rw [statusText, List.dropWhile_append_of_pos fun c hc =>
      decide_eq_true (reply.version_ok c hc).1]
    exact List.dropWhile_cons_of_neg (by decide)
  rw [addResponse, hdrop, scanInt_threeDigits reply.statusCode_lt]
  rfl

theorem not_newline_of_isdigit {c : UInt8} (h : isdigit c = true) : c ≠ newline := by
  rintro rfl
  exact absurd h (by decide)

theorem HttpReply.newline_notMem_statusText (reply : HttpReply) :
    newline ∉ reply.statusText := by
  have hdigits := (threeDigits_ok reply.statusCode_lt).1
  intro h
  simp only [statusText, List.mem_append, List.mem_cons] at h
  obtain h | h | h | h | h := h
  · exact (reply.version_ok _ h).2 rfl
  · exact absurd h (by decide)
  · exact not_newline_of_isdigit (hdigits _ h) rfl
  · exact absurd h (by decide)
  · exact (reply.reason_ok _ h).1 rfl

theorem HttpReply.isLast_statusText (reply : HttpReply) (c : UInt8)
    (h : reply.statusText.getLast? = some c) : c ≠ newline ∧ c ≠ ascii '\r' := by
  have htext : reply.statusText = reply.version ++ ascii ' ' :: threeDigits reply.statusCode ++
      (ascii ' ' :: reply.reason) := by
    simp [statusText]
  rw [htext, List.getLast?_append_of_ne_nil _ (List.cons_ne_nil _ _)] at h
  obtain rfl | h := List.mem_cons.1 (List.mem_of_getLast? h)
  · decide
  · exact reply.reason_ok c h

/-! ## The header -/

/-- From the one state `h` leads to the other, and before its end not to the end of the headers. -/
structure Completes (r : HttpResponse) (h : List UInt8) (t : HttpResponse) : Prop where
  feed_append : ∀ rest,
    feed take r (h ++ rest) = ((feed take t rest).1, h.length + (feed take t rest).2)
  pending : ∀ a b, h = a ++ b → b ≠ [] → (feed take r a).1.headersDone = false

theorem Completes.nil (t : HttpResponse) : Completes t [] t := by
  refine ⟨fun rest => ?_, fun a b h hb => absurd (List.append_eq_nil_iff.1 h.symm).2 hb⟩
  rw [List.nil_append, List.length_nil, Nat.zero_add]

/-- A line, and what completes the header behind it. -/
theorem Completes.line {h : List UInt8} {t : HttpResponse} (hdone : r.headersDone = false)
    (hsofar : r.lineSoFar = []) (hl : newline ∉ l)
    (hlast : ∀ c, l.getLast? = some c → c ≠ newline ∧ c ≠ ascii '\r')
    (hnext : Completes (acceptLine { r with lineSoFar := l }) h t) :
    Completes r (l ++ crlf ++ h) t := by
  have hlines : r.InLines := .inr (by rw [hdone]; decide)
  have hreturn : newline ∉ l ++ [ascii '\r'] := by
    rw [List.mem_append, List.mem_singleton]
    exact not_or_intro hl (by decide)
  have hend : endLine { r with lineSoFar := r.lineSoFar ++ (l ++ [ascii '\r']) ++ [newline] } =
      acceptLine { r with lineSoFar := l } := by
    have hstrip : stripNewline (r.lineSoFar ++ (l ++ [ascii '\r']) ++ [newline]) = l := by
      rw [hsofar, List.nil_append, List.append_assoc]
      exact stripNewline_append_crlf hlast
    rw [endLine, hstrip]
  have hsplit (b : List UInt8) :
      l ++ crlf ++ b = l ++ [ascii '\r'] ++ newline :: b := by
    rw [List.append_assoc, List.append_assoc]
    rfl
  have hline (b : List UInt8) := feed_line hlines hreturn b
  rw [hend] at hline
  refine ⟨fun rest => ?_, fun a b hab hb => ?_⟩
  · rw [List.append_assoc (l ++ crlf), hsplit, hline, hnext.feed_append, List.length_append,
      List.length_append, List.length_append]
    exact Prod.ext rfl (by simp only [List.length_singleton, crlf, asciiBytes]; simp; omega)
  · have hpart {a : List UInt8} (ha : newline ∉ a) : (feed take r a).1.headersDone = false := by
      rw [feed_part hlines ha]
      exact hdone
    rw [hsplit] at hab
    obtain ⟨c, rfl, hc⟩ | ⟨c, hac, rfl⟩ := List.append_eq_append_iff.1 hab
    · cases c with
      | nil =>
        rw [List.append_nil]
        exact hpart hreturn
      | cons d c =>
        obtain ⟨rfl, hrest⟩ := List.cons.inj hc
        rw [hline]
        exact hnext.pending c b hrest hb
    · refine hpart fun ha => hreturn ?_
      rw [hac]
      exact List.mem_append_left _ ha

theorem addField_lineSoFar (r : HttpResponse) (line hname val : List UInt8) :
    addField { r with lineSoFar := line } hname val =
      { r.addField hname val with lineSoFar := line } := by
  unfold addField
  cases r.headers.find? (caseless hname) <;> rfl

theorem HeaderField.acceptLine_text (f : HeaderField) (hresponse : r.responseDone = true)
    (hsofar : r.lineSoFar = []) :
    acceptLine { r with lineSoFar := f.text } = r.addField f.name f.value := by
  obtain ⟨headers, hheaders⟩ := r.exists_addField_eq f.name f.value
  rw [acceptLine, if_neg (not_not_intro hresponse), if_neg f.text_ne_nil, f.addHeader_text,
    addField_lineSoFar, hheaders, ← hsofar]

/-- The parsed fields. -/
def addFields (r : HttpResponse) (fields : List HeaderField) : HttpResponse :=
  fields.foldl (fun r f => r.addField f.name f.value) r

theorem completes_fields (fields : List HeaderField) (hresponse : r.responseDone = true)
    (hdone : r.headersDone = false) (hsofar : r.lineSoFar = []) :
    Completes r (fields.flatMap HeaderField.line ++ crlf) (addFields r fields).endHeaders := by
  induction fields generalizing r with
  | nil =>
    have hblank : acceptLine { r with lineSoFar := [] } = r.endHeaders := by
      rw [acceptLine, if_neg (not_not_intro hresponse), if_pos rfl, ← hsofar]
    have hline := Completes.line hdone hsofar List.not_mem_nil (fun c h => absurd h (by simp))
      (.nil (acceptLine { r with lineSoFar := [] }))
    rwa [hblank] at hline
  | cons f fields ih =>
    obtain ⟨headers, hheaders⟩ := r.exists_addField_eq f.name f.value
    have hnext := ih (r := r.addField f.name f.value) (by rw [hheaders]; exact hresponse)
      (by rw [hheaders]; exact hdone) (by rw [hheaders]; exact hsofar)
    rw [← f.acceptLine_text hresponse hsofar] at hnext
    have hline := Completes.line hdone hsofar f.newline_notMem_text f.isLast_text hnext
    rwa [f.acceptLine_text hresponse hsofar, ← f.line_eq, ← List.append_assoc] at hline

namespace HttpReply

/-- The parser behind the status line. -/
def afterStatus (reply : HttpReply) : HttpResponse :=
  { HttpResponse.start false with response := .ofNat reply.statusCode, responseDone := true }

/-- The parser behind the header. -/
def parsed (reply : HttpReply) : HttpResponse :=
  (addFields reply.afterStatus reply.fields).endHeaders

theorem acceptLine_statusText (reply : HttpReply) (hresponse : r.responseDone = false)
    (hsofar : r.lineSoFar = []) : acceptLine { r with lineSoFar := reply.statusText } =
      { r with response := .ofNat reply.statusCode, responseDone := true } := by
  have hfirst : ¬r.responseDone := by
    rw [hresponse]
    decide
  rw [acceptLine, if_pos hfirst, reply.addResponse_statusText, ← hsofar]

theorem completes (reply : HttpReply) :
    Completes (HttpResponse.start false) reply.header reply.parsed := by
  have hnext : Completes reply.afterStatus (reply.fields.flatMap HeaderField.line ++ crlf)
      reply.parsed := completes_fields reply.fields rfl rfl rfl
  rw [afterStatus, ← reply.acceptLine_statusText rfl rfl] at hnext
  exact .line rfl rfl reply.newline_notMem_statusText reply.isLast_statusText hnext

end HttpReply

end PersonalCloud.Http
