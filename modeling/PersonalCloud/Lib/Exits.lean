import PersonalCloud.Lib.Cursor

/-!
# Decoders that return early

A decoder that changes a state as it goes, and may return before it has read all. What has been
done to the state by then stays done.

## Main definitions

* `Exiting` — such decoders.
* `Within` — a decoder does not leave the buffer, with what holds at its end and of what it
  returns early.
* `Goes` — a decoder comes from one place in the buffer to another, with what holds there and of
  what it returns early.
* `Keeps` — a decoder does not change a part of the state.
* `Ends` — what holds at the end of a decoder and of what it returns early, if it does not leave the
  buffer.
-/

namespace PersonalCloud.Lib

abbrev Exiting (α σ ε β : Type) := ExceptT ε (StateT σ (Scan α)) β

variable {α σ ε β γ : Type}

namespace Exiting

variable {buf : List α} {d : Exiting α σ ε β} {s s' : σ} {c c' : Cursor}

theorem run_bind {b : β} (h : d s buf c = some ((.ok b, s'), c')) (f : β → Exiting α σ ε γ) :
    (d >>= f) s buf c = f b s' buf c' := by
  change (d s buf c).bind _ = _
  rw [h]
  rfl

theorem run_bind_error {e : ε} (h : d s buf c = some ((.error e, s'), c'))
    (f : β → Exiting α σ ε γ) : (d >>= f) s buf c = some ((.error e, s'), c') := by
  change (d s buf c).bind _ = _
  rw [h]
  rfl

/-- What is done to the state does not depend on how the decoder ends. -/
theorem run_bind_pure {r : Except ε β} (h : d s buf c = some ((r, s'), c')) (f : β → γ) :
    ∃ r', (d >>= fun b => pure (f b)) s buf c = some ((r', s'), c') := by
  cases r with
  | ok b => exact ⟨.ok (f b), run_bind h _⟩
  | error e => exact ⟨.error e, run_bind_error h _⟩

theorem run_lift {d : Scan α β} {b : β} (h : d buf c = some (b, c')) :
    (liftM d : Exiting α σ ε β) s buf c = some ((.ok b, s), c') := by
  change ((d buf c).bind _).bind _ = _
  rw [h]
  rfl

theorem run_pure (b : β) : (pure b : Exiting α σ ε β) s buf c = some ((.ok b, s), c) :=
  rfl

theorem run_get : (get : Exiting α σ ε σ) s buf c = some ((.ok s, s), c) :=
  rfl

theorem bind_eq_some {f : β → Exiting α σ ε γ} {r : Except ε γ}
    (h : (d >>= f) s buf c = some ((r, s'), c')) :
    ∃ r' u here, d s buf c = some ((r', u), here) ∧ (match r' with
      | .ok b => f b u buf here
      | .error e => some ((.error e, u), here)) = some ((r, s'), c') := by
  obtain ⟨⟨⟨r', u⟩, here⟩, hrun, hnext⟩ := Option.bind_eq_some_iff.1 h
  refine ⟨r', u, here, hrun, ?_⟩
  cases r' with
  | ok b => exact hnext
  | error e => exact hnext

theorem lift_eq_some {d : Scan α β} {r : Except ε β}
    (h : (liftM d : Exiting α σ ε β) s buf c = some ((r, s'), c')) :
    ∃ b, d buf c = some (b, c') ∧ r = .ok b ∧ s' = s := by
  cases hd : d buf c with
  | none =>
    change ((d buf c).bind _).bind _ = _ at h
    rw [hd] at h
    cases h
  | some run =>
    obtain ⟨b, here⟩ := run
    rw [run_lift hd] at h
    cases h
    exact ⟨b, rfl, rfl, rfl⟩

end Exiting

/-- From states in `I`, with `k` elements left, the decoder does not leave the buffer. At its end
there are `l` elements left, in a state in `I`. -/
def Within (I : σ → Prop) (buf : List α) (k l : ℕ) (d : Exiting α σ ε β) (Q : β → Prop)
    (E : ε → Prop) : Prop :=
  ∀ s c, I s → c.base + k ≤ buf.length →
    (∃ b s' c', d s buf c = some ((.ok b, s'), c') ∧ I s' ∧ c'.base + l ≤ buf.length ∧ Q b) ∨
    ∃ e s' c', d s buf c = some ((.error e, s'), c') ∧ E e

namespace Within

variable {I : σ → Prop} {buf : List α} {k l m : ℕ} {d : Exiting α σ ε β} {Q : β → Prop}
  {R : γ → Prop} {E : ε → Prop}

protected theorem pure {b : β} (hl : l ≤ k) (hb : Q b) :
    Within I buf k l (pure b : Exiting α σ ε β) Q E :=
  fun s c hs hc => .inl ⟨b, s, c, rfl, hs, by omega, hb⟩

protected theorem throw {e : ε} (he : E e) :
    Within I buf k l (throw e : Exiting α σ ε β) Q E :=
  fun s c _ _ => .inr ⟨e, s, c, rfl, he⟩

protected theorem modify {f : σ → σ} {Q : Unit → Prop} (hf : ∀ s, I s → I (f s)) (hl : l ≤ k)
    (hQ : Q ()) : Within I buf k l (modify f : Exiting α σ ε Unit) Q E :=
  fun s c hs hc => .inl ⟨(), f s, c, rfl, hf s hs, by omega, hQ⟩

protected theorem get {Q : σ → Prop} (hl : l ≤ k) (hQ : ∀ s, I s → Q s) :
    Within I buf k l (get : Exiting α σ ε σ) Q E :=
  fun s c hs hc => .inl ⟨s, s, c, rfl, hs, by omega, hQ s hs⟩

protected theorem lift {d : Scan α β} (h : ∀ c : Cursor, c.base + k ≤ buf.length →
    ∃ b c', d buf c = some (b, c') ∧ c'.base + l ≤ buf.length ∧ Q b) :
    Within I buf k l (liftM d : Exiting α σ ε β) Q E := by
  intro s c hs hc
  obtain ⟨b, c', hd, hl, hQ⟩ := h c hc
  exact .inl ⟨b, s, c', Exiting.run_lift hd, hs, hl, hQ⟩

protected theorem bind {f : β → Exiting α σ ε γ} (hd : Within I buf k m d Q E)
    (hf : ∀ b, Q b → Within I buf m l (f b) R E) : Within I buf k l (d >>= f) R E := by
  intro s c hs hc
  obtain ⟨b, s', c', hrun, hs', hc', hb⟩ | ⟨e, s', c', hrun, he⟩ := hd s c hs hc
  · rw [Exiting.run_bind hrun f]
    exact hf b hb s' c' hs' hc'
  · exact .inr ⟨e, s', c', Exiting.run_bind_error hrun f, he⟩

theorem mono {Q' : β → Prop} {E' : ε → Prop} {k' l' : ℕ} (hd : Within I buf k l d Q E)
    (hk : k ≤ k') (hl : l' ≤ l) (hQ : ∀ b, Q b → Q' b) (hE : ∀ e, E e → E' e) :
    Within I buf k' l' d Q' E' := by
  intro s c hs hc
  obtain ⟨b, s', c', hrun, hs', hc', hb⟩ | ⟨e, s', c', hrun, he⟩ := hd s c hs (by omega)
  · exact .inl ⟨b, s', c', hrun, hs', by omega, hQ b hb⟩
  · exact .inr ⟨e, s', c', hrun, hE e he⟩

theorem ite {p : Prop} [Decidable p] {d' : Exiting α σ ε β} (ht : p → Within I buf k l d Q E)
    (hf : ¬p → Within I buf k l d' Q E) : Within I buf k l (if p then d else d') Q E := by
  split_ifs with hp
  · exact ht hp
  · exact hf hp

end Within

/-- From one place, without a failure, the decoder comes to another. -/
def Goes (buf : List α) (base base' : ℕ) (d : Exiting α σ ε β) (Q : β → Prop) (E : ε → Prop) :
    Prop :=
  ∀ s, (∃ b s', d s buf ⟨base, false⟩ = some ((.ok b, s'), ⟨base', false⟩) ∧ Q b) ∨
    ∃ e s' c', d s buf ⟨base, false⟩ = some ((.error e, s'), c') ∧ E e

namespace Goes

variable {buf : List α} {base mid base' : ℕ} {d : Exiting α σ ε β} {Q : β → Prop} {R : γ → Prop}
  {E : ε → Prop}

protected theorem pure {b : β} (hb : Q b) : Goes buf base base (pure b : Exiting α σ ε β) Q E :=
  fun s => .inl ⟨b, s, rfl, hb⟩

protected theorem throw {e : ε} (he : E e) :
    Goes buf base base' (throw e : Exiting α σ ε β) Q E :=
  fun s => .inr ⟨e, s, _, rfl, he⟩

protected theorem modify (f : σ → σ) :
    Goes buf base base (modify f : Exiting α σ ε Unit) (fun _ => True) E :=
  fun s => .inl ⟨(), f s, rfl, trivial⟩

protected theorem lift {d : Scan α β} {b : β}
    (h : d buf ⟨base, false⟩ = some (b, ⟨base', false⟩)) (hb : Q b) :
    Goes buf base base' (liftM d : Exiting α σ ε β) Q E :=
  fun s => .inl ⟨b, s, Exiting.run_lift h, hb⟩

protected theorem bind {f : β → Exiting α σ ε γ} (hd : Goes buf base mid d Q E)
    (hf : ∀ b, Q b → Goes buf mid base' (f b) R E) : Goes buf base base' (d >>= f) R E := by
  intro s
  obtain ⟨b, s', hrun, hb⟩ | ⟨e, s', c', hrun, he⟩ := hd s
  · rw [Exiting.run_bind hrun f]
    exact hf b hb s'
  · exact .inr ⟨e, s', c', Exiting.run_bind_error hrun f, he⟩

theorem ite {p : Prop} [Decidable p] {d' : Exiting α σ ε β} (ht : p → Goes buf base base' d Q E)
    (hf : ¬p → Goes buf base base' d' Q E) : Goes buf base base' (if p then d else d') Q E := by
  split_ifs with hp
  · exact ht hp
  · exact hf hp

theorem mono {Q' : β → Prop} {E' : ε → Prop} (hd : Goes buf base mid d Q E) (hbase : mid = base')
    (hQ : ∀ b, Q b → Q' b) (hE : ∀ e, E e → E' e) : Goes buf base base' d Q' E' := by
  subst hbase
  intro s
  obtain ⟨b, s', hrun, hb⟩ | ⟨e, s', c', hrun, he⟩ := hd s
  · exact .inl ⟨b, s', hrun, hQ b hb⟩
  · exact .inr ⟨e, s', c', hrun, hE e he⟩

end Goes

/-- The decoder does not change what `f` reads off the state. -/
def Keeps {τ : Type} (f : σ → τ) (d : Exiting α σ ε β) : Prop :=
  ∀ buf s c r s' c', d s buf c = some ((r, s'), c') → f s' = f s

namespace Keeps

variable {τ : Type} {f : σ → τ} {d : Exiting α σ ε β}

protected theorem pure (b : β) : Keeps f (pure b : Exiting α σ ε β) := by
  intro buf s c r s' c' h
  cases h
  rfl

protected theorem throw (e : ε) : Keeps f (throw e : Exiting α σ ε β) := by
  intro buf s c r s' c' h
  cases h
  rfl

protected theorem get : Keeps f (get : Exiting α σ ε σ) := by
  intro buf s c r s' c' h
  cases h
  rfl

protected theorem modify {g : σ → σ} (h : ∀ s, f (g s) = f s) :
    Keeps f (modify g : Exiting α σ ε Unit) := by
  intro buf s c r s' c' hrun
  cases hrun
  exact h s

protected theorem lift (d : Scan α β) : Keeps f (liftM d : Exiting α σ ε β) := by
  intro buf s c r s' c' h
  obtain ⟨b, -, rfl, rfl⟩ := Exiting.lift_eq_some h
  rfl

protected theorem bind {g : β → Exiting α σ ε γ} (hd : Keeps f d) (hg : ∀ b, Keeps f (g b)) :
    Keeps f (d >>= g) := by
  intro buf s c r s' c' h
  obtain ⟨r', u, here, hrun, hnext⟩ := Exiting.bind_eq_some h
  have hu : f u = f s := hd buf s c r' u here hrun
  cases r' with
  | ok b => exact (hg b buf u here r s' c' hnext).trans hu
  | error e =>
    cases hnext
    exact hu

theorem ite {p : Prop} [Decidable p] {d' : Exiting α σ ε β} (ht : Keeps f d) (hf : Keeps f d') :
    Keeps f (if p then d else d') := by
  split_ifs
  · exact ht
  · exact hf

end Keeps

/-- From states in `I` the decoder comes to its end only in states in `J`, and returns early only
what is in `E`. -/
def Ends (I : σ → Prop) (d : Exiting α σ ε β) (J : σ → Prop) (E : ε → Prop) : Prop :=
  ∀ buf s c r s' c', I s → d s buf c = some ((r, s'), c') →
    (∀ b, r = .ok b → J s') ∧ ∀ e, r = .error e → E e

namespace Ends

variable {I J K : σ → Prop} {d : Exiting α σ ε β} {E : ε → Prop}

protected theorem pure (b : β) : Ends I (pure b : Exiting α σ ε β) I E := by
  intro buf s c r s' c' hs h
  cases h
  exact ⟨fun _ _ => hs, by rintro e ⟨⟩⟩

protected theorem throw {e : ε} (he : E e) : Ends I (throw e : Exiting α σ ε β) J E := by
  intro buf s c r s' c' hs h
  cases h
  refine ⟨by rintro b ⟨⟩, ?_⟩
  rintro e' ⟨⟩
  exact he

protected theorem modify {f : σ → σ} (hf : ∀ s, I s → J (f s)) :
    Ends I (modify f : Exiting α σ ε Unit) J E := by
  intro buf s c r s' c' hs h
  cases h
  exact ⟨fun _ _ => hf s hs, by rintro e ⟨⟩⟩

protected theorem lift (d : Scan α β) : Ends I (liftM d : Exiting α σ ε β) I E := by
  intro buf s c r s' c' hs h
  obtain ⟨b, -, rfl, rfl⟩ := Exiting.lift_eq_some h
  exact ⟨fun _ _ => hs, by rintro e ⟨⟩⟩

protected theorem bind {f : β → Exiting α σ ε γ} (hd : Ends I d K E)
    (hf : ∀ b, Ends K (f b) J E) : Ends I (d >>= f) J E := by
  intro buf s c r s' c' hs h
  obtain ⟨r', u, here, hrun, hnext⟩ := Exiting.bind_eq_some h
  obtain ⟨hok, herror⟩ := hd buf s c r' u here hs hrun
  cases r' with
  | ok b => exact hf b buf u here r s' c' (hok b rfl) hnext
  | error e =>
    cases hnext
    refine ⟨by rintro b ⟨⟩, ?_⟩
    rintro e' ⟨⟩
    exact herror e rfl

theorem ite {p : Prop} [Decidable p] {d' : Exiting α σ ε β} (ht : Ends I d J E)
    (hf : Ends I d' J E) : Ends I (if p then d else d') J E := by
  split_ifs
  · exact ht
  · exact hf

end Ends

end PersonalCloud.Lib
