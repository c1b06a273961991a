import Mathlib.Data.List.Basic

/-!
# Reading through a cursor

A decoder reads a buffer through a cursor. When it finds that too little is left it sets a
flag, and reads nothing from then on. Whether it stays within the buffer is up to its checks: a
load that does not has no outcome.

## Main definitions

* `Scan` — decoders over a buffer.
* `Tracks` — a decoder does what a reader of lists does to what is left of the buffer, and
  leaves the buffer on certain inputs only.
-/

namespace PersonalCloud.Lib

structure Cursor where
  base : ℕ
  fail : Bool
  deriving DecidableEq, Repr

/-- Decoders of a buffer; there is no outcome once they leave it. -/
abbrev Scan (α β : Type) := ReaderT (List α) (StateT Cursor Option) β

namespace Scan

variable {α : Type}

/-- The next `n` elements. -/
def load (n : ℕ) : Scan α (List α) := fun buf c =>
  if c.base + n ≤ buf.length then some ((buf.drop c.base).take n, c) else none

/-- A pointer to the next `n` elements, which are not looked at. -/
def slice (n : ℕ) : Scan α (List α) := fun buf c => some ((buf.drop c.base).take n, c)

def advance (n : ℕ) : Scan α Unit := fun _ c => some ((), { c with base := c.base + n })

/-- Less than `n` elements are left, as unsigned numbers: behind the end there is plenty. -/
def lacks (n : ℕ) : Scan α Bool := fun buf c =>
  some (decide (c.base ≤ buf.length ∧ buf.length - c.base < n), c)

/-- Nothing is left, as signed numbers. -/
def atEnd : Scan α Bool := fun buf c => some (decide (buf.length ≤ c.base), c)

def failed : Scan α Bool := fun _ c => some (c.fail, c)

def failIf (b : Bool) : Scan α Unit := fun _ c => some ((), { c with fail := c.fail || b })

/-- Nothing is done once the decoder has failed. -/
def unlessFailed {β : Type} (b : β) (d : Scan α β) : Scan α β := do
  if ← failed then return b else d

section Run

variable {β γ : Type} {d : Scan α β} {buf : List α} {c c' : Cursor}

theorem run_bind {b : β} (h : d buf c = some (b, c')) (f : β → Scan α γ) :
    (d >>= f) buf c = f b buf c' := by
  change (d buf c).bind _ = _
  rw [h]
  rfl

theorem run_bind_none (h : d buf c = none) (f : β → Scan α γ) : (d >>= f) buf c = none := by
  change (d buf c).bind _ = _
  rw [h]
  rfl

theorem unlessFailed_run (b : β) (d : Scan α β) (base : ℕ) :
    unlessFailed b d buf ⟨base, false⟩ = d buf ⟨base, false⟩ :=
  rfl

theorem lacks_of_lt {n : ℕ} (h : c.base ≤ buf.length) (hn : buf.length - c.base < n) :
    lacks n buf c = some (true, c) := by
  rw [lacks, decide_eq_true ⟨h, hn⟩]

theorem lacks_of_le {n : ℕ} (h : c.base + n ≤ buf.length) : lacks n buf c = some (false, c) := by
  rw [lacks, decide_eq_false (by omega)]

theorem load_of_le {n : ℕ} (h : c.base + n ≤ buf.length) :
    load n buf c = some ((buf.drop c.base).take n, c) :=
  if_pos h

theorem load_of_lt {n : ℕ} (h : buf.length < c.base + n) : load n buf c = none :=
  if_neg (by omega)

end Run

end Scan

/-! ## Decoders and readers -/

section Tracks

variable {α β γ : Type}

/-- The decoder has failed within the buffer. -/
def Stuck (buf : List α) (r : Option (β × Cursor)) : Prop :=
  ∃ b base, base ≤ buf.length ∧ r = some (b, ⟨base, true⟩)

/-- The decoder has come to what a reader of lists comes to. -/
def Agrees (buf : List α) (r : Option (β × Cursor)) : Option (β × List α) → Prop
  | none => Stuck buf r
  | some (b, rest) =>
    ∃ base, base ≤ buf.length ∧ r = some (b, ⟨base, false⟩) ∧ buf.drop base = rest

theorem Agrees.exists_eq {buf : List α} {r : Option (β × Cursor)}
    {read : Option (β × List α)} (h : Agrees buf r read) : ∃ b c, r = some (b, c) := by
  cases read with
  | none =>
    obtain ⟨b, base, -, hr⟩ := h
    exact ⟨b, _, hr⟩
  | some read =>
    obtain ⟨base, -, hr, -⟩ := h
    exact ⟨read.1, _, hr⟩

/-- From a cursor within the buffer, the decoder leaves it if what is left is `bad`, and else
comes to what the reader comes to. -/
structure Tracks (d : Scan α β) (u : StateT (List α) Option β) (bad : List α → Prop) : Prop where
  stuck : ∀ buf base, base ≤ buf.length → Stuck buf (d buf ⟨base, true⟩)
  leaves : ∀ buf base, base ≤ buf.length → bad (buf.drop base) → d buf ⟨base, false⟩ = none
  agrees : ∀ buf base, base ≤ buf.length → ¬bad (buf.drop base) →
    Agrees buf (d buf ⟨base, false⟩) (u (buf.drop base))

/-- What the reader leaves is of the given kind. -/
def After (u : StateT (List α) Option β) (bads : β → List α → Prop) (bs : List α) : Prop :=
  ∃ b rest, u bs = some (b, rest) ∧ bads b rest

theorem after_bind {u : StateT (List α) Option β} {g : β → StateT (List α) Option γ}
    {bads : γ → List α → Prop} :
    After (u >>= g) bads = After u fun b => After (g b) bads := by
  refine funext fun bs => propext ?_
  constructor
  · rintro ⟨c, rest, h, hbad⟩
    obtain ⟨⟨b, rest'⟩, hu, hg⟩ := Option.bind_eq_some_iff.1 h
    exact ⟨b, rest', hu, c, rest, hg, hbad⟩
  · rintro ⟨b, rest', hu, c, rest, hg, hbad⟩
    exact ⟨c, rest, Option.bind_eq_some_iff.2 ⟨_, hu, hg⟩, hbad⟩

/-- The decoder never leaves the buffer. -/
abbrev Follows (d : Scan α β) (u : StateT (List α) Option β) : Prop :=
  Tracks d u fun _ => False

namespace Tracks

variable {d : Scan α β} {u : StateT (List α) Option β} {bad bad' : List α → Prop}

theorem congr (h : Tracks d u bad) (hbad : ∀ bs, bad' bs ↔ bad bs) : Tracks d u bad' := by
  rwa [funext fun bs => propext (hbad bs)]

protected theorem pure (b : β) : Follows (pure b : Scan α β) (pure b) where
  stuck _ base hbase := ⟨b, base, hbase, rfl⟩
  leaves _ _ _ h := h.elim
  agrees _ base hbase _ := ⟨base, hbase, rfl, rfl⟩

/-- A decoder that only fails. -/
protected theorem fail (b : β) :
    Follows (Scan.failIf true >>= fun _ => pure b : Scan α β) fun _ => none where
  stuck _ base hbase := ⟨b, base, hbase, rfl⟩
  leaves _ _ _ h := h.elim
  agrees _ base hbase _ := ⟨b, base, hbase, rfl⟩

protected theorem unlessFailed (b : β)
    (hleaves : ∀ buf base, base ≤ buf.length → bad (buf.drop base) → d buf ⟨base, false⟩ = none)
    (hagrees : ∀ buf base, base ≤ buf.length → ¬bad (buf.drop base) →
      Agrees buf (d buf ⟨base, false⟩) (u (buf.drop base))) :
    Tracks (Scan.unlessFailed b d) u bad where
  stuck _ base hbase := ⟨b, base, hbase, rfl⟩
  leaves := hleaves
  agrees := hagrees

/-- The second decoder may leave the buffer on what the first one has left. -/
protected theorem bind {f : β → Scan α γ} {g : β → StateT (List α) Option γ}
    {bads : β → List α → Prop} (hd : Tracks d u bad) (hf : ∀ b, Tracks (f b) (g b) (bads b)) :
    Tracks (d >>= f) (u >>= g) fun bs => bad bs ∨ ¬bad bs ∧ After u bads bs where
  stuck buf base hbase := by
    obtain ⟨b, base', hbase', hd⟩ := hd.stuck buf base hbase
    obtain ⟨c, base'', hbase'', hf⟩ := (hf b).stuck buf base' hbase'
    exact ⟨c, base'', hbase'', (Scan.run_bind hd f).trans hf⟩
  leaves buf base hbase hbad := by
    obtain hfirst | ⟨hfirst, b, rest, hu, hb⟩ := hbad
    · exact Scan.run_bind_none (hd.leaves buf base hbase hfirst) f
    · have hagrees := hd.agrees buf base hbase hfirst
      rw [hu] at hagrees
      obtain ⟨base', hbase', hd, rfl⟩ := hagrees
      exact (Scan.run_bind hd f).trans ((hf b).leaves buf base' hbase' hb)
  agrees buf base hbase hbad := by
    obtain ⟨hfirst, hsecond⟩ := not_or.1 hbad
    have hagrees := hd.agrees buf base hbase hfirst
    cases hu : u (buf.drop base) with
    | none =>
      rw [hu] at hagrees
      obtain ⟨b, base', hbase', hd⟩ := hagrees
      obtain ⟨c, base'', hbase'', hf⟩ := (hf b).stuck buf base' hbase'
      have hnone : (u >>= g) (buf.drop base) = none := congrArg (· >>= _) hu
      rw [hnone]
      exact ⟨c, base'', hbase'', (Scan.run_bind hd f).trans hf⟩
    | some r =>
      obtain ⟨b, rest⟩ := r
      rw [hu] at hagrees
      obtain ⟨base', hbase', hd, rfl⟩ := hagrees
      have hread : (u >>= g) (buf.drop base) = g b (buf.drop base') := congrArg (· >>= _) hu
      rw [Scan.run_bind hd, hread]
      exact (hf b).agrees buf base' hbase' fun hb => hsecond ⟨hfirst, b, _, hu, hb⟩

end Tracks

namespace Follows

variable {d : Scan α β} {u : StateT (List α) Option β}

protected theorem bind {f : β → Scan α γ} {g : β → StateT (List α) Option γ} (hd : Follows d u)
    (hf : ∀ b, Follows (f b) (g b)) : Follows (d >>= f) (u >>= g) :=
  (Tracks.bind hd hf).congr fun bs => by simp [After]

/-- The buffer is left where the second decoder leaves it. -/
theorem bind_tracks {f : β → Scan α γ} {g : β → StateT (List α) Option γ}
    {bads : β → List α → Prop} (hd : Follows d u) (hf : ∀ b, Tracks (f b) (g b) (bads b)) :
    Tracks (d >>= f) (u >>= g) (After u bads) :=
  (Tracks.bind hd hf).congr fun bs => by simp

protected theorem map (hd : Follows d u) (f : β → γ) : Follows (f <$> d) (f <$> u) := by
  rw [← bind_pure_comp, ← bind_pure_comp]
  exact hd.bind fun b => .pure (f b)

theorem mapM_replicate (hd : Follows d u) (n : ℕ) :
    Follows ((List.replicate n d).mapM id) ((List.replicate n u).mapM id) := by
  induction n with
  | zero => exact .pure []
  | succ n ih =>
    rw [List.replicate_succ, List.replicate_succ, List.mapM_cons, List.mapM_cons]
    exact hd.bind fun b => ih.bind fun bs => .pure (b :: bs)

end Follows

end Tracks

end PersonalCloud.Lib
