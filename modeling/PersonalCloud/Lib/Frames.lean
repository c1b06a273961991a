import Mathlib.Data.List.Basic

/-!
# Frames in a stream

A stream carries frames one behind the other. It may break off anywhere, so behind the whole
frames there may be the beginning of another. A reader that takes a whole frame off the front
and fails on an incomplete one gets exactly the whole frames, in their order.

## Main results

* `Reads.readMany_eq` — what is read from a stream.
-/

namespace PersonalCloud.Lib

variable {α σ : Type*}

/-- The frames and, behind them, nothing or the beginning of the next frame. -/
def IsStream (frames : List (List α)) (next : Option (List α)) (wire : List α) : Prop :=
  ∃ tail, wire = frames.flatten ++ tail ∧
    (tail = [] ∨ ∃ p ∈ next, tail <+: p ∧ tail.length < p.length)

section IsStream

variable {frames : List (List α)} {next : Option (List α)} {p : List α}

theorem isStream_flatten : IsStream frames next frames.flatten :=
  ⟨[], by simp, .inl rfl⟩

theorem isStream_take {n : Nat} (h : n < p.length) :
    IsStream frames (some p) (frames.flatten ++ p.take n) := by
  refine ⟨p.take n, rfl, .inr ⟨p, rfl, List.take_prefix n p, ?_⟩⟩
  rw [List.length_take]
  omega

theorem IsStream.length_le {wire : List α} (h : IsStream frames next wire) :
    frames.flatten.length ≤ wire.length := by
  obtain ⟨tail, rfl, -⟩ := h
  simp

end IsStream

/-- Read at most so many frames, up to the first that cannot be read. -/
def readMany (read : σ → Option (List α × σ)) : Nat → σ → List (List α)
  | 0, _ => []
  | n + 1, s =>
    match read s with
    | none => []
    | some (p, s) => p :: readMany read n s

/-- What a reader of frames does with a source that still carries the given stream. -/
structure Reads (carries : σ → List α → Prop) (frame : List α → Prop)
    (read : σ → Option (List α × σ)) : Prop where
  whole : ∀ {s p rest}, frame p → carries s (p ++ rest) →
    ∃ s', read s = some (p, s') ∧ carries s' rest
  incomplete : ∀ {s p tail}, frame p → tail <+: p → tail.length < p.length → carries s tail →
    read s = none
  ended : ∀ {s}, carries s [] → read s = none

/-- From a stream the whole frames are read, and nothing else. -/
theorem Reads.readMany_eq {carries : σ → List α → Prop} {frame : List α → Prop}
    {read : σ → Option (List α × σ)} (h : Reads carries frame read) {frames : List (List α)}
    {next : Option (List α)} {wire : List α} {s : σ} (hframes : ∀ p ∈ frames, frame p)
    (hnext : ∀ p ∈ next, frame p) (hwire : IsStream frames next wire) (hs : carries s wire)
    (n : Nat) : readMany read n s = frames.take n := by
  obtain ⟨tail, rfl, htail⟩ := hwire
  induction frames generalizing s n with
  | nil =>
    have hnone : read s = none := by
      obtain rfl | ⟨p, hp, hprefix, hlt⟩ := htail
      · exact h.ended hs
      · exact h.incomplete (hnext p hp) hprefix hlt hs
    cases n with
    | zero => rfl
    | succ n => simp [readMany, hnone]
  | cons p frames ih =>
    cases n with
    | zero => rfl
    | succ n =>
      rw [List.flatten_cons, List.append_assoc] at hs
      obtain ⟨s', hread, hs'⟩ := h.whole (hframes p (.head _)) hs
      have hrest := ih (fun q hq => hframes q (.tail _ hq)) n hs'
      simp [readMany, hread, hrest]

end PersonalCloud.Lib
