import Mathlib.Data.List.Basic

/-!
# Statements that are carried out one after the other

A batch is a list of statements to a store. The first one that fails ends it, and nothing takes
the ones before it back.

## Main definitions

* `run` — carries out a batch.
* `Idle` — no statement before the first one that fails has an effect.

## Main results

* `run_snd_eq_iff` — if the statements commute and none has an effect twice, then a batch that
  leaves the store as it was is idle.
* `run_fst` — if no statement decides whether a later one fails, then the batch fails as the first
  one that would on its own.
-/

namespace PersonalCloud.Lib.Batch

variable {σ ω ε : Type*} (failure : ω → σ → Option ε) (apply : ω → σ → σ)

/-- How the batch ends, and what it has made of the store. -/
def run : List ω → σ → Option ε × σ
  | [], s => (none, s)
  | w :: ws, s =>
    match failure w s with
    | some e => (some e, s)
    | none => run ws (apply w s)

def Idle : List ω → σ → Prop
  | [], _ => True
  | w :: ws, s => failure w s = none → apply w s = s ∧ Idle ws s

variable {failure apply} {w : ω} {ws : List ω} {s : σ}

theorem run_cons_of_none (h : failure w s = none) :
    run failure apply (w :: ws) s = run failure apply ws (apply w s) := by
  rw [run, h]

theorem run_cons_of_some {e : ε} (h : failure w s = some e) :
    run failure apply (w :: ws) s = (some e, s) := by
  rw [run, h]

/-- What every statement preserves holds at the end. -/
theorem run_snd_induction {P : σ → Prop} (hstep : ∀ w ∈ ws, ∀ s, P s → P (apply w s)) (hs : P s) :
    P (run failure apply ws s).2 := by
  induction ws generalizing s with
  | nil => exact hs
  | cons w ws ih =>
    cases hw : failure w s with
    | some e =>
      rw [run_cons_of_some hw]
      exact hs
    | none =>
      rw [run_cons_of_none hw]
      exact ih (fun w hw => hstep w (List.mem_cons_of_mem _ hw)) (hstep w List.mem_cons_self s hs)

theorem run_snd_of_idle (h : Idle failure apply ws s) : (run failure apply ws s).2 = s := by
  induction ws with
  | nil => rfl
  | cons w ws ih =>
    cases hw : failure w s with
    | some e => rw [run_cons_of_some hw]
    | none =>
      obtain ⟨hs, hws⟩ := h hw
      rw [run_cons_of_none hw, hs]
      exact ih hws

theorem run_snd_eq_iff (hidem : ∀ w ∈ ws, ∀ s, apply w (apply w s) = apply w s)
    (hcomm : ∀ w ∈ ws, ∀ w' ∈ ws, ∀ s, apply w (apply w' s) = apply w' (apply w s)) :
    (run failure apply ws s).2 = s ↔ Idle failure apply ws s := by
  refine ⟨fun h => ?_, run_snd_of_idle⟩
  induction ws with
  | nil => trivial
  | cons w ws ih =>
    intro hw
    rw [run_cons_of_none hw] at h
    -- the others leave what the first one has done
    have hfirst : apply w (run failure apply ws (apply w s)).2 =
        (run failure apply ws (apply w s)).2 := by
      refine run_snd_induction (P := fun s => apply w s = s) (fun w' hw' s hs => ?_)
        (hidem w List.mem_cons_self s)
      rw [hcomm w List.mem_cons_self w' (List.mem_cons_of_mem _ hw'), hs]
    rw [h] at hfirst
    rw [hfirst] at h
    refine ⟨hfirst, ih (fun w hw => hidem w (List.mem_cons_of_mem _ hw)) ?_ h⟩
    exact fun w hw w' hw' => hcomm w (List.mem_cons_of_mem _ hw) w' (List.mem_cons_of_mem _ hw')

theorem run_fst (hsteady : ws.Pairwise fun w w' => ∀ s, failure w' (apply w s) = failure w' s) :
    (run failure apply ws s).1 = ws.findSome? fun w => failure w s := by
  induction ws generalizing s with
  | nil => rfl
  | cons w ws ih =>
    obtain ⟨hfirst, hrest⟩ := List.pairwise_cons.1 hsteady
    rw [List.findSome?_cons]
    cases hw : failure w s with
    | some e => rw [run_cons_of_some hw]
    | none =>
      have hmap : ws.map (fun w' => failure w' (apply w s)) = ws.map fun w' => failure w' s :=
        List.map_congr_left fun w' hw' => hfirst w' hw' s
      rw [run_cons_of_none hw, ih hrest]
      simpa [List.findSome?_map, Function.comp_def] using congrArg (List.findSome? id) hmap

theorem run_snd_of_none (h : (run failure apply ws s).1 = none) :
    (run failure apply ws s).2 = ws.foldl (fun s w => apply w s) s := by
  induction ws generalizing s with
  | nil => rfl
  | cons w ws ih =>
    cases hw : failure w s with
    | some e =>
      rw [run_cons_of_some hw] at h
      cases h
    | none =>
      rw [run_cons_of_none hw] at h ⊢
      exact ih h

/-- A batch goes on with what another one has made of the store, unless that has failed. -/
theorem run_append (vs ws : List ω) (s : σ) :
    run failure apply (vs ++ ws) s =
      match run failure apply vs s with
      | (some e, t) => (some e, t)
      | (none, t) => run failure apply ws t := by
  induction vs generalizing s with
  | nil => rfl
  | cons v vs ih =>
    rw [List.cons_append]
    cases hv : failure v s with
    | some e => rw [run_cons_of_some hv, run_cons_of_some hv]
    | none => rw [run_cons_of_none hv, run_cons_of_none hv, ih]

end PersonalCloud.Lib.Batch
