import Mathlib.Data.List.Basic
import Mathlib.Algebra.BigOperators.Group.List.Basic
import Mathlib.Tactic.Ring

/-!
# Writing into a buffer of fixed size, and reading from the front

A `Buffer` is filled piece by piece. A piece that does not fit is left out, and that this
happened is remembered; what comes behind it may still fit. A reader takes what it needs off the
front of a list, and `Takes` says what it makes of a given front.

## Main results

* `Buffer.bytes_appendAll`, `Buffer.failed_appendAll` — pieces that fit are all there, and else
  the failure is remembered.
* `Buffer.length_appendAll` — how much is there in either case.
* `Takes.bind` — fronts are read one after the other.
* `Yields.bind` — what a reader can yield at all follows from what its parts can yield.
-/

namespace PersonalCloud.Lib

/-! ## Writing -/

/-- What is written of pieces of the given sizes when each is written if there is room. -/
def fitted : Nat → List Nat → Nat
  | _, [] => 0
  | room, n :: ns => if n ≤ room then n + fitted (room - n) ns else fitted room ns

theorem fitted_eq_sum {room : Nat} {ns : List Nat} (h : ns.sum ≤ room) :
    fitted room ns = ns.sum := by
  induction ns generalizing room with
  | nil => rfl
  | cons n ns ih =>
    rw [List.sum_cons] at h ⊢
    rw [fitted, if_pos (by omega), ih (by omega)]

theorem fitted_le (room : Nat) (ns : List Nat) : fitted room ns ≤ room := by
  induction ns generalizing room with
  | nil => exact Nat.zero_le _
  | cons n ns ih =>
    rw [fitted]
    split
    · have := ih (room - n)
      omega
    · exact ih room

structure Buffer (α : Type*) (limit : Nat) where
  bytes : List α
  failed : Bool
  length_le : bytes.length ≤ limit

namespace Buffer

variable {α : Type*} {limit : Nat}

@[irreducible] def append (b : Buffer α limit) (xs : List α) : Buffer α limit :=
  if h : xs.length ≤ limit - b.bytes.length then
    { bytes := b.bytes ++ xs
      failed := b.failed
      length_le := by
        have := b.length_le
        rw [List.length_append]
        omega }
  else { b with failed := true }

def appendAll (b : Buffer α limit) (pieces : List (List α)) : Buffer α limit :=
  pieces.foldl append b

/-- Forget what failed. -/
def withFailed (b : Buffer α limit) (failed : Bool) : Buffer α limit :=
  { b with failed := failed }

variable {b : Buffer α limit} {pieces : List (List α)}

theorem appendAll_append (ps qs : List (List α)) :
    b.appendAll (ps ++ qs) = (b.appendAll ps).appendAll qs :=
  List.foldl_append

theorem bytes_append (xs : List α) : (b.append xs).bytes =
    if xs.length ≤ limit - b.bytes.length then b.bytes ++ xs else b.bytes := by
  unfold append
  split_ifs <;> rfl

theorem failed_append (xs : List α) : (b.append xs).failed = true ↔
    b.failed = true ∨ limit - b.bytes.length < xs.length := by
  unfold append
  split_ifs with h
  · simp [Nat.not_lt.2 h]
  · simp [Nat.lt_of_not_le h]

theorem bytes_appendAll (h : b.bytes.length + (pieces.map List.length).sum ≤ limit) :
    (b.appendAll pieces).bytes = b.bytes ++ pieces.flatten := by
  induction pieces generalizing b with
  | nil => simp [appendAll]
  | cons xs pieces ih =>
    rw [List.map_cons, List.sum_cons] at h
    have hbytes : (b.append xs).bytes = b.bytes ++ xs := by
      rw [bytes_append, if_pos (by omega)]
    have hrest := ih (b := b.append xs) (by rw [hbytes, List.length_append]; omega)
    rw [appendAll, List.foldl_cons]
    refine hrest.trans ?_
    rw [hbytes, List.flatten_cons, List.append_assoc]

theorem failed_appendAll : (b.appendAll pieces).failed = true ↔
    b.failed = true ∨ limit < b.bytes.length + (pieces.map List.length).sum := by
  induction pieces generalizing b with
  | nil =>
    have hle : ¬limit < b.bytes.length := Nat.not_lt.2 b.length_le
    simp [appendAll, hle]
  | cons xs pieces ih =>
    have hle := b.length_le
    have hrest := ih (b := b.append xs)
    rw [appendAll, List.foldl_cons]
    refine hrest.trans ?_
    rw [failed_append, bytes_append, List.map_cons, List.sum_cons, or_assoc]
    refine or_congr_right ?_
    split_ifs with h
    · rw [List.length_append]
      omega
    · omega

theorem length_appendAll : (b.appendAll pieces).bytes.length =
    b.bytes.length + fitted (limit - b.bytes.length) (pieces.map List.length) := by
  induction pieces generalizing b with
  | nil => rfl
  | cons xs pieces ih =>
    have hrest := ih (b := b.append xs)
    rw [appendAll, List.foldl_cons]
    refine hrest.trans ?_
    rw [bytes_append, List.map_cons, fitted]
    split_ifs with h
    · rw [List.length_append, Nat.add_assoc, Nat.sub_add_eq]
    · rfl

/-- What is written before stays. -/
theorem bytes_isPrefix_appendAll (b : Buffer α limit) (pieces : List (List α)) :
    b.bytes <+: (b.appendAll pieces).bytes := by
  induction pieces generalizing b with
  | nil => exact List.prefix_rfl
  | cons xs pieces ih =>
    refine .trans ?_ (ih (b.append xs))
    rw [bytes_append]
    split_ifs
    · exact List.prefix_append ..
    · exact List.prefix_rfl

end Buffer

/-! ## Reading -/

/-- The reader takes exactly these bytes off the front, whatever is behind them. -/
def Takes {α β : Type} (m : StateT (List α) Option β) (bs : List α) (b : β) : Prop :=
  ∀ rest, m (bs ++ rest) = some (b, rest)

namespace Takes

variable {α β γ : Type} {m : StateT (List α) Option β} {bs : List α} {b : β}

protected theorem pure (b : β) : Takes (pure b : StateT (List α) Option β) [] b :=
  fun _ => rfl

protected theorem bind {f : β → StateT (List α) Option γ} {cs : List α} {c : γ}
    (hm : Takes m bs b) (hf : Takes (f b) cs c) : Takes (m >>= f) (bs ++ cs) c := by
  intro rest
  rw [List.append_assoc]
  exact Option.bind_eq_some_iff.2 ⟨_, hm (cs ++ rest), hf rest⟩

theorem of_bind {f : β → StateT (List α) Option γ} {rest back : List α} {c : γ}
    (hm : Takes m bs b) (h : (m >>= f) (bs ++ rest) = some (c, back)) :
    f b rest = some (c, back) := by
  obtain ⟨⟨b', rest'⟩, hb, hf⟩ := Option.bind_eq_some_iff.1 h
  obtain ⟨rfl, rfl⟩ := Prod.mk.inj (Option.some.inj ((hm rest).symm.trans hb))
  exact hf

protected theorem map (hm : Takes m bs b) (f : β → γ) : Takes (f <$> m) bs (f b) := by
  intro rest
  change StateT.map f m (bs ++ rest) = _
  simp [StateT.map, hm rest]

/-- The first piece is taken first. -/
theorem cons {f : β → StateT (List α) Option γ} {pieces : List (List α)} {c : γ}
    (hm : Takes m bs b) (hf : Takes (f b) pieces.flatten c) :
    Takes (m >>= f) (bs :: pieces).flatten c :=
  hm.bind hf

/-- The last reader may take nothing. -/
theorem bind_pure {f : β → StateT (List α) Option γ} {c : γ} (hm : Takes m bs b)
    (hf : f b = pure c) : Takes (m >>= f) bs c := by
  have hlast : Takes (f b) [] c := hf ▸ .pure c
  simpa using hm.bind hlast

end Takes

/-- Whatever the reader makes of its input has the property. -/
def Yields {α β : Type} (m : StateT (List α) Option β) (P : β → Prop) : Prop :=
  ∀ bs b rest, m bs = some (b, rest) → P b

namespace Yields

variable {α β γ : Type} {m : StateT (List α) Option β} {P : β → Prop} {Q : γ → Prop} {b : β}

theorem any (m : StateT (List α) Option β) : Yields m fun _ => True :=
  fun _ _ _ _ => trivial

protected theorem pure (h : P b) : Yields (pure b : StateT (List α) Option β) P := by
  intro bs c rest hc
  obtain ⟨rfl, -⟩ := Prod.mk.inj (Option.some.inj hc)
  exact h

protected theorem bind {f : β → StateT (List α) Option γ} (hm : Yields m P)
    (hf : ∀ b, P b → Yields (f b) Q) : Yields (m >>= f) Q := by
  intro bs c rest hc
  obtain ⟨⟨b, back⟩, hb, hc⟩ := Option.bind_eq_some_iff.1 hc
  exact hf b (hm bs b back hb) back c rest hc

protected theorem map {f : β → γ} (hm : Yields m fun b => Q (f b)) : Yields (f <$> m) Q := by
  intro bs c rest hc
  obtain ⟨⟨b, back⟩, hb, hc⟩ := Option.bind_eq_some_iff.1 hc
  obtain ⟨rfl, -⟩ := Prod.mk.inj (Option.some.inj hc)
  exact hm bs b back hb

theorem ite {m' : StateT (List α) Option β} {p : Prop} [Decidable p] (hm : Yields m P)
    (hm' : Yields m' P) : Yields (if p then m else m') P := by
  split_ifs
  · exact hm
  · exact hm'

theorem mapM_replicate (hm : Yields m P) (n : ℕ) :
    Yields ((List.replicate n m).mapM id) fun bs => ∀ b ∈ bs, P b := by
  induction n with
  | zero =>
    rw [List.replicate_zero, List.mapM_nil]
    exact .pure (by simp)
  | succ n ih =>
    rw [List.replicate_succ, List.mapM_cons]
    refine hm.bind fun b hb => ih.bind fun bs hbs => .pure ?_
    exact List.forall_mem_cons.2 ⟨hb, hbs⟩

end Yields

end PersonalCloud.Lib
