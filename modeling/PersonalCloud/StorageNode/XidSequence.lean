import PersonalCloud.Lib.Bitset
import PersonalCloud.Lib.Run

/-!
# Sequence numbers of requests

A sub-session answers each request number once. It keeps the newest number it accepted and a
window of one bit for each of the `WINDOW_SIZE` numbers behind it, indexed by the number's
low bits. Numbers wrap around.

Two slips keep it from that. The bits of the newest number and of the number `WINDOW_SIZE`
behind it are the same one, and it stays clear when the newest number is accepted, yet the
older number is still looked up there. And the constructor leaves the window as the memory
was, so numbers before the first accepted one may count as seen.

## Main results

* `Checked.Inv.step` — what the bits say of the numbers behind the newest one.
* `answersOnce_iff` — the runs that accept no number twice and refuse no number unseen.
-/

namespace PersonalCloud.StorageNode

open PersonalCloud.Lib

def WINDOW_SIZE : UInt32 := 512
def WINDOW_WORDS : Nat := 16
def MAX_JUMP : UInt32 := 4096

structure XidSequence where
  window : Bitset WINDOW_WORDS
  lastReceived : UInt32
  freshState : Bool

namespace XidSequence

/-- A new sequence; its window is not initialised. -/
def new (window : Bitset WINDOW_WORDS) : XidSequence where
  window := window
  lastReceived := 0
  freshState := true

def nextValid (x : XidSequence) : UInt32 :=
  if x.freshState then 0 else x.lastReceived + 1

/-- The bit of a number in the window. -/
def slot (seqval : UInt32) : UInt32 := seqval &&& (WINDOW_SIZE - 1)

def isValid (x : XidSequence) (seqval : UInt32) : Bool :=
  let increase := seqval - x.lastReceived
  let decrease := x.lastReceived - seqval
  if x.freshState then true
  else if increase = 0 then false
  else if increase ≤ MAX_JUMP then true
  else if decrease ≤ WINDOW_SIZE then !x.window.mem (slot seqval)
  else false

/-- Clear the bits of the `n` numbers up to `seqval`. -/
def clearRecent (window : Bitset WINDOW_WORDS) (seqval : UInt32) (n : Nat) :
    Bitset WINDOW_WORDS :=
  (List.range n).foldl (fun window i => window.erase (slot (seqval - UInt32.ofNat i))) window

def accept (x : XidSequence) (seqval : UInt32) : XidSequence :=
  let x := if x.freshState then { x with lastReceived := seqval, freshState := false } else x
  let increase := seqval - x.lastReceived
  let decrease := x.lastReceived - seqval
  if increase = 0 then x
  else if increase ≤ MAX_JUMP then
    { x with
      window :=
        if increase < WINDOW_SIZE then
          clearRecent (x.window.insert (slot x.lastReceived)) seqval increase.toNat
        else .empty
      lastReceived := seqval }
  else if decrease ≤ WINDOW_SIZE then
    let testBit := seqval % WINDOW_SIZE
    if x.window.mem testBit then x else { x with window := x.window.insert testBit }
  else x

def reset (_ : XidSequence) : XidSequence := .new .empty

/-- How far a number is behind the newest one. -/
def behind (x : XidSequence) (seqval : UInt32) : Nat := (x.lastReceived - seqval).toNat

/-! ### Bits and distances -/

theorem toNat_slot (seqval : UInt32) : (slot seqval).toNat = seqval.toNat % 512 := by
  rw [slot, UInt32.toNat_and]
  exact Nat.and_two_pow_sub_one_eq_mod seqval.toNat 9

theorem slot_lt (seqval : UInt32) : (slot seqval).toNat < 32 * WINDOW_WORDS := by
  rw [toNat_slot]
  exact Nat.mod_lt _ (by decide)

theorem mod_windowSize (seqval : UInt32) : seqval % WINDOW_SIZE = slot seqval := by
  rw [← UInt32.toNat_inj, toNat_slot, UInt32.toNat_mod]
  rfl

theorem slot_eq_iff {v w : UInt32} : slot v = slot w ↔ v.toNat % 512 = w.toNat % 512 := by
  rw [← UInt32.toNat_inj, toNat_slot, toNat_slot]

theorem mem_clearRecent (window : Bitset WINDOW_WORDS) (seqval b : UInt32) (n : Nat) :
    (clearRecent window seqval n).mem b = true ↔
      window.mem b = true ∧ ∀ i < n, slot (seqval - UInt32.ofNat i) ≠ b := by
  induction n with
  | zero => simp [clearRecent]
  | succ n ih =>
    rw [clearRecent, List.range_succ, List.foldl_append, List.foldl_cons, List.foldl_nil,
      ← clearRecent, Bitset.mem_erase _ (slot_lt _), Bool.and_eq_true, ih]
    simp only [Nat.lt_succ_iff_lt_or_eq, Bool.not_eq_true', decide_eq_false_iff_not]
    grind

section Distance

variable {x : XidSequence} {v w : UInt32}

theorem behind_lt : x.behind v < 2 ^ 32 := UInt32.toNat_lt _

theorem toNat_of_behind : v.toNat = (x.lastReceived.toNat + 2 ^ 32 - x.behind v) % 2 ^ 32 := by
  have hl := x.lastReceived.toNat_lt
  have hv := v.toNat_lt
  rw [behind, UInt32.toNat_sub]
  omega

theorem eq_of_behind_eq (h : x.behind v = x.behind w) : v = w := by
  rw [← UInt32.toNat_inj, toNat_of_behind (x := x), toNat_of_behind (x := x) (v := w), h]

theorem slot_eq_of_behind :
    slot v = slot w ↔ x.behind v % 512 = x.behind w % 512 := by
  rw [slot_eq_iff, toNat_of_behind (x := x), toNat_of_behind (x := x) (v := w)]
  have hl := x.lastReceived.toNat_lt
  have hv := x.behind_lt (v := v)
  have hw := x.behind_lt (v := w)
  omega

end Distance

/-! ### What the two operations do -/

section Operations

variable {x : XidSequence} {v w : UInt32}

theorem sub_lastReceived : (v - x.lastReceived).toNat = (2 ^ 32 - x.behind v) % 2 ^ 32 := by
  have hl := x.lastReceived.toNat_lt
  have hv := v.toNat_lt
  rw [behind, UInt32.toNat_sub, UInt32.toNat_sub]
  omega

theorem increase_eq_zero : v - x.lastReceived = 0 ↔ x.behind v = 0 := by
  rw [← UInt32.toNat_inj, sub_lastReceived]
  have := x.behind_lt (v := v)
  change _ = 0 ↔ _
  omega

theorem increase_le : v - x.lastReceived ≤ MAX_JUMP ↔
    x.behind v = 0 ∨ 2 ^ 32 - 4096 ≤ x.behind v := by
  rw [UInt32.le_iff_toNat_le, sub_lastReceived]
  have := x.behind_lt (v := v)
  change _ ≤ 4096 ↔ _
  omega

theorem decrease_le : x.lastReceived - v ≤ WINDOW_SIZE ↔ x.behind v ≤ 512 :=
  UInt32.le_iff_toNat_le

theorem isValid_iff (hf : x.freshState = false) :
    x.isValid v = true ↔ x.behind v ≠ 0 ∧
      (2 ^ 32 - 4096 ≤ x.behind v ∨ x.behind v ≤ 512 ∧ x.window.mem (slot v) = false) := by
  simp only [isValid, hf, increase_eq_zero, increase_le, decrease_le]
  grind

theorem accept_fresh (hf : x.freshState = true) :
    x.accept v = { x with lastReceived := v, freshState := false } := by
  simp [accept, hf]

theorem accept_forward (hf : x.freshState = false) (h : 2 ^ 32 - 4096 ≤ x.behind v) :
    x.accept v = { x with
      window :=
        if 2 ^ 32 - x.behind v < 512 then
          clearRecent (x.window.insert (slot x.lastReceived)) v (2 ^ 32 - x.behind v)
        else .empty
      lastReceived := v } := by
  have hn : (v - x.lastReceived).toNat = 2 ^ 32 - x.behind v := by
    rw [sub_lastReceived]
    omega
  have hlt : v - x.lastReceived < WINDOW_SIZE ↔ 2 ^ 32 - x.behind v < 512 := by
    rw [UInt32.lt_iff_toNat_lt, hn]
    rfl
  have h₀ : x.behind v ≠ 0 := by omega
  simp only [accept, hf, Bool.false_eq_true, if_false, increase_eq_zero, h₀, increase_le, h,
    or_true, if_true, hlt, hn]

theorem accept_backward (hf : x.freshState = false) (h₀ : x.behind v ≠ 0)
    (h : x.behind v ≤ 512) (hm : x.window.mem (slot v) = false) :
    x.accept v = { x with window := x.window.insert (slot v) } := by
  have hle : ¬2 ^ 32 - 4096 ≤ x.behind v := by omega
  simp only [accept, hf, Bool.false_eq_true, if_false, increase_eq_zero, h₀, increase_le,
    false_or, hle, decrease_le, h, if_true, mod_windowSize, hm]

theorem behind_moved (y : XidSequence) :
    y.behind w = (x.behind w + (y.lastReceived - x.lastReceived).toNat) % 2 ^ 32 := by
  have hx := x.lastReceived.toNat_lt
  have hy := y.lastReceived.toNat_lt
  have hw := w.toNat_lt
  rw [behind, behind, UInt32.toNat_sub, UInt32.toNat_sub, UInt32.toNat_sub]
  omega

/-- After a step forward by `n`, the bits of the last `n` numbers are clear, the bit of the
number that was the newest is set, and older bits are as they were. -/
theorem mem_accept_forward (hf : x.freshState = false) (h : 2 ^ 32 - 4096 ≤ x.behind v)
    (hw : (x.accept v).behind w < 512) :
    (x.accept v).window.mem (slot w) = true ↔
      2 ^ 32 - x.behind v = (x.accept v).behind w ∨
        2 ^ 32 - x.behind v < (x.accept v).behind w ∧ x.window.mem (slot w) = true := by
  have hlast : (x.accept v).lastReceived = v := by rw [accept_forward hf h]
  have hb := x.behind_lt (v := v)
  by_cases hn : 2 ^ 32 - x.behind v < 512
  · have hself : (x.accept v).behind x.lastReceived = 2 ^ 32 - x.behind v := by
      rw [behind, hlast, sub_lastReceived]
      omega
    have hback (i : Nat) (hi : i < 512) : (x.accept v).behind (v - UInt32.ofNat i) = i := by
      have hv := v.toNat_lt
      rw [behind, hlast, UInt32.toNat_sub, UInt32.toNat_sub, UInt32.toNat_ofNat']
      omega
    have hwindow : (x.accept v).window =
        clearRecent (x.window.insert (slot x.lastReceived)) v (2 ^ 32 - x.behind v) := by
      rw [accept_forward hf h]
      exact if_pos hn
    have hclear : (∀ i < 2 ^ 32 - x.behind v, slot (v - UInt32.ofNat i) ≠ slot w) ↔
        2 ^ 32 - x.behind v ≤ (x.accept v).behind w := by
      constructor
      · intro hall
        by_contra hlt
        refine hall _ (Nat.lt_of_not_le hlt) (slot_eq_of_behind (x := x.accept v) |>.2 ?_)
        rw [hback _ hw]
      · intro hle i hi he
        rw [slot_eq_of_behind (x := x.accept v), hback i (by omega)] at he
        omega
    rw [hwindow, mem_clearRecent, hclear, Bitset.mem_insert _ (slot_lt _), Bool.or_eq_true,
      decide_eq_true_eq, slot_eq_of_behind (x := x.accept v), hself]
    grind
  · have hwindow : (x.accept v).window = .empty := by
      rw [accept_forward hf h]
      exact if_neg hn
    rw [hwindow, Bitset.mem_empty]
    grind

end Operations

end XidSequence

/-! ## Runs -/

/-- A sequence in use. The ghosts are how far `lastReceived` has moved since the first
number was accepted, and where it stood when a number was first accepted. -/
structure Checked where
  xid : XidSequence
  advanced : Nat
  accepted : UInt32 → Option Nat

namespace Checked

open XidSequence

def start (window : Bitset WINDOW_WORDS) : Checked where
  xid := .new window
  advanced := 0
  accepted := fun _ => none

/-- `seqval` was judged valid: accept it. -/
def accept (s : Checked) (seqval : UInt32) : Checked :=
  let xid := s.xid.accept seqval
  let advanced :=
    if s.xid.freshState then s.advanced
    else s.advanced + (xid.lastReceived - s.xid.lastReceived).toNat
  { xid := xid
    advanced := advanced
    accepted := Function.update s.accepted seqval
      (s.accepted seqval <|> some advanced) }

/-- The end of `verify_header`: judge a number, and accept it if it is valid. -/
def step (s : Checked) (seqval : UInt32) : Option Checked :=
  some (if s.xid.isValid seqval then s.accept seqval else s)

/-- The number is not accepted a second time while `lastReceived` has moved by less than
`2 ^ 31`, and a number just behind it that was never accepted is. -/
structure AnswersOnce (s : Checked) (seqval : UInt32) : Prop where
  replay : ∀ a ∈ s.accepted seqval, s.advanced - a < 2 ^ 31 → s.xid.isValid seqval = false
  unseen : s.xid.freshState = false → s.accepted seqval = none →
    s.xid.behind seqval < WINDOW_SIZE.toNat → s.xid.isValid seqval = true

/-- A number that was accepted before `lastReceived` came where it is does not come again
exactly `WINDOW_SIZE` behind it; and a number shortly before the first accepted one does not
come when its bit was set in the memory that the sequence was built in. -/
structure ComesSafely (window : Bitset WINDOW_WORDS) (s : Checked) (seqval : UInt32) :
    Prop where
  boundary : ∀ a ∈ s.accepted seqval, s.advanced - a < 2 ^ 31 → a < s.advanced →
    s.xid.behind seqval ≠ WINDOW_SIZE.toNat
  memory : s.xid.freshState = false → s.accepted seqval = none →
    s.xid.behind seqval < WINDOW_SIZE.toNat → s.advanced < s.xid.behind seqval →
    window.mem (slot seqval) = false

/-- What the bits of the window say. -/
structure Inv (window : Bitset WINDOW_WORDS) (s : Checked) : Prop where
  fresh : s.xid.freshState = true → s = start window
  last : s.xid.freshState = false → (s.accepted s.xid.lastReceived).isSome
  past : ∀ v, ∀ a ∈ s.accepted v, a ≤ s.advanced
  distance : ∀ v, ∀ a ∈ s.accepted v,
    ∃ k ≤ 512, s.xid.behind v = (s.advanced - a + k) % 2 ^ 32
  seen : ∀ v, ∀ a ∈ s.accepted v, s.advanced - a < 2 ^ 31 → s.xid.behind v ≠ 0 →
    s.xid.behind v < 512 → s.xid.window.mem (slot v) = true
  unseen : ∀ v, s.xid.freshState = false → s.accepted v = none → s.xid.behind v < 512 →
    (s.xid.window.mem (slot v) = true ↔
      s.advanced < s.xid.behind v ∧ window.mem (slot v) = true)
  newest : ∀ v, ∀ a ∈ s.accepted v, s.xid.behind v = 512 → s.advanced - a < 2 ^ 31 →
    (s.xid.window.mem (slot v) = true ↔ a = s.advanced)

section Inv

variable {window : Bitset WINDOW_WORDS} {s : Checked} {v : UInt32}

theorem inv_start (window : Bitset WINDOW_WORDS) : (start window).Inv window where
  fresh _ := rfl
  last hf := by cases hf
  past v a ha := by cases ha
  distance v a ha := by cases ha
  seen v a ha := by cases ha
  unseen v hf := by cases hf
  newest v a ha := by cases ha

theorem Inv.freshState_eq (h : s.Inv window) {a : Nat} (ha : a ∈ s.accepted v) :
    s.xid.freshState = false := by
  by_contra hf
  rw [h.fresh (by simpa using hf)] at ha
  cases ha

theorem Inv.behind_ne_zero (h : s.Inv window) (hf : s.xid.freshState = false)
    (hv : s.accepted v = none) : s.xid.behind v ≠ 0 := by
  intro h₀
  have hlast : s.xid.behind s.xid.lastReceived = 0 := by simp [behind]
  have heq := eq_of_behind_eq (h₀.trans hlast.symm)
  have hsome := h.last hf
  rw [← heq, hv] at hsome
  cases hsome

theorem accepted_accept : (s.accept v).accepted = Function.update s.accepted v
    (s.accepted v <|> some (s.accept v).advanced) := rfl

theorem mem_accepted {w : UInt32} {a : Nat} :
    a ∈ (s.accept v).accepted w ↔
      a ∈ s.accepted w ∨ w = v ∧ s.accepted v = none ∧ a = (s.accept v).advanced := by
  rw [accepted_accept]
  by_cases hw : w = v
  · subst hw
    cases hs : s.accepted w <;> simp [eq_comm]
  · simp [hw]

theorem accepted_eq_none {w : UInt32} :
    (s.accept v).accepted w = none ↔ s.accepted w = none ∧ w ≠ v := by
  rw [accepted_accept]
  by_cases hw : w = v
  · subst hw
    cases hs : s.accepted w <;> simp
  · simp [hw]

/-- The first number. -/
theorem Inv.first (h : s.Inv window) (hf : s.xid.freshState = true) :
    (s.accept v).Inv window := by
  obtain rfl := h.fresh hf
  have hxid : ((start window).accept v).xid =
      { window := window, lastReceived := v, freshState := false } := accept_fresh rfl
  have hadv : ((start window).accept v).advanced = 0 := rfl
  have hmem {w : UInt32} {a : Nat} (ha : a ∈ ((start window).accept v).accepted w) :
      w = v ∧ a = 0 := by
    rw [mem_accepted, hadv] at ha
    rcases ha with ha | ⟨rfl, -, rfl⟩
    · cases ha
    · exact ⟨rfl, rfl⟩
  have hself : ((start window).accept v).xid.behind v = 0 := by simp [hxid, behind]
  constructor
  case fresh =>
    intro hfresh
    rw [hxid] at hfresh
    cases hfresh
  case last =>
    rw [hxid, accepted_accept]
    intro
    simp
  case past =>
    intro w a ha
    simp [hmem ha]
  case distance =>
    intro w a ha
    obtain ⟨rfl, rfl⟩ := hmem ha
    exact ⟨0, by omega, by rw [hself, hadv]; rfl⟩
  case seen =>
    intro w a ha _ h₀
    obtain ⟨rfl, rfl⟩ := hmem ha
    exact absurd hself h₀
  case unseen =>
    intro w _ hnone hw
    have hne : ((start window).accept v).xid.behind w ≠ 0 := by
      intro h₀
      have := eq_of_behind_eq (h₀.trans hself.symm)
      simp [accepted_eq_none, this] at hnone
    rw [hadv, hxid]
    simp only [hxid] at hne
    simp
    omega
  case newest =>
    intro w a ha h₅₁₂
    obtain ⟨rfl, rfl⟩ := hmem ha
    rw [hself] at h₅₁₂
    cases h₅₁₂

/-- A number ahead of the newest one. -/
theorem Inv.forward (h : s.Inv window) (hf : s.xid.freshState = false)
    (hb : 2 ^ 32 - 4096 ≤ s.xid.behind v) : (s.accept v).Inv window := by
  have hlt := s.xid.behind_lt (v := v)
  have hxid : (s.accept v).xid = s.xid.accept v := rfl
  have hlast : (s.xid.accept v).lastReceived = v := by rw [accept_forward hf hb]
  have hadv : (s.accept v).advanced = s.advanced + (2 ^ 32 - s.xid.behind v) := by
    simp only [accept, hf, Bool.false_eq_true, if_false, hlast, sub_lastReceived]
    omega
  have hmoved (w : UInt32) : (s.xid.accept v).behind w =
      (s.xid.behind w + (2 ^ 32 - s.xid.behind v)) % 2 ^ 32 := by
    rw [behind_moved (x := s.xid), hlast, sub_lastReceived]
    omega
  have hself : (s.xid.accept v).behind v = 0 := by simp [behind, hlast]
  -- a number that was accepted recently is at least as far behind as the step was long
  have hfar (w : UInt32) (a : Nat) (ha : a ∈ s.accepted w)
      (hr : (s.accept v).advanced - a < 2 ^ 31) :
      (s.xid.accept v).behind w = s.xid.behind w + (2 ^ 32 - s.xid.behind v) := by
    obtain ⟨k, hk, hd⟩ := h.distance w a ha
    have hpast := h.past w a ha
    rw [hmoved]
    omega
  constructor
  case fresh =>
    intro hfresh
    rw [hxid, accept_forward hf hb, hf] at hfresh
    cases hfresh
  case last =>
    rw [hxid, hlast]
    intro
    simp [accept]
  case past =>
    intro w a ha
    rcases mem_accepted.1 ha with ha | ⟨-, -, rfl⟩
    · have := h.past w a ha
      omega
    · exact le_rfl
  case distance =>
    intro w a ha
    rw [hxid]
    rcases mem_accepted.1 ha with ha | ⟨rfl, -, rfl⟩
    · obtain ⟨k, hk, hd⟩ := h.distance w a ha
      have := h.past w a ha
      refine ⟨k, hk, ?_⟩
      rw [hmoved, hadv]
      omega
    · exact ⟨0, by omega, by rw [hself]; omega⟩
  case seen =>
    intro w a ha hr h₀ hw
    rw [hxid] at h₀ hw ⊢
    rcases mem_accepted.1 ha with ha | ⟨rfl, -, -⟩
    · rw [mem_accept_forward hf hb hw]
      have := hfar w a ha hr
      by_cases hd : s.xid.behind w = 0
      · omega
      · exact .inr ⟨by omega, h.seen w a ha (by omega) hd (by omega)⟩
    · exact absurd hself h₀
  case unseen =>
    intro w _ hnone hw
    rw [hxid] at hw ⊢
    obtain ⟨hnone, hne⟩ := accepted_eq_none.1 hnone
    have hwne := h.behind_ne_zero hf hnone
    have hwlt := s.xid.behind_lt (v := w)
    have hm := hmoved w
    rw [mem_accept_forward hf hb hw, hadv]
    by_cases hbefore : 2 ^ 32 - s.xid.behind v < (s.xid.accept v).behind w
    · have := h.unseen w hf hnone (by omega)
      grind
    · have : 2 ^ 32 - s.xid.behind v ≠ (s.xid.accept v).behind w := by omega
      grind
  case newest =>
    intro w a ha h₅₁₂ hr
    rw [hxid] at h₅₁₂ ⊢
    have hslot : slot w = slot v := by
      rw [slot_eq_of_behind (x := s.xid.accept v), h₅₁₂, hself]
    rw [hslot, mem_accept_forward hf hb (by omega), hself]
    rcases mem_accepted.1 ha with ha | ⟨rfl, -, -⟩
    · have := h.past w a ha
      omega
    · omega

/-- A number in the window. One that is `WINDOW_SIZE` behind shares its bit with the newest,
and must not have been accepted recently. -/
theorem Inv.backward (h : s.Inv window) (hf : s.xid.freshState = false)
    (h₀ : s.xid.behind v ≠ 0) (hb : s.xid.behind v ≤ 512)
    (hm : s.xid.window.mem (slot v) = false)
    (honce : ∀ a ∈ s.accepted v, ¬s.advanced - a < 2 ^ 31) : (s.accept v).Inv window := by
  have hxid : (s.accept v).xid = { s.xid with window := s.xid.window.insert (slot v) } :=
    accept_backward hf h₀ hb hm
  have hadv : (s.accept v).advanced = s.advanced := by
    simp [accept, hf, accept_backward hf h₀ hb hm]
  have hbehind (w : UInt32) : (s.accept v).xid.behind w = s.xid.behind w := by
    rw [hxid]
    rfl
  have hmem (w : UInt32) : (s.accept v).xid.window.mem (slot w) = true ↔
      s.xid.behind v % 512 = s.xid.behind w % 512 ∨ s.xid.window.mem (slot w) = true := by
    rw [hxid, Bitset.mem_insert _ (slot_lt _), Bool.or_eq_true, decide_eq_true_eq,
      slot_eq_of_behind (x := s.xid)]
  constructor
  case fresh =>
    intro hfresh
    rw [hxid, hf] at hfresh
    cases hfresh
  case last =>
    intro _
    have hlast := h.last hf
    rw [← Option.ne_none_iff_isSome] at hlast ⊢
    rw [hxid, ne_eq, accepted_eq_none]
    exact fun hn => hlast hn.1
  case past =>
    intro w a ha
    rw [hadv]
    rcases mem_accepted.1 ha with ha | ⟨-, -, rfl⟩
    · exact h.past w a ha
    · rw [hadv]
  case distance =>
    intro w a ha
    rw [hadv, hbehind]
    rcases mem_accepted.1 ha with ha | ⟨rfl, -, rfl⟩
    · exact h.distance w a ha
    · exact ⟨s.xid.behind w, hb, by rw [hadv]; omega⟩
  case seen =>
    intro w a ha hr hne hw
    rw [hbehind] at hne hw
    rw [hadv] at hr
    rw [hmem]
    rcases mem_accepted.1 ha with ha | ⟨rfl, -, -⟩
    · exact .inr (h.seen w a ha hr hne hw)
    · exact .inl rfl
  case unseen =>
    intro w _ hnone hw
    obtain ⟨hnone, hne⟩ := accepted_eq_none.1 hnone
    rw [hbehind] at hw ⊢
    have hbne : s.xid.behind v ≠ s.xid.behind w := fun he => hne (eq_of_behind_eq he).symm
    have hwne := h.behind_ne_zero hf hnone
    have hmod : ¬s.xid.behind v % 512 = s.xid.behind w % 512 := by omega
    rw [hmem, hadv, ← h.unseen w hf hnone hw]
    simp only [hmod, false_or]
  case newest =>
    intro w a ha h₅₁₂ hr
    rw [hbehind] at h₅₁₂
    rw [hadv] at hr
    rw [hmem, hadv]
    rcases mem_accepted.1 ha with ha | ⟨rfl, -, rfl⟩
    · have hne : v ≠ w := by
        rintro rfl
        exact honce a ha hr
      have hbne : s.xid.behind v ≠ s.xid.behind w := fun he => hne (eq_of_behind_eq he)
      have hmod : ¬s.xid.behind v % 512 = s.xid.behind w % 512 := by omega
      rw [← h.newest w a ha h₅₁₂ hr]
      simp only [hmod, false_or]
    · simp [hadv]

/-- A step that answers once keeps the window right. -/
theorem Inv.step {t : Checked} (h : s.Inv window) (honce : s.AnswersOnce v)
    (hs : s.step v = some t) : t.Inv window := by
  obtain rfl := Option.some.inj hs
  split_ifs with hv
  · by_cases hf : s.xid.freshState = true
    · exact h.first hf
    · rw [Bool.not_eq_true] at hf
      obtain ⟨h₀, hb | ⟨hb, hm⟩⟩ := (isValid_iff hf).1 hv
      · exact h.forward hf hb
      · refine h.backward hf h₀ hb hm fun a ha hr => ?_
        rw [honce.replay a ha hr] at hv
        cases hv
  · exact h

theorem Inv.answersOnce_step_iff (h : s.Inv window) : s.AnswersOnce v ↔ s.ComesSafely window v := by
  constructor
  · intro honce
    refine ⟨fun a ha hr hlt hb => ?_, fun hf hnone hb hlt => ?_⟩
    · have hf := h.freshState_eq ha
      have hm : ¬s.xid.window.mem (slot v) = true := by
        rw [h.newest v a ha hb hr]
        omega
      have hvalid := honce.replay a ha hr
      rw [← Bool.not_eq_true, isValid_iff hf, hb] at hvalid
      exact hvalid ⟨by decide, .inr ⟨by decide, by simpa using hm⟩⟩
    · have hvalid := (isValid_iff hf).1 (honce.unseen hf hnone hb)
      have hb' : s.xid.behind v < 512 := hb
      have hm : s.xid.window.mem (slot v) = false := by
        rcases hvalid.2 with hbig | hsmall
        · omega
        · exact hsmall.2
      have := h.unseen v hf hnone hb
      grind
  · intro hsafe
    refine ⟨fun a ha hr => ?_, fun hf hnone hb => ?_⟩
    · have hf := h.freshState_eq ha
      obtain ⟨k, hk, hd⟩ := h.distance v a ha
      have hpast := h.past v a ha
      rw [← Bool.not_eq_true, isValid_iff hf]
      rintro ⟨h₀, hbig | ⟨hb, hm⟩⟩
      · omega
      · rcases Nat.lt_or_eq_of_le hb with hlt | heq
        · simp [h.seen v a ha hr h₀ hlt] at hm
        · have ha' : a = s.advanced := by
            by_contra hne
            exact hsafe.boundary a ha hr (by omega) heq
          simp [(h.newest v a ha heq hr).2 ha'] at hm
    · have hb' : s.xid.behind v < 512 := hb
      have hm := h.unseen v hf hnone hb
      have hmem := hsafe.memory hf hnone hb
      rw [isValid_iff hf]
      refine ⟨h.behind_ne_zero hf hnone, .inr ⟨by omega, ?_⟩⟩
      grind

end Inv

end Checked

/-- A run of checks accepts no number twice within half the number range, and no unseen
number in the window is refused, exactly if its numbers come safely. -/
theorem answersOnce_iff {window : Bitset WINDOW_WORDS} {s : Checked}
    {tr : List (Checked × UInt32)} (h : Run Checked.step (Checked.start window) tr s) :
    Meets Checked.AnswersOnce tr ↔ Meets (Checked.ComesSafely window) tr :=
  h.meets_iff_meets (Checked.inv_start window) (fun _ _ _ hI _ => hI.answersOnce_step_iff)
    fun _ _ _ hI honce hs => hI.step honce hs

/-- A few numbers out of order, in a window that was cleared. -/
theorem answersOnce_iff_outOfOrder :
    ∃ tr s, Run Checked.step (Checked.start .empty) tr s ∧ tr.length = 4 ∧
      (Meets Checked.AnswersOnce tr ↔ Meets (Checked.ComesSafely .empty) tr) := by
  have he : exec Checked.step (Checked.start .empty) [4294967290, 3, 1, 4294967290] = some _ := rfl
  exact ⟨_, _, run_trace he, rfl, answersOnce_iff (run_trace he)⟩

/-- In a cleared window, 1000 is accepted again after 1512; and in a window whose memory was
all ones, 99 is refused after 100. -/
theorem not_answersOnce_replay :
    (∃ tr s, Run Checked.step (Checked.start .empty) tr s ∧
      tr.map Prod.snd = [1000, 1512, 1000] ∧ ¬Meets Checked.AnswersOnce tr) ∧
    ∃ tr s, Run Checked.step (Checked.start .full) tr s ∧
      tr.map Prod.snd = [99, 100] ∧ ¬Meets Checked.AnswersOnce tr := by
  have hreplay : exec Checked.step (Checked.start .empty) [1000, 1512, 1000] = some _ := rfl
  have hmemory : exec Checked.step (Checked.start .full) [100, 99] = some _ := rfl
  refine ⟨⟨_, _, run_trace hreplay, rfl, fun honce => ?_⟩,
    ⟨_, _, run_trace hmemory, rfl, fun honce => ?_⟩⟩
  · exact absurd ((honce _ (.head _)).replay 0 (by decide) (by decide)) (by decide)
  · exact absurd ((honce _ (.head _)).unseen (by decide) (by decide) (by decide)) (by decide)

end PersonalCloud.StorageNode
