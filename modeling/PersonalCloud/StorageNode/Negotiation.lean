import PersonalCloud.StorageNode.XidSequence

/-!
# Negotiation of a sub-session

A client negotiates how its requests are signed and encrypted. The first negotiation of a
sub-session sets this and the start of its sequence numbers. A later one must ask for what is
in force, or answer a challenge: 16 random bytes that the server stored when it refused. An
accepted answer takes the new settings and restarts the sequence.

Negotiations are control messages, so their own sequence number is not checked: that a
recorded one cannot be used again rests on the challenge. But an accepted answer leaves the
challenge in place.

## Main results

* `Negotiated.Inv.step` — a challenge that was used is stored exactly while it is answered.
* `cannotReplay_iff` — no challenge is used twice exactly if none comes again before the next
  one is issued.
-/

namespace PersonalCloud.StorageNode

open PersonalCloud.Lib

def VSS_NEGOTIATE_SIGNING_MODE_NONE : UInt8 := 0
def VSS_NEGOTIATE_SIGNING_MODE_FULL : UInt8 := 2
def VSS_NEGOTIATE_SIGN_TYPE_NONE : UInt8 := 0
def VSS_NEGOTIATE_SIGN_TYPE_SHA1 : UInt8 := 1
def VSS_NEGOTIATE_ENCRYPT_TYPE_NONE : UInt8 := 0
def VSS_NEGOTIATE_ENCRYPT_TYPE_AES128 : UInt8 := 1

def VSS_OPEN : UInt8 := 0x01
def VSS_DELETE : UInt8 := 0x05

abbrev Challenge := List UInt8

structure SecuritySettings where
  signingMode : UInt8
  signType : UInt8
  encryptType : UInt8
  deriving DecidableEq, Repr

def SecuritySettings.high : SecuritySettings where
  signingMode := VSS_NEGOTIATE_SIGNING_MODE_FULL
  signType := VSS_NEGOTIATE_SIGN_TYPE_SHA1
  encryptType := VSS_NEGOTIATE_ENCRYPT_TYPE_AES128

structure SubSession where
  settings : SecuritySettings
  challenge : Challenge
  sequenceState : XidSequence

/-- What a negotiation takes from outside: the kind of network, and the random number and
bytes it may need. -/
structure NegotiateEnv where
  trustedNetwork : Bool
  xid : UInt32
  challenge : Challenge

inductive NegotiateStatus where
  | success | badver | again
  deriving DecidableEq, Repr

structure NegotiateReply where
  status : NegotiateStatus
  xidStart : UInt32
  settings : SecuritySettings
  challenge : Challenge
  deriving DecidableEq, Repr

namespace SubSession

/-- A new sub-session has the highest security and no challenge. -/
def new (window : Bitset WINDOW_WORDS) : SubSession where
  settings := .high
  challenge := []
  sequenceState := .new window

/-- Whether the settings are accepted, with the settings and the challenge for the reply. -/
def testSecuritySettings (u : SubSession) (requested : SecuritySettings) (challenge : Challenge)
    (env : NegotiateEnv) : (Bool × SecuritySettings × Challenge) × SubSession :=
  let granted := if env.trustedNetwork then requested else .high
  let refused := ((false, requested, env.challenge), { u with challenge := env.challenge })
  if challenge = [] then
    if u.sequenceState.freshState then
      ((true, granted, challenge), { u with
        sequenceState := u.sequenceState.accept env.xid
        settings := granted })
    else if u.settings = requested then ((true, requested, challenge), u)
    else refused
  else if challenge = u.challenge then
    ((true, granted, challenge), { u with
      sequenceState := u.sequenceState.reset.accept env.xid
      settings := granted })
  else refused

/-- This kind of server asks for no security of its own. -/
def handleNegotiate (u : SubSession) (version : UInt8) (requested : SecuritySettings)
    (challenge : Challenge) (env : NegotiateEnv) : NegotiateReply × SubSession :=
  let least : SecuritySettings := {
    signingMode := VSS_NEGOTIATE_SIGNING_MODE_NONE
    signType := VSS_NEGOTIATE_SIGN_TYPE_NONE
    encryptType := VSS_NEGOTIATE_ENCRYPT_TYPE_NONE }
  if version < 2 then (⟨.badver, 0, least, []⟩, u)
  else
    let wanted : SecuritySettings := {
      signingMode := max least.signingMode requested.signingMode
      signType := max least.signType requested.signType
      encryptType := max least.encryptType requested.encryptType }
    let r := u.testSecuritySettings wanted challenge env
    if r.1.1 then (⟨.success, r.2.sequenceState.nextValid, r.1.2.1, r.1.2.2⟩, r.2)
    else (⟨.again, 0, r.1.2.1, r.1.2.2⟩, r.2)

/-- The end of `verify_header`, for a header whose signature was right: the check of the
sequence number, unless this is a control message. -/
def verifyXid (u : SubSession) (version command : UInt8) (xid : UInt32) : Bool × SubSession :=
  let sequenceState :=
    if version = 1 ∧ xid = 0 ∧ (command = VSS_OPEN ∨ command = VSS_DELETE) then
      u.sequenceState.reset
    else u.sequenceState
  if command &&& 0x70 = 0x70 then (true, { u with sequenceState := sequenceState })
  else if sequenceState.isValid xid then
    (true, { u with sequenceState := sequenceState.accept xid })
  else (false, { u with sequenceState := sequenceState })

end SubSession

/-! ## Runs -/

inductive SubSessionEvent where
  | negotiate (version : UInt8) (requested : SecuritySettings) (challenge : Challenge)
      (env : NegotiateEnv)
  | verifyXid (version command : UInt8) (xid : UInt32)

/-- A sub-session in use. The ghosts are the challenges it issued, those that accepted
requests carried, and whether the stored one was answered since it was issued. -/
structure Negotiated where
  subSession : SubSession
  issued : List Challenge
  used : List Challenge
  answered : Bool

namespace Negotiated

def start (window : Bitset WINDOW_WORDS) : Negotiated where
  subSession := .new window
  issued := []
  used := []
  answered := false

def negotiate (s : Negotiated) (version : UInt8) (requested : SecuritySettings)
    (challenge : Challenge) (env : NegotiateEnv) : Negotiated :=
  let r := s.subSession.handleNegotiate version requested challenge env
  match r.1.status with
  | .success => { s with
      subSession := r.2
      used := if challenge = [] then s.used else challenge :: s.used
      answered := challenge ≠ [] || s.answered }
  | .again => { s with
      subSession := r.2
      issued := r.1.challenge :: s.issued
      answered := false }
  | .badver => { s with subSession := r.2 }

/-- The random number is not zero, and the random bytes make a challenge that is none of the
earlier ones. -/
def step (s : Negotiated) : SubSessionEvent → Option Negotiated
  | .negotiate version requested challenge env =>
    if env.xid = 0 ∨ env.challenge.length ≠ 16 ∨ env.challenge ∈ s.issued then none
    else some (s.negotiate version requested challenge env)
  | .verifyXid version command xid =>
    some { s with subSession := (s.subSession.verifyXid version command xid).2 }

/-- A request with a challenge is accepted only if the challenge was issued and is unused, and
changes nothing otherwise; a request without changes nothing once the sequence is started. -/
structure CannotReplay (s : Negotiated) (e : SubSessionEvent) : Prop where
  response : ∀ version requested challenge env, e = .negotiate version requested challenge env →
    challenge ≠ [] →
    challenge ∈ s.issued ∧ challenge ∉ s.used ∨
      (s.negotiate version requested challenge env).used = s.used ∧
      (s.negotiate version requested challenge env).subSession.settings = s.subSession.settings ∧
      (s.negotiate version requested challenge env).subSession.sequenceState =
        s.subSession.sequenceState
  silent : ∀ version requested env, e = .negotiate version requested [] env →
    s.subSession.sequenceState.freshState = false →
    (s.negotiate version requested [] env).subSession.settings = s.subSession.settings ∧
      (s.negotiate version requested [] env).subSession.sequenceState =
        s.subSession.sequenceState

/-- The challenge that the request carries was not answered since it was issued. -/
def AnswersNew (s : Negotiated) : SubSessionEvent → Prop
  | .negotiate version _ challenge _ =>
    2 ≤ version → challenge ≠ [] → challenge = s.subSession.challenge → s.answered = false
  | .verifyXid .. => True

/-! ### What a negotiation does -/

section Cases

variable (s : Negotiated) (version : UInt8) (requested : SecuritySettings)
  (challenge : Challenge) (env : NegotiateEnv)

theorem negotiate_cases :
    let t := s.negotiate version requested challenge env
    version < 2 ∧ t = s ∨
    2 ≤ version ∧ challenge = [] ∧ t.issued = s.issued ∧ t.used = s.used ∧
      t.answered = s.answered ∧ t.subSession.challenge = s.subSession.challenge ∧
      (s.subSession.sequenceState.freshState = false → t.subSession = s.subSession) ∨
    2 ≤ version ∧ challenge ≠ [] ∧ challenge = s.subSession.challenge ∧ t.issued = s.issued ∧
      t.used = challenge :: s.used ∧ t.answered = true ∧ t.subSession.challenge = challenge ∨
    2 ≤ version ∧ (challenge ≠ [] → challenge ≠ s.subSession.challenge) ∧
      t = { s with
        subSession := { s.subSession with challenge := env.challenge }
        issued := env.challenge :: s.issued
        answered := false } := by
  by_cases hv : version < 2
  · left
    simp [negotiate, SubSession.handleNegotiate, hv]
  · have hv' : 2 ≤ version := UInt8.not_lt.1 hv
    right
    by_cases hc : challenge = []
    · subst hc
      by_cases hf : s.subSession.sequenceState.freshState = true
      · left
        simp only [negotiate, SubSession.handleNegotiate, hv, if_false, hv',
          SubSession.testSecuritySettings, hf]
        simp
      · rw [Bool.not_eq_true] at hf
        simp only [negotiate, SubSession.handleNegotiate, hv, if_false, hv',
          SubSession.testSecuritySettings, hf, Bool.false_eq_true, if_true]
        by_cases hsame : s.subSession.settings = {
            signingMode := max VSS_NEGOTIATE_SIGNING_MODE_NONE requested.signingMode
            signType := max VSS_NEGOTIATE_SIGN_TYPE_NONE requested.signType
            encryptType := max VSS_NEGOTIATE_ENCRYPT_TYPE_NONE requested.encryptType }
        · simp only [if_pos hsame]
          simp
        · simp only [if_neg hsame]
          simp
    · right
      simp only [negotiate, SubSession.handleNegotiate, hv, if_false, hv',
        SubSession.testSecuritySettings, hc]
      split_ifs <;> simp_all

end Cases

/-- A challenge that was used is stored exactly while it is answered. -/
structure Inv (s : Negotiated) : Prop where
  stored : s.subSession.challenge = [] ∨ s.subSession.challenge ∈ s.issued
  nonempty : [] ∉ s.used
  used : ∀ c ∈ s.used, c ∈ s.issued
  answered : s.answered = true ↔ s.subSession.challenge ∈ s.used

variable {s t : Negotiated} {e : SubSessionEvent}

theorem inv_start (window : Bitset WINDOW_WORDS) : (start window).Inv where
  stored := .inl rfl
  nonempty := by simp [start]
  used := by simp [start]
  answered := by simp [start]

theorem Inv.step (h : s.Inv) (hs : s.step e = some t) : t.Inv := by
  cases e with
  | verifyXid version command xid =>
    obtain rfl := Option.some.inj hs
    have hc : (s.subSession.verifyXid version command xid).2.challenge =
        s.subSession.challenge := by
      simp only [SubSession.verifyXid]
      split_ifs <;> rfl
    exact ⟨by rw [hc]; exact h.stored, h.nonempty, h.used, by rw [hc]; exact h.answered⟩
  | negotiate version requested challenge env =>
    simp only [Negotiated.step, Option.ite_none_left_eq_some, not_or, Option.some.injEq] at hs
    obtain ⟨⟨-, hlen, hfresh⟩, rfl⟩ := hs
    obtain ⟨-, ht⟩ | ⟨-, -, hi, hu, ha, hc, -⟩ | ⟨-, hne, hch, hi, hu, ha, hc⟩ | ⟨-, -, ht⟩ :=
      s.negotiate_cases version requested challenge env
    · rwa [ht]
    · exact ⟨by rw [hc, hi]; exact h.stored, by rw [hu]; exact h.nonempty,
        by rw [hu, hi]; exact h.used, by rw [ha, hc, hu]; exact h.answered⟩
    · have hissued : challenge ∈ s.issued := by
        rcases h.stored with hs | hs
        · exact absurd (hch.trans hs) hne
        · exact hch ▸ hs
      refine ⟨.inr (by rwa [hc, hi]), ?_, ?_, ?_⟩
      · rw [hu, List.mem_cons, not_or]
        exact ⟨hne.symm, h.nonempty⟩
      · rw [hu, hi, List.forall_mem_cons]
        exact ⟨hissued, h.used⟩
      · simp [ha, hc, hu]
    · rw [ht]
      refine ⟨.inr (.head _), h.nonempty, fun c hc => .tail _ (h.used c hc), ?_⟩
      simpa using fun hu => hfresh (h.used _ hu)

theorem Inv.cannotReplay_step_iff (h : s.Inv) : s.CannotReplay e ↔ s.AnswersNew e := by
  cases e with
  | verifyXid version command xid =>
    exact ⟨fun _ => trivial, fun _ => ⟨by rintro _ _ _ _ ⟨⟩, by rintro _ _ _ ⟨⟩⟩⟩
  | negotiate version requested challenge env =>
    have hcases := s.negotiate_cases version requested challenge env
    constructor
    · intro hr hv hne hch
      rw [← Bool.not_eq_true, h.answered, ← hch]
      rcases hr.response _ _ _ _ rfl hne with hnew | hsame
      · exact hnew.2
      · have hu := hsame.1
        obtain ⟨hlt, -⟩ | ⟨-, hnil, -⟩ | ⟨-, -, -, -, hu', -⟩ | ⟨-, hne', -⟩ := hcases
        · exact absurd hv (UInt8.not_le.2 hlt)
        · exact absurd hnil hne
        · rw [hu'] at hu
          exact absurd hu (List.cons_ne_self _ _)
        · exact absurd hch (hne' hne)
    · intro hnew
      refine ⟨?_, ?_⟩
      · rintro _ _ _ _ ⟨⟩ hne
        obtain ⟨-, ht⟩ | ⟨-, hnil, -⟩ | ⟨hv, -, hch, -⟩ | ⟨-, -, ht⟩ := hcases
        · exact .inr (by rw [ht]; exact ⟨rfl, rfl, rfl⟩)
        · exact absurd hnil hne
        · have hans := hnew hv hne hch
          rw [← Bool.not_eq_true, h.answered, ← hch] at hans
          rcases h.stored with hs | hs
          · exact absurd (hch.trans hs) hne
          · exact .inl ⟨hch ▸ hs, hans⟩
        · exact .inr (by rw [ht]; exact ⟨rfl, rfl, rfl⟩)
      · rintro _ _ _ ⟨⟩ hf
        obtain ⟨-, ht⟩ | ⟨-, -, -, -, -, -, ht⟩ | ⟨-, hne, -⟩ | ⟨-, -, ht⟩ := hcases
        · rw [ht]
          exact ⟨rfl, rfl⟩
        · rw [ht hf]
          exact ⟨rfl, rfl⟩
        · exact absurd rfl hne
        · rw [ht]
          exact ⟨rfl, rfl⟩

end Negotiated

/-- In a run no negotiation can be replayed exactly if no challenge that was answered comes
again before a new one is issued. -/
theorem cannotReplay_iff {window : Bitset WINDOW_WORDS} {s : Negotiated}
    {tr : List (Negotiated × SubSessionEvent)}
    (h : Run Negotiated.step (Negotiated.start window) tr s) :
    Meets Negotiated.CannotReplay tr ↔ Meets Negotiated.AnswersNew tr :=
  h.meets_iff_meets (Negotiated.inv_start window) (fun _ _ _ hI _ => hI.cannotReplay_step_iff)
    fun _ _ _ hI _ hs => hI.step hs

def SecuritySettings.off : SecuritySettings where
  signingMode := VSS_NEGOTIATE_SIGNING_MODE_NONE
  signType := VSS_NEGOTIATE_SIGN_TYPE_NONE
  encryptType := VSS_NEGOTIATE_ENCRYPT_TYPE_NONE

def firstChallenge : Challenge := List.replicate 16 7

/-- A negotiation that was accepted on a challenge. -/
def answer (xid : UInt32) : SubSessionEvent :=
  .negotiate 2 .off firstChallenge ⟨true, xid, List.replicate 16 9⟩

def negotiateDown : List SubSessionEvent :=
  [.negotiate 2 .high [] ⟨true, 100, List.replicate 16 9⟩,
    .negotiate 2 .off [] ⟨true, 200, firstChallenge⟩, answer 300]

theorem cannotReplay_iff_negotiateDown :
    ∃ tr s, Run Negotiated.step (Negotiated.start .empty) tr s ∧ tr.length = 3 ∧
      (Meets Negotiated.CannotReplay tr ↔ Meets Negotiated.AnswersNew tr) := by
  have he : exec Negotiated.step (Negotiated.start .empty) negotiateDown = some _ := rfl
  exact ⟨_, _, run_trace he, rfl, cannotReplay_iff (run_trace he)⟩

/-- The client answers the challenge and sends a request; then a copy of the answer restarts
its sequence. -/
theorem not_cannotReplay_copy :
    ∃ tr s, Run Negotiated.step (Negotiated.start .empty) tr s ∧
      tr.map Prod.snd = (negotiateDown ++ [.verifyXid 2 VSS_OPEN 301, answer 400]).reverse ∧
      ¬Meets Negotiated.CannotReplay tr ∧
      s.subSession.sequenceState.lastReceived = 400 := by
  have he : exec Negotiated.step (Negotiated.start .empty)
      (negotiateDown ++ [.verifyXid 2 VSS_OPEN 301, answer 400]) = some _ := rfl
  refine ⟨_, _, run_trace he, rfl, fun hr => ?_, by decide⟩
  rcases (hr _ (.head _)).response _ _ _ _ rfl (by decide) with hnew | hsame
  · exact absurd hnew.2 (by decide)
  · exact absurd hsame.1 (by decide)

end PersonalCloud.StorageNode
