import PersonalCloud.Ans.Device

/-!
# Unpacking stays in bounds

What is read of a packet is looked for first, by each number on its own or for several numbers at
once. Only the arrays of a login blob are not, and the tag of a connection, for which those look
that call `unpack`. The external address of a device is printed into a buffer that is too small
for the longest ones.

## Main results

* `unpack_within` — other packets are unpacked without leaving them. A result comes from fields
  that take up all of the packet but its signature, or is a ping for a packet that is not known
  and for device parameters that cannot be used.
* `isSome_printExternal` — external addresses of less than 130 bytes can be printed.
-/

namespace PersonalCloud.Ans

open PersonalCloud.Lib Scan

variable {packet : List UInt8} {I : Session → Prop} {k l : ℕ} {E : Option Unpacked → Prop}
  {β γ : Type}

/-! ## Numbers and arrays -/

/-- The number of `n` bytes at `base`. -/
def number (packet : List UInt8) (base n : ℕ) : ℕ :=
  ofBytes ((packet.drop base).take n)

section Numbers

variable {base n : ℕ}

theorem unpackU_of_le (h : base + n ≤ packet.length) : unpackU n packet ⟨base, false⟩ =
    some (number packet base n, ⟨base + n, false⟩) := by
  refine (run_bind (lacks_of_le h) _).trans ?_
  change (load n >>= fun bytes => advance n >>= fun _ => pure (ofBytes bytes)) packet _ = _
  exact run_bind (load_of_le h) _

theorem unpackU_of_lt (h : base ≤ packet.length) (hn : packet.length - base < n) :
    unpackU n packet ⟨base, false⟩ = some (0, ⟨base, true⟩) :=
  run_bind (lacks_of_lt h hn) _

theorem unpackU_of_failed (n : ℕ) : unpackU n packet ⟨base, true⟩ = some (0, ⟨base, true⟩) :=
  rfl

theorem unpackU16_of_le (h : base + 2 ≤ packet.length) : unpackU16 packet ⟨base, false⟩ =
    some (UInt16.ofNat (number packet base 2), ⟨base + 2, false⟩) := by
  rw [unpackU16, ← bind_pure_comp]
  exact run_bind (unpackU_of_le h) _

theorem unpackU64_of_le (h : base + 8 ≤ packet.length) : unpackU64 packet ⟨base, false⟩ =
    some (UInt64.ofNat (number packet base 8), ⟨base + 8, false⟩) := by
  rw [unpackU64, ← bind_pure_comp]
  exact run_bind (unpackU_of_le h) _

end Numbers

section Checks

variable {s : Session} {c : Cursor} {p : Prop} [Decidable p]

theorem run_nullIf (hp : p) : nullIf p s packet c = some ((.error none, s), c) := by
  rw [nullIf, if_pos hp]
  rfl

theorem run_nullIf_of_not (hp : ¬p) : nullIf p s packet c = some ((.ok (), s), c) := by
  rw [nullIf, if_neg hp]
  rfl

theorem run_require {n : ℕ} (h : c.base + n ≤ packet.length) :
    require n s packet c = some ((.ok (), s), c) :=
  Exiting.run_bind (Exiting.run_lift (lacks_of_le h)) _

theorem run_require_of_lt {n : ℕ} (hc : c.base ≤ packet.length)
    (h : packet.length - c.base < n) : require n s packet c = some ((.error none, s), c) :=
  Exiting.run_bind (Exiting.run_lift (lacks_of_lt hc h)) _

end Checks

theorem unpackU_run (n : ℕ) {c : Cursor} (hc : c.base + k ≤ packet.length) :
    ∃ b c', unpackU n packet c = some (b, c') ∧ c'.base + (k - n) ≤ packet.length := by
  obtain ⟨base, fail⟩ := c
  change base + k ≤ packet.length at hc
  cases fail with
  | true => exact ⟨0, _, unpackU_of_failed n, show base + _ ≤ _ by omega⟩
  | false =>
    by_cases hshort : packet.length - base < n
    · exact ⟨0, _, unpackU_of_lt (by omega) hshort, show base + _ ≤ _ by omega⟩
    · exact ⟨_, _, unpackU_of_le (by omega), show base + n + _ ≤ _ by omega⟩

theorem within_map {d : Scan UInt8 β} (f : β → γ)
    (h : ∀ c : Cursor, c.base + k ≤ packet.length →
      ∃ b c', d packet c = some (b, c') ∧ c'.base + l ≤ packet.length) :
    Within I packet k l (liftM (f <$> d) : Unpack γ) (fun _ => True) E := by
  refine Within.lift fun c hc => ?_
  obtain ⟨b, c', hrun, hl⟩ := h c hc
  rw [← bind_pure_comp, run_bind hrun]
  exact ⟨f b, c', rfl, hl, trivial⟩

theorem within_unpackU8 :
    Within I packet k (k - 1) (liftM unpackU8 : Unpack UInt8) (fun _ => True) E :=
  within_map _ fun _ hc => unpackU_run 1 hc

theorem within_unpackU16 :
    Within I packet k (k - 2) (liftM unpackU16 : Unpack UInt16) (fun _ => True) E :=
  within_map _ fun _ hc => unpackU_run 2 hc

theorem within_unpackU32 :
    Within I packet k (k - 4) (liftM unpackU32 : Unpack UInt32) (fun _ => True) E :=
  within_map _ fun _ hc => unpackU_run 4 hc

theorem within_unpackU64 :
    Within I packet k (k - 8) (liftM unpackU64 : Unpack UInt64) (fun _ => True) E :=
  within_map _ fun _ hc => unpackU_run 8 hc

/-- If that many are left, there is room for them. -/
theorem within_require (hE : E none) (n : ℕ) :
    Within I packet k n (require n) (fun _ => True) E := by
  intro s c hs hc
  by_cases hshort : packet.length - c.base < n
  · exact .inr ⟨none, s, c, run_require_of_lt (by omega) hshort, hE⟩
  · exact .inl ⟨(), s, c, run_require (by omega), hs, by omega, trivial⟩

theorem within_nullIf (hE : E none) (p : Prop) [Decidable p] :
    Within I packet k k (nullIf p) (fun _ => ¬p) E :=
  Within.ite (fun _ => .throw hE) fun hp => .pure (Nat.le_refl k) hp

theorem within_orNull (hE : E none) (b : Option β) :
    Within I packet k k (orNull b) (fun x => b = some x) E := by
  cases b with
  | none => exact .throw hE
  | some b => exact .pure (Nat.le_refl k) rfl

theorem within_setClient (hI : ∀ s, I s) (f : Client → Client) :
    Within I packet k k (setClient f) (fun _ => True) E :=
  Within.modify (fun _ _ => hI _) (Nat.le_refl k) trivial

/-- An array that lies in the packet. -/
def Slice.Fits (packet : List UInt8) (s : Slice) : Prop :=
  s.array + s.length ≤ packet.length

/-- What the first two bytes say. -/
def lengthAt (packet : List UInt8) (base : ℕ) : ℕ :=
  (UInt16.ofNat (number packet base 2)).toNat

theorem unpackBytes_of_lt {c : Cursor} (hc : c.base ≤ packet.length)
    (h : packet.length - c.base < 2) : unpackBytes packet c = some (none, c) := by
  unfold unpackBytes short
  rw [lacks_of_lt hc h]
  rfl

theorem unpackBytes_of_le {c : Cursor} (h : c.base + 2 ≤ packet.length) :
    unpackBytes packet c = some (if packet.length < c.base + 2 + lengthAt packet c.base then none
      else some ⟨c.base + 2, lengthAt packet c.base⟩, c) := by
  have hrun : unpackBytes packet c =
      if decide ((packet.length : ℤ) - (c.base + 2 : ℕ) < lengthAt packet c.base) = true ∨
        false = true then some (none, c)
      else some (some ⟨c.base + 2, lengthAt packet c.base⟩, c) := by
    unfold unpackBytes short
    rw [lacks_of_le h]
    change (unpackU16 packet ⟨c.base, false⟩).bind _ = _
    rw [unpackU16_of_le h]
    rfl
  rw [hrun]
  by_cases hlong : packet.length < c.base + 2 + lengthAt packet c.base
  · rw [if_pos hlong, if_pos (.inl (decide_eq_true (by omega)))]
  · have hfits : ¬(packet.length : ℤ) - (c.base + 2 : ℕ) < lengthAt packet c.base := by omega
    rw [if_neg hlong, if_neg (by simpa using hfits)]

/-- What `unpack_bytes` finds lies in the packet. -/
theorem unpackBytes_run {c : Cursor} (hc : c.base ≤ packet.length) :
    ∃ b, unpackBytes packet c = some (b, c) ∧ ∀ s ∈ b, s.Fits packet := by
  by_cases hshort : packet.length - c.base < 2
  · exact ⟨none, unpackBytes_of_lt hc hshort, by simp⟩
  · refine ⟨_, unpackBytes_of_le (by omega), fun s hs => ?_⟩
    split_ifs at hs with hlong
    · cases hs
    · obtain rfl := Option.mem_some_iff.1 hs
      exact not_lt.1 hlong

theorem within_unpackBytes : Within I packet k k (liftM unpackBytes : Unpack (Option Slice))
    (fun b => ∀ s ∈ b, s.Fits packet) E := by
  refine Within.lift fun c hc => ?_
  obtain ⟨b, hrun, hb⟩ := unpackBytes_run (show c.base ≤ packet.length by omega)
  exact ⟨b, c, hrun, hc, hb⟩

theorem within_copy {s : Slice} (hs : s.Fits packet) :
    Within I packet k k (liftM (copy s) : Unpack (List UInt8)) (fun _ => True) E :=
  Within.lift fun c hc => ⟨_, c, if_pos hs, hc, trivial⟩

theorem within_skip {s : Slice} (hs : s.Fits packet) :
    Within I packet k 0 (liftM (skip s) : Unpack Unit) (fun _ => True) E :=
  Within.lift fun _ _ => ⟨(), _, rfl, hs, trivial⟩

/-! ## The types -/

theorem within_ansDecrypt {env : Env} (hE : E none)
    (hI : ∀ s, I s → ∃ key, (s.client.bind fun client => client.crypto) = some key)
    (message : List UInt8) :
    Within I packet k k (ansDecrypt env message) (fun _ => True) E := by
  refine (within_nullIf hE _).bind fun _ _ => ?_
  refine (within_nullIf hE _).bind fun _ _ => ?_
  have hkey : Within I packet k k clientKey (fun _ => True) E := by
    refine Within.bind (Q := fun s => I s) (.get (Nat.le_refl k) fun s hs => hs) fun s hs => ?_
    obtain ⟨key, hkey⟩ := hI s hs
    rw [hkey]
    exact Within.lift fun c hc => ⟨key, c, rfl, hc, trivial⟩
  refine hkey.bind fun key _ => ?_
  refine (within_orNull hE _).bind fun work _ => ?_
  refine (within_nullIf hE _).bind fun _ _ => ?_
  exact .pure (Nat.le_refl k) trivial

theorem within_unpackEncrypted {env : Env} (hE : E none)
    (hI : ∀ s, I s → ∃ key, (s.client.bind fun client => client.crypto) = some key) :
    Within I packet k 0 (unpackEncrypted env) (fun _ => True) E := by
  refine within_unpackBytes.bind fun field? hfield => ?_
  refine (within_orNull hE _).bind fun field h => ?_
  refine (within_nullIf hE _).bind fun _ _ => ?_
  refine (within_copy (hfield field h)).bind fun message _ => ?_
  refine (within_ansDecrypt hE hI message).bind fun text _ => ?_
  refine (within_skip (hfield field h)).bind fun _ _ => ?_
  exact .pure (Nat.le_refl 0) trivial

theorem within_discard (n : ℕ) : Within I packet k 0 (discard n) (fun _ => True) E := by
  induction n generalizing k with
  | zero => exact .pure (Nat.zero_le k) trivial
  | succ n ih => exact within_unpackU64.bind fun _ _ => ih

theorem within_sendUnicast (hE : E none) (result : Unpacked) :
    Within I packet k 0 (sendUnicast result) (fun _ => True) E := by
  refine (within_require hE _).bind fun _ _ => ?_
  exact within_unpackU64.bind fun _ _ => .pure (Nat.zero_le _) trivial

theorem within_sendMulticast (hE : E none) (result : Unpacked) :
    Within I packet k 0 (sendMulticast result) (fun _ => True) E := by
  refine (within_require hE _).bind fun _ _ => ?_
  exact within_unpackU32.bind fun _ _ => .pure (Nat.zero_le _) trivial

theorem within_sendSleepSetup {env : Env} (hE : E none)
    (hI : ∀ s, I s → ∃ key, (s.client.bind fun client => client.crypto) = some key)
    (result : Unpacked) : Within I packet k 0 (sendSleepSetup env result) (fun _ => True) E := by
  refine (within_require hE _).bind fun _ _ => ?_
  refine within_unpackU32.bind fun _ _ => ?_
  iterate 3 refine (within_unpackEncrypted hE hI).bind fun _ _ => ?_
  refine within_unpackBytes.bind fun ipName? hip => ?_
  refine (within_orNull hE _).bind fun ipName h => ?_
  refine (within_nullIf hE _).bind fun _ _ => ?_
  refine (within_skip (hip ipName h)).bind fun _ _ => ?_
  refine (within_copy (hip ipName h)).bind fun _ _ => ?_
  refine within_unpackU32.bind fun _ _ => ?_
  exact within_unpackU32.bind fun _ _ => .pure (Nat.zero_le _) trivial

/-! ### Challenges -/

section Challenge

variable (hE : E none) (hI : ∀ s, I s)
include hE

theorem within_challengeCount (challengeType : UInt16) :
    Within I packet 0 0 (challengeCount challengeType) (fun _ => True) E := by
  refine Within.ite (fun _ => ?_) fun _ => .pure (Nat.le_refl 0) trivial
  refine within_unpackU16.bind fun count _ => ?_
  refine Within.bind (Q := fun _ => True) (Within.lift fun c hc => ⟨_, c, rfl, hc, trivial⟩)
    fun small _ => ?_
  exact (within_nullIf hE _).bind fun _ _ => .pure (Nat.le_refl 0) trivial

include hI

omit hE in
theorem within_challengeNumbers (challengeType : UInt16) (count : ℕ) :
    Within I packet 0 0 (challengeNumbers challengeType count) (fun _ => True) E := by
  refine Within.ite (fun _ => ?_) fun _ => .pure (Nat.le_refl 0) trivial
  refine within_unpackU64.bind fun _ _ => ?_
  refine Within.ite (fun _ => ?_) fun _ => .pure (Nat.le_refl 0) trivial
  refine within_unpackU64.bind fun _ _ => ?_
  exact (within_setClient hI _).bind fun _ _ => within_discard _

theorem within_challengeBytes : Within I packet k 0 challengeBytes (fun _ => True) E := by
  refine (within_setClient hI _).bind fun _ _ => ?_
  refine within_unpackBytes.bind fun challenge? hchallenge => ?_
  refine (within_setClient hI _).bind fun _ _ => ?_
  refine (within_orNull hE _).bind fun challenge h => ?_
  refine (within_nullIf hE _).bind fun _ _ => ?_
  refine (within_copy (hchallenge challenge h)).bind fun bytes _ => ?_
  exact (within_setClient hI _).bind fun _ _ => within_skip (hchallenge challenge h)

theorem within_sendChallenge (env : Env) (result : Unpacked) :
    Within I packet k 0 (sendChallenge env result) (fun _ => True) E := by
  refine (within_require hE _).bind fun _ _ => ?_
  refine (within_setClient hI _).bind fun _ _ => ?_
  refine (within_unpackU16.mono (Nat.le_refl _) (Nat.zero_le _) (fun _ h => h) fun _ h => h).bind
    fun challengeType _ => ?_
  refine (within_challengeCount hE challengeType).bind fun count _ => ?_
  refine within_unpackU64.bind fun connection _ => ?_
  refine (within_challengeNumbers hI challengeType count).bind fun _ _ => ?_
  refine (within_setClient hI _).bind fun _ _ => ?_
  exact (within_challengeBytes hE hI).bind fun _ _ => .pure (Nat.le_refl 0) trivial

end Challenge

/-! ### Device parameters -/

/-- Arrays of the lengths that they say lie in the packet one behind the other. -/
def ArraysFit (packet : List UInt8) : ℕ → ℕ → Prop
  | 0, base => base ≤ packet.length
  | n + 1, base => base + 2 ≤ packet.length ∧
      base + 2 + lengthAt packet base ≤ packet.length ∧
      ArraysFit packet n (base + 2 + lengthAt packet base)

/-- The string at `base`, if it lies in the packet. -/
def stringAt (packet : List UInt8) (base : ℕ) : Option Slice :=
  if base + 2 ≤ packet.length ∧ base + 2 + lengthAt packet base ≤ packet.length then
    some ⟨base + 2, lengthAt packet base⟩
  else none

/-- Where the packet goes on behind a string that may be missing. -/
def behind (packet : List UInt8) (base : ℕ) : ℕ :=
  match stringAt packet base with
  | none => base
  | some string => if 0 < string.length then string.array + string.length else base

section Params

variable (packet) (base : ℕ)

def paramCount : UInt16 :=
  .ofNat (number packet (base + 2) 2)

def paramsEnd : ℕ :=
  base + 4 + (paramCount packet base).toNat * 4

/-- The parameters at `base` are of the known version, and there are enough of them. -/
structure ParamsFit : Prop where
  version : UInt16.ofNat (number packet base 2) = ansDeviceVersion
  count : ¬paramCount packet base < 24
  room : paramsEnd packet base + 2 ≤ packet.length

def stringCount : UInt16 :=
  .ofNat (number packet base 2)

/-- Of the strings at `base` there are enough, and the first of them is there. -/
structure PingFits : Prop where
  count : ¬stringCount packet base < 3
  ping : (stringAt packet (base + 2)).isSome

/-- Where the external address starts. -/
def hostEnd : ℕ :=
  behind packet (base + 4 + lengthAt packet (base + 2))

def externalAddress : Option (List UInt8) :=
  (stringAt packet (hostEnd packet base)).map fun string =>
    (packet.drop string.array).take string.length

/-- All the strings at `base` are there, but for the host name and the external address. -/
structure StringsFit : Prop extends PingFits packet base where
  rest : ArraysFit packet ((stringCount packet base).toNat - 3)
    (behind packet (hostEnd packet base))

/-- The external address, if there is one, can be printed. -/
def Prints : Prop :=
  PingFits packet base → ∀ ip ∈ externalAddress packet base, (printExternal ip).isSome

end Params

section Params

variable {base : ℕ} {result : Unpacked}

theorem stringAt_fits {string : Slice} (h : string ∈ stringAt packet base) :
    string.Fits packet := by
  unfold stringAt at h
  split_ifs at h with hfits
  · obtain rfl := Option.mem_some_iff.1 h
    exact hfits.2
  · cases h

theorem unpackBytes_eq (h : base ≤ packet.length) (fail : Bool) :
    unpackBytes packet ⟨base, fail⟩ = some (stringAt packet base, ⟨base, fail⟩) := by
  unfold stringAt
  by_cases hroom : base + 2 ≤ packet.length
  · rw [unpackBytes_of_le (c := ⟨base, fail⟩) hroom]
    by_cases hlong : packet.length < base + 2 + lengthAt packet base
    · rw [if_pos hlong, if_neg fun hfits => not_lt.2 hfits.2 hlong]
    · rw [if_neg hlong, if_pos ⟨hroom, not_lt.1 hlong⟩]
  · rw [unpackBytes_of_lt (c := ⟨base, fail⟩) h (by change packet.length - base < 2; omega),
      if_neg fun hfits => hroom hfits.1]

theorem behind_le (h : base ≤ packet.length) : behind packet base ≤ packet.length := by
  unfold behind
  cases hstring : stringAt packet base with
  | none => exact h
  | some string =>
    dsimp only
    split_ifs
    · exact stringAt_fits hstring
    · exact h

theorem goes_setClient (f : Client → Client) :
    Goes packet base base (setClient f) (fun _ => True) E :=
  .modify _

theorem goes_unpackU16 (h : base + 2 ≤ packet.length) : Goes packet base (base + 2)
    (liftM unpackU16 : Unpack UInt16) (fun x => x = .ofNat (number packet base 2)) E :=
  .lift (unpackU16_of_le h) rfl

theorem goes_unpackBytes (h : base ≤ packet.length) : Goes packet base base
    (liftM unpackBytes : Unpack (Option Slice)) (fun x => x = stringAt packet base) E :=
  .lift (unpackBytes_eq h false) rfl

theorem goes_copy {string : Slice} (h : string.Fits packet) : Goes packet base base
    (liftM (copy string) : Unpack (List UInt8))
    (fun x => x = (packet.drop string.array).take string.length) E :=
  .lift (if_pos h) rfl

theorem goes_skip (string : Slice) : Goes packet base (string.array + string.length)
    (liftM (skip string) : Unpack Unit) (fun _ => True) E :=
  .lift rfl trivial

theorem goes_pingIf {p : Prop} [Decidable p] (hE : p → E (some { result with type := .sendPing })) :
    Goes packet base base (pingIf result p) (fun _ => ¬p) E :=
  Goes.ite (fun hp => .throw (hE hp)) fun hp => .pure hp

theorem goes_orPing {b : Option β} (hE : b = none → E (some { result with type := .sendPing })) :
    Goes packet base base (orPing result b) (fun x => b = some x) E := by
  cases b with
  | none => exact .throw (hE rfl)
  | some b => exact .pure rfl

theorem goes_requireOrPing {n : ℕ} (h : base ≤ packet.length)
    (hE : ¬base + n ≤ packet.length → E (some { result with type := .sendPing })) :
    Goes packet base base (requireOrPing result n) (fun _ => base + n ≤ packet.length) E := by
  by_cases hroom : base + n ≤ packet.length
  · refine Goes.bind (.lift (Q := (· = false)) (lacks_of_le hroom) rfl) ?_
    rintro _ rfl
    exact .pure hroom
  · refine Goes.bind (.lift (Q := (· = true)) (lacks_of_lt h (by dsimp only; omega)) rfl) ?_
    rintro _ rfl
    exact .throw (hE hroom)

theorem goes_unpackValue (h : base + 4 ≤ packet.length) : Goes packet base (base + 4)
    (liftM unpackValue : Unpack UInt32) (fun _ => True) E :=
  .lift (run_bind (load_of_le h) _) trivial

theorem goes_unpackParam (h : base + 4 ≤ packet.length) (f : Int32 → Client → Client) :
    Goes packet base (base + 4) (unpackParam f) (fun _ => True) E :=
  (goes_unpackValue h).bind fun _ _ => goes_setClient _

theorem goes_unpackGlobal (h : base + 4 ≤ packet.length) (f : Int32 → Params → Params) :
    Goes packet base (base + 4) (unpackGlobal f) (fun _ => True) E :=
  goes_unpackParam h _

theorem goes_unpackParam64 (h : base + 8 ≤ packet.length) (f : UInt64 → Client → Client) :
    Goes packet base (base + 8) (unpackParam64 f) (fun _ => True) E :=
  (goes_unpackValue (by omega)).bind fun _ _ => (goes_unpackValue (by omega)).bind fun _ _ =>
    goes_setClient _

theorem goes_unpackGlobals (h : base + 52 ≤ packet.length) :
    Goes packet base (base + 52) unpackGlobals (fun _ => True) E := by
  iterate 12 refine (goes_unpackGlobal (by omega) _).bind fun _ _ => ?_
  exact goes_unpackGlobal (by omega) _

theorem goes_unpackNewer (h : base + 44 ≤ packet.length) :
    Goes packet base (base + 44) unpackNewer (fun _ => True) E := by
  refine (goes_setClient _).bind fun _ _ => ?_
  refine (goes_unpackParam64 (by omega) _).bind fun _ _ => ?_
  iterate 2 refine (goes_unpackGlobal (by omega) _).bind fun _ _ => ?_
  iterate 2 refine (goes_unpackParam64 (by omega) _).bind fun _ _ => ?_
  refine (goes_setClient _).bind fun _ _ => ?_
  iterate 2 refine (goes_unpackGlobal (by omega) _).bind fun _ _ => ?_
  exact goes_unpackParam (by omega) _

theorem goes_unpackRest {count : ℕ} (h : base + count * 4 ≤ packet.length) :
    Goes packet base (base + count * 4) (unpackRest count) (fun _ => True) E := by
  unfold unpackRest
  by_cases hcount : 0 < count
  · rw [if_pos hcount]
    refine (goes_unpackGlobal (by omega) _).bind fun _ _ => ?_
    have hend : base + count * 4 = base + 4 + (count - 1) * 4 := by omega
    rw [hend]
    exact .lift rfl trivial
  · obtain rfl : count = 0 := by omega
    rw [if_neg hcount]
    exact .pure trivial

/-- The parameters are passed over, unless they cannot be used. -/
theorem goes_unpackParams (hroom : base + 4 ≤ packet.length)
    (hE : ¬ParamsFit packet base → E (some { result with type := .sendPing })) :
    Goes packet base (paramsEnd packet base) (unpackParams result)
      (fun _ => ParamsFit packet base) E := by
  refine (goes_unpackU16 (by omega)).bind ?_
  rintro version rfl
  have hcheck : Goes packet (base + 2) (base + 2)
      (checkVersion result (.ofNat (number packet base 2)))
      (fun _ => UInt16.ofNat (number packet base 2) = ansDeviceVersion) E := by
    refine Goes.ite (fun hversion => ?_) fun hversion => .pure (not_not.1 hversion)
    exact (goes_setClient _).bind fun _ _ => .throw (hE fun hfit => hversion hfit.version)
  refine hcheck.bind fun _ hversion => ?_
  refine (goes_unpackU16 (by omega)).bind ?_
  rintro count rfl
  refine (goes_pingIf fun hcount => hE fun hfit => hfit.count hcount).bind fun _ hcount => ?_
  change ¬paramCount packet base < 24 at hcount
  refine (goes_requireOrPing (by omega) fun hshort => hE fun hfit => hshort ?_).bind
    fun _ hlong => ?_
  · have hlong := hfit.room
    unfold paramsEnd paramCount at hlong
    omega
  change base + 2 + 2 + ((paramCount packet base).toNat * 4 + 2) ≤ packet.length at hlong
  have hmany : ¬(paramCount packet base).toNat < 24 := hcount
  refine (goes_unpackGlobals (by omega)).bind fun _ _ => ?_
  refine (goes_unpackNewer (by omega)).bind fun _ _ => ?_
  refine (goes_unpackRest (by change _ + ((paramCount packet base).toNat - 24) * 4 ≤ _; omega)).mono
    ?_ (fun _ _ => ⟨hversion, hcount, ?_⟩) fun _ he => he
  · change _ + ((paramCount packet base).toNat - 24) * 4 = _
    unfold paramsEnd
    omega
  · unfold paramsEnd
    omega

/-- What is done with a string leaves the cursor where it is. -/
theorem goes_unpackString {f : List UInt8 → Unpack Unit}
    (hf : ∀ string ∈ stringAt packet base, Goes packet base base
      (f ((packet.drop string.array).take string.length)) (fun _ => True) E) :
    Goes packet base (behind packet base) (unpackString (stringAt packet base) f)
      (fun _ => True) E := by
  unfold behind
  cases hstring : stringAt packet base with
  | none => exact .pure trivial
  | some string =>
    dsimp only [unpackString]
    split_ifs with hlength
    · refine (goes_copy (stringAt_fits hstring)).bind ?_
      rintro _ rfl
      exact (hf string hstring).bind fun _ _ => goes_skip string
    · exact .pure trivial

/-- Where strings of the lengths that they say end. -/
def stringsEnd (packet : List UInt8) : ℕ → ℕ → ℕ
  | 0, base => base
  | n + 1, base => stringsEnd packet n (base + 2 + lengthAt packet base)

theorem stringsEnd_le {n : ℕ} (h : ArraysFit packet n base) :
    stringsEnd packet n base ≤ packet.length := by
  induction n generalizing base with
  | zero => exact h
  | succ n ih => exact ih h.2.2

theorem goes_skipStrings {n : ℕ} (hbase : base ≤ packet.length)
    (hE : ¬ArraysFit packet n base → E (some { result with type := .sendPing })) :
    Goes packet base (stringsEnd packet n base) (skipStrings result n)
      (fun _ => ArraysFit packet n base) E := by
  induction n generalizing base with
  | zero => exact .pure hbase
  | succ n ih =>
    refine (goes_unpackBytes hbase).bind ?_
    rintro _ rfl
    refine (goes_orPing fun hnone => hE fun hfit => ?_).bind fun string hstring => ?_
    · unfold stringAt at hnone
      rw [if_pos ⟨hfit.1, hfit.2.1⟩] at hnone
      cases hnone
    unfold stringAt at hstring
    split_ifs at hstring with hfits
    obtain rfl := Option.some_injective _ hstring
    refine (goes_skip _).bind fun _ _ => ?_
    refine (ih hfits.2 fun hrest => hE fun hfit => hrest hfit.2.2).mono rfl (fun _ hrest => ?_)
      fun _ he => he
    exact ⟨hfits.1, hfits.2, hrest⟩

theorem goes_unpackHostName (h : base ≤ packet.length) :
    Goes packet base (behind packet base) unpackHostName (fun _ => True) E := by
  refine (goes_setClient _).bind fun _ _ => (goes_unpackBytes h).bind ?_
  rintro _ rfl
  exact goes_unpackString fun _ _ => goes_setClient _

theorem goes_unpackExternal (h : base ≤ packet.length) (hprint : ∀ string ∈ stringAt packet base,
      (printExternal ((packet.drop string.array).take string.length)).isSome) :
    Goes packet base (behind packet base) unpackExternal (fun _ => True) E := by
  refine (goes_unpackBytes h).bind ?_
  rintro _ rfl
  refine (goes_setClient _).bind fun _ _ => goes_unpackString fun string hstring => ?_
  obtain ⟨remaining, hsome⟩ := Option.isSome_iff_exists.1 (hprint string hstring)
  refine (goes_setClient _).bind fun _ _ => ?_
  rw [hsome]
  exact Goes.bind (.lift (Q := fun _ => True) rfl trivial) fun _ _ => .pure trivial

/-- The strings are passed over, unless they cannot be used. -/
theorem goes_unpackStrings (env : Env) (hroom : base + 2 ≤ packet.length)
    (hprint : Prints packet base)
    (hE : ¬StringsFit packet base → E (some { result with type := .sendPing })) :
    Goes packet base (stringsEnd packet ((stringCount packet base).toNat - 3)
        (behind packet (hostEnd packet base))) (unpackStrings env result)
      (fun pingPacket => pingPacket.Fits packet ∧ StringsFit packet base) E := by
  refine (goes_unpackU16 hroom).bind ?_
  rintro _ rfl
  refine (goes_pingIf fun hcount => hE fun hfit => hfit.count hcount).bind fun _ hcount => ?_
  refine (goes_unpackBytes hroom).bind ?_
  rintro _ rfl
  refine (goes_orPing fun hnone => hE fun hfit => ?_).bind fun pingPacket hping => ?_
  · have hsome := hfit.ping
    rw [hnone] at hsome
    cases hsome
  have hfits := stringAt_fits hping
  have hstart : pingPacket.array + pingPacket.length =
      base + 4 + lengthAt packet (base + 2) := by
    unfold stringAt at hping
    split_ifs at hping
    obtain rfl := Option.some_injective _ hping
    rfl
  have hhost : behind packet (pingPacket.array + pingPacket.length) = hostEnd packet base := by
    rw [hostEnd, hstart]
  have hle : hostEnd packet base ≤ packet.length := hhost ▸ behind_le hfits
  have hpingFits : PingFits packet base := ⟨hcount, by rw [hping]; rfl⟩
  refine (goes_skip pingPacket).bind fun _ _ => ?_
  refine (goes_unpackHostName hfits).bind fun _ _ => ?_
  rw [hhost]
  refine (goes_setClient _).bind fun _ _ => ?_
  refine (goes_unpackExternal hle fun string hstring => ?_).bind fun _ _ => ?_
  · exact hprint hpingFits _ (Option.mem_map_of_mem _ hstring)
  refine (goes_skipStrings (behind_le hle) fun hrest => hE fun hfit => hrest hfit.rest).bind
    fun _ hrest => ?_
  exact .pure ⟨hfits, hpingFits, hrest⟩

/-- The fields of device parameters at `base` can be used. -/
structure Usable (packet : List UInt8) (base : ℕ) : Prop where
  params : ParamsFit packet base
  strings : StringsFit packet (paramsEnd packet base)

/-- Where usable device parameters end. -/
def deviceParamsEnd (packet : List UInt8) (base : ℕ) : ℕ :=
  stringsEnd packet ((stringCount packet (paramsEnd packet base)).toNat - 3)
    (behind packet (hostEnd packet (paramsEnd packet base)))

theorem goes_setDeviceParams (env : Env) (hbase : base ≤ packet.length)
    (hprint : ParamsFit packet base → Prints packet (paramsEnd packet base)) (hnone : E none)
    (hE : ¬Usable packet base → E (some { result with type := .sendPing })) :
    Goes packet base (deviceParamsEnd packet base) (setDeviceParams env result)
      (fun _ => Usable packet base) E := by
  by_cases hroom : base + 26 ≤ packet.length
  swap
  · have hshort : packet.length - base < 3 * 2 + signatureSize := by
      change _ < 26
      omega
    exact fun s => .inr ⟨none, s, _, Exiting.run_bind_error (run_require_of_lt hbase hshort) _, hnone⟩
  have hrequire : Goes packet base base (require (3 * 2 + signatureSize)) (fun _ => True) E :=
    fun s => .inl ⟨(), s, run_require hroom, trivial⟩
  refine hrequire.bind fun _ _ => ?_
  refine (goes_unpackParams (by omega) fun hbad => hE fun husable => hbad husable.params).bind
    fun _ hparams => ?_
  refine (goes_unpackStrings env hparams.room (hprint hparams) fun hbad =>
    hE fun husable => hbad husable.strings).bind fun pingPacket hping => ?_
  iterate 2 refine (goes_setClient _).bind fun _ _ => ?_
  refine (goes_copy hping.1).bind fun _ _ => ?_
  iterate 2 refine (goes_setClient _).bind fun _ _ => ?_
  exact .pure ⟨hparams, hping.2⟩

end Params

/-! ### The other types -/

theorem within_unpackStates {env : Env} (n : ℕ) :
    Within I packet 0 0 (unpackStates env n) (fun _ => True) E := by
  induction n with
  | zero => exact .pure (Nat.le_refl 0) trivial
  | succ n ih =>
    have hstate : Within I packet 0 0 (unpackState env n) (fun _ => True) E :=
      within_unpackU64.bind fun _ _ => within_unpackU64.bind fun _ _ =>
        within_unpackU8.bind fun _ _ => .pure (Nat.le_refl 0) trivial
    exact ih.bind fun _ _ => hstate.bind fun _ _ => .pure (Nat.le_refl 0) trivial

theorem within_sendStateList {env : Env} (hE : E none) (result : Unpacked) :
    Within I packet k 0 (sendStateList env result) (fun _ => True) E := by
  refine (within_require hE _).bind fun _ _ => ?_
  refine (within_unpackU16.mono (Nat.le_refl _) (Nat.zero_le _) (fun _ h => h) fun _ h => h).bind
    fun listLength _ => ?_
  refine Within.bind (Q := fun _ => True) (Within.lift fun c hc => ⟨_, c, rfl, hc, trivial⟩)
    fun small _ => ?_
  refine (within_nullIf hE _).bind fun _ _ => ?_
  exact (within_unpackStates _).bind fun _ _ => .pure (Nat.le_refl 0) trivial

theorem within_sendDeviceUpdate (hE : E none) (result : Unpacked) :
    Within I packet k 0 (sendDeviceUpdate result) (fun _ => True) E := by
  refine (within_require hE _).bind fun _ _ => ?_
  exact within_unpackU64.bind fun _ _ => within_unpackU64.bind fun _ _ =>
    .pure (Nat.zero_le _) trivial

theorem within_sendTimedPing (hE : E none) (sequenceId : UInt64) (result : Unpacked) :
    Within I packet k 0 (sendTimedPing sequenceId result) (fun _ => True) E := by
  refine (within_require hE _).bind fun _ _ => ?_
  refine within_unpackU16.bind fun pingCount _ => ?_
  refine (within_require hE _).bind fun _ _ => ?_
  refine (within_nullIf hE _).bind fun _ _ => ?_
  iterate 4 refine within_unpackU64.bind fun _ _ => ?_
  exact (within_discard _).bind fun _ _ => .pure (Nat.le_refl 0) trivial

theorem within_sendResponse (hE : E none) (result : Unpacked) :
    Within I packet k 0 (sendResponse result) (fun _ => True) E := by
  refine (within_require hE _).bind fun _ _ => ?_
  exact within_unpackU64.bind fun _ _ => .pure (Nat.zero_le _) trivial

theorem skipArrays_run {n base : ℕ} (h : ArraysFit packet n base) (s : Session) (fail : Bool) :
    ∃ base' ≤ packet.length,
      skipArrays n s packet ⟨base, fail⟩ = some ((.ok (), s), ⟨base', fail⟩) := by
  induction n generalizing base with
  | zero => exact ⟨base, h, rfl⟩
  | succ n ih =>
    obtain ⟨hlength, hbytes, hrest⟩ := h
    obtain ⟨base', hle, hrun⟩ := ih hrest
    refine ⟨base', hle, ?_⟩
    unfold skipArrays
    rw [Exiting.run_bind (Exiting.run_lift (unpackBytes_of_le hlength)),
      if_neg (not_lt.2 hbytes)]
    exact hrun

theorem sendLoginBlob_run {base : ℕ} (hroom : base + 10 ≤ packet.length)
    (h : ArraysFit packet 4 (base + 10)) (result : Unpacked) (s : Session) :
    ∃ base' ≤ packet.length,
      sendLoginBlob result s packet ⟨base, false⟩ = some ((.ok result, s), ⟨base', false⟩) := by
  obtain ⟨base', hle, hrun⟩ := skipArrays_run h s false
  refine ⟨base', hle, ?_⟩
  unfold sendLoginBlob
  rw [Exiting.run_bind (Exiting.run_lift (unpackU16_of_le (by omega))),
    Exiting.run_bind (Exiting.run_lift (unpackU64_of_le (by omega))), Exiting.run_bind hrun]
  rfl

/-! ## The header -/

def tagged (packet : List UInt8) : Bool :=
  number packet 0 2 = serverTagFlag.toNat

def headerStart (packet : List UInt8) : ℕ :=
  if tagged packet then 2 else 0

def headerEnd (packet : List UInt8) : ℕ :=
  if tagged packet then 40 else 30

/-- The length is the complement of the check length in front of it. -/
def CheckMatches (packet : List UInt8) : Prop :=
  ~~~UInt16.ofNat (number packet (headerStart packet) 2) =
    .ofNat (number packet (headerStart packet + 2) 2)

instance (packet : List UInt8) : Decidable (CheckMatches packet) :=
  inferInstanceAs (Decidable (_ = _))

def headerOf (packet : List UInt8) : Header where
  type := .ofNat (number packet (headerStart packet + 4) 2)
  userId := .ofNat (number packet (headerStart packet + 6) 8)
  asyncId := .ofNat (number packet (headerStart packet + 14) 8)
  sequenceId := .ofNat (number packet (headerStart packet + 22) 8)
  tag := if tagged packet then .ofNat (number packet 32 8) else 0

def packetType (packet : List UInt8) : Option PacketType :=
  PacketType.ofCode (headerOf packet).type

section Header

variable {s : Session}

theorem unpackHeader_of_short (h : packet.length < headerSize) :
    unpackHeader s packet ⟨0, false⟩ = some ((.error none, s), ⟨0, false⟩) := by
  have hleft : left packet ⟨0, false⟩ = some ((packet.length : ℤ), ⟨0, false⟩) := by simp [left]
  have hsmall : (packet.length : ℤ) < (headerSize : ℕ) := by exact_mod_cast h
  unfold unpackHeader
  rw [Exiting.run_bind (Exiting.run_lift hleft)]
  exact Exiting.run_bind_error (run_nullIf hsmall) _

theorem headerEnd_le (h : headerSize ≤ packet.length)
    (htag : tagged packet → 40 ≤ packet.length) : headerEnd packet ≤ packet.length := by
  unfold headerEnd
  split_ifs with hflag
  · exact htag hflag
  · exact h

/-- The length and the check length are read behind the flag for the tag. -/
theorem unpackHeader_run (h : headerSize ≤ packet.length) :
    unpackHeader s packet ⟨0, false⟩ =
      if CheckMatches packet then
        (liftM (unpackIds (tagged packet)) : Unpack Header) s packet
          ⟨headerStart packet + 4, false⟩
      else some ((.error none, s), ⟨headerStart packet + 4, false⟩) := by
  have hstart : headerStart packet + 4 ≤ packet.length := by
    have hflag : headerStart packet ≤ 2 := by unfold headerStart; split_ifs <;> omega
    unfold headerSize at h
    omega
  have hleft : left packet ⟨0, false⟩ = some ((packet.length : ℤ), ⟨0, false⟩) := by simp [left]
  have hlong : ¬(packet.length : ℤ) < (headerSize : ℕ) := by omega
  have hcopy : copy ⟨0, 2⟩ packet ⟨0, false⟩ = some ((packet.drop 0).take 2, ⟨0, false⟩) :=
    if_pos (by change 0 + 2 ≤ _; omega)
  have hskip : skip ⟨0, if tagged packet then 2 else 0⟩ packet ⟨0, false⟩ =
      some ((), ⟨headerStart packet, false⟩) := by simp [skip, headerStart]
  unfold unpackHeader
  rw [Exiting.run_bind (Exiting.run_lift hleft), Exiting.run_bind (run_nullIf_of_not hlong),
    Exiting.run_bind (Exiting.run_lift hcopy)]
  refine (Exiting.run_bind (Exiting.run_lift hskip) _).trans ?_
  rw [Exiting.run_bind (Exiting.run_lift (unpackU16_of_le (by omega))),
    Exiting.run_bind (Exiting.run_lift (unpackU16_of_le (by omega)))]
  by_cases hcheck : CheckMatches packet
  · rw [if_pos hcheck]
    exact Exiting.run_bind (run_nullIf_of_not (not_not.2 hcheck)) _
  · rw [if_neg hcheck]
    exact Exiting.run_bind_error (run_nullIf hcheck) _

theorem unpackIds_of_le (h : headerEnd packet ≤ packet.length) :
    unpackIds (tagged packet) packet ⟨headerStart packet + 4, false⟩ =
      some (headerOf packet, ⟨headerEnd packet, false⟩) := by
  have hroom : headerStart packet + 30 ≤ headerEnd packet := by
    unfold headerStart headerEnd
    split_ifs <;> omega
  unfold unpackIds
  rw [run_bind (unpackU16_of_le (by omega)), run_bind (unpackU64_of_le (by omega)),
    run_bind (unpackU64_of_le (by omega)), run_bind (unpackU64_of_le (by omega))]
  unfold headerOf
  unfold headerEnd at h ⊢
  unfold headerStart
  cases hflag : tagged packet with
  | false => rfl
  | true =>
    rw [if_pos hflag] at h
    have hload : unpackTag true packet ⟨32, false⟩ =
        some (.ofNat (number packet 32 8), ⟨40, false⟩) := run_bind (load_of_le h) _
    exact run_bind hload _

/-- The tag is read though it is not there. -/
theorem unpackIds_of_lt (hflag : tagged packet) (h : packet.length < 40)
    (hlong : headerSize ≤ packet.length) :
    unpackIds (tagged packet) packet ⟨headerStart packet + 4, false⟩ = none := by
  have hstart : headerStart packet = 2 := if_pos hflag
  have htag {c : Cursor} (hc : packet.length < c.base + 8) : unpackTag true packet c = none := by
    have hload : load 8 packet c = none := if_neg (by omega)
    change (load 8 packet c).bind _ = none
    rw [hload]
    rfl
  unfold headerSize at hlong
  unfold unpackIds
  rw [hflag, hstart, run_bind (unpackU16_of_le (by omega)),
    run_bind (unpackU64_of_le (by omega)), run_bind (unpackU64_of_le (by omega))]
  by_cases hsequence : packet.length < 32
  · have hrun : unpackU64 packet ⟨24, false⟩ = some (0, ⟨24, true⟩) := by
      rw [unpackU64, ← bind_pure_comp]
      exact run_bind (unpackU_of_lt (by omega) (by omega)) _
    refine (run_bind hrun _).trans ?_
    change (unpackTag true packet _).bind _ = none
    rw [htag (show packet.length < 24 + 8 by omega)]
    rfl
  · rw [run_bind (unpackU64_of_le (by omega))]
    change (unpackTag true packet _).bind _ = none
    rw [htag (show packet.length < 32 + 8 by omega)]
    rfl

theorem unpackHeader_of_matches (h : headerSize ≤ packet.length)
    (htag : tagged packet → 40 ≤ packet.length) (hcheck : CheckMatches packet) :
    unpackHeader s packet ⟨0, false⟩ =
      some ((.ok (headerOf packet), s), ⟨headerEnd packet, false⟩) := by
  rw [unpackHeader_run h, if_pos hcheck]
  exact Exiting.run_lift (unpackIds_of_le (headerEnd_le h htag))

end Header

/-! ## Packets -/

section Packets

variable {env : Env} {result : Unpacked} {sequenceId : UInt64} {s : Session}

/-- What may be returned early: null, and a ping in place of device parameters that cannot be
used. -/
def Early (packet : List UInt8) (type : PacketType) (e : Option Unpacked) : Prop :=
  ∀ r, e = some r →
    r.type = .sendPing ∧ type = .setDeviceParams ∧ ¬Usable packet (headerEnd packet)

theorem early_none (packet : List UInt8) (type : PacketType) : Early packet type none := by
  rintro r ⟨⟩

/-- The run does not leave the packet. -/
def Inside (packet : List UInt8) (type : PacketType)
    (run : Option ((Except (Option Unpacked) β × Session) × Cursor)) : Prop :=
  (∃ b s c, run = some ((.ok b, s), c) ∧ c.base ≤ packet.length) ∨
    ∃ e s c, run = some ((.error e, s), c) ∧ Early packet type e

theorem inside_of_within {type : PacketType} {d : Unpack β} {Q : β → Prop} {c : Cursor}
    (h : Within I packet 0 0 d Q (Early packet type)) (hs : I s) (hc : c.base ≤ packet.length) :
    Inside packet type (d s packet c) := by
  obtain ⟨b, s', c', hrun, -, hc', -⟩ | ⟨e, s', c', hrun, he⟩ := h s c hs hc
  · exact .inl ⟨b, s', c', hrun, hc'⟩
  · exact .inr ⟨e, s', c', hrun, he⟩

/-- The arrays of a login blob lie in the packet. -/
def BlobFits (packet : List UInt8) : Prop :=
  headerEnd packet + 10 ≤ packet.length ∧ ArraysFit packet 4 (headerEnd packet + 10)

theorem length_toDigits_le (byte : UInt8) : (Nat.toDigits 10 byte.toNat).length ≤ 3 :=
  (Nat.length_toDigits_le_iff (by decide) (by decide)).2 (byte.toNat_lt.trans (by decide))

/-- Four bytes of the buffer are enough for each byte of the address, and the last two bytes of the
address may find it full. -/
theorem isSome_printFrom {remaining : ℤ} {i : ℕ} {ip : List UInt8} (hip : i + ip.length < 130)
    (h : i = 0 ∧ 511 ≤ remaining ∨ 0 < i ∧ 512 ≤ remaining + 4 * i) :
    (printFrom remaining i ip).isSome := by
  induction ip generalizing remaining i with
  | nil => rfl
  | cons byte ip ih =>
    rw [List.length_cons] at hip
    have hdigits := length_toDigits_le byte
    unfold printFrom printByte
    dsimp only
    split_ifs
    · omega
    · exact ih (by omega) (by omega)
    · omega
    · exact ih (by omega) (by omega)

theorem isSome_printExternal {ip : List UInt8} (h : ip.length < 130) :
    (printExternal ip).isSome :=
  isSome_printFrom (by omega) (.inl ⟨rfl, by decide⟩)

example : printExternal (List.replicate 130 100) = none := by decide +kernel

/-- If the parameters of a device come to an external address, it can be printed. -/
def ExternalPrints (packet : List UInt8) : Prop :=
  ParamsFit packet (headerEnd packet) → Prints packet (paramsEnd packet (headerEnd packet))

theorem inside_unpackFields (env : Env) (sequenceId : UInt64) (result : Unpacked)
    (hbase : headerEnd packet ≤ packet.length)
    (hkey : result.type = .sendSleepSetup →
      ∃ key, (s.client.bind fun client => client.crypto) = some key)
    (hblob : result.type = .sendLoginBlob → BlobFits packet)
    (hexternal : result.type = .setDeviceParams → ExternalPrints packet) :
    Inside packet result.type
      (unpackFields env sequenceId result s packet ⟨headerEnd packet, false⟩) := by
  have hinside {type : PacketType} {d : Unpack Unpacked}
      (h : Within (fun _ => True) packet 0 0 d (fun _ => True) (Early packet type)) :
      Inside packet type (d s packet ⟨headerEnd packet, false⟩) := inside_of_within h trivial hbase
  unfold unpackFields
  cases htype : result.type with
  | sendUnicast => exact hinside (within_sendUnicast (early_none _ _) result)
  | sendMulticast => exact hinside (within_sendMulticast (early_none _ _) result)
  | sendSleepSetup =>
    exact inside_of_within (within_sendSleepSetup (early_none _ _) (fun _ h => h) result)
      (hkey htype) hbase
  | sendChallenge =>
    exact hinside (within_sendChallenge (early_none _ _) (fun _ => trivial) env result)
  | setDeviceParams =>
    have hgoes : Goes packet (headerEnd packet) (deviceParamsEnd packet (headerEnd packet))
        (setDeviceParams env result) (fun _ => Usable packet (headerEnd packet))
        (Early packet .setDeviceParams) := by
      refine goes_setDeviceParams env hbase (hexternal htype) (early_none _ _) ?_
      rintro hbad r ⟨⟩
      exact ⟨rfl, rfl, hbad⟩
    obtain ⟨b, s', hrun, husable⟩ | hearly := hgoes s
    · exact .inl ⟨b, s', _, hrun, stringsEnd_le husable.strings.rest⟩
    · exact .inr hearly
  | sendStateList => exact hinside (within_sendStateList (early_none _ _) result)
  | sendDeviceUpdate => exact hinside (within_sendDeviceUpdate (early_none _ _) result)
  | sendPing => exact .inl ⟨_, _, _, rfl, hbase⟩
  | sendLoginBlob =>
    obtain ⟨hroom, hfit⟩ := hblob htype
    obtain ⟨base', hle, hrun⟩ := sendLoginBlob_run hroom hfit result s
    exact .inl ⟨_, _, _, hrun, hle⟩
  | sendTimedPing => exact hinside (within_sendTimedPing (early_none _ _) sequenceId result)
  | sendResponse => exact hinside (within_sendResponse (early_none _ _) result)
  | rejectCredentials => exact .inl ⟨_, _, _, rfl, hbase⟩

theorem within_unpackNotification (hE : E none) (result : Unpacked) :
    Within I packet 0 0 (unpackNotification result) (fun _ => True) E := by
  have hmessage : Within I packet 0 0 (do
      let notification ← orNull (← unpackBytes)
      let bytes ← copy notification
      skip notification
      return { result with notification := bytes } : Unpack Unpacked) (fun _ => True) E := by
    refine within_unpackBytes.bind fun notification? hs => ?_
    refine (within_orNull hE _).bind fun notification h => ?_
    refine (within_copy (hs notification h)).bind fun bytes _ => ?_
    exact (within_skip (hs notification h)).bind fun _ _ => .pure (Nat.le_refl 0) trivial
  unfold unpackNotification
  split
  · exact hmessage
  · exact hmessage
  · exact .pure (Nat.le_refl 0) trivial

/-- A rejection is noted before the size is checked. -/
def noteRejection (type : PacketType) (s : Session) : Session :=
  { s with client := s.client.map fun client =>
      if type = .rejectCredentials then { client with rejected := true } else client }

theorem checkSize_of_eq (env : Env) (s : Session) {type : PacketType} {c : Cursor}
    (h : (packet.length : ℤ) - c.base - type.signatureSize = 0) :
    ∃ s', checkSize env type s packet c = some ((.ok (), s'), c) :=
  ⟨_, (Exiting.run_bind (Exiting.run_lift rfl) _).trans <|
    (Exiting.run_bind rfl _).trans <| Exiting.run_bind (run_nullIf_of_not (not_not.2 h)) _⟩

theorem checkSize_of_ne {type : PacketType} {c : Cursor}
    (h : (packet.length : ℤ) - c.base - type.signatureSize ≠ 0) :
    checkSize env type s packet c = some ((.error none, noteRejection type s), c) :=
  (Exiting.run_bind (Exiting.run_lift rfl) _).trans <|
    (Exiting.run_bind rfl _).trans <| Exiting.run_bind_error (run_nullIf h) _

theorem checkSequence_of_mismatch
    (h : s.expectedId.any fun expectedId => sequenceId ≠ expectedId) (c : Cursor) :
    checkSequence sequenceId s packet c = some ((.error none, s), c) :=
  (Exiting.run_bind Exiting.run_get _).trans (Exiting.run_bind_error (run_nullIf h) _)

theorem checkSequence_of_not_mismatch
    (h : ¬s.expectedId.any fun expectedId => sequenceId ≠ expectedId) (c : Cursor) :
    ∃ s', s'.client = s.client ∧ checkSequence sequenceId s packet c = some ((.ok (), s'), c) := by
  refine ⟨_, ?_, (Exiting.run_bind Exiting.run_get _).trans
    (Exiting.run_bind (run_nullIf_of_not h) _)⟩
  rfl

/-- A result comes from a packet of an unknown type, or from one that ends with its signature. -/
def Accounted (packet : List UInt8) (type? : Option PacketType) (base : ℕ) (r : Unpacked) : Prop :=
  (type? = none ∧ r.type = .sendPing) ∨
    ∃ type, type? = some type ∧ base + type.signatureSize = packet.length

theorem unpackBody_run (env : Env) (s : Session) (header : Header)
    (hbase : headerEnd packet ≤ packet.length)
    (hkey : PacketType.ofCode header.type = some .sendSleepSetup →
      ∀ client, s.client = some client → client.crypto ≠ none)
    (hblob : PacketType.ofCode header.type = some .sendLoginBlob → BlobFits packet)
    (hexternal : PacketType.ofCode header.type = some .setDeviceParams → ExternalPrints packet) :
    (∃ r s' c', unpackBody env header s packet ⟨headerEnd packet, false⟩ =
        some ((.ok r, s'), c') ∧
      Accounted packet (PacketType.ofCode header.type) c'.base r) ∨
    ∃ e s' c', unpackBody env header s packet ⟨headerEnd packet, false⟩ =
        some ((.error e, s'), c') ∧
      ∀ r, e = some r → r.type = .sendPing ∧
        PacketType.ofCode header.type = some .setDeviceParams ∧
          ¬Usable packet (headerEnd packet) := by
  unfold unpackBody
  by_cases hid : s.expectedId.any fun expectedId => header.sequenceId ≠ expectedId
  · exact .inr ⟨_, _, _, Exiting.run_bind_error (checkSequence_of_mismatch hid _) _, by simp⟩
  obtain ⟨s₁, hclient, hrun⟩ := checkSequence_of_not_mismatch hid ⟨headerEnd packet, false⟩
  rw [Exiting.run_bind hrun]
  cases htype : PacketType.ofCode header.type with
  | none => exact .inl ⟨_, _, _, rfl, .inl ⟨rfl, rfl⟩⟩
  | some type =>
    dsimp only
    rw [Exiting.run_bind Exiting.run_get]
    by_cases hnull : s₁.client = none ∧ ¬type.withoutClient
    · exact .inr ⟨_, _, _, Exiting.run_bind_error (run_nullIf hnull) _, by simp⟩
    rw [Exiting.run_bind (run_nullIf_of_not hnull)]
    have hkey' : type = .sendSleepSetup →
        ∃ key, (s₁.client.bind fun client => client.crypto) = some key := by
      rintro rfl
      obtain ⟨client, hsome⟩ := Option.ne_none_iff_exists'.1 fun h => hnull ⟨h, by decide⟩
      obtain ⟨key, hcrypto⟩ := Option.ne_none_iff_exists'.1 (hkey htype client (hclient ▸ hsome))
      exact ⟨key, by rw [hsome, Option.bind_some, hcrypto]⟩
    have hfields := inside_unpackFields env header.sequenceId
      { type := type, userId := header.userId, asyncId := header.asyncId, tag := header.tag } hbase
      hkey' (fun h => hblob (htype.trans (congrArg some h)))
      fun h => hexternal (htype.trans (congrArg some h))
    obtain ⟨r, s₂, c₂, hrun, hc₂⟩ | ⟨e, s₂, c₂, hrun, he⟩ := hfields
    swap
    · exact .inr ⟨_, _, _, Exiting.run_bind_error hrun _, fun r hr =>
        ⟨(he r hr).1, congrArg some (he r hr).2.1, (he r hr).2.2⟩⟩
    rw [Exiting.run_bind hrun]
    have hmessage : Inside packet type (unpackNotification r s₂ packet c₂) :=
      inside_of_within (I := fun _ => True) (within_unpackNotification (early_none packet type) r)
        trivial hc₂
    obtain ⟨r', s₃, c₃, hrun, hc₃⟩ | ⟨e, s₃, c₃, hrun, he⟩ := hmessage
    swap
    · exact .inr ⟨_, _, _, Exiting.run_bind_error hrun _, fun r hr =>
        ⟨(he r hr).1, congrArg some (he r hr).2.1, (he r hr).2.2⟩⟩
    rw [Exiting.run_bind hrun]
    by_cases hsize : (packet.length : ℤ) - c₃.base - type.signatureSize = 0
    · obtain ⟨s₄, hrun⟩ := checkSize_of_eq env s₃ hsize
      exact .inl ⟨_, _, _, Exiting.run_bind hrun _, .inr ⟨type, rfl, by omega⟩⟩
    · exact .inr ⟨_, _, _, Exiting.run_bind_error (checkSize_of_ne hsize) _, by simp⟩

end Packets

/-- The packet is unpacked without a load outside it or the use of what was not set. -/
def Bounded (env : Env) (client : Option Client) (packet : List UInt8)
    (expectedId : Option UInt64) (ofResult : Unpacked → ℕ → Prop) : Prop :=
  ∃ u, unpack env client packet expectedId = some u ∧ ∀ r, u.result = some r → ofResult r u.base

/-- The fields and the signature of the type take up the packet. -/
def TakesAll (packet : List UInt8) (base : ℕ) : Prop :=
  ∃ type, packetType packet = some type ∧ base + type.signatureSize = packet.length

/-- What a result comes from: a packet that its fields and signature take up, or a packet that is
taken for a ping, since its type is not known or its device parameters cannot be used. -/
def Explained (packet : List UInt8) (r : Unpacked) (base : ℕ) : Prop :=
  TakesAll packet base ∨ (r.type = .sendPing ∧ (packetType packet = none ∨
    packetType packet = some .setDeviceParams ∧ ¬Usable packet (headerEnd packet)))

theorem unpack_within (env : Env) (client : Option Client) (packet : List UInt8)
    (expectedId : Option UInt64)
    (htag : headerSize ≤ packet.length → tagged packet → 40 ≤ packet.length)
    (hkey : packetType packet = some .sendSleepSetup →
      ∀ c, client = some c → c.crypto ≠ none)
    (hblob : packetType packet = some .sendLoginBlob → BlobFits packet)
    (hexternal : packetType packet = some .setDeviceParams → ExternalPrints packet) :
    Bounded env client packet expectedId (Explained packet) := by
  by_cases hshort : packet.length < headerSize
  · refine ⟨⟨none, client, expectedId, 0⟩, ?_, by simp⟩
    unfold unpack unpackPacket
    rw [Exiting.run_bind_error (unpackHeader_of_short hshort)]
    rfl
  have hlong : headerSize ≤ packet.length := not_lt.1 hshort
  by_cases hcheck : CheckMatches packet
  swap
  · refine ⟨⟨none, client, expectedId, headerStart packet + 4⟩, ?_, by simp⟩
    have hrun := (unpackHeader_run (s := ⟨client, expectedId⟩) hlong).trans (if_neg hcheck)
    unfold unpack unpackPacket
    rw [Exiting.run_bind_error hrun]
    rfl
  have hheader : unpackPacket env ⟨client, expectedId⟩ packet ⟨0, false⟩ =
      unpackBody env (headerOf packet) ⟨client, expectedId⟩ packet ⟨headerEnd packet, false⟩ :=
    Exiting.run_bind (unpackHeader_of_matches hlong (htag hlong) hcheck) _
  unfold Bounded unpack
  rw [hheader]
  obtain ⟨r, s, c, hrun, hr⟩ | ⟨e, s, c, hrun, he⟩ :=
    unpackBody_run env ⟨client, expectedId⟩ (headerOf packet)
      (headerEnd_le hlong (htag hlong)) hkey hblob hexternal
  · rw [hrun]
    refine ⟨_, rfl, fun r' hr' => ?_⟩
    obtain rfl := Option.some_injective _ hr'
    obtain ⟨hnone, hping⟩ | htakes := hr
    · exact .inr ⟨hping, .inl hnone⟩
    · exact .inl htakes
  · rw [hrun]
    refine ⟨_, rfl, fun r hr => .inr ?_⟩
    obtain ⟨hping, hparams⟩ := he r hr
    exact ⟨hping, .inr hparams⟩

/-- Nothing can be decrypted. -/
def keyless : Env where
  now := 0
  memory := fun _ => 0
  decrypt := fun _ _ _ => none
  length_decrypt := by simp

/-- A login blob with a tag and four empty arrays. -/
def loginBlob : List UInt8 :=
  [255, 255, 255, 177, 0, 78, 0, 26] ++ List.replicate 32 0 ++ [0, 1] ++ List.replicate 36 0

theorem unpack_within_loginBlob : packetType loginBlob = some .sendLoginBlob ∧
    Bounded keyless none loginBlob none (Explained loginBlob) := by
  have htype : packetType loginBlob = some .sendLoginBlob := by decide +kernel
  refine ⟨htype, unpack_within keyless none loginBlob none (fun _ _ => by decide +kernel) ?_ ?_ ?_⟩
  · rintro - c ⟨⟩
  · refine fun _ => ⟨by decide +kernel, ?_⟩
    iterate 4 refine ⟨by decide +kernel, by decide +kernel, ?_⟩
    change _ ≤ _
    decide +kernel
  · intro hparams
    rw [htype] at hparams
    cases hparams

/-- A packet of type 99 with a byte behind its header. -/
def unknownType : List UInt8 :=
  [255, 224, 0, 31, 0, 99] ++ List.replicate 24 0 ++ [7]

theorem not_bounded_unknownType : CheckMatches unknownType ∧
    ¬Bounded keyless none unknownType none fun _ base => TakesAll unknownType base := by
  refine ⟨by decide +kernel, ?_⟩
  rintro ⟨u, hrun, htakes⟩
  have hping : (unpack keyless none unknownType none).map (fun u => u.result.isSome) =
      some true := by decide +kernel
  rw [hrun] at hping
  obtain ⟨r, hr⟩ := Option.isSome_iff_exists.1 (Option.some_injective _ hping)
  obtain ⟨type, htype, -⟩ := htakes r hr
  have hnone : packetType unknownType = none := by decide +kernel
  rw [hnone] at htype
  cases htype

end PersonalCloud.Ans
